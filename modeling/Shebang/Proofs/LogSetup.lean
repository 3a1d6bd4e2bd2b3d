import Shebang.Log.Root
import Shebang.Proofs.Commands

/-!
The two ways to set the log up from the environment: on its own, and by a run, which reads the level
first and hands it over. Both leave the root with one handler and, but for level zero, alike: a run
keeps a zero, and the log on its own takes it for no level at all.
-/

namespace Shebang

namespace Log

variable {environment : Option Text} {given : Option Nat}

namespace Root

def sole (level : Int) : Root := ⟨level, [.console (level < 20)]⟩

theorem foldl_remove (hs : List Handler) (level : Int) :
    hs.foldl remove ⟨level, hs⟩ = ⟨level, []⟩ := by
  induction hs with
  | nil => rfl
  | cons h hs ih =>
    have hstep : remove ⟨level, h :: hs⟩ h = ⟨level, hs⟩ := by rw [remove, List.erase_cons_head]
    rw [List.foldl_cons, hstep, ih]

theorem install_ofLevel (r : Root) (level : Int) : r.install (.ofLevel level) = sole level := by
  rw [install, foldl_remove]
  rfl

end Root

theorem setup_none (h : parseLevel environment = .ok given) :
    setup none environment = .ok (.ofLevel ((given.filter (0 < ·)).getD critical)) := by
  rw [setup, h]
  rcases given with _ | _ | n <;> rfl

end Log

namespace CommandLine

open Log (Root critical parseLevel)

variable {environment : Option Text} {given : Option Nat}

/-- The root of the log as a run sets it up, which reads the level first. -/
def openRoot (r : Root) (environment : Option Text) : Except Text.NumeralError Root := do
  let given ← parseLevel environment
  r.setup (given.map Int.ofNat) environment

theorem openRoot_eq (r : Root) (environment : Option Text) :
    openRoot r environment = r.install <$> openLog environment := by
  rw [openRoot, openLog]
  cases parseLevel environment with
  | ok given => rfl
  | error e => rfl

theorem openLog_eq (h : parseLevel environment = .ok given) :
    openLog environment = .ok (.ofLevel (given.getD critical)) := by
  rw [openLog, h, Attempt.ok_bind]
  cases given with
  | none => exact Log.setup_none h
  | some n => rfl

/-- For every level that can be read, and whatever the roots were like before, the root that a run
sets up has the level, or the critical one if there is none, and the root on its own is the same
exactly if the level is not zero. -/
theorem openRoot_setup (h : parseLevel environment = .ok given) (r r' : Root) :
    openRoot r environment = .ok (.sole (given.getD critical)) ∧
    r'.setup none environment = .ok (.sole ((given.filter (0 < ·)).getD critical)) ∧
    (r'.setup none environment = openRoot r environment ↔ given ≠ some 0) ∧
    ∀ w values s, w.environment.logLevel = environment → (openSession w values).value = .ok s →
      s.log = .ofLevel (given.getD critical) := by
  have hopen : openRoot r environment = .ok (.sole (given.getD critical)) := by
    rw [openRoot_eq, openLog_eq h]
    exact congrArg Except.ok (r.install_ofLevel _)
  have hown : r'.setup none environment =
      .ok (.sole ((given.filter (0 < ·)).getD critical)) := by
    rw [Root.setup, Log.setup_none h]
    exact congrArg Except.ok (r'.install_ofLevel _)
  refine ⟨hopen, hown, ?_, ?_⟩
  · rw [hopen, hown]
    rcases given with _ | _ | n
    · exact iff_of_true rfl nofun
    · exact iff_of_false (by decide) (fun hne => hne rfl)
    · exact iff_of_true rfl nofun
  · rintro w values s rfl hs
    obtain ⟨-, -, hlog, -⟩ := openSession_eq hs
    rw [openLog_eq h] at hlog
    exact (Except.ok.inj hlog).symm

theorem openRoot_setup_debug :
    parseLevel (some " Debug ") = .ok (some 10) ∧
    openRoot .initial (some " Debug ") = .ok ⟨10, [.console true]⟩ ∧
    Root.setup ⟨50, [.foreign 0, .console false]⟩ none (some " Debug ") =
      .ok ⟨10, [.console true]⟩ := by
  have hlevel : parseLevel (some " Debug ") = .ok (some 10) := by decide +kernel
  obtain ⟨hopen, hown, -, -⟩ :=
    openRoot_setup hlevel .initial ⟨50, [.foreign 0, .console false]⟩
  exact ⟨hlevel, hopen, hown⟩

theorem openRoot_zero :
    openRoot .initial (some "0") = .ok ⟨0, [.console true]⟩ ∧
    Root.setup .initial none (some "0") = .ok ⟨50, [.console false]⟩ := by
  decide +kernel

end CommandLine

end Shebang
