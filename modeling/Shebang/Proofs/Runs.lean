import Shebang.CommandLine.Session
import Shebang.Proofs.Attempt

/-!
What a part of a run comes to: the value that it yields, or how it ends the run, and what it writes
on either channel. Both are known of a sequence as soon as they are known of its steps.
-/

namespace Shebang.CommandLine

namespace Program

variable {α β ι : Type}

def value (x : Program α) : Except Ending α := (ExceptT.run x).value

def written (channel : Emission → Text) (x : Program α) : Text :=
  (ExceptT.run x).log.flatMap channel

@[simp] theorem value_pure (a : α) : (pure a : Program α).value = .ok a := rfl

@[simp] theorem value_emit (es : List Emission) : (emit es).value = .ok () := rfl

@[simp] theorem value_bind (x : Program α) (f : α → Program β) :
    (x >>= f).value = x.value >>= fun a => (f a).value :=
  Recorded.value_run_bind x f

section Written

variable {channel : Emission → Text}

@[simp] theorem written_pure (a : α) : (pure a : Program α).written channel = [] := rfl

@[simp] theorem written_emit (es : List Emission) :
    (emit es).written channel = es.flatMap channel := by
  change (es ++ []).flatMap channel = es.flatMap channel
  rw [List.append_nil]

theorem written_bind (x : Program α) (f : α → Program β) :
    (x >>= f).written channel = x.written channel ++
      match x.value with
      | .ok a => (f a).written channel
      | .error _ => [] := by
  rw [written, Recorded.log_run_bind, List.flatMap_append]
  simp only [value, written]
  cases (ExceptT.run x).value with
  | ok a => rfl
  | error e => rfl

theorem written_bind_ok {x : Program α} {a : α} (h : x.value = .ok a) (f : α → Program β) :
    (x >>= f).written channel = x.written channel ++ (f a).written channel := by
  rw [written_bind, h]

theorem quiet_bind {x : Program α} {f : α → Program β} (hx : x.written channel = [])
    (hf : ∀ a, (f a).written channel = []) : (x >>= f).written channel = [] := by
  rw [written_bind, hx, List.nil_append]
  cases x.value with
  | ok a => exact hf a
  | error e => rfl

end Written

section Loops

variable {channel : Emission → Text} {f : ι → Program α} {xs : List ι}

theorem value_mapM (f : ι → Program α) (xs : List ι) :
    (xs.mapM f).value = xs.mapM fun x => (f x).value := by
  induction xs with
  | nil => rfl
  | cons x xs ih =>
    rw [List.mapM_cons, List.mapM_cons, value_bind]
    simp only [value_bind, value_pure, ih]
    rfl

theorem quiet_mapM (h : ∀ x ∈ xs, (f x).written channel = []) :
    (xs.mapM f).written channel = [] := by
  induction xs with
  | nil => rfl
  | cons x xs ih =>
    obtain ⟨hx, hxs⟩ := List.forall_mem_cons.mp h
    rw [List.mapM_cons]
    refine quiet_bind hx fun a => quiet_bind (ih hxs) fun as => ?_
    exact written_pure _

/-- A loop that nothing stops writes what its rounds write, one after another. -/
theorem written_mapM {v : ι → α} (h : ∀ x ∈ xs, (f x).value = .ok (v x)) :
    (xs.mapM f).written channel = xs.flatMap fun x => (f x).written channel := by
  induction xs with
  | nil => rfl
  | cons x xs ih =>
    obtain ⟨hx, hxs⟩ := List.forall_mem_cons.mp h
    have hrest : (xs.mapM f >>= fun as => pure (v x :: as)).written channel =
        (xs.mapM f).written channel := by
      rw [written_bind]
      cases (xs.mapM f).value <;> simp
    rw [List.mapM_cons, written_bind_ok hx, hrest, ih hxs, List.flatMap_cons]

end Loops

end Program

theorem mapM_ok {ι α ε : Type} {f : ι → Except ε α} {v : ι → α} {xs : List ι}
    (h : ∀ x ∈ xs, f x = .ok (v x)) : xs.mapM f = .ok (xs.map v) := by
  induction xs with
  | nil => rfl
  | cons x xs ih =>
    obtain ⟨hx, hxs⟩ := List.forall_mem_cons.mp h
    rw [List.mapM_cons, hx, ih hxs]
    rfl

namespace Session

variable {α ε : Type} (s : Session)

theorem outText_logLines (d : Diagnostic) : (s.logLines d).flatMap Emission.outText = [] := by
  rw [logLines]
  split <;> rfl

@[simp] theorem output_record (d : Diagnostic) : (s.record d).written Emission.outText = [] := by
  rw [record, Program.written_emit, outText_logLines]

@[simp] theorem output_traced (x : Traced α) : (s.traced x).written Emission.outText = [] := by
  rw [traced, Program.written_bind, Program.written_emit]
  simp [List.flatMap_assoc, outText_logLines]

@[simp] theorem value_attempt (x : Attempt ε α) : (s.attempt x).value = .ok x.outcome := rfl

@[simp] theorem output_attempt (x : Attempt ε α) : (s.attempt x).written Emission.outText = [] :=
  s.output_traced _

@[simp] theorem output_error (t : Text) : (s.error t).written Emission.outText = [] := rfl

@[simp] theorem value_print (texts : List Text) : (s.print texts).value = .ok () := rfl

@[simp] theorem output_print (texts : List Text) : (s.print texts).written Emission.outText =
    Emission.outputOf (texts.map s.console.printLine) :=
  Program.written_emit _

end Session

end Shebang.CommandLine
