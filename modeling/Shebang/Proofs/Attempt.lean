import Mathlib.Data.List.Forall2
import Shebang.Diagnostic

/-!
What an attempt comes to, without the diagnostics that it leaves. The outcome of a sequence is the
sequence of the outcomes, so a question about outcomes is one about `Except` alone. A loop comes to
what its rounds come to, up to the first one that fails.
-/

namespace Shebang

namespace Recorded

variable {ω ε α β : Type}

instance : LawfulMonad (Recorded ω) :=
  LawfulMonad.mk' _ (fun x => by simp [Functor.map]) (fun a f => by simp [bind, pure])
    (fun x f g => by simp [bind])

theorem value_run_bind (x : ExceptT ε (Recorded ω) α) (f : α → ExceptT ε (Recorded ω) β) :
    (ExceptT.run (x >>= f)).value =
      (ExceptT.run x).value >>= fun a => (ExceptT.run (f a)).value := by
  simp only [ExceptT.run_bind, value_bind]
  cases (ExceptT.run x).value with
  | ok a => rfl
  | error e => rfl

/-- What is left behind by a sequence: nothing is left by what comes after a failure. -/
theorem log_run_bind (x : ExceptT ε (Recorded ω) α) (f : α → ExceptT ε (Recorded ω) β) :
    (ExceptT.run (x >>= f)).log = (ExceptT.run x).log ++
      match (ExceptT.run x).value with
      | .ok a => (ExceptT.run (f a)).log
      | .error _ => [] := by
  simp only [ExceptT.run_bind, log_bind]
  cases (ExceptT.run x).value with
  | ok a => rfl
  | error e => rfl

end Recorded

namespace Attempt

variable {ε ε' α β : Type}

@[simp] theorem outcome_pure (a : α) : (pure a : Attempt ε α).outcome = .ok a := rfl

@[simp] theorem outcome_throw (e : ε) : (throw e : Attempt ε α).outcome = .error e := rfl

@[simp] theorem outcome_note (severity : Severity) (message : Text) :
    (note severity message : Attempt ε Unit).outcome = .ok () := rfl

@[simp] theorem outcome_lift (x : Traced α) :
    outcome (ExceptT.lift x : Attempt ε α) = .ok x.value := rfl

@[simp] theorem outcome_bind (x : Attempt ε α) (f : α → Attempt ε β) :
    (x >>= f).outcome = x.outcome >>= fun a => (f a).outcome :=
  Recorded.value_run_bind x f

@[simp] theorem ok_bind (a : α) (f : α → Except ε β) : (Except.ok a >>= f) = f a := rfl

@[simp] theorem error_bind (e : ε) (f : α → Except ε β) :
    (Except.error e >>= f) = Except.error e := rfl

theorem outcome_map (f : α → β) (x : Attempt ε α) :
    (f <$> x).outcome = x.outcome.map f := by
  simp only [outcome, Functor.map, ExceptT.map, ExceptT.run, ExceptT.mk, Recorded.value_bind]
  cases x.value <;> rfl

theorem outcome_tryCatch (x : Attempt ε α) (handle : ε → Attempt ε α) :
    (tryCatch x handle).outcome =
      match x.outcome with
      | .ok a => .ok a
      | .error e => (handle e).outcome := by
  simp only [outcome, tryCatch, tryCatchThe, MonadExceptOf.tryCatch, ExceptT.tryCatch, ExceptT.run,
    ExceptT.mk, Recorded.value_bind]
  cases x.value <;> rfl

theorem bind_eq_ok {x : Except ε α} {f : α → Except ε β} {b : β} :
    (x >>= f) = .ok b ↔ ∃ a, x = .ok a ∧ f a = .ok b := by
  cases x with
  | ok a => simp
  | error e => simp

theorem bind_eq_error {x : Except ε α} {f : α → Except ε β} {e : ε} :
    (x >>= f) = .error e ↔ x = .error e ∨ ∃ a, x = .ok a ∧ f a = .error e := by
  cases x with
  | ok a => simp
  | error e' => simp

@[simp] theorem mapError_ok (f : ε → ε') (a : α) :
    (Except.ok a : Except ε α).mapError f = .ok a := rfl

@[simp] theorem mapError_error (f : ε → ε') (e : ε) :
    (Except.error e : Except ε α).mapError f = .error (f e) := rfl

theorem mapError_eq_ok {x : Except ε α} {f : ε → ε'} {a : α} :
    x.mapError f = .ok a ↔ x = .ok a := by
  cases x with
  | ok a' => simp
  | error e => simp

@[simp] theorem outcome_adapt (f : ε → ε') (x : Attempt ε α) :
    outcome (ExceptT.adapt f x) = x.outcome.mapError f := rfl

theorem outcome_foldlM (f : β → α → Attempt ε β) (xs : List α) (b : β) :
    (xs.foldlM f b).outcome = xs.foldlM (fun b a => (f b a).outcome) b := by
  induction xs generalizing b with
  | nil => rfl
  | cons x xs ih => simp [ih]

theorem foldlM_invariant {f : β → α → Except ε β} {P : β → Prop}
    (hstep : ∀ b x b', P b → f b x = .ok b' → P b') {xs : List α} {b b' : β} (hb : P b)
    (h : xs.foldlM f b = .ok b') : P b' := by
  induction xs generalizing b with
  | nil => exact Except.ok.inj h ▸ hb
  | cons x xs ih =>
    obtain ⟨next, hx, hxs⟩ := bind_eq_ok.mp h
    exact ih (hstep b x next hb hx) hxs

theorem mapM_eq_ok_iff {f : α → Except ε β} {xs : List α} {ys : List β} :
    xs.mapM f = .ok ys ↔ List.Forall₂ (fun x y => f x = .ok y) xs ys := by
  induction xs generalizing ys with
  | nil =>
    rw [List.forall₂_nil_left_iff]
    exact ⟨fun h => (Except.ok.inj h).symm, fun h => h ▸ rfl⟩
  | cons x xs ih =>
    rw [List.mapM_cons]
    constructor
    · intro h
      obtain ⟨y, hy, h⟩ := bind_eq_ok.mp h
      obtain ⟨rest, hrest, h⟩ := bind_eq_ok.mp h
      exact Except.ok.inj h ▸ .cons hy (ih.mp hrest)
    · rintro (_ | ⟨hy, hrest⟩)
      rw [hy, ok_bind, ih.mpr hrest]
      rfl

theorem ok_of_mapM {f : α → Except ε β} {xs : List α} {ys : List β} {x : α}
    (h : xs.mapM f = .ok ys) (hx : x ∈ xs) : ∃ y, f x = .ok y := by
  have hrounds := (mapM_eq_ok_iff.mp h).imp fun _ y hy => And.intro (Exists.intro y hy) hy
  exact ((List.forall₂_and_left _ _).mp hrounds).1 x hx

theorem mapM_eq_error {f : α → Except ε β} {xs : List α} {e : ε} (h : xs.mapM f = .error e) :
    ∃ before x after, xs = before ++ x :: after ∧ (∀ y ∈ before, ∃ b, f y = .ok b) ∧
      f x = .error e := by
  induction xs with
  | nil => cases h
  | cons x xs ih =>
    rw [List.mapM_cons] at h
    cases hx : f x with
    | error e' =>
      rw [hx, error_bind] at h
      obtain rfl := Except.error.inj h
      exact ⟨[], x, xs, rfl, List.forall_mem_nil _, hx⟩
    | ok y =>
      rw [hx, ok_bind] at h
      cases hxs : xs.mapM f with
      | ok ys =>
        rw [hxs] at h
        cases h
      | error e' =>
        rw [hxs, error_bind] at h
        obtain ⟨before, z, after, rfl, hbefore, hz⟩ := ih (hxs.trans h)
        exact ⟨x :: before, z, after, rfl, List.forall_mem_cons.mpr ⟨⟨y, hx⟩, hbefore⟩, hz⟩

/-- A loop that adds what it reads reads everything first, as far as its outcome is concerned. -/
theorem foldlM_map {γ : Type} (read : α → Except ε γ) (add : β → γ → β) (xs : List α) (b : β) :
    xs.foldlM (fun b x => (read x).map (add b)) b =
      (xs.mapM read).map fun rows => rows.foldl add b := by
  induction xs generalizing b with
  | nil => rfl
  | cons x xs ih =>
    rw [List.foldlM_cons, List.mapM_cons]
    cases read x with
    | error e => rfl
    | ok row =>
      refine (ih (add b row)).trans ?_
      rw [ok_bind]
      cases xs.mapM read <;> rfl

end Attempt

theorem mapM_eq_some_iff {α β : Type} {f : α → Option β} {xs : List α} {ys : List β} :
    xs.mapM f = some ys ↔ List.Forall₂ (fun x y => f x = some y) xs ys := by
  induction xs generalizing ys with
  | nil =>
    rw [List.forall₂_nil_left_iff]
    exact ⟨fun h => (Option.some.inj h).symm, fun h => h ▸ rfl⟩
  | cons x xs ih =>
    rw [List.mapM_cons]
    constructor
    · intro h
      obtain ⟨y, hy, h⟩ := Option.bind_eq_some_iff.mp h
      obtain ⟨rest, hrest, h⟩ := Option.bind_eq_some_iff.mp h
      exact Option.some.inj h ▸ .cons hy (ih.mp hrest)
    · rintro (_ | ⟨hy, hrest⟩)
      rw [hy, Option.bind_eq_bind, Option.bind_some, ih.mpr hrest]
      rfl

theorem some_of_mapM {α β : Type} {f : α → Option β} {xs : List α} {ys : List β} {x : α}
    (h : xs.mapM f = some ys) (hx : x ∈ xs) : ∃ y, f x = some y := by
  have hrounds := (mapM_eq_some_iff.mp h).imp fun _ y hy => And.intro (Exists.intro y hy) hy
  exact ((List.forall₂_and_left _ _).mp hrounds).1 x hx

theorem mapM_some {α β : Type} {f : α → Option β} {xs : List α} (b : β)
    (h : ∀ x ∈ xs, ∃ y, f x = some y) : xs.mapM f = some (xs.map fun x => (f x).getD b) := by
  rw [mapM_eq_some_iff, List.forall₂_map_right_iff, List.forall₂_same]
  intro x hx
  obtain ⟨y, hy⟩ := h x hx
  rw [hy, Option.getD_some]

end Shebang
