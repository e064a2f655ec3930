import Mathlib.Order.Defs.Unbundled

/-!
# Computations that keep their state when they raise an exception

A computation maps a state to an outcome and the state it reached. The state
is kept when an exception is raised, so that handlers and finally blocks start
from there. `Within R m` says that `m` moves the state inside the relation `R`
however it ends.
-/

namespace SignalFxTracing.Lib

universe u

/-- A state transformer with exceptions of type `ε`. -/
structure Guarded (σ ε α : Type u) where
  run : σ → Except ε α × σ

namespace Guarded

variable {σ ε α β : Type u}

instance : Monad (Guarded σ ε) where
  pure a := ⟨fun s => (.ok a, s)⟩
  bind m f := ⟨fun s =>
    match m.run s with
    | (.ok a, t) => (f a).run t
    | (.error e, t) => (.error e, t)⟩

def throw (e : ε) : Guarded σ ε α := ⟨fun s => (.error e, s)⟩

/-- A call outside the model, known by its outcome. -/
def lift (outcome : Except ε α) : Guarded σ ε α := ⟨fun s => (outcome, s)⟩

def get : Guarded σ ε σ := ⟨fun s => (.ok s, s)⟩

/-- Change the state; raises nothing. -/
def modify (f : σ → σ) : Guarded σ ε PUnit := ⟨fun s => (.ok ⟨⟩, f s)⟩

/-- `try m catch (e) { handler e }`. -/
def tryCatch (m : Guarded σ ε α) (handler : ε → Guarded σ ε α) : Guarded σ ε α := ⟨fun s =>
  match m.run s with
  | (.ok a, t) => (.ok a, t)
  | (.error e, t) => (handler e).run t⟩

/-- `try m finally { final }`, for a `final` that raises nothing. -/
def finallyDo (m : Guarded σ ε α) (final : σ → σ) : Guarded σ ε α :=
  ⟨fun s => ((m.run s).1, final (m.run s).2)⟩

@[simp] theorem run_pure (a : α) (s : σ) :
    (pure a : Guarded σ ε α).run s = (.ok a, s) := rfl

theorem run_bind (m : Guarded σ ε α) (f : α → Guarded σ ε β) (s : σ) :
    (m >>= f).run s = match m.run s with
      | (.ok a, t) => (f a).run t
      | (.error e, t) => (.error e, t) := rfl

@[simp] theorem run_throw (e : ε) (s : σ) :
    (throw e : Guarded σ ε α).run s = (.error e, s) := rfl

@[simp] theorem run_lift (outcome : Except ε α) (s : σ) :
    (lift outcome : Guarded σ ε α).run s = (outcome, s) := rfl

@[simp] theorem run_get (s : σ) : (get : Guarded σ ε σ).run s = (.ok s, s) := rfl

@[simp] theorem run_modify (f : σ → σ) (s : σ) :
    (modify f : Guarded σ ε PUnit).run s = (.ok ⟨⟩, f s) := rfl

theorem run_tryCatch (m : Guarded σ ε α) (handler : ε → Guarded σ ε α) (s : σ) :
    (tryCatch m handler).run s = match m.run s with
      | (.ok a, t) => (.ok a, t)
      | (.error e, t) => (handler e).run t := rfl

@[simp] theorem run_finallyDo (m : Guarded σ ε α) (final : σ → σ) (s : σ) :
    (finallyDo m final).run s = ((m.run s).1, final (m.run s).2) := rfl

/-- A first step that returns is followed by the second one. -/
theorem run_bind_of_ok {m : Guarded σ ε α} {s : σ} {a : α} (h : (m.run s).1 = .ok a)
    (f : α → Guarded σ ε β) : (m >>= f).run s = (f a).run (m.run s).2 := by
  rw [run_bind]
  rcases hm : m.run s with ⟨outcome, t⟩
  rw [hm] at h
  simp only at h
  rw [h]

/-- A first step that raises ends the sequence. -/
theorem run_bind_of_error {m : Guarded σ ε α} {s : σ} {e : ε} (h : (m.run s).1 = .error e)
    (f : α → Guarded σ ε β) : (m >>= f).run s = (.error e, (m.run s).2) := by
  rw [run_bind]
  rcases hm : m.run s with ⟨outcome, t⟩
  rw [hm] at h
  simp only at h
  rw [h]

theorem run_get_bind (f : σ → Guarded σ ε β) (s : σ) : (get >>= f).run s = (f s).run s := rfl

theorem run_lift_bind (a : α) (f : α → Guarded σ ε β) (s : σ) :
    (lift (.ok a) >>= f).run s = (f a).run s := rfl

/-- A sequence returns when both of its steps do. -/
theorem run_bind_fst_eq_ok_iff {m : Guarded σ ε α} {f : α → Guarded σ ε β} {s : σ} {b : β} :
    ((m >>= f).run s).1 = .ok b ↔
      ∃ a, (m.run s).1 = .ok a ∧ ((f a).run (m.run s).2).1 = .ok b := by
  cases h : (m.run s).1 with
  | ok a => simp [run_bind_of_ok h]
  | error e => simp [run_bind_of_error h]

theorem run_tryCatch_of_ok {m : Guarded σ ε α} {s : σ} {a : α} (h : (m.run s).1 = .ok a)
    (handler : ε → Guarded σ ε α) : (tryCatch m handler).run s = (.ok a, (m.run s).2) := by
  rw [run_tryCatch]
  rcases hm : m.run s with ⟨outcome, t⟩
  rw [hm] at h
  simp only at h
  rw [h]

theorem run_tryCatch_of_error {m : Guarded σ ε α} {s : σ} {e : ε} (h : (m.run s).1 = .error e)
    (handler : ε → Guarded σ ε α) :
    (tryCatch m handler).run s = (handler e).run (m.run s).2 := by
  rw [run_tryCatch]
  rcases hm : m.run s with ⟨outcome, t⟩
  rw [hm] at h
  simp only at h
  rw [h]

/-- However `m` ends, the state it reaches is related to the one it started in. -/
def Within (R : σ → σ → Prop) (m : Guarded σ ε α) : Prop := ∀ s, R s (m.run s).2

section Rules

variable {R : σ → σ → Prop}

theorem within_pure [Std.Refl R] (a : α) : Within R (pure a : Guarded σ ε α) :=
  fun s => Std.Refl.refl s

theorem within_throw [Std.Refl R] (e : ε) : Within R (throw e : Guarded σ ε α) :=
  fun s => Std.Refl.refl s

theorem within_lift [Std.Refl R] (outcome : Except ε α) :
    Within R (lift outcome : Guarded σ ε α) :=
  fun s => Std.Refl.refl s

theorem within_get [Std.Refl R] : Within R (get : Guarded σ ε σ) := fun s => Std.Refl.refl s

theorem within_modify {f : σ → σ} (h : ∀ s, R s (f s)) :
    Within R (modify f : Guarded σ ε PUnit) := h

theorem within_bind [IsTrans σ R] {m : Guarded σ ε α} {f : α → Guarded σ ε β}
    (hm : Within R m) (hf : ∀ a, Within R (f a)) : Within R (m >>= f) := by
  intro s
  cases h : (m.run s).1 with
  | ok a =>
      rw [run_bind_of_ok h]
      exact IsTrans.trans _ _ _ (hm s) (hf a _)
  | error e =>
      rw [run_bind_of_error h]
      exact hm s

theorem within_tryCatch [IsTrans σ R] {m : Guarded σ ε α} {handler : ε → Guarded σ ε α}
    (hm : Within R m) (hh : ∀ e, Within R (handler e)) : Within R (tryCatch m handler) := by
  intro s
  cases h : (m.run s).1 with
  | ok a =>
      rw [run_tryCatch_of_ok h]
      exact hm s
  | error e =>
      rw [run_tryCatch_of_error h]
      exact IsTrans.trans _ _ _ (hm s) (hh e _)

end Rules

/-- From a state with `P`, whenever `m` returns, its result and its state have `Q`. -/
def Ensures (P : σ → Prop) (m : Guarded σ ε α) (Q : α → σ → Prop) : Prop :=
  ∀ s, P s → ∀ a, (m.run s).1 = .ok a → Q a (m.run s).2

section Conditions

variable {P : σ → Prop}

theorem ensures_pure {Q : α → σ → Prop} {a : α} (h : ∀ s, P s → Q a s) :
    Ensures P (pure a : Guarded σ ε α) Q := by
  intro s hs b hb
  obtain rfl := Except.ok.inj hb
  exact h s hs

theorem ensures_true (m : Guarded σ ε α) : Ensures P m fun _ _ => True :=
  fun _ _ _ _ => trivial

/-- What a computation cannot destroy is kept. -/
theorem ensures_of_within {R : σ → σ → Prop} {m : Guarded σ ε α} (hm : Within R m)
    (h : ∀ s t, R s t → P s → P t) : Ensures P m fun _ => P :=
  fun s hs _ _ => h s _ (hm s) hs

theorem ensures_bind {m : Guarded σ ε α} {f : α → Guarded σ ε β} {Q : α → σ → Prop}
    {R : β → σ → Prop} (hm : Ensures P m Q) (hf : ∀ a, Ensures (Q a) (f a) R) :
    Ensures P (m >>= f) R := by
  intro s hs b hb
  obtain ⟨a, ha, hfa⟩ := run_bind_fst_eq_ok_iff.mp hb
  rw [run_bind_of_ok ha]
  exact hf a _ (hm s hs a ha) b hfa

end Conditions

end Guarded

end SignalFxTracing.Lib
