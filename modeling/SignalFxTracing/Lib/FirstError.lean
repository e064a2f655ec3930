import Mathlib.Data.List.Basic

/-!
# Loops that stop at the first exception

A loop reads the elements of a list one after the other and keeps the results.
An exception ends the loop; the results so far are kept.
-/

namespace SignalFxTracing.Lib.FirstError

universe u v w

/-- The call raises an exception. -/
def Fails {ε : Type u} {α : Type v} (x : Except ε α) : Prop := ∃ e, x = .error e

section Rules

variable {ε : Type u} {α β : Type v}

theorem not_fails_ok (a : α) : ¬ Fails (.ok a : Except ε α) := by
  rintro ⟨e, he⟩
  cases he

theorem not_fails_pure (a : α) : ¬ Fails (pure a : Except ε α) := not_fails_ok a

theorem fails_error (e : ε) : Fails (.error e : Except ε α) := ⟨e, rfl⟩

theorem exists_ok_of_not_fails {x : Except ε α} (h : ¬ Fails x) : ∃ a, x = .ok a := by
  cases x with
  | error e => exact absurd (fails_error e) h
  | ok a => exact ⟨a, rfl⟩

/-- Two calls fail when one of them does, if the second does not depend on the first. -/
theorem fails_bind_iff {x : Except ε α} {f : α → Except ε β} {p : Prop}
    (h : ∀ a, Fails (f a) ↔ p) : Fails (x >>= f) ↔ Fails x ∨ p := by
  cases x with
  | error e => exact iff_of_true (fails_error e) (Or.inl (fails_error e))
  | ok a =>
      rw [or_iff_right (not_fails_ok a)]
      exact h a

theorem fails_mapM_iff {f : α → Except ε β} {l : List α} :
    Fails (l.mapM f) ↔ ∃ a ∈ l, Fails (f a) := by
  induction l with
  | nil =>
      rw [List.mapM_nil]
      exact iff_of_false (not_fails_ok _) (by simp)
  | cons a l ih =>
      have hothers : ∀ b, Fails (l.mapM f >>= fun others => pure (b :: others)) ↔
          Fails (l.mapM f) := by
        intro b
        rw [fails_bind_iff fun others => iff_false_intro (not_fails_pure (b :: others)), or_false]
      rw [List.mapM_cons, fails_bind_iff hothers, ih]
      simp

end Rules

variable {ε : Type u} {α : Type v} {β : Type w} (f : α → Except ε (Option β))

/-- The results of the loop. -/
def collect : List α → List β
  | [] => []
  | a :: l =>
      match f a with
      | .error _ => []
      | .ok none => collect l
      | .ok (some b) => b :: collect l

variable {f}

theorem collect_cons_of_fails {a : α} (h : Fails (f a)) (l : List α) : collect f (a :: l) = [] := by
  obtain ⟨e, he⟩ := h
  rw [collect, he]

theorem collect_cons_of_not_fails {a : α} (h : ¬ Fails (f a)) (l : List α) :
    collect f (a :: l) = collect f [a] ++ collect f l := by
  rw [collect, collect]
  cases hresult : f a with
  | error e => exact absurd ⟨e, hresult⟩ h
  | ok result =>
      cases result with
      | none => rfl
      | some b => rfl

/-- What is behind an exception is lost, and nothing else. -/
theorem collect_append {before : List α} (h : ∀ a ∈ before, ¬ Fails (f a)) (behind : List α) :
    collect f (before ++ behind) = collect f before ++ collect f behind := by
  induction before with
  | nil => rfl
  | cons a before ih =>
      have ha := h a List.mem_cons_self
      rw [List.cons_append, collect_cons_of_not_fails ha, collect_cons_of_not_fails ha before,
        ih fun b hb => h b (List.mem_cons_of_mem a hb), List.append_assoc]

theorem collect_append_of_fails {before : List α} (h : ∃ a ∈ before, Fails (f a))
    (behind : List α) : collect f (before ++ behind) = collect f before := by
  induction before with
  | nil => simp at h
  | cons a before ih =>
      by_cases ha : Fails (f a)
      · rw [List.cons_append, collect_cons_of_fails ha, collect_cons_of_fails ha]
      · have hbefore : ∃ b ∈ before, Fails (f b) := by
          obtain ⟨b, hb, hfails⟩ := h
          rcases List.mem_cons.mp hb with rfl | hb
          · exact absurd hfails ha
          · exact ⟨b, hb, hfails⟩
        rw [List.cons_append, collect_cons_of_not_fails ha, collect_cons_of_not_fails ha before,
          ih hbefore]

/-- An element with a result of its own has it in its place exactly when nothing before it
raises. -/
theorem collect_middle_iff {before behind : List α} {a : α} {b : β} (h : f a = .ok (some b)) :
    collect f (before ++ a :: behind) = collect f before ++ b :: collect f behind ↔
      ∀ c ∈ before, ¬ Fails (f c) := by
  have hcons : collect f (a :: behind) = b :: collect f behind := by
    rw [collect, h]
  constructor
  · intro heq c hc hfails
    rw [collect_append_of_fails ⟨c, hc, hfails⟩] at heq
    have hlength := congrArg List.length heq
    simp at hlength
  · intro hbefore
    rw [collect_append hbefore, hcons]

end SignalFxTracing.Lib.FirstError
