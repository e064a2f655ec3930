import Mathlib.Data.List.Basic

/-!
# Lists of records edited at one position

Each record contributes a list. Replacing or removing the record at one
position changes the contributions by that record's part only.
-/

namespace SignalFxTracing.Lib.ListUpdate

variable {α β : Type*} {l : List α} {i : Nat} {a : α}

/-- The record at a position separates the records before it from those after it. -/
theorem exists_split (h : l[i]? = some a) :
    ∃ before after, l = before ++ a :: after ∧ before.length = i := by
  obtain ⟨hi, hget⟩ := List.getElem?_eq_some_iff.mp h
  refine ⟨l.take i, l.drop (i + 1), ?_, List.length_take_of_le (Nat.le_of_lt hi)⟩
  rw [← hget, List.getElem_cons_drop, List.take_append_drop]

/-- What a list holds after a record was added at its end. -/
theorem getElem?_concat_eq_some {b : α} :
    (l ++ [a])[i]? = some b ↔ l[i]? = some b ∨ i = l.length ∧ b = a := by
  rcases Nat.lt_trichotomy i l.length with hlt | rfl | hgt
  · have hne : i ≠ l.length := Nat.ne_of_lt hlt
    simp [List.getElem?_append_left hlt, hne]
  · simp [eq_comm]
  · have hne : i ≠ l.length := Nat.ne_of_gt hgt
    have hnone : (l ++ [a])[i]? = none := by
      rw [List.getElem?_eq_none_iff, List.length_append, List.length_singleton]
      exact hgt
    simp [hnone, List.getElem?_eq_none (Nat.le_of_lt hgt), hne]

section Count

variable [BEq β] (f : α → List β) (x : β)

theorem count_flatMap_set (h : l[i]? = some a) (b : α) :
    ((l.set i b).flatMap f).count x + (f a).count x =
      (l.flatMap f).count x + (f b).count x := by
  obtain ⟨before, after, rfl, rfl⟩ := exists_split h
  simp only [List.set_append_right _ _ (Nat.le_refl _), Nat.sub_self, List.set_cons_zero,
    List.flatMap_append, List.flatMap_cons, List.count_append]
  omega

theorem count_flatMap_eraseIdx (h : l[i]? = some a) :
    ((l.eraseIdx i).flatMap f).count x + (f a).count x = (l.flatMap f).count x := by
  obtain ⟨before, after, rfl, rfl⟩ := exists_split h
  rw [List.eraseIdx_append_of_length_le (Nat.le_refl _), Nat.sub_self]
  simp only [List.eraseIdx_cons_zero, List.flatMap_append, List.flatMap_cons, List.count_append]
  omega

end Count

theorem flatMap_set_subset (f : α → List β) (b : α) :
    (l.set i b).flatMap f ⊆ l.flatMap f ++ f b := by
  intro x hx
  obtain ⟨r, hr, hfr⟩ := List.mem_flatMap.mp hx
  rcases List.mem_or_eq_of_mem_set hr with hold | rfl
  · exact List.mem_append_left _ (List.mem_flatMap.mpr ⟨r, hold, hfr⟩)
  · exact List.mem_append_right _ hfr

theorem flatMap_eraseIdx_subset (f : α → List β) :
    (l.eraseIdx i).flatMap f ⊆ l.flatMap f := by
  intro x hx
  obtain ⟨r, hr, hx⟩ := List.mem_flatMap.mp hx
  exact List.mem_flatMap.mpr ⟨r, List.mem_of_mem_eraseIdx hr, hx⟩

end SignalFxTracing.Lib.ListUpdate
