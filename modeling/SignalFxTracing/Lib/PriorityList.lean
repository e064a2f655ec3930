import Mathlib.Data.List.Basic
import Mathlib.Order.Lattice

/-!
# Lists ordered by priority

An element is inserted before the first one of lower priority, so behind those
of its own. A list made by insertions holds each inserted element once, by
falling priority, and those of one priority in the order of insertion.
-/

namespace SignalFxTracing.Lib.PriorityList

variable {α β : Type*} [LinearOrder β] (priority : α → β)

/-- Insert before the first element of lower priority. -/
def insert (a : α) : List α → List α
  | [] => [a]
  | b :: l => if priority b < priority a then a :: b :: l else b :: insert a l

def Sorted (l : List α) : Prop := l.Pairwise fun a b => priority b ≤ priority a

theorem insert_perm (a : α) (l : List α) : (insert priority a l).Perm (a :: l) := by
  induction l with
  | nil => exact List.Perm.refl _
  | cons b l ih =>
      rw [insert]
      split_ifs
      · exact List.Perm.refl _
      · exact (ih.cons b).trans (List.Perm.swap a b l)

theorem insert_sorted (a : α) {l : List α} (h : Sorted priority l) :
    Sorted priority (insert priority a l) := by
  induction l with
  | nil => exact List.pairwise_singleton _ _
  | cons b l ih =>
      obtain ⟨hb, hl⟩ := List.pairwise_cons.mp h
      rw [insert]
      split_ifs with hlt
      · refine List.pairwise_cons.mpr ⟨?_, h⟩
        intro c hc
        rcases List.mem_cons.mp hc with rfl | hc
        · exact le_of_lt hlt
        · exact le_trans (hb c hc) (le_of_lt hlt)
      · refine List.pairwise_cons.mpr ⟨?_, ih hl⟩
        intro c hc
        rcases List.mem_cons.mp ((insert_perm priority a l).mem_iff.mp hc) with rfl | hc
        · exact not_lt.mp hlt
        · exact hb c hc

/-- Among the elements of its priority, the inserted one is the last. -/
theorem insert_filter (a : α) {l : List α} (h : Sorted priority l) (p : β) :
    (insert priority a l).filter (fun b => priority b = p) =
      l.filter (fun b => priority b = p) ++ [a].filter (fun b => priority b = p) := by
  induction l with
  | nil => rfl
  | cons b l ih =>
      obtain ⟨hb, hl⟩ := List.pairwise_cons.mp h
      rw [insert]
      split_ifs with hlt
      · by_cases hp : priority a = p
        · have hnone : (b :: l).filter (fun b => priority b = p) = [] := by
            rw [List.filter_eq_nil_iff]
            intro c hc hcp
            have hle : priority c ≤ priority b := by
              rcases List.mem_cons.mp hc with rfl | hc
              · exact le_refl _
              · exact hb c hc
            rw [decide_eq_true_iff, ← hp] at hcp
            exact absurd hcp (ne_of_lt (lt_of_le_of_lt hle hlt))
          rw [List.filter_cons, hnone, List.nil_append, List.filter_cons]
          rfl
        · rw [List.filter_cons_of_neg (by simpa using hp),
            List.filter_cons_of_neg (l := []) (by simpa using hp)]
          simp
      · rw [List.filter_cons, List.filter_cons, ih hl]
        split_ifs
        · rfl
        · rfl

/-- The elements of `registered` by falling priority, those of one priority as registered. -/
structure Orders (registered l : List α) : Prop where
  perm : l.Perm registered
  sorted : Sorted priority l
  stable : ∀ p, l.filter (fun a => priority a = p) = registered.filter (fun a => priority a = p)

variable {priority}

theorem Orders.nil : Orders priority [] [] where
  perm := List.Perm.refl _
  sorted := List.Pairwise.nil
  stable _ := rfl

theorem Orders.insert {registered l : List α} (h : Orders priority registered l) (a : α) :
    Orders priority (registered ++ [a]) (insert priority a l) where
  perm := ((insert_perm priority a l).trans (h.perm.cons a)).trans
    (List.perm_append_singleton a registered).symm
  sorted := insert_sorted priority a h.sorted
  stable p := by rw [insert_filter priority a h.sorted, h.stable, List.filter_append]

/-- What has a higher priority stands before. -/
theorem Sorted.mem_before {before after : List α} {a b : α}
    (h : Sorted priority (before ++ a :: after)) (hb : b ∈ before ++ a :: after)
    (hlt : priority a < priority b) : b ∈ before := by
  rcases List.mem_append.mp hb with hb | hb
  · exact hb
  · have hle : priority b ≤ priority a := by
      rcases List.mem_cons.mp hb with rfl | hb
      · exact le_refl _
      · exact (List.pairwise_cons.mp (List.pairwise_append.mp h).2.1).1 b hb
    exact absurd hlt (not_lt.mpr hle)

end SignalFxTracing.Lib.PriorityList
