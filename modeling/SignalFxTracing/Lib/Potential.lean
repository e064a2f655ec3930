import Mathlib.Data.List.Perm.Subperm
import Mathlib.Algebra.Order.BigOperators.Group.List
import Mathlib.Algebra.Order.Monoid.Unbundled.Basic
import Mathlib.Algebra.Order.Group.Nat
import Mathlib.Algebra.GroupWithZero.Nat

/-!
# Potentials that grow along a graph

Every edge raises a potential by at most the weight of its source. A node then
has at most the potential of the start and the weights of all nodes together,
however long the way to it is: a node that is met again is not counted again.
-/

namespace SignalFxTracing.Lib.Potential

variable {α : Type*} (weight potential : α → Nat) (start : Nat)

/-- Every node of a list has at most the start and the weights behind it. -/
def Bounded (l : List α) : Prop :=
  ∀ x t, (x :: t) <:+ l → potential x ≤ start + (t.map weight).sum

variable {weight potential start}

theorem Bounded.cons {l : List α} {x : α} (h : Bounded weight potential start l)
    (hx : potential x ≤ start + (l.map weight).sum) :
    Bounded weight potential start (x :: l) := by
  intro y t hsuffix
  rcases List.suffix_cons_iff.mp hsuffix with hall | hrest
  · obtain ⟨rfl, rfl⟩ := List.cons.inj hall
    exact hx
  · exact h y t hrest

theorem Bounded.suffix {l t : List α} (h : Bounded weight potential start l) (ht : t <:+ l) :
    Bounded weight potential start t :=
  fun x t' hsuffix => h x t' (hsuffix.trans ht)

/-- A step from the front of a list without repetition gives such a list. -/
theorem exists_bounded_step {nodes l : List α} {x y : α} (hnodup : (x :: l).Nodup)
    (hnodes : x :: l ⊆ nodes) (hbounded : Bounded weight potential start (x :: l))
    (hy : y ∈ nodes) (hstep : potential y ≤ potential x + weight x) :
    ∃ t, (y :: t).Nodup ∧ y :: t ⊆ nodes ∧ Bounded weight potential start (y :: t) := by
  by_cases hmem : y ∈ x :: l
  · obtain ⟨s, t, hsplit⟩ := List.append_of_mem hmem
    have hsuffix : (y :: t) <:+ (x :: l) := ⟨s, hsplit.symm⟩
    exact ⟨t, hnodup.sublist hsuffix.sublist, fun z hz => hnodes (hsuffix.subset hz),
      hbounded.suffix hsuffix⟩
  · refine ⟨x :: l, List.nodup_cons.mpr ⟨hmem, hnodup⟩, List.cons_subset.mpr ⟨hy, hnodes⟩,
      hbounded.cons ?_⟩
    have hx := hbounded x l (List.suffix_refl _)
    rw [List.map_cons, List.sum_cons]
    omega

/-- The bound for a node at the front of such a list, with its own weight. -/
theorem add_weight_le {nodes l : List α} {x : α} (hnodup : (x :: l).Nodup)
    (hnodes : x :: l ⊆ nodes) (hbounded : Bounded weight potential start (x :: l)) :
    potential x + weight x ≤ start + (nodes.map weight).sum := by
  have hx := hbounded x l (List.suffix_refl _)
  have hsum : ((x :: l).map weight).sum ≤ (nodes.map weight).sum := by
    obtain ⟨l', hperm, hsub⟩ := hnodup.subperm hnodes
    rw [← (hperm.map weight).sum_eq]
    exact (hsub.map weight).sum_le_sum fun _ _ => Nat.zero_le _
  rw [List.map_cons, List.sum_cons] at hsum
  omega

end SignalFxTracing.Lib.Potential
