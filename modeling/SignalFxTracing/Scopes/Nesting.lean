import Mathlib.Order.Bounds.Basic
import SignalFxTracing.Scopes.ScopeManager
import SignalFxTracing.Lib.ListUpdate
import SignalFxTracing.Trace.Tracer

/-!
# The innermost open scope

What `Active` is for: among the scopes that were activated and not yet closed,
the one activated last. The abstract machine keeps the open scopes innermost
first and remembers, for each scope, which one was innermost when it was
activated. The scope manager follows it exactly as long as a scope that is
closed while it is innermost finds that one still open.
-/

namespace SignalFxTracing.Scopes

open Lib Trace

/-- The open scopes of a flow, innermost first, and for each scope of the flow the
scope that was innermost when it was activated. -/
structure Nesting where
  opens : List ScopeRef
  enclosing : List (Option ScopeRef)

namespace Nesting

variable {S : Type*}

/-- No scope has been activated. -/
def empty : Nesting := ⟨[], []⟩

def innermost (n : Nesting) : Option ScopeRef := n.opens.head?

def activate (n : Nesting) : Nesting :=
  { opens := n.enclosing.length :: n.opens, enclosing := n.enclosing ++ [n.innermost] }

def close (n : Nesting) (r : ScopeRef) : Nesting := { n with opens := n.opens.erase r }

/-- Every close closes its scope, whichever scopes are open. -/
def machine : Machine Nesting (Operation S) where
  initial := empty
  step n
    | .activate _ _ => some n.activate
    | .close r => if r < n.enclosing.length then some (n.close r) else none

@[simp] theorem machine_step_activate (n : Nesting) (span : S) (finishOnClose : Bool) :
    machine.step n (.activate span finishOnClose) = some n.activate := rfl

theorem machine_step_close_eq_some {n n' : Nesting} {r : ScopeRef} :
    (machine (S := S)).step n (.close r) = some n' ↔
      r < n.enclosing.length ∧ n.close r = n' := by
  simp [machine]

/-- A scope closed while it is innermost has its enclosing scope still open, if it has one. -/
def ClosesInside (n : Nesting) : Operation S → Prop
  | .activate _ _ => True
  | .close r => n.innermost = some r → ∀ p, n.enclosing[r]? = some (some p) → p ∈ n.opens

/-- Scopes are opened in the order of their numbers, and the scope that enclosed another
one is the last one before it that can still be open. -/
structure Ordered (n : Nesting) : Prop where
  sorted : n.opens.Pairwise (· > ·)
  bound : ∀ r ∈ n.opens, r < n.enclosing.length
  before : ∀ r p : ScopeRef, n.enclosing[r]? = some (some p) → p < r
  last : ∀ (r : ScopeRef) e, n.enclosing[r]? = some e → ∀ j ∈ n.opens, j < r → ∃ p, e = some p ∧ j ≤ p

theorem innermost_isGreatest {n : Nesting} (h : n.Ordered) {r : ScopeRef}
    (hr : n.innermost = some r) : IsGreatest {j | j ∈ n.opens} r := by
  obtain ⟨opens, enclosing⟩ := n
  obtain ⟨rest, rfl⟩ := List.head?_eq_some_iff.mp hr
  refine ⟨List.mem_cons_self, ?_⟩
  intro j hj
  rcases List.mem_cons.mp hj with rfl | hj
  · exact Nat.le_refl _
  · exact Nat.le_of_lt (List.rel_of_pairwise_cons h.sorted hj)

theorem innermost_eq_none {n : Nesting} : n.innermost = none ↔ n.opens = [] :=
  List.head?_eq_none_iff

theorem enclosing_activate {n : Nesting} {r : ScopeRef} {e : Option ScopeRef} :
    n.activate.enclosing[r]? = some e ↔
      n.enclosing[r]? = some e ∨ r = n.enclosing.length ∧ e = n.innermost :=
  ListUpdate.getElem?_concat_eq_some

theorem Ordered.activate {n : Nesting} (h : n.Ordered) : n.activate.Ordered where
  sorted := List.pairwise_cons.mpr ⟨fun r hr => h.bound r hr, h.sorted⟩
  bound := by
    intro r hr
    rw [Nesting.activate, List.length_append, List.length_singleton]
    rcases List.mem_cons.mp hr with rfl | hr
    · exact Nat.lt_succ_self _
    · exact Nat.lt_succ_of_lt (h.bound r hr)
  before := by
    intro r p hp
    rcases enclosing_activate.mp hp with hold | ⟨rfl, hnew⟩
    · exact h.before r p hold
    · exact h.bound p (innermost_isGreatest h hnew.symm).1
  last := by
    intro r e he j hj hlt
    rcases List.mem_cons.mp hj with rfl | hj
    · rcases enclosing_activate.mp he with hold | ⟨rfl, -⟩
      · exact absurd hlt (Nat.lt_asymm (List.getElem?_eq_some_iff.mp hold).1)
      · exact absurd hlt (Nat.lt_irrefl _)
    · rcases enclosing_activate.mp he with hold | ⟨rfl, rfl⟩
      · exact h.last r e hold j hj hlt
      · cases hinnermost : n.innermost with
        | none =>
            rw [innermost_eq_none.mp hinnermost] at hj
            simp at hj
        | some p => exact ⟨p, rfl, (innermost_isGreatest h hinnermost).2 hj⟩

theorem Ordered.close {n : Nesting} (h : n.Ordered) (r : ScopeRef) : (n.close r).Ordered where
  sorted := h.sorted.sublist List.erase_sublist
  bound := fun j hj => h.bound j (List.mem_of_mem_erase hj)
  before := h.before
  last := fun i e he j hj => h.last i e he j (List.mem_of_mem_erase hj)

theorem ordered_empty : empty.Ordered where
  sorted := List.Pairwise.nil
  bound := by simp [empty]
  before := by simp [empty]
  last := by simp [empty]

/-- The order of the numbers is kept by every operation. -/
theorem ordered_preserved : (machine (S := S)).Preserved Ordered := by
  intro n op n' h hstep
  cases op with
  | activate span finishOnClose =>
      obtain rfl : n.activate = n' := Option.some.inj hstep
      exact h.activate
  | close r =>
      obtain ⟨-, rfl⟩ := machine_step_close_eq_some.mp hstep
      exact h.close r

/-- A close of another scope leaves the innermost one innermost. -/
theorem innermost_close_of_ne {n : Nesting} {r : ScopeRef} (hne : n.innermost ≠ some r) :
    (n.close r).innermost = n.innermost := by
  obtain ⟨opens, enclosing⟩ := n
  cases opens with
  | nil => rfl
  | cons a rest =>
      have : a ≠ r := fun h => hne (congrArg some h)
      simp [close, innermost, List.erase_cons_tail (beq_eq_false_iff_ne.mpr this ▸ Bool.false_ne_true)]

/-- After a close of the innermost scope its enclosing scope is innermost, unless that one
has been closed already. -/
theorem innermost_close_of_eq {n : Nesting} (h : n.Ordered) {r : ScopeRef} {e : Option ScopeRef}
    (hr : n.innermost = some r) (he : n.enclosing[r]? = some e)
    (hopen : ∀ p, e = some p → p ∈ n.opens) : (n.close r).innermost = e := by
  obtain ⟨opens, enclosing⟩ := n
  obtain ⟨rest, rfl⟩ := List.head?_eq_some_iff.mp hr
  have hsorted := List.pairwise_cons.mp h.sorted
  simp only [close, innermost, List.erase_cons_head]
  cases rest with
  | nil =>
      cases e with
      | none => rfl
      | some p =>
          have hp := List.mem_singleton.mp (hopen p rfl)
          exact absurd hp (Nat.ne_of_lt (h.before r p he))
  | cons j rest =>
      have hj : j < r := hsorted.1 j List.mem_cons_self
      obtain ⟨p, rfl, hjp⟩ := h.last r e he j (by simp) hj
      have hpr : p < r := h.before r p he
      have hp : p ∈ j :: rest := by
        rcases List.mem_cons.mp (hopen p rfl) with heq | hp
        · exact absurd heq (Nat.ne_of_lt hpr)
        · exact hp
      have hpj : p ≤ j := by
        rcases List.mem_cons.mp hp with rfl | hp
        · exact Nat.le_refl _
        · exact Nat.le_of_lt (List.rel_of_pairwise_cons hsorted.2 hp)
      rw [List.head?_cons, Nat.le_antisymm hjp hpj]

theorem length_enclosing_le_of_run {n n' : Nesting} {es : List (Operation S)}
    (h : machine.run n es = some n') : n.enclosing.length ≤ n'.enclosing.length := by
  have hkept : (machine (S := S)).Preserved fun n' => n.enclosing.length ≤ n'.enclosing.length := by
    intro n' op n'' hle hstep
    cases op with
    | activate span finishOnClose =>
        obtain rfl : n'.activate = n'' := Option.some.inj hstep
        rw [activate, List.length_append]
        exact Nat.le_add_right_of_le hle
    | close r =>
        obtain ⟨-, rfl⟩ := machine_step_close_eq_some.mp hstep
        exact hle
  exact hkept.run (Nat.le_refl _) h

theorem mem_close {n : Nesting} (h : n.Ordered) {r j : ScopeRef} :
    j ∈ (n.close r).opens ↔ j ≠ r ∧ j ∈ n.opens :=
  List.Nodup.mem_erase_iff (h.sorted.imp fun hlt => Nat.ne_of_gt hlt)

/-- The scopes open after a run: those open before it and those activated in it, without
the ones that were closed in it. -/
theorem mem_opens_of_run {n n' : Nesting} {es : List (Operation S)} (hn : n.Ordered)
    (h : machine.run n es = some n') (r : ScopeRef) :
    r ∈ n'.opens ↔
      (r ∈ n.opens ∨ n.enclosing.length ≤ r ∧ r < n'.enclosing.length) ∧
        Operation.close r ∉ es := by
  induction es generalizing n with
  | nil =>
      obtain rfl : n = n' := Option.some.inj h
      have hnone : ¬ (n.enclosing.length ≤ r ∧ r < n.enclosing.length) :=
        fun hr => Nat.not_le_of_lt hr.2 hr.1
      simp [hnone]
  | cons op rest ih =>
      obtain ⟨u, hu, hrest⟩ := machine.run_cons_eq_some.mp h
      rw [ih (ordered_preserved _ _ _ hn hu) hrest]
      have hle := length_enclosing_le_of_run hrest
      cases op with
      | activate span finishOnClose =>
          obtain rfl : n.activate = u := Option.some.inj hu
          have hlen : n.activate.enclosing.length = n.enclosing.length + 1 := by simp [activate]
          rw [hlen] at hle ⊢
          have hmem : r ∈ n.activate.opens ↔ r = n.enclosing.length ∨ r ∈ n.opens :=
            List.mem_cons
          rw [hmem]
          have harith : (r = n.enclosing.length ∨ r ∈ n.opens) ∨
              n.enclosing.length + 1 ≤ r ∧ r < n'.enclosing.length ↔
              r ∈ n.opens ∨ n.enclosing.length ≤ r ∧ r < n'.enclosing.length := by
            grind
          rw [harith]
          simp
      | close j =>
          obtain ⟨hj, rfl⟩ := machine_step_close_eq_some.mp hu
          rw [mem_close hn]
          have hne : n.enclosing.length ≤ r → r ≠ j :=
            fun hr => Nat.ne_of_gt (Nat.lt_of_lt_of_le hj hr)
          simp only [close, List.mem_cons, Operation.close.injEq]
          grind

end Nesting

end SignalFxTracing.Scopes
