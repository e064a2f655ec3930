import Mathlib.Data.List.Nodup
import Mathlib.Data.List.Perm.Basic

/-!
# The trace buffer (`AgentWriterBuffer.cs`)

An array of slots and the number of slots that are filled, from the first one
on. Both methods hold the lock of the array, so that a history is a list of
operations.

## Implementation notes

A slot that holds no item is `none`. The index that is drawn for an overflow
comes with every push.
-/

namespace SignalFxTracing.Agent

open scoped List

structure AgentWriterBuffer (T : Type*) (maxSize : Nat) where
  items : List (Option T)
  count : Nat
  length_items : items.length = maxSize
  count_le : count ≤ maxSize
  filled : none ∉ items.take count

namespace AgentWriterBuffer

variable {T : Type*} {maxSize : Nat}

/-- The constructor. -/
def create : AgentWriterBuffer T maxSize where
  items := List.replicate maxSize none
  count := 0
  length_items := List.length_replicate
  count_le := Nat.zero_le _
  filled := List.not_mem_nil

/-- The filled slots. -/
def held (b : AgentWriterBuffer T maxSize) : List (Option T) := b.items.take b.count

theorem held_length (b : AgentWriterBuffer T maxSize) : b.held.length = b.count := by
  rw [held, List.length_take, b.length_items]
  exact Nat.min_eq_left b.count_le

section Push

/-- What is set in a list and what stood there change places. -/
theorem set_append_perm {l : List (Option T)} {n : Nat} (h : n < l.length) (x : Option T) :
    (l.set n x ++ [l[n]]).Perm (l ++ [x]) := by
  calc
    l.set n x ++ [l[n]] ~ x :: l.eraseIdx n ++ [l[n]] :=
      (List.set_perm_cons_eraseIdx h x).append_right _
    _ ~ x :: (l[n] :: l.eraseIdx n) := (List.perm_append_singleton l[n] (l.eraseIdx n)).cons x
    _ ~ x :: l := (List.getElem_cons_eraseIdx_perm h).cons x
    _ ~ l ++ [x] := (List.perm_append_singleton x l).symm

variable (b : AgentWriterBuffer T maxSize) (item : T)

/-- One slot more is filled. -/
theorem take_set_of_lt (h : b.count < maxSize) :
    (b.items.set b.count (some item)).take (b.count + 1) = b.held ++ [some item] := by
  have hlt : b.count < (b.items.set b.count (some item)).length := by
    rwa [List.length_set, b.length_items]
  rw [List.take_succ_eq_append_getElem hlt, List.getElem_set_self,
    List.take_set_of_le (Nat.le_refl _), held]

theorem held_of_full (h : ¬b.count < maxSize) : b.held = b.items := by
  rw [held]
  apply List.take_of_length_le
  rw [b.length_items]
  omega

/-- `Push` with the index that is drawn when no slot is free. -/
def push (index : Fin maxSize) : Bool × AgentWriterBuffer T maxSize :=
  if h : b.count < maxSize then
    (true,
      { items := b.items.set b.count (some item)
        count := b.count + 1
        length_items := by rw [List.length_set, b.length_items]
        count_le := h
        filled := by
          rw [take_set_of_lt b item h, List.mem_append, List.mem_singleton]
          rintro (hmem | hnone)
          · exact b.filled hmem
          · cases hnone })
  else
    (false,
      { items := b.items.set index (some item)
        count := b.count
        length_items := by rw [List.length_set, b.length_items]
        count_le := b.count_le
        filled := by
          intro hmem
          rcases List.mem_or_eq_of_mem_set (List.mem_of_mem_take hmem) with hmem | hnone
          · rw [← held_of_full b h] at hmem
            exact b.filled hmem
          · cases hnone })

/-- What a push overwrites. -/
def overwritten (index : Fin maxSize) : List (Option T) :=
  if b.count < maxSize then [] else [b.items.get (index.cast b.length_items.symm)]

/-- A push adds the item to what is held, but for what it overwrites. -/
theorem push_perm (index : Fin maxSize) :
    ((b.push item index).2.held ++ b.overwritten index).Perm (b.held ++ [some item]) := by
  rw [push, overwritten]
  split_ifs with h
  · rw [List.append_nil]
    exact List.Perm.of_eq (take_set_of_lt b item h)
  · have hindex : index.val < b.items.length := by
      rw [b.length_items]
      exact index.isLt
    have hheld : (b.items.set index (some item)).take b.count = b.items.set index (some item) := by
      apply List.take_of_length_le
      rw [List.length_set, b.length_items]
      omega
    rw [held, held_of_full b h]
    dsimp only
    rw [hheld]
    exact set_append_perm hindex (some item)

end Push

section Pop

variable (b : AgentWriterBuffer T maxSize)

/-- `Pop`. -/
def pop : List (Option T) × AgentWriterBuffer T maxSize := (b.held, create)

@[simp] theorem held_create : (create : AgentWriterBuffer T maxSize).held = [] := rfl

end Pop

section Histories

/-- An operation on the buffer. -/
inductive Op (T : Type*) (maxSize : Nat)
  | push (item : T) (index : Fin maxSize)
  | pop

/-- What the operations so far have pushed, returned and overwritten, and how many pushes have
returned false. -/
structure History (T : Type*) where
  pushed : List T := []
  popped : List (List (Option T)) := []
  overwritten : List (Option T) := []
  rejected : Nat := 0

/-- An operation, with what it adds to the history. -/
def perform (b : AgentWriterBuffer T maxSize) (history : History T) :
    Op T maxSize → AgentWriterBuffer T maxSize × History T
  | .push item index =>
      let (accepted, after) := b.push item index
      (after, { history with
        pushed := history.pushed ++ [item]
        overwritten := history.overwritten ++ b.overwritten index
        rejected := if accepted then history.rejected else history.rejected + 1 })
  | .pop =>
      let (items, after) := b.pop
      (after, { history with popped := history.popped ++ [items] })

/-- The items returned, held and overwritten are those pushed. -/
structure Conserved (b : AgentWriterBuffer T maxSize) (history : History T) : Prop where
  perm : (history.popped.flatten ++ b.held ++ history.overwritten).Perm
    (history.pushed.map some)
  rejected : history.overwritten.length = history.rejected
  popped_filled : ∀ items ∈ history.popped, none ∉ items

theorem conserved_create : Conserved (create : AgentWriterBuffer T maxSize) {} where
  perm := List.Perm.refl _
  rejected := rfl
  popped_filled := nofun

/-- Every operation conserves the items. -/
theorem Conserved.perform {b : AgentWriterBuffer T maxSize} {history : History T}
    (h : Conserved b history) (op : Op T maxSize) :
    Conserved (b.perform history op).1 (b.perform history op).2 := by
  cases op with
  | push item index =>
      constructor
      · classical
        rw [List.perm_iff_count]
        intro slot
        have hbefore := h.perm.count_eq slot
        have hpush := (b.push_perm item index).count_eq slot
        simp only [AgentWriterBuffer.perform, List.map_append, List.map_cons, List.map_nil,
          List.count_append] at hbefore hpush ⊢
        omega
      · have hlength := h.rejected
        rw [AgentWriterBuffer.perform, push, overwritten]
        split_ifs
        · simpa using hlength
        · simpa using hlength
      · exact h.popped_filled
  | pop =>
      constructor
      · have hheld : (history.popped ++ [b.held]).flatten ++ [] ++ history.overwritten =
            history.popped.flatten ++ b.held ++ history.overwritten := by simp
        exact (List.Perm.of_eq hheld).trans h.perm
      · exact h.rejected
      · intro items hitems
        rcases List.mem_append.mp hitems with hitems | hitems
        · exact h.popped_filled items hitems
        · obtain rfl := List.mem_singleton.mp hitems
          exact b.filled

/-- The operations in order. -/
def performAll (b : AgentWriterBuffer T maxSize) (history : History T) :
    List (Op T maxSize) → AgentWriterBuffer T maxSize × History T
  | [] => (b, history)
  | op :: ops => performAll (b.perform history op).1 (b.perform history op).2 ops

theorem Conserved.performAll {b : AgentWriterBuffer T maxSize} {history : History T}
    (h : Conserved b history) (ops : List (Op T maxSize)) :
    Conserved (b.performAll history ops).1 (b.performAll history ops).2 := by
  induction ops generalizing b history with
  | nil => exact h
  | cons op ops ih => exact ih (h.perform op)

/-- When each item is pushed once, none is returned twice. -/
theorem Conserved.nodup {b : AgentWriterBuffer T maxSize} {history : History T}
    (h : Conserved b history) (hpushed : history.pushed.Nodup) :
    (history.popped.flatten ++ b.held ++ history.overwritten).Nodup :=
  h.perm.nodup_iff.mpr (hpushed.map fun _ _ => Option.some.inj)

end Histories

end AgentWriterBuffer

end SignalFxTracing.Agent
