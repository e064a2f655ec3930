import Mathlib.Data.List.Basic
import Mathlib.Order.Lattice
import Mathlib.Order.Nat

/-!
# Writing into a buffer

The memory behind the start of a buffer, without a bound, and how far it has
been written. Writing in one place leaves the others as they are.
-/

namespace SignalFxTracing.Lib

/-- The bytes by their addresses, and the end of the highest one that has been written. -/
structure Buffer where
  memory : Nat → UInt8
  written : Nat

namespace Buffer

variable (b : Buffer) (address : Nat) (bytes : List UInt8)

def write : Buffer where
  memory a :=
    if address ≤ a then (bytes[a - address]?).getD (b.memory a) else b.memory a
  written := if bytes = [] then b.written else max b.written (address + bytes.length)

/-- The `n` bytes from an address on. -/
def slice (n : Nat) : List UInt8 := (List.range n).map fun i => b.memory (address + i)

@[simp] theorem length_slice (n : Nat) : (b.slice address n).length = n := by simp [slice]

@[simp] theorem write_nil : b.write address [] = b := by simp [write]

theorem written_write_le {bound : Nat} (hb : b.written ≤ bound)
    (h : address + bytes.length ≤ bound) : (b.write address bytes).written ≤ bound := by
  rw [write]
  split_ifs
  · exact hb
  · exact max_le hb h

/-- Bytes that follow each other are written at once. -/
theorem write_append (more : List UInt8) :
    (b.write address bytes).write (address + bytes.length) more =
      b.write address (bytes ++ more) := by
  simp only [write, Buffer.mk.injEq]
  constructor
  · funext a
    by_cases ha : address ≤ a
    · by_cases hlt : a - address < bytes.length
      · rw [if_neg (by omega), if_pos ha, if_pos ha, List.getElem?_append_left hlt]
      · have hnone : bytes[a - address]? = none := List.getElem?_eq_none (by omega)
        rw [if_pos (by omega), if_pos ha, if_pos ha, List.getElem?_append_right (by omega), hnone,
          Option.getD_none, Nat.sub_add_eq]
    · rw [if_neg (by omega), if_neg ha, if_neg ha]
  · by_cases hbytes : bytes = []
    · simp [hbytes]
    · by_cases hmore : more = []
      · simp [hmore]
      · have hboth : bytes ++ more ≠ [] := List.append_ne_nil_of_left_ne_nil hbytes _
        rw [if_neg hmore, if_neg hbytes, if_neg hboth, List.length_append]
        omega

theorem slice_write_self : (b.write address bytes).slice address bytes.length = bytes := by
  apply List.ext_getElem
  · simp
  · intro i hi hi'
    simp [slice, write, List.getElem?_eq_getElem hi']

/-- Bytes before or behind what is written stay. -/
theorem slice_write_of_disjoint {start n : Nat}
    (h : start + n ≤ address ∨ address + bytes.length ≤ start) :
    (b.write address bytes).slice start n = b.slice start n := by
  rw [slice, slice]
  apply List.map_congr_left
  intro i hi
  rw [List.mem_range] at hi
  rw [write]
  dsimp only
  split_ifs with ha
  · rw [List.getElem?_eq_none (by omega), Option.getD_none]
  · rfl

theorem slice_add (m n : Nat) :
    b.slice address (m + n) = b.slice address m ++ b.slice (address + m) n := by
  rw [slice, List.range_add, List.map_append, List.map_map, slice, slice]
  congr 1
  apply List.map_congr_left
  intro i _
  rw [Function.comp_apply, Nat.add_assoc]

end Buffer

end SignalFxTracing.Lib
