import Mathlib.Data.List.Basic
import Mathlib.Data.Int.Basic
import Mathlib.Algebra.GroupWithZero.Nat
import Mathlib.Algebra.Group.Int.Defs

/-!
# Little-endian numbers

Numbers of a fixed number of bytes, the low byte first, and the signed reading
of their values.
-/

namespace SignalFxTracing.Lib.LittleEndian

/-- The low `size` bytes of a number. -/
def toLE : Nat → Nat → List UInt8
  | 0, _ => []
  | size + 1, v => UInt8.ofNat v :: toLE size (v / 256)

/-- The value of a sequence of bytes. -/
def ofLE : List UInt8 → Nat
  | [] => 0
  | b :: rest => b.toNat + 256 * ofLE rest

@[simp] theorem toLE_length (size v : Nat) : (toLE size v).length = size := by
  induction size generalizing v with
  | zero => rfl
  | succ size ih => simp [toLE, ih]

theorem ofLE_lt (bytes : List UInt8) : ofLE bytes < 256 ^ bytes.length := by
  induction bytes with
  | nil => simp [ofLE]
  | cons b rest ih =>
      have hb : b.toNat < 256 := b.toNat_lt
      rw [ofLE, List.length_cons, Nat.pow_succ]
      omega

/-- Reading back gives the number, as far as its bytes were written. -/
theorem ofLE_toLE (size v : Nat) : ofLE (toLE size v) = v % 256 ^ size := by
  induction size generalizing v with
  | zero => simp [toLE, ofLE, Nat.mod_one]
  | succ size ih =>
      have hb : (UInt8.ofNat v).toNat = v % 256 := by simp
      rw [toLE, ofLE, hb, ih, Nat.pow_succ, Nat.mul_comm (256 ^ size), Nat.mod_mul]

/-- The signed value of `size` bytes. -/
def signed (size : Nat) (v : Nat) : Int := Int.bmod v (256 ^ size)

/-- A read from the front of a sequence. -/
def read (size : Nat) (bytes : List UInt8) : Option (Nat × List UInt8) :=
  if size ≤ bytes.length then some (ofLE (bytes.take size), bytes.drop size) else none

/-- A written number is read back, and what follows it is left. -/
theorem read_toLE (size v : Nat) (rest : List UInt8) :
    read size (toLE size v ++ rest) = some (v % 256 ^ size, rest) := by
  have hlength : size ≤ (toLE size v ++ rest).length := by simp
  have htake : (toLE size v ++ rest).take size = toLE size v :=
    List.take_left' (toLE_length size v)
  have hdrop : (toLE size v ++ rest).drop size = rest :=
    List.drop_left' (toLE_length size v)
  rw [read, if_pos hlength, htake, hdrop, ofLE_toLE]

theorem read_length {size v : Nat} {bytes rest : List UInt8}
    (h : read size bytes = some (v, rest)) : bytes.length = size + rest.length := by
  unfold read at h
  split at h
  · next hsize =>
      obtain ⟨-, rfl⟩ := Prod.mk.inj (Option.some.inj h)
      rw [List.length_drop]
      omega
  · cases h

theorem read_lt {size v : Nat} {bytes rest : List UInt8}
    (h : read size bytes = some (v, rest)) : v < 256 ^ size := by
  unfold read at h
  split at h
  · next hsize =>
      obtain ⟨rfl, -⟩ := Prod.mk.inj (Option.some.inj h)
      have hlt := ofLE_lt (bytes.take size)
      rwa [List.length_take_of_le hsize] at hlt
  · cases h

/-- The bytes of a value are those that it has been read from. -/
theorem toLE_ofLE (bytes : List UInt8) : toLE bytes.length (ofLE bytes) = bytes := by
  induction bytes with
  | nil => rfl
  | cons b rest ih =>
      have hb := b.toNat_lt
      have hlow : UInt8.ofNat (b.toNat + 256 * ofLE rest) = b := by
        apply UInt8.toNat_inj.mp
        rw [UInt8.toNat_ofNat']
        omega
      have hhigh : (b.toNat + 256 * ofLE rest) / 256 = ofLE rest := by omega
      rw [List.length_cons, ofLE, toLE, hlow, hhigh, ih]

/-- A number is read from its own bytes only. -/
theorem eq_of_read {size v : Nat} {bytes rest : List UInt8}
    (h : read size bytes = some (v, rest)) : bytes = toLE size v ++ rest := by
  unfold read at h
  split at h
  · next hsize =>
      obtain ⟨rfl, rfl⟩ := Prod.mk.inj (Option.some.inj h)
      have htake := toLE_ofLE (bytes.take size)
      rw [List.length_take_of_le hsize] at htake
      rw [htake, List.take_append_drop]
  · cases h

/-- Only the low bytes of a number are written. -/
theorem toLE_congr {size v w : Nat} (h : v % 256 ^ size = w % 256 ^ size) :
    toLE size v = toLE size w := by
  have hlength := toLE_ofLE (toLE size v)
  have hlength' := toLE_ofLE (toLE size w)
  rw [toLE_length, ofLE_toLE] at hlength hlength'
  rw [← hlength, ← hlength', h]

end SignalFxTracing.Lib.LittleEndian
