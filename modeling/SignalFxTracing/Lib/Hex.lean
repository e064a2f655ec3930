import Mathlib.Tactic.IntervalCases
import Mathlib.Tactic.Ring

/-!
# Fixed-width hexadecimal numerals over UTF-16 code units

`toHex` writes the low digits of a number, most significant first. `ofHex`
reads a numeral of any length and refuses every other code unit.
-/

namespace SignalFxTracing.Lib.Hex

/-- The lower-case digit of a number below sixteen. -/
def digit (n : Nat) : UInt16 :=
  if n < 10 then UInt16.ofNat (0x30 + n) else UInt16.ofNat (0x57 + n)

/-- The value of one digit of either case. -/
def digitValue (c : UInt16) : Option Nat :=
  if 0x30 ≤ c.toNat ∧ c.toNat ≤ 0x39 then some (c.toNat - 0x30)
  else if 0x61 ≤ c.toNat ∧ c.toNat ≤ 0x66 then some (c.toNat - 0x57)
  else if 0x41 ≤ c.toNat ∧ c.toNat ≤ 0x46 then some (c.toNat - 0x37)
  else none

/-- The low `width` digits of a number. -/
def toHex : Nat → Nat → List UInt16
  | 0, _ => []
  | width + 1, n => toHex width (n / 16) ++ [digit (n % 16)]

/-- Read the remaining digits onto the value read so far. -/
def ofHexFrom (value : Nat) : List UInt16 → Option Nat
  | [] => some value
  | c :: rest => (digitValue c).bind fun d => ofHexFrom (value * 16 + d) rest

/-- The number a list of digits denotes; the empty list denotes zero. -/
def ofHex (s : List UInt16) : Option Nat := ofHexFrom 0 s

theorem digitValue_digit {n : Nat} (h : n < 16) : digitValue (digit n) = some n := by
  interval_cases n <;> rfl

theorem digitValue_lt {c : UInt16} {d : Nat} (h : digitValue c = some d) : d < 16 := by
  unfold digitValue at h
  split_ifs at h <;> simp only [Option.some.injEq] at h <;> omega

@[simp] theorem toHex_length (width n : Nat) : (toHex width n).length = width := by
  induction width generalizing n with
  | zero => rfl
  | succ width ih => simp [toHex, ih]

theorem ofHexFrom_append (value : Nat) (s t : List UInt16) :
    ofHexFrom value (s ++ t) = (ofHexFrom value s).bind fun v => ofHexFrom v t := by
  induction s generalizing value with
  | nil => rfl
  | cons c rest ih =>
      simp only [List.cons_append, ofHexFrom, Option.bind_assoc]
      exact congrArg _ (funext fun d => ih _)

theorem ofHexFrom_toHex (value width n : Nat) :
    ofHexFrom value (toHex width n) = some (value * 16 ^ width + n % 16 ^ width) := by
  induction width generalizing n with
  | zero => simp [toHex, ofHexFrom, Nat.mod_one]
  | succ width ih =>
      rw [toHex, ofHexFrom_append, ih, Option.bind_some]
      have hd : digitValue (digit (n % 16)) = some (n % 16) :=
        digitValue_digit (Nat.mod_lt _ (by decide))
      simp only [ofHexFrom, hd, Option.bind_some, Option.some.injEq]
      have hsplit : n % 16 ^ (width + 1) = n / 16 % 16 ^ width * 16 + n % 16 := by
        rw [pow_succ', Nat.mod_mul]
        ring
      rw [hsplit, pow_succ]
      ring

/-- Reading back the numeral of a number that fits gives the number. -/
theorem ofHex_toHex {width n : Nat} (h : n < 16 ^ width) :
    ofHex (toHex width n) = some n := by
  rw [ofHex, ofHexFrom_toHex, Nat.mod_eq_of_lt h, Nat.zero_mul, Nat.zero_add]

/-- Every code unit of a numeral is a digit, and a list of digits is a numeral. -/
theorem ofHexFrom_isSome {value : Nat} {s : List UInt16} :
    (ofHexFrom value s).isSome ↔ ∀ c ∈ s, (digitValue c).isSome := by
  induction s generalizing value with
  | nil => simp [ofHexFrom]
  | cons c rest ih =>
      simp only [ofHexFrom, List.forall_mem_cons]
      cases h : digitValue c with
      | none => simp
      | some d => simpa using ih

theorem forall_isSome_of_ofHex {s : List UInt16} {v : Nat} (h : ofHex s = some v) :
    ∀ c ∈ s, (digitValue c).isSome :=
  ofHexFrom_isSome.mp (Option.isSome_of_eq_some h)

theorem digitValue_eq_zero {c : UInt16} : digitValue c = some 0 ↔ c = 0x30 := by
  constructor
  · intro h
    unfold digitValue at h
    rw [← UInt16.toNat_inj]
    split_ifs at h <;> simp only [Option.some.injEq] at h
    · change c.toNat = 48
      omega
    all_goals omega
  · rintro rfl
    rfl

/-- A numeral denotes zero exactly when every digit is a zero. -/
theorem ofHexFrom_eq_zero {value : Nat} {s : List UInt16} :
    ofHexFrom value s = some 0 ↔ value = 0 ∧ ∀ c ∈ s, c = 0x30 := by
  induction s generalizing value with
  | nil => simp [ofHexFrom]
  | cons c rest ih =>
      simp only [ofHexFrom, Option.bind_eq_some_iff, ih, List.forall_mem_cons]
      constructor
      · rintro ⟨d, hd, hsum, hrest⟩
        obtain rfl : d = 0 := by omega
        exact ⟨by omega, digitValue_eq_zero.mp hd, hrest⟩
      · rintro ⟨rfl, hc, hrest⟩
        exact ⟨0, digitValue_eq_zero.mpr hc, rfl, hrest⟩

theorem ofHexFrom_lt {value v : Nat} {s : List UInt16} (h : ofHexFrom value s = some v) :
    v < (value + 1) * 16 ^ s.length := by
  induction s generalizing value with
  | nil =>
      obtain rfl : value = v := Option.some.inj h
      simp
  | cons c rest ih =>
      simp only [ofHexFrom, Option.bind_eq_some_iff] at h
      obtain ⟨d, hd, hv⟩ := h
      have hlt := digitValue_lt hd
      calc
        v < (value * 16 + d + 1) * 16 ^ rest.length := ih hv
        _ ≤ ((value + 1) * 16) * 16 ^ rest.length :=
          Nat.mul_le_mul_right _ (by omega)
        _ = (value + 1) * 16 ^ (c :: rest).length := by
          rw [List.length_cons, pow_succ]; ring

/-- The digits behind a value add theirs to it. -/
theorem ofHexFrom_eq_map (value : Nat) (s : List UInt16) :
    ofHexFrom value s = (ofHex s).map (value * 16 ^ s.length + ·) := by
  induction s generalizing value with
  | nil => simp [ofHex, ofHexFrom]
  | cons c rest ih =>
      simp only [ofHex, ofHexFrom, Option.map_bind]
      apply congrArg
      funext d
      rw [ih, Function.comp_apply, ih (0 * 16 + d), Option.map_map]
      apply congrFun
      apply congrArg
      funext v
      rw [Function.comp_apply, List.length_cons, pow_succ]
      ring

/-- The value of a numeral that is cut in two. -/
theorem ofHex_append (s t : List UInt16) :
    ofHex (s ++ t) = (ofHex s).bind fun v => (ofHex t).map (v * 16 ^ t.length + ·) := by
  rw [ofHex, ofHexFrom_append]
  exact congrArg _ (funext fun v => ofHexFrom_eq_map v t)

end SignalFxTracing.Lib.Hex
