import SignalFxTracing.Lib.Hex
import Mathlib.Data.List.TakeWhile

/-!
# Strings of the runtime

A `string` is the list of its UTF-16 code units, so that lengths and
positions are those of `Length`, `Substring` and `IndexOf`. A reference that
may be null has type `Option Text`.
-/

namespace SignalFxTracing.Clr

abbrev Text := List UInt16

/-- The platform that a native library is built for. -/
inductive Platform
  | windows
  | other
  deriving DecidableEq

instance Text.lawfulBEq : LawfulBEq Text := inferInstance

/-- The code units of a literal whose characters are all in the basic plane. -/
def text (s : String) : Text := s.toList.map fun c => c.toNat.toUInt16

/-- `string.IsNullOrEmpty`. -/
def isNullOrEmpty (s : Option Text) : Bool := s.getD [] == []

/-- `char.IsWhiteSpace`, the class of `string.Trim` and `string.IsNullOrWhiteSpace`. -/
def isWhiteSpace (c : UInt16) : Bool :=
  (0x09 ≤ c && c ≤ 0x0D) || c == 0x20 || c == 0x85 || c == 0xA0 || c == 0x1680 ||
    (0x2000 ≤ c && c ≤ 0x200A) || c == 0x2028 || c == 0x2029 || c == 0x202F ||
    c == 0x205F || c == 0x3000

/-- `string.IsNullOrWhiteSpace`. -/
def isNullOrWhiteSpace (s : Option Text) : Bool := (s.getD []).all isWhiteSpace

/-- `string.Trim()`. -/
def trim (s : Text) : Text :=
  ((s.dropWhile isWhiteSpace).reverse.dropWhile isWhiteSpace).reverse

/-- `string.Split(',')`: always at least one segment. -/
def splitOn (separator : UInt16) : Text → List Text
  | [] => [[]]
  | c :: rest =>
      if c = separator then [] :: splitOn separator rest
      else
        match splitOn separator rest with
        | [] => [[c]]
        | segment :: segments => (c :: segment) :: segments

/-- The white space that `ulong.TryParse` skips around a number. -/
def isNumberWhite (c : UInt16) : Bool := (0x09 ≤ c && c ≤ 0x0D) || c == 0x20

/-- `ulong.TryParse(s, NumberStyles.HexNumber, InvariantCulture, out result)`:
digits with white space around them, followed by any number of null characters. -/
def tryParseHexUInt64 (s : Text) : Option UInt64 :=
  let s := s.dropWhile isNumberWhite
  let digits := s.takeWhile fun c => (Lib.Hex.digitValue c).isSome
  let rest := (s.drop digits.length).dropWhile isNumberWhite
  if digits ≠ [] ∧ rest.all (· == 0) then
    match Lib.Hex.ofHex digits with
    | some v => if v < 2 ^ 64 then some (UInt64.ofNat v) else none
    | none => none
  else none

/-- `value.ToString("x16")` of a 64-bit unsigned number. -/
def toX16 (value : UInt64) : Text := Lib.Hex.toHex 16 value.toNat

@[simp] theorem toX16_length (value : UInt64) : (toX16 value).length = 16 :=
  Lib.Hex.toHex_length 16 value.toNat

theorem ofHex_toX16 (value : UInt64) : Lib.Hex.ofHex (toX16 value) = some value.toNat :=
  Lib.Hex.ofHex_toHex (by simpa using value.toNat_lt)

theorem toX16_ne_nil (value : UInt64) : toX16 value ≠ [] := by
  intro h
  have := toX16_length value
  simp [h] at this

/-- A hexadecimal digit is not white space of a number. -/
theorem not_isNumberWhite {c : UInt16} (h : (Lib.Hex.digitValue c).isSome) :
    isNumberWhite c = false := by
  have hv : 0x30 ≤ c.toNat := by
    unfold Lib.Hex.digitValue at h
    split_ifs at h <;> first | omega | cases h
  simp only [isNumberWhite, Bool.or_eq_false_iff, Bool.and_eq_false_iff, decide_eq_false_iff_not,
    UInt16.le_iff_toNat_le, beq_eq_false_iff_ne, ne_eq, ← UInt16.toNat_inj]
  constructor
  · right
    exact Nat.not_le.mpr (Nat.lt_of_lt_of_le (by decide) hv)
  · exact Nat.ne_of_gt (Nat.lt_of_lt_of_le (by decide) hv)

/-- A plain numeral of 64 bits is read as its value. -/
theorem tryParseHexUInt64_of_ofHex {s : Text} {v : Nat} (hs : s ≠ [])
    (h : Lib.Hex.ofHex s = some v) (hv : v < 2 ^ 64) :
    tryParseHexUInt64 s = some (UInt64.ofNat v) := by
  have hdigits := Lib.Hex.forall_isSome_of_ofHex h
  have hwhite : s.dropWhile isNumberWhite = s := by
    cases s with
    | nil => exact absurd rfl hs
    | cons c rest =>
        simp [not_isNumberWhite (hdigits c (List.mem_cons_self ..))]
  have htake : s.takeWhile (fun c => (Lib.Hex.digitValue c).isSome) = s :=
    List.takeWhile_eq_self_iff.mpr fun c hc => hdigits c hc
  simp only [tryParseHexUInt64, hwhite, htake, h, List.drop_length, List.dropWhile_nil, List.all_nil,
    ne_eq, hs, not_false_eq_true, and_self, if_true, hv]

@[simp] theorem tryParseHexUInt64_toX16 (value : UInt64) :
    tryParseHexUInt64 (toX16 value) = some value := by
  rw [tryParseHexUInt64_of_ofHex (toX16_ne_nil value) (ofHex_toX16 value) value.toNat_lt]
  simp

end SignalFxTracing.Clr
