import SignalFxTracing.Clr.Text

/-!
# 128-bit trace identifiers (`TraceId.cs`)

The struct stores its text next to the two halves. Only `default(TraceId)`
has no text, and that value has both halves zero; the structure carries this
as a field, so that no other combination exists.

`Convert.ToUInt64(s, 16)` belongs to the runtime. Its documentation is silent
about a leading plus sign, so the model takes that as the parameter
`skipsPlus` and every result holds for both readings.
-/

namespace SignalFxTracing.Trace

open Clr Lib

/-- The text both constructors store. -/
def TraceId.format (higher lower : UInt64) : Text := toX16 higher ++ toX16 lower

structure TraceId where
  higher : UInt64
  lower : UInt64
  string : Option Text
  string_eq : string = some (TraceId.format higher lower) ∨
    (string = none ∧ higher = 0 ∧ lower = 0)
  deriving DecidableEq

namespace TraceId

/-- The private constructor of both halves. -/
def ofHalves (higher lower : UInt64) : TraceId :=
  ⟨higher, lower, some (format higher lower), Or.inl rfl⟩

def zero : TraceId := ofHalves 0 0

/-- `default(TraceId)`. -/
def default : TraceId := ⟨0, 0, none, Or.inr ⟨rfl, rfl, rfl⟩⟩

/-- `operator ==` and `Equals`: the halves are compared, the text is not. -/
def equals (a b : TraceId) : Bool := a.lower == b.lower && a.higher == b.higher

def toString (id : TraceId) : Option Text := id.string

theorem equals_iff {a b : TraceId} :
    a.equals b = true ↔ a.higher = b.higher ∧ a.lower = b.lower := by
  simp [equals, and_comm]

@[simp] theorem zero_higher : zero.higher = 0 := rfl

@[simp] theorem zero_lower : zero.lower = 0 := rfl

/-- Every identifier but the default one carries its text. -/
theorem toString_of_not_zero {id : TraceId} (h : id.equals zero = false) :
    id.toString = some (format id.higher id.lower) := by
  rcases id.string_eq with hs | ⟨_, hh, hl⟩
  · exact hs
  · simp [equals, hh, hl] at h

/-- The exceptions the conversion of a hexadecimal text can raise. -/
inductive ParseError
  | argument
  | format
  | overflow
  deriving DecidableEq

/-- The digits of `Convert.ToUInt64(s, 16)`, after any prefix. -/
def convertDigits (s : Text) : Except ParseError UInt64 :=
  if s = [] then .error .format
  else
    match Hex.ofHex s with
    | none => .error .format
    | some v => if v < 2 ^ 64 then .ok (UInt64.ofNat v) else .error .overflow

/-- Drop one optional `0x` or `0X`. -/
def dropPrefix : Text → Text
  | 0x30 :: 0x78 :: rest => rest
  | 0x30 :: 0x58 :: rest => rest
  | s => s

/-- `Convert.ToUInt64(s, fromBase: 16)` on a non-empty text. -/
def convertToUInt64 (skipsPlus : Bool) (s : Text) : Except ParseError UInt64 :=
  match s with
  | 0x2D :: _ => .error .argument
  | 0x2B :: rest =>
      if skipsPlus then convertDigits (dropPrefix rest) else .error .format
  | _ => convertDigits (dropPrefix s)

/-- `TraceId.Parse`. -/
def parse (skipsPlus : Bool) (id : Text) : Except ParseError TraceId :=
  if id.length = 16 then do
    let lower ← convertToUInt64 skipsPlus id
    return ofHalves 0 lower
  else if id.length = 32 then do
    let higher ← convertToUInt64 skipsPlus (id.take 16)
    let lower ← convertToUInt64 skipsPlus (id.drop 16)
    return ofHalves higher lower
  else .error .format

/-- `TraceId.TryParse`: `none` is the result `false`. The filter of the catch
clause names the overflow and format exceptions; `ArgumentException` itself is
not among its types and leaves the method. -/
def tryParse (skipsPlus : Bool) (id : Text) : Except ParseError (Option TraceId) :=
  match parse skipsPlus id with
  | .ok traceId => .ok (some traceId)
  | .error .overflow => .ok none
  | .error .format => .ok none
  | .error .argument => .error .argument

theorem ne_of_digitValue {c d : UInt16} (hc : (Hex.digitValue c).isSome)
    (hd : Hex.digitValue d = none) : c ≠ d := by
  rintro rfl
  simp [hd] at hc

/-- A text of digits has no prefix to drop. -/
theorem dropPrefix_of_digits {s : Text} (h : ∀ c ∈ s, (Hex.digitValue c).isSome) :
    dropPrefix s = s := by
  match s with
  | [] => rfl
  | [c] => unfold dropPrefix; split <;> simp_all
  | c :: d :: rest =>
      have hx : d ≠ 0x78 := ne_of_digitValue (h d (by simp)) rfl
      have hX : d ≠ 0x58 := ne_of_digitValue (h d (by simp)) rfl
      unfold dropPrefix
      split <;> simp_all

/-- A plain numeral of 64 bits converts to its value. -/
theorem convertToUInt64_of_ofHex (skipsPlus : Bool) {s : Text} {v : Nat} (hs : s ≠ [])
    (h : Hex.ofHex s = some v) (hv : v < 2 ^ 64) :
    convertToUInt64 skipsPlus s = .ok (UInt64.ofNat v) := by
  have hdigits := Hex.forall_isSome_of_ofHex h
  have hconvert : convertDigits (dropPrefix s) = .ok (UInt64.ofNat v) := by
    simp only [dropPrefix_of_digits hdigits, convertDigits, hs, h, if_false, hv, if_true]
  unfold convertToUInt64
  split
  · exact absurd rfl (ne_of_digitValue (hdigits _ (List.mem_cons_self ..)) rfl)
  · exact absurd rfl (ne_of_digitValue (hdigits _ (List.mem_cons_self ..)) rfl)
  · exact hconvert

@[simp] theorem convertToUInt64_toX16 (skipsPlus : Bool) (value : UInt64) :
    convertToUInt64 skipsPlus (toX16 value) = .ok value := by
  rw [convertToUInt64_of_ofHex skipsPlus (toX16_ne_nil value) (ofHex_toX16 value) value.toNat_lt]
  simp

/-- Parsing the stored text gives back both halves. -/
@[simp] theorem parse_format (skipsPlus : Bool) (higher lower : UInt64) :
    parse skipsPlus (format higher lower) = .ok (ofHalves higher lower) := by
  have hlen : (format higher lower).length = 32 := by simp [format]
  have htake : (format higher lower).take 16 = toX16 higher := by
    rw [format, List.take_append_of_le_length (by simp), List.take_of_length_le (by simp)]
  have hdrop : (format higher lower).drop 16 = toX16 lower := by
    rw [format, List.drop_append_of_le_length (by simp), List.drop_of_length_le (by simp),
      List.nil_append]
  rw [parse, if_neg (by omega), if_pos hlen, htake, hdrop]
  simp only [convertToUInt64_toX16]
  rfl

@[simp] theorem tryParse_format (skipsPlus : Bool) (higher lower : UInt64) :
    tryParse skipsPlus (format higher lower) = .ok (some (ofHalves higher lower)) := by
  simp [tryParse]

end TraceId

end SignalFxTracing.Trace
