import SignalFxTracing.Trace.TraceIdText

/-!
# The text codec of trace identifiers (`TraceId.cs`)

The text of an identifier read back, the decision of `TryParse` on every
reference to a string, and equality of identifiers against that of their texts.
-/

namespace SignalFxTracing.Trace.TraceId

open Clr Lib

/-- What leaves `Parse`: a null reference is followed at once. -/
inductive Raised
  | nullReference
  | conversion (error : ParseError)

/-- `Parse` on a reference. -/
def parseString (skipsPlus : Bool) : Option Text → Except Raised TraceId
  | none => .error .nullReference
  | some id => (parse skipsPlus id).mapError .conversion

/-- `TryParse` on a reference: the result, and the identifier that is assigned. -/
def tryParseString (skipsPlus : Bool) (id : Option Text) : Except Raised (Bool × TraceId) :=
  match parseString skipsPlus id with
  | .ok traceId => .ok (true, traceId)
  | .error (.conversion .overflow) => .ok (false, zero)
  | .error (.conversion .format) => .ok (false, zero)
  | .error e => .error e

/-- `ulong.GetHashCode`. -/
def hashOfHalf (value : UInt64) : UInt32 := value.toUInt32 ^^^ (value >>> 32).toUInt32

/-- `GetHashCode`. -/
def getHashCode (id : TraceId) : UInt32 := (hashOfHalf id.higher * 397) ^^^ hashOfHalf id.lower

/-- The 128-bit number of an identifier. -/
def value (id : TraceId) : Nat := id.higher.toNat * 2 ^ 64 + id.lower.toNat

/-- 16 or 32 hexadecimal digits. -/
def isHexText (id : Text) : Bool := (id.length == 16 || id.length == 32) && isDigits id

/-- The text of the identifier is parsed to an equal one. -/
def RoundTrips (skipsPlus : Bool) (id : TraceId) : Prop :=
  ∃ parsed, parseString skipsPlus id.toString = .ok parsed ∧ parsed.equals id = true

/-- `TryParse` returns: true with the number of the digits for 16 or 32 digits, otherwise
false with zero. -/
def Decides (skipsPlus : Bool) (id : Option Text) : Prop :=
  ∃ result traceId, tryParseString skipsPlus id = .ok (result, traceId) ∧
    (result = true ↔ id.any isHexText = true) ∧
    (result = true → id.bind Hex.ofHex = some traceId.value) ∧
    (result = false → traceId = zero)

/-- The identifiers are equal exactly when their texts are. -/
def ComparesAsText (a b : TraceId) : Prop := a.equals b = true ↔ a.toString = b.toString

section Parsing

variable {skipsPlus : Bool}

theorem tryParseString_some (id : Text) :
    tryParseString skipsPlus (some id) =
      match tryParse skipsPlus id with
      | .ok (some traceId) => .ok (true, traceId)
      | .ok none => .ok (false, zero)
      | .error e => .error (.conversion e) := by
  rw [tryParseString, parseString, tryParse]
  cases parse skipsPlus id with
  | ok traceId => rfl
  | error e => cases e <;> rfl

/-- A half of digits is converted to their value. -/
theorem convertToUInt64_of_digits {s : Text} (hlen : s.length = 16) (h : isDigits s = true) :
    ∃ v, convertToUInt64 skipsPlus s = .ok v ∧ Hex.ofHex s = some v.toNat := by
  have hdigits : ∀ c ∈ s, (Hex.digitValue c).isSome := List.all_eq_true.mp h
  obtain ⟨n, hn⟩ := Option.isSome_iff_exists.mp ((@Hex.ofHexFrom_isSome 0 s).mpr hdigits)
  have hlt : n < 2 ^ 64 :=
    calc
      n < (0 + 1) * 16 ^ s.length := Hex.ofHexFrom_lt hn
      _ = 2 ^ 64 := by rw [hlen]; norm_num
  have hne : s ≠ [] := List.ne_nil_of_length_pos (by omega)
  refine ⟨UInt64.ofNat n, convertToUInt64_of_ofHex skipsPlus hne hn hlt, ?_⟩
  rw [UInt64.toNat_ofNat_of_lt' hlt]
  exact hn

/-- 16 or 32 digits are parsed to their number. -/
theorem parse_of_isHexText {id : Text} (h : isHexText id = true) :
    ∃ traceId, parse skipsPlus id = .ok traceId ∧ Hex.ofHex id = some traceId.value := by
  rw [isHexText, Bool.and_eq_true, Bool.or_eq_true, beq_iff_eq, beq_iff_eq] at h
  obtain ⟨hlen | hlen, hdigits⟩ := h
  · obtain ⟨lower, hlower, hvalue⟩ := convertToUInt64_of_digits hlen hdigits
    refine ⟨ofHalves 0 lower, ?_, ?_⟩
    · rw [parse, if_pos hlen, hlower]
      rfl
    · rw [hvalue, value]
      simp [ofHalves]
  · have hhalves : isDigits (id.take 16) = true ∧ isDigits (id.drop 16) = true := by
      rw [← Bool.and_eq_true, isDigits, isDigits, ← List.all_append, List.take_append_drop]
      exact hdigits
    have hdrop : (id.drop 16).length = 16 := by rw [List.length_drop, hlen]
    obtain ⟨higher, hhigher, hfirst⟩ := convertToUInt64_of_digits (by simp [hlen]) hhalves.1
    obtain ⟨lower, hlower, hsecond⟩ := convertToUInt64_of_digits hdrop hhalves.2
    refine ⟨ofHalves higher lower, ?_, ?_⟩
    · rw [parse, if_neg (by omega), if_pos hlen, hhigher, hlower]
      rfl
    · rw [← List.take_append_drop 16 id, Hex.ofHex_append, hfirst, hsecond, hdrop]
      rfl

theorem isAccepted_of_isHexText {id : Text} (h : isHexText id = true) :
    isAccepted skipsPlus id = true := by
  by_contra hnot
  obtain ⟨traceId, hparse, -⟩ := @parse_of_isHexText skipsPlus id h
  have htry : tryParse skipsPlus id = .ok (some traceId) := by rw [tryParse, hparse]
  cases hneg : isNegative skipsPlus id with
  | true =>
      rw [tryParse_of_negative skipsPlus id hneg] at htry
      cases htry
  | false =>
      rw [tryParse_of_refused skipsPlus id hneg (Bool.not_eq_true _ |>.mp hnot)] at htry
      cases htry

end Parsing

/-- Identifiers with one text have the same halves. -/
theorem format_inj {higher lower higher' lower' : UInt64} :
    format higher lower = format higher' lower' ↔ higher = higher' ∧ lower = lower' := by
  constructor
  · intro h
    have hparse := congrArg (parse false) h
    rw [parse_format, parse_format] at hparse
    have hequal := Except.ok.inj hparse
    exact ⟨congrArg TraceId.higher hequal, congrArg TraceId.lower hequal⟩
  · rintro ⟨rfl, rfl⟩
    rfl

/-- One identifier is `default(TraceId)`, and the other one was built from two zeros. -/
def IsDefaultAndZero (a b : TraceId) : Prop :=
  a.toString = none ∧ b.toString = some (format 0 0)

section Laws

variable {skipsPlus : Bool}

/-- The text of an identifier reads back unless there is none. -/
theorem roundTrips_iff {id : TraceId} : RoundTrips skipsPlus id ↔ id.toString ≠ none := by
  rcases id.string_eq with htext | ⟨htext, -⟩
  · have hstring : id.toString = some (format id.higher id.lower) := htext
    refine iff_of_true ⟨ofHalves id.higher id.lower, ?_, ?_⟩ ?_
    · rw [hstring, parseString, parse_format]
      rfl
    · exact equals_iff.mpr ⟨rfl, rfl⟩
    · rw [hstring]
      exact Option.some_ne_none _
  · have hstring : id.toString = none := htext
    apply iff_of_false
    · rintro ⟨parsed, hparse, -⟩
      rw [hstring] at hparse
      cases hparse
    · exact not_not_intro hstring

/-- `TryParse` decides on a text as it should unless it raises, or accepts a sign or a prefix. -/
theorem decides_some_iff {id : Text} :
    Decides skipsPlus (some id) ↔ isNegative skipsPlus id = false ∧
      (isAccepted skipsPlus id = true → isHexText id = true) := by
  cases hneg : isNegative skipsPlus id with
  | true =>
      apply iff_of_false
      · rintro ⟨result, traceId, htry, -⟩
        rw [tryParseString_some, tryParse_of_negative skipsPlus id hneg] at htry
        cases htry
      · rintro ⟨h, -⟩
        cases h
  | false =>
      rw [and_iff_right rfl]
      cases hacc : isAccepted skipsPlus id with
      | false =>
          refine iff_of_true ⟨false, zero, ?_, ?_, nofun, fun _ => rfl⟩ nofun
          · rw [tryParseString_some, tryParse_of_refused skipsPlus id hneg hacc]
          · refine iff_of_false Bool.false_ne_true ?_
            intro hhex
            rw [isAccepted_of_isHexText hhex] at hacc
            cases hacc
      | true =>
          obtain ⟨traceId, htry, -⟩ := tryParse_of_accepted skipsPlus id hacc
          have htry' : tryParseString skipsPlus (some id) = .ok (true, traceId) := by
            rw [tryParseString_some, htry]
          constructor
          · rintro ⟨result, found, hfound, hresult, -⟩ _
            obtain ⟨rfl, rfl⟩ := Prod.mk.inj (Except.ok.inj (htry'.symm.trans hfound))
            exact hresult.mp rfl
          · intro hhex
            obtain ⟨parsed, hparse, hvalue⟩ := @parse_of_isHexText skipsPlus id (hhex rfl)
            refine ⟨true, parsed, ?_, iff_of_true rfl (hhex rfl), fun _ => hvalue, nofun⟩
            rw [tryParseString, parseString, hparse]
            rfl

theorem decides_iff {id : Option Text} :
    Decides skipsPlus id ↔ ∃ s, id = some s ∧ isNegative skipsPlus s = false ∧
      (isAccepted skipsPlus s = true → isHexText s = true) := by
  cases id with
  | none =>
      apply iff_of_false
      · rintro ⟨result, traceId, htry, -⟩
        cases htry
      · rintro ⟨s, h, -⟩
        cases h
  | some s =>
      rw [decides_some_iff]
      constructor
      · intro h
        exact ⟨s, rfl, h⟩
      · rintro ⟨s', hs, h⟩
        obtain rfl := Option.some.inj hs
        exact h

theorem comparesAsText_comm {a b : TraceId} : ComparesAsText a b ↔ ComparesAsText b a := by
  have hequals : a.equals b = true ↔ b.equals a = true := by
    rw [equals_iff, equals_iff, eq_comm, and_congr_right_iff]
    intro _
    exact eq_comm
  rw [ComparesAsText, ComparesAsText, hequals, @eq_comm _ a.toString]

/-- A default value is told from an identifier with a text unless that is zero. -/
theorem comparesAsText_default_iff {a b : TraceId} (ha : a.toString = none)
    (hzero : a.higher = 0 ∧ a.lower = 0) (hb : b.toString = some (format b.higher b.lower)) :
    ComparesAsText a b ↔ ¬ IsDefaultAndZero a b := by
  rw [ComparesAsText, IsDefaultAndZero, equals_iff, ha, hb, hzero.1, hzero.2, Option.some_inj,
    format_inj, iff_false_right (Option.some_ne_none _).symm, and_iff_right rfl,
    eq_comm, @eq_comm _ 0 b.lower]

/-- Equality is that of the texts unless a default value meets a zero that was built. -/
theorem comparesAsText_iff {a b : TraceId} :
    ComparesAsText a b ↔ ¬ IsDefaultAndZero a b ∧ ¬ IsDefaultAndZero b a := by
  have hnot : ∀ {c d : TraceId}, c.toString ≠ none → ¬ IsDefaultAndZero c d := by
    intro c d hc hzero
    exact hc hzero.1
  rcases a.string_eq with ha | ⟨ha, hzero⟩
  · have ha : a.toString = some (format a.higher a.lower) := ha
    rw [iff_true_intro (hnot (by rw [ha]; exact Option.some_ne_none _)), true_and]
    rcases b.string_eq with hb | ⟨hb, hzero⟩
    · have hb : b.toString = some (format b.higher b.lower) := hb
      rw [iff_true_right (hnot (by rw [hb]; exact Option.some_ne_none _)), ComparesAsText,
        equals_iff, ha, hb, Option.some_inj, format_inj]
    · rw [comparesAsText_comm]
      exact comparesAsText_default_iff hb hzero ha
  · rcases b.string_eq with hb | ⟨hb, hzero'⟩
    · have hb : b.toString = some (format b.higher b.lower) := hb
      rw [comparesAsText_default_iff ha hzero hb, and_iff_left]
      exact hnot (by rw [hb]; exact Option.some_ne_none _)
    · refine iff_of_true ?_ ⟨?_, ?_⟩
      · rw [ComparesAsText, equals_iff, hzero.1, hzero.2, hzero'.1, hzero'.2]
        exact iff_of_true ⟨rfl, rfl⟩ (ha.trans hb.symm)
      · rintro ⟨-, htext⟩
        exact Option.some_ne_none _ (htext.symm.trans hb)
      · rintro ⟨-, htext⟩
        exact Option.some_ne_none _ (htext.symm.trans ha)

theorem getHashCode_of_equals {a b : TraceId} (h : a.equals b = true) :
    a.getHashCode = b.getHashCode := by
  obtain ⟨hhigher, hlower⟩ := equals_iff.mp h
  rw [getHashCode, getHashCode, hhigher, hlower]

end Laws

/-- The laws of the codec, each with the values on which it holds: an identifier reads back
unless it has no text, `TryParse` decides unless the reference is null, a minus sign stands
before a half that is read, or a sign or a prefix is accepted, equality is that of the texts
unless a default value meets a zero that was built, and equal identifiers have equal hash codes. -/
theorem codec_iff (skipsPlus : Bool) (id : TraceId) (s : Option Text) (a b : TraceId) :
    (RoundTrips skipsPlus id ↔ id.toString ≠ none) ∧
    (Decides skipsPlus s ↔ ∃ t, s = some t ∧ isNegative skipsPlus t = false ∧
      (isAccepted skipsPlus t = true → isHexText t = true)) ∧
    (ComparesAsText a b ↔ ¬ IsDefaultAndZero a b ∧ ¬ IsDefaultAndZero b a) ∧
    (a.equals b = true → a.getHashCode = b.getHashCode) :=
  ⟨roundTrips_iff, decides_iff, comparesAsText_iff, getHashCode_of_equals⟩

/-- A prefix is accepted, a minus sign and a null reference raise, and the default value equals
the zero that was built but has no text. -/
theorem not_decides_decorated :
    ¬ Decides true (some (text "0x0000000000004f")) ∧
    ¬ Decides false (some (text "0x0000000000004f")) ∧
    ¬ Decides true (some (text "-00000000000004f")) ∧
    ¬ Decides false (some (text "-00000000000004f")) ∧
    ¬ ComparesAsText default zero ∧ ¬ RoundTrips true default := by
  refine ⟨?_, ?_, ?_, ?_, ?_, ?_⟩
  · rw [decides_some_iff]
    decide
  · rw [decides_some_iff]
    decide
  · rw [decides_some_iff]
    decide
  · rw [decides_some_iff]
    decide
  · rw [comparesAsText_iff]
    exact fun h => h.1 ⟨rfl, rfl⟩
  · rw [roundTrips_iff]
    exact not_not_intro rfl

end SignalFxTracing.Trace.TraceId
