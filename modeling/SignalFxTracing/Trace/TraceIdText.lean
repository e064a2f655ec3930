import SignalFxTracing.Trace.TraceId

/-!
# The texts that `TraceId.TryParse` reads, refuses and fails on

The outcome of `TryParse` depends only on the shape of the text: the digits
after an optional sign and prefix, and a minus sign in front of a half.
-/

namespace SignalFxTracing.Trace.TraceId

open Clr Lib

def isDigits (s : Text) : Bool := s.all fun c => (Hex.digitValue c).isSome

/-- Drop a plus sign when the conversion skips it. -/
def dropSign (skipsPlus : Bool) : Text → Text
  | 0x2B :: rest => if skipsPlus then rest else 0x2B :: rest
  | s => s

/-- An optional sign and prefix followed by at least one digit. -/
def isNumeral (skipsPlus : Bool) (s : Text) : Bool :=
  dropPrefix (dropSign skipsPlus s) != [] && isDigits (dropPrefix (dropSign skipsPlus s))

def startsNegative (s : Text) : Bool := s.head? == some 0x2D

/-- Texts of 16 or 32 code units whose halves are numerals. -/
def isAccepted (skipsPlus : Bool) (id : Text) : Bool :=
  (id.length == 16 && isNumeral skipsPlus id) ||
    (id.length == 32 && isNumeral skipsPlus (id.take 16) && isNumeral skipsPlus (id.drop 16))

/-- Texts of 16 or 32 code units with a minus sign where a half is read. The
second half is read only when the first is a numeral. -/
def isNegative (skipsPlus : Bool) (id : Text) : Bool :=
  (id.length == 16 && startsNegative id) ||
    (id.length == 32 &&
      (startsNegative id || (isNumeral skipsPlus (id.take 16) && startsNegative (id.drop 16))))

/-- Only zeros, signs and the letter of a prefix. -/
def isZeroText (s : Text) : Bool :=
  s.all fun c => c == 0x30 || c == 0x2B || c == 0x58 || c == 0x78

/-- A trace id as the protocols define it: 16 or 32 digits, not all zero. -/
def isValid (id : Text) : Bool :=
  (id.length == 16 || id.length == 32) && isDigits id && !isZeroText id

section Conversion

variable (skipsPlus : Bool) (s : Text)

theorem isZeroText_dropSign : isZeroText (dropSign skipsPlus s) = isZeroText s := by
  unfold dropSign
  split
  · cases skipsPlus <;> simp [isZeroText]
  · rfl

theorem isZeroText_dropPrefix : isZeroText (dropPrefix s) = isZeroText s := by
  unfold dropPrefix
  split <;> simp [isZeroText]

theorem startsNegative_eq_true {s : Text} :
    startsNegative s = true ↔ ∃ rest, s = 0x2D :: rest := by
  cases s <;> simp [startsNegative]

theorem dropSign_length_le : (dropSign skipsPlus s).length ≤ s.length := by
  unfold dropSign
  split
  · cases skipsPlus <;> simp
  · exact Nat.le_refl _

theorem dropPrefix_length_le : (dropPrefix s).length ≤ s.length := by
  unfold dropPrefix
  split <;> simp <;> omega

theorem isNumeral_iff : isNumeral skipsPlus s = true ↔
    dropPrefix (dropSign skipsPlus s) ≠ [] ∧
      ∀ c ∈ dropPrefix (dropSign skipsPlus s), (Hex.digitValue c).isSome := by
  simp [isNumeral, isDigits]

/-- Without a minus sign the conversion reads the digits after sign and prefix. -/
theorem convertToUInt64_of_not_negative (h : startsNegative s = false) :
    convertToUInt64 skipsPlus s = convertDigits (dropPrefix (dropSign skipsPlus s)) := by
  unfold convertToUInt64
  split
  · simp [startsNegative] at h
  · next rest =>
      cases skipsPlus with
      | true => rfl
      | false =>
          have hplus : Hex.ofHex (0x2B :: rest) = none := rfl
          simp [dropSign, dropPrefix, convertDigits, hplus]
  · next hplus =>
      congr 2
      unfold dropSign
      split
      · next rest _ => exact absurd rfl (hplus rest)
      · rfl

theorem convertToUInt64_of_negative (h : startsNegative s = true) :
    convertToUInt64 skipsPlus s = .error .argument := by
  obtain ⟨rest, rfl⟩ := startsNegative_eq_true.mp h
  rfl

/-- Sixteen digits fit, so what is not a numeral is a format error. -/
theorem convertToUInt64_of_not_numeral (hneg : startsNegative s = false)
    (h : isNumeral skipsPlus s = false) : convertToUInt64 skipsPlus s = .error .format := by
  rw [convertToUInt64_of_not_negative skipsPlus s hneg, convertDigits]
  split
  · rfl
  · next hne =>
      have hnone : Hex.ofHex (dropPrefix (dropSign skipsPlus s)) = none := by
        rw [← Option.not_isSome_iff_eq_none, Hex.ofHex, Hex.ofHexFrom_isSome]
        exact fun hdigits => Bool.eq_false_iff.mp h ((isNumeral_iff skipsPlus s).mpr ⟨hne, hdigits⟩)
      rw [hnone]

/-- A digit that a zero text may contain is a zero. -/
theorem isZeroText_of_digits {digits : Text} (h : ∀ c ∈ digits, (Hex.digitValue c).isSome) :
    isZeroText digits = true ↔ ∀ c ∈ digits, c = 0x30 := by
  simp only [isZeroText, List.all_eq_true, Bool.or_eq_true, beq_iff_eq]
  constructor
  · intro hzero c hc
    have hdigit := h c hc
    rcases hzero c hc with ((hzero | rfl) | rfl) | rfl
    · exact hzero
    · cases hdigit
    · cases hdigit
    · cases hdigit
  · exact fun hzero c hc => Or.inl (Or.inl (Or.inl (hzero c hc)))

theorem startsNegative_of_numeral (h : isNumeral skipsPlus s = true) :
    startsNegative s = false := by
  by_contra hneg
  obtain ⟨rest, rfl⟩ := startsNegative_eq_true.mp (Bool.not_eq_false _ ▸ hneg)
  have hdigits := ((isNumeral_iff skipsPlus _).mp h).2 0x2D (by simp [dropSign, dropPrefix])
  cases hdigits

/-- A numeral of at most sixteen code units has a value, zero for a zero text. -/
theorem convertToUInt64_of_numeral (hlen : s.length ≤ 16) (h : isNumeral skipsPlus s = true) :
    ∃ v, convertToUInt64 skipsPlus s = .ok v ∧ (v = 0 ↔ isZeroText s = true) := by
  obtain ⟨hne, hdigits⟩ := (isNumeral_iff skipsPlus s).mp h
  obtain ⟨n, hn⟩ := Option.isSome_iff_exists.mp ((@Hex.ofHexFrom_isSome 0 _).mpr hdigits)
  have hlength : (dropPrefix (dropSign skipsPlus s)).length ≤ 16 :=
    (dropPrefix_length_le _).trans ((dropSign_length_le skipsPlus s).trans hlen)
  have hlt : n < 2 ^ 64 :=
    calc
      n < (0 + 1) * 16 ^ (dropPrefix (dropSign skipsPlus s)).length := Hex.ofHexFrom_lt hn
      _ ≤ 1 * 16 ^ 16 := Nat.mul_le_mul_left _ (Nat.pow_le_pow_right (by decide) hlength)
      _ = 2 ^ 64 := by norm_num
  refine ⟨UInt64.ofNat n, ?_, ?_⟩
  · rw [convertToUInt64_of_not_negative skipsPlus s (startsNegative_of_numeral skipsPlus s h),
      convertDigits, if_neg hne, Hex.ofHex, hn]
    exact if_pos hlt
  · rw [← isZeroText_dropSign skipsPlus, ← isZeroText_dropPrefix, isZeroText_of_digits hdigits]
    have hzero : UInt64.ofNat n = 0 ↔ n = 0 := by
      rw [← UInt64.toNat_inj, UInt64.toNat_ofNat_of_lt' hlt]
      exact Iff.rfl
    rw [hzero]
    constructor
    · rintro rfl
      exact (Hex.ofHexFrom_eq_zero.mp hn).2
    · intro hall
      exact Option.some.inj (hn.symm.trans (Hex.ofHexFrom_eq_zero.mpr ⟨rfl, hall⟩))

end Conversion

section Outcomes

variable (skipsPlus : Bool) (id : Text)

theorem equals_zero_ofHalves (higher lower : UInt64) :
    (ofHalves higher lower).equals zero = true ↔ higher = 0 ∧ lower = 0 := by
  rw [equals_iff]
  exact Iff.rfl

theorem isZeroText_halves : isZeroText id = true ↔
    isZeroText (id.take 16) = true ∧ isZeroText (id.drop 16) = true := by
  conv_lhs => rw [← List.take_append_drop 16 id]
  simp only [isZeroText, List.all_append, Bool.and_eq_true]

/-- `TryParse` raises on a minus sign in front of a half that is read. -/
theorem tryParse_of_negative (h : isNegative skipsPlus id = true) :
    tryParse skipsPlus id = .error .argument := by
  simp only [isNegative, Bool.or_eq_true, Bool.and_eq_true, beq_iff_eq] at h
  rcases h with ⟨hlen, hneg⟩ | ⟨hlen, hneg⟩
  · rw [tryParse, parse, if_pos hlen, convertToUInt64_of_negative skipsPlus id hneg]
    rfl
  · have hne : ¬ id.length = 16 := by omega
    rcases hneg with hneg | ⟨hfirst, hneg⟩
    · have htake : startsNegative (id.take 16) = true := by
        obtain ⟨rest, rfl⟩ := startsNegative_eq_true.mp hneg
        rfl
      rw [tryParse, parse, if_neg hne, if_pos hlen,
        convertToUInt64_of_negative skipsPlus _ htake]
      rfl
    · obtain ⟨higher, hhigher, -⟩ := convertToUInt64_of_numeral skipsPlus (id.take 16)
        (by simp) hfirst
      rw [tryParse, parse, if_neg hne, if_pos hlen, hhigher,
        convertToUInt64_of_negative skipsPlus _ hneg]
      rfl

/-- `TryParse` returns an identifier for an accepted text, zero for a zero text. -/
theorem tryParse_of_accepted (h : isAccepted skipsPlus id = true) :
    ∃ traceId, tryParse skipsPlus id = .ok (some traceId) ∧
      (traceId.equals zero = true ↔ isZeroText id = true) := by
  simp only [isAccepted, Bool.or_eq_true, Bool.and_eq_true, beq_iff_eq] at h
  rcases h with ⟨hlen, hnum⟩ | ⟨⟨hlen, hfirst⟩, hsecond⟩
  · obtain ⟨lower, hlower, hzero⟩ := convertToUInt64_of_numeral skipsPlus id (by omega) hnum
    refine ⟨ofHalves 0 lower, ?_, ?_⟩
    · rw [tryParse, parse, if_pos hlen, hlower]
      rfl
    · simpa [equals_zero_ofHalves] using hzero
  · obtain ⟨higher, hhigher, hzero⟩ :=
      convertToUInt64_of_numeral skipsPlus (id.take 16) (by simp) hfirst
    obtain ⟨lower, hlower, hzero'⟩ :=
      convertToUInt64_of_numeral skipsPlus (id.drop 16) (by simp; omega) hsecond
    refine ⟨ofHalves higher lower, ?_, ?_⟩
    · rw [tryParse, parse, if_neg (by omega), if_pos hlen, hhigher, hlower]
      rfl
    · rw [equals_zero_ofHalves, isZeroText_halves, hzero, hzero']

/-- Every other text is refused. -/
theorem tryParse_of_refused (hneg : isNegative skipsPlus id = false)
    (hacc : isAccepted skipsPlus id = false) : tryParse skipsPlus id = .ok none := by
  simp only [isNegative, isAccepted, Bool.or_eq_false_iff, Bool.and_eq_false_iff,
    beq_eq_false_iff_ne] at hneg hacc
  by_cases h16 : id.length = 16
  · have hn := hneg.1.resolve_left (not_not_intro h16)
    have hnum := hacc.1.resolve_left (not_not_intro h16)
    rw [tryParse, parse, if_pos h16, convertToUInt64_of_not_numeral skipsPlus id hn hnum]
    rfl
  · by_cases h32 : id.length = 32
    · obtain ⟨hn, hsecond⟩ := hneg.2.resolve_left (not_not_intro h32)
      have hn' : startsNegative (id.take 16) = false := by
        cases id with
        | nil => rfl
        | cons c rest => exact hn
      rw [tryParse, parse, if_neg h16, if_pos h32]
      by_cases hfirst : isNumeral skipsPlus (id.take 16) = true
      · obtain ⟨higher, hhigher, -⟩ :=
          convertToUInt64_of_numeral skipsPlus (id.take 16) (by simp) hfirst
        have hnum : isNumeral skipsPlus (id.drop 16) = false := by
          rcases hacc.2 with (h | h) | h
          · exact absurd h32 h
          · exact absurd hfirst (Bool.eq_false_iff.mp h)
          · exact h
        have hn'' := hsecond.resolve_left (Bool.eq_false_iff.not.mpr (not_not_intro hfirst))
        rw [hhigher, convertToUInt64_of_not_numeral skipsPlus _ hn'' hnum]
        rfl
      · rw [convertToUInt64_of_not_numeral skipsPlus _ hn' (Bool.not_eq_true _ ▸ hfirst)]
        rfl
    · rw [tryParse, parse, if_neg h16, if_neg h32]

end Outcomes

end SignalFxTracing.Trace.TraceId
