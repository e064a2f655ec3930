import SignalFxTracing.Clr.Utf8
import SignalFxTracing.Lib.UnitCodec
import Mathlib.Tactic.SplitIfs

/-!
# Conversions of strings (`miniutf.cpp`, `string.cpp`)

The profiler has its own decoders of UTF-8 and UTF-16. The decoder of UTF-8 takes
surrogates, the one of UTF-16 does not. A string that is made of a pointer ends at
its first zero.

## Implementation notes

Code points are natural numbers, and their bits are taken by division. A string
is read from a place on; behind its end there is a zero.
-/

namespace SignalFxTracing.Native

open Clr Lib

/-- `utf8_encode`. -/
def utf8Encode (pt : Nat) : List UInt8 :=
  if pt < 0x80 then [.ofNat pt]
  else if pt < 0x800 then [.ofNat (pt / 0x40 + 0xC0), .ofNat (pt % 0x40 + 0x80)]
  else if pt < 0x10000 then
    [.ofNat (pt / 0x1000 + 0xE0), .ofNat (pt / 0x40 % 0x40 + 0x80), .ofNat (pt % 0x40 + 0x80)]
  else if pt < 0x110000 then
    [.ofNat (pt / 0x40000 + 0xF0), .ofNat (pt / 0x1000 % 0x40 + 0x80),
      .ofNat (pt / 0x40 % 0x40 + 0x80), .ofNat (pt % 0x40 + 0x80)]
  else [0xEF, 0xBF, 0xBD]

/-- `utf16_encode`. -/
def utf16Encode (pt : Nat) : List UInt16 :=
  if pt < 0x10000 then [.ofNat pt]
  else if pt < 0x110000 then
    [.ofNat ((pt - 0x10000) / 0x400 + 0xD800), .ofNat (pt % 0x400 + 0xDC00)]
  else [0xFFFD]

section Decoding

/-- A byte of a string; behind the end it is zero. -/
def byteAt (str : List UInt8) (i : Nat) : Nat := (str[i]?.getD 0).toNat

/-- A code unit of a string; behind the end it is zero. -/
def unitAt (str : List UInt16) (i : Nat) : Nat := (str[i]?.getD 0).toNat

@[simp] theorem byteAt_zero (b : UInt8) (str : List UInt8) : byteAt (b :: str) 0 = b.toNat := rfl

@[simp] theorem byteAt_succ (b : UInt8) (str : List UInt8) (i : Nat) :
    byteAt (b :: str) (i + 1) = byteAt str i := rfl

@[simp] theorem unitAt_zero (u : UInt16) (str : List UInt16) : unitAt (u :: str) 0 = u.toNat := rfl

@[simp] theorem unitAt_succ (u : UInt16) (str : List UInt16) (i : Nat) :
    unitAt (u :: str) (i + 1) = unitAt str i := rfl

/-- `(b & 0xC0) == 0x80`. -/
def isContinuation (b : Nat) : Bool := b / 0x40 == 2

/-- `utf8_decode_check`. -/
def utf8DecodeCheck (str : List UInt8) : Option (Nat × Nat) :=
  let b0 := byteAt str 0
  let b1 := byteAt str 1
  let b2 := byteAt str 2
  let b3 := byteAt str 3
  if str = [] then none
  else if b0 < 0x80 then some (1, b0)
  else if b0 < 0xC0 then none
  else if b0 < 0xE0 then
    if !isContinuation b1 then none
    else
      let pt := b0 % 0x20 * 0x40 + b1 % 0x40
      if pt < 0x80 then none else some (2, pt)
  else if b0 < 0xF0 then
    if !isContinuation b1 then none
    else if !isContinuation b2 then none
    else
      let pt := b0 % 0x10 * 0x1000 + b1 % 0x40 * 0x40 + b2 % 0x40
      if pt < 0x800 then none else some (3, pt)
  else if b0 < 0xF8 then
    if !isContinuation b1 then none
    else if !isContinuation b2 then none
    else if !isContinuation b3 then none
    else
      let pt := b0 % 8 * 0x40000 + b1 % 0x40 * 0x1000 + b2 % 0x40 * 0x40 + b3 % 0x40
      if pt < 0x10000 || 0x110000 ≤ pt then none else some (4, pt)
  else none

def isHighSurrogate (c : Nat) : Bool := 0xD800 ≤ c && c < 0xDC00
def isLowSurrogate (c : Nat) : Bool := 0xDC00 ≤ c && c < 0xE000

/-- `utf16_decode_check`. -/
def utf16DecodeCheck (str : List UInt16) : Option (Nat × Nat) :=
  let u0 := unitAt str 0
  let u1 := unitAt str 1
  if str = [] then none
  else if isHighSurrogate u0 && isLowSurrogate u1 then
    some (2, (u0 - 0xD800) * 0x400 + (u1 - 0xDC00) + 0x10000)
  else if isHighSurrogate u0 || isLowSurrogate u0 then none
  else some (1, u0)

/-- `utf8_encode` and `utf8_decode_check`. -/
def utf8Codec : UnitCodec UInt8 Nat := ⟨utf8Encode, utf8DecodeCheck⟩

/-- `utf16_encode` and `utf16_decode_check`. -/
def utf16Codec : UnitCodec UInt16 Nat := ⟨utf16Encode, utf16DecodeCheck⟩

end Decoding

/-- `to_utf16`, with `utf8_decode`. -/
def toUtf16 (str : List UInt8) : List UInt16 := utf8Codec.transcode utf16Codec 0xFFFD str

/-- `to_utf8`, with `utf16_decode`. -/
def toUtf8 (str : List UInt16) : List UInt8 := utf16Codec.transcode utf8Codec 0xFFFD str

/-- What a constructor takes of a pointer: the units before the first zero. -/
def cStr {U : Type*} [BEq U] [OfNat U 0] (str : List U) : List U :=
  str.takeWhile (· != 0)

/-- `ToWSTRING`. -/
def toWSTRING (str : List UInt8) : List UInt16 := cStr (toUtf16 str)

/-- `ToString`. -/
def toString (wstr : List UInt16) : List UInt8 := toUtf8 (cStr wstr)

section Laws

/-- All code points, the surrogates among them. -/
def codePoints : Set Nat := {pt | pt < 0x110000}

/-- Code points that are not surrogates. -/
def scalarValues : Set Nat := {pt | pt < 0xD800 ∨ 0xE000 ≤ pt ∧ pt < 0x110000}

theorem scalarValues_subset : scalarValues ⊆ codePoints := by
  intro pt hpt
  simp only [scalarValues, codePoints, Set.mem_ofPred_eq] at hpt ⊢
  omega

theorem toNat_ofNat_uint8 {n : Nat} (h : n < 0x100) : (UInt8.ofNat n).toNat = n := by
  rw [UInt8.toNat_ofNat']
  exact Nat.mod_eq_of_lt h

theorem toNat_ofNat_uint16 {n : Nat} (h : n < 0x10000) : (UInt16.ofNat n).toNat = n := by
  rw [UInt16.toNat_ofNat']
  exact Nat.mod_eq_of_lt h

/-- What is written for a code point is read as it. -/
theorem utf8DecodeCheck_utf8Encode {pt : Nat} (h : pt < 0x110000) (rest : List UInt8) :
    utf8DecodeCheck (utf8Encode pt ++ rest) = some ((utf8Encode pt).length, pt) := by
  have htail : ∀ n, isContinuation (n % 0x40 + 0x80) = true := by
    intro n
    rw [isContinuation, beq_iff_eq]
    omega
  have htailMod : ∀ n, (n % 0x40 + 0x80) % 0x40 = n % 0x40 := by
    intro n
    omega
  have htailNat : ∀ n, (UInt8.ofNat (n % 0x40 + 0x80)).toNat = n % 0x40 + 0x80 := by
    intro n
    exact toNat_ofNat_uint8 (by omega)
  rw [utf8Encode]
  split_ifs with h1 h2 h3
  · have h0 : (UInt8.ofNat pt).toNat = pt := toNat_ofNat_uint8 (by omega)
    rw [List.singleton_append, utf8DecodeCheck]
    simp only [byteAt_zero, h0]
    rw [if_neg (List.cons_ne_nil _ _), if_pos h1]
    rfl
  · have h0 : (UInt8.ofNat (pt / 0x40 + 0xC0)).toNat = pt / 0x40 + 0xC0 :=
      toNat_ofNat_uint8 (by omega)
    have hpt : (pt / 0x40 + 0xC0) % 0x20 * 0x40 + pt % 0x40 = pt := by omega
    simp only [List.cons_append, List.nil_append, utf8DecodeCheck, byteAt_zero, byteAt_succ, h0,
      htailNat, htail, htailMod, hpt]
    rw [if_neg (List.cons_ne_nil _ _), if_neg (by omega), if_neg (by omega), if_pos (by omega),
      if_neg (by decide), if_neg h1]
    rfl
  · have h0 : (UInt8.ofNat (pt / 0x1000 + 0xE0)).toNat = pt / 0x1000 + 0xE0 :=
      toNat_ofNat_uint8 (by omega)
    have hpt : (pt / 0x1000 + 0xE0) % 0x10 * 0x1000 + pt / 0x40 % 0x40 * 0x40 + pt % 0x40 = pt := by
      omega
    simp only [List.cons_append, List.nil_append, utf8DecodeCheck, byteAt_zero, byteAt_succ, h0,
      htailNat, htail, htailMod, hpt]
    rw [if_neg (List.cons_ne_nil _ _), if_neg (by omega), if_neg (by omega), if_neg (by omega),
      if_pos (by omega), if_neg (by decide), if_neg (by decide), if_neg h2]
    rfl
  · have h0 : (UInt8.ofNat (pt / 0x40000 + 0xF0)).toNat = pt / 0x40000 + 0xF0 :=
      toNat_ofNat_uint8 (by omega)
    have hpt : (pt / 0x40000 + 0xF0) % 8 * 0x40000 + pt / 0x1000 % 0x40 * 0x1000 +
        pt / 0x40 % 0x40 * 0x40 + pt % 0x40 = pt := by
      omega
    have hrange : (decide (pt < 0x10000) || decide (0x110000 ≤ pt)) = false := by
      simp only [Bool.or_eq_false_iff, decide_eq_false_iff_not]
      omega
    simp only [List.cons_append, List.nil_append, utf8DecodeCheck, byteAt_zero, byteAt_succ, h0,
      htailNat, htail, htailMod, hpt, hrange]
    rw [if_neg (List.cons_ne_nil _ _), if_neg (by omega), if_neg (by omega), if_neg (by omega),
      if_neg (by omega), if_pos (by omega), if_neg (by decide), if_neg (by decide),
      if_neg (by decide), if_neg (by decide)]
    rfl

theorem exists_of_isContinuation {str : List UInt8} (h : isContinuation (byteAt str 0) = true) :
    ∃ b rest, str = b :: rest ∧ b.toNat / 0x40 = 2 := by
  cases str with
  | nil => cases h
  | cons b rest => exact ⟨b, rest, rfl, eq_of_beq h⟩

theorem ofNat_eq_uint8 {n : Nat} {b : UInt8} (h : n = b.toNat) : UInt8.ofNat n = b := by
  rw [h, UInt8.ofNat_toNat]

theorem ofNat_eq_uint16 {n : Nat} {u : UInt16} (h : n = u.toNat) : UInt16.ofNat n = u := by
  rw [h, UInt16.ofNat_toNat]

/-- What is read is what is written for the code point. -/
theorem canonical_utf8DecodeCheck {str : List UInt8} {n pt : Nat}
    (h : utf8DecodeCheck str = some (n, pt)) :
    pt < 0x110000 ∧ n = (utf8Encode pt).length ∧ ∃ rest, str = utf8Encode pt ++ rest := by
  obtain ⟨b0, str, rfl⟩ : ∃ b rest, str = b :: rest := by
    cases str with
    | nil => cases h
    | cons b rest => exact ⟨b, rest, rfl⟩
  have hb0 := b0.toNat_lt
  rw [utf8DecodeCheck] at h
  dsimp only at h
  rw [if_neg (List.cons_ne_nil _ _), byteAt_zero, byteAt_succ, byteAt_succ, byteAt_succ] at h
  by_cases h1 : b0.toNat < 0x80
  · rw [if_pos h1] at h
    obtain ⟨rfl, rfl⟩ := Prod.mk.inj (Option.some.inj h)
    rw [utf8Encode, if_pos h1]
    exact ⟨by omega, rfl, str, by rw [UInt8.ofNat_toNat]; rfl⟩
  rw [if_neg h1, Option.ite_none_left_eq_some] at h
  obtain ⟨h2, h⟩ := h
  by_cases h3 : b0.toNat < 0xE0
  · rw [if_pos h3, Option.ite_none_left_eq_some, Option.ite_none_left_eq_some] at h
    obtain ⟨h4, h5, h⟩ := h
    obtain ⟨b1, str, rfl, hb1⟩ := exists_of_isContinuation (by simpa using h4)
    obtain ⟨rfl, rfl⟩ := Prod.mk.inj (Option.some.inj h)
    rw [byteAt_zero] at h5 ⊢
    have hlt : b1.toNat % 0x40 < 0x40 := Nat.mod_lt _ (by decide)
    rw [utf8Encode, if_neg h5, if_pos (by omega)]
    refine ⟨by omega, rfl, str, ?_⟩
    rw [ofNat_eq_uint8 (b := b0) (by omega), ofNat_eq_uint8 (b := b1) (by omega)]
    rfl
  rw [if_neg h3] at h
  by_cases h6 : b0.toNat < 0xF0
  · rw [if_pos h6, Option.ite_none_left_eq_some, Option.ite_none_left_eq_some,
      Option.ite_none_left_eq_some] at h
    obtain ⟨h7, h8, h9, h⟩ := h
    obtain ⟨b1, str, rfl, hb1⟩ := exists_of_isContinuation (by simpa using h7)
    rw [byteAt_succ] at h8
    obtain ⟨b2, str, rfl, hb2⟩ := exists_of_isContinuation (by simpa using h8)
    obtain ⟨rfl, rfl⟩ := Prod.mk.inj (Option.some.inj h)
    rw [byteAt_zero, byteAt_succ, byteAt_zero] at h9 ⊢
    have hlt1 : b1.toNat % 0x40 < 0x40 := Nat.mod_lt _ (by decide)
    have hlt2 : b2.toNat % 0x40 < 0x40 := Nat.mod_lt _ (by decide)
    rw [utf8Encode, if_neg (by omega), if_neg h9, if_pos (by omega)]
    refine ⟨by omega, rfl, str, ?_⟩
    rw [ofNat_eq_uint8 (b := b0) (by omega), ofNat_eq_uint8 (b := b1) (by omega),
      ofNat_eq_uint8 (b := b2) (by omega)]
    rfl
  rw [if_neg h6, Option.ite_none_right_eq_some, Option.ite_none_left_eq_some,
    Option.ite_none_left_eq_some, Option.ite_none_left_eq_some,
    Option.ite_none_left_eq_some] at h
  obtain ⟨h10, h11, h12, h13, h14, h⟩ := h
  obtain ⟨b1, str, rfl, hb1⟩ := exists_of_isContinuation (by simpa using h11)
  rw [byteAt_succ] at h12
  obtain ⟨b2, str, rfl, hb2⟩ := exists_of_isContinuation (by simpa using h12)
  rw [byteAt_succ, byteAt_succ] at h13
  obtain ⟨b3, str, rfl, hb3⟩ := exists_of_isContinuation (by simpa using h13)
  obtain ⟨rfl, rfl⟩ := Prod.mk.inj (Option.some.inj h)
  rw [byteAt_zero, byteAt_succ, byteAt_zero, byteAt_succ, byteAt_succ, byteAt_zero] at h14 ⊢
  simp only [Bool.or_eq_true, decide_eq_true_eq, not_or, Nat.not_lt, Nat.not_le] at h14
  have hlt1 : b1.toNat % 0x40 < 0x40 := Nat.mod_lt _ (by decide)
  have hlt2 : b2.toNat % 0x40 < 0x40 := Nat.mod_lt _ (by decide)
  have hlt3 : b3.toNat % 0x40 < 0x40 := Nat.mod_lt _ (by decide)
  rw [utf8Encode, if_neg (by omega), if_neg (by omega), if_neg (by omega), if_pos h14.2]
  refine ⟨h14.2, rfl, str, ?_⟩
  rw [ofNat_eq_uint8 (b := b0) (by omega), ofNat_eq_uint8 (b := b1) (by omega),
    ofNat_eq_uint8 (b := b2) (by omega), ofNat_eq_uint8 (b := b3) (by omega)]
  rfl

theorem utf8Encode_ne_nil (pt : Nat) : utf8Encode pt ≠ [] := by
  rw [utf8Encode]
  split_ifs
  all_goals exact List.cons_ne_nil _ _

/-- UTF-8 as it is read here writes exactly the code points, surrogates included. -/
theorem lawful_utf8Codec : utf8Codec.Lawful codePoints where
  nonempty pt _ := utf8Encode_ne_nil pt
  reads _ hpt rest := utf8DecodeCheck_utf8Encode hpt rest
  canonical _ _ _ h := canonical_utf8DecodeCheck h

theorem utf16DecodeCheck_utf16Encode {pt : Nat} (h : pt < 0xD800 ∨ 0xE000 ≤ pt ∧ pt < 0x110000)
    (rest : List UInt16) :
    utf16DecodeCheck (utf16Encode pt ++ rest) = some ((utf16Encode pt).length, pt) := by
  rw [utf16Encode]
  split_ifs with h1 h2
  · have h0 : (UInt16.ofNat pt).toNat = pt := toNat_ofNat_uint16 h1
    have hhigh : isHighSurrogate pt = false := by
      rw [isHighSurrogate, Bool.and_eq_false_iff, decide_eq_false_iff_not, decide_eq_false_iff_not]
      omega
    have hlow : isLowSurrogate pt = false := by
      rw [isLowSurrogate, Bool.and_eq_false_iff, decide_eq_false_iff_not, decide_eq_false_iff_not]
      omega
    rw [List.singleton_append, utf16DecodeCheck]
    rw [unitAt_zero, h0, hhigh, hlow, if_neg (List.cons_ne_nil _ _)]
    rfl
  · have h0 : (UInt16.ofNat ((pt - 0x10000) / 0x400 + 0xD800)).toNat =
        (pt - 0x10000) / 0x400 + 0xD800 := toNat_ofNat_uint16 (by omega)
    have h1' : (UInt16.ofNat (pt % 0x400 + 0xDC00)).toNat = pt % 0x400 + 0xDC00 :=
      toNat_ofNat_uint16 (by omega)
    have hhigh : isHighSurrogate ((pt - 0x10000) / 0x400 + 0xD800) = true := by
      rw [isHighSurrogate, Bool.and_eq_true, decide_eq_true_eq, decide_eq_true_eq]
      omega
    have hlow : isLowSurrogate (pt % 0x400 + 0xDC00) = true := by
      rw [isLowSurrogate, Bool.and_eq_true, decide_eq_true_eq, decide_eq_true_eq]
      omega
    have hpt : ((pt - 0x10000) / 0x400 + 0xD800 - 0xD800) * 0x400 +
        (pt % 0x400 + 0xDC00 - 0xDC00) + 0x10000 = pt := by omega
    rw [List.cons_append, List.singleton_append, utf16DecodeCheck]
    rw [unitAt_zero, unitAt_succ, unitAt_zero, h0, h1', hhigh, hlow, hpt,
      if_neg (List.cons_ne_nil _ _)]
    rfl
  · omega

theorem canonical_utf16DecodeCheck {str : List UInt16} {n pt : Nat}
    (h : utf16DecodeCheck str = some (n, pt)) :
    (pt < 0xD800 ∨ 0xE000 ≤ pt ∧ pt < 0x110000) ∧ n = (utf16Encode pt).length ∧
      ∃ rest, str = utf16Encode pt ++ rest := by
  obtain ⟨u0, str, rfl⟩ : ∃ u rest, str = u :: rest := by
    cases str with
    | nil => cases h
    | cons u rest => exact ⟨u, rest, rfl⟩
  have hu0 := u0.toNat_lt
  rw [utf16DecodeCheck] at h
  rw [if_neg (List.cons_ne_nil _ _), unitAt_zero, unitAt_succ] at h
  split_ifs at h with hpair hsingle
  · rw [Bool.and_eq_true] at hpair
    obtain ⟨hhigh, hlow⟩ := hpair
    obtain ⟨u1, str, rfl⟩ : ∃ u rest, str = u :: rest := by
      cases str with
      | nil => cases hlow
      | cons u rest => exact ⟨u, rest, rfl⟩
    obtain ⟨rfl, rfl⟩ := Prod.mk.inj (Option.some.inj h)
    rw [unitAt_zero] at hlow ⊢
    rw [isHighSurrogate, Bool.and_eq_true, decide_eq_true_eq, decide_eq_true_eq] at hhigh
    rw [isLowSurrogate, Bool.and_eq_true, decide_eq_true_eq, decide_eq_true_eq] at hlow
    rw [utf16Encode, if_neg (by omega), if_pos (by omega)]
    refine ⟨by omega, rfl, str, ?_⟩
    rw [ofNat_eq_uint16 (u := u0) (by omega), ofNat_eq_uint16 (u := u1) (by omega)]
    rfl
  · obtain ⟨rfl, rfl⟩ := Prod.mk.inj (Option.some.inj h)
    rw [Bool.or_eq_true, not_or, Bool.not_eq_true, Bool.not_eq_true, isHighSurrogate,
      isLowSurrogate, Bool.and_eq_false_iff, Bool.and_eq_false_iff, decide_eq_false_iff_not,
      decide_eq_false_iff_not, decide_eq_false_iff_not, decide_eq_false_iff_not] at hsingle
    rw [utf16Encode, if_pos hu0]
    exact ⟨by omega, rfl, str, by rw [UInt16.ofNat_toNat]; rfl⟩

/-- UTF-16 writes exactly the code points that are not surrogates. -/
theorem lawful_utf16Codec : utf16Codec.Lawful scalarValues where
  nonempty pt _ := by
    change utf16Encode pt ≠ []
    rw [utf16Encode]
    split_ifs
    all_goals exact List.cons_ne_nil _ _
  reads _ hpt rest := utf16DecodeCheck_utf16Encode hpt rest
  canonical _ _ _ h := canonical_utf16DecodeCheck h

end Laws

section Characters

/-- A code point that is no surrogate is a character. -/
theorem exists_char {pt : Nat} (h : pt ∈ scalarValues) : ∃ c : Char, c.toNat = pt := by
  simp only [scalarValues, Set.mem_ofPred_eq] at h
  have hval : (UInt32.ofNat pt).toNat = pt := by
    rw [UInt32.toNat_ofNat']
    exact Nat.mod_eq_of_lt (by omega)
  have hvalid : (UInt32.ofNat pt).isValidChar := by
    rw [UInt32.isValidChar, hval, Nat.isValidChar]
    omega
  exact ⟨⟨UInt32.ofNat pt, hvalid⟩, hval⟩

theorem toNat_mem_scalarValues (c : Char) : c.toNat ∈ scalarValues := by
  have hvalid := c.valid
  have hval : c.toNat = c.val.toNat := rfl
  simp only [UInt32.isValidChar, Nat.isValidChar] at hvalid
  simp only [scalarValues, Set.mem_ofPred_eq]
  omega

theorem utf8Encode_char (c : Char) : utf8Encode c.toNat = String.utf8EncodeChar c := by
  have hc := scalarValues_subset (toNat_mem_scalarValues c)
  have hval : c.val.toNat = c.toNat := rfl
  simp only [codePoints, Set.mem_ofPred_eq] at hc
  have hle : ∀ m n : Nat, m < n + 1 ↔ m ≤ n := fun _ _ => Nat.lt_succ_iff
  rw [utf8Encode, String.utf8EncodeChar, hval]
  by_cases h1 : c.toNat < 0x80
  · rw [if_pos h1, if_pos ((hle _ 0x7F).mp h1)]
  · rw [if_neg h1, if_neg (mt (hle _ 0x7F).mpr h1)]
    by_cases h2 : c.toNat < 0x800
    · have hlead : c.toNat / 64 % 0x20 = c.toNat / 64 := Nat.mod_eq_of_lt (by omega)
      rw [if_pos h2, if_pos ((hle _ 0x7FF).mp h2), hlead]
    · rw [if_neg h2, if_neg (mt (hle _ 0x7FF).mpr h2)]
      by_cases h3 : c.toNat < 0x10000
      · have hlead : c.toNat / 4096 % 0x10 = c.toNat / 4096 := Nat.mod_eq_of_lt (by omega)
        rw [if_pos h3, if_pos ((hle _ 0xFFFF).mp h3), hlead]
      · have hlead : c.toNat / 262144 % 0x08 = c.toNat / 262144 := Nat.mod_eq_of_lt (by omega)
        rw [if_neg h3, if_pos hc, if_neg (mt (hle _ 0xFFFF).mpr h3), hlead]

theorem utf16Encode_char (c : Char) : utf16Encode c.toNat = utf16 c := by
  have hc := scalarValues_subset (toNat_mem_scalarValues c)
  simp only [codePoints, Set.mem_ofPred_eq] at hc
  rw [utf16Encode, utf16]
  split_ifs with h
  · rfl
  · have hlow : c.toNat % 0x400 = (c.toNat - 0x10000) % 0x400 := by omega
    rw [hlow, Nat.add_comm, Nat.add_comm _ 0xDC00]

/-- The points of a text of characters. -/
theorem encodeAll_utf8Codec (s : List Char) :
    utf8Codec.encodeAll (s.map Char.toNat) = utf8 s := by
  rw [UnitCodec.encodeAll, List.flatMap_map, utf8]
  exact List.flatMap_congr fun c _ => utf8Encode_char c

theorem encodeAll_utf16Codec (s : List Char) :
    utf16Codec.encodeAll (s.map Char.toNat) = ofChars s := by
  rw [UnitCodec.encodeAll, List.flatMap_map, ofChars]
  exact List.flatMap_congr fun c _ => utf16Encode_char c

theorem exists_chars {pts : List Nat} (h : ∀ pt ∈ pts, pt ∈ scalarValues) :
    ∃ s : List Char, s.map Char.toNat = pts := by
  induction pts with
  | nil => exact ⟨[], rfl⟩
  | cons pt pts ih =>
      obtain ⟨hpt, hpts⟩ := List.forall_mem_cons.mp h
      obtain ⟨c, hc⟩ := exists_char hpt
      obtain ⟨s, hs⟩ := ih hpts
      exact ⟨c :: s, by rw [List.map_cons, hc, hs]⟩

theorem map_toNat_mem (s : List Char) : ∀ pt ∈ s.map Char.toNat, pt ∈ scalarValues := by
  intro pt hpt
  obtain ⟨c, -, rfl⟩ := List.mem_map.mp hpt
  exact toNat_mem_scalarValues c

end Characters

section Strings

variable {str : List UInt8} {wstr : List UInt16} {s : List Char}

theorem cStr_eq_self_iff {U : Type*} [BEq U] [LawfulBEq U] [OfNat U 0] {str : List U} :
    cStr str = str ↔ 0 ∉ str := by
  rw [cStr, List.takeWhile_eq_self_iff]
  simp only [bne_iff_ne]
  constructor
  · exact fun h hzero => h 0 hzero rfl
  · exact fun h u hu heq => h (heq ▸ hu)

theorem zero_not_mem_cStr {U : Type*} [BEq U] [LawfulBEq U] [OfNat U 0] (str : List U) :
    0 ∉ cStr str := by
  intro hzero
  have hne := List.mem_takeWhile_imp hzero
  simp at hne

/-- A zero unit is written for the first code point only. -/
theorem zero_mem_utf16Encode_iff {pt : Nat} (h : pt ∈ scalarValues) :
    0 ∈ utf16Encode pt ↔ pt = 0 := by
  simp only [scalarValues, Set.mem_ofPred_eq] at h
  have hzero : ∀ n : Nat, n < 0x10000 → (0 = UInt16.ofNat n ↔ n = 0) := by
    intro n hn
    rw [← UInt16.toNat_inj, toNat_ofNat_uint16 hn]
    exact eq_comm
  rw [utf16Encode]
  split_ifs with h1 h2
  · rw [List.mem_singleton, hzero pt h1]
  · rw [List.mem_cons, List.mem_singleton, hzero _ (by omega), hzero _ (by omega)]
    omega
  · omega

theorem zero_mem_encodeAll_iff {pts : List Nat} (h : ∀ pt ∈ pts, pt ∈ scalarValues) :
    0 ∈ utf16Codec.encodeAll pts ↔ 0 ∈ pts := by
  rw [UnitCodec.encodeAll, List.mem_flatMap]
  constructor
  · rintro ⟨pt, hpt, hzero⟩
    rwa [(zero_mem_utf16Encode_iff (h pt hpt)).mp hzero] at hpt
  · intro hzero
    exact ⟨0, hzero, (zero_mem_utf16Encode_iff (h 0 hzero)).mpr rfl⟩

theorem replacement_mem : 0xFFFD ∈ scalarValues := by
  simp [scalarValues]

/-- What is read of UTF-16 are scalar values, and zero only where there is a zero. -/
theorem decode_utf16 (wstr : List UInt16) :
    (∀ pt ∈ utf16Codec.decode 0xFFFD wstr, pt ∈ scalarValues) ∧
      (0 ∉ wstr → 0 ∉ utf16Codec.decode 0xFFFD wstr) := by
  constructor
  · intro pt hpt
    rcases lawful_utf16Codec.mem_of_mem_decode hpt with hmem | rfl
    · exact hmem
    · exact replacement_mem
  · intro hnot hzero
    rcases lawful_utf16Codec.mem_of_mem_encode hzero with heq | hsub
    · cases heq
    · exact hnot (hsub 0 List.mem_cons_self)

/-- A wide string is a text of scalar values, without zeros, whatever it has been made of. -/
theorem toWSTRING_of_chars (hs : '\x00' ∉ s) : toWSTRING (utf8 s) = ofChars s := by
  have hzero : 0 ∉ s.map Char.toNat := by
    intro hmem
    obtain ⟨c, hc, heq⟩ := List.mem_map.mp hmem
    have hchar : c = '\x00' := Char.toNat_inj.mp heq
    exact hs (hchar ▸ hc)
  have hpoints := map_toNat_mem s
  have hwide : toUtf16 (utf8 s) = ofChars s := by
    rw [toUtf16, ← encodeAll_utf8Codec, lawful_utf8Codec.transcode_encodeAll
      fun pt hpt => scalarValues_subset (hpoints pt hpt), encodeAll_utf16Codec]
  rw [toWSTRING, hwide, cStr_eq_self_iff, ← encodeAll_utf16Codec,
    zero_mem_encodeAll_iff hpoints]
  exact hzero

/-- A narrow string comes back from the conversion to a wide one exactly when it is the UTF-8 of
characters without a zero. The wide string is then the one that the runtime decodes. -/
theorem toString_toWSTRING_iff (str : List UInt8) :
    (toString (toWSTRING str) = str ↔ ∃ s : List Char, '\x00' ∉ s ∧ str = utf8 s) ∧
      ∀ s : List Char, '\x00' ∉ s → toWSTRING (utf8 s) = getString (utf8 s) := by
  refine ⟨⟨fun heq => ?_, ?_⟩, fun s hs => ?_⟩
  · obtain ⟨hpoints, hzero⟩ := decode_utf16 (cStr (toWSTRING str))
    obtain ⟨s, hs⟩ := exists_chars hpoints
    refine ⟨s, fun hmem => hzero (zero_not_mem_cStr _) ?_, ?_⟩
    · rw [← hs]
      exact List.mem_map_of_mem hmem
    · have hback := heq.symm
      rw [toString, toUtf8, UnitCodec.transcode] at hback
      rw [← encodeAll_utf8Codec, hs]
      exact hback
  · rintro ⟨s, hs, rfl⟩
    have hnot : 0 ∉ ofChars s := by
      rw [← toWSTRING_of_chars hs]
      exact zero_not_mem_cStr _
    rw [toWSTRING_of_chars hs, toString, cStr_eq_self_iff.mpr hnot, toUtf8,
      ← encodeAll_utf16Codec, lawful_utf16Codec.transcode_encodeAll (map_toNat_mem s),
      encodeAll_utf8Codec]
  · rw [toWSTRING_of_chars hs, getString_utf8]

/-- A wide string comes back from the conversion to a narrow one exactly when its surrogates are
paired and it has no zero. -/
theorem toWSTRING_toString_iff (wstr : List UInt16) :
    toWSTRING (toString wstr) = wstr ↔ utf16Codec.check wstr = true ∧ 0 ∉ wstr := by
  obtain ⟨hpoints, hzero⟩ := decode_utf16 (cStr wstr)
  have hback : toWSTRING (toString wstr) =
      utf8Codec.transcode utf16Codec 0xFFFD (utf16Codec.transcode utf8Codec 0xFFFD (cStr wstr)) := by
    rw [toWSTRING, toString, toUtf8, toUtf16, cStr_eq_self_iff, UnitCodec.transcode,
      UnitCodec.transcode, lawful_utf8Codec.decode_encodeAll
        fun pt hpt => scalarValues_subset (hpoints pt hpt), zero_mem_encodeAll_iff hpoints]
    exact hzero (zero_not_mem_cStr wstr)
  by_cases hwstr : 0 ∈ wstr
  · refine iff_of_false (fun heq => ?_) (fun h => h.2 hwstr)
    rw [← heq] at hwstr
    exact zero_not_mem_cStr _ hwstr
  · rw [hback, cStr_eq_self_iff.mpr hwstr, lawful_utf8Codec.transcode_transcode_iff_check
      lawful_utf16Codec scalarValues_subset replacement_mem, and_iff_left hwstr]

end Strings

end SignalFxTracing.Native
