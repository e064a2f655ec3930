import SignalFxTracing.Clr.Text
import SignalFxTracing.Lib.Regex

/-!
# Truncating and sanitizing texts (`StringExtensions.cs`)

## Implementation notes

The Unicode classes `\p{L}` and `\p{C}` of the look-behind are tables of the
runtime: they are a parameter, and no result assumes anything about them.
-/

namespace SignalFxTracing.ExtensionMethods

open Clr Lib Lib.Regex

/-- Exceptions of the extension methods. -/
inductive StringError
  | argumentNull
  | argumentOutOfRange
  deriving DecidableEq

/-- `Truncate`; `Substring` does not take a negative length. -/
def truncate (value : Option Text) (maxLength : Int) : Except StringError Text :=
  match value with
  | none => .error .argumentNull
  | some value =>
      if value.length > maxLength then
        if maxLength < 0 then .error .argumentOutOfRange else .ok (value.take maxLength.toNat)
      else .ok value

def isDigit (c : UInt16) : Bool := 0x30 ≤ c && c ≤ 0x39

/-- `[0-9a-fA-F]`. -/
def isHexDigit (c : UInt16) : Bool :=
  isDigit c || (0x61 ≤ c && c ≤ 0x66) || (0x41 ≤ c && c ≤ 0x46)

/-- `[+.-]`. -/
def isSign (c : UInt16) : Bool := c == 0x2B || c == 0x2E || c == 0x2D

/-- `[0-9xEe.+-]`. -/
def isNumberEnd (c : UInt16) : Bool := isDigit c || c == 0x78 || c == 0x45 || c == 0x65 || isSign c

def singleQuote : UInt16 := 0x27

def doubleQuote : UInt16 := 0x22

/-- `r+`. -/
def plus (r : Regex UInt16) : Regex UInt16 := seq r (star r)

def hex : Regex UInt16 := seq (one (· == 0x30)) (seq (one (· == 0x78)) (plus (one isHexDigit)))

/-- `numericLiteral`, for the classes `\p{L}` and `\p{C}`. -/
def numericLiteral (isLetterOrOther : UInt16 → Bool) : Regex UInt16 :=
  seq (notBehind fun c => isLetterOrOther c || c == 0x5F || isDigit c)
    (seq (star (one isSign)) (seq (plus (one isDigit)) (star (one isNumberEnd))))

/-- One turn inside a literal: a doubled quote or another character. -/
def quotedTurn (quote : UInt16) : Regex UInt16 :=
  alt (seq (one (· == quote)) (one (· == quote))) (one (· != quote))

def quoted (quote : UInt16) : Regex UInt16 :=
  seq (one (· == quote)) (seq (star (quotedTurn quote)) (one (· == quote)))

def singleQuoted : Regex UInt16 := quoted singleQuote

def doubleQuoted : Regex UInt16 := quoted doubleQuote

def sqlNormalizePattern (isLetterOrOther : UInt16 → Bool) : Regex UInt16 :=
  alt hex (alt (numericLiteral isLetterOrOther) (alt singleQuoted doubleQuoted))

def replacement : Text := text "?"

/-- `SanitizeSqlStatement`. -/
def sanitizeSqlStatement (isLetterOrOther : UInt16 → Bool) (value : Option Text) :
    Except StringError Text :=
  match value with
  | none => .error .argumentNull
  | some value => .ok (replace (sqlNormalizePattern isLetterOrOther) replacement none value)

section Truncate

/-- A text is cut for a length that is not negative, and null never is. -/
theorem truncate_eq_ok_iff {value : Option Text} {maxLength : Int} {truncated : Text} :
    truncate value maxLength = .ok truncated ↔
      0 ≤ maxLength ∧ ∃ s, value = some s ∧ truncated = s.take maxLength.toNat := by
  cases value with
  | none => simp [truncate]
  | some s =>
      simp only [truncate, Option.some.injEq, exists_eq_left']
      split_ifs with hlong hnegative
      · simp only [false_iff, not_and]
        exact fun h => absurd h (by omega)
      · simp only [Except.ok.injEq]
        constructor
        · rintro rfl
          exact ⟨by omega, rfl⟩
        · rintro ⟨-, rfl⟩
          rfl
      · simp only [Except.ok.injEq]
        have htake : s.take maxLength.toNat = s := List.take_of_length_le (by omega)
        rw [htake]
        constructor
        · rintro rfl
          exact ⟨by omega, rfl⟩
        · rintro ⟨-, rfl⟩
          rfl

end Truncate

section Numbers

/-- Characters that no number contains: quotes and two letters that are no digits. -/
def NotInNumber (c : UInt16) : Prop :=
  c = singleQuote ∨ c = doubleQuote ∨ c = 0x6B ∨ c = 0x6D

theorem rejects_of_decide {accepts : UInt16 → Bool}
    (h : [singleQuote, doubleQuote, 0x6B, 0x6D].all (fun c => !accepts c) = true) :
    ∀ c, NotInNumber c → accepts c = false := by
  simp only [List.all_cons, List.all_nil, Bool.and_true, Bool.and_eq_true, Bool.not_eq_true'] at h
  obtain ⟨hsingle, hdouble, hk, hm⟩ := h
  rintro c (rfl | rfl | rfl | rfl)
  · exact hsingle
  · exact hdouble
  · exact hk
  · exact hm

theorem hex_rejects : hex.Rejects NotInNumber :=
  ⟨rejects_of_decide (by decide), rejects_of_decide (by decide),
    rejects_of_decide (by decide), rejects_of_decide (by decide)⟩

theorem numericLiteral_rejects (isLetterOrOther : UInt16 → Bool) :
    (numericLiteral isLetterOrOther).Rejects NotInNumber :=
  ⟨trivial, rejects_of_decide (by decide), ⟨rejects_of_decide (by decide),
    rejects_of_decide (by decide)⟩, rejects_of_decide (by decide)⟩

theorem hex_lengths_nil (previous : Option UInt16) : hex.lengths previous [] = [] := rfl

theorem numericLiteral_lengths_nil (isLetterOrOther : UInt16 → Bool) (previous : Option UInt16) :
    (numericLiteral isLetterOrOther).lengths previous [] = [] := by
  rw [numericLiteral, lengths, lengths]
  split_ifs
  · rfl
  · rfl

end Numbers

end SignalFxTracing.ExtensionMethods
