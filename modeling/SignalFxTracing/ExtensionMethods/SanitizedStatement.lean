import SignalFxTracing.ExtensionMethods.QuotedLiterals
import SignalFxTracing.Lib.RegexFree

/-!
# Statements without literals (`StringExtensions.cs`)

Nothing of a literal is left in a sanitized statement: a passed quote has no
other one behind it, a passed number has a letter or a digit before it, and a
match ends where no number could go on.
-/

namespace SignalFxTracing.ExtensionMethods

open Clr Lib Lib.Regex

/-- The classes `\p{L}` and `\p{C}` have neither a sign of a number nor a quote. -/
structure ExcludesPunctuation (isLetterOrOther : UInt16 → Bool) : Prop where
  sign : ∀ c, isSign c = true → isLetterOrOther c = false
  quote : ∀ c, IsQuote c → isLetterOrOther c = false

/-- The class of the look-behind of numbers. -/
def isNameEnd (isLetterOrOther : UInt16 → Bool) (c : UInt16) : Bool :=
  isLetterOrOther c || c == 0x5F || isDigit c

/-- The text starts with a number, whatever stands before it. -/
inductive StartsNumber : Text → Prop
  | digit {c : UInt16} {rest : Text} : isDigit c = true → StartsNumber (c :: rest)
  | sign {c : UInt16} {rest : Text} : isSign c = true → StartsNumber rest → StartsNumber (c :: rest)

/-- The text starts with a hexadecimal number. -/
def StartsHex (s : Text) : Prop :=
  ∃ digit rest, s = 0x30 :: 0x78 :: digit :: rest ∧ isHexDigit digit = true

section Classes

variable {isLetterOrOther : UInt16 → Bool} {c : UInt16}

theorem isHexDigit_of_isDigit (h : isDigit c = true) : isHexDigit c = true := by
  rw [isHexDigit, h]
  rfl

theorem isNumberEnd_of_isDigit (h : isDigit c = true) : isNumberEnd c = true := by
  simp [isNumberEnd, h]

theorem isNameEnd_of_isSign (h : ExcludesPunctuation isLetterOrOther) (hc : isSign c = true) :
    isNameEnd isLetterOrOther c = false := by
  rw [isNameEnd, h.sign c hc]
  simp only [isSign, Bool.or_eq_true, beq_iff_eq] at hc
  rcases hc with (rfl | rfl) | rfl
  · rfl
  · rfl
  · rfl

theorem isNameEnd_of_isQuote (h : ExcludesPunctuation isLetterOrOther) (hc : IsQuote c) :
    isNameEnd isLetterOrOther c = false := by
  rw [isNameEnd, h.quote c hc]
  rcases hc with rfl | rfl
  · rfl
  · rfl

end Classes

section Literals

variable {isLetterOrOther : UInt16 → Bool} {previous : Option UInt16} {s rest : Text}

theorem plus_lengths_eq_nil_iff {accepts : UInt16 → Bool} :
    (plus (one accepts)).lengths previous s = [] ↔ ∀ c ∈ s.head?, accepts c = false := by
  rw [plus, lengths_seq_star_eq_nil_iff, lengths_one_eq_nil_iff]

theorem hex_lengths_eq_nil_iff : hex.lengths previous s = [] ↔ ¬ StartsHex s := by
  have hstarts : StartsHex s ↔ ∃ rest, s = 0x30 :: 0x78 :: rest ∧
      ∃ digit ∈ rest.head?, isHexDigit digit = true := by
    constructor
    · rintro ⟨digit, rest, rfl, hdigit⟩
      exact ⟨digit :: rest, rfl, digit, rfl, hdigit⟩
    · rintro ⟨rest, rfl, digit, hhead, hdigit⟩
      obtain ⟨others, rfl⟩ := List.head?_eq_some_iff.mp hhead
      exact ⟨digit, others, rfl, hdigit⟩
  rw [hstarts, hex]
  cases s with
  | nil => simp [lengths_seq_one_nil]
  | cons c s =>
      rw [lengths_seq_one_cons_eq_nil_iff]
      cases s with
      | nil => simp [lengths_seq_one_nil]
      | cons d s =>
          rw [lengths_seq_one_cons_eq_nil_iff, plus_lengths_eq_nil_iff]
          simp only [beq_iff_eq, List.cons.injEq, not_exists, not_and, Bool.not_eq_true]
          constructor
          · rintro h rest ⟨rfl, rfl, rfl⟩
            exact h rfl rfl
          · rintro h rfl rfl
            exact h s ⟨rfl, rfl, rfl⟩

theorem not_startsNumber_nil : ¬ StartsNumber [] := nofun

theorem startsNumber_cons_iff {c : UInt16} :
    StartsNumber (c :: rest) ↔ isDigit c = true ∨ isSign c = true ∧ StartsNumber rest := by
  constructor
  · intro h
    cases h with
    | digit hc => exact Or.inl hc
    | sign hc hrest => exact Or.inr ⟨hc, hrest⟩
  · rintro (hc | ⟨hc, hrest⟩)
    · exact .digit hc
    · exact .sign hc hrest

theorem signedNumber_lengths_eq_nil_iff :
    (seq (star (one isSign)) (seq (plus (one isDigit)) (star (one isNumberEnd)))).lengths
      previous s = [] ↔ ¬ StartsNumber s := by
  induction s generalizing previous with
  | nil =>
      rw [lengths_seq_star_one_nil, lengths_seq_star_eq_nil_iff, plus_lengths_eq_nil_iff]
      simp [not_startsNumber_nil]
  | cons c s ih =>
      rw [lengths_seq_star_one_cons_eq_nil_iff, lengths_seq_star_eq_nil_iff,
        plus_lengths_eq_nil_iff, ih, startsNumber_cons_iff]
      simp

theorem numericLiteral_lengths_eq_nil_iff :
    (numericLiteral isLetterOrOther).lengths previous s = [] ↔
      previous.any (isNameEnd isLetterOrOther) = true ∨ ¬ StartsNumber s := by
  rw [numericLiteral, lengths_seq_eq_nil_iff, lengths]
  split_ifs with hname
  · exact iff_of_true (fun n hn => absurd hn List.not_mem_nil) (Or.inl hname)
  · have hfree : ¬ previous.any (isNameEnd isLetterOrOther) = true := hname
    rw [or_iff_right hfree, ← @signedNumber_lengths_eq_nil_iff previous]
    simp

theorem quoted_lengths_cons_eq_nil_iff {quote c : UInt16} :
    (quoted quote).lengths previous (c :: rest) = [] ↔ (c = quote → quote ∉ rest) := by
  constructor
  · rintro h rfl hmem
    obtain ⟨body, others, rfl, hbody⟩ := List.eq_append_cons_of_mem hmem
    have hopen : 1 ∈ (one (· == c)).lengths previous (c :: (body ++ c :: others)) := by
      simp [lengths]
    have htext : body.length ∈
        (star (quotedTurn c)).lengths (some c) (body ++ c :: others) := by
      apply length_mem_lengths_star
      intro previous d hd rest
      have hdc : d ≠ c := by
        rintro rfl
        exact hbody hd
      rw [quotedTurn_lengths_plain hdc]
      exact List.mem_singleton_self 1
    have hclose : 1 ∈ (one (· == c)).lengths
        (behind (some c) ((body ++ c :: others).take body.length))
        ((body ++ c :: others).drop body.length) := by
      rw [List.drop_left]
      simp [lengths]
    have hall := mem_lengths_seq hopen (mem_lengths_seq htext hclose)
    rw [quoted] at h
    rw [h] at hall
    cases hall
  · intro h
    by_cases hc : c = quote
    · subst hc
      exact quoted_lengths_of_notMem (h rfl)
    · exact quoted_lengths_of_ne hc

end Literals

section Sanitized

variable {isLetterOrOther : UInt16 → Bool}

/-- A number that starts here is found here. -/
def OpenForNumbers (isLetterOrOther : UInt16 → Bool) (previous : Option UInt16) (s : Text) :
    Prop :=
  previous.any (isNameEnd isLetterOrOther) = false ∨ ∀ c ∈ s.head?, isDigit c = false

theorem startsNumber_replacement_append (s : Text) : ¬ StartsNumber (replacement ++ s) := by
  rintro (hdigit | ⟨hsign, -⟩)
  · cases hdigit
  · cases hsign

/-- A match ends where a number that starts there is found. -/
theorem openForNumbers_behind (h : ExcludesPunctuation isLetterOrOther)
    {previous : Option UInt16} {rest : Text} {n : Nat}
    (hn : ((sqlNormalizePattern isLetterOrOther).lengths previous rest).head? = some n) :
    OpenForNumbers isLetterOrOther (behind previous (rest.take n)) (rest.drop n) := by
  have hgreedyHex : hex.Greedy isHexDigit := ((greedy_star_one _).seq _ |>.seq _).seq _
  have hgreedy : (numericLiteral isLetterOrOther).Greedy isNumberEnd :=
    ((greedy_star_one _).seq _ |>.seq _).seq _
  have hquoted : ∀ quote, IsQuote quote → ((quoted quote).lengths previous rest).head? = some n →
      OpenForNumbers isLetterOrOther (behind previous (rest.take n)) (rest.drop n) := by
    intro quote hquote hn
    have hends : (quoted quote).EndsWith (· == quote) := ((endsWith_one _).seq _).seq _
    obtain ⟨c, hc, hlast⟩ := hends previous rest n (List.mem_of_head? hn)
    left
    rw [hlast, Option.any_some, beq_iff_eq.mp hc]
    exact isNameEnd_of_isQuote h hquote
  rcases head?_alt_cases hn with hn | hn
  · right
    intro c hc
    by_contra hdigit
    have hend := hgreedyHex previous rest n hn c hc
    rw [isHexDigit_of_isDigit (Bool.not_eq_false _ |>.mp hdigit)] at hend
    cases hend
  rcases head?_alt_cases hn with hn | hn
  · right
    intro c hc
    by_contra hdigit
    have hend := hgreedy previous rest n hn c hc
    rw [isNumberEnd_of_isDigit (Bool.not_eq_false _ |>.mp hdigit)] at hend
    cases hend
  rcases head?_alt_cases hn with hn | hn
  · exact hquoted singleQuote (Or.inl rfl) hn
  · exact hquoted doubleQuote (Or.inr rfl) hn

/-- What is passed makes no alternative match. -/
theorem lengths_of_passed {previous : Option UInt16} {s : Text}
    (h : (sqlNormalizePattern isLetterOrOther).lengths previous s = []) :
    hex.lengths previous s = [] ∧ (numericLiteral isLetterOrOther).lengths previous s = [] ∧
      singleQuoted.lengths previous s = [] ∧ doubleQuoted.lengths previous s = [] := by
  simpa only [sqlNormalizePattern, lengths, List.append_eq_nil_iff] using h

theorem free_hex_sanitized (before previous : Option UInt16) (s : Text) :
    hex.Free before (sanitized isLetterOrOther previous s) := by
  have hreads := @reads_sqlNormalizePattern isLetterOrOther
  have hletter : ∀ c : UInt16, isHexDigit c = true ∨ c = 0x78 → c ∉ replacement := by
    rintro c hc hmem
    obtain rfl := List.mem_singleton.mp hmem
    revert hc
    decide
  unfold sanitized
  induction previous, s using hreads.scan_induction generalizing before with
  | nil previous => exact free_nil_iff.mpr rfl
  | pass previous c rest hpassed ih =>
      rw [replace_cons_of_nil replacement hpassed]
      refine free_cons_iff.mpr ⟨?_, ih (some c)⟩
      apply hex_lengths_eq_nil_iff.mpr
      rintro ⟨digit, others, hstarts, hdigit⟩
      obtain ⟨rfl, hx⟩ := List.cons.inj hstarts
      obtain ⟨behindX, rfl, hout⟩ := hreads.exists_of_replace_eq_cons (List.cons_ne_nil _ _)
        (hletter 0x78 (Or.inr rfl)) hx
      obtain ⟨behindDigit, rfl, -⟩ := hreads.exists_of_replace_eq_cons (List.cons_ne_nil _ _)
        (hletter digit (Or.inl hdigit)) hout.symm
      exact hex_lengths_eq_nil_iff.mp (lengths_of_passed hpassed).1
        ⟨digit, behindDigit, rfl, hdigit⟩
  | found previous rest n hn hhead ih =>
      rw [replace_of_head? replacement hn hhead]
      refine free_cons_iff.mpr ⟨?_, ih _⟩
      apply hex_lengths_eq_nil_iff.mpr
      rintro ⟨digit, others, hstarts, -⟩
      cases hstarts

theorem free_quoted_sanitized {quote : UInt16} (hquote : IsQuote quote)
    (before previous : Option UInt16) (s : Text) :
    (quoted quote).Free before (sanitized isLetterOrOther previous s) := by
  have hreads := @reads_sqlNormalizePattern isLetterOrOther
  have hmark : ∀ c ∈ replacement, c ≠ quote := by
    rintro c hc rfl
    obtain rfl := List.mem_singleton.mp hc
    revert hquote
    decide
  unfold sanitized
  induction previous, s using hreads.scan_induction generalizing before with
  | nil previous => exact free_nil_iff.mpr rfl
  | pass previous c rest hpassed ih =>
      rw [replace_cons_of_nil replacement hpassed]
      refine free_cons_iff.mpr ⟨?_, ih (some c)⟩
      apply quoted_lengths_cons_eq_nil_iff.mpr
      intro hc hmem
      have hpassedQuote : (quoted quote).lengths previous (c :: rest) = [] := by
        rcases hquote with rfl | rfl
        · exact (lengths_of_passed hpassed).2.2.1
        · exact (lengths_of_passed hpassed).2.2.2
      rcases hreads.mem_replace hmem with hrest | hreplacement
      · exact quoted_lengths_cons_eq_nil_iff.mp hpassedQuote hc hrest
      · exact hmark quote hreplacement rfl
  | found previous rest n hn hhead ih =>
      rw [replace_of_head? replacement hn hhead]
      refine free_cons_iff.mpr ⟨?_, ih _⟩
      apply quoted_lengths_cons_eq_nil_iff.mpr
      intro hc
      exact absurd hc (hmark _ (List.mem_singleton_self _))

/-- Where a number would be found the result starts with none. -/
theorem not_startsNumber_sanitized (h : ExcludesPunctuation isLetterOrOther)
    {previous : Option UInt16} {s : Text} (hopen : OpenForNumbers isLetterOrOther previous s) :
    ¬ StartsNumber (sanitized isLetterOrOther previous s) := by
  unfold sanitized
  induction previous, s using
    (@reads_sqlNormalizePattern isLetterOrOther).scan_induction with
  | nil previous => exact not_startsNumber_nil
  | pass previous c rest hpassed ih =>
      rw [replace_cons_of_nil replacement hpassed, startsNumber_cons_iff]
      rintro (hdigit | ⟨hsign, hstarts⟩)
      · rcases numericLiteral_lengths_eq_nil_iff.mp (lengths_of_passed hpassed).2.1 with
          hname | hnumber
        · rcases hopen with hfree | hnone
          · rw [hfree] at hname
            cases hname
          · rw [hnone c rfl] at hdigit
            cases hdigit
        · exact hnumber (.digit hdigit)
      · exact ih (Or.inl (isNameEnd_of_isSign h hsign)) hstarts
  | found previous rest n hn hhead _ =>
      rw [replace_of_head? replacement hn hhead]
      exact startsNumber_replacement_append _

theorem free_numericLiteral_sanitized (h : ExcludesPunctuation isLetterOrOther)
    {before previous : Option UInt16} {s : Text}
    (hbefore : before = previous ∨ OpenForNumbers isLetterOrOther previous s) :
    (numericLiteral isLetterOrOther).Free before (sanitized isLetterOrOther previous s) := by
  have hreads := @reads_sqlNormalizePattern isLetterOrOther
  induction previous, s using hreads.scan_induction generalizing before with
  | nil previous => exact free_nil_iff.mpr (numericLiteral_lengths_nil _ _)
  | pass previous c rest hpassed ih =>
      have hfirst : (numericLiteral isLetterOrOther).lengths before
          (sanitized isLetterOrOther previous (c :: rest)) = [] := by
        apply numericLiteral_lengths_eq_nil_iff.mpr
        by_cases hopen : OpenForNumbers isLetterOrOther previous (c :: rest)
        · exact Or.inr (not_startsNumber_sanitized h hopen)
        · obtain rfl := hbefore.resolve_right hopen
          left
          by_contra hfree
          exact hopen (Or.inl (Bool.not_eq_true _ |>.mp hfree))
      rw [sanitized, replace_cons_of_nil replacement hpassed] at hfirst ⊢
      exact free_cons_iff.mpr ⟨hfirst, ih (Or.inl rfl)⟩
  | found previous rest n hn hhead ih =>
      rw [sanitized, replace_of_head? replacement hn hhead]
      refine free_cons_iff.mpr ⟨?_, ih (Or.inr (openForNumbers_behind h hhead))⟩
      exact numericLiteral_lengths_eq_nil_iff.mpr (Or.inr (startsNumber_replacement_append _))

theorem free_sanitized (h : ExcludesPunctuation isLetterOrOther) (previous : Option UInt16)
    (s : Text) :
    (sqlNormalizePattern isLetterOrOther).Free previous (sanitized isLetterOrOther previous s) := by
  apply free_alt_iff.mpr
  refine ⟨free_hex_sanitized previous previous s, free_alt_iff.mpr ⟨?_, free_alt_iff.mpr ?_⟩⟩
  · exact free_numericLiteral_sanitized h (Or.inl rfl)
  · exact ⟨free_quoted_sanitized (Or.inl rfl) previous previous s,
      free_quoted_sanitized (Or.inr rfl) previous previous s⟩

end Sanitized

/-- Sanitizing a statement leaves no literal in it, makes it no longer, and does nothing to what
is sanitized already. -/
theorem sanitizeSqlStatement_free (isLetterOrOther : UInt16 → Bool)
    (h : ExcludesPunctuation isLetterOrOther) (s : Text) :
    ∃ result, sanitizeSqlStatement isLetterOrOther (some s) = .ok result ∧
      sanitizeSqlStatement isLetterOrOther (some result) = .ok result ∧
      result.length ≤ s.length ∧
      ∀ literal ∈ [hex, numericLiteral isLetterOrOther, singleQuoted, doubleQuoted],
        literal.Free none result := by
  have hfree := free_sanitized h none s
  obtain ⟨hhex, hrest⟩ := free_alt_iff.mp hfree
  obtain ⟨hnumeric, hquoted⟩ := free_alt_iff.mp hrest
  obtain ⟨hsingle, hdouble⟩ := free_alt_iff.mp hquoted
  refine ⟨sanitized isLetterOrOther none s, rfl, ?_, ?_, ?_⟩
  · exact congrArg Except.ok (hfree.replace_eq_self replacement)
  · exact length_replace_le _ replacement (Nat.le_refl 1) none s
  · intro literal hliteral
    simp only [List.mem_cons, List.not_mem_nil, or_false] at hliteral
    rcases hliteral with rfl | rfl | rfl | rfl
    · exact hhex
    · exact hnumeric
    · exact hsingle
    · exact hdouble

/-- The classes `\p{L}` and `\p{C}` of the ASCII characters. -/
def asciiLetterOrOther (c : UInt16) : Bool :=
  c < 0x20 || (0x41 ≤ c && c ≤ 0x5A) || (0x61 ≤ c && c ≤ 0x7A) || c == 0x7F

theorem excludesPunctuation_ascii : ExcludesPunctuation asciiLetterOrOther where
  sign := by
    intro c hc
    simp only [isSign, Bool.or_eq_true, beq_iff_eq] at hc
    rcases hc with (rfl | rfl) | rfl
    · decide
    · decide
    · decide
  quote := by
    rintro c (rfl | rfl)
    · decide
    · decide

/-- A sign behind a hexadecimal number stays, and the number behind it does not. -/
theorem sanitizeSqlStatement_free_ascii :
    ∃ result, sanitizeSqlStatement asciiLetterOrOther (some (text "a=0xA+5'b'\"")) = .ok result ∧
      sanitizeSqlStatement asciiLetterOrOther (some result) = .ok result ∧
      result.length ≤ (text "a=0xA+5'b'\"").length ∧
      ∀ literal ∈ [hex, numericLiteral asciiLetterOrOther, singleQuoted, doubleQuoted],
        literal.Free none result :=
  sanitizeSqlStatement_free asciiLetterOrOther excludesPunctuation_ascii _

end SignalFxTracing.ExtensionMethods
