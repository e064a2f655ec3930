import SignalFxTracing.ExtensionMethods.StringExtensions

/-!
# Quoted literals of a statement (`StringExtensions.cs`)

A statement is read from the left as words without quotes, closed literals and
quotes that are not closed, behind which reading goes on. The pattern finds
each closed literal as a whole, numbers never reach over a quote, and what is
left of a literal that is cut stays as it is.
-/

namespace SignalFxTracing.ExtensionMethods

open Clr Lib Lib.Regex

def IsQuote (c : UInt16) : Prop := c = singleQuote ∨ c = doubleQuote

def QuoteFree (s : Text) : Prop := ∀ c ∈ s, ¬ IsQuote c

instance : DecidablePred IsQuote := fun c =>
  inferInstanceAs (Decidable (c = singleQuote ∨ c = doubleQuote))

instance : DecidablePred QuoteFree := fun s => List.decidableBAll _ s

/-- The text of a literal: its own quote stands in it doubled only. -/
inductive IsBody (quote : UInt16) : Text → Prop
  | nil : IsBody quote []
  | plain {c : UInt16} {body : Text} : c ≠ quote → IsBody quote body → IsBody quote (c :: body)
  | pair {body : Text} : IsBody quote body → IsBody quote (quote :: quote :: body)

/-- A statement that starts with a word and a closed literal, and the rest behind it. A doubled
quote closes the literal only where no third one follows. -/
structure StartsWithLiteral (s word : Text) (quote : UInt16) (body rest : Text) : Prop where
  eq : s = word ++ quote :: (body ++ quote :: rest)
  word_free : QuoteFree word
  isQuote : IsQuote quote
  isBody : IsBody quote body
  closed : ∀ rest', rest = quote :: rest' → quote ∉ rest'

/-- A statement that starts with a word and a quote that nothing closes, and the rest behind it. -/
structure StartsWithUnclosed (s word : Text) (quote : UInt16) (rest : Text) : Prop where
  eq : s = word ++ quote :: rest
  word_free : QuoteFree word
  isQuote : IsQuote quote
  unclosed : quote ∉ rest

/-- The second statement is the first one up to the texts of closed literals,
each kept or replaced by a text of the same length without quotes. -/
inductive Variant : Text → Text → Prop
  | same (s : Text) : Variant s s
  | literal {s word body other rest rest' : Text} {quote : UInt16} :
      StartsWithLiteral s word quote body rest →
      other = body ∨ other.length = body.length ∧ QuoteFree other →
      Variant rest rest' →
      Variant s (word ++ quote :: (other ++ quote :: rest'))
  | unclosed {s word rest rest' : Text} {quote : UInt16} :
      StartsWithUnclosed s word quote rest → Variant rest rest' →
      Variant s (word ++ quote :: rest')

/-- The first `length` characters of the statement end inside the text of a closed
literal, behind at least one of its characters, or before its closing quote. -/
inductive CutsLiteral : Nat → Text → Prop
  | here {s word body rest : Text} {quote : UInt16} {length : Nat} :
      StartsWithLiteral s word quote body rest →
      word.length + 1 < length → length ≤ word.length + 1 + body.length →
      CutsLiteral length s
  | behind {s word body rest : Text} {quote : UInt16} {length : Nat} :
      StartsWithLiteral s word quote body rest → CutsLiteral length rest →
      CutsLiteral (word.length + body.length + 2 + length) s
  | unclosed {s word rest : Text} {quote : UInt16} {length : Nat} :
      StartsWithUnclosed s word quote rest → CutsLiteral length rest →
      CutsLiteral (word.length + 1 + length) s

section Quoted

variable {quote : UInt16} {previous : Option UInt16} {rest : Text}

theorem quotedTurn_lengths_plain {c : UInt16} (h : c ≠ quote) :
    (quotedTurn quote).lengths previous (c :: rest) = [1] := by
  simp [quotedTurn, lengths, h]

theorem quotedTurn_lengths_pair :
    (quotedTurn quote).lengths previous (quote :: quote :: rest) = [2] := by
  simp [quotedTurn, lengths]

theorem quotedTurn_lengths_close (h : rest.head? ≠ some quote) :
    (quotedTurn quote).lengths previous (quote :: rest) = [] := by
  cases rest with
  | nil => simp [quotedTurn, lengths]
  | cons c rest =>
      have hc : c ≠ quote := fun hc => h (congrArg some hc)
      simp [quotedTurn, lengths, hc]

/-- The text of a literal and the quote that closes it are found first. -/
theorem IsBody.head?_closed {body : Text} (hbody : IsBody quote body)
    (hclosed : ∀ rest', rest = quote :: rest' → quote ∉ rest') (previous : Option UInt16) :
    ((seq (star (quotedTurn quote)) (one (· == quote))).lengths previous
      (body ++ quote :: rest)).head? = some (body.length + 1) := by
  induction hbody generalizing previous with
  | nil =>
      have hclose : (one (· == quote)).lengths previous (quote :: rest) = [1] := by simp [lengths]
      rw [List.nil_append]
      by_cases hhead : rest.head? = some quote
      · obtain ⟨rest', rfl⟩ := List.head?_eq_some_iff.mp hhead
        have hnone : ∀ c ∈ rest', (c == quote) = false := by
          intro c hc
          apply beq_eq_false_iff_ne.mpr
          rintro rfl
          exact hclosed rest' rfl hc
        -- The turn over both quotes leads to no quote, and is given back.
        rw [lengths_seq_star_of_singleton Nat.two_pos quotedTurn_lengths_pair, hclose,
          List.drop_succ_cons, List.drop_succ_cons, List.drop_zero, lengths_seq_one_eq_nil _ hnone]
        rfl
      · rw [lengths_seq_star_of_nil (quotedTurn_lengths_close hhead), hclose]
        rfl
  | @plain c body hc hbody ih =>
      rw [List.cons_append, lengths_seq_star_of_singleton Nat.one_pos (quotedTurn_lengths_plain hc),
        List.head?_append, List.head?_map, List.drop_succ_cons, List.drop_zero, ih,
        Option.map_some, Option.some_or, List.length_cons]
      exact congrArg some (Nat.add_comm 1 _)
  | @pair body hbody ih =>
      rw [List.cons_append, List.cons_append,
        lengths_seq_star_of_singleton Nat.two_pos quotedTurn_lengths_pair,
        List.head?_append, List.head?_map, List.drop_succ_cons, List.drop_succ_cons,
        List.drop_zero, ih, Option.map_some, Option.some_or, List.length_cons, List.length_cons]
      exact congrArg some (Nat.add_comm 2 _)

/-- The pattern of a literal matches a closed literal as a whole. -/
theorem head?_quoted {body : Text} (hbody : IsBody quote body)
    (hclosed : ∀ rest', rest = quote :: rest' → quote ∉ rest') (previous : Option UInt16) :
    ((quoted quote).lengths previous (quote :: (body ++ quote :: rest))).head? =
      some (body.length + 2) := by
  have hopen : ((one (· == quote)).lengths previous
      (quote :: (body ++ quote :: rest))).head? = some 1 := by simp [lengths]
  have hall := head?_seq hopen (hbody.head?_closed hclosed _)
  rw [Nat.add_comm] at hall
  exact hall

/-- Another character opens no literal. -/
theorem quoted_lengths_of_ne {c : UInt16} (h : c ≠ quote) :
    (quoted quote).lengths previous (c :: rest) = [] := by
  simp [quoted, lengths, h]

/-- A quote without another one behind it opens no literal. -/
theorem quoted_lengths_of_notMem (h : quote ∉ rest) :
    (quoted quote).lengths previous (quote :: rest) = [] := by
  have hnone : ∀ c ∈ rest, (c == quote) = false := by
    intro c hc
    apply beq_eq_false_iff_ne.mpr
    rintro rfl
    exact h hc
  have hopen : (one (· == quote)).lengths previous (quote :: rest) = [1] := by simp [lengths]
  rw [quoted, lengths, hopen, List.flatMap_singleton, List.drop_succ_cons, List.drop_zero,
    lengths_seq_one_eq_nil _ hnone]
  rfl

end Quoted

section Pattern

variable {isLetterOrOther : UInt16 → Bool} {previous : Option UInt16}

theorem reads_sqlNormalizePattern : (sqlNormalizePattern isLetterOrOther).Reads := by
  have hhex : hex.Reads := (reads_one _).seq_left _
  have hnumeric : (numericLiteral isLetterOrOther).Reads :=
    (((reads_one _).seq_left _).seq_left _ |>.seq_right _).seq_right _
  have hquoted : ∀ quote, (quoted quote).Reads := fun quote => (reads_one _).seq_left _
  exact hhex.alt (hnumeric.alt ((hquoted _).alt (hquoted _)))

/-- No number starts with a quote or with a letter that is no digit. -/
theorem lengths_of_notInNumber {c : UInt16} (h : NotInNumber c) (rest : Text) :
    (sqlNormalizePattern isLetterOrOther).lengths previous (c :: rest) =
      singleQuoted.lengths previous (c :: rest) ++ doubleQuoted.lengths previous (c :: rest) := by
  rw [sqlNormalizePattern, lengths, lengths, lengths,
    hex_rejects.lengths_cons hex_lengths_nil h,
    (numericLiteral_rejects _).lengths_cons (numericLiteral_lengths_nil _) h]
  rfl

theorem IsQuote.notInNumber {c : UInt16} (h : IsQuote c) : NotInNumber c := by
  rcases h with rfl | rfl
  · exact Or.inl rfl
  · exact Or.inr (Or.inl rfl)

/-- A closed literal is matched as a whole. -/
theorem head?_literal (isLetterOrOther : UInt16 → Bool) (previous : Option UInt16)
    {quote : UInt16} {body rest : Text} (hquote : IsQuote quote)
    (hbody : IsBody quote body) (hclosed : ∀ rest', rest = quote :: rest' → quote ∉ rest') :
    ((sqlNormalizePattern isLetterOrOther).lengths previous
      (quote :: (body ++ quote :: rest))).head? = some (body.length + 2) := by
  have hmatch := head?_quoted hbody hclosed previous
  rw [lengths_of_notInNumber hquote.notInNumber, List.head?_append]
  rcases hquote with rfl | rfl
  · rw [singleQuoted, hmatch, Option.some_or]
  · have hother : doubleQuote ≠ singleQuote := by decide
    rw [singleQuoted, quoted_lengths_of_ne hother, doubleQuoted, hmatch]
    rfl

/-- A quote that no quote follows is passed. -/
theorem lengths_of_quote {quote : UInt16} {rest : Text} (hquote : IsQuote quote)
    (hrest : quote ∉ rest) :
    (sqlNormalizePattern isLetterOrOther).lengths previous (quote :: rest) = [] := by
  rw [lengths_of_notInNumber hquote.notInNumber]
  rcases hquote with rfl | rfl
  · have hother : singleQuote ≠ doubleQuote := by decide
    rw [singleQuoted, quoted_lengths_of_notMem hrest, doubleQuoted, quoted_lengths_of_ne hother]
    rfl
  · have hother : doubleQuote ≠ singleQuote := by decide
    rw [singleQuoted, quoted_lengths_of_ne hother, doubleQuoted, quoted_lengths_of_notMem hrest]
    rfl

/-- A letter that is no digit is passed. -/
theorem lengths_of_letter {c : UInt16} (h : c = 0x6B ∨ c = 0x6D) (rest : Text) :
    (sqlNormalizePattern isLetterOrOther).lengths previous (c :: rest) = [] := by
  have hsingle : c ≠ singleQuote := by rcases h with rfl | rfl <;> decide
  have hdouble : c ≠ doubleQuote := by rcases h with rfl | rfl <;> decide
  rw [lengths_of_notInNumber (Or.inr (Or.inr h)), singleQuoted, quoted_lengths_of_ne hsingle,
    doubleQuoted, quoted_lengths_of_ne hdouble]
  rfl

/-- Matches that start in a word end in it, whatever quote follows. -/
theorem lengths_word_append {word rest : Text} (hword : QuoteFree word) (hne : word ≠ [])
    (hrest : ∀ c ∈ rest.head?, IsQuote c) :
    (sqlNormalizePattern isLetterOrOther).lengths previous (word ++ rest) =
      (sqlNormalizePattern isLetterOrOther).lengths previous word := by
  obtain ⟨c, word, rfl⟩ := List.exists_cons_of_ne_nil hne
  have hc := hword c (List.mem_cons_self ..)
  have hsingle : c ≠ singleQuote := fun h => hc (Or.inl h)
  have hdouble : c ≠ doubleQuote := fun h => hc (Or.inr h)
  have hstop : ∀ d ∈ rest.head?, NotInNumber d := fun d hd => (hrest d hd).notInNumber
  have hhex := hex_rejects.lengths_append hstop previous (c :: word)
  have hnumeric := (numericLiteral_rejects isLetterOrOther).lengths_append hstop previous (c :: word)
  simp only [sqlNormalizePattern, lengths, hhex, hnumeric]
  rw [List.cons_append, singleQuoted, doubleQuoted, quoted_lengths_of_ne hsingle,
    quoted_lengths_of_ne hsingle, quoted_lengths_of_ne hdouble, quoted_lengths_of_ne hdouble]

end Pattern

section Replacing

variable {isLetterOrOther : UInt16 → Bool}

/-- What is sanitized of a statement behind a character. -/
def sanitized (isLetterOrOther : UInt16 → Bool) (previous : Option UInt16) (s : Text) : Text :=
  replace (sqlNormalizePattern isLetterOrOther) replacement previous s

/-- A word is sanitized on its own. -/
theorem sanitized_word_append {word rest : Text} (hword : QuoteFree word)
    (hrest : ∀ c ∈ rest.head?, IsQuote c) (previous : Option UInt16) :
    sanitized isLetterOrOther previous (word ++ rest) =
      sanitized isLetterOrOther previous word ++
        sanitized isLetterOrOther (behind previous word) rest := by
  apply replace_append replacement reads_sqlNormalizePattern
  intro before w hw hne
  exact lengths_word_append (fun c hc => hword c (hw.subset hc)) hne hrest

/-- A closed literal behind a word becomes the replacement. -/
theorem StartsWithLiteral.sanitized_eq (isLetterOrOther : UInt16 → Bool)
    {s word body rest : Text} {quote : UInt16} (h : StartsWithLiteral s word quote body rest)
    (previous : Option UInt16) :
    sanitized isLetterOrOther previous s =
      sanitized isLetterOrOther previous word ++
        (replacement ++ sanitized isLetterOrOther (some quote) rest) := by
  have hquote : ∀ c ∈ (quote :: (body ++ quote :: rest)).head?, IsQuote c := by
    rintro c ⟨⟩
    exact h.isQuote
  rw [h.eq, sanitized_word_append h.word_free hquote]
  congr 1
  have hmatch := head?_literal isLetterOrOther (behind previous word) h.isQuote h.isBody h.closed
  have hpos : 0 < body.length + 2 := by omega
  have hsplit : quote :: (body ++ quote :: rest) = (quote :: (body ++ [quote])) ++ rest := by simp
  have hlength : body.length + 2 = (quote :: (body ++ [quote])).length := by simp
  rw [sanitized, replace_of_head? replacement hpos hmatch, hsplit, hlength,
    List.take_left, List.drop_left, ← List.cons_append, behind_concat]
  rfl

/-- A quote that nothing closes is kept behind its word. -/
theorem StartsWithUnclosed.sanitized_eq (isLetterOrOther : UInt16 → Bool) {s word rest : Text}
    {quote : UInt16} (h : StartsWithUnclosed s word quote rest) (previous : Option UInt16) :
    sanitized isLetterOrOther previous s =
      sanitized isLetterOrOther previous word ++
        quote :: sanitized isLetterOrOther (some quote) rest := by
  have hquote : ∀ c ∈ (quote :: rest).head?, IsQuote c := by
    rintro c ⟨⟩
    exact h.isQuote
  rw [h.eq, sanitized_word_append h.word_free hquote]
  congr 1
  exact replace_cons_of_nil replacement (lengths_of_quote h.isQuote h.unclosed)

/-- A quote and letters behind it stay as they are. -/
theorem sanitized_cut {quote c : UInt16} (hquote : IsQuote quote) (hc : c = 0x6B ∨ c = 0x6D)
    (n : Nat) (previous : Option UInt16) :
    sanitized isLetterOrOther previous (quote :: List.replicate n c) =
      quote :: List.replicate n c := by
  have hnot : quote ∉ List.replicate n c := by
    intro hmem
    obtain rfl := List.eq_of_mem_replicate hmem
    rcases hquote with rfl | rfl <;> rcases hc with hc | hc <;> exact absurd hc (by decide)
  rw [sanitized, replace_cons_of_nil replacement (lengths_of_quote hquote hnot)]
  congr 1
  apply replace_eq_self
  intro before w hw
  cases w with
  | nil =>
      rw [sqlNormalizePattern, lengths, lengths, hex_lengths_nil, numericLiteral_lengths_nil]
      rfl
  | cons d w =>
      obtain rfl := List.eq_of_mem_replicate (hw.subset (List.mem_cons_self ..))
      exact lengths_of_letter hc w

end Replacing

section Truncating

variable (isLetterOrOther : UInt16 → Bool) {s word body rest : Text} {quote : UInt16}

theorem QuoteFree.isBody (hquote : IsQuote quote) {text : Text} (h : QuoteFree text) :
    IsBody quote text := by
  induction text with
  | nil => exact .nil
  | cons c text ih =>
      obtain ⟨hc, htext⟩ := List.forall_mem_cons.mp h
      refine .plain ?_ (ih htext)
      rintro rfl
      exact hc hquote

theorem take_literal (word body rest : Text) (quote : UInt16) (n : Nat) :
    (word ++ quote :: (body ++ quote :: rest)).take (word.length + body.length + 2 + n) =
      word ++ quote :: (body ++ quote :: rest.take n) := by
  have hsplit : ∀ rest, word ++ quote :: (body ++ quote :: rest) =
      (word ++ quote :: (body ++ [quote])) ++ rest := by simp
  have hlength : word.length + body.length + 2 = (word ++ quote :: (body ++ [quote])).length := by
    simp only [List.length_append, List.length_cons, List.length_nil]
    omega
  rw [hsplit rest, hsplit (rest.take n), hlength, List.take_length_add_append]

/-- Cutting behind the literal keeps the word and the literal. -/
theorem StartsWithLiteral.take (h : StartsWithLiteral s word quote body rest) (n : Nat) :
    StartsWithLiteral (s.take (word.length + body.length + 2 + n)) word quote body
      (rest.take n) where
  eq := by rw [h.eq, take_literal]
  word_free := h.word_free
  isQuote := h.isQuote
  isBody := h.isBody
  closed := by
    intro rest' heq
    cases rest with
    | nil => simp at heq
    | cons c rest =>
        cases n with
        | zero => simp at heq
        | succ n =>
            obtain ⟨rfl, rfl⟩ := List.cons.inj heq
            exact fun hmem => h.closed rest rfl (List.mem_of_mem_take hmem)

theorem take_unclosed (word rest : Text) (quote : UInt16) (n : Nat) :
    (word ++ quote :: rest).take (word.length + 1 + n) = word ++ quote :: rest.take n := by
  rw [Nat.add_assoc, List.take_length_add_append, Nat.add_comm, List.take_succ_cons]

/-- Cutting behind the quote keeps the word and the quote. -/
theorem StartsWithUnclosed.take (h : StartsWithUnclosed s word quote rest) (n : Nat) :
    StartsWithUnclosed (s.take (word.length + 1 + n)) word quote (rest.take n) where
  eq := by rw [h.eq, take_unclosed]
  word_free := h.word_free
  isQuote := h.isQuote
  unclosed := fun hmem => h.unclosed (List.mem_of_mem_take hmem)

theorem Variant.head? {s t : Text} (h : Variant s t) : t.head? = s.head? := by
  cases h with
  | same => rfl
  | @literal _ word _ _ _ _ _ hstart _ _ =>
      rw [hstart.eq]
      cases word with
      | nil => rfl
      | cons c word => rfl
  | @unclosed _ word _ _ _ hstart _ =>
      rw [hstart.eq]
      cases word with
      | nil => rfl
      | cons c word => rfl

/-- No variant has more quotes. -/
theorem Variant.count_le {s t : Text} (h : Variant s t) {q : UInt16} (hq : IsQuote q) :
    t.count q ≤ s.count q := by
  induction h with
  | same => exact Nat.le_refl _
  | @literal s word body other rest rest' quote hstart hother _ ih =>
      have hbody : other.count q ≤ body.count q := by
        rcases hother with rfl | ⟨-, hfree⟩
        · exact Nat.le_refl _
        · rw [List.count_eq_zero.mpr fun hmem => hfree q hmem hq]
          exact Nat.zero_le _
      rw [hstart.eq]
      simp only [List.count_append, List.count_cons]
      omega
  | @unclosed s word rest rest' quote hstart _ ih =>
      rw [hstart.eq]
      simp only [List.count_append, List.count_cons]
      omega

theorem Variant.notMem {s t : Text} (h : Variant s t) {q : UInt16} (hq : IsQuote q)
    (hs : q ∉ s) : q ∉ t := by
  have hle := h.count_le hq
  rw [List.count_eq_zero.mpr hs, Nat.le_zero] at hle
  exact List.count_eq_zero.mp hle

/-- The variant starts with the same word and a literal as long. -/
theorem StartsWithLiteral.variant {other rest' : Text}
    (h : StartsWithLiteral s word quote body rest)
    (hother : other = body ∨ other.length = body.length ∧ QuoteFree other)
    (hrest : Variant rest rest') :
    StartsWithLiteral (word ++ quote :: (other ++ quote :: rest')) word quote other rest' where
  eq := rfl
  word_free := h.word_free
  isQuote := h.isQuote
  isBody := by
    rcases hother with rfl | ⟨-, hfree⟩
    · exact h.isBody
    · exact hfree.isBody h.isQuote
  closed := by
    rintro others rfl
    obtain ⟨behind, rfl⟩ := List.head?_eq_some_iff.mp hrest.head?.symm
    have hnone := List.count_eq_zero.mpr (h.closed behind rfl)
    have hle := hrest.count_le h.isQuote
    rw [List.count_cons_self, List.count_cons_self, hnone] at hle
    exact List.count_eq_zero.mp (Nat.le_zero.mp (Nat.le_of_succ_le_succ hle))

/-- The variant starts with the same word and a quote that nothing closes either. -/
theorem StartsWithUnclosed.variant {rest' : Text} (h : StartsWithUnclosed s word quote rest)
    (hrest : Variant rest rest') :
    StartsWithUnclosed (word ++ quote :: rest') word quote rest' where
  eq := rfl
  word_free := h.word_free
  isQuote := h.isQuote
  unclosed := hrest.notMem h.isQuote h.unclosed

theorem take_word_quote {length : Nat} (hle : length ≤ word.length + 1) (after : Text) :
    (word ++ quote :: after).take length = (word ++ [quote]).take length := by
  rw [List.append_cons, List.take_append_of_le_length (by simpa using hle)]

/-- Where no literal is cut the texts of the literals do not matter. -/
theorem Variant.sanitized_take {t : Text} (h : Variant s t) {length : Nat}
    (hcut : ¬ CutsLiteral length s) (previous : Option UInt16) :
    sanitized isLetterOrOther previous (t.take length) =
      sanitized isLetterOrOther previous (s.take length) := by
  induction h generalizing length previous with
  | same => rfl
  | @literal s word body other rest rest' quote hstart hother hrest ih =>
      have hlength : other.length = body.length := by
        rcases hother with rfl | ⟨hlength, -⟩
        · rfl
        · exact hlength
      by_cases hword : length ≤ word.length + 1
      · rw [hstart.eq, take_word_quote hword (other ++ quote :: rest'),
          take_word_quote hword (body ++ quote :: rest)]
      · have hbehind : word.length + 1 + body.length < length := by
          by_contra hle
          exact hcut (.here hstart (by omega) (by omega))
        obtain ⟨n, rfl⟩ : ∃ n, length = word.length + body.length + 2 + n :=
          ⟨length - (word.length + body.length + 2), by omega⟩
        have hvariant := (hstart.variant hother hrest).take n
        rw [hlength] at hvariant
        rw [hvariant.sanitized_eq isLetterOrOther, (hstart.take n).sanitized_eq isLetterOrOther,
          ih fun hinner => hcut (.behind hstart hinner)]
  | @unclosed s word rest rest' quote hstart hrest ih =>
      by_cases hword : length ≤ word.length + 1
      · rw [hstart.eq, take_word_quote hword rest', take_word_quote hword rest]
      · obtain ⟨n, rfl⟩ : ∃ n, length = word.length + 1 + n :=
          ⟨length - (word.length + 1), by omega⟩
        rw [((hstart.variant hrest).take n).sanitized_eq isLetterOrOther,
          (hstart.take n).sanitized_eq isLetterOrOther,
          ih fun hinner => hcut (.unclosed hstart hinner)]

/-- A literal that is cut shows in the result which characters its text has. -/
theorem CutsLiteral.exists_variants {length : Nat} (h : CutsLiteral length s) :
    ∃ t t', Variant s t ∧ Variant s t' ∧ ∀ previous,
      sanitized isLetterOrOther previous (t.take length) ≠
        sanitized isLetterOrOther previous (t'.take length) := by
  induction h with
  | @here s word body rest quote length hstart hlow hhigh =>
      have hvariant : ∀ c, (c = 0x6B ∨ c = 0x6D) →
          Variant s (word ++ quote :: (List.replicate body.length c ++ quote :: rest)) := by
        intro c hc
        refine .literal hstart (Or.inr ⟨List.length_replicate, ?_⟩) (.same rest)
        intro d hd
        obtain rfl := List.eq_of_mem_replicate hd
        rcases hc with rfl | rfl <;> rintro (h | h) <;> exact absurd h (by decide)
      obtain ⟨n, rfl⟩ : ∃ n, length = word.length + (1 + (n + 1)) :=
        ⟨length - (word.length + 2), by omega⟩
      have hshown : ∀ c, (c = 0x6B ∨ c = 0x6D) → ∀ previous, sanitized isLetterOrOther previous
          ((word ++ quote :: (List.replicate body.length c ++ quote :: rest)).take
            (word.length + (1 + (n + 1)))) =
          sanitized isLetterOrOther previous word ++ quote :: List.replicate (n + 1) c := by
        intro c hc previous
        have hle : n + 1 ≤ body.length := by omega
        have hhead : ∀ d ∈ (quote :: List.replicate (n + 1) c).head?, IsQuote d := by
          rintro d ⟨⟩
          exact hstart.isQuote
        rw [List.take_length_add_append, Nat.add_comm 1, List.take_succ_cons,
          List.take_append_of_le_length (by simpa using hle), List.take_replicate,
          Nat.min_eq_left hle, sanitized_word_append hstart.word_free hhead,
          sanitized_cut hstart.isQuote hc]
      refine ⟨_, _, hvariant 0x6B (Or.inl rfl), hvariant 0x6D (Or.inr rfl), fun previous => ?_⟩
      rw [hshown _ (Or.inl rfl), hshown _ (Or.inr rfl)]
      simp [List.replicate_succ]
  | @behind s word body rest quote length hstart _ ih =>
      obtain ⟨t, t', ht, ht', hne⟩ := ih
      refine ⟨_, _, .literal hstart (Or.inl rfl) ht, .literal hstart (Or.inl rfl) ht',
        fun previous heq => hne (some quote) ?_⟩
      have hfirst := ((hstart.variant (Or.inl rfl) ht).take length).sanitized_eq
        isLetterOrOther previous
      have hsecond := ((hstart.variant (Or.inl rfl) ht').take length).sanitized_eq
        isLetterOrOther previous
      rw [hfirst, hsecond] at heq
      simpa using heq
  | @unclosed s word rest quote length hstart _ ih =>
      obtain ⟨t, t', ht, ht', hne⟩ := ih
      refine ⟨_, _, .unclosed hstart ht, .unclosed hstart ht',
        fun previous heq => hne (some quote) ?_⟩
      rw [((hstart.variant ht).take length).sanitized_eq isLetterOrOther,
        ((hstart.variant ht').take length).sanitized_eq isLetterOrOther] at heq
      simpa using heq

/-- The texts of the literals do not matter exactly where no literal is cut. -/
theorem sanitized_take_iff (length : Nat) (s : Text)
    (previous : Option UInt16) :
    (∀ t, Variant s t → sanitized isLetterOrOther previous (t.take length) =
        sanitized isLetterOrOther previous (s.take length)) ↔
      ¬ CutsLiteral length s := by
  constructor
  · intro h hcut
    obtain ⟨t, t', ht, ht', hne⟩ := hcut.exists_variants isLetterOrOther
    exact hne previous ((h t ht).trans (h t' ht').symm)
  · intro hcut t ht
    exact ht.sanitized_take isLetterOrOther hcut previous

end Truncating

end SignalFxTracing.ExtensionMethods
