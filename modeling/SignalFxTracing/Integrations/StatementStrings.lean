import SignalFxTracing.Integrations.StatementPieces
import SignalFxTracing.Lib.JsonText

/-!
# The strings of a statement

The decoded bytes of a JSON text are strings with plain text between them, up to
the byte at which they are cut. Every quote inside a string stands behind a
backslash, so that no name in quotes is found there.
-/

namespace SignalFxTracing.Integrations.ElasticsearchNetCommon

open Clr Lib.JsonText

def backslash : UInt16 := 0x5C

/-- The decoded content of a string. -/
inductive Escaped : Text → Prop
  | nil : Escaped []
  | plain {c : UInt16} {rest : Text} :
      c ≠ quote → c ≠ backslash → Escaped rest → Escaped (c :: rest)
  | escape {c : UInt16} {rest : Text} : Escaped rest → Escaped (backslash :: c :: rest)

namespace Escaped

variable {content other rest tail : Text}

theorem append_plain {text : Text} (htext : ∀ c ∈ text, c ≠ quote ∧ c ≠ backslash)
    (h : Escaped rest) : Escaped (text ++ rest) := by
  induction text with
  | nil => exact h
  | cons c text ih =>
      obtain ⟨⟨hquote, hbackslash⟩, htext⟩ := List.forall_mem_cons.mp htext
      exact .plain hquote hbackslash (ih htext)

/-- The first quote that is not escaped ends the content. -/
theorem unique (h : Escaped content) (hother : Escaped other)
    (heq : content ++ quote :: rest = other ++ quote :: tail) : content = other ∧ rest = tail := by
  induction h generalizing other with
  | nil =>
      cases hother with
      | nil => exact ⟨rfl, (List.cons.inj heq).2⟩
      | plain hquote => exact absurd (List.cons.inj heq).1.symm hquote
      | escape => cases (List.cons.inj heq).1
  | @plain c content hquote hbackslash _ ih =>
      cases hother with
      | nil => exact absurd (List.cons.inj heq).1 hquote
      | plain _ _ hother =>
          obtain ⟨rfl, hbehind⟩ := List.cons.inj heq
          obtain ⟨rfl, hrest⟩ := ih hother hbehind
          exact ⟨rfl, hrest⟩
      | escape => exact absurd (List.cons.inj heq).1 hbackslash
  | @escape c content _ ih =>
      cases hother with
      | nil => cases (List.cons.inj heq).1
      | plain _ hbackslash => exact absurd (List.cons.inj heq).1.symm hbackslash
      | escape hother =>
          obtain ⟨rfl, hbehind⟩ := List.cons.inj (List.cons.inj heq).2
          obtain ⟨rfl, hrest⟩ := ih hother hbehind
          exact ⟨rfl, hrest⟩

/-- Inside a content a quote stands behind a backslash. -/
theorem getLast?_of_quote {u v : Text} (h : Escaped (u ++ quote :: v)) :
    u.getLast? = some backslash := by
  generalize hcontent : u ++ quote :: v = content at h
  induction h generalizing u with
  | nil => cases (List.append_eq_nil_iff.mp hcontent).2
  | plain hquote _ _ ih =>
      cases u with
      | nil => exact absurd (List.cons.inj hcontent).1.symm hquote
      | cons a u =>
          have hlast := ih (List.cons.inj hcontent).2
          rw [List.getLast?_cons, hlast]
          rfl
  | escape _ ih =>
      rcases u with _ | ⟨a, _ | ⟨b, u⟩⟩
      · cases (List.cons.inj hcontent).1
      · rw [(List.cons.inj hcontent).1]
        rfl
      · have hlast := ih (List.cons.inj (List.cons.inj hcontent).2).2
        rw [List.getLast?_cons_cons, List.getLast?_cons, hlast]
        rfl

/-- What stands behind the first quote is the content of a string again. -/
theorem behind_quote {group d : Text} (h : Escaped (group ++ quote :: d)) (hgroup : quote ∉ group) :
    Escaped d := by
  generalize hcontent : group ++ quote :: d = content at h
  induction h generalizing group with
  | nil => cases (List.append_eq_nil_iff.mp hcontent).2
  | plain hquote _ _ ih =>
      cases group with
      | nil => exact absurd (List.cons.inj hcontent).1.symm hquote
      | cons a group =>
          exact ih (fun hmem => hgroup (List.mem_cons_of_mem a hmem)) (List.cons.inj hcontent).2
  | escape h ih =>
      rcases group with _ | ⟨a, _ | ⟨b, group⟩⟩
      · cases (List.cons.inj hcontent).1
      · rw [(List.cons.inj (List.cons.inj hcontent).2).2]
        exact h
      · apply ih _ (List.cons.inj (List.cons.inj hcontent).2).2
        intro hmem
        exact hgroup (List.mem_cons_of_mem a (List.mem_cons_of_mem b hmem))

end Escaped

section Units

variable {c : Char} {s : List Char}

/-- A code unit of an ASCII character comes from this character only. -/
theorem eq_of_mem_utf16 {a : Char} (ha : a.toNat < 0x80) (h : a.toNat.toUInt16 ∈ utf16 c) :
    c = a := by
  by_cases hc : c.toNat < 0x80
  · rw [utf16_of_lt hc, List.mem_singleton] at h
    have hnat := congrArg UInt16.toNat h
    rw [UInt16.toNat_ofNat', UInt16.toNat_ofNat', Nat.mod_eq_of_lt (by omega),
      Nat.mod_eq_of_lt (by omega)] at hnat
    exact (Char.toNat_inj.mp hnat).symm
  · have hle := le_of_mem_utf16 (Nat.le_of_not_lt hc) h
    rw [UInt16.le_iff_toNat_le, UInt16.toNat_ofNat', Nat.mod_eq_of_lt (by omega)] at hle
    exact absurd hle (Nat.not_le_of_lt ha)

theorem mem_ofChars_iff {a : Char} (ha : a.toNat < 0x80) :
    a.toNat.toUInt16 ∈ ofChars s ↔ a ∈ s := by
  constructor
  · intro h
    obtain ⟨c, hc, hmem⟩ := List.mem_flatMap.mp h
    rwa [← eq_of_mem_utf16 ha hmem]
  · intro h
    refine List.mem_flatMap.mpr ⟨a, h, ?_⟩
    rw [utf16_of_lt ha]
    exact List.mem_singleton_self _

theorem quote_mem_ofChars_iff : quote ∈ ofChars s ↔ '"' ∈ s := @mem_ofChars_iff s '"' (by decide)

theorem ofChars_of_lt (hs : ∀ c ∈ s, c.toNat < 0x80) :
    ofChars s = s.map fun c => c.toNat.toUInt16 := by
  induction s with
  | nil => rfl
  | cons c s ih =>
      obtain ⟨hc, hs⟩ := List.forall_mem_cons.mp hs
      rw [ofChars_cons, utf16_of_lt hc, ih hs]
      rfl

theorem ofChars_inj_of_lt {t : List Char} (hs : ∀ c ∈ s, c.toNat < 0x80)
    (ht : ∀ c ∈ t, c.toNat < 0x80) (h : ofChars s = ofChars t) : s = t := by
  rw [ofChars_of_lt hs, ofChars_of_lt ht] at h
  induction s generalizing t with
  | nil => exact (List.map_eq_nil_iff.mp h.symm).symm
  | cons c s ih =>
      cases t with
      | nil => cases h
      | cons d t =>
          obtain ⟨hc, hs⟩ := List.forall_mem_cons.mp hs
          obtain ⟨hd, ht⟩ := List.forall_mem_cons.mp ht
          have hfirst : c.toNat.toUInt16 = d.toNat.toUInt16 := (List.cons.inj h).1
          have hmem : d.toNat.toUInt16 ∈ utf16 c := by
            rw [utf16_of_lt hc, hfirst]
            exact List.mem_singleton_self _
          rw [eq_of_mem_utf16 hd hmem, ih hs ht (List.cons.inj h).2]

/-- Neither a quote nor a backslash comes from other characters. -/
theorem ofChars_plain (hquote : '"' ∉ s) (hbackslash : '\\' ∉ s) :
    ∀ u ∈ ofChars s, u ≠ quote ∧ u ≠ backslash := by
  intro u hu
  constructor
  · rintro rfl
    exact hquote (quote_mem_ofChars_iff.mp hu)
  · rintro rfl
    exact hbackslash ((@mem_ofChars_iff s '\\' (by decide)).mp hu)

theorem isPlainChar_of_isHexDigit (h : isHexDigit c = true) : c ≠ '"' ∧ c ≠ '\\' := by
  constructor
  · rintro rfl
    revert h
    decide
  · rintro rfl
    revert h
    decide

/-- A content is decoded to one whose quotes are escaped. -/
theorem escaped_ofChars (h : IsContent s) : Escaped (ofChars s) := by
  induction h with
  | nil => exact .nil
  | @plain c rest hquote hbackslash _ _ ih =>
      rw [ofChars_cons, ← List.append_nil (utf16 c), ← ofChars_nil, ← ofChars_cons]
      refine Escaped.append_plain (ofChars_plain ?_ ?_) ih
      · rw [List.mem_singleton]
        exact hquote.symm
      · rw [List.mem_singleton]
        exact hbackslash.symm
  | @escape c rest hc _ ih =>
      have hone : utf16 c = [c.toNat.toUInt16] := by
        apply utf16_of_lt
        simp only [List.mem_cons, List.not_mem_nil, or_false] at hc
        rcases hc with rfl | rfl | rfl | rfl | rfl | rfl | rfl | rfl <;> decide
      rw [ofChars_cons, ofChars_cons, hone]
      exact .escape ih
  | @unicode digits rest _ hdigits _ ih =>
      have hplain : ∀ u ∈ ofChars digits, u ≠ quote ∧ u ≠ backslash := by
        apply ofChars_plain
        · intro hmem
          exact (isPlainChar_of_isHexDigit (hdigits _ hmem)).1 rfl
        · intro hmem
          exact (isPlainChar_of_isHexDigit (hdigits _ hmem)).2 rfl
      have hcontent : Escaped (backslash :: 0x75 :: (ofChars digits ++ ofChars rest)) :=
        .escape (ih.append_plain hplain)
      rwa [ofChars_cons, ofChars_cons, ofChars_append]

/-- What is not in a text is not in its first bytes. -/
theorem quote_notMem_getString_take (hs : '"' ∉ s) (n : Nat) :
    quote ∉ getString ((utf8 s).take n) := by
  obtain ⟨t, rest, hsplit, ht, hrest⟩ := exists_take_utf8 n s
  rw [hsplit, getString_utf8_append, List.mem_append, not_or]
  constructor
  · intro hmem
    exact hs (ht.subset (quote_mem_ofChars_iff.mp hmem))
  · intro hmem
    exact absurd (le_of_mem_getString hrest hmem) (by decide)

/-- The first bytes of a text are decoded before the ones behind it. -/
theorem getString_take_utf8_append (s : List Char) (bytes : List UInt8) (n : Nat) :
    getString ((utf8 s ++ bytes).take n) =
      getString ((utf8 s).take n) ++ getString (bytes.take (n - (utf8 s).length)) := by
  rw [List.take_append]
  by_cases hn : (utf8 s).length ≤ n
  · rw [List.take_of_length_le hn, getString_utf8_append, getString_utf8]
  · rw [Nat.sub_eq_zero_of_le (Nat.le_of_not_le hn), List.take_zero, List.append_nil, getString_nil,
      List.append_nil]

end Units

section Bodies

variable {name : Text} {c : Content}

/-- What is decoded of a string of which so many bytes are read behind the opening quote. -/
def visible (n : Nat) (c : Content) : Text := getString ((utf8 (c.chars ++ ['"'])).take n)

/-- The bytes of a string behind its opening quote. -/
def bodyBytes (c : Content) : Nat := (utf8 (c.chars ++ ['"'])).length

theorem visible_of_le {n : Nat} (h : bodyBytes c ≤ n) : visible n c = ofChars c.chars ++ [quote] := by
  rw [visible, List.take_of_length_le h, getString_utf8, ofChars_append]
  rfl

theorem closed_visible {n : Nat} (h : bodyBytes c ≤ n) : Closed (visible n c) := by
  rw [visible_of_le h, Closed, List.getLast?_concat]

/-- Every quote of a text stands behind a backslash. -/
def Backslashed (text : Text) : Prop :=
  ∀ u v, text = u ++ quote :: v → u.getLast? = some backslash

theorem Backslashed.calm {text : Text} (hname : IsName name) (h : Backslashed text) :
    Calm name text ∧ Calm name (text ++ [quote]) := by
  have hno : ∀ w v, text ≠ w ++ name ++ quote :: v := by
    intro w v htext
    have hlast := h _ v htext
    rw [List.getLast?_append_of_ne_nil _ hname.ne_nil] at hlast
    exact absurd (List.mem_of_getLast? hlast) (hname.notMem (by decide))
  have hinside : ∀ {body u v : Text}, quote :: body = u ++ quote :: (name ++ quote :: v) →
      ∃ w, body = w ++ name ++ quote :: v := by
    intro body u v huv
    cases u with
    | nil => exact ⟨[], (List.cons.inj huv).2⟩
    | cons a u =>
        refine ⟨u ++ [quote], (List.cons.inj huv).2.trans ?_⟩
        simp
  constructor
  · intro u v huv
    obtain ⟨w, hw⟩ := hinside huv
    exact absurd hw (hno w v)
  · intro u v huv
    obtain ⟨w, hw⟩ := hinside huv
    rcases List.eq_nil_or_concat' v with rfl | ⟨v, b, rfl⟩
    · rfl
    · rw [← List.cons_append, ← List.append_assoc] at hw
      exact absurd (List.append_inj' hw rfl).1 (hno w v)

/-- A string that is not read to its end has no quote but behind backslashes. -/
theorem backslashed_visible {n : Nat} (h : n < bodyBytes c) : Backslashed (visible n c) := by
  have hle : n ≤ (utf8 c.chars).length := by
    rw [bodyBytes, utf8_append, List.length_append] at h
    exact Nat.le_of_lt_succ h
  obtain ⟨t, rest, hsplit, ⟨others, ht⟩, hrest⟩ := exists_take_utf8 n c.chars
  have hescaped := escaped_ofChars c.isContent
  rw [← ht, ofChars_append] at hescaped
  rw [visible, utf8_append, List.take_append_of_le_length hle, hsplit, getString_utf8_append]
  have hfree : quote ∉ getString rest := by
    intro hmem
    exact absurd (le_of_mem_getString hrest hmem) (by decide)
  intro u v huv
  rcases List.append_eq_append_iff.mp huv with ⟨w, -, hw⟩ | ⟨w, hw, hv⟩
  · rw [hw] at hfree
    exact absurd (List.mem_append_right _ List.mem_cons_self) hfree
  · cases w with
    | nil =>
        have hrest : quote :: v = getString rest := hv
        rw [← hrest] at hfree
        exact absurd List.mem_cons_self hfree
    | cons a w =>
        obtain rfl := (List.cons.inj hv).1
        rw [hw, List.append_assoc] at hescaped
        exact hescaped.getLast?_of_quote

theorem calm_visible (hname : IsName name) (n : Nat) (c : Content) : Calm name (visible n c) := by
  by_cases hn : bodyBytes c ≤ n
  · rw [visible_of_le hn]
    refine (Backslashed.calm hname ?_).2
    intro u v huv
    have hescaped := escaped_ofChars c.isContent
    rw [huv] at hescaped
    exact hescaped.getLast?_of_quote
  · exact ((backslashed_visible (Nat.lt_of_not_le hn)).calm hname).1

end Bodies

section Leads

variable {σ : Type} {a b : Placed σ} {c : Char} {lead : List Char}

theorem isAlphanum_eq : c.isAlphanum =
    (decide (c.val ≥ 'A'.val ∧ c.val ≤ 'Z'.val) ||
      decide (c.val ≥ 'a'.val) && decide (c.val ≤ 'z'.val) ||
      decide (c.val ≥ '0'.val) && decide (c.val ≤ '9'.val)) := rfl

theorem lt_of_isPlainChar (h : isPlainChar c = true) : c.toNat < 0x80 := by
  simp only [isPlainChar, isBlank, isAtomChar, isAlphanum_eq, Bool.or_eq_true,
    Bool.and_eq_true, beq_iff_eq, decide_eq_true_eq,
    UInt32.le_iff_toNat_le, ge_iff_le, List.mem_cons, List.not_mem_nil, or_false] at h
  have hval : c.toNat = c.val.toNat := rfl
  rcases h with (h | h) | h
  · rcases h with ((rfl | rfl) | rfl) | rfl <;> decide
  · rcases h with ((h | rfl) | rfl) | rfl
    · rcases h with (⟨-, h⟩ | ⟨-, h⟩) | ⟨-, h⟩
      · exact hval ▸ Nat.lt_of_le_of_lt h (by decide)
      · exact hval ▸ Nat.lt_of_le_of_lt h (by decide)
      · exact hval ▸ Nat.lt_of_le_of_lt h (by decide)
    · decide
    · decide
    · decide
  · rcases h with rfl | rfl | rfl | rfl | rfl | rfl <;> decide

theorem plain_ascii : ∀ n < 0x80, isPlainChar (Char.ofNat n) = true →
    Char.ofNat n ≠ '"' ∧ Char.ofNat n ≠ '\\' ∧
      isWhiteSpace (Char.ofNat n).toNat.toUInt16 = isBlank (Char.ofNat n) := by
  decide +kernel

/-- A character outside the strings is no quote, and it is white space where it is blank. -/
theorem plain_of_isPlainChar (h : isPlainChar c = true) :
    c ≠ '"' ∧ c ≠ '\\' ∧ isWhiteSpace c.toNat.toUInt16 = isBlank c := by
  have hascii := plain_ascii c.toNat (lt_of_isPlainChar h)
  rw [Char.ofNat_toNat] at hascii
  exact hascii h

theorem quote_notMem_of_isPlain (h : IsPlain lead) : '"' ∉ lead :=
  fun hmem => (plain_of_isPlainChar (h _ hmem)).1 rfl

theorem ofChars_of_isPlain (h : IsPlain lead) :
    ofChars lead = lead.map fun c => c.toNat.toUInt16 :=
  ofChars_of_lt fun c hc => lt_of_isPlainChar (h c hc)

theorem escaped_of_isPlain (h : IsPlain lead) : Escaped (ofChars lead) := by
  have hplain := Escaped.append_plain (ofChars_plain (quote_notMem_of_isPlain h)
    fun hmem => (plain_of_isPlainChar (h _ hmem)).2.1 rfl) Escaped.nil
  rwa [List.append_nil] at hplain

theorem head?_of_head?_ofChars (h : IsPlain lead) (hhead : (ofChars lead).head? = some colon) :
    lead.head? = some ':' := by
  rw [ofChars_of_isPlain h, List.head?_map] at hhead
  obtain ⟨c, hc, hcolon⟩ := Option.map_eq_some_iff.mp hhead
  have hmem : ':'.toNat.toUInt16 ∈ utf16 c := by
    rw [utf16_of_lt (lt_of_isPlainChar (h c (List.mem_of_mem_head? hc)))]
    exact List.mem_singleton.mpr hcolon.symm
  rw [hc, eq_of_mem_utf16 (by decide) hmem]

theorem isValueLead_ofChars_iff (h : IsPlain lead) :
    isValueLead (ofChars lead) = true ↔ ∃ blanks, lead = ':' :: blanks ∧ ∀ c ∈ blanks, isBlank c := by
  rw [ofChars_of_isPlain h, isValueLead_iff]
  constructor
  · rintro ⟨blanks, hlead, hblank⟩
    have hhead : (ofChars lead).head? = some colon := by
      rw [ofChars_of_isPlain h, hlead]
      rfl
    obtain ⟨others, rfl⟩ := List.head?_eq_some_iff.mp (head?_of_head?_ofChars h hhead)
    obtain rfl := (List.cons.inj hlead).2
    refine ⟨others, rfl, ?_⟩
    intro b hb
    rw [← (plain_of_isPlainChar (h b (List.mem_cons_of_mem _ hb))).2.2]
    exact hblank _ (List.mem_map_of_mem hb)
  · rintro ⟨blanks, rfl, hblank⟩
    refine ⟨_, rfl, ?_⟩
    intro u hu
    obtain ⟨c, hc, rfl⟩ := List.mem_map.mp hu
    rw [(plain_of_isPlainChar (h c (List.mem_cons_of_mem _ hc))).2.2]
    exact hblank c hc

/-- A lead is blanks and then a mark. -/
theorem blanks_append_inj {first second : Blanks} {c d : Char} {tail rest : List Char}
    (hc : isBlank c = false) (hd : isBlank d = false)
    (h : first.chars ++ c :: tail = second.chars ++ d :: rest) :
    first.chars = second.chars ∧ c = d ∧ tail = rest := by
  rcases List.append_eq_append_iff.mp h with ⟨w, hw, hmark⟩ | ⟨w, hw, hmark⟩
  · cases w with
    | nil =>
        obtain ⟨hcd, htail⟩ := List.cons.inj hmark
        exact ⟨by rw [hw, List.append_nil], hcd, htail⟩
    | cons x w =>
        obtain rfl := (List.cons.inj hmark).1
        have hblank := second.blank c (hw ▸ List.mem_append_right _ List.mem_cons_self)
        rw [hc] at hblank
        cases hblank
  · cases w with
    | nil =>
        obtain ⟨hdc, htail⟩ := List.cons.inj hmark
        exact ⟨by rw [hw, List.append_nil], hdc.symm, htail.symm⟩
    | cons x w =>
        obtain rfl := (List.cons.inj hmark).1
        have hblank := first.blank d (hw ▸ List.mem_append_right _ List.mem_cons_self)
        rw [hd] at hblank
        cases hblank

theorem blanks_append_cons {between : Blanks} {mark c : Char} {tail rest : List Char}
    (hmark : isBlank mark = false) (hc : isBlank c = false)
    (h : between.chars ++ mark :: tail = c :: rest) : mark = c ∧ tail = rest :=
  (@blanks_append_inj between ⟨[], List.forall_mem_nil _⟩ _ _ _ _ hmark hc h).2

/-- The first mark behind a string says what the next string is. -/
inductive Marked (a b : Placed σ) : Char → List Char → Prop
  | value {tail : List Char} : a.role = .key → b.role = .value a.string →
      (∀ c ∈ tail, isBlank c = true) → Marked a b ':' tail
  | nested {tail : List Char} : a.role = .key → ¬ b.IsValue →
      (∃ c ∈ tail, isBlank c = false) → Marked a b ':' tail
  | brace {tail : List Char} : a.IsValue → ¬ b.IsValue → Marked a b '}' tail
  | comma {tail : List Char} : a.IsValue → b.role = .key → Marked a b ',' tail
  | element {mark : Char} {tail : List Char} : a.role = .element → ¬ b.IsValue →
      mark = ',' ∨ mark = ']' → Marked a b mark tail

theorem Marked.mem {mark : Char} {tail : List Char} (h : Marked a b mark tail) :
    mark ∈ [':', '}', ',', ']'] := by
  cases h with
  | element _ _ hmark => rcases hmark with rfl | rfl <;> decide
  | _ => decide

theorem Marked.not_blank {mark : Char} {tail : List Char} (h : Marked a b mark tail) :
    isBlank mark = false := by
  have hmem := h.mem
  simp only [List.mem_cons, List.not_mem_nil, or_false] at hmem
  rcases hmem with rfl | rfl | rfl | rfl <;> decide

theorem exists_marked (h : Follows a b) :
    ∃ (between : Blanks) (mark : Char) (tail : List Char),
      b.lead = between.chars ++ mark :: tail ∧ Marked a b mark tail := by
  cases h with
  | @value between beforeValue hkey hvalue hlead =>
      exact ⟨between, _, _, hlead, .value hkey hvalue beforeValue.blank⟩
  | @nextKey between tail hvalue hkey hlead => exact ⟨between, _, _, hlead, .comma hvalue hkey⟩
  | other hleads hno =>
      generalize b.lead = lead at hleads
      cases hleads with
      | @nested between tail hkey htail => exact ⟨between, _, tail, rfl, .nested hkey hno htail⟩
      | @closed between tail hvalue => exact ⟨between, _, tail, rfl, .brace hvalue hno⟩
      | @next between mark tail helement hmark =>
          exact ⟨between, mark, tail, rfl, .element helement hno hmark⟩

/-- The value of a key stands behind its colon. -/
theorem isValueLead_iff_of_follows (h : Follows a b) (hplain : IsPlain b.lead) :
    isValueLead (ofChars b.lead) = true ↔ b.IsValue ∧ b.lead.head? = some ':' := by
  obtain ⟨between, mark, tail, hlead, hmarked⟩ := exists_marked h
  have hcolon : isBlank ':' = false := by decide
  rw [isValueLead_ofChars_iff hplain, hlead]
  constructor
  · rintro ⟨blanks, hblanks, hblank⟩
    refine ⟨?_, by rw [hblanks]; rfl⟩
    obtain ⟨hmark, rfl⟩ := blanks_append_cons hmarked.not_blank hcolon hblanks
    cases hmarked with
    | value _ hvalue => exact ⟨_, hvalue⟩
    | nested _ _ htail =>
        obtain ⟨c, hc, hno⟩ := htail
        rw [hblank c hc] at hno
        cases hno
    | brace => cases hmark
    | comma => cases hmark
    | element _ _ hor => rcases hor with rfl | rfl <;> cases hmark
  · rintro ⟨hvalue, hhead⟩
    obtain ⟨rest, hrest⟩ := List.head?_eq_some_iff.mp hhead
    obtain ⟨hmark, rfl⟩ := blanks_append_cons hmarked.not_blank hcolon hrest
    refine ⟨tail, hrest, ?_⟩
    cases hmarked with
    | value _ _ htail => exact htail
    | nested _ hno => exact absurd hvalue hno
    | brace => cases hmark
    | comma => cases hmark
    | element _ _ hor => rcases hor with rfl | rfl <;> cases hmark

/-- Between two strings there is a mark, which is in no name. -/
theorem ofChars_lead_ne_name {name : Text} (h : Follows a b) (hname : IsName name) :
    ofChars b.lead ≠ name := by
  obtain ⟨between, mark, tail, hlead, hmarked⟩ := exists_marked h
  obtain ⟨hascii, hletter⟩ : mark.toNat < 0x80 ∧
      ¬ (0x61 ≤ mark.toNat.toUInt16 ∧ mark.toNat.toUInt16 ≤ 0x7A) := by
    have hmem := hmarked.mem
    simp only [List.mem_cons, List.not_mem_nil, or_false] at hmem
    rcases hmem with rfl | rfl | rfl | rfl <;> decide
  rintro rfl
  apply hname.notMem hletter
  rw [mem_ofChars_iff hascii, hlead]
  exact List.mem_append_right _ List.mem_cons_self

/-- Behind a value there is neither a value nor a colon. -/
theorem not_isValue_of_follows (h : Follows a b) (hvalue : a.IsValue) :
    ¬ b.IsValue ∧ b.lead.head? ≠ some ':' := by
  obtain ⟨between, mark, tail, hlead, hmarked⟩ := exists_marked h
  have hne : mark ≠ ':' → b.lead.head? ≠ some ':' := by
    intro hmark hhead
    obtain ⟨rest, hrest⟩ := List.head?_eq_some_iff.mp hhead
    exact hmark (blanks_append_cons hmarked.not_blank (by decide) (hlead.symm.trans hrest)).1
  obtain ⟨key, hrole⟩ := hvalue
  cases hmarked with
  | value hkey => cases hrole.symm.trans hkey
  | nested hkey => cases hrole.symm.trans hkey
  | brace _ hno => exact ⟨hno, hne (by decide)⟩
  | comma _ hkey =>
      refine ⟨?_, hne (by decide)⟩
      rintro ⟨other, hother⟩
      cases hkey.symm.trans hother
  | element helement => cases hrole.symm.trans helement

/-- Behind a value two leads in a row are different. -/
theorem lead_ne_of_follows {c : Placed σ} (h : Follows a b) (hvalue : a.IsValue)
    (hnext : Follows b c) : c.lead ≠ b.lead := by
  obtain ⟨between, mark, tail, hlead, hmarked⟩ := exists_marked h
  obtain ⟨between', mark', tail', hlead', hmarked'⟩ := exists_marked hnext
  have hno := (not_isValue_of_follows h hvalue).1
  obtain ⟨key, hrole⟩ := hvalue
  intro heq
  rw [hlead, hlead'] at heq
  obtain ⟨-, rfl, -⟩ := blanks_append_inj hmarked'.not_blank hmarked.not_blank heq
  cases hmarked with
  | value hkey => cases hrole.symm.trans hkey
  | nested hkey => cases hrole.symm.trans hkey
  | element helement => cases hrole.symm.trans helement
  | brace =>
      cases hmarked' with
      | brace hvalue => exact hno hvalue
      | element _ _ hor => rcases hor with hor | hor <;> cases hor
  | comma _ hkey =>
      cases hmarked' with
      | comma hvalue => exact hno hvalue
      | element helement => cases hkey.symm.trans helement

end Leads

section Cuts

variable {σ : Type} (content : σ → Content)

/-- The bytes of a string and of the plain text before it. -/
def placedBytes (a : Placed σ) : Nat := (utf8 a.lead).length + 1 + bodyBytes (content a.string)

/-- The strings of which at least the opening quote is among the first bytes. -/
def cutPieces : Nat → List (Placed σ) → List Piece
  | _, [] => []
  | n, a :: more =>
      if (utf8 a.lead).length < n then
        ⟨ofChars a.lead, visible (n - ((utf8 a.lead).length + 1)) (content a.string)⟩ ::
          cutPieces (n - placedBytes content a) more
      else []

/-- What is decoded behind them. -/
def cutRest : Nat → List (Placed σ) → List Char → Text
  | n, [], rest => getString ((utf8 rest).take n)
  | n, a :: more, rest =>
      if (utf8 a.lead).length < n then cutRest (n - placedBytes content a) more rest
      else getString ((utf8 a.lead).take n)

/-- The first bytes of what is written are decoded to pieces. -/
theorem getString_take_text (n : Nat) (w : Written σ) :
    getString ((utf8 (w.text fun s => (content s).chars)).take n) =
      textOf (cutPieces content n w.strings) (cutRest content n w.strings w.rest) := by
  obtain ⟨strings, rest⟩ := w
  induction strings generalizing n with
  | nil => rfl
  | cons a more ih =>
      have htext : Written.text (fun s => (content s).chars) ⟨a :: more, rest⟩ =
          (a.lead ++ ['"']) ++ (((content a.string).chars ++ ['"']) ++
            Written.text (fun s => (content s).chars) ⟨more, rest⟩) := by
        simp [Written.text]
      rw [cutPieces, cutRest]
      split_ifs with hlead
      · have hopening : (utf8 (a.lead ++ ['"'])).length = (utf8 a.lead).length + 1 := by
          rw [utf8_append, List.length_append]
          rfl
        have hopened : getString ((utf8 (a.lead ++ ['"'])).take n) = ofChars a.lead ++ [quote] := by
          rw [List.take_of_length_le (hopening ▸ hlead), getString_utf8, ofChars_append]
          rfl
        have hbytes : (utf8 a.lead).length + 1 + (utf8 ((content a.string).chars ++ ['"'])).length =
            placedBytes content a := rfl
        rw [htext, utf8_append, getString_take_utf8_append, hopened, hopening, utf8_append,
          getString_take_utf8_append, Nat.sub_sub, hbytes, ih, textOf, List.append_assoc]
        rfl
      · have hle : n ≤ (utf8 a.lead).length := Nat.le_of_not_lt hlead
        rw [htext, List.append_assoc, utf8_append, List.take_append_of_le_length hle]
        rfl

variable {content} {n : Nat} {strings : List (Placed σ)} {rest : List Char} {p : Piece}

@[simp] theorem cutPieces_zero (strings : List (Placed σ)) : cutPieces content 0 strings = [] := by
  cases strings with
  | nil => rfl
  | cons a more => rw [cutPieces, if_neg (Nat.not_lt_zero _)]

@[simp] theorem cutRest_zero (strings : List (Placed σ)) (rest : List Char) :
    cutRest content 0 strings rest = [] := by
  cases strings with
  | nil => rw [cutRest, List.take_zero, getString_nil]
  | cons a more => rw [cutRest, if_neg (Nat.not_lt_zero _), List.take_zero, getString_nil]

/-- Where something behind a string is read, the string is read to its end. -/
theorem bodyBytes_le_of_lt {a : Placed σ} {m : Nat} (h : m < n - placedBytes content a) :
    bodyBytes (content a.string) ≤ n - ((utf8 a.lead).length + 1) := by
  rw [placedBytes] at h
  omega

theorem exists_of_mem_cutPieces (hp : p ∈ cutPieces content n strings) :
    ∃ a ∈ strings, ∃ m, p = ⟨ofChars a.lead, visible m (content a.string)⟩ := by
  induction strings generalizing n with
  | nil => cases hp
  | cons a more ih =>
      rw [cutPieces] at hp
      split_ifs at hp with hlead
      · rcases List.mem_cons.mp hp with rfl | hp
        · exact ⟨a, List.mem_cons_self, _, rfl⟩
        · obtain ⟨b, hb, hpiece⟩ := ih hp
          exact ⟨b, List.mem_cons_of_mem a hb, hpiece⟩
      · cases hp

/-- A string that is followed by another one is read to its end. -/
theorem isChain_cutPieces {F : Placed σ → Placed σ → Prop} {R : Text → Text → Prop}
    (hFR : ∀ {a b}, F a b → R (ofChars a.lead) (ofChars b.lead)) (h : strings.IsChain F) (n : Nat) :
    (cutPieces content n strings).IsChain fun p q => Closed p.body ∧ R p.lead q.lead := by
  induction strings generalizing n with
  | nil => exact List.isChain_nil
  | cons a more ih =>
      rw [cutPieces]
      split_ifs with hlead
      · have hmore := ih h.tail (n - placedBytes content a)
        cases more with
        | nil => exact List.isChain_singleton _
        | cons b more =>
            rw [cutPieces] at hmore ⊢
            split_ifs at hmore ⊢ with hnext
            · refine List.isChain_cons_cons.mpr ⟨⟨?_, hFR (List.isChain_cons_cons.mp h).1⟩, hmore⟩
              exact closed_visible (bodyBytes_le_of_lt hnext)
            · exact List.isChain_singleton _
      · exact List.isChain_nil

/-- Behind a string that is not read to its end nothing is read. -/
theorem closed_or_of_getLast? (hp : p ∈ (cutPieces content n strings).getLast?) :
    Closed p.body ∨ cutRest content n strings rest = [] := by
  induction strings generalizing n with
  | nil => cases hp
  | cons a more ih =>
      rw [cutPieces] at hp
      rw [cutRest]
      split_ifs at hp ⊢ with hlead
      · by_cases hbytes : bodyBytes (content a.string) ≤ n - ((utf8 a.lead).length + 1)
        · rw [List.getLast?_cons] at hp
          cases hmore : (cutPieces content (n - placedBytes content a) more).getLast? with
          | none =>
              rw [hmore] at hp
              obtain rfl := Option.some.inj hp
              exact Or.inl (closed_visible hbytes)
          | some q =>
              rw [hmore] at hp
              obtain rfl := Option.some.inj hp
              exact ih hmore
        · have hzero : n - placedBytes content a = 0 := by
            rw [placedBytes]
            omega
          rw [hzero, cutRest_zero]
          exact Or.inr rfl
      · cases hp

theorem quote_notMem_cutRest (hleads : ∀ a ∈ strings, IsPlain a.lead) (hrest : IsPlain rest) :
    quote ∉ cutRest content n strings rest := by
  induction strings generalizing n with
  | nil => exact quote_notMem_getString_take (quote_notMem_of_isPlain hrest) n
  | cons a more ih =>
      obtain ⟨hlead, hmore⟩ := List.forall_mem_cons.mp hleads
      rw [cutRest]
      split_ifs
      · exact ih hmore
      · exact quote_notMem_getString_take (quote_notMem_of_isPlain hlead) n

/-- A value is not followed by a colon. -/
theorem isChain_value (hchain : strings.IsChain Follows) (hleads : ∀ a ∈ strings, IsPlain a.lead) :
    strings.tail.IsChain fun a b =>
      isValueLead (ofChars a.lead) = true → (ofChars b.lead).head? ≠ some colon := by
  induction strings with
  | nil => exact List.isChain_nil
  | cons a more ih =>
      rcases more with _ | ⟨b, _ | ⟨c, more⟩⟩
      · exact List.isChain_nil
      · exact List.isChain_singleton _
      · refine List.isChain_cons_cons.mpr ⟨?_, ih hchain.tail (List.forall_mem_cons.mp hleads).2⟩
        have hfollows := (List.isChain_cons_cons.mp hchain).1
        have hnext := (List.isChain_cons_cons.mp hchain.tail).1
        have hplain : IsPlain c.lead := hleads c (by simp)
        intro hvalue hhead
        have hb := (isValueLead_iff_of_follows hfollows (hleads b (by simp))).mp hvalue
        exact (not_isValue_of_follows hnext hb.1).2 (head?_of_head?_ofChars hplain hhead)

/-- The patterns find in the first bytes of a JSON text what `maskPieces` says. -/
theorem scannable_cutPieces {name : Text} (hname : IsName name) {w : Written σ} (h : w.Sound)
    (n : Nat) :
    Scannable name (cutPieces content n w.strings) (cutRest content n w.strings w.rest) where
  rest_free := quote_notMem_cutRest h.lead h.rest
  lead_free p hp := by
    obtain ⟨a, ha, m, rfl⟩ := exists_of_mem_cutPieces hp
    rw [quote_mem_ofChars_iff]
    exact quote_notMem_of_isPlain (h.lead a ha)
  calm p hp := by
    obtain ⟨a, ha, m, rfl⟩ := exists_of_mem_cutPieces hp
    exact calm_visible hname m _
  last p hp := closed_or_of_getLast? hp
  next := isChain_cutPieces (R := fun _ lead => lead ≠ name)
    (fun hfollows => ofChars_lead_ne_name hfollows hname) h.chain n
  value := by
    have hvalue := isChain_value h.chain h.lead
    cases hstrings : w.strings with
    | nil => exact List.isChain_nil
    | cons a more =>
        rw [hstrings] at hvalue
        rw [cutPieces]
        split_ifs with hlead
        · exact (isChain_cutPieces (R := fun lead next => isValueLead lead = true →
            next.head? ≠ some colon) id hvalue _).imp fun _ _ hand => hand.2
        · exact List.isChain_nil

end Cuts

end SignalFxTracing.Integrations.ElasticsearchNetCommon
