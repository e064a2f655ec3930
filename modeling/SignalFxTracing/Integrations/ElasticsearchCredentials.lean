import SignalFxTracing.Integrations.StatementStrings

/-!
# Credentials in Elasticsearch statements

Two versions of a request that differ in the values of its `username` and
`password` members. The patterns hide of a value what stands before its first
quote, if the name is spelled out before a colon, and only if the first 1024 bytes
reach that quote.
-/

namespace SignalFxTracing.Integrations.ElasticsearchNetCommon

open Clr Lib.JsonText Trace

/-- The character of a short escape. -/
def escapedUnit : Char → UInt16
  | 'b' => 0x08
  | 'f' => 0x0C
  | 'n' => 0x0A
  | 'r' => 0x0D
  | 't' => 0x09
  | c => c.toNat.toUInt16

/-- What a content stands for. -/
def unescape : List Char → Text
  | [] => []
  | '\\' :: 'u' :: a :: b :: c :: d :: rest =>
      ((Lib.Hex.ofHex (ofChars [a, b, c, d])).getD 0).toUInt16 :: unescape rest
  | '\\' :: c :: rest => escapedUnit c :: unescape rest
  | c :: rest => utf16 c ++ unescape rest

def credentialNames : List Text := [username, password]

/-- A string with a content in each of two versions. -/
abbrev Twin := Content × Content

/-- The value of a `username` or `password` member. -/
def IsCredential (a : Placed Twin) : Prop :=
  ∃ key, a.role = .value key ∧ unescape key.1.chars ∈ credentialNames

/-- Two versions of a request body, with credentials of equal encoded length. -/
structure TwoVersions where
  document : Document Twin
  same : ∀ a ∈ document.write.strings, a.string.1 = a.string.2 ∨ IsCredential a
  length_eq : ∀ a ∈ document.write.strings,
    (utf8 a.string.1.chars).length = (utf8 a.string.2.chars).length

namespace TwoVersions

variable (v : TwoVersions)

def strings : List (Placed Twin) := v.document.write.strings

def body (content : Twin → Content) : List UInt8 :=
  utf8 (v.document.write.text fun s => (content s).chars)

/-- The tag does not tell one version from the other. -/
def SameStatement : Prop :=
  ∀ rt span trace,
    recordedStatement rt (v.body Prod.fst) span trace =
      recordedStatement rt (v.body Prod.snd) span trace

end TwoVersions

/-- The name is spelled out, and the colon is behind it. -/
def isHidden (a : Placed Twin) : Bool :=
  match a.role with
  | .value key =>
      arms credentialNames (ofChars key.1.chars ++ [quote]) && a.lead.head? == some ':'
  | _ => false

/-- What is read of two contents is the same, or the same from the first quote on. -/
def Agrees (hidden : Bool) (first second : Text) : Prop :=
  first = second ∨ hidden = true ∧ quote ∈ first ∧ quote ∈ second ∧
    first.dropWhile (· != quote) = second.dropWhile (· != quote)

/-- The byte at which a content starts. -/
def startOf (content : Twin → Content) (before : List (Placed Twin)) (a : Placed Twin) : Nat :=
  (before.map (placedBytes content)).sum + ((utf8 a.lead).length + 1)

/-- What is read of every credential agrees. -/
def TwoVersions.HidesCredentials (v : TwoVersions) : Prop :=
  ∀ before a after, v.strings = before ++ a :: after → IsCredential a →
    Agrees (isHidden a) (visible (1024 - startOf Prod.fst before a) a.string.1)
      (visible (1024 - startOf Prod.fst before a) a.string.2)

section Shown

variable (content : Twin → Content)

def shown (n : Nat) (a : Placed Twin) : Text :=
  if isHidden a then hide (visible n (content a.string)) else visible n (content a.string)

def shownPieces : Nat → List (Placed Twin) → List Piece
  | _, [] => []
  | n, a :: more =>
      if (utf8 a.lead).length < n then
        ⟨ofChars a.lead, shown content (n - ((utf8 a.lead).length + 1)) a⟩ ::
          shownPieces (n - placedBytes content a) more
      else []

variable {content} {n : Nat} {a b : Placed Twin} {strings : List (Placed Twin)}

theorem isHidden_eq_false (h : ¬ a.IsValue) : isHidden a = false := by
  cases hrole : a.role with
  | value key => exact absurd ⟨key, hrole⟩ h
  | _ => rw [isHidden, hrole]

theorem role_of_follows (h : Follows a b) (hvalue : b.IsValue) :
    a.role = .key ∧ b.role = .value a.string := by
  cases h with
  | value hkey hrole => exact ⟨hkey, hrole⟩
  | nextKey _ hkey =>
      obtain ⟨key, hrole⟩ := hvalue
      cases hkey.symm.trans hrole
  | other _ hno => exact absurd hvalue hno

/-- A value behind its key is hidden where the key is one of the names. -/
theorem isHidden_of_follows (h : Follows a b) (hplain : IsPlain b.lead) :
    isHidden b =
      (arms credentialNames (ofChars a.string.1.chars ++ [quote]) && isValueLead (ofChars b.lead)) := by
  have hlead := isValueLead_iff_of_follows h hplain
  by_cases hvalue : b.IsValue
  · have hhead : isValueLead (ofChars b.lead) = (b.lead.head? == some ':') := by
      rw [Bool.eq_iff_iff, hlead, beq_iff_eq]
      exact and_iff_right hvalue
    rw [hhead, isHidden, (role_of_follows h hvalue).2]
  · have hno : isValueLead (ofChars b.lead) = false :=
      Bool.eq_false_iff.mpr fun hyes => hvalue (hlead.mp hyes).1
    rw [isHidden_eq_false hvalue, hno, Bool.and_false]

@[simp] theorem shownPieces_zero (strings : List (Placed Twin)) :
    shownPieces content 0 strings = [] := by
  cases strings with
  | nil => rfl
  | cons a more => rw [shownPieces, if_neg (Nat.not_lt_zero _)]

theorem placedBytes_le (h : n - ((utf8 a.lead).length + 1) < bodyBytes (content a.string)) :
    n - placedBytes content a = 0 := by
  rw [placedBytes]
  omega

/-- What the patterns hide. -/
theorem maskPieces_cutPieces {armed : Bool} (hchain : strings.IsChain Follows)
    (hleads : ∀ a ∈ strings, IsPlain a.lead)
    (hkeys : ∀ a ∈ strings, ¬ a.IsValue → content a.string = a.string.1)
    (hfirst : ∀ a ∈ strings.head?, (armed && isValueLead (ofChars a.lead)) = isHidden a) :
    maskPieces credentialNames armed (cutPieces content n strings) =
      shownPieces content n strings := by
  induction strings generalizing n armed with
  | nil => rfl
  | cons a more ih =>
      obtain ⟨hkey, hkeys⟩ := List.forall_mem_cons.mp hkeys
      have hmore : maskPieces credentialNames
          (arms credentialNames (visible (n - ((utf8 a.lead).length + 1)) (content a.string)))
          (cutPieces content (n - placedBytes content a) more) =
            shownPieces content (n - placedBytes content a) more := by
        by_cases hbytes : bodyBytes (content a.string) ≤ n - ((utf8 a.lead).length + 1)
        · apply ih hchain.tail (List.forall_mem_cons.mp hleads).2 hkeys
          intro b hb
          cases more with
          | nil => cases hb
          | cons c more =>
              obtain rfl := Option.some.inj hb
              have hfollows := (List.isChain_cons_cons.mp hchain).1
              have hplain : IsPlain c.lead := hleads c (by simp)
              rw [visible_of_le hbytes]
              by_cases hvalue : a.IsValue
              · obtain ⟨hno, hhead⟩ := not_isValue_of_follows hfollows hvalue
                rw [isHidden_eq_false hno, not_isValueLead, Bool.and_false]
                intro hcolon
                exact hhead (head?_of_head?_ofChars hplain hcolon)
              · rw [isHidden_of_follows hfollows hplain, hkey hvalue]
        · rw [placedBytes_le (Nat.lt_of_not_le hbytes), cutPieces_zero, shownPieces_zero]
          rfl
      rw [cutPieces, shownPieces]
      split_ifs with hlead
      · rw [maskPieces, hfirst a rfl, hmore]
        rfl
      · rfl

end Shown

section Comparison

variable {first second : Twin → Content} {n k : Nat} {a b : Placed Twin}
  {strings more : List (Placed Twin)} {rest : List Char}

/-- What is recorded of the first bytes. -/
def shownText (content : Twin → Content) (n : Nat) (strings : List (Placed Twin))
    (rest : List Char) : Text :=
  textOf (shownPieces content n strings) (cutRest content n strings rest)

/-- Strings with two contents of equal length, which are the same but for values. -/
structure Comparable (first second : Twin → Content) (strings : List (Placed Twin))
    (rest : List Char) : Prop where
  chain : strings.IsChain Follows
  lead : ∀ a ∈ strings, IsPlain a.lead
  rest : IsPlain rest
  same : ∀ a ∈ strings, first a.string = second a.string ∨ a.IsValue
  bytes : ∀ a ∈ strings, bodyBytes (first a.string) = bodyBytes (second a.string)

theorem Comparable.symm (h : Comparable first second strings rest) :
    Comparable second first strings rest where
  chain := h.chain
  lead := h.lead
  rest := h.rest
  same a ha := (h.same a ha).imp_left Eq.symm
  bytes a ha := (h.bytes a ha).symm

theorem Comparable.of_cons (h : Comparable first second (a :: more) rest) :
    Comparable first second more rest where
  chain := h.chain.tail
  lead := (List.forall_mem_cons.mp h.lead).2
  rest := h.rest
  same := (List.forall_mem_cons.mp h.same).2
  bytes := (List.forall_mem_cons.mp h.bytes).2

theorem Comparable.placedBytes_eq (h : Comparable first second (a :: more) rest) :
    placedBytes second a = placedBytes first a := by
  rw [placedBytes, placedBytes, h.bytes a List.mem_cons_self]

theorem shownText_cons {content : Twin → Content} (h : (utf8 a.lead).length < n) :
    shownText content n (a :: more) rest =
      ofChars a.lead ++ quote :: (shown content (n - ((utf8 a.lead).length + 1)) a ++
        shownText content (n - placedBytes content a) more rest) := by
  rw [shownText, shownPieces, cutRest, if_pos h, if_pos h, textOf]
  rfl

theorem shownText_zero {content : Twin → Content} : shownText content 0 strings rest = [] := by
  rw [shownText, shownPieces_zero, cutRest_zero, textOf]

/-- Where a quote is recorded there is a string. -/
theorem exists_string_of_quote_mem {content : Twin → Content}
    (hleads : ∀ a ∈ strings, IsPlain a.lead) (hrest : IsPlain rest)
    (h : quote ∈ shownText content n strings rest) :
    ∃ a more, strings = a :: more ∧ (utf8 a.lead).length < n := by
  have hfree : quote ∉ cutRest content n strings rest := quote_notMem_cutRest hleads hrest
  cases strings with
  | nil => exact absurd h hfree
  | cons a more =>
      refine ⟨a, more, rfl, ?_⟩
      by_contra hlead
      rw [shownText, shownPieces, if_neg hlead, textOf] at h
      exact hfree h

theorem shown_of_not_isValue {content : Twin → Content} (h : ¬ a.IsValue) (n : Nat) :
    shown content n a = visible n (content a.string) := by
  rw [shown, isHidden_eq_false h, if_neg Bool.false_ne_true]

/-- Behind a value no text is read again after the content of a string. -/
theorem Comparable.not_continues (h : Comparable first second (a :: more) rest) (ha : a.IsValue)
    {content : Text} (hcontent : Escaped content) :
    shownText first k more rest ≠ content ++ quote :: shownText second k more rest := by
  intro heq
  have hmem : ∀ {text behind : Text}, text = content ++ quote :: behind → quote ∈ text := by
    rintro _ behind rfl
    exact List.mem_append_right _ List.mem_cons_self
  obtain ⟨b, more, rfl, hlead⟩ :=
    exists_string_of_quote_mem h.of_cons.lead h.rest (hmem heq)
  have hfollows := (List.isChain_cons_cons.mp h.chain).1
  have hno := (not_isValue_of_follows hfollows ha).1
  have hsame := (h.of_cons.same b List.mem_cons_self).resolve_right hno
  have hplain := h.of_cons.lead b List.mem_cons_self
  rw [shownText_cons hlead, shownText_cons hlead, h.of_cons.placedBytes_eq,
    shown_of_not_isValue hno, shown_of_not_isValue hno, ← hsame] at heq
  obtain ⟨rfl, hbody⟩ := (escaped_of_isPlain hplain).unique hcontent heq
  by_cases hbytes : bodyBytes (first b.string) ≤ k - ((utf8 b.lead).length + 1)
  · rw [visible_of_le hbytes, List.append_assoc] at hbody
    obtain ⟨hlead', hbehind⟩ :=
      (escaped_ofChars (first b.string).isContent).unique hcontent hbody
    rw [hlead', List.append_assoc] at hbehind
    obtain ⟨c, more, rfl, hnext⟩ :=
      exists_string_of_quote_mem h.of_cons.of_cons.lead h.rest (hmem hbehind)
    have hplain' : IsPlain c.lead := h.lead c (by simp)
    rw [shownText_cons hnext] at hbehind
    have hleads := ((escaped_of_isPlain hplain').unique hcontent hbehind).1
    apply lead_ne_of_follows hfollows ha (List.isChain_cons_cons.mp h.of_cons.chain).1
    exact ofChars_inj_of_lt (fun c hc => lt_of_isPlainChar (hplain' c hc))
      (fun c hc => lt_of_isPlainChar (hplain c hc)) hleads
  · rw [placedBytes_le (Nat.lt_of_not_le hbytes), shownText_zero, shownText_zero,
      List.append_nil] at hbody
    have hlength := congrArg List.length hbody
    rw [List.length_append, List.length_cons] at hlength
    omega

/-- Of a hidden content what is behind its first quote stays. -/
theorem hide_content {content : Text} (h : Escaped content) :
    (∀ tail, hide (content ++ [quote]) ++ tail = replacement ++ quote :: tail) ∨
      ∃ d, Escaped d ∧
        ∀ tail, hide (content ++ [quote]) ++ tail = replacement ++ quote :: (d ++ quote :: tail) := by
  by_cases hmem : quote ∈ content
  · obtain ⟨group, d, rfl, hgroup⟩ := exists_of_quote_mem hmem
    refine Or.inr ⟨d, h.behind_quote hgroup, ?_⟩
    intro tail
    rw [List.append_assoc, List.cons_append, hide_append hgroup]
    simp
  · refine Or.inl ?_
    intro tail
    rw [hide_append hmem]
    simp

theorem Comparable.hide_eq (h : Comparable first second (a :: more) rest) (ha : a.IsValue)
    {content other : Text} (hcontent : Escaped content) (hother : Escaped other)
    (heq : hide (content ++ [quote]) ++ shownText first k more rest =
      hide (other ++ [quote]) ++ shownText second k more rest) :
    hide (content ++ [quote]) = hide (other ++ [quote]) := by
  have hcancel : ∀ {tail behind : Text}, replacement ++ quote :: tail = replacement ++ quote :: behind →
      tail = behind :=
    fun heq => (List.cons.inj (List.append_cancel_left heq)).2
  rw [← List.append_nil (hide (content ++ [quote])), ← List.append_nil (hide (other ++ [quote]))]
  rcases hide_content hcontent with hfirst | ⟨d, hd, hfirst⟩
  · rcases hide_content hother with hsecond | ⟨e, he, hsecond⟩
    · rw [hfirst, hsecond]
    · rw [hfirst, hsecond] at heq
      exact absurd (hcancel heq) (h.not_continues ha he)
  · rcases hide_content hother with hsecond | ⟨e, he, hsecond⟩
    · rw [hfirst, hsecond] at heq
      exact absurd (hcancel heq).symm (h.symm.not_continues ha hd)
    · rw [hfirst, hsecond] at heq
      rw [hfirst, hsecond, (hd.unique he (hcancel heq)).1]

/-- Where the same is recorded, the same is shown of the first string. -/
theorem Comparable.shown_eq (h : Comparable first second (a :: more) rest)
    (heq : shown first n a ++ shownText first (n - bodyBytes (first a.string)) more rest =
      shown second n a ++ shownText second (n - bodyBytes (first a.string)) more rest) :
    shown first n a = shown second n a := by
  rcases h.same a List.mem_cons_self with hsame | hvalue
  · rw [shown, shown, hsame]
  · have hlength := h.bytes a List.mem_cons_self
    by_cases hbytes : bodyBytes (first a.string) ≤ n
    · have hcontent := escaped_ofChars (first a.string).isContent
      have hother := escaped_ofChars (second a.string).isContent
      rw [shown, shown, visible_of_le hbytes, visible_of_le (hlength ▸ hbytes)] at heq ⊢
      split_ifs at heq ⊢ with hhidden
      · exact h.hide_eq hvalue hcontent hother heq
      · rw [List.append_assoc, List.append_assoc] at heq
        rw [(hcontent.unique hother heq).1]
    · rw [Nat.sub_eq_zero_of_le (Nat.le_of_not_le hbytes), shownText_zero, shownText_zero,
        List.append_nil, List.append_nil] at heq
      exact heq

theorem startOf_nil (content : Twin → Content) (a : Placed Twin) :
    startOf content [] a = (utf8 a.lead).length + 1 := Nat.zero_add _

theorem startOf_cons (content : Twin → Content) (b : Placed Twin) (before : List (Placed Twin))
    (a : Placed Twin) :
    startOf content (b :: before) a = placedBytes content b + startOf content before a := by
  rw [startOf, List.map_cons, List.sum_cons, Nat.add_assoc]
  rfl

theorem shown_zero (content : Twin → Content) (a : Placed Twin) : shown content 0 a = [] := by
  have hvisible : visible 0 (content a.string) = [] := getString_nil
  rw [shown, hvisible]
  split_ifs
  · rfl
  · rfl

theorem sub_placedBytes (content : Twin → Content) (n : Nat) (a : Placed Twin) :
    n - placedBytes content a = n - ((utf8 a.lead).length + 1) - bodyBytes (content a.string) :=
  (Nat.sub_sub _ _ _).symm

/-- The same is recorded exactly where the same is shown of every string. -/
theorem Comparable.shownText_eq_iff (h : Comparable first second strings rest) :
    shownText first n strings rest = shownText second n strings rest ↔
      ∀ before a after, strings = before ++ a :: after →
        shown first (n - startOf first before a) a =
          shown second (n - startOf first before a) a := by
  induction strings generalizing n with
  | nil =>
      refine iff_of_true rfl ?_
      intro before a after hsplit
      cases (List.append_eq_nil_iff.mp hsplit.symm).2
  | cons a more ih =>
      have hsplits : (∀ before b after, a :: more = before ++ b :: after →
            shown first (n - startOf first before b) b =
              shown second (n - startOf first before b) b) ↔
          shown first (n - ((utf8 a.lead).length + 1)) a =
              shown second (n - ((utf8 a.lead).length + 1)) a ∧
            shownText first (n - placedBytes first a) more rest =
              shownText second (n - placedBytes first a) more rest := by
        rw [ih h.of_cons]
        constructor
        · intro hall
          constructor
          · rw [← startOf_nil first a]
            exact hall [] a more rfl
          · rintro before b after rfl
            have hshown := hall (a :: before) b after rfl
            rwa [startOf_cons, ← Nat.sub_sub] at hshown
        · rintro ⟨hfirst, hmore⟩ before b after hsplit
          cases before with
          | nil =>
              obtain ⟨rfl, rfl⟩ := List.cons.inj hsplit
              rw [startOf_nil]
              exact hfirst
          | cons c before =>
              obtain ⟨rfl, hbehind⟩ := List.cons.inj hsplit
              rw [startOf_cons, ← Nat.sub_sub]
              exact hmore before b after hbehind
      rw [hsplits]
      by_cases hlead : (utf8 a.lead).length < n
      · rw [shownText_cons hlead, shownText_cons hlead, h.placedBytes_eq]
        constructor
        · intro heq
          have hbody := (List.cons.inj (List.append_cancel_left heq)).2
          rw [sub_placedBytes] at hbody ⊢
          have hfirst := h.shown_eq hbody
          rw [hfirst] at hbody
          exact ⟨hfirst, List.append_cancel_left hbody⟩
        · rintro ⟨hfirst, hmore⟩
          rw [hfirst, hmore]
      · have hzero : n - ((utf8 a.lead).length + 1) = 0 := by omega
        have hplaced : n - placedBytes first a = 0 := by
          rw [sub_placedBytes, hzero, Nat.zero_sub]
        refine iff_of_true ?_ ?_
        · rw [shownText, shownText, shownPieces, shownPieces, cutRest, cutRest, if_neg hlead,
            if_neg hlead, if_neg hlead, if_neg hlead]
        · rw [hzero, hplaced, shown_zero, shown_zero, shownText_zero, shownText_zero]
          exact ⟨rfl, rfl⟩

end Comparison

section Versions

variable (v : TwoVersions)

theorem TwoVersions.sound : v.document.write.Sound := v.document.sound_write

theorem IsCredential.isValue {a : Placed Twin} (h : IsCredential a) : a.IsValue := by
  obtain ⟨key, hrole, -⟩ := h
  exact ⟨key, hrole⟩

/-- What is recorded of a version. -/
theorem TwoVersions.sanitizePostData_eq (content : Twin → Content)
    (hkeys : ∀ a ∈ v.strings, ¬ a.IsValue → content a.string = a.string.1) :
    sanitizePostData (decodePostData (v.body content)) =
      shownText content 1024 v.strings v.document.write.rest := by
  rw [decodePostData_eq, TwoVersions.body, getString_take_text,
    sanitizePostData_textOf (scannable_cutPieces isName_username v.sound 1024)
      (scannable_cutPieces isName_password v.sound 1024)]
  rw [shownText, TwoVersions.strings, ← maskPieces_cutPieces v.sound.chain v.sound.lead hkeys]
  · rfl
  · intro a ha
    rw [isHidden_eq_false (v.sound.first a ha), Bool.false_and]

theorem TwoVersions.comparable :
    Comparable Prod.fst Prod.snd v.strings v.document.write.rest where
  chain := v.sound.chain
  lead := v.sound.lead
  rest := v.sound.rest
  same a ha := (v.same a ha).imp_right IsCredential.isValue
  bytes a ha := by
    rw [bodyBytes, bodyBytes, utf8_append, utf8_append, List.length_append, List.length_append,
      v.length_eq a ha]

/-- The values agree exactly where the same is shown of them. -/
theorem agrees_iff {hidden : Bool} {x y : Text} :
    Agrees hidden x y ↔
      (if hidden then hide x else x) = (if hidden then hide y else y) := by
  have hmem : ∀ {x y : Text}, quote ∈ x → hide x = hide y → quote ∈ y := by
    intro x y hx heq
    by_contra hy
    obtain ⟨group, d, rfl, hgroup⟩ := exists_of_quote_mem hx
    rw [hide_append hgroup, hide_of_notMem hy] at heq
    exact hy (heq ▸ List.mem_append_right _ List.mem_cons_self)
  cases hidden with
  | false => simp [Agrees]
  | true =>
      rw [if_pos rfl, if_pos rfl]
      constructor
      · rintro (rfl | ⟨-, hx, hy, hdrop⟩)
        · rfl
        · rw [hide_of_mem hx, hide_of_mem hy, hdrop]
      · intro heq
        by_cases hx : quote ∈ x
        · have hy := hmem hx heq
          rw [hide_of_mem hx, hide_of_mem hy] at heq
          exact Or.inr ⟨rfl, hx, hy, List.append_cancel_left heq⟩
        · have hy : quote ∉ y := fun hy => hx (hmem hy heq.symm)
          rw [hide_of_notMem hx, hide_of_notMem hy] at heq
          exact Or.inl heq

/-- The tag is the same exactly where the same is shown of every string. -/
theorem TwoVersions.sameStatement_iff_shown :
    v.SameStatement ↔ ∀ before a after, v.strings = before ++ a :: after →
      shown Prod.fst (1024 - startOf Prod.fst before a) a =
        shown Prod.snd (1024 - startOf Prod.fst before a) a := by
  have hkeys : ∀ a ∈ v.strings, ¬ a.IsValue → a.string.2 = a.string.1 := by
    intro a ha hvalue
    rcases v.same a ha with hsame | hcredential
    · exact hsame.symm
    · exact absurd hcredential.isValue hvalue
  rw [TwoVersions.SameStatement, recordedStatement_eq_iff,
    v.sanitizePostData_eq Prod.fst fun _ _ _ => rfl, v.sanitizePostData_eq Prod.snd hkeys,
    v.comparable.shownText_eq_iff]

/-- The recorded statement hides the credentials exactly where what is read of them agrees. -/
theorem TwoVersions.sameStatement_iff : v.SameStatement ↔ v.HidesCredentials := by
  rw [v.sameStatement_iff_shown]
  constructor
  · intro h before a after hsplit _
    exact agrees_iff.mpr (h before a after hsplit)
  · intro h before a after hsplit
    have ha : a ∈ v.strings := by
      rw [hsplit]
      exact List.mem_append_right _ List.mem_cons_self
    rcases v.same a ha with hsame | hcredential
    · rw [shown, shown, hsame]
    · exact agrees_iff.mp (h before a after hsplit hcredential)

end Versions

section EscapedQuote

def noBlanks : Blanks := ⟨[], List.forall_mem_nil _⟩

theorem isContent_of_plain {s : List Char}
    (h : (s.all fun c => c != '"' && c != '\\' && 0x20 ≤ c.toNat) = true) : IsContent s := by
  induction s with
  | nil => exact .nil
  | cons c s ih =>
      simp only [List.all_cons, Bool.and_eq_true, bne_iff_ne, decide_eq_true_eq] at h
      obtain ⟨⟨⟨hquote, hbackslash⟩, hcontrol⟩, hs⟩ := h
      exact .plain hquote hbackslash hcontrol (ih (by simpa using hs))

def passwordKey : Content := ⟨"password".toList, isContent_of_plain (by decide)⟩

/-- A password that starts with a quote. -/
def quotedPasswordA : Content :=
  ⟨['\\', '"', 'a'], .escape List.mem_cons_self (isContent_of_plain (by decide))⟩

def quotedPasswordB : Content :=
  ⟨['\\', '"', 'b'], .escape List.mem_cons_self (isContent_of_plain (by decide))⟩

/-- The bodies `{"password":"\"a"}` and `{"password":"\"b"}`. -/
def quotedDocument : Document Twin where
  before := noBlanks
  value := .object noBlanks (passwordKey, passwordKey) noBlanks noBlanks
    (.string (quotedPasswordA, quotedPasswordB)) noBlanks .nil
  after := noBlanks

def quotedKey : Placed Twin := ⟨['{'], .key, (passwordKey, passwordKey)⟩

def quotedValue : Placed Twin :=
  ⟨[':'], .value (passwordKey, passwordKey), (quotedPasswordA, quotedPasswordB)⟩

theorem strings_quotedDocument : quotedDocument.write.strings = [quotedKey, quotedValue] := rfl

def quotedPasswords : TwoVersions where
  document := quotedDocument
  same := by
    rw [strings_quotedDocument, List.forall_mem_cons, List.forall_mem_singleton]
    exact ⟨Or.inl rfl, Or.inr ⟨_, rfl, by decide⟩⟩
  length_eq := by
    rw [strings_quotedDocument, List.forall_mem_cons, List.forall_mem_singleton]
    exact ⟨rfl, rfl⟩

/-- What stands behind an escaped quote is recorded. -/
theorem not_sameStatement_quotedPasswords : ¬ quotedPasswords.SameStatement := by
  intro h
  have hshown := quotedPasswords.sameStatement_iff_shown.mp h [quotedKey] quotedValue []
    strings_quotedDocument
  have hfirst : bodyBytes quotedPasswordA ≤ 1024 - startOf Prod.fst [quotedKey] quotedValue := by
    decide
  have hsecond : bodyBytes quotedPasswordB ≤ 1024 - startOf Prod.fst [quotedKey] quotedValue := by
    decide
  have hhidden : isHidden quotedValue = true := by decide
  rw [shown, shown, hhidden, if_pos rfl, if_pos rfl] at hshown
  change hide (visible _ quotedPasswordA) = hide (visible _ quotedPasswordB) at hshown
  rw [visible_of_le hfirst, visible_of_le hsecond] at hshown
  revert hshown
  decide

end EscapedQuote

end SignalFxTracing.Integrations.ElasticsearchNetCommon
