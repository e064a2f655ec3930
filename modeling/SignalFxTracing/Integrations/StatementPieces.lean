import SignalFxTracing.Integrations.ElasticsearchNetCommon
import Mathlib.Data.List.Chain

/-!
# Masking a statement piece by piece

A text is cut into strings and what stands between them. A match of a pattern is
the end of a string with a name, a lead that is a colon and white space, and the
next string up to the first quote inside it, which need not be the closing one.
-/

namespace SignalFxTracing.Integrations.ElasticsearchNetCommon

open Clr

/-- A string with the text before it. The body is what stands behind the opening quote, with the
closing one. -/
structure Piece where
  lead : Text
  body : Text

def textOf : List Piece → Text → Text
  | [], rest => rest
  | p :: more, rest => p.lead ++ quote :: (p.body ++ textOf more rest)

/-- A body whose group was replaced. -/
def hide (body : Text) : Text :=
  if quote ∈ body then replacement ++ body.dropWhile (· != quote) else body

/-- The string ends with a quote and one of the names. -/
def arms (names : List Text) (body : Text) : Bool :=
  names.any fun name => (quote :: (name ++ [quote])).isSuffixOf (quote :: body)

def isValueLead : Text → Bool
  | [] => false
  | c :: blanks => c == colon && blanks.all isWhiteSpace

def maskPieces (names : List Text) : Bool → List Piece → List Piece
  | _, [] => []
  | armed, p :: more =>
      { p with body := if armed && isValueLead p.lead then hide p.body else p.body } ::
        maskPieces names (arms names p.body) more

/-- The quoted name stands nowhere in a string but at its end. -/
def Calm (name body : Text) : Prop :=
  ∀ u v, quote :: body = u ++ quote :: (name ++ quote :: v) → v = []

def Closed (body : Text) : Prop := body.getLast? = some quote

/-- A name is a word of small letters. -/
structure IsName (name : Text) : Prop where
  ne_nil : name ≠ []
  letter : ∀ c ∈ name, 0x61 ≤ c ∧ c ≤ 0x7A

/-- The pieces in which the pattern of a name finds what `maskPieces` says. -/
structure Scannable (name : Text) (pieces : List Piece) (rest : Text) : Prop where
  rest_free : quote ∉ rest
  lead_free : ∀ p ∈ pieces, quote ∉ p.lead
  calm : ∀ p ∈ pieces, Calm name p.body
  last : ∀ p ∈ pieces.getLast?, Closed p.body ∨ rest = []
  next : pieces.IsChain fun p q => Closed p.body ∧ q.lead ≠ name
  value : pieces.tail.IsChain fun p q => isValueLead p.lead = true → q.lead.head? ≠ some colon

section Bodies

variable {name body : Text}

theorem hide_of_mem (h : quote ∈ body) :
    hide body = replacement ++ body.dropWhile (· != quote) := if_pos h

theorem hide_of_notMem (h : quote ∉ body) : hide body = body := if_neg h

/-- What is behind the first quote stays. -/
theorem hide_append {group d : Text} (h : quote ∉ group) :
    hide (group ++ quote :: d) = replacement ++ quote :: d := by
  have hdrop : (group ++ quote :: d).dropWhile (· != quote) = quote :: d := by
    rw [List.dropWhile_append_of_pos, List.dropWhile_cons_of_neg]
    · simp
    · intro c hc
      apply bne_iff_ne.mpr
      rintro rfl
      exact h hc
  rw [hide_of_mem (List.mem_append_right _ List.mem_cons_self), hdrop]

theorem exists_of_quote_mem (h : quote ∈ body) :
    ∃ group d, body = group ++ quote :: d ∧ quote ∉ group := by
  obtain ⟨group, d, hsplit, hgroup⟩ := List.eq_append_cons_of_mem h
  exact ⟨group, d, hsplit, hgroup⟩

theorem quote_notMem_replacement : quote ∉ replacement := by decide

@[simp] theorem hide_hide (body : Text) : hide (hide body) = hide body := by
  by_cases h : quote ∈ body
  · obtain ⟨group, d, rfl, hgroup⟩ := exists_of_quote_mem h
    rw [hide_append hgroup, hide_append quote_notMem_replacement]
  · rw [hide_of_notMem h, hide_of_notMem h]

theorem Closed.quote_mem (h : Closed body) : quote ∈ body := List.mem_of_getLast? h

theorem IsName.notMem (h : IsName name) {c : UInt16} (hc : ¬ (0x61 ≤ c ∧ c ≤ 0x7A)) : c ∉ name :=
  fun hmem => hc (h.letter c hmem)

theorem Closed.hide (h : Closed body) : Closed (hide body) := by
  obtain ⟨group, d, rfl, hgroup⟩ := exists_of_quote_mem h.quote_mem
  rw [Closed, List.getLast?_append_of_ne_nil _ (List.cons_ne_nil _ _)] at h
  rw [hide_append hgroup, Closed, List.getLast?_append_of_ne_nil _ (List.cons_ne_nil _ _), h]

theorem Calm.hide (hname : IsName name) (h : Calm name body) : Calm name (hide body) := by
  by_cases hmem : quote ∈ body
  · obtain ⟨group, d, rfl, hgroup⟩ := exists_of_quote_mem hmem
    rw [hide_append hgroup]
    intro u v huv
    obtain ⟨c, others, rfl⟩ := List.exists_cons_of_ne_nil hname.ne_nil
    cases u with
    | nil =>
        obtain rfl := (List.cons.inj (List.cons.inj huv).2).1
        exact absurd List.mem_cons_self (hname.notMem (by decide))
    | cons a u =>
        obtain ⟨rfl, hbehind⟩ := List.cons.inj huv
        cases u with
        | nil => cases (List.cons.inj hbehind).1
        | cons b u =>
            have hd : quote :: d = u ++ quote :: (c :: others ++ quote :: v) :=
              (List.cons.inj hbehind).2
            apply h (quote :: (group ++ u))
            rw [hd, ← List.append_assoc]
            rfl
  · rw [hide_of_notMem hmem]
    exact h

end Bodies

/-- A text is cut at its first quote in one way. -/
theorem eq_of_append_quote {u v s t : Text} (hu : quote ∉ u) (hv : quote ∉ v)
    (h : u ++ quote :: s = v ++ quote :: t) : u = v ∧ s = t := by
  rcases List.append_eq_append_iff.mp h with ⟨c, rfl, hc⟩ | ⟨c, rfl, hc⟩
  · cases c with
    | nil => exact ⟨(List.append_nil u).symm, (List.cons.inj hc).2⟩
    | cons a c =>
        obtain rfl := (List.cons.inj hc).1
        exact absurd (List.mem_append_right _ List.mem_cons_self) hv
  · cases c with
    | nil => exact ⟨List.append_nil v, (List.cons.inj hc).2.symm⟩
    | cons a c =>
        obtain rfl := (List.cons.inj hc).1
        exact absurd (List.mem_append_right _ List.mem_cons_self) hu

section Matches

variable {name lead body w behind blanks group tail : Text}

/-- A match that starts inside a string starts at its end. -/
theorem MatchesAt.at_end (hname : IsName name) (hlead : quote ∉ lead) (hcalm : Calm name body)
    (hbehind : behind = [] ∨ Closed body ∧ ∀ t, behind ≠ name ++ quote :: t)
    (hw : w <:+ lead ++ quote :: body) (hne : w ≠ [])
    (h : MatchesAt name (w ++ behind) blanks group tail) :
    ∃ u, quote :: body = u ++ quote :: (name ++ [quote]) ∧ w = quote :: (name ++ [quote]) ∧
      behind = colon :: (blanks ++ quote :: (group ++ quote :: tail)) := by
  have hfree : quote ∉ name := hname.notMem (by decide)
  obtain ⟨a, w, rfl⟩ := List.exists_cons_of_ne_nil hne
  obtain ⟨rfl, hsplit⟩ := List.cons.inj h.eq
  obtain ⟨u, hu⟩ : ∃ u, quote :: body = u ++ quote :: w := by
    obtain ⟨before, hbefore⟩ := hw
    rcases List.append_eq_append_iff.mp hbefore with ⟨c, rfl, hc⟩ | ⟨c, -, hc⟩
    · cases c with
      | nil => exact ⟨[], hc.symm⟩
      | cons b c =>
          obtain rfl := (List.cons.inj hc).1
          exact absurd (List.mem_append_right _ List.mem_cons_self) hlead
    · exact ⟨c, hc⟩
  have hlast : Closed body → quote ∉ w → w = [] := by
    intro hclosed hmem
    by_contra hnil
    have hend : (quote :: body).getLast? = some quote := by
      rw [List.getLast?_cons, hclosed, Option.getD_some]
    rw [hu, List.getLast?_append_of_ne_nil _ (List.cons_ne_nil _ _),
      List.getLast?_cons_of_ne_nil hnil] at hend
    exact hmem (List.mem_of_getLast? hend)
  rcases List.append_eq_append_iff.mp hsplit with ⟨c, rfl, hc⟩ | ⟨c, rfl, hc⟩
  · rcases hbehind with rfl | ⟨hclosed, hne⟩
    · cases (List.append_eq_nil_iff.mp hc.symm).2
    · obtain rfl := hlast hclosed fun hmem => hfree (List.mem_append_left _ hmem)
      exact absurd hc (hne _)
  · cases c with
    | nil =>
        rcases hbehind with rfl | ⟨hclosed, -⟩
        · cases hc
        · rw [List.append_nil] at hlast
          exact absurd (hlast hclosed hfree) hname.ne_nil
    | cons b c =>
        obtain ⟨rfl, hsplit'⟩ := List.cons.inj hc
        obtain rfl := hcalm u c hu
        exact ⟨u, hu, rfl, hsplit'.symm⟩

end Matches

section Scanning

variable {name rest : Text} {p q : Piece} {more : List Piece}

theorem isValueLead_iff {lead : Text} :
    isValueLead lead = true ↔ ∃ blanks, lead = colon :: blanks ∧ ∀ c ∈ blanks, isWhiteSpace c := by
  cases lead with
  | nil => simp [isValueLead]
  | cons c blanks => simp [isValueLead]

theorem not_isValueLead {lead : Text} (h : lead.head? ≠ some colon) : isValueLead lead = false := by
  apply Bool.eq_false_iff.mpr
  intro hlead
  obtain ⟨blanks, rfl, -⟩ := isValueLead_iff.mp hlead
  exact h rfl

/-- Where no quote is to be hidden behind a string it does not matter whether it is a name. -/
theorem maskPieces_congr (names : List Text)
    (h : ∀ q ∈ more.head?, isValueLead q.lead = true → quote ∉ q.body) (armed other : Bool) :
    maskPieces names armed more = maskPieces names other more := by
  cases more with
  | nil => rfl
  | cons q more =>
      have hbody : ∀ armed : Bool,
          (if armed && isValueLead q.lead then hide q.body else q.body) = q.body := by
        intro armed
        split_ifs with hmask
        · exact hide_of_notMem (h q rfl (Bool.and_eq_true_iff.mp hmask).2)
        · rfl
      rw [maskPieces, maskPieces, hbody, hbody]

theorem Scannable.of_cons (h : Scannable name (p :: more) rest) : Scannable name more rest where
  rest_free := h.rest_free
  lead_free q hq := h.lead_free q (List.mem_cons_of_mem p hq)
  calm q hq := h.calm q (List.mem_cons_of_mem p hq)
  last q hq := by
    apply h.last q
    rw [List.getLast?_cons, hq]
    rfl
  next := h.next.tail
  value := h.value.tail

/-- A string that is not closed is the end of the text. -/
theorem Scannable.closed_or (h : Scannable name (p :: more) rest) :
    textOf more rest = [] ∨ Closed p.body := by
  cases more with
  | nil => exact (h.last p rfl).symm
  | cons q more => exact Or.inr (List.isChain_cons_cons.mp h.next).1.1

/-- No name that is in quotes starts with the quote at the end of a string. -/
theorem Scannable.behind (h : Scannable name (p :: more) rest) (hname : IsName name) :
    textOf more rest = [] ∨ Closed p.body ∧ ∀ t, textOf more rest ≠ name ++ quote :: t := by
  have hfree : quote ∉ name := hname.notMem (by decide)
  refine h.closed_or.imp_right fun hclosed => ⟨hclosed, ?_⟩
  intro t ht
  cases more with
  | nil =>
      rw [textOf] at ht
      apply h.rest_free
      rw [ht]
      exact List.mem_append_right _ List.mem_cons_self
  | cons q more =>
      have hfree' := h.lead_free q (List.mem_cons_of_mem p List.mem_cons_self)
      exact (List.isChain_cons_cons.mp h.next).1.2 (eq_of_append_quote hfree' hfree ht).1

/-- Behind the value of a key no match starts in the rest of the string. -/
theorem Scannable.gives_behind_value {d out : Text} (h : Scannable name (p :: more) rest)
    (hname : IsName name) (hd : d <:+ p.body)
    (hvalue : ∀ q ∈ more.head?, q.lead.head? ≠ some colon)
    (hout : Gives name (textOf more rest) out) :
    Gives name (d ++ textOf more rest) (d ++ out) := by
  apply Gives.pass _ hout
  intro w hw hne blanks group tail hmatch
  have hsuffix : w <:+ p.lead ++ quote :: p.body :=
    (hw.trans hd).trans ((List.suffix_cons _ _).trans (List.suffix_append _ _))
  obtain ⟨-, -, -, hbehind⟩ := hmatch.at_end hname (h.lead_free p List.mem_cons_self)
    (h.calm p List.mem_cons_self) (h.behind hname) hsuffix hne
  cases more with
  | nil =>
      apply h.rest_free
      rw [textOf] at hbehind
      rw [hbehind]
      simp
  | cons q more =>
      have hfree := h.lead_free q (List.mem_cons_of_mem p List.mem_cons_self)
      apply hvalue q rfl
      rw [textOf] at hbehind
      cases hlead : q.lead with
      | nil =>
          rw [hlead] at hbehind
          cases (List.cons.inj hbehind).1
      | cons c others =>
          rw [hlead] at hbehind
          rw [(List.cons.inj hbehind).1]
          rfl

/-- A match at the end of a string reaches into the next one. -/
theorem Scannable.next_eq {blanks group tail : Text} (h : Scannable name (p :: more) rest)
    (hblank : ∀ c ∈ blanks, isWhiteSpace c = true) (hgroup : quote ∉ group)
    (hbehind : textOf more rest = colon :: (blanks ++ quote :: (group ++ quote :: tail))) :
    ∃ q others d, more = q :: others ∧ q.lead = colon :: blanks ∧ q.body = group ++ quote :: d ∧
      tail = d ++ textOf others rest := by
  cases more with
  | nil =>
      exfalso
      apply h.rest_free
      rw [textOf] at hbehind
      rw [hbehind]
      simp
  | cons q others =>
      have hfree : quote ∉ colon :: blanks := by
        rw [List.mem_cons, not_or]
        exact ⟨by decide, notMem_of_isWhiteSpace hblank⟩
      obtain ⟨hlead, hbody⟩ := eq_of_append_quote
        (h.lead_free q (List.mem_cons_of_mem p List.mem_cons_self)) hfree hbehind
      by_cases hmem : quote ∈ q.body
      · obtain ⟨first, d, hq, hfirst⟩ := exists_of_quote_mem hmem
        rw [hq, List.append_assoc] at hbody
        obtain ⟨rfl, htail⟩ := eq_of_append_quote hfirst hgroup hbody
        exact ⟨q, others, d, rfl, hlead, hq, htail.symm⟩
      · exfalso
        have hrest : textOf others rest = [] := by
          rcases h.of_cons.closed_or with hnil | hclosed
          · exact hnil
          · exact absurd hclosed.quote_mem hmem
        rw [hrest, List.append_nil] at hbody
        apply hmem
        rw [hbody]
        exact List.mem_append_right _ List.mem_cons_self

theorem arms_singleton_iff {body : Text} :
    arms [name] body = true ↔ ∃ u, quote :: body = u ++ quote :: (name ++ [quote]) := by
  simp only [arms, List.any_cons, List.any_nil, Bool.or_false, List.isSuffixOf_iff_suffix]
  exact exists_congr fun u => eq_comm

/-- The string is the name of the value that is in the next one. -/
def Shows (name : Text) (p : Piece) (more : List Piece) : Prop :=
  arms [name] p.body = true ∧ ∃ q ∈ more.head?, isValueLead q.lead = true ∧ quote ∈ q.body

/-- A match that starts in a string shows the next one. -/
theorem Scannable.shows {w blanks group tail : Text} (h : Scannable name (p :: more) rest)
    (hname : IsName name) (hw : w <:+ p.lead ++ quote :: p.body) (hne : w ≠ [])
    (hmatch : MatchesAt name (w ++ textOf more rest) blanks group tail) :
    w = quote :: (name ++ [quote]) ∧ Shows name p more := by
  obtain ⟨u, hu, rfl, hbehind⟩ := hmatch.at_end hname (h.lead_free p List.mem_cons_self)
    (h.calm p List.mem_cons_self) (h.behind hname) hw hne
  obtain ⟨q, others, d, rfl, hlead, hbody, -⟩ :=
    h.next_eq hmatch.blank hmatch.group_free hbehind
  refine ⟨rfl, arms_singleton_iff.mpr ⟨u, hu⟩, q, rfl, ?_, ?_⟩
  · exact isValueLead_iff.mpr ⟨blanks, hlead, hmatch.blank⟩
  · rw [hbody]
    exact List.mem_append_right _ List.mem_cons_self

/-- A string that shows no other one is kept. -/
theorem Scannable.gives_of_not_shows {out : Text} (h : Scannable name (p :: more) rest)
    (hname : IsName name) (hshows : ¬ Shows name p more) (hout : Gives name (textOf more rest) out) :
    Gives name (textOf (p :: more) rest) (p.lead ++ quote :: (p.body ++ out)) := by
  have hpass : Gives name ((p.lead ++ quote :: p.body) ++ textOf more rest)
      ((p.lead ++ quote :: p.body) ++ out) := by
    apply Gives.pass _ hout
    intro w hw hne blanks group tail hmatch
    exact hshows (h.shows hname hw hne hmatch).2
  rwa [List.append_assoc, List.append_assoc] at hpass

/-- Of a string that is shown only what is behind the first quote is kept. -/
theorem Scannable.gives_of_shows {out : Text} (h : Scannable name (p :: q :: more) rest)
    (hname : IsName name) (hshows : Shows name p (q :: more))
    (hout : Gives name (textOf more rest) out) :
    Gives name (textOf (p :: q :: more) rest)
      (p.lead ++ quote :: (p.body ++ (q.lead ++ quote :: (hide q.body ++ out)))) := by
  obtain ⟨harms, r, hr, hvalue, hmem⟩ := hshows
  obtain rfl := Option.some.inj hr
  obtain ⟨u, hu⟩ := arms_singleton_iff.mp harms
  obtain ⟨blanks, hlead, hblank⟩ := isValueLead_iff.mp hvalue
  obtain ⟨group, d, hbody, hgroup⟩ := exists_of_quote_mem hmem
  have hsplit : ∀ out, p.lead ++ quote :: (p.body ++ out) =
      (p.lead ++ u) ++ (quote :: (name ++ [quote]) ++ out) := by
    intro out
    rw [← List.cons_append, hu]
    simp
  have hd : Gives name (d ++ textOf more rest) (d ++ out) := by
    apply h.of_cons.gives_behind_value hname _ _ hout
    · rw [hbody]
      exact (List.suffix_cons quote d).trans (List.suffix_append group _)
    · intro r hr
      cases more with
      | nil => cases hr
      | cons s more =>
          obtain rfl := Option.some.inj hr
          exact (List.isChain_cons_cons.mp h.value).1 hvalue
  have hmatch : MatchesAt name (quote :: (name ++ [quote]) ++ textOf (q :: more) rest) blanks group
      (d ++ textOf more rest) := by
    refine ⟨?_, hblank, hgroup⟩
    rw [textOf, hlead, hbody]
    simp
  have hfound := Gives.found hmatch hd
  have hshown : quote :: (name ++ quote :: colon :: (blanks ++ quote :: (replacement ++
      quote :: (d ++ out)))) =
      quote :: (name ++ [quote]) ++ (q.lead ++ quote :: (hide q.body ++ out)) := by
    rw [hlead, hbody, hide_append hgroup]
    simp
  rw [hshown] at hfound
  rw [textOf, hsplit, hsplit]
  apply Gives.pass _ hfound
  intro w hw hne blanks group tail hmatch
  rw [← List.append_assoc] at hmatch
  have hsuffix : w ++ quote :: (name ++ [quote]) <:+ p.lead ++ quote :: p.body := by
    obtain ⟨t, ht⟩ := hw
    refine ⟨t, ?_⟩
    rw [hu, ← List.append_assoc, ← List.append_assoc, ht]
  have hend := (h.shows hname hsuffix (List.append_ne_nil_of_left_ne_nil hne _) hmatch).1
  exact hne (List.append_left_eq_self.mp hend)

/-- The pattern of a name hides what `maskPieces` hides. -/
theorem gives_maskPieces (hname : IsName name) : ∀ {pieces : List Piece},
    Scannable name pieces rest →
    Gives name (textOf pieces rest) (textOf (maskPieces [name] false pieces) rest)
  | [], h => by
      have hpass : Gives name (rest ++ []) (rest ++ []) := by
        apply Gives.pass _ Gives.nil
        intro w hw _ blanks group tail hmatch
        have hmem : quote ∈ w ++ [] := hmatch.eq ▸ List.mem_cons_self
        rw [List.append_nil] at hmem
        exact h.rest_free (hw.subset hmem)
      rwa [List.append_nil] at hpass
  | [p], h => by
      apply h.gives_of_not_shows hname _ (gives_maskPieces hname h.of_cons)
      rintro ⟨-, q, hq, -⟩
      cases hq
  | p :: q :: more, h => by
      by_cases hshows : Shows name p (q :: more)
      · have hmore := gives_maskPieces hname h.of_cons.of_cons
        have hgives := h.gives_of_shows hname hshows hmore
        obtain ⟨harms, r, hr, hvalue, -⟩ := hshows
        obtain rfl := Option.some.inj hr
        rw [maskPieces_congr [name] _ false (arms [name] q.body)] at hgives
        · rw [maskPieces, maskPieces, harms, hvalue]
          exact hgives
        · intro r hr hother
          cases more with
          | nil => cases hr
          | cons s more =>
              obtain rfl := Option.some.inj hr
              have hhead := (List.isChain_cons_cons.mp h.value).1 hvalue
              rw [not_isValueLead hhead] at hother
              cases hother
      · have hmore := gives_maskPieces hname h.of_cons
        have hgives := h.gives_of_not_shows hname hshows hmore
        by_cases harms : arms [name] p.body = true
        · rw [maskPieces_congr [name] _ false (arms [name] p.body)] at hgives
          · exact hgives
          · intro r hr hvalue hmem
            exact hshows ⟨harms, r, hr, hvalue, hmem⟩
        · rw [maskPieces, Bool.eq_false_of_not_eq_true harms]
          exact hgives

end Scanning

section Passes

variable {name rest : Text} {names others : List Text} {armed other : Bool} {p q : Piece}
  {pieces : List Piece}

/-- What a piece may become. -/
def Masks (p q : Piece) : Prop := q.lead = p.lead ∧ (q.body = p.body ∨ q.body = hide p.body)

theorem masks_head (p : Piece) (armed : Bool) :
    Masks p { p with body := if armed && isValueLead p.lead then hide p.body else p.body } := by
  refine ⟨rfl, ?_⟩
  dsimp only
  split_ifs
  · exact Or.inr rfl
  · exact Or.inl rfl

theorem Masks.closed (h : Masks p q) (hp : Closed p.body) : Closed q.body := by
  obtain ⟨-, hbody | hbody⟩ := h
  · rwa [hbody]
  · rw [hbody]
    exact hp.hide

theorem exists_masks_of_mem (hq : q ∈ maskPieces names armed pieces) :
    ∃ p ∈ pieces, Masks p q := by
  induction pieces generalizing armed with
  | nil => cases hq
  | cons p more ih =>
      rcases List.mem_cons.mp hq with rfl | hq
      · exact ⟨p, List.mem_cons_self, masks_head p armed⟩
      · obtain ⟨r, hr, hmask⟩ := ih hq
        exact ⟨r, List.mem_cons_of_mem p hr, hmask⟩

theorem exists_masks_of_mem_getLast? (hq : q ∈ (maskPieces names armed pieces).getLast?) :
    ∃ p ∈ pieces.getLast?, Masks p q := by
  induction pieces generalizing armed with
  | nil => cases hq
  | cons p more ih =>
      cases more with
      | nil =>
          obtain rfl := Option.some.inj hq
          exact ⟨p, rfl, masks_head p armed⟩
      | cons r more => exact ih hq

theorem isChain_maskPieces {R S : Piece → Piece → Prop}
    (hRS : ∀ {p q p' q'}, Masks p p' → Masks q q' → R p q → S p' q') (h : pieces.IsChain R) :
    (maskPieces names armed pieces).IsChain S := by
  induction pieces generalizing armed with
  | nil => exact List.isChain_nil
  | cons p more ih =>
      cases more with
      | nil => exact List.isChain_singleton _
      | cons r more =>
          obtain ⟨hfirst, hmore⟩ := List.isChain_cons_cons.mp h
          exact List.isChain_cons_cons.mpr ⟨hRS (masks_head p _) (masks_head r _) hfirst, ih hmore⟩

theorem tail_maskPieces (names : List Text) (armed : Bool) (p : Piece) (more : List Piece) :
    (maskPieces names armed (p :: more)).tail = maskPieces names (arms names p.body) more := rfl

/-- What is hidden leaves the pieces as they have to be. -/
theorem Scannable.maskPieces (hname : IsName name) (h : Scannable name pieces rest)
    (names : List Text) : Scannable name (maskPieces names armed pieces) rest where
  rest_free := h.rest_free
  lead_free q hq := by
    obtain ⟨p, hp, hlead, -⟩ := exists_masks_of_mem hq
    rw [hlead]
    exact h.lead_free p hp
  calm q hq := by
    obtain ⟨p, hp, -, hbody | hbody⟩ := exists_masks_of_mem hq
    · rw [hbody]
      exact h.calm p hp
    · rw [hbody]
      exact (h.calm p hp).hide hname
  last q hq := by
    obtain ⟨p, hp, hmask⟩ := exists_masks_of_mem_getLast? hq
    exact (h.last p hp).imp_left hmask.closed
  next := by
    apply isChain_maskPieces _ h.next
    rintro p q p' q' hp hq ⟨hclosed, hlead⟩
    exact ⟨hp.closed hclosed, hq.1 ▸ hlead⟩
  value := by
    cases pieces with
    | nil => exact List.isChain_nil
    | cons p more =>
        rw [tail_maskPieces]
        apply isChain_maskPieces _ h.value
        intro p q p' q' hp hq hvalue
        rw [hp.1, hq.1]
        exact hvalue

theorem arms_append (names others : List Text) (body : Text) :
    arms (names ++ others) body = (arms names body || arms others body) := List.any_append

/-- The values in the pieces stand behind the colon of a key that is no value. -/
def ValuesApart (pieces : List Piece) : Prop :=
  pieces.IsChain fun p q => isValueLead p.lead = true → q.lead.head? ≠ some colon

theorem ValuesApart.maskPieces_congr (h : ValuesApart (p :: pieces))
    (hvalue : isValueLead p.lead = true) (armed other : Bool) :
    ElasticsearchNetCommon.maskPieces names armed pieces =
      ElasticsearchNetCommon.maskPieces names other pieces := by
  apply ElasticsearchNetCommon.maskPieces_congr
  intro q hq hother
  cases pieces with
  | nil => cases hq
  | cons r more =>
      obtain rfl := Option.some.inj hq
      rw [not_isValueLead ((List.isChain_cons_cons.mp h).1 hvalue)] at hother
      cases hother

/-- Two passes hide what one pass with the names of both hides. -/
theorem maskPieces_maskPieces (h : ValuesApart pieces) :
    maskPieces others other (maskPieces names armed pieces) =
      maskPieces (names ++ others) (armed || other) pieces := by
  induction pieces generalizing armed other with
  | nil => rfl
  | cons p more ih =>
      rw [maskPieces, maskPieces, maskPieces, ih h.tail]
      dsimp only
      congr 1
      · cases armed <;> cases other <;> cases isValueLead p.lead <;> simp
      · by_cases hvalue : isValueLead p.lead = true
        · exact h.maskPieces_congr hvalue _ _
        · rw [Bool.eq_false_of_not_eq_true hvalue, Bool.and_false, if_neg Bool.false_ne_true,
            arms_append]

/-- The first string is no value. -/
theorem maskPieces_maskPieces_false (h : ValuesApart pieces.tail) :
    maskPieces others false (maskPieces names false pieces) =
      maskPieces (names ++ others) false pieces := by
  cases pieces with
  | nil => rfl
  | cons p more =>
      have hmore : ValuesApart more := h
      rw [maskPieces, maskPieces, maskPieces, maskPieces_maskPieces hmore, arms_append]
      rfl

theorem isName_of_all (hne : name ≠ []) (h : (name.all fun c => 0x61 ≤ c && c ≤ 0x7A) = true) :
    IsName name := by
  refine ⟨hne, ?_⟩
  intro c hc
  have hletter := List.all_eq_true.mp h c hc
  rwa [Bool.and_eq_true, decide_eq_true_iff, decide_eq_true_iff] at hletter

theorem isName_username : IsName username := isName_of_all (by decide) (by decide)

theorem isName_password : IsName password := isName_of_all (by decide) (by decide)

/-- What the patterns make of pieces. -/
theorem sanitizePostData_textOf (husername : Scannable username pieces rest)
    (hpassword : Scannable password pieces rest) :
    sanitizePostData (textOf pieces rest) =
      textOf (maskPieces [username, password] false pieces) rest := by
  have hfirst := gives_maskPieces isName_username husername none
  have hmasked : Scannable password (maskPieces [username] false pieces) rest :=
    Scannable.maskPieces isName_password hpassword [username]
  have hsecond := gives_maskPieces isName_password hmasked none
  rw [maskPieces_maskPieces_false hpassword.value] at hsecond
  rw [sanitizePostData, sanitizePatterns, List.foldl_cons, List.foldl_cons, List.foldl_nil, hfirst,
    hsecond]
  rfl

end Passes

end SignalFxTracing.Integrations.ElasticsearchNetCommon
