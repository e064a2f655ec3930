import SignalFxTracing.Clr.Utf8
import SignalFxTracing.Lib.RegexGroup
import SignalFxTracing.Trace.Span

/-!
# Statements of Elasticsearch requests (`ElasticsearchNetCommon.cs`)

The post data is decoded from its first 1024 bytes, and in every match of the
patterns the group is replaced: what stands between the quote behind the colon
and the next quote.
-/

namespace SignalFxTracing.Integrations.ElasticsearchNetCommon

open Clr Lib Lib.Regex Trace

def quote : UInt16 := 0x22

def colon : UInt16 := 0x3A

/-- The pattern `"name":\s*"([^"]*)"`. -/
def sanitizePattern (name : Text) : GroupPattern UInt16 where
  start := seq (word quote (name ++ [quote, colon]))
    (seq (star (one isWhiteSpace)) (one (· == quote)))
  group := star (one (· != quote))
  finish := one (· == quote)

def username : Text := text "username"

def password : Text := text "password"

def sanitizePatterns : List (GroupPattern UInt16) :=
  [sanitizePattern username, sanitizePattern password]

def replacement : Text := text "?"

/-- `SanitizePostData`. -/
def sanitizePostData (data : Text) : Text :=
  sanitizePatterns.foldl (fun data pattern => pattern.replace replacement none data) data

/-- The post data of `SetDbStatement`. -/
def decodePostData (writtenBytes : List UInt8) : Text :=
  if writtenBytes.length > 1024 then getString (writtenBytes.take 1024) else getString writtenBytes

/-- `SetDbStatement` on a span; `none` is an exception. -/
def setDbStatement (rt : Runtime) (writtenBytes : Option (List UInt8)) (span : Span)
    (trace : TraceContext) : Option (Span × TraceContext) :=
  match writtenBytes with
  | none => some (span, trace)
  | some writtenBytes =>
      span.setTag rt Tags.dbStatement (some (sanitizePostData (decodePostData writtenBytes))) trace

/-- The tag that is recorded. -/
def recordedStatement (rt : Runtime) (writtenBytes : List UInt8) (span : Span)
    (trace : TraceContext) : Option (Option Text) :=
  (setDbStatement rt (some writtenBytes) span trace).map fun after =>
    after.1.getTag Tags.dbStatement

theorem decodePostData_eq (writtenBytes : List UInt8) :
    decodePostData writtenBytes = getString (writtenBytes.take 1024) := by
  rw [decodePostData]
  split_ifs with hlong
  · rfl
  · rw [List.take_of_length_le (Nat.le_of_not_lt hlong)]

/-- The tags are the same on every span exactly when the statements are. -/
theorem recordedStatement_eq_iff {first second : List UInt8} :
    (∀ rt span trace, recordedStatement rt first span trace =
      recordedStatement rt second span trace) ↔
    sanitizePostData (decodePostData first) = sanitizePostData (decodePostData second) := by
  have hspecial : Tags.dbStatement ∉ Tags.specialKeys := by decide
  constructor
  · intro h
    have hstatement := h ⟨fun _ => none, id⟩
      (Span.create (SpanContext.create ⟨1, 2, 3, 4⟩ none none) none 0) (TraceContext.create none)
    rw [recordedStatement, recordedStatement, setDbStatement, setDbStatement,
      Span.setTag_eq_putTag _ hspecial _ rfl, Span.setTag_eq_putTag _ hspecial _ rfl] at hstatement
    simpa using hstatement
  · intro h rt span trace
    rw [recordedStatement, recordedStatement, setDbStatement, setDbStatement, h]

section Matches

variable {name s : Text} {previous : Option UInt16}

/-- The pattern of a name matches at the start of a text. -/
structure MatchesAt (name s blanks group tail : Text) : Prop where
  eq : s = quote :: (name ++ quote :: colon :: (blanks ++ quote :: (group ++ quote :: tail)))
  blank : ∀ c ∈ blanks, isWhiteSpace c = true
  group_free : quote ∉ group

theorem isWhiteSpace_quote : isWhiteSpace quote = false := by decide

theorem notMem_of_isWhiteSpace {blanks : Text} (h : ∀ c ∈ blanks, isWhiteSpace c = true) :
    quote ∉ blanks := by
  intro hmem
  have hquote := h quote hmem
  rw [isWhiteSpace_quote] at hquote
  cases hquote

/-- The parts of a match. -/
theorem MatchesAt.parts_eq {blanks group tail : Text} (h : MatchesAt name s blanks group tail) :
    (sanitizePattern name).parts previous s =
      [(name.length + blanks.length + 4, group.length, 1)] := by
  have hblanks : ∀ c ∈ blanks, (c == quote) = false := by
    intro c hc
    apply beq_eq_false_iff_ne.mpr
    rintro rfl
    exact notMem_of_isWhiteSpace h.blank hc
  have hgroup : ∀ c ∈ group, (c == quote) = false := by
    intro c hc
    apply beq_eq_false_iff_ne.mpr
    rintro rfl
    exact h.group_free hc
  have hopening : ∀ previous, (seq (star (one isWhiteSpace)) (one (· == quote))).lengths previous
      (blanks ++ quote :: (group ++ quote :: tail)) = [blanks.length + 1] := by
    intro previous
    rw [lengths, flatMap_lengths_star_one h.blank]
    · rw [List.drop_left]
      rfl
    · intro c hc
      obtain rfl := Option.some.inj hc
      exact isWhiteSpace_quote
    · intro m hm
      rw [lengths_one_drop_eq_nil hblanks hm]
      rfl
  have hword : s = quote ::
      ((name ++ [quote, colon]) ++ (blanks ++ quote :: (group ++ quote :: tail))) := by
    rw [h.eq, List.append_assoc]
    rfl
  have hlength : (name ++ [quote, colon]).length + 1 + (blanks.length + 1) =
      name.length + blanks.length + 4 := by
    rw [List.length_append, List.length_cons, List.length_singleton]
    omega
  have hstart : (sanitizePattern name).start.lengths previous s =
      [name.length + blanks.length + 4] := by
    rw [hword, sanitizePattern, lengths, lengths_word, List.flatMap_singleton,
      List.drop_succ_cons, List.drop_left, hopening, List.map_singleton, hlength]
  have hdrop : s.drop (name.length + blanks.length + 4) = group ++ quote :: tail := by
    rw [hword, ← hlength, ← List.drop_drop, List.drop_succ_cons, List.drop_left, ← List.drop_drop,
      List.drop_left]
    rfl
  rw [GroupPattern.parts, hstart, List.flatMap_singleton, hdrop]
  simp only [← List.drop_drop, hdrop]
  rw [sanitizePattern, flatMap_lengths_star_one]
  · rw [List.drop_left]
    rfl
  · intro c hc
    simp [bne, hgroup c hc]
  · intro c hc
    obtain rfl := Option.some.inj hc
    rfl
  · intro m hm
    rw [lengths_one_drop_eq_nil hgroup hm]
    rfl

theorem exists_matchesAt (h : (sanitizePattern name).parts previous s ≠ []) :
    ∃ blanks group tail, MatchesAt name s blanks group tail := by
  obtain ⟨⟨n, m, k⟩, hparts⟩ := List.exists_mem_of_ne_nil _ h
  obtain ⟨_, hstart, hbehindStart⟩ := List.mem_flatMap.mp hparts
  obtain ⟨_, hgroup, hbehindGroup⟩ := List.mem_flatMap.mp hbehindStart
  obtain ⟨_, hfinish, -⟩ := List.mem_map.mp hbehindGroup
  clear h hparts hbehindStart hbehindGroup
  obtain ⟨_, hword, hbehindWord⟩ := List.mem_flatMap.mp hstart
  obtain ⟨_, hopening, rfl⟩ := List.mem_map.mp hbehindWord
  clear hstart hbehindWord
  obtain ⟨rest, rfl, rfl⟩ := mem_lengths_word hword
  rw [← List.drop_drop, ← List.drop_drop] at hfinish
  rw [← List.drop_drop] at hgroup
  rw [List.drop_succ_cons, List.drop_left] at hopening hgroup hfinish
  obtain ⟨_, hblanks, hbehindBlanks⟩ := List.mem_flatMap.mp hopening
  obtain ⟨_, hquote, rfl⟩ := List.mem_map.mp hbehindBlanks
  clear hopening hbehindBlanks
  obtain ⟨blanks, rest, rfl, rfl, hblank⟩ := mem_lengths_star_one hblanks
  rw [← List.drop_drop] at hgroup hfinish
  rw [List.drop_left] at hquote hgroup hfinish
  obtain ⟨c, rest, rfl, hc, rfl⟩ := mem_lengths_one hquote
  obtain rfl := eq_of_beq hc
  rw [List.drop_succ_cons, List.drop_zero] at hgroup hfinish
  obtain ⟨group, rest, rfl, rfl, hfree⟩ := mem_lengths_star_one hgroup
  rw [List.drop_left] at hfinish
  obtain ⟨c, tail, rfl, hc, -⟩ := mem_lengths_one hfinish
  obtain rfl := eq_of_beq hc
  refine ⟨blanks, group, tail, ?_, hblank, ?_⟩
  · rw [List.append_assoc]
    rfl
  · intro hmem
    have hquote := hfree quote hmem
    rw [bne_self_eq_false] at hquote
    cases hquote

theorem parts_eq_nil (h : ∀ blanks group tail, ¬ MatchesAt name s blanks group tail) :
    (sanitizePattern name).parts previous s = [] := by
  by_contra hne
  obtain ⟨blanks, group, tail, hmatch⟩ := exists_matchesAt hne
  exact h blanks group tail hmatch

end Matches

/-- What becomes of a text, whatever stands before it. -/
def Gives (name s out : Text) : Prop :=
  ∀ previous, (sanitizePattern name).replace replacement previous s = out

namespace Gives

variable {name s out : Text}

theorem nil : Gives name [] [] := fun _ => rfl

/-- Text in which no match starts is kept. -/
theorem pass {u v : Text}
    (h : ∀ w, w <:+ u → w ≠ [] → ∀ blanks group tail, ¬ MatchesAt name (w ++ v) blanks group tail)
    (hv : Gives name v out) : Gives name (u ++ v) (u ++ out) := by
  intro previous
  rw [GroupPattern.replace_append_of_nil, hv]
  intro _ w hw hne
  exact parts_eq_nil (h w hw hne)

/-- In a match the group is replaced. -/
theorem found {blanks group tail : Text} (h : MatchesAt name s blanks group tail)
    (htail : Gives name tail out) :
    Gives name s (quote :: (name ++ quote :: colon ::
      (blanks ++ quote :: (replacement ++ quote :: out)))) := by
  intro previous
  obtain ⟨opening, hopening⟩ : ∃ opening, opening =
      quote :: (name ++ quote :: colon :: (blanks ++ [quote])) := ⟨_, rfl⟩
  have hsplit : s = opening ++ (group ++ quote :: tail) := by
    rw [h.eq, hopening]
    simp
  have hlength : name.length + blanks.length + 4 = opening.length := by
    simp only [hopening, List.length_cons, List.length_append, List.length_nil]
    omega
  have hhead : ((sanitizePattern name).parts previous s).head? =
      some (opening.length, group.length, 1) := by
    rw [h.parts_eq, hlength]
    rfl
  have hpos : 0 < opening.length := by
    rw [← hlength]
    exact Nat.succ_pos _
  have hne : s ≠ [] := by
    rw [h.eq]
    exact List.cons_ne_nil _ _
  calc (sanitizePattern name).replace replacement previous s
    _ = opening ++ replacement ++ [quote] ++ out := by
        rw [GroupPattern.replace_of_head? replacement hpos hne hhead, Nat.add_assoc,
          ← List.drop_drop, ← List.drop_drop, hsplit, List.take_left, List.drop_left,
          ← List.drop_drop, List.drop_left, List.drop_succ_cons, List.drop_zero, htail]
        rfl
    _ = _ := by
        rw [hopening]
        simp

end Gives

end SignalFxTracing.Integrations.ElasticsearchNetCommon
