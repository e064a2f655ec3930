import SignalFxTracing.Propagation.B3
import SignalFxTracing.Propagation.W3C
import SignalFxTracing.Trace.TraceIdText
import SignalFxTracing.Lib.ExceptRules

/-!
# When extraction returns

`Extract` is meant to return null for headers it cannot use. The texts on
which it raises an exception instead, and the texts it takes for a trace id
although they are none, are described by their shape alone.
-/

namespace SignalFxTracing.Propagation

open Clr Lib Lib.ExceptRules Trace

/-- The outcome is a result, and null when none of the texts is a trace id. -/
def ReturnsNullUnlessValid (texts : List Text)
    (outcome : Except ExtractError (Option SpanContext)) : Prop :=
  ∃ result, outcome = .ok result ∧
    ((∀ id ∈ texts, TraceId.isValid id = false) → result = none)

/-- The first text that `TryParse` does not refuse. -/
def decisiveText (skipsPlus : Bool) (texts : List Text) : Option Text :=
  texts.find? fun id => TraceId.isNegative skipsPlus id || TraceId.isAccepted skipsPlus id

section Outcomes

variable {texts : List Text} {outcome : Except ExtractError (Option SpanContext)}

theorem not_returnsNullUnlessValid_error {e : ExtractError} (h : outcome = .error e) :
    ¬ ReturnsNullUnlessValid texts outcome := by
  rintro ⟨result, hresult, -⟩
  rw [h] at hresult
  cases hresult

theorem returnsNullUnlessValid_none (h : outcome = .ok none) :
    ReturnsNullUnlessValid texts outcome :=
  ⟨none, h, fun _ => rfl⟩

/-- A context may be returned only for texts with a trace id among them. -/
theorem returnsNullUnlessValid_some {context : SpanContext} (h : outcome = .ok (some context)) :
    ReturnsNullUnlessValid texts outcome ↔ texts.any TraceId.isValid = true := by
  rw [List.any_eq_true]
  constructor
  · rintro ⟨result, hresult, hnull⟩
    rw [h] at hresult
    obtain rfl := Except.ok.inj hresult
    by_contra hnone
    push Not at hnone
    exact absurd (hnull fun id hid => Bool.eq_false_iff.mpr (hnone id hid)) (by simp)
  · rintro ⟨id, hid, hvalid⟩
    refine ⟨some context, h, fun hnone => ?_⟩
    rw [hnone id hid] at hvalid
    cases hvalid

end Outcomes

theorem tryParseTraceId_of_negative {skipsPlus : Bool} {id : Text}
    (h : TraceId.isNegative skipsPlus id = true) :
    tryParseTraceId skipsPlus id = .error .argument := by
  rw [tryParseTraceId, TraceId.tryParse_of_negative skipsPlus id h]

theorem tryParseTraceId_of_accepted {skipsPlus : Bool} {id : Text}
    (h : TraceId.isAccepted skipsPlus id = true) :
    ∃ traceId, tryParseTraceId skipsPlus id = .ok (some traceId) ∧
      (traceId.equals TraceId.zero = true ↔ TraceId.isZeroText id = true) := by
  obtain ⟨traceId, hparse, hzero⟩ := TraceId.tryParse_of_accepted skipsPlus id h
  exact ⟨traceId, by rw [tryParseTraceId, hparse], hzero⟩

theorem tryParseTraceId_of_refused {skipsPlus : Bool} {id : Text}
    (hneg : TraceId.isNegative skipsPlus id = false)
    (hacc : TraceId.isAccepted skipsPlus id = false) :
    tryParseTraceId skipsPlus id = .ok none := by
  rw [tryParseTraceId, TraceId.tryParse_of_refused skipsPlus id hneg hacc]

/-- Only the decisive text matters to the search for a trace id. -/
theorem firstTraceId_eq (skipsPlus : Bool) (texts : List Text) :
    firstTraceId skipsPlus texts =
      match decisiveText skipsPlus texts with
      | none => .ok TraceId.zero
      | some id => (tryParseTraceId skipsPlus id).map fun traceId =>
          traceId.getD TraceId.zero := by
  induction texts with
  | nil => rfl
  | cons id rest ih =>
      unfold firstTraceId decisiveText
      by_cases hneg : TraceId.isNegative skipsPlus id = true
      · simp only [List.find?_cons, hneg, Bool.true_or, tryParseTraceId_of_negative hneg]
        rfl
      · rw [Bool.not_eq_true] at hneg
        by_cases hacc : TraceId.isAccepted skipsPlus id = true
        · obtain ⟨traceId, hparse, -⟩ := tryParseTraceId_of_accepted hacc
          simp only [List.find?_cons, hneg, hacc, Bool.or_true, hparse]
          rfl
        · rw [Bool.not_eq_true] at hacc
          simp only [List.find?_cons, hneg, hacc, Bool.or_self,
            tryParseTraceId_of_refused hneg hacc, ok_bind]
          exact ih

namespace B3

variable {T : Type*} (access : CarrierAccess T) (skipsPlus : Bool) (draws : Draws) (carrier : T)

/-- The trace-id texts on which `Extract` returns as it should: the first one
that is not refused has no minus sign and is zero, unless there is a trace id. -/
def ReadableTexts (texts : List Text) : Prop :=
  ∀ id, decisiveText skipsPlus texts = some id →
    TraceId.isNegative skipsPlus id = false ∧
      (TraceId.isZeroText id = true ∨ texts.any TraceId.isValid = true)

theorem parseTraceId_eq (headerValues : HeaderValues) :
    parseTraceId skipsPlus headerValues = firstTraceId skipsPlus headerValues.values := by
  unfold parseTraceId
  split
  · next h => rw [headerValues.shared_empty h]; rfl
  · rfl

theorem extract_returns_iff :
    ReturnsNullUnlessValid (access.getter carrier B3HttpHeaderNames.b3TraceId).values
        (extract access skipsPlus draws carrier) ↔
      ReadableTexts skipsPlus (access.getter carrier B3HttpHeaderNames.b3TraceId).values := by
  unfold extract ReadableTexts
  rw [parseTraceId_eq, firstTraceId_eq]
  generalize (access.getter carrier B3HttpHeaderNames.b3TraceId).values = texts
  cases hdecisive : decisiveText skipsPlus texts with
  | none =>
      simp only [ok_bind, reduceCtorEq, false_implies, implies_true, iff_true]
      exact returnsNullUnlessValid_none rfl
  | some id =>
      simp only [Option.some.injEq, forall_eq']
      cases hneg : TraceId.isNegative skipsPlus id with
      | true =>
          rw [tryParseTraceId_of_negative hneg]
          simp only [Bool.true_eq_false, false_and, iff_false]
          exact not_returnsNullUnlessValid_error rfl
      | false =>
          have hacc : TraceId.isAccepted skipsPlus id = true := by
            simpa [hneg] using List.find?_some hdecisive
          obtain ⟨traceId, hparse, hzero⟩ := tryParseTraceId_of_accepted hacc
          simp only [hparse, Except.map, Option.getD_some, ok_bind, true_and, ← hzero]
          by_cases hid : traceId.equals TraceId.zero = true
          · simp only [hid, if_true, true_or, iff_true]
            exact returnsNullUnlessValid_none rfl
          · simp only [hid, Bool.false_eq_true, if_false, false_or]
            exact returnsNullUnlessValid_some rfl

end B3

namespace W3C

variable {T : Type*} (access : CarrierAccess T) (skipsPlus : Bool) (draws : Draws) (carrier : T)

/-- The trace-id text of a trace parent. -/
def traceIdText (header : Text) : Text :=
  (header.drop versionPrefixIdLength).take traceIdLength

/-- The span-id text of a trace parent. -/
def spanIdText (header : Text) : Text :=
  (header.drop versionAndTraceIdLength).take spanIdLength

/-- The span id is absent: not a number or zero. -/
def hasNoSpanId (header : Text) : Bool := (tryParseHexUInt64 (spanIdText header)).getD 0 == 0

/-- Where the trace-id text of a long enough header is used, the header reaches
to the end of the span id, and there is no span id unless there is a trace id. -/
def ReadableHeader (headers : List Text) (header : Text) : Prop :=
  versionPrefixIdLength + traceIdLength ≤ header.length ∧
    TraceId.isNegative skipsPlus (traceIdText header) = false ∧
    (TraceId.isAccepted skipsPlus (traceIdText header) = true →
      TraceId.isZeroText (traceIdText header) = false →
      versionAndTraceIdLength + spanIdLength ≤ header.length ∧
        (hasNoSpanId header = true ∨
          (headers.map traceIdText).any TraceId.isValid = true))

/-- The header values on which `Extract` returns as it should. -/
def ReadableHeaders (headerValues : HeaderValues) : Prop :=
  headerValues.isSharedEmpty = true ∨
    ∃ header, headerValues.values.head? = some header ∧
      ReadableHeader skipsPlus headerValues.values header

theorem substring_of_le {s : Text} {start length : Nat} (h : start + length ≤ s.length) :
    substring s start length = .ok ((s.drop start).take length) := if_pos h

theorem substring_of_lt {s : Text} {start length : Nat} (h : ¬ start + length ≤ s.length) :
    substring s start length = .error .argumentOutOfRange := if_neg h

/-- What `Extract` does with the text of the first header value. -/
def extractFrom (traceStates : List Text) (header : Text) :
    Except ExtractError (Option SpanContext) := do
  let traceIdString ← substring header versionPrefixIdLength traceIdLength
  match ← tryParseTraceId skipsPlus traceIdString with
  | none => return none
  | some traceId =>
      if traceId.equals TraceId.zero then return none
      let spanIdString ← substring header versionAndTraceIdLength spanIdLength
      match tryParseHexUInt64 spanIdString with
      | none => return none
      | some spanId =>
          if spanId = 0 then return none
          return some (SpanContext.ofPropagated draws (some traceId) spanId none none
            (extractTraceState traceStates))

theorem extract_eq :
    extract access skipsPlus draws carrier =
      if (access.getter carrier W3CHeaderNames.traceParent).isSharedEmpty then .ok none
      else
        first (access.getter carrier W3CHeaderNames.traceParent) >>=
          extractFrom skipsPlus draws
            (access.getter carrier W3CHeaderNames.traceState).values := rfl

/-- After an accepted trace id that is not zero the span id decides. -/
theorem extractFrom_of_traceId (traceStates : List Text) {header : Text} {traceId : TraceId}
    (hlen : versionPrefixIdLength + traceIdLength ≤ header.length)
    (hparse : tryParseTraceId skipsPlus (traceIdText header) = .ok (some traceId))
    (hid : traceId.equals TraceId.zero = false) :
    extractFrom skipsPlus draws traceStates header =
      if versionAndTraceIdLength + spanIdLength ≤ header.length then
        .ok (if hasNoSpanId header then none
          else some (SpanContext.ofPropagated draws (some traceId)
            ((tryParseHexUInt64 (spanIdText header)).getD 0) none none
            (extractTraceState traceStates)))
      else .error .argumentOutOfRange := by
  simp only [extractFrom, substring_of_le hlen, ok_bind]
  rw [← traceIdText, hparse]
  simp only [ok_bind, hid, Bool.false_eq_true, if_false]
  split
  · next hspan =>
      rw [substring_of_le hspan, ok_bind, ← spanIdText, hasNoSpanId]
      cases tryParseHexUInt64 (spanIdText header) with
      | none => rfl
      | some spanId => by_cases h : spanId = 0 <;> simp [h] <;> rfl
  · next hspan => rw [substring_of_lt hspan, error_bind]

theorem extractFrom_returns_iff (traceStates : List Text) (headers : List Text)
    (header : Text) :
    ReturnsNullUnlessValid (headers.map traceIdText)
        (extractFrom skipsPlus draws traceStates header) ↔
      ReadableHeader skipsPlus headers header := by
  unfold ReadableHeader
  by_cases hlen : versionPrefixIdLength + traceIdLength ≤ header.length
  · cases hneg : TraceId.isNegative skipsPlus (traceIdText header) with
    | true =>
        simp only [hlen, true_and, Bool.true_eq_false, false_and, iff_false]
        refine not_returnsNullUnlessValid_error (e := .argument) ?_
        simp only [extractFrom, substring_of_le hlen, ok_bind]
        rw [← traceIdText, tryParseTraceId_of_negative hneg, error_bind]
    | false =>
        cases hacc : TraceId.isAccepted skipsPlus (traceIdText header) with
        | false =>
            simp only [hlen, true_and, Bool.false_eq_true, false_implies, iff_true]
            refine returnsNullUnlessValid_none ?_
            simp only [extractFrom, substring_of_le hlen, ok_bind]
            rw [← traceIdText, tryParseTraceId_of_refused hneg hacc]
            rfl
        | true =>
            obtain ⟨traceId, hparse, hzero⟩ := tryParseTraceId_of_accepted hacc
            cases hid : TraceId.isZeroText (traceIdText header) with
            | true =>
                simp only [hlen, true_and, Bool.true_eq_false, false_implies, implies_true,
                  iff_true]
                refine returnsNullUnlessValid_none ?_
                simp only [extractFrom, substring_of_le hlen, ok_bind]
                rw [← traceIdText, hparse]
                simp only [ok_bind, hzero.mpr hid, if_true]
                rfl
            | false =>
                have hne : traceId.equals TraceId.zero = false :=
                  Bool.eq_false_iff.mpr fun h => by rw [hzero.mp h] at hid; cases hid
                simp only [hlen, true_and, forall_const]
                rw [extractFrom_of_traceId skipsPlus draws traceStates hlen hparse hne]
                by_cases hspan : versionAndTraceIdLength + spanIdLength ≤ header.length
                · simp only [hspan, if_true, true_and]
                  cases hspanId : hasNoSpanId header with
                  | true =>
                      simp only [if_true, true_or, iff_true]
                      exact returnsNullUnlessValid_none rfl
                  | false =>
                      simp only [Bool.false_eq_true, if_false, false_or]
                      exact returnsNullUnlessValid_some rfl
                · simp only [hspan, if_false, false_and, iff_false]
                  exact not_returnsNullUnlessValid_error rfl
  · simp only [hlen, false_and, iff_false]
    refine not_returnsNullUnlessValid_error (e := .argumentOutOfRange) ?_
    rw [extractFrom, substring_of_lt hlen, error_bind]

theorem extract_returns_iff :
    ReturnsNullUnlessValid
        ((access.getter carrier W3CHeaderNames.traceParent).values.map traceIdText)
        (extract access skipsPlus draws carrier) ↔
      ReadableHeaders skipsPlus (access.getter carrier W3CHeaderNames.traceParent) := by
  rw [extract_eq, ReadableHeaders]
  generalize access.getter carrier W3CHeaderNames.traceParent = headerValues
  cases hshared : headerValues.isSharedEmpty with
  | true =>
      simp only [if_true, true_or, iff_true]
      exact returnsNullUnlessValid_none rfl
  | false =>
      simp only [Bool.false_eq_true, if_false, false_or, first]
      cases hvalues : headerValues.values with
      | nil =>
          simp only [List.head?_nil, reduceCtorEq, false_and, exists_false, iff_false]
          exact not_returnsNullUnlessValid_error rfl
      | cons header rest =>
          simp only [List.head?_cons, Option.some.injEq, exists_eq_left', ok_bind]
          exact extractFrom_returns_iff skipsPlus draws _ _ header

end W3C

/-- Both propagators return, and return null without a trace id, exactly on the
texts and headers described. -/
theorem extractions_return_iff {T : Type*} (access : CarrierAccess T) (skipsPlus : Bool)
    (draws : Draws) (carrier : T) :
    (ReturnsNullUnlessValid (access.getter carrier B3.B3HttpHeaderNames.b3TraceId).values
        (B3.extract access skipsPlus draws carrier) ↔
      B3.ReadableTexts skipsPlus (access.getter carrier B3.B3HttpHeaderNames.b3TraceId).values) ∧
    (ReturnsNullUnlessValid
        ((access.getter carrier W3C.W3CHeaderNames.traceParent).values.map W3C.traceIdText)
        (W3C.extract access skipsPlus draws carrier) ↔
      W3C.ReadableHeaders skipsPlus (access.getter carrier W3C.W3CHeaderNames.traceParent)) :=
  ⟨B3.extract_returns_iff access skipsPlus draws carrier,
    W3C.extract_returns_iff access skipsPlus draws carrier⟩

/-- A minus sign, a lazily enumerated empty sequence and a short trace parent
raise exceptions; a prefix with fourteen digits is taken for a trace id. -/
theorem extractions_raise :
    B3.extract HeaderMap.access true ⟨0, 0, 0, 0⟩ (fun _ => [text "-000000000000001"]) =
        .error .argument ∧
      W3C.extract HeaderMap.access true ⟨0, 0, 0, 0⟩ (fun _ => []) = .error .invalidOperation ∧
      W3C.extract HeaderMap.access true ⟨0, 0, 0, 0⟩ (fun _ => [text "00-1"]) =
        .error .argumentOutOfRange ∧
      ¬ ReturnsNullUnlessValid [text "0x00000000000001"]
        (B3.extract HeaderMap.access true ⟨0, 0, 0, 0⟩ fun _ => [text "0x00000000000001"]) := by
  refine ⟨rfl, rfl, rfl, fun h => ?_⟩
  have hreadable := (B3.extract_returns_iff HeaderMap.access true ⟨0, 0, 0, 0⟩
    (fun _ => [text "0x00000000000001"])).mp h
  exact absurd (hreadable _ rfl) (by decide)

end SignalFxTracing.Propagation
