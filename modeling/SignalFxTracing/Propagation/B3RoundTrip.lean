import SignalFxTracing.Propagation.B3

/-!
# What survives a B3 round trip

`Inject` sets the trace id and the span id always, the parent id only for a
context with a parent, and of the sampled and flags headers at most one. It
removes nothing. The ids therefore survive on every carrier, while the
decision is read together with whatever the carrier held before.
-/

namespace SignalFxTracing.Propagation.B3

open Clr Lib Trace
open B3HttpHeaderNames

def b3Headers : List Text := [b3TraceId, b3SpanId, b3ParentId, b3Sampled, b3Flags]

/-- The decision that B3 headers can express: both rejections read as one. -/
def propagatedDecision : Option SamplingPriority → Option SamplingPriority
  | some .userKeep => some .userKeep
  | some .autoKeep => some .autoKeep
  | some .autoReject => some .autoReject
  | some .userReject => some .autoReject
  | none => none

section

variable {T : Type*} (access : CarrierAccess T) (skipsPlus : Bool) (draws : Draws)
variable (traces : List TraceContext) (context : SpanContext) (carrier : T)

/-- `Extract` after `Inject` gives the ids and the decision of the context. -/
def RoundTrips : Prop :=
  ∃ extracted, extract access skipsPlus draws (inject access traces context carrier).2 =
      .ok (some extracted) ∧
    extracted.traceId.equals context.traceId = true ∧ extracted.spanId = context.spanId ∧
    extracted.samplingPriority = propagatedDecision (samplingDecision traces context)

/-- Every B3 header value of the carrier is one of this context. -/
def HoldsOnlyContext (carrier : T) : Prop :=
  ∀ name ∈ b3Headers, ∀ value ∈ (access.getter carrier name).values,
    (name, value) ∈ headersOf traces context

/-- The B3 headers that `Inject` does not set for this context have no values. -/
def NoEarlierHeaders : Prop :=
  ∀ name ∈ b3Headers, name ∉ (headersOf traces context).map Prod.fst →
    (access.getter carrier name).values = []

end

theorem getSamplingHeader_eq (traces : List TraceContext) (context : SpanContext) :
    getSamplingHeader traces context =
      match samplingDecision traces context with
      | none => none
      | some .userReject => some (b3Sampled, text "0")
      | some .autoReject => some (b3Sampled, text "0")
      | some .autoKeep => some (b3Sampled, text "1")
      | some .userKeep => some (b3Flags, text "1") := by
  unfold getSamplingHeader
  cases samplingDecision traces context with
  | none => rfl
  | some priority => cases priority <;> rfl

/-- The headers set for one context have different names. -/
theorem headersOf_nodup (traces : List TraceContext) (context : SpanContext) :
    ((headersOf traces context).map Prod.fst).Nodup := by
  rw [headersOf, getSamplingHeader_eq]
  cases context.parentId <;> cases samplingDecision traces context with
  | none => simp +decide
  | some priority => cases priority <;> simp +decide

@[simp] theorem headersOf_lockTraceOf (traces : List TraceContext) (context : SpanContext) :
    headersOf (lockTraceOf context traces) context = headersOf traces context := by
  simp [headersOf, getSamplingHeader]

theorem headersOf_names_subset (traces : List TraceContext) (context : SpanContext) :
    (headersOf traces context).map Prod.fst ⊆ b3Headers := by
  rw [headersOf, getSamplingHeader_eq]
  cases context.parentId <;> cases samplingDecision traces context with
  | none => simp [b3Headers]
  | some priority => cases priority <;> simp [b3Headers]

section

variable {T : Type*} {access : CarrierAccess T} (law : access.Lawful b3Headers)
variable (traces : List TraceContext) (context : SpanContext) (carrier : T)

include law

/-- A header set by `Inject` has exactly its value. -/
theorem getter_inject_of_mem {name value : Text} (h : (name, value) ∈ headersOf traces context) :
    (access.getter (inject access traces context carrier).2 name).values = [value] := by
  rw [inject, headersOf_lockTraceOf]
  exact law.getter_setAll_of_mem (headersOf_names_subset traces context)
    (headersOf_nodup traces context) h carrier

/-- A header that `Inject` does not set keeps its values. -/
theorem getter_inject_of_notMem {name : Text} (hname : name ∈ b3Headers)
    (h : name ∉ (headersOf traces context).map Prod.fst) :
    access.getter (inject access traces context carrier).2 name = access.getter carrier name := by
  rw [inject, headersOf_lockTraceOf]
  exact law.getter_setAll_of_notMem (headersOf_names_subset traces context) hname h carrier

/-- On every carrier the ids survive, and the decision is what the flags and
sampled headers of the carrier say after `Inject`. -/
theorem extract_inject (skipsPlus : Bool) (draws : Draws)
    (hid : context.traceId.equals TraceId.zero = false) :
    extract access skipsPlus draws (inject access traces context carrier).2 =
      .ok (some (SpanContext.ofPropagated draws
        (some (TraceId.ofHalves context.traceId.higher context.traceId.lower)) context.spanId
        (parseB3FlagsAndSampled
          (access.getter (inject access traces context carrier).2 b3Flags)
          (access.getter (inject access traces context carrier).2 b3Sampled)))) := by
  have htrace : (access.getter (inject access traces context carrier).2 b3TraceId).values =
      [context.traceId.toString.getD []] :=
    getter_inject_of_mem law traces context carrier (by simp [headersOf])
  have hspan : (access.getter (inject access traces context carrier).2 b3SpanId).values =
      [toX16 context.spanId] :=
    getter_inject_of_mem law traces context carrier (by simp [headersOf])
  rw [TraceId.toString_of_not_zero hid, Option.getD_some] at htrace
  have hparse : parseTraceId skipsPlus
      (access.getter (inject access traces context carrier).2 b3TraceId) =
      .ok (TraceId.ofHalves context.traceId.higher context.traceId.lower) := by
    rw [parseTraceId, HeaderValues.isSharedEmpty_eq_false (by simp [htrace]), htrace]
    simp [firstTraceId, tryParseTraceId, bind, Except.bind, pure, Except.pure]
  have hspanId : parseHexUInt64
      (access.getter (inject access traces context carrier).2 b3SpanId) = context.spanId := by
    rw [parseHexUInt64, HeaderValues.isSharedEmpty_eq_false (by simp [hspan]), hspan]
    simp
  have hne : (TraceId.ofHalves context.traceId.higher context.traceId.lower).equals
      TraceId.zero = false := hid
  simp [extract, hparse, hspanId, hne, bind, Except.bind, pure, Except.pure]

/-- A zero trace id, with or without its text, is not read back. -/
theorem extract_inject_of_zero (skipsPlus : Bool) (draws : Draws)
    (hid : context.traceId.equals TraceId.zero = true) :
    extract access skipsPlus draws (inject access traces context carrier).2 = .ok none := by
  have htrace : (access.getter (inject access traces context carrier).2 b3TraceId).values =
      [context.traceId.toString.getD []] :=
    getter_inject_of_mem law traces context carrier (by simp [headersOf])
  obtain ⟨hhigher, hlower⟩ := TraceId.equals_iff.mp hid
  have hparse : parseTraceId skipsPlus
      (access.getter (inject access traces context carrier).2 b3TraceId) = .ok TraceId.zero := by
    rw [parseTraceId, HeaderValues.isSharedEmpty_eq_false (by simp [htrace]), htrace]
    rcases context.traceId.string_eq with hs | ⟨hs, -, -⟩
    · rw [TraceId.toString, hs, hhigher, hlower]
      simp [firstTraceId, tryParseTraceId, bind, Except.bind, pure, Except.pure]
      rfl
    · rw [TraceId.toString, hs]
      rfl
  have hzero : TraceId.zero.equals TraceId.zero = true := rfl
  simp [extract, hparse, hzero, bind, Except.bind, pure, Except.pure]

/-- The two headers of the decision on a carrier without earlier headers. -/
theorem decision_inject (hclean : NoEarlierHeaders access traces context carrier) :
    parseB3FlagsAndSampled
        (access.getter (inject access traces context carrier).2 b3Flags)
        (access.getter (inject access traces context carrier).2 b3Sampled) =
      propagatedDecision (samplingDecision traces context) := by
  have hset : ∀ name value, (name, value) ∈ headersOf traces context →
      (access.getter (inject access traces context carrier).2 name).values = [value] :=
    fun _ _ => getter_inject_of_mem law traces context carrier
  have hunset : ∀ name ∈ b3Headers, name ∉ (headersOf traces context).map Prod.fst →
      (access.getter (inject access traces context carrier).2 name).values = [] := by
    intro name hname hnot
    rw [getter_inject_of_notMem law traces context carrier hname hnot]
    exact hclean name hname hnot
  have hheader := getSamplingHeader_eq traces context
  have hnames : ∀ name, name ≠ b3TraceId → name ≠ b3SpanId → name ≠ b3ParentId →
      name ∉ (getSamplingHeader traces context).toList.map Prod.fst →
      name ∉ (headersOf traces context).map Prod.fst := by
    intro name h1 h2 h3 h4
    cases hp : context.parentId <;> simp_all [headersOf]
  cases hd : samplingDecision traces context with
  | none =>
      rw [hd] at hheader
      have hflags := hunset b3Flags (by decide)
        (hnames _ (by decide) (by decide) (by decide) (by simp [hheader]))
      have hsampled := hunset b3Sampled (by decide)
        (hnames _ (by decide) (by decide) (by decide) (by simp [hheader]))
      simp [parseB3FlagsAndSampled, parseB3Sampled, hflags, hsampled, propagatedDecision]
  | some priority =>
      cases priority with
      | userKeep =>
          rw [hd] at hheader
          have hflags := hset b3Flags (text "1") (by simp [headersOf, hheader])
          simp [parseB3FlagsAndSampled, hflags, propagatedDecision]
      | autoKeep =>
          rw [hd] at hheader
          have hflags := hunset b3Flags (by decide)
            (hnames _ (by decide) (by decide) (by decide) (by rw [hheader]; decide))
          have hsampled := hset b3Sampled (text "1") (by simp [headersOf, hheader])
          simp [parseB3FlagsAndSampled, parseB3Sampled, hflags, hsampled, propagatedDecision]
      | _ =>
          rw [hd] at hheader
          have hflags := hunset b3Flags (by decide)
            (hnames _ (by decide) (by decide) (by decide) (by rw [hheader]; decide))
          have hsampled := hset b3Sampled (text "0") (by simp [headersOf, hheader])
          rw [parseB3FlagsAndSampled, hflags]
          simp only [parseB3Sampled, hsampled, propagatedDecision]
          decide

/-- Without earlier headers every B3 header of the carrier is one of the context. -/
theorem holdsOnlyContext_inject (hclean : NoEarlierHeaders access traces context carrier) :
    HoldsOnlyContext access traces context (inject access traces context carrier).2 := by
  intro name hname value hvalue
  by_cases hset : name ∈ (headersOf traces context).map Prod.fst
  · obtain ⟨header, hheader, rfl⟩ := List.mem_map.mp hset
    rw [getter_inject_of_mem law traces context carrier hheader] at hvalue
    obtain rfl := List.mem_singleton.mp hvalue
    exact hheader
  · rw [getter_inject_of_notMem law traces context carrier hname hset,
      hclean name hname hset] at hvalue
    cases hvalue

/-- The round trip leaves the context and nothing of an earlier one exactly
when the carrier held no B3 header that this `Inject` does not set. -/
theorem inject_extract_iff (skipsPlus : Bool) (draws : Draws)
    (hid : context.traceId.equals TraceId.zero = false) :
    (RoundTrips access skipsPlus draws traces context carrier ∧
      HoldsOnlyContext access traces context (inject access traces context carrier).2) ↔
      NoEarlierHeaders access traces context carrier := by
  constructor
  · rintro ⟨-, honly⟩ name hname hnot
    rw [← getter_inject_of_notMem law traces context carrier hname hnot]
    refine List.eq_nil_iff_forall_not_mem.mpr fun value hvalue => ?_
    exact hnot (List.mem_map_of_mem (honly name hname value hvalue))
  · intro hclean
    refine ⟨⟨_, extract_inject law traces context carrier skipsPlus draws hid, ?_, rfl, ?_⟩,
      holdsOnlyContext_inject law traces context carrier hclean⟩
    · exact TraceId.equals_iff.mpr ⟨rfl, rfl⟩
    · exact decision_inject law traces context carrier hclean

end

/-- A context with trace id one and span id two whose trace is kept. -/
def keptContext : SpanContext :=
  SpanContext.ofPropagated ⟨0, 0, 0, 0⟩ (some (TraceId.ofHalves 0 1)) 2 (some .autoKeep)

/-- Headers of an incoming debug request, forwarded with the outgoing one. -/
def forwardedHeaders : HeaderMap := Function.update (fun _ => []) b3Flags [text "1"]

theorem inject_extract_empty :
    RoundTrips HeaderMap.access true ⟨0, 0, 0, 0⟩ [] keptContext (fun _ => []) ∧
      HoldsOnlyContext HeaderMap.access [] keptContext
        (inject HeaderMap.access [] keptContext (fun _ => [])).2 :=
  (inject_extract_iff HeaderMap.access_lawful [] keptContext (fun _ => []) true ⟨0, 0, 0, 0⟩
    (by decide)).mpr fun _ _ _ => rfl

/-- The flags header of the earlier request turns the decision `AutoKeep` into
`UserKeep` and is still on the carrier. -/
theorem inject_extract_forwarded :
    keptContext.traceId.equals TraceId.zero = false ∧
      ¬ RoundTrips HeaderMap.access true ⟨0, 0, 0, 0⟩ [] keptContext forwardedHeaders ∧
      ¬ HoldsOnlyContext HeaderMap.access [] keptContext
        (inject HeaderMap.access [] keptContext forwardedHeaders).2 := by
  refine ⟨by decide, ?_, ?_⟩
  · rintro ⟨extracted, hextract, -, -, hdecision⟩
    rw [extract_inject HeaderMap.access_lawful _ _ _ _ _ (by decide)] at hextract
    cases hextract
    exact absurd hdecision (by decide)
  · intro honly
    exact absurd (honly b3Flags (by decide) (text "1") (by decide)) (by decide)

end SignalFxTracing.Propagation.B3
