import SignalFxTracing.OpenTracing.HttpHeadersCodec

/-!
# What the codec reads back

The values that `Extract` sees for a name are those that the map has under other
spellings before the one that is set, and this one; the first that can be read
decides. This gives the contexts that come back, for each propagator, and the
maps whose context `Inject` accepts.
-/

namespace SignalFxTracing.OpenTracing

open Clr Lib Lib.ExceptRules Trace Propagation
open B3.B3HttpHeaderNames

section Texts

variable {skipsPlus : Bool} {id : Text} {traceId : TraceId}

theorem accepted_of_readsTraceId (h : ReadsTraceId skipsPlus id traceId) :
    TraceId.isNegative skipsPlus id = false ∧ TraceId.isAccepted skipsPlus id = true := by
  obtain ⟨parsed, hparsed, -⟩ := h
  cases hneg : TraceId.isNegative skipsPlus id with
  | true =>
      rw [tryParseTraceId_of_negative hneg] at hparsed
      cases hparsed
  | false =>
      cases hacc : TraceId.isAccepted skipsPlus id with
      | true => exact ⟨rfl, rfl⟩
      | false =>
          rw [tryParseTraceId_of_refused hneg hacc] at hparsed
          cases hparsed

theorem equals_zero_congr {other : TraceId} (heq : other.equals traceId = true) :
    other.equals TraceId.zero = traceId.equals TraceId.zero := by
  obtain ⟨hhigher, hlower⟩ := TraceId.equals_iff.mp heq
  rw [TraceId.equals, TraceId.equals, hhigher, hlower]

/-- The text of an identifier that is not zero is read as it. -/
theorem readsTraceId_toString {other : TraceId} (heq : other.equals traceId = true)
    (hid : traceId.equals TraceId.zero = false) :
    ReadsTraceId skipsPlus (other.toString.getD []) traceId := by
  have hother : other.equals TraceId.zero = false := (equals_zero_congr heq).trans hid
  rw [TraceId.toString_of_not_zero hother, Option.getD_some]
  exact ⟨TraceId.ofHalves other.higher other.lower, by simp [tryParseTraceId], heq⟩

/-- A value that is read decides unless one before it does. -/
theorem decisiveText_append {before later : List Text} (h : ReadsTraceId skipsPlus id traceId) :
    (∃ decisive, decisiveText skipsPlus (before ++ id :: later) = some decisive ∧
        ReadsTraceId skipsPlus decisive traceId) ↔
      ∀ decisive, decisiveText skipsPlus before = some decisive →
        ReadsTraceId skipsPlus decisive traceId := by
  have hfind : decisiveText skipsPlus (before ++ id :: later) =
      (decisiveText skipsPlus before).or (some id) := by
    rw [decisiveText, List.find?_append, List.find?_cons, (accepted_of_readsTraceId h).2,
      Bool.or_true, decisiveText]
  rw [hfind]
  cases decisiveText skipsPlus before with
  | none => simp [h]
  | some decisive => simp

/-- A text that is accepted is read, as zero if it has no other digit. -/
theorem exists_tryParseTraceId_iff :
    (∃ parsed, tryParseTraceId skipsPlus id = .ok (some parsed) ∧
        parsed.equals TraceId.zero = false) ↔
      TraceId.isNegative skipsPlus id = false ∧ TraceId.isAccepted skipsPlus id = true ∧
        TraceId.isZeroText id = false := by
  constructor
  · rintro ⟨parsed, hparsed, hzero⟩
    obtain ⟨hneg, hacc⟩ := accepted_of_readsTraceId ⟨parsed, hparsed, TraceId.equals_iff.mpr ⟨rfl, rfl⟩⟩
    obtain ⟨other, hother, htext⟩ := tryParseTraceId_of_accepted hacc
    obtain rfl : parsed = other := by simpa using hparsed.symm.trans hother
    refine ⟨hneg, hacc, ?_⟩
    rw [Bool.eq_false_iff] at hzero ⊢
    exact mt htext.mpr hzero
  · rintro ⟨-, hacc, htext⟩
    obtain ⟨parsed, hparsed, hzero⟩ := tryParseTraceId_of_accepted hacc
    refine ⟨parsed, hparsed, ?_⟩
    rw [Bool.eq_false_iff] at htext ⊢
    exact mt hzero.mp htext

/-- The ids that are at the positions of a trace parent are read, unless one of them is zero. -/
theorem readsTraceParent_iff {header : Text} {spanId : UInt64}
    (hid : traceId.equals TraceId.zero = false) :
    ReadsTraceParent skipsPlus header traceId spanId ↔
      ∃ parsed, W3C.readTraceParent skipsPlus header = .ok (some (parsed, spanId)) ∧
        parsed.equals traceId = true := by
  simp only [W3C.readTraceParent_eq_some_iff]
  constructor
  · rintro ⟨id, spanText, hsub, ⟨parsed, hparsed, heq⟩, hrest⟩
    refine ⟨parsed, ⟨id, spanText, hsub, hparsed, ?_, hrest⟩, heq⟩
    rw [equals_zero_congr heq]
    exact hid
  · rintro ⟨parsed, ⟨id, spanText, hsub, hparsed, -, hrest⟩, heq⟩
    exact ⟨id, spanText, hsub, ⟨parsed, hparsed, heq⟩, hrest⟩

theorem findSome_append {before later : List Text} {value : Text} {spanId : UInt64}
    (h : tryParseHexUInt64 value = some spanId) :
    ((before ++ value :: later).findSome? tryParseHexUInt64).getD 0 = spanId ↔
      ∀ v, before.findSome? tryParseHexUInt64 = some v → v = spanId := by
  rw [List.findSome?_append, List.findSome?_cons, h]
  cases before.findSome? tryParseHexUInt64 with
  | none => simp
  | some v => simp

end Texts

section Extraction

variable {skipsPlus : Bool} {map : TextMap} {traceId : TraceId} {spanId : UInt64}

/-- `Extract` gives a context with these ids. -/
def Extracts (p : PropagatorType) (skipsPlus : Bool) (draws : Draws) (map : TextMap)
    (traceId : TraceId) (spanId : UInt64) : Prop :=
  ∃ extracted, HttpHeadersCodec.extract p skipsPlus draws map = .ok extracted ∧
    extracted.HasIds skipsPlus traceId spanId

theorem extracts_iff (p : PropagatorType) (draws : Draws) :
    Extracts p skipsPlus draws map traceId spanId ↔
      ∃ context, p.extract skipsPlus draws map = .ok (some context) ∧
        context.traceId.equals traceId = true ∧ context.spanId = spanId := by
  rw [Extracts, HttpHeadersCodec.extract]
  cases hextract : p.extract skipsPlus draws map with
  | error e => simp
  | ok propagationContext =>
      cases propagationContext with
      | none => simp [OtSpanContext.HasIds]
      | some context => simp [OtSpanContext.HasIds]

/-- A zero trace id is no context for either propagator. -/
theorem equals_zero_of_extract {p : PropagatorType} {draws : Draws} {context : SpanContext}
    (h : p.extract skipsPlus draws map = .ok (some context)) :
    context.traceId.equals TraceId.zero = false := by
  cases p with
  | b3 =>
      rw [PropagatorType.extract, B3.extract] at h
      obtain ⟨parsed, -, h⟩ := bind_eq_ok_iff.mp h
      split_ifs at h with hzero
      · cases h
      · obtain rfl := Option.some.inj (Except.ok.inj h)
        exact Bool.eq_false_iff.mpr hzero
  | w3c =>
      rw [PropagatorType.extract] at h
      cases hvalues : map.getValues W3C.W3CHeaderNames.traceParent with
      | nil =>
          have hgetter : (TextMap.access.getter map W3C.W3CHeaderNames.traceParent).values = [] :=
            hvalues
          have hshared : (TextMap.access.getter map
              W3C.W3CHeaderNames.traceParent).isSharedEmpty = false := rfl
          rw [W3C.extract, hshared, W3C.first, hgetter] at h
          cases h
      | cons header rest =>
          rw [W3C.extract_eq_readTraceParent skipsPlus draws hvalues] at h
          cases hread : W3C.readTraceParent skipsPlus header with
          | error e =>
              rw [hread] at h
              cases h
          | ok ids =>
              rw [hread] at h
              cases ids with
              | none => cases h
              | some ids =>
                  obtain rfl := Option.some.inj (Except.ok.inj h)
                  obtain ⟨-, -, -, -, hzero, -⟩ :=
                    (W3C.readTraceParent_eq_some_iff skipsPlus).mp hread
                  exact hzero

theorem extracts_b3_iff (draws : Draws) (hid : traceId.equals TraceId.zero = false) :
    Extracts .b3 skipsPlus draws map traceId spanId ↔
      (∃ id, decisiveText skipsPlus (map.getValues b3TraceId) = some id ∧
        ReadsTraceId skipsPlus id traceId) ∧
      ((map.getValues b3SpanId).findSome? tryParseHexUInt64).getD 0 = spanId := by
  have hvalues : ∀ name, (TextMap.access.getter map name).values = map.getValues name :=
    fun _ => rfl
  have hspan : B3.parseHexUInt64 (TextMap.access.getter map b3SpanId) =
      ((map.getValues b3SpanId).findSome? tryParseHexUInt64).getD 0 := rfl
  have hself : TraceId.zero.equals TraceId.zero = true := rfl
  have hzero : ∀ {parsed : TraceId}, parsed.equals TraceId.zero = true →
      ¬ parsed.equals traceId = true := by
    intro parsed hparsed heq
    rw [equals_zero_congr heq, hid] at hparsed
    cases hparsed
  rw [extracts_iff, PropagatorType.extract, B3.extract, B3.parseTraceId_eq, firstTraceId_eq,
    hvalues, hspan]
  cases decisiveText skipsPlus (map.getValues b3TraceId) with
  | none => simp [hself, pure, Except.pure]
  | some id =>
      simp only [Option.some.injEq, exists_eq_left', ReadsTraceId]
      cases hparse : tryParseTraceId skipsPlus id with
      | error e => simp [Except.map]
      | ok parsed =>
          cases parsed with
          | none => simp [hself, pure, Except.pure, Except.map]
          | some parsed =>
              by_cases hparsed : parsed.equals TraceId.zero = true
              · simp [hparsed, hzero hparsed, pure, Except.pure, Except.map]
              · simp [hparsed, pure, Except.pure, Except.map, SpanContext.ofPropagated,
                  SpanContext.create]

theorem extracts_w3c_iff (draws : Draws) (hid : traceId.equals TraceId.zero = false) :
    Extracts .w3c skipsPlus draws map traceId spanId ↔
      match map.getValues W3C.W3CHeaderNames.traceParent with
      | [] => False
      | header :: _ => ReadsTraceParent skipsPlus header traceId spanId := by
  rw [extracts_iff, PropagatorType.extract]
  cases hvalues : map.getValues W3C.W3CHeaderNames.traceParent with
  | nil =>
      have hgetter : (TextMap.access.getter map W3C.W3CHeaderNames.traceParent).values = [] :=
        hvalues
      have hshared : (TextMap.access.getter map W3C.W3CHeaderNames.traceParent).isSharedEmpty =
        false := rfl
      rw [W3C.extract, hshared, W3C.first, hgetter]
      simp
  | cons header rest =>
      rw [W3C.extract_eq_readTraceParent skipsPlus draws hvalues]
      dsimp only
      rw [readsTraceParent_iff hid]
      cases W3C.readTraceParent skipsPlus header with
      | error e => simp [Except.map]
      | ok ids =>
          cases ids with
          | none => simp [Except.map]
          | some ids =>
              obtain ⟨parsed, span⟩ := ids
              simp [Except.map, SpanContext.ofPropagated, SpanContext.create, and_comm]

end Extraction

section Injection

variable {skipsPlus : Bool} {map : TextMap} {traceId : TraceId} {spanId : UInt64}

theorem b3Headers_apart :
    B3.b3Headers.Pairwise fun a b => equalsIgnoreCase a b = false := by decide

theorem headersOf_apart (traces : List TraceContext) (context : SpanContext) :
    (B3.headersOf traces context).Pairwise fun p q => equalsIgnoreCase p.1 q.1 = false := by
  have hsublist : ((B3.headersOf traces context).map Prod.fst).Sublist B3.b3Headers := by
    rw [B3.headersOf, B3.getSamplingHeader_eq]
    cases context.parentId <;> cases samplingDecision traces context with
    | none => simp +decide [B3.b3Headers]
    | some priority => cases priority <;> simp +decide [B3.b3Headers]
  exact List.pairwise_map.mp (b3Headers_apart.sublist hsublist)

/-- A context of this tracer, through B3: the ids come behind other spellings of their names. -/
theorem extracts_inject_b3_iff (traces : List TraceContext) (draws : Draws) {context : SpanContext}
    (hid : traceId.equals TraceId.zero = false) (heq : context.traceId.equals traceId = true)
    (hspan : context.spanId = spanId) :
    Extracts .b3 skipsPlus draws (PropagatorType.b3.inject traces context map).2 traceId spanId ↔
      KeepsIds .b3 skipsPlus (.openTracing (some (.inr context))) map traceId spanId := by
  have hset : (PropagatorType.b3.inject traces context map).2 =
      TextMap.access.setAll map (B3.headersOf traces context) := by
    rw [PropagatorType.inject, B3.inject, B3.headersOf_lockTraceOf]
  obtain ⟨laterTraceIds, htraceIds⟩ :=
    @TextMap.exists_getValues_setAll map b3TraceId (B3.headersOf traces context)
      (context.traceId.toString.getD []) (headersOf_apart traces context) (by simp [B3.headersOf])
  obtain ⟨laterSpanIds, hspanIds⟩ :=
    @TextMap.exists_getValues_setAll map b3SpanId (B3.headersOf traces context)
      (toX16 context.spanId) (headersOf_apart traces context) (by simp [B3.headersOf])
  rw [extracts_b3_iff draws hid, hset, htraceIds, hspanIds,
    decisiveText_append (readsTraceId_toString heq hid),
    findSome_append ((tryParseHexUInt64_toX16 _).trans (congrArg some hspan))]
  rfl

/-- A context of this tracer, through W3C. -/
theorem extracts_inject_w3c_iff (traces : List TraceContext) (draws : Draws)
    {context : SpanContext} (hid : traceId.equals TraceId.zero = false)
    (heq : context.traceId.equals traceId = true) (hspan : context.spanId = spanId) :
    Extracts .w3c skipsPlus draws (PropagatorType.w3c.inject traces context map).2 traceId spanId ↔
      KeepsIds .w3c skipsPlus (.openTracing (some (.inr context))) map traceId spanId := by
  have hother : context.traceId.equals TraceId.zero = false := (equals_zero_congr heq).trans hid
  have happart : (W3C.headersOf context).Pairwise
      fun p q => equalsIgnoreCase p.1 q.1 = false := by
    rw [W3C.headersOf]
    split_ifs
    · simp
    · simp only [List.pairwise_cons, List.mem_singleton, forall_eq, List.not_mem_nil,
        false_implies, implies_true, List.Pairwise.nil, and_self, and_true]
      decide
  obtain ⟨later, hvalues⟩ :=
    @TextMap.exists_getValues_setAll map W3C.W3CHeaderNames.traceParent (W3C.headersOf context)
      (W3C.traceParentText context.traceId context.spanId) happart (by simp [W3C.headersOf])
  have hset : (PropagatorType.w3c.inject traces context map).2 =
      TextMap.access.setAll map (W3C.headersOf context) := rfl
  rw [extracts_w3c_iff draws hid, hset, hvalues, KeepsIds]
  cases map.before W3C.W3CHeaderNames.traceParent with
  | nil =>
      rw [List.nil_append]
      dsimp only
      rw [readsTraceParent_iff hid, W3C.readTraceParent_traceParentText skipsPlus (TraceId.toString_of_not_zero hother),
        hother, hspan]
      by_cases hzero : spanId = 0
      · simp [hzero]
      · simp only [hzero, or_false, Bool.false_eq_true, if_false, Except.ok.injEq,
          Option.some.injEq, Prod.mk.injEq, and_true, ne_eq, not_false_eq_true, iff_true]
        exact ⟨_, rfl, heq⟩
  | cons header rest => rfl

/-- Any other context: its trace id is written as such, and its span id as that of a parent. -/
theorem exists_inject_foreign (p : PropagatorType) {context : OtSpanContext}
    (hown : ∀ own, context ≠ .openTracing (some (.inr own)))
    (hid : traceId.equals TraceId.zero = false) (hids : context.HasIds skipsPlus traceId spanId) :
    ∃ id parentId, ReadsTraceId skipsPlus id traceId ∧ ∀ traces map,
      HttpHeadersCodec.inject p traces context map =
        .ok (traces, (map.set b3TraceId id).set b3ParentId parentId) := by
  cases context with
  | openTracing wrapped =>
      cases wrapped with
      | none => exact absurd hids id
      | some wrapped =>
          cases wrapped with
          | inr own => exact absurd rfl (hown own)
          | inl foreign =>
              exact ⟨_, _, readsTraceId_toString hids.1 hid, fun _ _ => rfl⟩
  | other traceIdText spanIdText => exact ⟨_, _, hids.1, fun _ _ => rfl⟩

theorem extracts_foreign_iff (p : PropagatorType) (draws : Draws) {context : OtSpanContext}
    (hown : ∀ own, context ≠ .openTracing (some (.inr own)))
    (hid : traceId.equals TraceId.zero = false) {id : Text}
    (hread : ReadsTraceId skipsPlus id traceId) (parentId : Text) :
    Extracts p skipsPlus draws ((map.set b3TraceId id).set b3ParentId parentId) traceId spanId ↔
      KeepsIds p skipsPlus context map traceId spanId := by
  have hkeeps : KeepsIds p skipsPlus context map traceId spanId ↔
      KeepsIds p skipsPlus (.openTracing none) map traceId spanId := by
    cases context with
    | other traceIdText spanIdText => cases p <;> rfl
    | openTracing wrapped =>
        cases wrapped with
        | none => exact Iff.rfl
        | some wrapped =>
            cases wrapped with
            | inr own => exact absurd rfl (hown own)
            | inl foreign => cases p <;> rfl
  rw [hkeeps]
  cases p with
  | b3 =>
      obtain ⟨later, htraceIds⟩ := @TextMap.exists_getValues_set map b3TraceId id
      rw [extracts_b3_iff draws hid, TextMap.getValues_set_of_ne parentId (by decide),
        TextMap.getValues_set_of_ne parentId (by decide), htraceIds,
        TextMap.getValues_set_of_ne id (by decide), decisiveText_append hread]
      rfl
  | w3c =>
      rw [extracts_w3c_iff draws hid, TextMap.getValues_set_of_ne parentId (by decide),
        TextMap.getValues_set_of_ne id (by decide)]
      rfl

/-- `Inject` returns, so that only what is read back decides. -/
theorem roundTrips_iff_of_extracts {p : PropagatorType} {context : OtSpanContext} {keeps : Prop}
    {result : List TraceContext → List TraceContext × TextMap}
    (h : ∀ traces, HttpHeadersCodec.inject p traces context map = .ok (result traces))
    (hkeeps : ∀ traces draws,
      Extracts p skipsPlus draws (result traces).2 traceId spanId ↔ keeps) :
    RoundTrips p skipsPlus context map traceId spanId ↔ keeps := by
  constructor
  · intro htrip
    obtain ⟨other, extracted, hinject, hextract, hids⟩ := htrip [] ⟨0, 0, 0, 0⟩
    obtain rfl := Except.ok.inj ((h []).symm.trans hinject)
    exact (hkeeps [] ⟨0, 0, 0, 0⟩).mp ⟨extracted, hextract, hids⟩
  · intro hkept traces draws
    obtain ⟨extracted, hextract, hids⟩ := (hkeeps traces draws).mpr hkept
    exact ⟨result traces, extracted, h traces, hextract, hids⟩

/-- The ids of a context come back exactly when the map does not hide what is written. -/
theorem roundTrips_iff_keepsIds (p : PropagatorType) {context : OtSpanContext}
    (hid : traceId.equals TraceId.zero = false) (hids : context.HasIds skipsPlus traceId spanId) :
    RoundTrips p skipsPlus context map traceId spanId ↔
      KeepsIds p skipsPlus context map traceId spanId := by
  by_cases hown : ∃ own, context = .openTracing (some (.inr own))
  · obtain ⟨own, rfl⟩ := hown
    have hinject : ∀ traces, HttpHeadersCodec.inject p traces (.openTracing (some (.inr own))) map =
        .ok (p.inject traces own map) := fun _ => rfl
    apply roundTrips_iff_of_extracts hinject
    intro traces draws
    cases p with
    | b3 => exact extracts_inject_b3_iff traces draws hid hids.1 hids.2
    | w3c => exact extracts_inject_w3c_iff traces draws hid hids.1 hids.2
  · rw [not_exists] at hown
    obtain ⟨id, parentId, hread, hinject⟩ := exists_inject_foreign p hown hid hids
    apply roundTrips_iff_of_extracts fun traces => hinject traces map
    intro traces draws
    exact extracts_foreign_iff p draws hown hid hread parentId

end Injection

section Totality

variable {skipsPlus : Bool} {map : TextMap}

/-- A wrapped null is not accepted by `Inject`, and every other result of `Extract` is. -/
theorem extractInjects_iff_exists (p : PropagatorType) :
    ExtractInjects p skipsPlus map ↔
      ∀ draws, ∃ context, p.extract skipsPlus draws map = .ok (some context) := by
  constructor
  · intro h draws
    obtain ⟨extracted, result, hextract, hinject⟩ := h [] draws map
    rw [HttpHeadersCodec.extract] at hextract
    cases hcontext : p.extract skipsPlus draws map with
    | error e =>
        rw [hcontext] at hextract
        cases hextract
    | ok propagationContext =>
        rw [hcontext] at hextract
        obtain rfl := Except.ok.inj hextract
        cases propagationContext with
        | none => cases hinject
        | some context => exact ⟨context, rfl⟩
  · intro h traces draws target
    obtain ⟨context, hcontext⟩ := h draws
    refine ⟨.openTracing (some (.inr context)), _, ?_, rfl⟩
    rw [HttpHeadersCodec.extract, hcontext]
    rfl

theorem exists_b3_extract_iff (draws : Draws) :
    (∃ context, PropagatorType.b3.extract skipsPlus draws map = .ok (some context)) ↔
      HoldsContext .b3 skipsPlus map := by
  have hself : TraceId.zero.equals TraceId.zero = true := rfl
  have hvalues : ∀ name, (TextMap.access.getter map name).values = map.getValues name :=
    fun _ => rfl
  rw [PropagatorType.extract, B3.extract, B3.parseTraceId_eq, firstTraceId_eq, hvalues,
    HoldsContext]
  cases hdecisive : decisiveText skipsPlus (map.getValues b3TraceId) with
  | none => simp [hself, pure, Except.pure]
  | some id =>
      simp only [Option.some.injEq, exists_eq_left']
      cases hneg : TraceId.isNegative skipsPlus id with
      | true =>
          rw [tryParseTraceId_of_negative hneg]
          simp [Except.map]
      | false =>
          have hacc : TraceId.isAccepted skipsPlus id = true := by
            simpa [hneg] using List.find?_some hdecisive
          obtain ⟨parsed, hparsed, hzero⟩ := tryParseTraceId_of_accepted hacc
          rw [hparsed]
          by_cases hparsedZero : parsed.equals TraceId.zero = true
          · simp [hparsedZero, hzero.mp hparsedZero, Except.map, pure, Except.pure]
          · have htext := mt hzero.mpr hparsedZero
            simp [hparsedZero, htext, Except.map, pure, Except.pure]

theorem exists_w3c_extract_iff (draws : Draws) :
    (∃ context, PropagatorType.w3c.extract skipsPlus draws map = .ok (some context)) ↔
      HoldsContext .w3c skipsPlus map := by
  rw [HoldsContext]
  cases hvalues : map.getValues W3C.W3CHeaderNames.traceParent with
  | nil =>
      have hgetter : (TextMap.access.getter map W3C.W3CHeaderNames.traceParent).values = [] :=
        hvalues
      have hshared : (TextMap.access.getter map W3C.W3CHeaderNames.traceParent).isSharedEmpty =
        false := rfl
      rw [PropagatorType.extract, W3C.extract, hshared, W3C.first, hgetter]
      simp
  | cons header rest =>
      have hread : (∃ context, PropagatorType.w3c.extract skipsPlus draws map =
          .ok (some context)) ↔
          ∃ traceId spanId, W3C.readTraceParent skipsPlus header = .ok (some (traceId, spanId)) := by
        rw [PropagatorType.extract, W3C.extract_eq_readTraceParent skipsPlus draws hvalues]
        cases W3C.readTraceParent skipsPlus header with
        | error e => simp [Except.map]
        | ok ids =>
            cases ids with
            | none => simp [Except.map]
            | some ids =>
                obtain ⟨traceId, spanId⟩ := ids
                simp [Except.map]
      rw [hread]
      dsimp only
      simp only [W3C.readTraceParent_eq_some_iff]
      constructor
      · rintro ⟨traceId, spanId, id, spanText, hsub, hparsed, hzero, hrest⟩
        obtain ⟨hneg, hacc, htext⟩ := exists_tryParseTraceId_iff.mp ⟨traceId, hparsed, hzero⟩
        exact ⟨id, spanText, spanId, hsub, hneg, hacc, htext, hrest⟩
      · rintro ⟨id, spanText, spanId, hsub, hneg, hacc, htext, hrest⟩
        obtain ⟨traceId, hparsed, hzero⟩ := exists_tryParseTraceId_iff.mpr ⟨hneg, hacc, htext⟩
        exact ⟨traceId, spanId, id, spanText, hsub, hparsed, hzero, hrest⟩

theorem extractInjects_iff (p : PropagatorType) :
    ExtractInjects p skipsPlus map ↔ HoldsContext p skipsPlus map := by
  rw [extractInjects_iff_exists]
  cases p with
  | b3 =>
      constructor
      · intro h
        exact (exists_b3_extract_iff ⟨0, 0, 0, 0⟩).mp (h _)
      · intro h draws
        exact (exists_b3_extract_iff draws).mpr h
  | w3c =>
      constructor
      · intro h
        exact (exists_w3c_extract_iff ⟨0, 0, 0, 0⟩).mp (h _)
      · intro h draws
        exact (exists_w3c_extract_iff draws).mpr h

end Totality

section Codec

/-- A context that is not of this tracer. -/
def foreignContext : OtSpanContext :=
  .other (text "0000000000000001") (text "0000000000000002")

def emptyMap : TextMap := ⟨false, []⟩

theorem foreignContext_hasIds :
    foreignContext.HasIds true (TraceId.ofHalves 0 1) 2 := by
  constructor
  · refine ⟨TraceId.ofHalves 0 1, ?_, ?_⟩ <;> decide
  · decide

theorem equals_zero_of_roundTrips {p : PropagatorType} {skipsPlus : Bool} {context : OtSpanContext}
    {map : TextMap} {traceId : TraceId} {spanId : UInt64}
    (h : RoundTrips p skipsPlus context map traceId spanId) :
    traceId.equals TraceId.zero = false := by
  obtain ⟨result, extracted, -, hextract, hids⟩ := h [] ⟨0, 0, 0, 0⟩
  obtain ⟨own, hown, heq, -⟩ := (extracts_iff p ⟨0, 0, 0, 0⟩).mp ⟨extracted, hextract, hids⟩
  rw [← equals_zero_congr heq]
  exact equals_zero_of_extract hown

/-- Which contexts come back from which maps, and the results of `Extract` that `Inject` accepts. -/
theorem headersCodec_iff (p : PropagatorType) (skipsPlus : Bool) :
    (∀ (context : OtSpanContext) (map : TextMap) (traceId : TraceId) (spanId : UInt64),
      context.HasIds skipsPlus traceId spanId →
        (RoundTrips p skipsPlus context map traceId spanId ↔
          traceId.equals TraceId.zero = false ∧
            KeepsIds p skipsPlus context map traceId spanId)) ∧
      ∀ map, ExtractInjects p skipsPlus map ↔ HoldsContext p skipsPlus map := by
  constructor
  · intro context map traceId spanId hids
    constructor
    · intro htrip
      have hid := equals_zero_of_roundTrips htrip
      exact ⟨hid, (roundTrips_iff_keepsIds p hid hids).mp htrip⟩
    · rintro ⟨hid, hkeeps⟩
      exact (roundTrips_iff_keepsIds p hid hids).mpr hkeeps
  · intro map
    exact extractInjects_iff p

/-- Through B3 an identifier of a foreign context comes back from a map that had its span id. -/
theorem codec_foreign :
    RoundTrips .b3 true foreignContext ⟨false, [(b3SpanId, text "0000000000000002")]⟩
      (TraceId.ofHalves 0 1) 2 := by
  apply ((headersCodec_iff .b3 true).1 foreignContext _ _ _ foreignContext_hasIds).mpr
  refine ⟨by decide, ?_⟩
  dsimp only [KeepsIds, foreignContext]
  constructor
  · intro id h
    cases h
  · decide

/-- On an empty map the span id of a foreign context is lost, and the empty map has no context for
`Inject`. -/
theorem not_codec :
    foreignContext.HasIds true (TraceId.ofHalves 0 1) 2 ∧
      ¬ RoundTrips .b3 true foreignContext emptyMap (TraceId.ofHalves 0 1) 2 ∧
        ¬ ExtractInjects .b3 true emptyMap := by
  refine ⟨foreignContext_hasIds, ?_, ?_⟩
  · intro htrip
    obtain ⟨-, hspan⟩ := (roundTrips_iff_keepsIds .b3 (by decide) foreignContext_hasIds).mp htrip
    revert hspan
    decide
  · intro hinjects
    obtain ⟨id, hid, -⟩ := (extractInjects_iff .b3).mp hinjects
    cases hid

end Codec

end SignalFxTracing.OpenTracing
