import SignalFxTracing.Propagation.W3C
import SignalFxTracing.Lib.ExceptRules
import SignalFxTracing.Trace.Tracer

/-!
# Passing a W3C context through a process

The contexts of descendant spans keep the trace id of the extracted context
over chains of any length. The constructor of a child does not take the trace
state of its parent, so the state reaches only the extracted context itself,
and a carrier that is used again keeps the trace state it held.
-/

namespace SignalFxTracing.Propagation.W3C

open Clr Lib Lib.ExceptRules Trace

/-- `context` is what `CreateSpanContext` returns for a child of `parent`,
given as an argument or found in the active scope. -/
def IsChild (tracer : Tracer) (parent context : SpanContext) : Prop :=
  ∃ (args : Tracer.StartArguments) (traces : List TraceContext),
    Tracer.resolveParent args.active args.parent args.ignoreActiveScope = some (.inr parent) ∧
    (tracer.createSpanContext args.active args.parent args.serviceName args.ignoreActiveScope
      args.spanId args.draws traces).2.1 = context

/-- A chain of `n` spans, each a child of the one before, from the extracted context. -/
inductive Descends (tracer : Tracer) (extracted : SpanContext) : Nat → SpanContext → Prop
  | extracted : Descends tracer extracted 0 extracted
  | child {n : Nat} {parent context : SpanContext} :
      Descends tracer extracted n parent → IsChild tracer parent context →
      Descends tracer extracted (n + 1) context

section

variable {tracer : Tracer} {parent context extracted : SpanContext}

theorem IsChild.exists_ofParent (h : IsChild tracer parent context) :
    ∃ draws t serviceName spanId,
      context = SpanContext.ofParent draws (some (.inr parent)) t serviceName spanId := by
  obtain ⟨args, traces, hparent, rfl⟩ := h
  simp only [Tracer.createSpanContext, hparent]
  exact ⟨_, _, _, _, rfl⟩

theorem IsChild.traceId (h : IsChild tracer parent context) :
    context.traceId = parent.traceId := by
  obtain ⟨draws, t, serviceName, spanId, rfl⟩ := h.exists_ofParent
  rfl

theorem IsChild.traceState (h : IsChild tracer parent context) : context.traceState = none := by
  obtain ⟨draws, t, serviceName, spanId, rfl⟩ := h.exists_ofParent
  rfl

/-- Every descendant belongs to the trace of the extracted context. -/
theorem Descends.traceId {n : Nat} (h : Descends tracer extracted n context) :
    context.traceId = extracted.traceId := by
  induction h with
  | extracted => rfl
  | child _ hchild ih => exact hchild.traceId.trans ih

/-- Past the extracted context no descendant has a trace state. -/
theorem Descends.traceState {n : Nat} (h : Descends tracer extracted n context) :
    context.traceState = if n = 0 then extracted.traceState else none := by
  cases h with
  | extracted => rfl
  | child _ hchild => rw [hchild.traceState, if_neg (Nat.succ_ne_zero _)]

end

section

variable {T : Type*} (access : CarrierAccess T)

/-- The carrier has one trace parent, that of the span in the trace. -/
def WritesTraceParent (traceId : TraceId) (context : SpanContext) (carrier : T) : Prop :=
  (access.getter carrier W3CHeaderNames.traceParent).values =
    [traceParentText traceId context.spanId]

def WritesTraceState (traceState : Option Text) (carrier : T) : Prop :=
  (access.getter carrier W3CHeaderNames.traceState).values = traceState.toList

/-- For a context without a trace state the carrier has no trace state either. -/
def HoldsNoForeignState (context : SpanContext) (carrier : T) : Prop :=
  isNullOrEmpty context.traceState = true →
    (access.getter carrier W3CHeaderNames.traceState).values = []

/-- The trace id that the incoming trace parent carries. -/
def IncomingTraceId (skipsPlus : Bool) (carrier : T) (traceId : TraceId) : Prop :=
  ∃ header traceIdString,
    first (access.getter carrier W3CHeaderNames.traceParent) = .ok header ∧
    substring header versionPrefixIdLength traceIdLength = .ok traceIdString ∧
    tryParseTraceId skipsPlus traceIdString = .ok (some traceId)

end

def w3cHeaders : List Text := [W3CHeaderNames.traceParent, W3CHeaderNames.traceState]

theorem headerNames_ne : W3CHeaderNames.traceState ≠ W3CHeaderNames.traceParent := by decide

theorem headersOf_names_subset (context : SpanContext) :
    (headersOf context).map Prod.fst ⊆ w3cHeaders := by
  rw [headersOf]
  split_ifs
  · simp [w3cHeaders]
  · simp [w3cHeaders]

section

variable {T : Type*} {access : CarrierAccess T} (law : access.Lawful w3cHeaders)
variable (traces : List TraceContext) (context : SpanContext) (carrier : T)

include law

theorem writesTraceParent_inject :
    WritesTraceParent access context.traceId context
      (inject access traces context carrier).2 := by
  refine law.getter_setAll_of_mem (headersOf_names_subset context) ?_ (List.mem_cons_self ..) carrier
  rw [headersOf]
  by_cases h : isNullOrEmpty context.traceState = true
  · simp [h]
  · simp [h, headerNames_ne.symm]

/-- A context with a trace state replaces the one of the carrier. -/
theorem traceState_inject_of_state {state : Text} (hstate : context.traceState = some state)
    (hne : isNullOrEmpty (some state) = false) :
    (access.getter (inject access traces context carrier).2 W3CHeaderNames.traceState).values =
      [state] := by
  have hheaders : headersOf context =
      [(W3CHeaderNames.traceParent, traceParentText context.traceId context.spanId),
        (W3CHeaderNames.traceState, state)] := by
    simp [headersOf, hstate, hne]
  have hmem : (W3CHeaderNames.traceState, state) ∈ headersOf context := by simp [hheaders]
  refine law.getter_setAll_of_mem (headersOf_names_subset context) ?_ hmem carrier
  simp [hheaders, headerNames_ne.symm]

/-- A context without a trace state leaves the one of the carrier. -/
theorem traceState_inject_of_none (h : isNullOrEmpty context.traceState = true) :
    access.getter (inject access traces context carrier).2 W3CHeaderNames.traceState =
      access.getter carrier W3CHeaderNames.traceState := by
  refine law.getter_setAll_of_notMem (headersOf_names_subset context) ?_ ?_ carrier
  · simp [w3cHeaders]
  · simp [headersOf, h, headerNames_ne]

/-- No foreign trace state is left exactly when the context brings one or the
carrier held none. -/
theorem holdsNoForeignState_inject_iff :
    HoldsNoForeignState access context (inject access traces context carrier).2 ↔
      isNullOrEmpty context.traceState = false ∨
        (access.getter carrier W3CHeaderNames.traceState).values = [] := by
  unfold HoldsNoForeignState
  cases h : isNullOrEmpty context.traceState with
  | false => simp
  | true => simp [traceState_inject_of_none law traces context carrier h]

end

section

variable {I O : Type*} {incoming : CarrierAccess I} {skipsPlus : Bool} {draws : Draws}

/-- An extracted context has the trace id that the header names. -/
theorem incomingTraceId_of_extract {source : I} {extracted : SpanContext}
    (h : extract incoming skipsPlus draws source = .ok (some extracted)) :
    IncomingTraceId incoming skipsPlus source extracted.traceId := by
  unfold extract at h
  dsimp only at h
  split at h
  · cases h
  · obtain ⟨header, hfirst, h⟩ := bind_eq_ok_iff.mp h
    obtain ⟨traceIdString, hid, h⟩ := bind_eq_ok_iff.mp h
    obtain ⟨parsed, hparse, h⟩ := bind_eq_ok_iff.mp h
    refine ⟨header, traceIdString, hfirst, hid, ?_⟩
    rw [hparse]
    cases parsed with
    | none => cases h
    | some traceId =>
        dsimp only at h
        split at h
        · cases h
        · obtain ⟨spanIdString, -, h⟩ := bind_eq_ok_iff.mp h
          split at h
          · cases h
          · split at h
            · cases h
            · cases h
              rfl

/-- Over every chain the trace parent is right. The trace state is passed on
exactly when the chain has no span, and a carrier keeps a foreign one exactly
when the context has none and the carrier held one. -/
theorem inject_descendant_iff {outgoing : CarrierAccess O} (law : outgoing.Lawful w3cHeaders)
    {tracer : Tracer} {extracted context : SpanContext} {n : Nat} (source : I)
    (hextract : extract incoming skipsPlus draws source = .ok (some extracted))
    (hstate : isNullOrEmpty extracted.traceState = false)
    (hdescends : Descends tracer extracted n context) (traces : List TraceContext)
    (carrier : O) :
    IncomingTraceId incoming skipsPlus source extracted.traceId ∧
      WritesTraceParent outgoing extracted.traceId context
        (inject outgoing traces context carrier).2 ∧
      (WritesTraceState outgoing extracted.traceState (inject outgoing traces context carrier).2 ∧
          HoldsNoForeignState outgoing context (inject outgoing traces context carrier).2 ↔
        n = 0) ∧
      ∀ (other : SpanContext),
        HoldsNoForeignState outgoing other (inject outgoing traces other carrier).2 ↔
          isNullOrEmpty other.traceState = false ∨
            (outgoing.getter carrier W3CHeaderNames.traceState).values = [] := by
  obtain ⟨state, hsome⟩ : ∃ state, extracted.traceState = some state :=
    Option.ne_none_iff_exists'.mp fun h => by simp [h, isNullOrEmpty] at hstate
  have hcontext := hdescends.traceState
  refine ⟨incomingTraceId_of_extract hextract, ?_, ⟨?_, ?_⟩,
    fun other => holdsNoForeignState_inject_iff law traces other carrier⟩
  · rw [← hdescends.traceId]
    exact writesTraceParent_inject law traces context carrier
  · rintro ⟨hwrites, hforeign⟩
    by_contra hn
    rw [if_neg hn] at hcontext
    have hempty := hforeign (by simp [hcontext, isNullOrEmpty])
    rw [WritesTraceState, hempty, hsome] at hwrites
    cases hwrites
  · intro hn
    rw [if_pos hn] at hcontext
    rw [hsome] at hcontext hstate
    refine ⟨?_, fun h => ?_⟩
    · rw [WritesTraceState, hsome]
      exact traceState_inject_of_state law traces context carrier hcontext hstate
    · rw [hcontext, hstate] at h
      cases h

end

/-- An incoming request with the trace state `a=b`. -/
def incomingHeaders : HeaderMap :=
  Function.update
    (Function.update (fun _ => []) W3CHeaderNames.traceParent
      [text "00-0000000000000000000000000000000a-000000000000000b-01"])
    W3CHeaderNames.traceState [text "a=b"]

/-- The context of the incoming request. -/
def incomingContext : SpanContext :=
  SpanContext.ofPropagated ⟨0, 0, 0, 0⟩ (some (TraceId.ofHalves 0 10)) 11 none none
    (some (text "a=b"))

/-- The server span of the request. -/
def serverContext : SpanContext :=
  SpanContext.ofParent ⟨0, 0, 0, 12⟩ (some (.inr incomingContext)) 0 none none

theorem descends_serverContext : Descends Tracer.plain incomingContext 1 serverContext :=
  .child .extracted ⟨⟨none, none, some (.inr incomingContext), none, none, false, none,
    ⟨0, 0, 0, 12⟩, 0⟩, [], rfl, rfl⟩

theorem extract_incomingHeaders :
    extract HeaderMap.access true ⟨0, 0, 0, 0⟩ incomingHeaders = .ok (some incomingContext) := by
  rfl

theorem inject_descendant_serverContext :
    IncomingTraceId HeaderMap.access true incomingHeaders incomingContext.traceId ∧
      WritesTraceParent HeaderMap.access incomingContext.traceId serverContext
        (inject HeaderMap.access [] serverContext (fun _ => [])).2 :=
  have h := inject_descendant_iff HeaderMap.access_lawful incomingHeaders
    extract_incomingHeaders rfl descends_serverContext [] (fun _ => [])
  ⟨h.1, h.2.1⟩

/-- The server span writes no trace state, and on the headers of the incoming
request it leaves the one that is there. -/
theorem inject_serverContext_loses_state :
    extract HeaderMap.access true ⟨0, 0, 0, 0⟩ incomingHeaders = .ok (some incomingContext) ∧
      Descends Tracer.plain incomingContext 1 serverContext ∧
      ¬ WritesTraceState HeaderMap.access incomingContext.traceState
        (inject HeaderMap.access [] serverContext (fun _ => [])).2 ∧
      ¬ HoldsNoForeignState HeaderMap.access serverContext
        (inject HeaderMap.access [] serverContext incomingHeaders).2 := by
  refine ⟨extract_incomingHeaders, descends_serverContext, ?_, ?_⟩
  · rw [WritesTraceState, traceState_inject_of_none HeaderMap.access_lawful _ _ _ rfl]
    exact List.cons_ne_nil _ _ ∘ Eq.symm
  · rw [holdsNoForeignState_inject_iff HeaderMap.access_lawful]
    decide

end SignalFxTracing.Propagation.W3C
