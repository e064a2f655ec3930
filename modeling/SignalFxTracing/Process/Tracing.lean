import SignalFxTracing.Lib.Machine
import SignalFxTracing.Propagation.B3
import SignalFxTracing.Propagation.W3C
import SignalFxTracing.Trace.Tracer

/-!
# The tracing operations of one process

Trace contexts, span contexts and spans are lists; a reference is a position.
An event is one call of the tracer, of a span, of the setter of
`TraceContext.SamplingPriority` or of a propagator. The arguments name the
contexts they use, so that every context with a trace context is one that
`CreateSpanContext` made in this process.
-/

namespace SignalFxTracing.Process

open Clr Lib Trace Propagation

/-- A context that a caller can pass. -/
inductive ContextRef
  | foreign (context : ForeignContext)
  /-- Built by the public constructor, as the propagators do. -/
  | propagated (draws : Draws) (traceId : Option TraceId) (spanId : UInt64)
      (samplingPriority : Option SamplingPriority) (serviceName traceState : Option Text)
  | created (index : Nat)

/-- The arguments of `StartSpan` and `CreateSpanContext`, with what they read. -/
structure Call where
  active : Option ContextRef
  operationName : Option Text
  parent : Option ContextRef
  serviceName : Option Text
  startTime : Option Int
  ignoreActiveScope : Bool
  spanId : Option UInt64
  draws : Draws
  utcNow : Int

inductive Format
  | b3
  | w3c

inductive Event
  | createSpanContext (call : Call)
  | startSpan (call : Call)
  | setTag (span : SpanRef) (key : Text) (value : Option Text)
  | assignPriority (trace : TraceRef) (value : Option SamplingPriority)
  | inject (format : Format) (context : ContextRef) (carrier : HeaderMap)
  | finish (span : SpanRef) (finishTimestamp : Int)

structure State where
  traces : List TraceContext
  contexts : List SpanContext
  spans : List Span

namespace State

/-- The context that a reference names. -/
def context (s : State) : ContextRef → Option ISpanContext
  | .foreign context => some (.inl context)
  | .propagated draws traceId spanId samplingPriority serviceName traceState =>
      some (.inr (.ofPropagated draws traceId spanId samplingPriority serviceName traceState))
  | .created index => s.contexts[index]?.map Sum.inr

/-- The arguments of a call; `none` when a reference names no context. -/
def arguments (s : State) (call : Call) : Option Tracer.StartArguments := do
  let active ← call.active.elim (some none) fun ref => (s.context ref).map some
  let parent ← call.parent.elim (some none) fun ref => (s.context ref).map some
  return { active, operationName := call.operationName, parent, serviceName := call.serviceName,
           startTime := call.startTime, ignoreActiveScope := call.ignoreActiveScope,
           spanId := call.spanId, draws := call.draws, utcNow := call.utcNow }

/-- A span with the reference to its trace and the trace. -/
def spanInTrace (s : State) (i : SpanRef) : Option (Span × TraceRef × TraceContext) := do
  let span ← s.spans[i]?
  let t ← span.context.traceContext
  let trace ← s.traces[t]?
  return (span, t, trace)

theorem spanInTrace_eq_some {s : State} {i : SpanRef} {span : Span} {u : TraceRef} {trace : TraceContext} :
    s.spanInTrace i = some (span, u, trace) ↔
      s.spans[i]? = some span ∧ span.context.traceContext = some u ∧
        s.traces[u]? = some trace := by
  simp only [spanInTrace, bind, Option.bind_eq_some_iff, pure, Option.some.injEq,
    Prod.mk.injEq]
  constructor
  · rintro ⟨_, hspan, _, hu, _, htrace, rfl, rfl, rfl⟩
    exact ⟨hspan, hu, htrace⟩
  · rintro ⟨hspan, hu, htrace⟩
    exact ⟨span, hspan, u, hu, trace, htrace, rfl, rfl, rfl⟩

/-- The span exists and belongs to one of the traces. -/
def IsTraced (s : State) (i : SpanRef) : Prop :=
  ∃ span t, s.spans[i]? = some span ∧ span.context.traceContext = some t ∧ t < s.traces.length

theorem IsTraced.exists_spanInTrace {s : State} {i : SpanRef} (h : s.IsTraced i) :
    ∃ span t trace, s.spanInTrace i = some (span, t, trace) := by
  obtain ⟨span, t, hspan, ht, hlt⟩ := h
  exact ⟨span, t, s.traces[t], spanInTrace_eq_some.mpr ⟨hspan, ht, List.getElem?_eq_getElem hlt⟩⟩

/-- A span is replaced by one in the same trace, and no trace is lost. -/
theorem IsTraced.set {s : State} {i j : SpanRef} (h : s.IsTraced i) {before after : Span}
    (hbefore : s.spans[j]? = some before) (hcontext : after.context = before.context)
    {contexts : List SpanContext} {traces : List TraceContext}
    (htraces : s.traces.length ≤ traces.length) :
    IsTraced ⟨traces, contexts, s.spans.set j after⟩ i := by
  obtain ⟨span, t, hspan, ht, hlt⟩ := h
  have htraced : t < traces.length := Nat.lt_of_lt_of_le hlt htraces
  by_cases hij : j = i
  · subst hij
    obtain rfl := Option.some.inj (hbefore.symm.trans hspan)
    refine ⟨after, t, List.getElem?_set_self (List.getElem?_eq_some_iff.mp hspan).1, ?_, htraced⟩
    rw [hcontext, ht]
  · exact ⟨span, t, (List.getElem?_set_ne hij).trans hspan, ht, htraced⟩

theorem IsTraced.modify {s : State} {i : SpanRef} (h : s.IsTraced i) (j : SpanRef)
    {f : Span → Span} (hf : ∀ span, (f span).context = span.context) :
    IsTraced { s with spans := s.spans.modify j f } i := by
  obtain ⟨span, t, hspan, ht, hlt⟩ := h
  refine ⟨if j = i then f span else span, t, ?_, ?_, hlt⟩
  · simp [List.getElem?_modify, hspan]
  · split_ifs
    · rw [hf, ht]
    · exact ht

theorem IsTraced.grow {s s' : State} {i : SpanRef} (h : s.IsTraced i)
    (hspans : s.spans <+: s'.spans) (htraces : s.traces.length ≤ s'.traces.length) :
    s'.IsTraced i := by
  obtain ⟨span, t, hspan, ht, hlt⟩ := h
  obtain ⟨hi, rfl⟩ := List.getElem?_eq_some_iff.mp hspan
  exact ⟨_, t, List.prefix_iff_getElem?.mp hspans i hi, ht, Nat.lt_of_lt_of_le hlt htraces⟩

end State

/-- The traces after a propagator has injected a context. -/
def tracesAfterInject (format : Format) (traces : List TraceContext) (context : SpanContext)
    (carrier : HeaderMap) : List TraceContext :=
  match format with
  | .b3 => (B3.inject HeaderMap.access traces context carrier).1
  | .w3c => (W3C.inject HeaderMap.access traces context carrier).1

@[simp] theorem tracesAfterInject_eq (format : Format) (traces : List TraceContext)
    (context : SpanContext) (carrier : HeaderMap) :
    tracesAfterInject format traces context carrier = lockTraceOf context traces := by
  cases format <;> rfl

variable (tracer : Tracer)

/-- A tag that raises an exception leaves the state as it is. -/
def setTag (s : State) (i : SpanRef) (key : Text) (value : Option Text) : Option State := do
  let (span, t, trace) ← s.spanInTrace i
  match Span.setTag tracer.runtime key value span trace with
  | none => return s
  | some (span, trace) =>
      return { s with spans := s.spans.set i span, traces := s.traces.set t trace }

theorem State.IsTraced.setTag {s : State} {i : SpanRef} (h : s.IsTraced i) (j : SpanRef)
    (key : Text) (value : Option Text) : ((setTag tracer s j key value).getD s).IsTraced i := by
  rw [Process.setTag]
  cases hfound : s.spanInTrace j with
  | none => exact h
  | some found =>
      obtain ⟨span, t, trace⟩ := found
      cases hset : Span.setTag tracer.runtime key value span trace with
      | none =>
          simp only [bind, Option.bind_some, hset]
          exact h
      | some tagged =>
          simp only [bind, Option.bind_some, hset]
          exact h.set (State.spanInTrace_eq_some.mp hfound).1 (Span.setTag_context hset)
            (Nat.le_of_eq List.length_set.symm)

/-- `Finish` of a span, with `CloseSpan` of its trace the first time. -/
def finish (s : State) (i : SpanRef) (finishTimestamp : Int) : Option State := do
  let (span, t, trace) ← s.spanInTrace i
  let (finished, shouldCloseSpan) := span.markFinished finishTimestamp
  let trace := if shouldCloseSpan then ((trace.lockOnRootSpan i).detachSpans).1 else trace
  return { s with spans := s.spans.set i finished, traces := s.traces.set t trace }

theorem State.IsTraced.finish {s : State} {i : SpanRef} (h : s.IsTraced i) (j : SpanRef)
    (finishTimestamp : Int) : ((finish s j finishTimestamp).getD s).IsTraced i := by
  rw [Process.finish]
  cases hfound : s.spanInTrace j with
  | none => exact h
  | some found =>
      obtain ⟨span, t, trace⟩ := found
      exact h.set (State.spanInTrace_eq_some.mp hfound).1 (Span.markFinished_context _ span)
        (Nat.le_of_eq List.length_set.symm)

def startSpan (s : State) (call : Call) : Option State := do
  let args ← s.arguments call
  match tracer.startSpan args s.spans.length s.traces with
  | (none, traces) => return { s with traces }
  | (some span, traces) =>
      return { traces, contexts := s.contexts ++ [span.context], spans := s.spans ++ [span] }

/-- One call. It is refused when it names an object that does not exist. -/
def step (s : State) : Event → Option State
  | .createSpanContext call => do
      let args ← s.arguments call
      let (_, context, traces) := tracer.createSpanContext args.active args.parent
        args.serviceName args.ignoreActiveScope args.spanId args.draws s.traces
      return { s with traces, contexts := s.contexts ++ [context] }
  | .startSpan call => startSpan tracer s call
  | .setTag i key value => setTag tracer s i key value
  | .assignPriority t value => do
      let trace ← s.traces[t]?
      return { s with traces := s.traces.set t (trace.setSamplingPriority value) }
  | .inject format ref carrier =>
      match s.context ref with
      | some (.inr context) =>
          some { s with traces := tracesAfterInject format s.traces context carrier }
      | _ => none
  | .finish i finishTimestamp => finish s i finishTimestamp

def system : Machine State Event where
  initial := ⟨[], [], []⟩
  step := step tracer

end SignalFxTracing.Process
