import SignalFxTracing.Trace.Span

/-!
# Starting spans (`Tracer.cs`)

`StartSpan` creates a context, applies the tags of the settings and adds the
span to its trace, in that order. The trace contexts of the process are a
list; a new one is appended.
-/

namespace SignalFxTracing.Trace

open Clr

/-- What `AzureAppServices.Metadata` reports when it is relevant. -/
structure AzureMetadata where
  siteName : Option Text
  resourceGroup : Option Text
  subscriptionId : Option Text
  resourceId : Option Text

structure Tracer where
  runtime : Runtime
  defaultServiceName : Option Text
  environment : Option Text
  assemblyVersion : Text
  globalTags : List (Text × Option Text)
  sampler : Option (Span → SamplingPriority)
  azure : Option AzureMetadata

namespace Tracer

/-- A tracer without settings. -/
def plain : Tracer where
  runtime := ⟨fun _ => none, id⟩
  defaultServiceName := none
  environment := none
  assemblyVersion := text "0.2.0"
  globalTags := []
  sampler := none
  azure := none

/-- The parent that a call without an explicit one takes from the active scope. -/
def resolveParent (active parent : Option ISpanContext) (ignoreActiveScope : Bool) :
    Option ISpanContext :=
  if parent.isNone ∧ ¬ ignoreActiveScope then active else parent

/-- The trace context for a child of `parent`, the flag `isRootSpan` and the
trace contexts afterwards. -/
def traceContextFor (parent : Option ISpanContext) (traces : List TraceContext) :
    Bool × TraceRef × List TraceContext :=
  match parent with
  | some (.inr parentSpanContext) =>
      match parentSpanContext.traceContext with
      | some t => (false, t, traces)
      | none =>
          (false, traces.length,
            traces ++ [TraceContext.create parentSpanContext.samplingPriority])
  | _ => (true, traces.length, traces ++ [TraceContext.create none])

/-- `CreateSpanContext`. -/
def createSpanContext (tracer : Tracer) (active parent : Option ISpanContext)
    (serviceName : Option Text) (ignoreActiveScope : Bool) (spanId : Option UInt64)
    (draws : Draws) (traces : List TraceContext) : Bool × SpanContext × List TraceContext :=
  let parent := resolveParent active parent ignoreActiveScope
  let (isRootSpan, t, traces) := traceContextFor parent traces
  let finalServiceName :=
    (serviceName.or (parent.bind ISpanContext.serviceName)).or tracer.defaultServiceName
  (isRootSpan, SpanContext.ofParent draws parent t finalServiceName spanId, traces)

/-- The tags that `StartSpan` sets before it adds the span, in order. -/
def startTags (tracer : Tracer) (isRootSpan : Bool) : List (Text × Option Text) :=
  (if isNullOrWhiteSpace tracer.environment then []
    else [(Tags.environment, tracer.environment)]) ++
  (if isRootSpan then
    [(Tags.language, some (text "dotnet-tracing")), (Tags.version, some tracer.assemblyVersion)]
    else []) ++
  tracer.globalTags

/-- The tags of `DecorateRootSpan`. -/
def azureTags (azure : Option AzureMetadata) : List (Text × Option Text) :=
  match azure with
  | none => []
  | some metadata =>
      [(Tags.azureAppServicesSiteName, metadata.siteName),
        (Tags.azureAppServicesResourceGroup, metadata.resourceGroup),
        (Tags.azureAppServicesSubscriptionId, metadata.subscriptionId),
        (Tags.azureAppServicesResourceId, metadata.resourceId)]

/-- Successive calls of `SetTag`. The flag is `false` when one of them raised
an exception; what the earlier ones did stays. -/
def setTags (rt : Runtime) :
    List (Text × Option Text) → Span → TraceContext → Bool × Span × TraceContext
  | [], span, trace => (true, span, trace)
  | (key, value) :: rest, span, trace =>
      match Span.setTag rt key value span trace with
      | none => (false, span, trace)
      | some (span, trace) => setTags rt rest span trace

/-- The priority of the span's parent when that is a `SpanContext`. -/
def parentPriority (span : Span) : Option SamplingPriority :=
  match span.context.parent with
  | some (.inr context) => context.samplingPriority
  | _ => none

/-- `TraceContext.AddSpan` of the span object at `ref`, with the tags that the
first span of a trace receives. -/
def addSpan (tracer : Tracer) (ref : SpanRef) (span : Span) (trace : TraceContext) :
    Span × TraceContext :=
  let (_, span, trace) :=
    if trace.rootSpan = none then setTags tracer.runtime (azureTags tracer.azure) span trace
    else (true, span, trace)
  (span, trace.addSpan (tracer.sampler.map fun sampler _ => sampler span)
    (parentPriority span) ref)

/-- The arguments of `StartSpan`, with the active context and the clock at the call. -/
structure StartArguments where
  active : Option ISpanContext
  operationName : Option Text
  parent : Option ISpanContext
  serviceName : Option Text
  startTime : Option Int
  ignoreActiveScope : Bool
  spanId : Option UInt64
  draws : Draws
  utcNow : Int

/-- `new Span(spanContext, startTime) { OperationName = operationName }`. -/
def newSpan (context : SpanContext) (args : StartArguments) : Span :=
  { Span.create context args.startTime args.utcNow with operationName := args.operationName }

/-- `StartSpan` of the span object at `ref`: no span when a tag raised an exception. -/
def startSpan (tracer : Tracer) (args : StartArguments) (ref : SpanRef)
    (traces : List TraceContext) : Option Span × List TraceContext :=
  let (isRootSpan, context, traces) := tracer.createSpanContext args.active args.parent
    args.serviceName args.ignoreActiveScope args.spanId args.draws traces
  match context.traceContext.bind fun t => traces[t]?.map fun trace => (t, trace) with
  | none => (none, traces)
  | some (t, trace) =>
      match setTags tracer.runtime (tracer.startTags isRootSpan) (newSpan context args) trace with
      | (false, _, trace) => (none, traces.set t trace)
      | (true, span, trace) =>
          let (span, trace) := tracer.addSpan ref span trace
          (some span, traces.set t trace)

/-- Setting tags keeps the context of the span. -/
theorem setTags_context (rt : Runtime) (tags : List (Text × Option Text)) (span : Span)
    (trace : TraceContext) : (setTags rt tags span trace).2.1.context = span.context := by
  induction tags generalizing span trace with
  | nil => rfl
  | cons tag rest ih =>
      rw [setTags]
      split
      · rfl
      · next h => exact (ih _ _).trans (Span.setTag_context h)

@[simp] theorem addSpan_context (tracer : Tracer) (ref : SpanRef) (span : Span)
    (trace : TraceContext) : (tracer.addSpan ref span trace).1.context = span.context := by
  unfold addSpan
  by_cases h : trace.rootSpan = none
  · simp only [h, if_true]
    exact setTags_context tracer.runtime (azureTags tracer.azure) span trace
  · simp only [h, if_false]

/-- Whether successive calls of `SetTag` on an unfinished span return depends on the tags only. -/
theorem setTags_fst (rt : Runtime) (tags : List (Text × Option Text)) {span : Span}
    (hspan : span.isFinished = false) (trace : TraceContext) :
    (setTags rt tags span trace).1 = true ↔
      ∀ tag ∈ tags, tagEffect rt tag.1 tag.2 ≠ .argumentNull := by
  induction tags generalizing span trace with
  | nil => simp [setTags]
  | cons tag rest ih =>
      rw [setTags, List.forall_mem_cons]
      split
      · next hnone =>
          have hraises := (Span.setTag_eq_none_iff hspan trace).mp hnone
          simp [hraises]
      · next after trace' hsome =>
          have hkept : after.isFinished = false := (Span.setTag_isFinished hsome).trans hspan
          have hreturns : tagEffect rt tag.1 tag.2 ≠ .argumentNull := by
            intro hraises
            rw [(Span.setTag_eq_none_iff hspan trace).mpr hraises] at hsome
            cases hsome
          rw [ih hkept]
          simp [hreturns]

/-- Whether `StartSpan` returns a span depends on the parent and the traces only. -/
theorem startSpan_isSome_iff (tracer : Tracer) (args : StartArguments) (ref : SpanRef)
    (traces : List TraceContext) :
    (tracer.startSpan args ref traces).1.isSome = true ↔
      let parent := resolveParent args.active args.parent args.ignoreActiveScope
      (traceContextFor parent traces).2.1 < (traceContextFor parent traces).2.2.length ∧
        ∀ tag ∈ tracer.startTags (traceContextFor parent traces).1,
          tagEffect tracer.runtime tag.1 tag.2 ≠ .argumentNull := by
  dsimp only
  unfold startSpan createSpanContext
  dsimp only
  rcases traceContextFor (resolveParent args.active args.parent args.ignoreActiveScope) traces
    with ⟨isRootSpan, t, traces'⟩
  simp only [SpanContext.ofParent_traceContext, Option.bind_some]
  cases htrace : traces'[t]? with
  | none =>
      have hle : ¬ t < traces'.length := Nat.not_lt_of_le (List.getElem?_eq_none_iff.mp htrace)
      simp [hle]
  | some trace =>
      have hlt : t < traces'.length := (List.getElem?_eq_some_iff.mp htrace).1
      simp only [Option.map_some, hlt, true_and]
      generalize hnew : newSpan _ args = span
      have hspan : span.isFinished = false := by
        rw [← hnew]
        rfl
      rw [← setTags_fst tracer.runtime (tracer.startTags isRootSpan) hspan trace]
      split
      · next hfalse => simp [hfalse]
      · next htrue => simp [htrue]

/-- A started span carries the context that `CreateSpanContext` returns. -/
theorem startSpan_context {tracer : Tracer} {args : StartArguments} {ref : SpanRef}
    {traces after : List TraceContext} {span : Span}
    (h : tracer.startSpan args ref traces = (some span, after)) :
    span.context = (tracer.createSpanContext args.active args.parent args.serviceName
      args.ignoreActiveScope args.spanId args.draws traces).2.1 := by
  unfold startSpan at h
  generalize tracer.createSpanContext args.active args.parent args.serviceName
    args.ignoreActiveScope args.spanId args.draws traces = created at h ⊢
  obtain ⟨isRootSpan, context, traces⟩ := created
  simp only at h ⊢
  split at h
  · cases h
  · split at h
    · cases h
    · next hset =>
        obtain ⟨rfl, -⟩ := Prod.mk.inj h |>.imp_left Option.some.inj
        rw [addSpan_context]
        have hcontext := congrArg (fun result => result.2.1.context) hset
        rw [setTags_context] at hcontext
        exact hcontext.symm

theorem length_le_traceContextFor (parent : Option ISpanContext) (traces : List TraceContext) :
    traces.length ≤ (traceContextFor parent traces).2.2.length := by
  unfold traceContextFor
  split
  · split <;> simp
  · simp

/-- Starting a span loses no trace, and the span is in one of them. -/
theorem startSpan_traces {tracer : Tracer} {args : StartArguments} {ref : SpanRef}
    {traces after : List TraceContext} {span : Option Span}
    (h : tracer.startSpan args ref traces = (span, after)) :
    traces.length ≤ after.length ∧
      ∀ started, span = some started →
        ∃ t, started.context.traceContext = some t ∧ t < after.length := by
  have hgrown := length_le_traceContextFor
    (resolveParent args.active args.parent args.ignoreActiveScope) traces
  unfold startSpan createSpanContext at h
  dsimp only at h
  generalize traceContextFor (resolveParent args.active args.parent args.ignoreActiveScope) traces =
    found at h hgrown
  obtain ⟨isRootSpan, t, before⟩ := found
  simp only [SpanContext.ofParent_traceContext, Option.bind_some] at h hgrown
  cases htrace : before[t]? with
  | none =>
      simp only [htrace, Option.map_none] at h
      obtain ⟨rfl, rfl⟩ := Prod.mk.inj h
      exact ⟨hgrown, nofun⟩
  | some trace =>
      have hlt : t < before.length := (List.getElem?_eq_some_iff.mp htrace).1
      simp only [htrace, Option.map_some] at h
      split at h
      · obtain ⟨rfl, rfl⟩ := Prod.mk.inj h
        exact ⟨by rwa [List.length_set], nofun⟩
      · next span' trace' hset =>
          obtain ⟨rfl, rfl⟩ := Prod.mk.inj h
          rw [List.length_set]
          refine ⟨hgrown, ?_⟩
          rintro started hstarted
          obtain rfl := Option.some.inj hstarted
          have hcontext := congrArg (fun result => result.2.1.context) hset
          rw [setTags_context] at hcontext
          refine ⟨t, ?_, hlt⟩
          rw [addSpan_context, ← hcontext]
          rfl

end Tracer

end SignalFxTracing.Trace
