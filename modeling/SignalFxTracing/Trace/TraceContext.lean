import SignalFxTracing.Trace.SpanContext

/-!
# The state of one trace (`TraceContext.cs`)

The list `_spans` and the counter `_openSpans` are written only under the
lock on `_spans`. `CloseSpan` is split where the source leaves the lock, so
that other threads can run between its parts.

## Implementation notes

`_openSpans` is an `int` of 32 bits. It never exceeds the length of `_spans`
(`SpanConservation.openSpans_le_length`), and a list of the runtime holds
fewer than 2^31 elements, so the model counts in `Int`.
-/

namespace SignalFxTracing.Trace

open Clr

/-- Reference to a `Span` object. -/
abbrev SpanRef := Nat

structure TraceContext where
  rootSpan : Option SpanRef := none
  spans : List SpanRef := []
  openSpans : Int := 0
  samplingPriority : Option SamplingPriority := none
  samplingPriorityLocked : Bool := false
  deriving DecidableEq

namespace TraceContext

/-- The setter of `SamplingPriority`: a locked priority ignores it. -/
def setSamplingPriority (value : Option SamplingPriority) (ctx : TraceContext) :
    TraceContext :=
  if ctx.samplingPriorityLocked then ctx else { ctx with samplingPriority := value }

/-- A priority that was never set cannot be locked; the source logs a warning. -/
def lockSamplingPriority (ctx : TraceContext) : TraceContext :=
  if ctx.samplingPriority = none then ctx else { ctx with samplingPriorityLocked := true }

/-- `new TraceContext(tracer) { SamplingPriority = priority }`. -/
def create (priority : Option SamplingPriority) : TraceContext :=
  setSamplingPriority priority {}

def defaultSamplingPriority : SamplingPriority := .autoKeep

/-- The branch of `AddSpan` for the first span of the trace. `parentPriority`
is the priority of the span's parent when that is a `SpanContext`. -/
def setRootSpan (sampler : Option (SpanRef → SamplingPriority))
    (parentPriority : Option SamplingPriority) (span : SpanRef) (ctx : TraceContext) :
    TraceContext :=
  let ctx := { ctx with rootSpan := some span }
  if ctx.samplingPriority = none then
    match parentPriority with
    | some priority =>
        lockSamplingPriority { ctx with samplingPriority := some priority }
    | none =>
        let priority := match sampler with
          | none => defaultSamplingPriority
          | some getSamplingPriority => getSamplingPriority span
        { ctx with samplingPriority := some priority }
  else ctx

def addSpan (sampler : Option (SpanRef → SamplingPriority))
    (parentPriority : Option SamplingPriority) (span : SpanRef) (ctx : TraceContext) :
    TraceContext :=
  let ctx := if ctx.rootSpan = none then setRootSpan sampler parentPriority span ctx else ctx
  { ctx with spans := ctx.spans ++ [span], openSpans := ctx.openSpans + 1 }

/-- The part of `CloseSpan` before its lock. -/
def lockOnRootSpan (span : SpanRef) (ctx : TraceContext) : TraceContext :=
  if some span = ctx.rootSpan then lockSamplingPriority ctx else ctx

/-- The part of `CloseSpan` under its lock: the spans to write, if any. -/
def detachSpans (ctx : TraceContext) : TraceContext × Option (List SpanRef) :=
  let openSpans := ctx.openSpans - 1
  if openSpans = 0 then
    ({ ctx with openSpans := openSpans, spans := [] }, some ctx.spans)
  else ({ ctx with openSpans := openSpans }, none)

section Lemmas

variable (ctx : TraceContext) (span : SpanRef) (priority : Option SamplingPriority)
variable (sampler : Option (SpanRef → SamplingPriority))

@[simp] theorem lockSamplingPriority_spans :
    (lockSamplingPriority ctx).spans = ctx.spans := by
  unfold lockSamplingPriority; split <;> rfl

@[simp] theorem lockSamplingPriority_openSpans :
    (lockSamplingPriority ctx).openSpans = ctx.openSpans := by
  unfold lockSamplingPriority; split <;> rfl

@[simp] theorem lockSamplingPriority_rootSpan :
    (lockSamplingPriority ctx).rootSpan = ctx.rootSpan := by
  unfold lockSamplingPriority; split <;> rfl

@[simp] theorem lockSamplingPriority_samplingPriority :
    (lockSamplingPriority ctx).samplingPriority = ctx.samplingPriority := by
  unfold lockSamplingPriority; split <;> rfl

@[simp] theorem setRootSpan_spans :
    (setRootSpan sampler priority span ctx).spans = ctx.spans := by
  unfold setRootSpan
  dsimp only
  split
  · cases priority <;> simp
  · rfl

@[simp] theorem setRootSpan_openSpans :
    (setRootSpan sampler priority span ctx).openSpans = ctx.openSpans := by
  unfold setRootSpan
  dsimp only
  split
  · cases priority <;> simp
  · rfl

@[simp] theorem addSpan_spans :
    (addSpan sampler priority span ctx).spans = ctx.spans ++ [span] := by
  unfold addSpan; split <;> simp

@[simp] theorem addSpan_openSpans :
    (addSpan sampler priority span ctx).openSpans = ctx.openSpans + 1 := by
  unfold addSpan; split <;> simp

@[simp] theorem lockOnRootSpan_spans :
    (lockOnRootSpan span ctx).spans = ctx.spans := by
  unfold lockOnRootSpan; split <;> simp

@[simp] theorem lockOnRootSpan_openSpans :
    (lockOnRootSpan span ctx).openSpans = ctx.openSpans := by
  unfold lockOnRootSpan; split <;> simp

@[simp] theorem detachSpans_openSpans :
    (detachSpans ctx).1.openSpans = ctx.openSpans - 1 := by
  unfold detachSpans; dsimp only; split <;> rfl

end Lemmas

end TraceContext

end SignalFxTracing.Trace
