import SignalFxTracing.Trace.TraceId

/-!
# Span contexts (`SpanContext.cs`, `SamplingPriority.cs`)

A trace context is a shared mutable object, so a span context refers to it by
its position in the list of trace contexts of the process. The parent is kept
by value: what is read from it later (`SpanId`, `SamplingPriority`) has no
setter.

## Implementation notes

`Draws` lists the values that `RandomNumberGenerator.Current.Next()` returns
while one context is built. No result assumes anything about them.
-/

namespace SignalFxTracing.Trace

open Clr

inductive SamplingPriority
  | userReject
  | autoReject
  | autoKeep
  | userKeep
  deriving DecidableEq

/-- The integers of the enumeration. -/
def SamplingPriority.toInt : SamplingPriority → Int
  | userReject => -1
  | autoReject => 0
  | autoKeep => 1
  | userKeep => 2

/-- Reference to a `TraceContext` object. -/
abbrev TraceRef := Nat

/-- An `ISpanContext` of another implementation than `SpanContext`. -/
structure ForeignContext where
  traceId : TraceId
  spanId : UInt64
  serviceName : Option Text
  deriving DecidableEq

structure SpanContext where
  parent : Option (ForeignContext ⊕ SpanContext)
  traceId : TraceId
  spanId : UInt64
  traceState : Option Text
  serviceName : Option Text
  traceContext : Option TraceRef
  samplingPriority : Option SamplingPriority

/-- The interface `ISpanContext`. -/
abbrev ISpanContext := ForeignContext ⊕ SpanContext

namespace ISpanContext

def traceId : ISpanContext → TraceId
  | .inl c => c.traceId
  | .inr c => c.traceId

def spanId : ISpanContext → UInt64
  | .inl c => c.spanId
  | .inr c => c.spanId

def serviceName : ISpanContext → Option Text
  | .inl c => c.serviceName
  | .inr c => c.serviceName

@[simp] theorem traceId_inr (c : SpanContext) : traceId (.inr c) = c.traceId := rfl

@[simp] theorem spanId_inr (c : SpanContext) : spanId (.inr c) = c.spanId := rfl

@[simp] theorem serviceName_inr (c : SpanContext) : serviceName (.inr c) = c.serviceName := rfl

end ISpanContext

/-- Random numbers drawn by one constructor call. -/
structure Draws where
  higher : UInt64
  lower : UInt64
  spanId : UInt64
  retry : UInt64

namespace SpanContext

/-- `ParentId`. -/
def parentId (c : SpanContext) : Option UInt64 := c.parent.map ISpanContext.spanId

/-- The private constructor: without a trace id both ids are drawn. -/
def create (draws : Draws) (traceId : Option TraceId) (serviceName : Option Text) :
    SpanContext :=
  { parent := none
    traceId := traceId.getD (TraceId.ofHalves draws.higher draws.lower)
    spanId := if traceId.isSome then 0 else draws.spanId
    traceState := none
    serviceName := serviceName
    traceContext := none
    samplingPriority := none }

/-- The public constructor of a context that was propagated to this process. -/
def ofPropagated (draws : Draws) (traceId : Option TraceId) (spanId : UInt64)
    (samplingPriority : Option SamplingPriority) (serviceName : Option Text := none)
    (traceState : Option Text := none) : SpanContext :=
  { create draws traceId serviceName with
    spanId := spanId
    samplingPriority := samplingPriority
    traceState := traceState }

/-- The internal constructor of the child of a context. -/
def ofParent (draws : Draws) (parent : Option ISpanContext) (traceContext : TraceRef)
    (serviceName : Option Text) (spanId : Option UInt64) : SpanContext :=
  let base := create draws (parent.map ISpanContext.traceId) serviceName
  let given := spanId.getD base.spanId
  { base with
    parent := parent
    traceContext := some traceContext
    spanId := if given = 0 then draws.retry else given }

section

variable (draws : Draws) (serviceName : Option Text) (spanId : Option UInt64) (t : TraceRef)

@[simp] theorem ofParent_parent (parent : Option ISpanContext) :
    (ofParent draws parent t serviceName spanId).parent = parent := rfl

@[simp] theorem ofParent_traceContext (parent : Option ISpanContext) :
    (ofParent draws parent t serviceName spanId).traceContext = some t := rfl

@[simp] theorem ofParent_samplingPriority (parent : Option ISpanContext) :
    (ofParent draws parent t serviceName spanId).samplingPriority = none := rfl

@[simp] theorem ofParent_traceId (parent : ISpanContext) :
    (ofParent draws (some parent) t serviceName spanId).traceId = parent.traceId := rfl

/-- The constructor of a child leaves the trace state at its default. -/
@[simp] theorem ofParent_traceState (parent : Option ISpanContext) :
    (ofParent draws parent t serviceName spanId).traceState = none := rfl

end

end SpanContext

end SignalFxTracing.Trace
