import SignalFxTracing.Propagation.Carrier

/-!
# B3 propagation (`B3SpanContextPropagator.cs`)

Null arguments raise `ArgumentNullException` at the start of both methods; the
model takes the arguments as present.
-/

namespace SignalFxTracing.Propagation.B3

open Clr Lib Trace

namespace B3HttpHeaderNames

def b3TraceId : Text := text "x-b3-traceid"

def b3SpanId : Text := text "x-b3-spanid"

def b3ParentId : Text := text "x-b3-parentspanid"

def b3Sampled : Text := text "x-b3-sampled"

def b3Flags : Text := text "x-b3-flags"

end B3HttpHeaderNames

open B3HttpHeaderNames

variable {T : Type*} (access : CarrierAccess T)

/-- The name and value of the header that carries a decision. -/
def samplingHeader (priority : SamplingPriority) : Text × Text :=
  let value := if priority.toInt < SamplingPriority.autoKeep.toInt then text "0" else text "1"
  let header :=
    if priority.toInt = SamplingPriority.userKeep.toInt then b3Flags else b3Sampled
  (header, value)

/-- `GetSamplingHeader`. -/
def getSamplingHeader (traces : List TraceContext) (context : SpanContext) :
    Option (Text × Text) :=
  (samplingDecision traces context).map samplingHeader

/-- The headers that `Inject` sets, in the order of its calls of the setter. -/
def headersOf (traces : List TraceContext) (context : SpanContext) : List (Text × Text) :=
  [(b3TraceId, context.traceId.toString.getD []), (b3SpanId, toX16 context.spanId)] ++
    (context.parentId.map fun parentId => (b3ParentId, toX16 parentId)).toList ++
    (getSamplingHeader traces context).toList

/-- `Inject`: lock the priority of the trace, then set the headers. -/
def inject (traces : List TraceContext) (context : SpanContext) (carrier : T) :
    List TraceContext × T :=
  let traces := lockTraceOf context traces
  (traces, access.setAll carrier (headersOf traces context))

/-- `ParseHexUInt64`. -/
def parseHexUInt64 (headerValues : HeaderValues) : UInt64 :=
  if headerValues.isSharedEmpty then 0
  else (headerValues.values.findSome? tryParseHexUInt64).getD 0

/-- `ParseB3Sampled`. -/
def parseB3Sampled (sampled : HeaderValues) : Option SamplingPriority :=
  match sampled.values with
  | value :: _ =>
      if value = text "0" ∨ value = text "1" then
        if value = text "1" then some .autoKeep else some .autoReject
      else none
  | [] => none

/-- `ParseB3FlagsAndSampled`: a flags header of zero or one hides the sampled header. -/
def parseB3FlagsAndSampled (flags sampled : HeaderValues) : Option SamplingPriority :=
  match flags.values with
  | value :: _ =>
      if value = text "0" ∨ value = text "1" then
        if value = text "1" then some .userKeep else none
      else parseB3Sampled sampled
  | [] => parseB3Sampled sampled

/-- `Extract`; `none` is the result null. -/
def extract (skipsPlus : Bool) (draws : Draws) (carrier : T) :
    Except ExtractError (Option SpanContext) := do
  let traceId ← parseTraceId skipsPlus (access.getter carrier b3TraceId)
  if traceId.equals TraceId.zero then return none
  let spanId := parseHexUInt64 (access.getter carrier b3SpanId)
  let samplingPriority :=
    parseB3FlagsAndSampled (access.getter carrier b3Flags) (access.getter carrier b3Sampled)
  return some (SpanContext.ofPropagated draws (some traceId) spanId samplingPriority)

end SignalFxTracing.Propagation.B3
