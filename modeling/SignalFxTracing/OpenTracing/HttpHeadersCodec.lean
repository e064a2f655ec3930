import SignalFxTracing.OpenTracing.TextMap
import SignalFxTracing.Propagation.ExtractErrors
import SignalFxTracing.Propagation.B3RoundTrip
import SignalFxTracing.Propagation.W3CRoundTrip

/-!
# The codec of OpenTracing contexts (`HttpHeadersCodec.cs`)

`Inject` gives a context of this tracer to the propagator and writes the ids of
any other one itself. `Extract` wraps what the propagator returns, also null.

## Implementation notes

The carrier is a text map; another object is refused by both methods. A null
text is set as the empty one.
-/

namespace SignalFxTracing.OpenTracing

open Clr Lib Lib.ExceptRules Trace Propagation
open B3.B3HttpHeaderNames

/-- `global::OpenTracing.ISpanContext`. -/
inductive OtSpanContext
  /-- `OpenTracingSpanContext` around a context, or around null. -/
  | openTracing (context : Option ISpanContext)
  /-- Another implementation, known by its two texts. -/
  | other (traceId spanId : Text)

inductive CodecError
  | extract (e : ExtractError)
  | nullReference
  deriving DecidableEq

/-- `value.ToString(CultureInfo.InvariantCulture)`. -/
def toDecimal (value : UInt64) : Text := text (toString value.toNat)

namespace OtSpanContext

/-- `TraceId`. -/
def traceId : OtSpanContext → Except CodecError Text
  | openTracing none => .error .nullReference
  | openTracing (some context) => .ok (context.traceId.toString.getD [])
  | other traceId _ => .ok traceId

/-- `SpanId`. -/
def spanId : OtSpanContext → Except CodecError Text
  | openTracing none => .error .nullReference
  | openTracing (some context) => .ok (toDecimal context.spanId)
  | other _ spanId => .ok spanId

end OtSpanContext

/-- The configured propagators. -/
inductive PropagatorType
  | b3
  | w3c
  deriving DecidableEq

namespace PropagatorType

/-- `Inject` of the propagator that `BuildPropagator` returns. -/
def inject (p : PropagatorType) (traces : List TraceContext) (context : SpanContext)
    (map : TextMap) : List TraceContext × TextMap :=
  match p with
  | b3 => B3.inject TextMap.access traces context map
  | w3c => W3C.inject TextMap.access traces context map

def extract (p : PropagatorType) (skipsPlus : Bool) (draws : Draws) (map : TextMap) :
    Except ExtractError (Option SpanContext) :=
  match p with
  | b3 => B3.extract TextMap.access skipsPlus draws map
  | w3c => W3C.extract TextMap.access skipsPlus draws map

end PropagatorType

namespace HttpHeadersCodec

variable (p : PropagatorType)

def extract (skipsPlus : Bool) (draws : Draws) (map : TextMap) :
    Except CodecError OtSpanContext :=
  match p.extract skipsPlus draws map with
  | .error e => .error (.extract e)
  | .ok propagationContext => .ok (.openTracing (propagationContext.map .inr))

def inject (traces : List TraceContext) (context : OtSpanContext) (map : TextMap) :
    Except CodecError (List TraceContext × TextMap) :=
  match context with
  | .openTracing (some (.inr spanContext)) => .ok (p.inject traces spanContext map)
  | _ => do
      let traceId ← context.traceId
      let headers := map.set b3TraceId traceId
      let spanId ← context.spanId
      return (traces, headers.set b3ParentId spanId)

end HttpHeadersCodec

section Statement

variable (p : PropagatorType) (skipsPlus : Bool)

/-- The text is read as the trace id. -/
def ReadsTraceId (id : Text) (traceId : TraceId) : Prop :=
  ∃ parsed, tryParseTraceId skipsPlus id = .ok (some parsed) ∧ parsed.equals traceId = true

/-- The text has the ids at the positions of a trace parent. -/
def ReadsTraceParent (header : Text) (traceId : TraceId) (spanId : UInt64) : Prop :=
  ∃ id spanText,
    W3C.substring header W3C.versionPrefixIdLength W3C.traceIdLength = .ok id ∧
      ReadsTraceId skipsPlus id traceId ∧
      W3C.substring header W3C.versionAndTraceIdLength W3C.spanIdLength = .ok spanText ∧
      tryParseHexUInt64 spanText = some spanId ∧ spanId ≠ 0

/-- The ids of a context; those of a foreign one as B3 reads them. -/
def OtSpanContext.HasIds (context : OtSpanContext) (traceId : TraceId) (spanId : UInt64) : Prop :=
  match context with
  | openTracing none => False
  | openTracing (some context) => context.traceId.equals traceId = true ∧ context.spanId = spanId
  | other traceIdText spanIdText =>
      ReadsTraceId skipsPlus traceIdText traceId ∧ tryParseHexUInt64 spanIdText = some spanId

/-- `Extract` after `Inject` gives a context with these ids. -/
def RoundTrips (context : OtSpanContext) (map : TextMap) (traceId : TraceId) (spanId : UInt64) :
    Prop :=
  ∀ traces draws, ∃ result extracted,
    HttpHeadersCodec.inject p traces context map = .ok result ∧
      HttpHeadersCodec.extract p skipsPlus draws result.2 = .ok extracted ∧
      extracted.HasIds skipsPlus traceId spanId

/-- What `Extract` gives can be given to `Inject`, for any carrier. -/
def ExtractInjects (map : TextMap) : Prop :=
  ∀ traces draws target, ∃ extracted result,
    HttpHeadersCodec.extract p skipsPlus draws map = .ok extracted ∧
      HttpHeadersCodec.inject p traces extracted target = .ok result

/-- The map does not hide the ids that are written: no value under another spelling of a name is
read before them, and for a context that is not of this tracer, whose span id is not written, the
map has had it before. -/
def KeepsIds (context : OtSpanContext) (map : TextMap) (traceId : TraceId) (spanId : UInt64) :
    Prop :=
  match p, context with
  | .b3, .openTracing (some (.inr _)) =>
      (∀ id, decisiveText skipsPlus (map.before b3TraceId) = some id →
        ReadsTraceId skipsPlus id traceId) ∧
      ∀ value, (map.before b3SpanId).findSome? tryParseHexUInt64 = some value → value = spanId
  | .b3, _ =>
      (∀ id, decisiveText skipsPlus (map.before b3TraceId) = some id →
        ReadsTraceId skipsPlus id traceId) ∧
      ((map.getValues b3SpanId).findSome? tryParseHexUInt64).getD 0 = spanId
  | .w3c, .openTracing (some (.inr _)) =>
      match map.before W3C.W3CHeaderNames.traceParent with
      | [] => spanId ≠ 0
      | header :: _ => ReadsTraceParent skipsPlus header traceId spanId
  | .w3c, _ =>
      match map.getValues W3C.W3CHeaderNames.traceParent with
      | [] => False
      | header :: _ => ReadsTraceParent skipsPlus header traceId spanId

/-- The map has the ids of a context, and none before them that is refused with an exception. -/
def HoldsContext (map : TextMap) : Prop :=
  match p with
  | .b3 =>
      ∃ id, decisiveText skipsPlus (map.getValues b3TraceId) = some id ∧
        TraceId.isNegative skipsPlus id = false ∧ TraceId.isZeroText id = false
  | .w3c =>
      match map.getValues W3C.W3CHeaderNames.traceParent with
      | [] => False
      | header :: _ => ∃ id spanText spanId,
          W3C.substring header W3C.versionPrefixIdLength W3C.traceIdLength = .ok id ∧
            TraceId.isNegative skipsPlus id = false ∧ TraceId.isAccepted skipsPlus id = true ∧
            TraceId.isZeroText id = false ∧
            W3C.substring header W3C.versionAndTraceIdLength W3C.spanIdLength = .ok spanText ∧
            tryParseHexUInt64 spanText = some spanId ∧ spanId ≠ 0

end Statement

end SignalFxTracing.OpenTracing
