import SignalFxTracing.Propagation.Carrier

/-!
# W3C trace context propagation (`W3CSpanContextPropagator.cs`)

`Extract` reads the header text at fixed positions and calls `First()` on the
sequence. The exceptions these calls raise are results of the model.
-/

namespace SignalFxTracing.Propagation.W3C

open Clr Lib Trace

namespace W3CHeaderNames

def traceParent : Text := text "traceparent"

def traceState : Text := text "tracestate"

end W3CHeaderNames

def traceStateKeyMaxLength : Nat := 256

def traceStateKeyTenantMaxLength : Nat := 241

def traceStateKeyVendorMaxLength : Nat := 14

def traceStateValueMaxLength : Nat := 256

def versionPrefixIdLength : Nat := 3

def traceIdLength : Nat := 32

def versionAndTraceIdLength : Nat := 36

def spanIdLength : Nat := 16

/-- `string.Format(TraceParentFormat, traceId, spanId)`; null formats as nothing. -/
def traceParentText (traceId : TraceId) (spanId : UInt64) : Text :=
  text "00-" ++ traceId.toString.getD [] ++ text "-" ++ toX16 spanId ++ text "-01"

/-- The headers that `Inject` sets: the parent, and a trace state that is not empty. -/
def headersOf (context : SpanContext) : List (Text × Text) :=
  (W3CHeaderNames.traceParent, traceParentText context.traceId context.spanId) ::
    if isNullOrEmpty context.traceState then []
    else [(W3CHeaderNames.traceState, context.traceState.getD [])]

/-- `Inject`: lock the priority of the trace, then set the headers. -/
def inject {T : Type*} (access : CarrierAccess T) (traces : List TraceContext)
    (context : SpanContext) (carrier : T) : List TraceContext × T :=
  (lockTraceOf context traces, access.setAll carrier (headersOf context))

/-- `IsLowerAlphaDigit`. -/
def isLowerAlphaDigit (c : UInt16) : Bool :=
  (0x30 ≤ c && c ≤ 0x39) || (0x61 ≤ c && c ≤ 0x7A)

/-- The further characters of a key: letters, digits, `_`, `-`, `*` and `/`. -/
def isKeyChar (c : UInt16) : Bool :=
  isLowerAlphaDigit c || c == 0x5F || c == 0x2D || c == 0x2A || c == 0x2F

/-- `ValidateKey`. The part before the first `@` is the tenant, when there is one. -/
def validateKey (key : Text) : Bool :=
  match key with
  | [] => false
  | first :: rest =>
      let beforeAt := rest.takeWhile (· != 0x40)
      if key.length > traceStateKeyMaxLength then false
      else if !isLowerAlphaDigit first then false
      else if !beforeAt.all isKeyChar then false
      else if beforeAt.length = rest.length then true
      else
        let tenantLength := beforeAt.length + 1
        let vendor := key.drop (tenantLength + 1)
        if tenantLength > traceStateKeyTenantMaxLength then false
        else if vendor.length = 0 ∨ vendor.length > traceStateKeyVendorMaxLength then false
        else vendor.all isKeyChar

def isValueChar (c : UInt16) : Bool := 0x20 ≤ c && c ≤ 0x7E && c != 0x2C && c != 0x3D

/-- `ValidateValue`: printable characters without `,` and `=`, the last one not blank. -/
def validateValue (value : Text) : Bool :=
  if value.length = 0 ∨ value.length > traceStateValueMaxLength then false
  else
    value.dropLast.all isValueChar &&
      match value.getLast? with
      | none => false
      | some last => isValueChar last && last != 0x20

/-- The keys seen and the text written so far by `ExtractTraceState`. -/
structure TraceStateResult where
  keySet : List Text := []
  result : Text := []
  deriving DecidableEq

/-- One member that is not blank; `none` is `return null`. -/
def addListMember (acc : TraceStateResult) (listMember : Text) : Option TraceStateResult :=
  if acc.keySet.length ≥ 32 then none
  else if 0x3D ∉ listMember then none
  else
    let key := listMember.takeWhile (· != 0x3D)
    let value := listMember.drop (key.length + 1)
    if !validateKey key then none
    else if !validateValue value then none
    else if key ∈ acc.keySet then none
    else
      some
        { keySet := key :: acc.keySet
          result := if acc.result = [] then listMember else acc.result ++ text "," ++ listMember }

/-- The members of one header value. After a trailing comma the loop of the
source has ended where `splitOn` has one more segment; it is blank and skipped. -/
def listMembers (traceState : Text) : List Text :=
  ((splitOn 0x2C traceState).map trim).filter (· ≠ [])

/-- `ExtractTraceState`. -/
def extractTraceState (traceStateCollection : List Text) : Option Text :=
  ((traceStateCollection.flatMap listMembers).foldlM addListMember {}).map
    TraceStateResult.result

/-- `s.Substring(start, length)`. -/
def substring (s : Text) (start length : Nat) : Except ExtractError Text :=
  if start + length ≤ s.length then .ok ((s.drop start).take length)
  else .error .argumentOutOfRange

/-- `values.First()`. -/
def first (headerValues : HeaderValues) : Except ExtractError Text :=
  match headerValues.values with
  | [] => .error .invalidOperation
  | value :: _ => .ok value

/-- `Extract`; `none` is the result null. -/
def extract {T : Type*} (access : CarrierAccess T) (skipsPlus : Bool) (draws : Draws)
    (carrier : T) : Except ExtractError (Option SpanContext) := do
  let enumerableHeaderValues := access.getter carrier W3CHeaderNames.traceParent
  if enumerableHeaderValues.isSharedEmpty then return none
  let traceParentHeader ← first enumerableHeaderValues
  let traceIdString ← substring traceParentHeader versionPrefixIdLength traceIdLength
  match ← tryParseTraceId skipsPlus traceIdString with
  | none => return none
  | some traceId =>
      if traceId.equals TraceId.zero then return none
      let spanIdString ← substring traceParentHeader versionAndTraceIdLength spanIdLength
      match tryParseHexUInt64 spanIdString with
      | none => return none
      | some spanId =>
          let traceStateCollection := access.getter carrier W3CHeaderNames.traceState
          let traceState := extractTraceState traceStateCollection.values
          if spanId = 0 then return none
          return some (SpanContext.ofPropagated draws (some traceId) spanId none none traceState)

end SignalFxTracing.Propagation.W3C
