import SignalFxTracing.ExtensionMethods.StringExtensions
import SignalFxTracing.Lib.ExceptRules
import SignalFxTracing.Trace.Span

/-!
# Building Zipkin spans (`ZipkinSerializer.cs`)

Every recorded value, a tag other than the kind or a field of a log, is
truncated, and `Truncate` raises for null and for a negative length. One such
value makes `Serialize` raise for the whole batch.

## Implementation notes

`ToUpper` and the serialization of the fields of a log belong to the runtime
and to the JSON library; they are the fields of `Formatting`. The time stamps
and the endpoint of a span, which are computed from other data, are left out.
-/

namespace SignalFxTracing.Agent

open Clr Lib Lib.ExceptRules Trace ExtensionMethods

/-- The settings that the serializer reads. -/
structure RecordingSettings where
  recordedValueMaxLength : Int
  sanitizeSqlStatements : Bool

structure Formatting where
  /-- The classes `\p{L}` and `\p{C}`. -/
  isLetterOrOther : UInt16 → Bool
  toUpper : Text → Text
  /-- `JsonConvert.SerializeObject` of the fields of a log. -/
  serializeObject : List (Text × Text) → Text

/-- A dictionary of texts. -/
abbrev Texts := AList fun _ : Text => Option Text

/-- The fields logged at one instant; the key keeps its offset from UTC. -/
structure LogRecord where
  offset : Int
  fields : Texts

/-- A span with what only the serializer reads. `logs` is null until `Logs` is used. -/
structure RecordedSpan extends Span where
  type : Option Text
  logs : Option (AList fun _ : Int => LogRecord)

namespace RecordedSpan

/-- The entries of the logs. -/
def logEntries (span : RecordedSpan) : List (Sigma fun _ : Int => LogRecord) :=
  span.logs.elim [] AList.entries

end RecordedSpan

/-- The loop of `BuildTags` over the entries of the tags. -/
def truncateTags (maxLength : Int) (entries : List (Sigma fun _ : Text => Option Text)) :
    Except StringError Texts :=
  entries.foldlM (fun tags entry =>
    if entry.1 = Tags.spanKind then .ok tags
    else (truncate entry.2 maxLength).map fun value => tags.insert entry.1 (some value)) ∅

/-- The sanitization of a statement among the truncated tags. -/
def sanitizeTags (isLetterOrOther : UInt16 → Bool) (settings : RecordingSettings) (tags : Texts) :
    Except StringError Texts :=
  if settings.sanitizeSqlStatements then
    match tags.lookup Tags.dbStatement with
    | none => .ok tags
    | some dbStatement =>
        (sanitizeSqlStatement isLetterOrOther dbStatement).map fun sanitized =>
          tags.insert Tags.dbStatement (some sanitized)
  else .ok tags

/-- The tags for the resource, the type and the error of the span. -/
def describeTags (span : RecordedSpan) (tags : Texts) : Texts :=
  let tags :=
    if span.operationName = span.resourceName then tags
    else tags.insert Tags.resourceName span.resourceName
  let tags := if span.type.isSome then tags.insert Tags.spanType span.type else tags
  if span.error then tags.insert Tags.error (some (text "true")) else tags

/-- `BuildTags`. -/
def buildTags (isLetterOrOther : UInt16 → Bool) (settings : RecordingSettings)
    (span : RecordedSpan) : Except StringError Texts := do
  let tags ← truncateTags settings.recordedValueMaxLength span.tags.entries
  let tags ← sanitizeTags isLetterOrOther settings tags
  return describeTags span tags

/-- The tags that the constructor of `ZipkinSpan` stores. -/
def zipkinTags (isLetterOrOther : UInt16 → Bool) (settings : RecordingSettings)
    (span : RecordedSpan) : Except StringError Texts :=
  if span.tags.entries = [] then .ok ∅ else buildTags isLetterOrOther settings span

/-- `ToUnixTimeMicroseconds`; division is towards zero. -/
def toUnixTimeMicroseconds (ticks : Int) : Int := (ticks - 621355968000000000).tdiv 10

structure Annotation where
  timestamp : Int
  value : Text
  deriving DecidableEq

/-- The loop of `Annotations` over the fields of one log. -/
def truncateFields (maxLength : Int) (fields : Texts) : Except StringError (List (Text × Text)) :=
  fields.entries.mapM fun field =>
    (truncate field.2 maxLength).map fun value => (field.1, value)

def annotation (formatting : Formatting) (maxLength : Int)
    (log : Sigma fun _ : Int => LogRecord) : Except StringError Annotation := do
  let fields ← truncateFields maxLength log.2.fields
  return ⟨toUnixTimeMicroseconds (log.1 + log.2.offset), formatting.serializeObject fields⟩

/-- `Annotations`. That the truncated fields are stored back is left out: they are
truncated to the same text when they are read again. -/
def annotations (formatting : Formatting) (settings : RecordingSettings) (span : RecordedSpan) :
    Except StringError (List Annotation) :=
  span.logEntries.mapM ( annotation formatting settings.recordedValueMaxLength)

/-- A Zipkin span as it is emitted. -/
structure ZipkinSpan where
  id : Text
  traceId : Option Text
  parentId : Option Text
  name : Option Text
  kind : Option Text
  tags : Texts
  annotations : List Annotation

/-- The properties that the JSON serializer reads from a constructed `ZipkinSpan`. -/
def emit (formatting : Formatting) (settings : RecordingSettings)
    (constructed : RecordedSpan × Texts) : Except StringError ZipkinSpan := do
  let (span, tags) := constructed
  let annotations ← annotations formatting settings span
  return {
    id := toX16 span.context.spanId
    traceId := span.context.traceId.toString
    parentId := span.context.parentId.map toX16
    name := span.operationName
    kind := (span.getTag Tags.spanKind).map formatting.toUpper
    tags := tags
    annotations := annotations }

/-- `Serialize`: all spans are constructed before the first one is written. -/
def serialize (formatting : Formatting) (settings : RecordingSettings)
    (traces : List (List RecordedSpan)) : Except StringError (List ZipkinSpan) := do
  let zipkinTraces ← traces.flatten.mapM fun span =>
    (zipkinTags formatting.isLetterOrOther settings span).map fun tags => (span, tags)
  zipkinTraces.mapM (emit formatting settings)

end SignalFxTracing.Agent
