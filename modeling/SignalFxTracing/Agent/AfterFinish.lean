import SignalFxTracing.Agent.SerializedTags
import SignalFxTracing.Agent.SpanTimes
import SignalFxTracing.Lib.Machine

/-!
# Operations on finished spans (`Span.cs`, `ZipkinSerializer.cs`)

`SetTag` and `Log` ignore a finished span. The setters of the other properties
do not ask whether the span is finished, `SetException` marks an error first,
and `Finish` names the resource again.
-/

namespace SignalFxTracing.Agent

open Clr Lib Lib.ExceptRules Trace ExtensionMethods

/-- The settings of the endpoint next to those of the recorded values. -/
structure FormSettings extends RecordingSettings where
  serviceNamePerSpanEnabled : Bool
  /-- `Tracer.Instance.DefaultServiceName`. -/
  defaultServiceName : Option Text

/-- A Zipkin span with its times and its endpoint, the tags as they are read by key. -/
structure SpanForm where
  id : Text
  traceId : Option Text
  parentId : Option Text
  name : Option Text
  timestamp : Int
  duration : Int
  kind : Option Text
  serviceName : Option Text
  tags : Text → Option (Option Text)
  annotations : List Annotation

/-- The texts of an exception; of several in an `AggregateException` those of the first. -/
structure ExceptionTexts where
  message : Option Text
  stack : Option Text
  kind : Option Text

/-- The public operations of a span. `dispose` is `Finish` at the time of the clock. -/
inductive PublicOp
  | setTag (key : Text) (value : Option Text)
  | log (timestamp offset : Int) (fields : Option (List (Option Text × LoggedValue)))
  | setException (exception : Option ExceptionTexts)
  | setOperationName (value : Option Text)
  | setResourceName (value : Option Text)
  | setType (value : Option Text)
  | setError (value : Bool)
  | setServiceName (value : Option Text)
  | finish (finishTimestamp : Int)
  | dispose (utcNow : Int)

namespace TimedSpan

/-- The service name of `LocalEndpoint`. -/
def endpointName (settings : FormSettings) (span : TimedSpan) : Option Text :=
  if settings.serviceNamePerSpanEnabled && !isNullOrWhiteSpace span.context.serviceName then
    span.context.serviceName
  else settings.defaultServiceName

/-- The serialized form of a span. -/
def form (formatting : Formatting) (settings : FormSettings) (span : TimedSpan) :
    Except StringError SpanForm := do
  let zipkin ← zipkinSpan formatting settings.toRecordingSettings span.toRecordedSpan
  return {
    id := zipkin.id
    traceId := zipkin.traceId
    parentId := zipkin.parentId
    name := zipkin.name
    timestamp := span.timestamp
    duration := span.microseconds
    kind := zipkin.kind
    serviceName := span.endpointName settings
    tags := fun key => zipkin.tags.lookup key
    annotations := zipkin.annotations }

def setTag (rt : Runtime) (key : Text) (value : Option Text) (span : TimedSpan) : TimedSpan :=
  { span with toRecordedSpan := span.toRecordedSpan.setTag rt key value }

def finish (finishTimestamp : Int) (span : TimedSpan) : TimedSpan :=
  { span with toRecordedSpan := span.toRecordedSpan.finish finishTimestamp }

/-- `SetException`. -/
def setException (rt : Runtime) (exception : Option ExceptionTexts) (span : TimedSpan) :
    TimedSpan :=
  let span := { span with error := true }
  match exception with
  | none => span
  | some exception =>
      ((span.setTag rt Tags.errorMsg exception.message).setTag rt Tags.errorStack
        exception.stack).setTag rt Tags.errorKind exception.kind

/-- The span after an operation. -/
def perform (rt : Runtime) (span : TimedSpan) : PublicOp → TimedSpan
  | .setTag key value => span.setTag rt key value
  | .log timestamp offset fields =>
      { span with toRecordedSpan := span.toRecordedSpan.log timestamp offset fields }
  | .setException exception => span.setException rt exception
  | .setOperationName value => { span with operationName := value }
  | .setResourceName value => { span with resourceName := value }
  | .setType value => { span with type := value }
  | .setError value => { span with error := value }
  | .setServiceName value =>
      { span with context := { span.context with serviceName := value } }
  | .finish finishTimestamp => span.finish finishTimestamp
  | .dispose utcNow => span.finish utcNow

end TimedSpan

/-- Spans under public operations. -/
def operations (rt : Runtime) (span : TimedSpan) : Machine TimedSpan PublicOp where
  initial := span
  step span op := some (span.perform rt op)

/-- What is recorded under a key. -/
def recordedTags (isLetterOrOther : UInt16 → Bool) (settings : RecordingSettings)
    (span : RecordedSpan) (key : Text) : Option (Option Text) :=
  if span.tags.entries = [] then none else expectedTag isLetterOrOther settings span key

/-- A span that was serialized is serialized in the same way. -/
def SameForm (formatting : Formatting) (settings : FormSettings) (first span : TimedSpan) : Prop :=
  ∀ form, first.form formatting settings = .ok form → span.form formatting settings = .ok form

/-- Nothing is recorded next to tags, or the same as before under the key. -/
def SameTag (isLetterOrOther : UInt16 → Bool) (settings : FormSettings) (key : Text)
    (span after : TimedSpan) : Prop :=
  span.tags.entries = [] ∨
    expectedTag isLetterOrOther settings.toRecordingSettings after.toRecordedSpan key =
      expectedTag isLetterOrOther settings.toRecordingSettings span.toRecordedSpan key

/-- The operation assigns to no property another value than the one that is serialized. -/
def Keeps (isLetterOrOther : UInt16 → Bool) (settings : FormSettings) (span : TimedSpan) :
    PublicOp → Prop
  | .setTag _ _ | .log _ _ _ => True
  | .setOperationName value => value = span.operationName
  | .setServiceName value =>
      TimedSpan.endpointName settings
        { span with context := { span.context with serviceName := value } } =
        span.endpointName settings
  | .setResourceName value =>
      SameTag isLetterOrOther settings Tags.resourceName span { span with resourceName := value }
  | .setType value =>
      SameTag isLetterOrOther settings Tags.spanType span { span with type := value }
  | .setError value =>
      SameTag isLetterOrOther settings Tags.error span { span with error := value }
  | .setException _ =>
      SameTag isLetterOrOther settings Tags.error span { span with error := true }
  | .finish _ | .dispose _ =>
      SameTag isLetterOrOther settings Tags.resourceName span
        { span with resourceName := span.resourceName.or span.operationName }

section Finished

variable {rt : Runtime} {span : TimedSpan}

theorem setTag_of_isFinished (h : span.isFinished = true) (key : Text) (value : Option Text) :
    span.setTag rt key value = span := by
  rw [TimedSpan.setTag, RecordedSpan.setTag, if_pos h]

theorem log_of_isFinished (h : span.isFinished = true) (timestamp offset : Int)
    (fields : Option (List (Option Text × LoggedValue))) :
    span.perform rt (.log timestamp offset fields) = span := by
  rw [TimedSpan.perform, RecordedSpan.log, if_pos h]

theorem setException_of_isFinished (h : span.isFinished = true)
    (exception : Option ExceptionTexts) :
    span.setException rt exception = { span with error := true } := by
  cases exception with
  | none => rfl
  | some exception =>
      have hmarked : ({ span with error := true } : TimedSpan).isFinished = true := h
      rw [TimedSpan.setException, setTag_of_isFinished hmarked, setTag_of_isFinished hmarked,
        setTag_of_isFinished hmarked]

theorem finish_of_isFinished (h : span.isFinished = true) (finishTimestamp : Int) :
    span.finish finishTimestamp =
      { span with resourceName := span.resourceName.or span.operationName } := by
  rw [TimedSpan.finish, RecordedSpan.finish, Span.markFinished]
  dsimp only
  rw [if_pos h]

end Finished

theorem isFinished_finish (span : TimedSpan) (finishTimestamp : Int) :
    (span.finish finishTimestamp).isFinished = true :=
  Span.markFinished_isFinished finishTimestamp span.toSpan

/-- Spans that differ at most in the properties with setters. -/
structure SameRecords (first span : TimedSpan) : Prop where
  spanId : span.context.spanId = first.context.spanId
  traceId : span.context.traceId = first.context.traceId
  parentId : span.context.parentId = first.context.parentId
  tags : span.tags = first.tags
  logs : span.logs = first.logs
  startTime : span.startTime = first.startTime
  startOffset : span.startOffset = first.startOffset
  duration : span.duration = first.duration
  isFinished : span.isFinished = first.isFinished

section Forms

variable {formatting : Formatting} {settings : FormSettings} {first span after : TimedSpan}

theorem lookup_zipkinTags {isLetterOrOther : UInt16 → Bool} {settings : RecordingSettings}
    {span : RecordedSpan} {tags : Texts} (h : zipkinTags isLetterOrOther settings span = .ok tags)
    (key : Text) : tags.lookup key = recordedTags isLetterOrOther settings span key := by
  rw [zipkinTags] at h
  rw [recordedTags]
  split_ifs at h ⊢
  · obtain rfl := Except.ok.inj h
    exact AList.lookup_empty key
  · exact lookup_buildTags h key

/-- The form that the values of a span make with built annotations. -/
def formOf (formatting : Formatting) (settings : FormSettings) (span : TimedSpan)
    (built : List Annotation) : SpanForm where
  id := toX16 span.context.spanId
  traceId := span.context.traceId.toString
  parentId := span.context.parentId.map toX16
  name := span.operationName
  timestamp := span.timestamp
  duration := span.microseconds
  kind := (span.getTag Tags.spanKind).map formatting.toUpper
  serviceName := span.endpointName settings
  tags := recordedTags formatting.isLetterOrOther settings.toRecordingSettings span.toRecordedSpan
  annotations := built

/-- A span whose values can be recorded is serialized. -/
theorem form_eq_ok {built : List Annotation}
    (h : Recordable settings.toRecordingSettings span.toRecordedSpan)
    (hbuilt : annotations formatting settings.toRecordingSettings span.toRecordedSpan = .ok built) :
    span.form formatting settings = .ok (formOf formatting settings span built) := by
  obtain ⟨tags, htags⟩ : ∃ tags, zipkinTags formatting.isLetterOrOther
      settings.toRecordingSettings span.toRecordedSpan = .ok tags :=
    exists_zipkinTags_iff.mpr h.tags
  have hlookup : (fun key => tags.lookup key) = recordedTags formatting.isLetterOrOther
      settings.toRecordingSettings span.toRecordedSpan := by
    funext key
    exact lookup_zipkinTags htags key
  rw [TimedSpan.form, zipkinSpan, htags, ok_bind, emit, hbuilt, formOf, ← hlookup]
  rfl

/-- The name, the endpoint and the tags of two spans are written alike. -/
structure Agrees (isLetterOrOther : UInt16 → Bool) (settings : FormSettings)
    (span after : TimedSpan) : Prop where
  operationName : after.operationName = span.operationName
  endpointName : after.endpointName settings = span.endpointName settings
  tags : span.tags.entries = [] ∨ ∀ key,
    expectedTag isLetterOrOther settings.toRecordingSettings after.toRecordedSpan key =
      expectedTag isLetterOrOther settings.toRecordingSettings span.toRecordedSpan key

theorem recordedTags_eq_iff {isLetterOrOther : UInt16 → Bool}
    (htags : after.tags = span.tags) :
    recordedTags isLetterOrOther settings.toRecordingSettings after.toRecordedSpan =
      recordedTags isLetterOrOther settings.toRecordingSettings span.toRecordedSpan ↔
    span.tags.entries = [] ∨ ∀ key,
      expectedTag isLetterOrOther settings.toRecordingSettings after.toRecordedSpan key =
        expectedTag isLetterOrOther settings.toRecordingSettings span.toRecordedSpan key := by
  rw [funext_iff]
  simp only [recordedTags, htags]
  by_cases hempty : span.tags.entries = []
  · simp [hempty]
  · simp [hempty]

/-- A span with the same records is serialized alike exactly when it agrees. -/
theorem form_eq_iff (hrecords : SameRecords span after)
    (h : Recordable settings.toRecordingSettings span.toRecordedSpan) :
    after.form formatting settings = span.form formatting settings ↔
      Agrees formatting.isLetterOrOther settings span after := by
  have hafter : Recordable settings.toRecordingSettings after.toRecordedSpan :=
    (RecordedSpan.recordable_congr hrecords.tags hrecords.logs).mpr h
  obtain ⟨built, hbuilt⟩ : ∃ built, annotations formatting settings.toRecordingSettings
      span.toRecordedSpan = .ok built := exists_annotations_iff.mpr h.logs
  have hbuilt' : annotations formatting settings.toRecordingSettings after.toRecordedSpan =
      .ok built := by
    rw [← hbuilt, annotations, annotations, RecordedSpan.logEntries, RecordedSpan.logEntries,
      hrecords.logs]
  rw [form_eq_ok h hbuilt, form_eq_ok hafter hbuilt', Except.ok.injEq]
  constructor
  · intro heq
    constructor
    · exact congrArg SpanForm.name heq
    · exact congrArg SpanForm.serviceName heq
    · exact (recordedTags_eq_iff hrecords.tags).mp (congrArg SpanForm.tags heq)
  · intro hagrees
    rw [formOf, formOf, hagrees.operationName, hagrees.endpointName,
      (recordedTags_eq_iff hrecords.tags).mpr hagrees.tags, TimedSpan.timestamp,
      TimedSpan.timestamp, TimedSpan.microseconds, TimedSpan.microseconds, Span.getTag,
      Span.getTag, hrecords.spanId, hrecords.traceId, hrecords.parentId, hrecords.tags,
      hrecords.startTime, hrecords.startOffset, hrecords.duration]

end Forms

section Operations

variable {isLetterOrOther : UInt16 → Bool} {settings : FormSettings} {rt : Runtime}
  {span : TimedSpan}

/-- An operation on a finished span leaves its records. -/
theorem sameRecords_perform (h : span.isFinished = true) (op : PublicOp) :
    SameRecords span (span.perform rt op) := by
  have hsame : SameRecords span span := ⟨rfl, rfl, rfl, rfl, rfl, rfl, rfl, rfl, rfl⟩
  cases op with
  | setTag key value =>
      rw [TimedSpan.perform, setTag_of_isFinished h]
      exact hsame
  | log timestamp offset fields =>
      rw [log_of_isFinished h]
      exact hsame
  | setException exception =>
      rw [TimedSpan.perform, setException_of_isFinished h]
      exact ⟨rfl, rfl, rfl, rfl, rfl, rfl, rfl, rfl, rfl⟩
  | setOperationName value => exact ⟨rfl, rfl, rfl, rfl, rfl, rfl, rfl, rfl, rfl⟩
  | setResourceName value => exact ⟨rfl, rfl, rfl, rfl, rfl, rfl, rfl, rfl, rfl⟩
  | setType value => exact ⟨rfl, rfl, rfl, rfl, rfl, rfl, rfl, rfl, rfl⟩
  | setError value => exact ⟨rfl, rfl, rfl, rfl, rfl, rfl, rfl, rfl, rfl⟩
  | setServiceName value => exact ⟨rfl, rfl, rfl, rfl, rfl, rfl, rfl, rfl, rfl⟩
  | finish finishTimestamp =>
      rw [TimedSpan.perform, finish_of_isFinished h]
      exact ⟨rfl, rfl, rfl, rfl, rfl, rfl, rfl, rfl, rfl⟩
  | dispose utcNow =>
      rw [TimedSpan.perform, finish_of_isFinished h]
      exact ⟨rfl, rfl, rfl, rfl, rfl, rfl, rfl, rfl, rfl⟩

theorem agrees_refl : Agrees isLetterOrOther settings span span := ⟨rfl, rfl, Or.inr fun _ => rfl⟩

/-- Where all other keys are recorded alike, one key decides. -/
theorem agrees_iff_sameTag {after : TimedSpan} {key : Text}
    (hname : after.operationName = span.operationName)
    (hendpoint : after.endpointName settings = span.endpointName settings)
    (hothers : ∀ other, other ≠ key →
      expectedTag isLetterOrOther settings.toRecordingSettings after.toRecordedSpan other =
        expectedTag isLetterOrOther settings.toRecordingSettings span.toRecordedSpan other) :
    Agrees isLetterOrOther settings span after ↔ SameTag isLetterOrOther settings key span after := by
  constructor
  · intro h
    rcases h.tags with hempty | htags
    · exact Or.inl hempty
    · exact Or.inr (htags key)
  · intro h
    refine ⟨hname, hendpoint, ?_⟩
    rcases h with hempty | hkey
    · exact Or.inl hempty
    · right
      intro other
      by_cases hother : other = key
      · rw [hother, hkey]
      · exact hothers other hother

theorem agrees_resource_iff (value : Option Text) :
    Agrees isLetterOrOther settings span { span with resourceName := value } ↔
      SameTag isLetterOrOther settings Tags.resourceName span
        { span with resourceName := value } := by
  apply agrees_iff_sameTag
  · rfl
  · rfl
  · intro other hother
    simp [expectedTag, hother]

theorem agrees_type_iff (value : Option Text) :
    Agrees isLetterOrOther settings span { span with type := value } ↔
      SameTag isLetterOrOther settings Tags.spanType span { span with type := value } := by
  apply agrees_iff_sameTag
  · rfl
  · rfl
  · intro other hother
    simp [expectedTag, hother]

theorem agrees_error_iff (value : Bool) :
    Agrees isLetterOrOther settings span { span with error := value } ↔
      SameTag isLetterOrOther settings Tags.error span { span with error := value } := by
  apply agrees_iff_sameTag
  · rfl
  · rfl
  · intro other hother
    simp [expectedTag, hother]

/-- An operation on a finished span is not seen exactly when it keeps what is serialized. -/
theorem agrees_perform_iff (h : span.isFinished = true) (op : PublicOp) :
    Agrees isLetterOrOther settings span (span.perform rt op) ↔
      Keeps isLetterOrOther settings span op := by
  cases op with
  | setTag key value =>
      rw [TimedSpan.perform, setTag_of_isFinished h]
      exact iff_of_true agrees_refl trivial
  | log timestamp offset fields =>
      rw [log_of_isFinished h]
      exact iff_of_true agrees_refl trivial
  | setException exception =>
      rw [TimedSpan.perform, setException_of_isFinished h]
      exact agrees_error_iff true
  | setOperationName value =>
      constructor
      · intro hagrees
        exact hagrees.operationName
      · intro hvalue
        have hsame : span.perform rt (.setOperationName value) = span := by
          rw [Keeps] at hvalue
          rw [hvalue]
          rfl
        rw [hsame]
        exact agrees_refl
  | setResourceName value => exact agrees_resource_iff value
  | setType value => exact agrees_type_iff value
  | setError value => exact agrees_error_iff value
  | setServiceName value =>
      constructor
      · intro hagrees
        exact hagrees.endpointName
      · intro hendpoint
        exact ⟨rfl, hendpoint, Or.inr fun _ => rfl⟩
  | finish finishTimestamp =>
      rw [TimedSpan.perform, finish_of_isFinished h]
      exact agrees_resource_iff _
  | dispose utcNow =>
      rw [TimedSpan.perform, finish_of_isFinished h]
      exact agrees_resource_iff _

end Operations

section Runs

variable {formatting : Formatting} {settings : FormSettings} {rt : Runtime} {first : TimedSpan}

theorem SameRecords.trans {span after : TimedSpan} (h : SameRecords first span)
    (h' : SameRecords span after) : SameRecords first after where
  spanId := h'.spanId.trans h.spanId
  traceId := h'.traceId.trans h.traceId
  parentId := h'.parentId.trans h.parentId
  tags := h'.tags.trans h.tags
  logs := h'.logs.trans h.logs
  startTime := h'.startTime.trans h.startTime
  startOffset := h'.startOffset.trans h.startOffset
  duration := h'.duration.trans h.duration
  isFinished := h'.isFinished.trans h.isFinished

/-- A span of the run: finished, with the records and the form of the first one. -/
structure Unchanged (formatting : Formatting) (settings : FormSettings)
    (first span : TimedSpan) : Prop where
  isFinished : span.isFinished = true
  records : SameRecords first span
  form : span.form formatting settings = first.form formatting settings

theorem Unchanged.sameForm {span : TimedSpan} (h : Unchanged formatting settings first span) :
    SameForm formatting settings first span := by
  intro form hform
  rw [h.form, hform]

theorem unchanged_refl (h : first.isFinished = true) :
    Unchanged formatting settings first first :=
  ⟨h, ⟨rfl, rfl, rfl, rfl, rfl, rfl, rfl, rfl, rfl⟩, rfl⟩

/-- An operation keeps the form exactly when it keeps what is serialized. -/
theorem Unchanged.form_eq_iff {span after : TimedSpan} {op : PublicOp}
    (h : Unchanged formatting settings first span)
    (hrecordable : Recordable settings.toRecordingSettings first.toRecordedSpan)
    (hafter : span.perform rt op = after) :
    after.form formatting settings = first.form formatting settings ↔
      Keeps formatting.isLetterOrOther settings span op := by
  have hspan : Recordable settings.toRecordingSettings span.toRecordedSpan :=
    (RecordedSpan.recordable_congr h.records.tags h.records.logs).mpr hrecordable
  rw [← h.form, ← hafter, Agent.form_eq_iff (sameRecords_perform h.isFinished op) hspan]
  exact agrees_perform_iff h.isFinished op

/-- From a finished span that can be recorded, the form stays exactly while the operations keep
what is serialized. -/
theorem always_sameForm_iff (hfinished : first.isFinished = true)
    (h : Recordable settings.toRecordingSettings first.toRecordedSpan) (ops : List PublicOp) :
    (operations rt first).Always first ops (SameForm formatting settings first) ↔
      (operations rt first).Throughout first ops
        (Keeps formatting.isLetterOrOther settings) := by
  obtain ⟨built, hbuilt⟩ : ∃ built, annotations formatting settings.toRecordingSettings
      first.toRecordedSpan = .ok built := exists_annotations_iff.mpr h.logs
  refine (operations rt first).always_iff_throughout
    (fun span (hspan : Unchanged formatting settings first span) => hspan.sameForm) ?_
    (unchanged_refl hfinished) ops
  intro span op after hspan hstep
  have hafter : span.perform rt op = after := Option.some.inj hstep
  rw [← hspan.form_eq_iff h hafter]
  constructor
  · intro hsame
    rw [form_eq_ok h hbuilt]
    exact hsame _ (form_eq_ok h hbuilt)
  · intro hform
    have hrecords : SameRecords span after := hafter ▸ sameRecords_perform hspan.isFinished op
    refine ⟨?_, hspan.records.trans hrecords, hform⟩
    rw [hrecords.isFinished, hspan.isFinished]

end Runs

/-- A span that cannot be serialized has no form to keep. -/
theorem sameForm_of_not_recordable {formatting : Formatting} {settings : FormSettings}
    {first : TimedSpan} (h : ¬ Recordable settings.toRecordingSettings first.toRecordedSpan)
    (span : TimedSpan) : SameForm formatting settings first span := by
  intro form hform
  obtain ⟨zipkin, hzipkin, -⟩ := bind_eq_ok_iff.mp hform
  exact absurd (exists_zipkinSpan_iff.mp ⟨zipkin, hzipkin⟩) h

/-- The serialized form of a finished span stays exactly while every operation leaves the operation
name, the name of the endpoint and the tag that its property is recorded as. -/
theorem sameForm_iff_keeps (rt : Runtime) (formatting : Formatting) (settings : FormSettings)
    (span : TimedSpan) (finishTimestamp : Int) (ops : List PublicOp) :
    let first := span.finish finishTimestamp
    (operations rt first).Always first ops (SameForm formatting settings first) ↔
      (Recordable settings.toRecordingSettings first.toRecordedSpan →
        (operations rt first).Throughout first ops
          (Keeps formatting.isLetterOrOther settings)) := by
  intro first
  by_cases h : Recordable settings.toRecordingSettings first.toRecordedSpan
  · rw [imp_iff_right h]
    exact always_sameForm_iff (isFinished_finish span finishTimestamp) h ops
  · refine iff_of_true ?_ (fun hrecordable => absurd hrecordable h)
    intro before rest reached _ _
    exact sameForm_of_not_recordable h reached

/-- A span with a tag. -/
def taggedSpan : TimedSpan :=
  { RecordedSpan.create (SpanContext.create ⟨1, 2, 3, 4⟩ none none) 0 with
    operationName := some (text "a")
    tags := (∅ : Texts).insert (text "b") (some (text "c"))
    startOffset := 0 }

theorem recordable_taggedSpan :
    Recordable ⟨1200, true⟩ (taggedSpan.finish 0).toRecordedSpan := by
  rw [TimedSpan.finish, RecordedSpan.recordable_finish]
  have hcreate := RecordedSpan.recordable_create ⟨1200, true⟩
    (SpanContext.create ⟨1, 2, 3, 4⟩ none none) 0
  have hinsert := (RecordedSpan.recordable_insert hcreate (text "b") (some (text "c"))).mpr
    (fun _ => ⟨Option.some_ne_none _, by decide⟩)
  refine (RecordedSpan.recordable_congr ?_ ?_).mpr hinsert
  · rfl
  · rfl

/-- A finished span gets another name, and an exception marks it as an error. -/
theorem not_sameForm_taggedSpan :
    ¬ (operations ⟨fun _ => none, id⟩ (taggedSpan.finish 0)).Always (taggedSpan.finish 0)
        [.setOperationName none]
        (SameForm ⟨fun _ => false, id, fun _ => []⟩ ⟨⟨1200, true⟩, false, none⟩
          (taggedSpan.finish 0)) ∧
      ¬ (operations ⟨fun _ => none, id⟩ (taggedSpan.finish 0)).Always (taggedSpan.finish 0)
        [.setException none]
        (SameForm ⟨fun _ => false, id, fun _ => []⟩ ⟨⟨1200, true⟩, false, none⟩
          (taggedSpan.finish 0)) := by
  have hfinished := isFinished_finish taggedSpan 0
  constructor
  · intro h
    have hkeeps := (always_sameForm_iff hfinished recordable_taggedSpan _).mp h
    have hname := ((Machine.throughout_cons _).mp hkeeps _ rfl).1
    exact absurd hname (Option.some_ne_none (text "a")).symm
  · intro h
    have hkeeps := (always_sameForm_iff hfinished recordable_taggedSpan _).mp h
    rcases ((Machine.throughout_cons _).mp hkeeps _ rfl).1 with hempty | herror
    · exact absurd hempty (List.cons_ne_nil _ _)
    · rw [expectedTag, if_pos ⟨rfl, rfl⟩] at herror
      exact absurd herror (by decide)

end SignalFxTracing.Agent
