import SignalFxTracing.Agent.RecordedTags
import SignalFxTracing.Integrations.RabbitMQ

/-!
# Writing recorded values (`Span.cs`, `RabbitMQIntegration.cs`)

The calls that write tags and logs of spans: `SetTag`, which never stores null,
`Log`, and the integrations that add to the tags directly. A write is described
by the values that it records.
-/

namespace SignalFxTracing.Agent

open Clr Lib Trace Integrations

/-- What `ToString` of a logged value gives, unless the value is null or it raises. -/
inductive LoggedValue
  | null
  | raises
  | shown (value : Option Text)

/-- `x.Value.ToString()`; `none` is an exception. -/
def LoggedValue.toText : LoggedValue → Option (Option Text)
  | null => none
  | raises => none
  | shown value => some value

/-- One entry of the dictionary; a null key and a key that is present raise. -/
def addField (loggedFields : Texts) (field : Option Text × LoggedValue) : Option Texts := do
  let key ← field.1
  let value ← field.2.toText
  if key ∈ loggedFields then none else some (loggedFields.insert key value)

/-- `ToDictionary` of `Log`; `none` is an exception. -/
def toDictionary (fields : List (Option Text × LoggedValue)) : Option Texts :=
  fields.foldlM addField ∅

theorem LoggedValue.toText_eq_some_iff {logged : LoggedValue} {value : Option Text} :
    logged.toText = some value ↔ logged = .shown value := by
  cases logged with
  | null => simp [toText]
  | raises => simp [toText]
  | shown shown => simp [toText]

theorem addField_eq_some_iff {loggedFields after : Texts} {field : Option Text × LoggedValue} :
    addField loggedFields field = some after ↔
      ∃ key value, field = (some key, .shown value) ∧ key ∉ loggedFields ∧
        loggedFields.insert key value = after := by
  obtain ⟨key, logged⟩ := field
  rw [addField]
  simp only [Option.bind_eq_bind, Option.bind_eq_some_iff, LoggedValue.toText_eq_some_iff,
    Prod.mk.injEq, Option.ite_none_left_eq_some, Option.some.injEq]
  constructor
  · rintro ⟨key, hkey, value, hvalue, hmem, hafter⟩
    exact ⟨key, value, ⟨hkey, hvalue⟩, hmem, hafter⟩
  · rintro ⟨key, value, ⟨hkey, hvalue⟩, hmem, hafter⟩
    exact ⟨key, hkey, value, hvalue, hmem, hafter⟩

/-- The tags that `ConsumeKafkaIntegrationHelper` adds, each under its own check. -/
def kafkaConsumeTags (partition queueTimeMs topicName groupId clientName : Option Text)
    (hasMessage isTombstone : Bool) : List (Text × Option Text) :=
  (partition.map fun value => (Tags.Kafka.partition, some value)).toList ++
    (if hasMessage then
      (queueTimeMs.map fun value => (Tags.Kafka.queueTimeMs, some value)).toList ++
        (if isTombstone then [(Tags.Kafka.tombstone, some (text "true"))] else []) ++
        (if isNullOrEmpty topicName then []
          else [(Tags.Messaging.destination, some (topicName.getD []))])
    else []) ++
    (if isNullOrWhiteSpace groupId then []
      else [(Tags.Kafka.consumerGroup, some (groupId.getD []))]) ++
    (if isNullOrWhiteSpace clientName then []
      else [(Tags.Kafka.clientName, some (clientName.getD []))])

/-- The tags that `ProduceKafkaIntegrationHelper` adds. -/
def kafkaProduceTags (clientName : Option Text) (isTombstone : Bool) : List (Text × Option Text) :=
  (if isTombstone then [(Tags.Kafka.tombstone, some (text "true"))] else []) ++
    (clientName.map fun value => (Tags.Kafka.clientName, some value)).toList

/-- What an integration adds to the tags of a span. -/
inductive AddedTags
  /-- `CreateScope` of the RabbitMQ integration. -/
  | rabbitMQScope (command : Text) (exchange routingKey : Option Text)
  | rabbitMQMessageSize (messageSize : Text)
  | rabbitMQDeliveryMode (deliveryMode : UInt8)
  | kafkaConsume (partition queueTimeMs topicName groupId clientName : Option Text)
      (hasMessage isTombstone : Bool)
  | kafkaProduce (clientName : Option Text) (isTombstone : Bool)

/-- The successive arguments of `Tags.Add`; the index of a delivery mode may raise. -/
def AddedTags.toList : AddedTags → List (Text × Option Text)
  | rabbitMQScope command exchange routingKey => RabbitMQ.scopeTags command exchange routingKey
  | rabbitMQMessageSize messageSize =>
      [(Tags.Messaging.messagePayloadSizeBytes, some messageSize)]
  | rabbitMQDeliveryMode deliveryMode =>
      match RabbitMQ.deliveryModeString deliveryMode with
      | .error _ => []
      | .ok value => [(Tags.RabbitMQ.deliveryMode, value)]
  | kafkaConsume partition queueTimeMs topicName groupId clientName hasMessage isTombstone =>
      kafkaConsumeTags partition queueTimeMs topicName groupId clientName hasMessage isTombstone
  | kafkaProduce clientName isTombstone => kafkaProduceTags clientName isTombstone

/-- One call that writes to a span. -/
inductive SpanWrite
  | setTag (key : Text) (value : Option Text)
  | setOperationName (value : Option Text)
  | setResourceName (value : Option Text)
  | setType (value : Option Text)
  | setError (value : Bool)
  | log (timestamp offset : Int) (fields : Option (List (Option Text × LoggedValue)))
  | add (tags : AddedTags)
  | finish (finishTimestamp : Int)

namespace RecordedSpan

/-- A new span. -/
def create (context : SpanContext) (start : Int) : RecordedSpan :=
  { Span.create context (some start) start with type := none, logs := none }

/-- `SetTag` on the span. -/
def setTag (rt : Runtime) (key : Text) (value : Option Text) (span : RecordedSpan) :
    RecordedSpan :=
  if span.isFinished then span
  else
    match tagEffect rt key value with
    | .removeTag => { span with tags := span.tags.erase key }
    | .putTag value => { span with tags := span.tags.insert key (some value) }
    | .assignPriority _ => span
    | .ignore => span
    | .argumentNull => span

/-- Successive calls of `Tags.Add`, which raises for a key that is present. -/
def addTags (span : RecordedSpan) : List (Text × Option Text) → RecordedSpan
  | [] => span
  | (key, value) :: rest =>
      if key ∈ span.tags then span
      else addTags { span with tags := span.tags.insert key value } rest

/-- `Logs[timestamp] = loggedFields`; a key that is present keeps its offset. -/
def putLog (timestamp offset : Int) (loggedFields : Texts) (span : RecordedSpan) : RecordedSpan :=
  let logs := span.logs.getD ∅
  let offset := (logs.lookup timestamp).elim offset LogRecord.offset
  { span with logs := some (logs.insert timestamp ⟨offset, loggedFields⟩) }

/-- `Log`. -/
def log (timestamp offset : Int) (fields : Option (List (Option Text × LoggedValue)))
    (span : RecordedSpan) : RecordedSpan :=
  if span.isFinished then span
  else (fields.bind toDictionary).elim span fun loggedFields =>
    span.putLog timestamp offset loggedFields

def finish (finishTimestamp : Int) (span : RecordedSpan) : RecordedSpan :=
  { span with toSpan := (span.markFinished finishTimestamp).1 }

/-- The span after a call. -/
def write (rt : Runtime) (span : RecordedSpan) : SpanWrite → RecordedSpan
  | .setTag key value => span.setTag rt key value
  | .setOperationName value => { span with operationName := value }
  | .setResourceName value => { span with resourceName := value }
  | .setType value => { span with type := value }
  | .setError value => { span with error := value }
  | .log timestamp offset fields => span.log timestamp offset fields
  | .add tags => span.addTags tags.toList
  | .finish finishTimestamp => span.finish finishTimestamp

/-- The values that adding these tags stores, up to a key that is present. -/
def addedValues (tags : Texts) : List (Text × Option Text) → List (Option Text)
  | [] => []
  | (key, value) :: rest =>
      if key ∈ tags then []
      else (if key = Tags.spanKind then [] else [value]) ++
        addedValues (tags.insert key value) rest

/-- The values that a call records: tags other than the kind and logged fields. -/
def recorded (rt : Runtime) (span : RecordedSpan) : SpanWrite → List (Option Text)
  | .setTag key value =>
      if span.isFinished then []
      else
        match tagEffect rt key value with
        | .putTag value => if key = Tags.spanKind then [] else [some value]
        | .removeTag | .assignPriority _ | .ignore | .argumentNull => []
  | .log _ _ fields =>
      if span.isFinished then []
      else (fields.bind toDictionary).elim [] fun loggedFields =>
        loggedFields.entries.map Sigma.snd
  | .add tags => addedValues span.tags tags.toList
  | .setOperationName _ | .setResourceName _ | .setType _ | .setError _ | .finish _ => []

section Recordable

variable {settings : RecordingSettings} {span : RecordedSpan}

theorem recordable_create (settings : RecordingSettings) (context : SpanContext) (start : Int) :
    Recordable settings (create context start) :=
  ⟨by simp [create, Span.create], by simp [create, logEntries]⟩

/-- Only the tags and the logs matter. -/
theorem recordable_congr {other : RecordedSpan} (htags : other.tags = span.tags)
    (hlogs : other.logs = span.logs) : Recordable settings other ↔ Recordable settings span := by
  constructor
  · rintro ⟨tags, logs⟩
    exact ⟨htags ▸ tags, by simpa only [logEntries, hlogs] using logs⟩
  · rintro ⟨tags, logs⟩
    exact ⟨htags.symm ▸ tags, by simpa only [logEntries, hlogs] using logs⟩

theorem recordable_erase (h : Recordable settings span) (key : Text) :
    Recordable settings { span with tags := span.tags.erase key } where
  tags := by
    intro entry hmem
    exact h.tags entry ((List.kerase_sublist key _).subset hmem)
  logs := h.logs

/-- A tag that is put must be the kind or a value that can be truncated. -/
theorem recordable_insert (h : Recordable settings span) (key : Text) (value : Option Text) :
    Recordable settings { span with tags := span.tags.insert key value } ↔
      (key ≠ Tags.spanKind → Truncatable settings.recordedValueMaxLength value) := by
  constructor
  · intro hinsert
    exact hinsert.tags ⟨key, value⟩ (List.mem_cons_self ..)
  · intro hvalue
    refine ⟨?_, h.logs⟩
    intro entry hmem
    obtain rfl | hrest := List.mem_cons.mp hmem
    · exact hvalue
    · exact h.tags entry ((List.kerase_sublist key _).subset hrest)

/-- A tag under a new key leaves the other entries. -/
theorem recordable_insert_of_notMem {key : Text} (hkey : key ∉ span.tags) (value : Option Text) :
    Recordable settings { span with tags := span.tags.insert key value } ↔
      Recordable settings span ∧
        (key ≠ Tags.spanKind → Truncatable settings.recordedValueMaxLength value) := by
  constructor
  · intro hinsert
    have hspan : Recordable settings span := by
      refine ⟨?_, hinsert.logs⟩
      intro entry hmem
      apply hinsert.tags entry
      rw [AList.entries_insert_of_notMem hkey]
      exact List.mem_cons_of_mem _ hmem
    exact ⟨hspan, (recordable_insert hspan key value).mp hinsert⟩
  · rintro ⟨hspan, hvalue⟩
    exact (recordable_insert hspan key value).mpr hvalue

/-- Adding tags only adds entries, so that all of them must be fit to be recorded. -/
theorem recordable_addTags (span : RecordedSpan) (tags : List (Text × Option Text)) :
    Recordable settings (span.addTags tags) ↔ Recordable settings span ∧
      ∀ value ∈ addedValues span.tags tags, Truncatable settings.recordedValueMaxLength value := by
  induction tags generalizing span with
  | nil => simp [addTags, addedValues]
  | cons tag rest ih =>
      obtain ⟨key, value⟩ := tag
      rw [addTags, addedValues]
      split_ifs with hmem hkind
      · simp
      · rw [ih, recordable_insert_of_notMem hmem]
        simp [hkind]
      · rw [ih, recordable_insert_of_notMem hmem]
        simp [hkind, and_assoc]

/-- Logged fields replace what was logged at the same instant. -/
theorem recordable_putLog (h : Recordable settings span) (timestamp offset : Int)
    (loggedFields : Texts) :
    Recordable settings (span.putLog timestamp offset loggedFields) ↔
      ∀ field ∈ loggedFields.entries,
        Truncatable settings.recordedValueMaxLength field.2 := by
  constructor
  · intro hput
    exact hput.logs ⟨timestamp, _⟩ (List.mem_cons_self ..)
  · intro hfields
    refine ⟨h.tags, ?_⟩
    intro log hmem
    obtain rfl | hrest := List.mem_cons.mp hmem
    · exact hfields
    · have hrest := (List.kerase_sublist timestamp _).subset hrest
      apply h.logs log
      rw [logEntries]
      cases hlogs : span.logs with
      | none => simp [hlogs] at hrest
      | some logs => simpa [hlogs] using hrest

theorem finish_tags (finishTimestamp : Int) (span : RecordedSpan) :
    (span.finish finishTimestamp).tags = span.tags := by
  rw [finish, Span.markFinished]
  dsimp only
  split_ifs <;> rfl

theorem recordable_finish (finishTimestamp : Int) :
    Recordable settings (span.finish finishTimestamp) ↔ Recordable settings span :=
  recordable_congr (finish_tags finishTimestamp span) rfl

theorem recordable_setTag (h : Recordable settings span) (rt : Runtime) (key : Text)
    (value : Option Text) :
    Recordable settings (span.setTag rt key value) ↔
      ∀ stored ∈ recorded rt span (.setTag key value),
        Truncatable settings.recordedValueMaxLength stored := by
  simp only [setTag, recorded]
  by_cases hfinished : span.isFinished = true
  · rw [if_pos hfinished, if_pos hfinished]
    simpa using h
  · rw [if_neg hfinished, if_neg hfinished]
    cases tagEffect rt key value with
    | assignPriority priority => simpa using h
    | ignore => simpa using h
    | removeTag => simpa using recordable_erase h key
    | putTag value =>
        refine (recordable_insert h key (some value)).trans ?_
        dsimp only
        split_ifs with hkind <;> simp [hkind]
    | argumentNull => simpa using h

/-- After a call the span can be recorded exactly when what the call records can be. -/
theorem recordable_write (h : Recordable settings span) (rt : Runtime) (call : SpanWrite) :
    Recordable settings (span.write rt call) ↔
      ∀ value ∈ recorded rt span call, Truncatable settings.recordedValueMaxLength value := by
  have hnothing : ∀ {other : RecordedSpan}, other.tags = span.tags → other.logs = span.logs →
      (Recordable settings other ↔
        ∀ value ∈ ([] : List (Option Text)),
          Truncatable settings.recordedValueMaxLength value) := by
    intro other htags hlogs
    exact iff_of_true ((recordable_congr htags hlogs).mpr h) (by simp)
  cases call with
  | setTag key value => exact recordable_setTag h rt key value
  | setOperationName value => exact hnothing rfl rfl
  | setResourceName value => exact hnothing rfl rfl
  | setType value => exact hnothing rfl rfl
  | setError value => exact hnothing rfl rfl
  | log timestamp offset fields =>
      rw [write, log, recorded]
      split_ifs with hfinished
      · simpa using h
      · cases fields.bind toDictionary with
        | none => simpa using h
        | some loggedFields =>
            refine (recordable_putLog h timestamp offset loggedFields).trans ?_
            exact List.forall_mem_map.symm
  | add tags =>
      rw [write, recorded, recordable_addTags]
      exact and_iff_right h
  | finish finishTimestamp => exact hnothing (finish_tags finishTimestamp span) rfl

end Recordable

section Null

/-- The dictionary has a null exactly where a `ToString` was null. -/
theorem null_mem_toDictionary {fields : List (Option Text × LoggedValue)} {loggedFields : Texts}
    (h : toDictionary fields = some loggedFields) :
    none ∈ loggedFields.entries.map Sigma.snd ↔ ∃ field ∈ fields, field.2 = .shown none := by
  suffices hfold : ∀ before after : Texts, fields.foldlM addField before = some after →
      (none ∈ after.entries.map Sigma.snd ↔
        none ∈ before.entries.map Sigma.snd ∨ ∃ field ∈ fields, field.2 = .shown none) by
    simpa using hfold ∅ loggedFields h
  clear h
  induction fields with
  | nil =>
      intro before after h
      obtain rfl := Option.some.inj h
      simp
  | cons field rest ih =>
      intro before after h
      rw [List.foldlM_cons] at h
      obtain ⟨added, hadded, hrest⟩ := Option.bind_eq_some_iff.mp h
      obtain ⟨key, value, hvalue, hkey, rfl⟩ := addField_eq_some_iff.mp hadded
      rw [ih _ _ hrest, AList.entries_insert_of_notMem hkey]
      simp only [List.map_cons, List.mem_cons, exists_eq_or_imp, hvalue]
      simp only [eq_comm, LoggedValue.shown.injEq]
      tauto

/-- Tags that are not null store no null. -/
theorem null_notMem_addedValues {added : List (Text × Option Text)}
    (h : ∀ tag ∈ added, tag.2 ≠ none) (tags : Texts) : none ∉ addedValues tags added := by
  induction added generalizing tags with
  | nil => simp [addedValues]
  | cons tag rest ih =>
      obtain ⟨key, value⟩ := tag
      obtain ⟨hvalue, hrest⟩ := List.forall_mem_cons.mp h
      rw [addedValues]
      split_ifs with hmem hkind
      · simp
      · simpa using ih hrest _
      · rw [List.singleton_append, List.mem_cons, not_or]
        exact ⟨hvalue.symm, ih hrest _⟩

theorem optionalTag_ne_null {key : Text} {value : Option Text} {tag : Text × Option Text}
    (h : tag ∈ (value.map fun value => (key, some value)).toList) : tag.2 ≠ none := by
  obtain ⟨value, -, rfl⟩ := Option.map_eq_some_iff.mp (Option.mem_toList.mp h)
  exact Option.some_ne_none _

theorem guardedTag_ne_null {key value : Text} {tag : Text × Option Text}
    (h : tag ∈ [(key, some value)]) : tag.2 ≠ none := by
  obtain rfl := List.mem_singleton.mp h
  exact Option.some_ne_none _

theorem scopeTags_ne_null (command : Text) (exchange routingKey : Option Text) :
    ∀ tag ∈ RabbitMQ.scopeTags command exchange routingKey, tag.2 ≠ none := by
  intro tag hmem
  obtain hfixed | hkey := List.mem_append.mp hmem
  · simp only [List.mem_cons, List.not_mem_nil, or_false] at hfixed
    obtain rfl | rfl | rfl | rfl | rfl | rfl := hfixed <;> exact Option.some_ne_none _
  · exact optionalTag_ne_null hkey

theorem kafkaConsumeTags_ne_null (partition queueTimeMs topicName groupId clientName : Option Text)
    (hasMessage isTombstone : Bool) :
    ∀ tag ∈ kafkaConsumeTags partition queueTimeMs topicName groupId clientName hasMessage
      isTombstone, tag.2 ≠ none := by
  intro tag hmem
  simp only [kafkaConsumeTags, List.mem_append] at hmem
  obtain ((hpartition | hmessage) | hgroup) | hclient := hmem
  · exact optionalTag_ne_null hpartition
  · obtain ⟨-, hmessage⟩ := List.mem_ite_nil_right.mp hmessage
    simp only [List.mem_append] at hmessage
    obtain (hqueueTime | htombstone) | htopic := hmessage
    · exact optionalTag_ne_null hqueueTime
    · exact guardedTag_ne_null (List.mem_ite_nil_right.mp htombstone).2
    · exact guardedTag_ne_null (List.mem_ite_nil_left.mp htopic).2
  · exact guardedTag_ne_null (List.mem_ite_nil_left.mp hgroup).2
  · exact guardedTag_ne_null (List.mem_ite_nil_left.mp hclient).2

theorem kafkaProduceTags_ne_null (clientName : Option Text) (isTombstone : Bool) :
    ∀ tag ∈ kafkaProduceTags clientName isTombstone, tag.2 ≠ none := by
  intro tag hmem
  obtain htombstone | hclient := List.mem_append.mp hmem
  · exact guardedTag_ne_null (List.mem_ite_nil_right.mp htombstone).2
  · exact optionalTag_ne_null hclient

/-- The calls that record a null: a message with a delivery mode whose two low bits are
clear, and logged fields with a `ToString` that gives null. -/
def WritesNull (span : RecordedSpan) : SpanWrite → Prop
  | .log _ _ fields => span.isFinished = false ∧ (fields.bind toDictionary).isSome ∧
      ∃ field ∈ fields.getD [], field.2 = .shown none
  | .add (.rabbitMQDeliveryMode deliveryMode) =>
      0x3 &&& deliveryMode = 0 ∧ Tags.RabbitMQ.deliveryMode ∉ span.tags
  | _ => False

theorem null_mem_deliveryMode {rt : Runtime} {span : RecordedSpan} (deliveryMode : UInt8) :
    none ∈ recorded rt span (.add (.rabbitMQDeliveryMode deliveryMode)) ↔
      0x3 &&& deliveryMode = 0 ∧ Tags.RabbitMQ.deliveryMode ∉ span.tags := by
  have hkind : Tags.RabbitMQ.deliveryMode ≠ Tags.spanKind := by decide
  rw [← RabbitMQ.deliveryModeString_eq_null_iff, recorded, AddedTags.toList]
  cases RabbitMQ.deliveryModeString deliveryMode with
  | error e => simp [addedValues]
  | ok value =>
      simp only [addedValues, if_neg hkind, Except.ok.injEq, List.append_nil]
      split_ifs with hmem
      · simp [hmem]
      · simp [hmem, eq_comm]

theorem null_mem_recorded_iff (rt : Runtime) (span : RecordedSpan) (call : SpanWrite) :
    none ∈ recorded rt span call ↔ WritesNull span call := by
  cases call with
  | setTag key value =>
      refine iff_of_false ?_ id
      rw [recorded]
      by_cases hfinished : span.isFinished = true
      · rw [if_pos hfinished]
        exact List.not_mem_nil
      · rw [if_neg hfinished]
        cases tagEffect rt key value with
        | putTag stored =>
            dsimp only
            split_ifs <;> simp
        | removeTag => exact List.not_mem_nil
        | assignPriority priority => exact List.not_mem_nil
        | ignore => exact List.not_mem_nil
        | argumentNull => exact List.not_mem_nil
  | setOperationName value => exact iff_of_false List.not_mem_nil id
  | setResourceName value => exact iff_of_false List.not_mem_nil id
  | setType value => exact iff_of_false List.not_mem_nil id
  | setError value => exact iff_of_false List.not_mem_nil id
  | log timestamp offset fields =>
      rw [recorded, WritesNull]
      by_cases hfinished : span.isFinished = true
      · simp [hfinished]
      · rw [if_neg hfinished]
        cases fields with
        | none => simp
        | some fields =>
            cases hfields : toDictionary fields with
            | none => simp [hfields]
            | some loggedFields =>
                refine Iff.trans ?_ (null_mem_toDictionary hfields) |>.trans ?_
                · simp [hfields]
                · simp [hfields, hfinished]
  | add tags =>
      cases tags with
      | rabbitMQScope command exchange routingKey =>
          exact iff_of_false (null_notMem_addedValues
            (scopeTags_ne_null command exchange routingKey) span.tags) id
      | rabbitMQMessageSize messageSize =>
          refine iff_of_false (null_notMem_addedValues ?_ span.tags) id
          intro tag hmem
          exact guardedTag_ne_null hmem
      | rabbitMQDeliveryMode deliveryMode => exact null_mem_deliveryMode deliveryMode
      | kafkaConsume partition queueTimeMs topicName groupId clientName hasMessage isTombstone =>
          exact iff_of_false (null_notMem_addedValues (kafkaConsumeTags_ne_null partition
            queueTimeMs topicName groupId clientName hasMessage isTombstone) span.tags) id
      | kafkaProduce clientName isTombstone =>
          exact iff_of_false (null_notMem_addedValues
            (kafkaProduceTags_ne_null clientName isTombstone) span.tags) id
  | finish finishTimestamp => exact iff_of_false List.not_mem_nil id

end Null

end RecordedSpan

end SignalFxTracing.Agent
