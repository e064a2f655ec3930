import SignalFxTracing.Agent.SpanWrites
import SignalFxTracing.ExtensionMethods.TimeExtensions

/-!
# The times of a Zipkin span (`ZipkinSerializer.cs`, `Span.cs`)

A span keeps the instants that it is given with their offsets from UTC. A log
at an instant that is present keeps the offset of the first one.
-/

namespace SignalFxTracing.Agent

open Clr Lib Lib.ExceptRules Trace ExtensionMethods

/-- A span with the offset of its start time. -/
structure TimedSpan extends RecordedSpan where
  startOffset : Int

namespace TimedSpan

/-- `Timestamp`. -/
def timestamp (span : TimedSpan) : Int := toUnixTimeMicroseconds (span.startTime + span.startOffset)

/-- `Duration`. -/
def microseconds (span : TimedSpan) : Int := toMicroseconds span.duration

end TimedSpan

/-- A call of `Log`. -/
structure LogCall where
  timestamp : DateTimeOffset
  fields : Option (List (Option Text × LoggedValue))

namespace LogCall

/-- The fields of the call are stored. -/
def isRecorded (call : LogCall) : Bool := (call.fields.bind toDictionary).isSome

def perform (span : RecordedSpan) (call : LogCall) : RecordedSpan :=
  span.log call.timestamp.utcTicks call.timestamp.offset call.fields

end LogCall

/-- A span that is started, logs, and is finished. -/
def timedSpan (context : SpanContext) (start : DateTimeOffset) (calls : List LogCall)
    (finish : DateTimeOffset) : TimedSpan :=
  { toRecordedSpan := (calls.foldl LogCall.perform
      (RecordedSpan.create context start.utcTicks)).finish finish.utcTicks
    startOffset := start.offset }

/-- The offset of the first call that is recorded at an instant. -/
def firstOffset (calls : List LogCall) (utcTicks : Int) : Option Int :=
  (calls.find? fun call => call.isRecorded && call.timestamp.utcTicks == utcTicks).map fun call =>
    call.timestamp.offset

/-- The times of the span are those of the instants. -/
structure HasExactTimes (formatting : Formatting) (settings : RecordingSettings)
    (start finish : DateTimeOffset) (span : TimedSpan) : Prop where
  timestamp : span.timestamp = wholeMicroseconds start.utcTicks
  duration : span.microseconds = (max 0 (finish.utcTicks - start.utcTicks)).tdiv 10
  annotations : ∀ built, annotations formatting settings span.toRecordedSpan = .ok built →
    built.map Annotation.timestamp = span.logEntries.map fun log => wholeMicroseconds log.1

namespace RecordedSpan

/-- The record of an instant. -/
def recordAt (span : RecordedSpan) (utcTicks : Int) : Option LogRecord :=
  (span.logs.getD ∅).lookup utcTicks

theorem mem_logEntries_iff {span : RecordedSpan} {utcTicks : Int} {record : LogRecord} :
    ⟨utcTicks, record⟩ ∈ span.logEntries ↔ span.recordAt utcTicks = some record := by
  rw [recordAt, logEntries]
  cases span.logs with
  | none => simp
  | some logs => exact AList.mem_lookup_iff.symm

end RecordedSpan

section Logging

variable {span : RecordedSpan}

/-- Logging changes nothing but the logs. -/
theorem toSpan_perform (span : RecordedSpan) (call : LogCall) :
    (call.perform span).toSpan = span.toSpan := by
  rw [LogCall.perform, RecordedSpan.log]
  split_ifs
  · rfl
  · cases call.fields.bind toDictionary <;> rfl

theorem toSpan_foldl (span : RecordedSpan) (calls : List LogCall) :
    (calls.foldl LogCall.perform span).toSpan = span.toSpan := by
  induction calls generalizing span with
  | nil => rfl
  | cons call rest ih => rw [List.foldl_cons, ih, toSpan_perform]

theorem recordAt_putLog (timestamp offset utcTicks : Int) (loggedFields : Texts) :
    (span.putLog timestamp offset loggedFields).recordAt utcTicks =
      if utcTicks = timestamp then
        some ⟨(span.recordAt timestamp).elim offset LogRecord.offset, loggedFields⟩
      else span.recordAt utcTicks := by
  rw [RecordedSpan.recordAt, RecordedSpan.putLog]
  dsimp only
  rw [Option.getD_some]
  split_ifs with hsame
  · rw [hsame, AList.lookup_insert]
    rfl
  · rw [AList.lookup_insert_ne hsame]
    rfl

/-- A recorded call adds its offset where there is none. -/
theorem offset_perform (hspan : span.isFinished = false) (call : LogCall) (utcTicks : Int) :
    ((call.perform span).recordAt utcTicks).map LogRecord.offset =
      ((span.recordAt utcTicks).map LogRecord.offset).or (firstOffset [call] utcTicks) := by
  rw [LogCall.perform, RecordedSpan.log, hspan, if_neg Bool.false_ne_true, firstOffset,
    List.find?_singleton, LogCall.isRecorded]
  cases hfields : call.fields.bind toDictionary with
  | none => simp
  | some loggedFields =>
      rw [Option.elim_some, recordAt_putLog]
      by_cases hsame : utcTicks = call.timestamp.utcTicks
      · rw [if_pos hsame, hsame]
        cases span.recordAt call.timestamp.utcTicks with
        | none => simp
        | some record => simp
      · have hother : (call.timestamp.utcTicks == utcTicks) = false :=
          beq_eq_false_iff_ne.mpr (Ne.symm hsame)
        simp [hsame, hother]

theorem firstOffset_cons (call : LogCall) (rest : List LogCall) (utcTicks : Int) :
    firstOffset (call :: rest) utcTicks =
      (firstOffset [call] utcTicks).or (firstOffset rest utcTicks) := by
  rw [firstOffset, firstOffset, firstOffset, List.find?_cons, List.find?_singleton]
  cases call.isRecorded && call.timestamp.utcTicks == utcTicks <;> rfl

/-- Calls keep the offset of the first one that is recorded at an instant. -/
theorem offset_foldl (hspan : span.isFinished = false) (calls : List LogCall) (utcTicks : Int) :
    ((calls.foldl LogCall.perform span).recordAt utcTicks).map LogRecord.offset =
      ((span.recordAt utcTicks).map LogRecord.offset).or (firstOffset calls utcTicks) := by
  induction calls generalizing span with
  | nil => simp [firstOffset]
  | cons call rest ih =>
      have hcall : (call.perform span).isFinished = false := by
        rw [toSpan_perform]
        exact hspan
      rw [List.foldl_cons, ih hcall, offset_perform hspan, firstOffset_cons call rest,
        Option.or_assoc]

/-- The first recorded call at an instant is one of the calls. -/
theorem exists_of_firstOffset {calls : List LogCall} {utcTicks offset : Int}
    (h : firstOffset calls utcTicks = some offset) :
    ∃ call ∈ calls, call.timestamp.utcTicks = utcTicks ∧ call.timestamp.offset = offset := by
  obtain ⟨call, hfind, rfl⟩ := Option.map_eq_some_iff.mp h
  have hcall := List.find?_some hfind
  rw [Bool.and_eq_true, beq_iff_eq] at hcall
  exact ⟨call, List.mem_of_find?_eq_some hfind, hcall.2, rfl⟩

end Logging

section Annotations

variable {formatting : Formatting} {settings : RecordingSettings} {span : RecordedSpan}

/-- Annotations carry the ticks of the clocks of their logs. -/
theorem timestamps_annotations {built : List Annotation}
    (h : annotations formatting settings span = .ok built) :
    built.map Annotation.timestamp = span.logEntries.map fun log =>
      toUnixTimeMicroseconds (log.1 + log.2.offset) := by
  rw [annotations] at h
  generalize span.logEntries = entries at h ⊢
  have hforall := mapM_eq_ok_iff.mp h
  clear h
  induction hforall with
  | nil => rfl
  | @cons log item logs items hitem _ ih =>
      obtain ⟨fields, -, hitem⟩ := bind_eq_ok_iff.mp hitem
      obtain rfl := Except.ok.inj hitem
      rw [List.map_cons, List.map_cons, ih]

end Annotations

section Times

variable {context : SpanContext} {start finish : DateTimeOffset} {calls : List LogCall}

/-- Finishing leaves the logs, and so the offsets of the calls. -/
theorem offset_timedSpan (utcTicks : Int) :
    ((timedSpan context start calls finish).recordAt utcTicks).map LogRecord.offset =
      firstOffset calls utcTicks := by
  have hcreate : (RecordedSpan.create context start.utcTicks).isFinished = false := rfl
  refine (offset_foldl hcreate calls utcTicks).trans ?_
  rfl

/-- The annotations have the instants of their logs exactly when every first log at an instant is
expressed in UTC. -/
theorem timestamps_timedSpan_iff :
    ((timedSpan context start calls finish).logEntries.map fun log =>
      toUnixTimeMicroseconds (log.1 + log.2.offset)) =
      ((timedSpan context start calls finish).logEntries.map fun log => wholeMicroseconds log.1) ↔
    ∀ utcTicks offset, firstOffset calls utcTicks = some offset → offset = 0 := by
  rw [List.map_inj_left]
  constructor
  · intro h utcTicks offset hoffset
    obtain ⟨call, -, rfl, rfl⟩ := exists_of_firstOffset hoffset
    rw [← @offset_timedSpan context start finish calls] at hoffset
    obtain ⟨record, hrecord, hoffset⟩ := Option.map_eq_some_iff.mp hoffset
    have hlog := h ⟨_, record⟩ (RecordedSpan.mem_logEntries_iff.mpr hrecord)
    apply (wholeMicroseconds_ticks_eq_iff call.timestamp).mp
    rw [← hlog, hoffset]
    rfl
  · rintro h ⟨utcTicks, record⟩ hlog
    have hrecord := RecordedSpan.mem_logEntries_iff.mp hlog
    have hoffset : firstOffset calls utcTicks = some record.offset := by
      rw [← @offset_timedSpan context start finish calls, hrecord]
      rfl
    dsimp only
    rw [h utcTicks record.offset hoffset, Int.add_zero]
    rfl

theorem toSpan_timedSpan :
    (timedSpan context start calls finish).toSpan =
      ((RecordedSpan.create context start.utcTicks).toSpan.markFinished finish.utcTicks).1 := by
  rw [← toSpan_foldl (RecordedSpan.create context start.utcTicks) calls]
  rfl

theorem timestamp_timedSpan_iff :
    (timedSpan context start calls finish).timestamp = wholeMicroseconds start.utcTicks ↔
      start.offset = 0 := by
  rw [← wholeMicroseconds_ticks_eq_iff start, TimedSpan.timestamp, toSpan_timedSpan]
  exact Iff.rfl

theorem duration_timedSpan :
    (timedSpan context start calls finish).duration =
      max 0 (finish.utcTicks - start.utcTicks) := by
  have hduration : ((RecordedSpan.create context start.utcTicks).toSpan.markFinished
      finish.utcTicks).1.duration = if finish.utcTicks - start.utcTicks < 0 then 0
        else finish.utcTicks - start.utcTicks := rfl
  rw [toSpan_timedSpan, hduration]
  split_ifs with hnegative
  · exact (max_eq_left hnegative.le).symm
  · exact (max_eq_right (not_lt.mp hnegative)).symm

theorem microseconds_timedSpan_iff :
    (timedSpan context start calls finish).microseconds =
      (max 0 (finish.utcTicks - start.utcTicks)).tdiv 10 ↔
      finish.utcTicks - start.utcTicks ≤ maxDurationTicks := by
  have hmem : 0 ≤ max 0 (finish.utcTicks - start.utcTicks) ∧
      max 0 (finish.utcTicks - start.utcTicks) ≤ maxTicks := by
    have hstart := start.utcTicks_mem
    have hfinish := finish.utcTicks_mem
    refine ⟨le_max_left _ _, max_le (hstart.1.trans hstart.2) ?_⟩
    omega
  rw [TimedSpan.microseconds, duration_timedSpan, toMicroseconds_eq_iff hmem, max_le_iff,
    and_iff_right (by decide)]

end Times

/-- The times of a span are exact exactly when its start and the first log at each instant are
expressed in UTC, the latter if the annotations can be built, and it does not last so long that
its nanoseconds are wrapped. -/
theorem hasExactTimes_iff (formatting : Formatting) (settings : RecordingSettings)
    (context : SpanContext) (start : DateTimeOffset) (calls : List LogCall)
    (finish : DateTimeOffset) :
    HasExactTimes formatting settings start finish (timedSpan context start calls finish) ↔
      start.offset = 0 ∧ finish.utcTicks - start.utcTicks ≤ maxDurationTicks ∧
      ((∀ log ∈ (timedSpan context start calls finish).logEntries, ∀ field ∈ log.2.fields.entries,
        Truncatable settings.recordedValueMaxLength field.2) →
        ∀ utcTicks offset, firstOffset calls utcTicks = some offset → offset = 0) := by
  constructor
  · intro h
    refine ⟨timestamp_timedSpan_iff.mp h.timestamp, microseconds_timedSpan_iff.mp h.duration, ?_⟩
    intro htruncatable
    obtain ⟨built, hbuilt⟩ : ∃ built, annotations formatting settings
        (timedSpan context start calls finish).toRecordedSpan = .ok built :=
      exists_annotations_iff.mpr htruncatable
    apply (@timestamps_timedSpan_iff context start finish calls).mp
    rw [← timestamps_annotations hbuilt]
    exact h.annotations built hbuilt
  · rintro ⟨hstart, hduration, hoffsets⟩
    refine ⟨timestamp_timedSpan_iff.mpr hstart, microseconds_timedSpan_iff.mpr hduration, ?_⟩
    intro built hbuilt
    have htruncatable := exists_annotations_iff.mp ⟨built, hbuilt⟩
    rw [timestamps_annotations hbuilt]
    exact timestamps_timedSpan_iff.mpr (hoffsets htruncatable)

/-- The Unix epoch, expressed as one o'clock at an offset of one hour. -/
def epochAtOneHour : DateTimeOffset :=
  ⟨621355968000000000, 36000000000, by decide, by decide, by decide, by decide⟩

def firstInstant : DateTimeOffset := ⟨0, 0, by decide, by decide, by decide, by decide⟩

def lastInstant : DateTimeOffset := ⟨maxTicks, 0, by decide, by decide, by decide, by decide⟩

/-- A span that starts at the epoch, on a clock that is one hour ahead, is sent an hour late, and
the duration of the longest span is wrapped. -/
theorem not_hasExactTimes_epochAtOneHour :
    ¬ HasExactTimes ⟨fun _ => false, id, fun _ => []⟩ ⟨1200, true⟩ epochAtOneHour epochAtOneHour
      (timedSpan (SpanContext.create ⟨1, 2, 3, 4⟩ none none) epochAtOneHour [] epochAtOneHour) ∧
    ¬ HasExactTimes ⟨fun _ => false, id, fun _ => []⟩ ⟨1200, true⟩ firstInstant lastInstant
      (timedSpan (SpanContext.create ⟨1, 2, 3, 4⟩ none none) firstInstant [] lastInstant) := by
  constructor
  · intro h
    exact absurd (timestamp_timedSpan_iff.mp h.timestamp) (by decide)
  · intro h
    exact absurd (microseconds_timedSpan_iff.mp h.duration) (by decide)

end SignalFxTracing.Agent
