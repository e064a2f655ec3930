import SignalFxTracing.Trace.Tags
import SignalFxTracing.Trace.TraceContext
import Mathlib.Data.List.AList

/-!
# Spans (`Span.cs`)

`SetTag` and `Finish` with the fields they read and write. Tags with a
special meaning assign the priority of the trace of the span.

## Implementation notes

`Enum.TryParse` and `ToUpperInvariant` belong to the runtime and are the
fields of `Runtime`; no result assumes anything about them. Times are ticks of
the UTC instant, the part of a `DateTimeOffset` that subtraction reads.
-/

namespace SignalFxTracing.Trace

open Clr

structure Runtime where
  /-- `Enum.TryParse` followed by `Enum.IsDefined`. -/
  tryParsePriority : Option Text → Option SamplingPriority
  toUpperInvariant : Text → Text

/-- `StringExtensions.ToBoolean` of a text that is not null. -/
def toBoolean (rt : Runtime) (value : Text) : Option Bool :=
  let upper := rt.toUpperInvariant value
  if upper ∈ [text "TRUE", text "YES", text "T", text "1"] then some true
  else if upper ∈ [text "FALSE", text "NO", text "F", text "0"] then some false
  else none

/-- What `SetTag` does with a key and value on a span that is not finished. -/
inductive TagEffect
  | assignPriority (value : SamplingPriority)
  | ignore
  | removeTag
  | putTag (value : Text)
  /-- `ToBoolean` of null raises `ArgumentNullException`. -/
  | argumentNull
  deriving DecidableEq

/-- The keep and drop tags: `true` assigns the priority. -/
def booleanTag (rt : Runtime) (priority : SamplingPriority) : Option Text → TagEffect
  | none => .argumentNull
  | some value => if (toBoolean rt value).getD false then .assignPriority priority else .ignore

/-- The `switch` of `SetTag`. -/
def tagEffect (rt : Runtime) (key : Text) (value : Option Text) : TagEffect :=
  if key = Tags.samplingPriority then
    match rt.tryParsePriority value with
    | some priority => .assignPriority priority
    | none => .ignore
  else if key = Tags.forceKeep ∨ key = Tags.manualKeep then booleanTag rt .userKeep value
  else if key = Tags.forceDrop ∨ key = Tags.manualDrop then booleanTag rt .userReject value
  else
    match value with
    | none => .removeTag
    | some value => .putTag value

/-- A key without a special meaning is a plain tag. -/
theorem tagEffect_of_not_special (rt : Runtime) {key : Text} (h : key ∉ Tags.specialKeys)
    (value : Option Text) : tagEffect rt key value = value.elim .removeTag .putTag := by
  simp only [Tags.specialKeys, List.mem_cons, List.not_mem_nil, or_false, not_or] at h
  simp only [tagEffect, h.1, h.2, or_self, if_false]
  cases value <;> rfl

structure Span where
  context : SpanContext
  operationName : Option Text
  resourceName : Option Text
  tags : AList fun _ : Text => Option Text
  startTime : Int
  duration : Int
  error : Bool
  isFinished : Bool

namespace Span

/-- The constructor: without a start time the clock of the trace is read. -/
def create (context : SpanContext) (start : Option Int) (utcNow : Int) : Span :=
  { context := context
    operationName := none
    resourceName := none
    tags := ∅
    startTime := start.getD utcNow
    duration := 0
    error := false
    isFinished := false }

/-- `GetTag`. -/
def getTag (key : Text) (span : Span) : Option Text := (span.tags.lookup key).getD none

/-- `SetTag` on a span and the trace it belongs to; `none` is an exception. -/
def setTag (rt : Runtime) (key : Text) (value : Option Text) (span : Span)
    (trace : TraceContext) : Option (Span × TraceContext) :=
  if span.isFinished then some (span, trace)
  else
    match tagEffect rt key value with
    | .assignPriority priority => some (span, trace.setSamplingPriority (some priority))
    | .ignore => some (span, trace)
    | .removeTag => some ({ span with tags := span.tags.erase key }, trace)
    | .putTag value => some ({ span with tags := span.tags.insert key (some value) }, trace)
    | .argumentNull => none

theorem setTag_context {rt : Runtime} {key : Text} {value : Option Text}
    {span after : Span} {trace trace' : TraceContext}
    (h : setTag rt key value span trace = some (after, trace')) : after.context = span.context := by
  unfold setTag at h
  split at h
  · cases h; rfl
  · split at h <;> cases h <;> rfl

theorem setTag_isFinished {rt : Runtime} {key : Text} {value : Option Text}
    {span after : Span} {trace trace' : TraceContext}
    (h : setTag rt key value span trace = some (after, trace')) :
    after.isFinished = span.isFinished := by
  unfold setTag at h
  split at h
  · cases h; rfl
  · split at h <;> cases h <;> rfl

/-- Setting a tag raises on an unfinished span exactly for a keep or drop tag of null. -/
theorem setTag_eq_none_iff {rt : Runtime} {key : Text} {value : Option Text} {span : Span}
    (hspan : span.isFinished = false) (trace : TraceContext) :
    setTag rt key value span trace = none ↔ tagEffect rt key value = .argumentNull := by
  rw [setTag, hspan, if_neg Bool.false_ne_true]
  cases tagEffect rt key value <;> simp

/-- A key without a special meaning only touches the tags of the span. -/
theorem setTag_of_not_special (rt : Runtime) {key : Text} (h : key ∉ Tags.specialKeys)
    (value : Option Text) (span : Span) (trace : TraceContext) :
    ∃ tags, setTag rt key value span trace = some ({ span with tags := tags }, trace) := by
  unfold setTag
  split
  · exact ⟨span.tags, rfl⟩
  · rw [tagEffect_of_not_special rt h]
    cases value with
    | none => exact ⟨_, rfl⟩
    | some value => exact ⟨_, rfl⟩

/-- What `SetTag` makes of an unfinished span with a key without a special meaning. -/
def putTag (key : Text) (value : Option Text) (span : Span) : Span :=
  { span with tags :=
      value.elim (span.tags.erase key) fun value => span.tags.insert key (some value) }

theorem setTag_eq_putTag (rt : Runtime) {key : Text} (h : key ∉ Tags.specialKeys)
    (value : Option Text) {span : Span} (hspan : span.isFinished = false)
    (trace : TraceContext) :
    setTag rt key value span trace = some (span.putTag key value, trace) := by
  rw [setTag, if_neg (by simp [hspan]), tagEffect_of_not_special rt h]
  cases value with
  | none => rfl
  | some value => rfl

@[simp] theorem putTag_context (key : Text) (value : Option Text) (span : Span) :
    (span.putTag key value).context = span.context := rfl

@[simp] theorem putTag_isFinished (key : Text) (value : Option Text) (span : Span) :
    (span.putTag key value).isFinished = span.isFinished := rfl

@[simp] theorem getTag_putTag_self (key : Text) (value : Option Text) (span : Span) :
    (span.putTag key value).getTag key = value := by
  cases value with
  | none => simp [getTag, putTag]
  | some value => simp [getTag, putTag]

@[simp] theorem getTag_putTag_of_ne {key other : Text} (h : other ≠ key) (value : Option Text)
    (span : Span) : (span.putTag key value).getTag other = span.getTag other := by
  cases value with
  | none => simp [getTag, putTag, AList.lookup_erase_ne h]
  | some value => simp [getTag, putTag, AList.lookup_insert_ne h]

/-- The part of `Finish` under the lock of the span, with its flag `shouldCloseSpan`. -/
def markFinished (finishTimestamp : Int) (span : Span) : Span × Bool :=
  let span := { span with resourceName := span.resourceName.or span.operationName }
  if span.isFinished then (span, false)
  else
    let duration := finishTimestamp - span.startTime
    ({ span with duration := if duration < 0 then 0 else duration, isFinished := true }, true)

@[simp] theorem markFinished_isFinished (finishTimestamp : Int) (span : Span) :
    (markFinished finishTimestamp span).1.isFinished = true := by
  unfold markFinished
  dsimp only
  split <;> simp_all

@[simp] theorem markFinished_context (finishTimestamp : Int) (span : Span) :
    (markFinished finishTimestamp span).1.context = span.context := by
  unfold markFinished
  dsimp only
  split <;> rfl

end Span

end SignalFxTracing.Trace
