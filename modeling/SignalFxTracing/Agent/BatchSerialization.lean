import SignalFxTracing.Agent.SpanWrites
import SignalFxTracing.Lib.Machine

/-!
# Batches of finished spans (`ZipkinSerializer.cs`)

Spans are started and written to in any order. Every batch of them can be
serialized exactly as long as no write records a null, and none records a value
under a negative maximal length.
-/

namespace SignalFxTracing.Agent

open Clr Lib Trace Integrations RecordedSpan

inductive SpanEvent
  | start (context : SpanContext) (start : Int)
  | write (index : Nat) (call : SpanWrite)

/-- The spans that have been started, written to one call at a time. -/
def spanWrites (rt : Runtime) : Machine (List RecordedSpan) SpanEvent where
  initial := []
  step spans event :=
    match event with
    | .start context start => some (spans ++ [create context start])
    | .write index call => spans[index]?.map fun span => spans.set index (span.write rt call)

/-- Traces of spans as they are when they have been finished. -/
def FinishedBatch (spans : List RecordedSpan) (traces : List (List RecordedSpan)) : Prop :=
  ∀ trace ∈ traces, ∀ span ∈ trace, ∃ known ∈ spans, ∃ finishTimestamp,
    span = known.finish finishTimestamp

/-- No span costs the others of its batch. -/
def EmitsAll (formatting : Formatting) (settings : RecordingSettings)
    (spans : List RecordedSpan) : Prop :=
  ∀ traces, FinishedBatch spans traces → EmitsEach formatting settings traces

/-- The write records no null, and nothing at all under a negative maximal length. -/
def RecordsValues (rt : Runtime) (settings : RecordingSettings) (spans : List RecordedSpan) :
    SpanEvent → Prop
  | .start _ _ => True
  | .write index call => ∀ span, spans[index]? = some span →
      ¬ WritesNull span call ∧
        (0 ≤ settings.recordedValueMaxLength ∨ recorded rt span call = [])

section

variable {rt : Runtime} {formatting : Formatting} {settings : RecordingSettings}

/-- Every batch is emitted exactly when every span can be recorded. -/
theorem emitsAll_iff {spans : List RecordedSpan} :
    EmitsAll formatting settings spans ↔ ∀ span ∈ spans, Recordable settings span := by
  constructor
  · intro h span hspan
    have hbatch : FinishedBatch spans [[span.finish 0]] := by
      intro trace htrace other hother
      obtain rfl := List.mem_singleton.mp htrace
      obtain rfl := List.mem_singleton.mp hother
      exact ⟨span, hspan, 0, rfl⟩
    have hfinished := emitsEach_iff.mp (h _ hbatch) _ (List.mem_singleton_self _) _
      (List.mem_singleton_self _)
    exact (recordable_finish 0).mp hfinished
  · intro h traces hbatch
    apply emitsEach_iff.mpr
    intro trace htrace span hspan
    obtain ⟨known, hknown, finishTimestamp, rfl⟩ := hbatch trace htrace span hspan
    exact (recordable_finish finishTimestamp).mpr (h known hknown)

theorem forall_truncatable_iff {maxLength : Int} {values : List (Option Text)} :
    (∀ value ∈ values, Truncatable maxLength value) ↔
      none ∉ values ∧ (0 ≤ maxLength ∨ values = []) := by
  constructor
  · intro h
    refine ⟨fun hnull => (h none hnull).1 rfl, ?_⟩
    cases values with
    | nil => exact Or.inr rfl
    | cons value rest => exact Or.inl (h value (List.mem_cons_self ..)).2
  · rintro ⟨hnull, hlength | rfl⟩ value hvalue
    · exact ⟨fun h => hnull (h ▸ hvalue), hlength⟩
    · simp at hvalue

/-- What one event does to spans that can all be recorded. -/
theorem recordable_step {spans after : List RecordedSpan} {event : SpanEvent}
    (h : ∀ span ∈ spans, Recordable settings span)
    (hstep : (spanWrites rt).step spans event = some after) :
    (∀ span ∈ after, Recordable settings span) ↔ RecordsValues rt settings spans event := by
  cases event with
  | start context start =>
      obtain rfl := Option.some.inj hstep
      refine iff_of_true ?_ trivial
      intro span hspan
      obtain hold | hnew := List.mem_append.mp hspan
      · exact h span hold
      · obtain rfl := List.mem_singleton.mp hnew
        exact recordable_create settings context start
  | write index call =>
      obtain ⟨span, hspan, rfl⟩ := Option.map_eq_some_iff.mp hstep
      have hwrite := recordable_write (h span (List.mem_of_getElem? hspan)) rt call
      rw [forall_truncatable_iff, null_mem_recorded_iff] at hwrite
      simp only [RecordsValues, hspan, Option.some.injEq, forall_eq', ← hwrite]
      obtain ⟨hlt, -⟩ := List.getElem?_eq_some_iff.mp hspan
      constructor
      · intro hafter
        exact hafter _ (List.mem_set hlt _)
      · intro hcall other hother
        obtain hold | rfl := List.mem_or_eq_of_mem_set hother
        · exact h other hold
        · exact hcall

/-- In every run, no span ever costs the others of a batch exactly when every write of
the run records values that can be truncated. -/
theorem emitsAll_iff_throughout (rt : Runtime) (formatting : Formatting)
    (settings : RecordingSettings) (events : List SpanEvent) :
    (spanWrites rt).Always [] events (EmitsAll formatting settings) ↔
      (spanWrites rt).Throughout [] events (RecordsValues rt settings) := by
  refine (spanWrites rt).always_iff_throughout
    (fun spans : List RecordedSpan => emitsAll_iff.mpr) ?_ ?_ events
  · intro spans event after hspans hstep
    rw [emitsAll_iff, recordable_step hspans hstep]
    exact ⟨id, id⟩
  · simp

end

section PublishUnknownMode

/-- The span of a message that is published with the delivery mode 0. -/
def publishUnknownMode : List SpanWrite :=
  [.add (.rabbitMQScope RabbitMQ.amqpBasicPublishCommand (some (text "orders")) none),
    .add (.rabbitMQMessageSize (text "0")), .add (.rabbitMQDeliveryMode 0), .finish 3]

/-- A finished span of another request, and then that of the message. -/
def twoRequests : List SpanEvent :=
  [.start (SpanContext.create ⟨0, 0, 1, 1⟩ none none) 0, .write 0 (.finish 1),
    .start (SpanContext.create ⟨0, 0, 2, 2⟩ none none) 2] ++
  publishUnknownMode.map (.write 1)

def noRuntime : Runtime := ⟨fun _ => none, id⟩

def plainFormatting : Formatting := ⟨fun _ => false, id, fun _ => []⟩

/-- The null of one delivery mode loses the span of the other request as well. -/
theorem not_emitsEach_twoRequests :
    ∃ request message, (spanWrites noRuntime).run [] twoRequests = some [request, message] ∧
      request.isFinished ∧ message.isFinished ∧
      EmitsEach plainFormatting ⟨1200, false⟩ [[request]] ∧
      ¬ EmitsEach plainFormatting ⟨1200, false⟩ [[request], [message]] := by
  refine ⟨_, _, rfl, rfl, rfl, ?_, ?_⟩
  · apply emitsEach_iff.mpr
    intro trace htrace span hspan
    obtain rfl := List.mem_singleton.mp htrace
    obtain rfl := List.mem_singleton.mp hspan
    exact (recordable_finish 1).mpr (recordable_create _ _ _)
  · intro h
    have hmessage := emitsEach_iff.mp h _ (List.mem_cons_of_mem _ (List.mem_singleton_self _)) _
      (List.mem_singleton_self _)
    have hnull := hmessage.tags ⟨Tags.RabbitMQ.deliveryMode, none⟩
      (AList.mem_lookup_iff.mp rfl) (by decide)
    exact hnull.1 rfl

end PublishUnknownMode

end SignalFxTracing.Agent
