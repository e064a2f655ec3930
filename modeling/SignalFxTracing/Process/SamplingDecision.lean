import SignalFxTracing.Process.Tracing

/-!
# When sampling decisions are final

A lock on the priority of a trace is never taken back, and a locked priority
never changes. For a trace that continues a propagated one, `AddSpan` finds
the priority that `CreateSpanContext` has stored and takes no lock; until some
later lock the priority stays only if no call assigns another one.
-/

namespace SignalFxTracing.Process

open Clr Lib Trace Propagation

section TraceSteps

/-- `b` has the priority of `a`, and its lock and root span where `a` has them. -/
structure Keeps (a b : TraceContext) : Prop where
  samplingPriority : b.samplingPriority = a.samplingPriority
  locked : a.samplingPriorityLocked = true → b.samplingPriorityLocked = true
  rootSpan : ∀ root, a.rootSpan = some root → b.rootSpan = some root

variable {a b c : TraceContext}

theorem Keeps.refl (a : TraceContext) : Keeps a a := ⟨rfl, id, fun _ => id⟩

theorem Keeps.trans (hab : Keeps a b) (hbc : Keeps b c) : Keeps a c :=
  ⟨hbc.samplingPriority.trans hab.samplingPriority, hbc.locked ∘ hab.locked,
    fun root h => hbc.rootSpan root (hab.rootSpan root h)⟩

theorem keeps_lockSamplingPriority (a : TraceContext) : Keeps a a.lockSamplingPriority := by
  refine ⟨by simp, fun h => ?_, fun root h => by simpa using h⟩
  unfold TraceContext.lockSamplingPriority
  split
  · exact h
  · rfl

theorem keeps_lockOnRootSpan (span : SpanRef) (a : TraceContext) :
    Keeps a (a.lockOnRootSpan span) := by
  unfold TraceContext.lockOnRootSpan
  split
  · exact keeps_lockSamplingPriority a
  · exact Keeps.refl a

theorem keeps_detachSpans (a : TraceContext) : Keeps a a.detachSpans.1 := by
  unfold TraceContext.detachSpans
  dsimp only
  split <;> exact ⟨rfl, id, fun _ => id⟩

/-- An assignment keeps the priority when it is locked or the same. -/
theorem keeps_setSamplingPriority {value : Option SamplingPriority}
    (h : a.samplingPriorityLocked = true ∨ value = a.samplingPriority) :
    Keeps a (a.setSamplingPriority value) := by
  unfold TraceContext.setSamplingPriority
  split
  · exact Keeps.refl a
  · next hlocked =>
      obtain rfl := h.resolve_left hlocked
      exact ⟨rfl, id, fun _ => id⟩

/-- With a priority or a root span present `AddSpan` decides nothing. -/
theorem keeps_addSpan (sampler : Option (SpanRef → SamplingPriority))
    (parentPriority : Option SamplingPriority) (span : SpanRef)
    (h : a.samplingPriority ≠ none ∨ a.rootSpan ≠ none) :
    Keeps a (a.addSpan sampler parentPriority span) := by
  unfold TraceContext.addSpan
  split
  · next hroot =>
      have hpriority := h.resolve_right (not_not_intro hroot)
      simp only [TraceContext.setRootSpan, hpriority, if_false]
      exact ⟨rfl, id, fun root hr => by rw [hroot] at hr; cases hr⟩
  · exact ⟨rfl, id, fun _ => id⟩

end TraceSteps

section Tags

variable (rt : Runtime)

/-- The priority that a sequence of tags assigns last before any exception. -/
def lastAssigned : List (Text × Option Text) → Option SamplingPriority
  | [] => none
  | (key, value) :: rest =>
      match tagEffect rt key value with
      | .assignPriority priority => (lastAssigned rest).or (some priority)
      | .argumentNull => none
      | _ => lastAssigned rest

/-- A trace after tags that assign this priority last. -/
def assignLast (priority : Option SamplingPriority) (trace : TraceContext) : TraceContext :=
  match priority with
  | none => trace
  | some priority => trace.setSamplingPriority (some priority)

theorem setSamplingPriority_setSamplingPriority (trace : TraceContext)
    (first second : Option SamplingPriority) :
    (trace.setSamplingPriority first).setSamplingPriority second =
      trace.setSamplingPriority second := by
  unfold TraceContext.setSamplingPriority
  split <;> simp_all

/-- Tags change the trace of an open span by their last assignment. -/
theorem setTags_trace (tags : List (Text × Option Text)) (span : Span) (trace : TraceContext)
    (hopen : span.isFinished = false) :
    (Tracer.setTags rt tags span trace).2.2 = assignLast (lastAssigned rt tags) trace := by
  induction tags generalizing span trace with
  | nil => rfl
  | cons tag rest ih =>
      obtain ⟨key, value⟩ := tag
      cases h : tagEffect rt key value with
      | assignPriority priority =>
          simp only [Tracer.setTags, Span.setTag, hopen, h, lastAssigned]
          refine (ih _ _ hopen).trans ?_
          cases lastAssigned rt rest with
          | none => rfl
          | some last =>
              simp [assignLast, setSamplingPriority_setSamplingPriority]
      | ignore =>
          simp only [Tracer.setTags, Span.setTag, hopen, h, lastAssigned]
          exact ih _ _ hopen
      | removeTag =>
          simp only [Tracer.setTags, Span.setTag, hopen, h, lastAssigned]
          exact ih _ _ rfl
      | putTag text =>
          simp only [Tracer.setTags, Span.setTag, hopen, h, lastAssigned]
          exact ih _ _ rfl
      | argumentNull =>
          simp only [Tracer.setTags, Span.setTag, hopen, h, lastAssigned]
          rfl

theorem setTag_trace {key : Text} {value : Option Text} {span after : Span}
    {trace trace' : TraceContext} (h : Span.setTag rt key value span trace = some (after, trace')) :
    after.isFinished = span.isFinished ∧
      trace' = if span.isFinished then trace
        else assignLast (lastAssigned rt [(key, value)]) trace := by
  unfold Span.setTag at h
  split at h
  · next hfinished =>
      cases h
      exact ⟨rfl, by rw [if_pos hfinished]⟩
  · next hfinished =>
      rw [if_neg hfinished]
      cases heffect : tagEffect rt key value <;> simp only [heffect, reduceCtorEq] at h <;>
        cases h <;> simp [lastAssigned, heffect, assignLast]

/-- The tags of `DecorateRootSpan` are ordinary ones. -/
theorem lastAssigned_azureTags (azure : Option AzureMetadata) :
    lastAssigned rt (Tracer.azureTags azure) = none := by
  have hordinary : ∀ key ∈ [Tags.azureAppServicesSiteName, Tags.azureAppServicesResourceGroup,
      Tags.azureAppServicesSubscriptionId, Tags.azureAppServicesResourceId],
      key ≠ Tags.samplingPriority ∧ ¬ (key = Tags.forceKeep ∨ key = Tags.manualKeep) ∧
        ¬ (key = Tags.forceDrop ∨ key = Tags.manualDrop) := by decide
  have hskip : ∀ key ∈ [Tags.azureAppServicesSiteName, Tags.azureAppServicesResourceGroup,
      Tags.azureAppServicesSubscriptionId, Tags.azureAppServicesResourceId],
      ∀ value rest, lastAssigned rt ((key, value) :: rest) = lastAssigned rt rest := by
    intro key hkey value rest
    obtain ⟨h1, h2, h3⟩ := hordinary key hkey
    simp only [lastAssigned, tagEffect, h1, h2, h3, if_false]
    cases value <;> rfl
  cases azure with
  | none => rfl
  | some metadata =>
      rw [Tracer.azureTags, hskip _ (by simp), hskip _ (by simp), hskip _ (by simp),
        hskip _ (by simp)]
      rfl

end Tags

section StartSpan

variable (tracer : Tracer)

/-- The trace that a started span belongs to, and the traces before its tags. -/
theorem traceContextFor_cases (parent : Option ISpanContext) (traces : List TraceContext) :
    (∃ context t, parent = some (.inr context) ∧ context.traceContext = some t ∧
      Tracer.traceContextFor parent traces = (false, t, traces)) ∨
    ∃ isRootSpan priority, Tracer.traceContextFor parent traces =
      (isRootSpan, traces.length, traces ++ [TraceContext.create priority]) := by
  unfold Tracer.traceContextFor
  split
  · next context =>
      cases h : context.traceContext with
      | some t => exact Or.inl ⟨context, t, rfl, h, rfl⟩
      | none => exact Or.inr ⟨_, _, rfl⟩
  · exact Or.inr ⟨_, _, rfl⟩

theorem addSpan_trace (ref : SpanRef) (span : Span) (trace : TraceContext)
    (hopen : span.isFinished = false) :
    ∃ sampler priority, (tracer.addSpan ref span trace).2 =
      trace.addSpan sampler priority ref := by
  unfold Tracer.addSpan
  by_cases hroot : trace.rootSpan = none
  · simp only [hroot, if_true]
    rw [setTags_trace tracer.runtime _ span trace hopen, lastAssigned_azureTags]
    exact ⟨_, _, rfl⟩
  · simp only [hroot, if_false]
    exact ⟨_, _, rfl⟩

theorem setTags_isFinished (rt : Runtime) (tags : List (Text × Option Text)) (span : Span)
    (trace : TraceContext) : (Tracer.setTags rt tags span trace).2.1.isFinished =
      span.isFinished := by
  induction tags generalizing span trace with
  | nil => rfl
  | cons tag rest ih =>
      rw [Tracer.setTags]
      split
      · rfl
      · next h => exact (ih _ _).trans (setTag_trace rt h).1

/-- The tags that `StartSpan` sets with these arguments. -/
def startTagsOf (args : Tracer.StartArguments) (traces : List TraceContext) :
    List (Text × Option Text) :=
  tracer.startTags (Tracer.traceContextFor
    (Tracer.resolveParent args.active args.parent args.ignoreActiveScope) traces).1

/-- `StartSpan` changes one trace: its tags assign a priority, and unless they
raise an exception the span is added. -/
theorem startSpan_cases (args : Tracer.StartArguments) (ref : SpanRef)
    (traces before : List TraceContext) (isRootSpan : Bool) (t : TraceRef)
    (hfor : Tracer.traceContextFor
      (Tracer.resolveParent args.active args.parent args.ignoreActiveScope) traces =
        (isRootSpan, t, before)) :
    (before[t]? = none ∧ tracer.startSpan args ref traces = (none, before)) ∨
    ∃ trace, before[t]? = some trace ∧
      ((tracer.startSpan args ref traces = (none, before.set t
          (assignLast (lastAssigned tracer.runtime (tracer.startTags isRootSpan)) trace))) ∨
        ∃ span sampler priority, tracer.startSpan args ref traces = (some span, before.set t
          ((assignLast (lastAssigned tracer.runtime (tracer.startTags isRootSpan)) trace).addSpan
            sampler priority ref))) := by
  unfold Tracer.startSpan Tracer.createSpanContext
  simp only [hfor, SpanContext.ofParent_traceContext, Option.bind_some]
  cases htrace : before[t]? with
  | none => exact Or.inl ⟨rfl, rfl⟩
  | some trace =>
      refine Or.inr ⟨trace, rfl, ?_⟩
      simp only [Option.map_some]
      generalize SpanContext.ofParent args.draws _ t _ args.spanId = context
      have hopen : (Tracer.newSpan context args).isFinished = false := rfl
      have htags := setTags_trace tracer.runtime (tracer.startTags isRootSpan) _ trace hopen
      have hstill := setTags_isFinished tracer.runtime (tracer.startTags isRootSpan)
        (Tracer.newSpan context args) trace
      generalize Tracer.setTags tracer.runtime (tracer.startTags isRootSpan)
        (Tracer.newSpan context args) trace = tagged at htags hstill
      obtain ⟨completed, span, taggedTrace⟩ := tagged
      simp only at htags hstill
      subst htags
      cases completed with
      | false => exact Or.inl rfl
      | true =>
          obtain ⟨sampler, priority, hadd⟩ := addSpan_trace tracer ref span
            (assignLast (lastAssigned tracer.runtime (tracer.startTags isRootSpan)) trace)
            (hstill.trans hopen)
          exact Or.inr ⟨_, sampler, priority, by rw [← hadd]⟩

end StartSpan

section Condition

variable (tracer : Tracer) (s : State)

/-- A root span that was started from a propagated context with a priority, or
has finished. -/
def rootDecides (span : Span) : Bool :=
  span.isFinished ||
    match span.context.parent with
    | some (.inr parent) => parent.traceContext.isNone && parent.samplingPriority.isSome
    | _ => false

/-- The root span of a trace has made its priority final. -/
def DecidedByRoot (t : TraceRef) : Prop :=
  ∃ trace root span, s.traces[t]? = some trace ∧ trace.rootSpan = some root ∧
    s.spans[root]? = some span ∧ rootDecides span = true

/-- The priority that a call of `StartSpan` continues when it creates the trace. -/
def continuedPriority (e : Event) (t : TraceRef) : Option SamplingPriority :=
  match e with
  | .startSpan call => do
      let args ← s.arguments call
      match Tracer.resolveParent args.active args.parent args.ignoreActiveScope with
      | some (.inr parent) =>
          if parent.traceContext.isNone ∧ t = s.traces.length then parent.samplingPriority
          else none
      | _ => none
  | _ => none

/-- The value that an event assigns last to the priority of a trace. -/
def assigned (e : Event) (t : TraceRef) : Option (Option SamplingPriority) :=
  match e with
  | .startSpan call => do
      let args ← s.arguments call
      let parent := Tracer.resolveParent args.active args.parent args.ignoreActiveScope
      if (Tracer.traceContextFor parent s.traces).2.1 = t then
        (lastAssigned tracer.runtime (startTagsOf tracer args s.traces)).map some
      else none
  | .setTag i key value => do
      let (span, u, _) ← s.spanInTrace i
      if u = t ∧ span.isFinished = false then
        (lastAssigned tracer.runtime [(key, value)]).map some
      else none
  | .assignPriority u value => if u = t then some value else none
  | _ => none

/-- The event finishes the open root span of a trace. -/
def finishesRoot (e : Event) (t : TraceRef) : Prop :=
  match e with
  | .finish i _ => ∃ span trace, s.spanInTrace i = some (span, t, trace) ∧
      span.isFinished = false ∧ trace.rootSpan = some i
  | _ => False

/-- What a call must not do to a trace: change a priority that the root span
has made final and no lock protects, or start the root span with another
priority than the propagated one. -/
structure Respects (e : Event) (t : TraceRef) : Prop where
  keeps : ∀ trace v, s.traces[t]? = some trace → trace.samplingPriorityLocked = false →
    DecidedByRoot s t → assigned tracer s e t = some v → v = trace.samplingPriority
  continues : ∀ p v, continuedPriority s e t = some p → assigned tracer s e t = some v →
    v = some p

/-- The events after which a decision is final. -/
inductive Decides (e : Event) (t : TraceRef) : Prop
  /-- The local root span is started from a propagated context with a priority. -/
  | continued (p : SamplingPriority) (hp : continuedPriority s e t = some p)
      (started : ∃ s', step tracer s e = some s' ∧ s'.spans.length = s.spans.length + 1)
  /-- A context of the trace with a priority is injected. -/
  | injected (format : Format) (ref : ContextRef) (carrier : HeaderMap) (context : SpanContext)
      (p : SamplingPriority) (he : e = .inject format ref carrier)
      (hcontext : s.context ref = some (.inr context)) (ht : context.traceContext = some t)
      (hp : samplingDecision s.traces context = some p)
  /-- The root span finishes. -/
  | finished (h : finishesRoot s e t)

/-- A trace whose priority `v` is locked, or final because of the root span. -/
def Settled (t : TraceRef) (v : Option SamplingPriority) : Prop :=
  ∃ trace, s.traces[t]? = some trace ∧ trace.samplingPriority = v ∧
    ((trace.samplingPriorityLocked = true ∧ v ≠ none) ∨ DecidedByRoot s t)

end Condition

section Steps

variable {tracer : Tracer} {s s' : State} {t : TraceRef}

/-- Open spans stay where they are, with their contexts. -/
def SpansKept (s s' : State) : Prop :=
  ∀ (i : SpanRef) (span : Span), s.spans[i]? = some span →
    ∃ span', s'.spans[i]? = some span' ∧ span'.context = span.context ∧
      (span.isFinished = true → span'.isFinished = true)

theorem spansKept_set {i : SpanRef} {span span' : Span} (hspan : s.spans[i]? = some span)
    (hcontext : span'.context = span.context)
    (hfinished : span.isFinished = true → span'.isFinished = true)
    (hspans : s'.spans = s.spans.set i span') : SpansKept s s' := by
  intro j other hother
  by_cases hij : i = j
  · subst hij
    obtain rfl := Option.some.inj (hspan.symm.trans hother)
    refine ⟨span', ?_, hcontext, hfinished⟩
    rw [hspans, List.getElem?_set_self (List.getElem?_eq_some_iff.mp hspan).1]
  · exact ⟨other, by rw [hspans, List.getElem?_set_ne hij]; exact hother, rfl, id⟩

theorem spansKept_append {more : List Span} (hspans : s'.spans = s.spans ++ more) :
    SpansKept s s' := by
  intro i span hspan
  refine ⟨span, ?_, rfl, id⟩
  rw [hspans, List.getElem?_append_left (List.getElem?_eq_some_iff.mp hspan).1]
  exact hspan

/-- A decision by the root span stays one. -/
theorem DecidedByRoot.mono (h : DecidedByRoot s t) (hspans : SpansKept s s')
    (htraces : ∀ trace, s.traces[t]? = some trace →
      ∃ trace', s'.traces[t]? = some trace' ∧ Keeps trace trace') : DecidedByRoot s' t := by
  obtain ⟨trace, root, span, htrace, hroot, hspan, hdecides⟩ := h
  obtain ⟨trace', htrace', hkeeps⟩ := htraces trace htrace
  obtain ⟨span', hspan', hcontext, hfinished⟩ := hspans root span hspan
  refine ⟨trace', root, span', htrace', hkeeps.rootSpan root hroot, hspan', ?_⟩
  unfold rootDecides at hdecides ⊢
  rw [hcontext]
  rw [Bool.or_eq_true] at hdecides ⊢
  exact hdecides.imp_left hfinished

theorem Settled.mono {v : Option SamplingPriority} (h : Settled s t v)
    (hspans : SpansKept s s')
    (htraces : ∀ trace, s.traces[t]? = some trace →
      ∃ trace', s'.traces[t]? = some trace' ∧ Keeps trace trace') : Settled s' t v := by
  obtain ⟨trace, htrace, hpriority, hwhy⟩ := h
  obtain ⟨trace', htrace', hkeeps⟩ := htraces trace htrace
  refine ⟨trace', htrace', hkeeps.samplingPriority.trans hpriority, ?_⟩
  rcases hwhy with ⟨hlocked, hv⟩ | hroot
  · exact Or.inl ⟨hkeeps.locked hlocked, hv⟩
  · exact Or.inr (hroot.mono hspans htraces)

/-- Replacing one trace by one that keeps it. -/
theorem exists_keeps_set {traces : List TraceContext} {u : TraceRef} {a b trace : TraceContext}
    (hu : traces[u]? = some a) (htrace : traces[t]? = some trace) (h : u = t → Keeps a b) :
    ∃ trace', (traces.set u b)[t]? = some trace' ∧ Keeps trace trace' := by
  by_cases hut : u = t
  · subst hut
    obtain rfl := Option.some.inj (hu.symm.trans htrace)
    exact ⟨b, List.getElem?_set_self (List.getElem?_eq_some_iff.mp hu).1, h rfl⟩
  · exact ⟨trace, by rw [List.getElem?_set_ne hut]; exact htrace, Keeps.refl trace⟩

theorem keeps_assignLast {priority : Option SamplingPriority} {trace : TraceContext}
    (h : ∀ v, priority.map some = some v →
      trace.samplingPriorityLocked = true ∨ v = trace.samplingPriority) :
    Keeps trace (assignLast priority trace) := by
  cases priority with
  | none => exact Keeps.refl trace
  | some p => exact keeps_setSamplingPriority (h (some p) rfl)

variable {trace : TraceContext} (htrace : s.traces[t]? = some trace)

include htrace

theorem setTag_keeps {i : SpanRef} {key : Text} {value : Option Text}
    (h : setTag tracer s i key value = some s')
    (hassigned : ∀ v, assigned tracer s (.setTag i key value) t = some v →
      trace.samplingPriorityLocked = true ∨ v = trace.samplingPriority) :
    SpansKept s s' ∧ ∃ trace', s'.traces[t]? = some trace' ∧ Keeps trace trace' := by
  simp only [setTag, bind, Option.bind_eq_some_iff] at h
  obtain ⟨⟨span, u, before⟩, hspan, h⟩ := h
  obtain ⟨hi, hu, hbefore⟩ := State.spanInTrace_eq_some.mp hspan
  simp only at h
  split at h
  · cases h
    exact ⟨fun j other hother => ⟨other, hother, rfl, id⟩, trace, htrace, Keeps.refl trace⟩
  · next span' after hset =>
      obtain ⟨hfinished, hafter⟩ := setTag_trace tracer.runtime hset
      cases h
      refine ⟨spansKept_set hi (Span.setTag_context hset) (fun hf => hfinished.trans hf) rfl,
        exists_keeps_set hbefore htrace ?_⟩
      rintro rfl
      obtain rfl := Option.some.inj (hbefore.symm.trans htrace)
      rw [hafter]
      split
      · exact Keeps.refl before
      · next hopen =>
          refine keeps_assignLast fun v hv => hassigned v ?_
          simp only [assigned, hspan, bind, Option.bind_some]
          rw [if_pos ⟨trivial, by simpa using hopen⟩]
          exact hv

theorem finish_keeps {i : SpanRef} {finishTimestamp : Int}
    (h : finish s i finishTimestamp = some s') :
    SpansKept s s' ∧ ∃ trace', s'.traces[t]? = some trace' ∧ Keeps trace trace' := by
  simp only [finish, bind, Option.bind_eq_some_iff] at h
  obtain ⟨⟨span, u, before⟩, hspan, h⟩ := h
  obtain ⟨hi, hu, hbefore⟩ := State.spanInTrace_eq_some.mp hspan
  cases h
  refine ⟨spansKept_set hi (Span.markFinished_context finishTimestamp span)
    (fun _ => Span.markFinished_isFinished finishTimestamp span) rfl,
    exists_keeps_set hbefore htrace fun _ => ?_⟩
  split
  · exact (keeps_lockOnRootSpan i before).trans (keeps_detachSpans _)
  · exact Keeps.refl before

/-- Starting a span keeps the decision of a trace that has one. -/
theorem startSpan_keeps {call : Call} (h : startSpan tracer s call = some s')
    (hpresent : trace.samplingPriority ≠ none ∨ trace.rootSpan ≠ none)
    (hassigned : ∀ v, assigned tracer s (.startSpan call) t = some v →
      trace.samplingPriorityLocked = true ∨ v = trace.samplingPriority) :
    SpansKept s s' ∧ ∃ trace', s'.traces[t]? = some trace' ∧ Keeps trace trace' := by
  simp only [startSpan, bind, Option.bind_eq_some_iff] at h
  obtain ⟨args, hargs, h⟩ := h
  obtain ⟨isRootSpan, u, before, hfor⟩ : ∃ isRootSpan u before, Tracer.traceContextFor
      (Tracer.resolveParent args.active args.parent args.ignoreActiveScope) s.traces =
        (isRootSpan, u, before) := ⟨_, _, _, rfl⟩
  have hbefore : before[t]? = some trace := by
    rcases traceContextFor_cases
      (Tracer.resolveParent args.active args.parent args.ignoreActiveScope) s.traces with
      ⟨_, _, _, _, hcase⟩ | ⟨_, _, hcase⟩
    · rw [hfor] at hcase
      cases hcase
      exact htrace
    · rw [hfor] at hcase
      cases hcase
      rw [List.getElem?_append_left (List.getElem?_eq_some_iff.mp htrace).1]
      exact htrace
  have htags : ∀ a, before[u]? = some a → u = t →
      Keeps a (assignLast (lastAssigned tracer.runtime (tracer.startTags isRootSpan)) a) := by
    rintro a ha rfl
    obtain rfl := Option.some.inj (ha.symm.trans hbefore)
    refine keeps_assignLast fun v hv => hassigned v ?_
    simp only [assigned, hargs, startTagsOf, hfor, bind, Option.bind_some, if_true]
    exact hv
  rcases startSpan_cases tracer args s.spans.length s.traces before isRootSpan u hfor with
    ⟨hnone, hstart⟩ | ⟨a, ha, hstart | ⟨span, sampler, priority, hstart⟩⟩
  · rw [hstart] at h
    cases h
    exact ⟨spansKept_append (List.append_nil _).symm, trace, hbefore, Keeps.refl trace⟩
  · rw [hstart] at h
    cases h
    exact ⟨spansKept_append (List.append_nil _).symm, exists_keeps_set ha hbefore (htags a ha)⟩
  · rw [hstart] at h
    cases h
    refine ⟨spansKept_append rfl, exists_keeps_set ha hbefore fun hut => ?_⟩
    have hkeeps := htags a ha hut
    refine hkeeps.trans (keeps_addSpan _ _ _ ?_)
    subst hut
    obtain rfl := Option.some.inj (ha.symm.trans hbefore)
    rcases hpresent with hpriority | hroot
    · exact Or.inl (by rwa [hkeeps.samplingPriority])
    · obtain ⟨root, hr⟩ := Option.ne_none_iff_exists'.mp hroot
      exact Or.inr (by rw [hkeeps.rootSpan root hr]; exact Option.some_ne_none root)

omit htrace

theorem keeps_lockTraceOf {traces : List TraceContext} {context : SpanContext}
    (htrace : traces[t]? = some trace) :
    ∃ trace', (lockTraceOf context traces)[t]? = some trace' ∧ Keeps trace trace' := by
  unfold lockTraceOf
  cases context.traceContext with
  | none => exact ⟨trace, htrace, Keeps.refl trace⟩
  | some u =>
      dsimp only
      rw [List.getElem?_modify, htrace]
      by_cases hut : u = t
      · exact ⟨_, by simp [hut], keeps_lockSamplingPriority trace⟩
      · exact ⟨_, by simp [hut], Keeps.refl trace⟩

/-- What one call does to the spans and to a trace that has a priority or a
root span: it keeps both unless it assigns another priority to an unlocked one. -/
theorem step_keeps {e : Event} (h : step tracer s e = some s')
    (htrace : s.traces[t]? = some trace)
    (hpresent : trace.samplingPriority ≠ none ∨ trace.rootSpan ≠ none)
    (hassigned : ∀ v, assigned tracer s e t = some v →
      trace.samplingPriorityLocked = true ∨ v = trace.samplingPriority) :
    SpansKept s s' ∧ ∃ trace', s'.traces[t]? = some trace' ∧ Keeps trace trace' := by
  cases e with
  | createSpanContext call =>
      simp only [step, bind, Option.bind_eq_some_iff] at h
      obtain ⟨args, hargs, h⟩ := h
      cases h
      refine ⟨spansKept_append (List.append_nil _).symm, trace, ?_, Keeps.refl trace⟩
      unfold Tracer.createSpanContext
      dsimp only
      rcases traceContextFor_cases
        (Tracer.resolveParent args.active args.parent args.ignoreActiveScope) s.traces with
        ⟨_, _, _, _, hcase⟩ | ⟨_, _, hcase⟩
      · rw [hcase]
        exact htrace
      · rw [hcase]
        exact (List.getElem?_append_left (List.getElem?_eq_some_iff.mp htrace).1).trans htrace
  | startSpan call => exact startSpan_keeps htrace h hpresent hassigned
  | setTag i key value => exact setTag_keeps htrace h hassigned
  | assignPriority u value =>
      simp only [step, bind, Option.bind_eq_some_iff] at h
      obtain ⟨before, hbefore, h⟩ := h
      cases h
      refine ⟨spansKept_append (List.append_nil _).symm,
        exists_keeps_set hbefore htrace ?_⟩
      rintro rfl
      obtain rfl := Option.some.inj (hbefore.symm.trans htrace)
      exact keeps_setSamplingPriority (hassigned value (if_pos rfl))
  | inject format ref carrier =>
      simp only [step] at h
      split at h
      · cases h
        rw [tracesAfterInject_eq]
        exact ⟨spansKept_append (List.append_nil _).symm, keeps_lockTraceOf htrace⟩
      · cases h
  | finish i finishTimestamp => exact finish_keeps htrace h

/-- A settled priority stays so over a call that respects it. -/
theorem settled_step {e : Event} {v : Option SamplingPriority} (h : Settled s t v)
    (hrespects : Respects tracer s e t) (hstep : step tracer s e = some s') :
    Settled s' t v := by
  obtain ⟨trace, htrace, hpriority, hwhy⟩ := h
  have hpresent : trace.samplingPriority ≠ none ∨ trace.rootSpan ≠ none := by
    rcases hwhy with ⟨-, hv⟩ | ⟨other, root, -, hother, hroot, -, -⟩
    · exact Or.inl (by rwa [hpriority])
    · obtain rfl := Option.some.inj (htrace.symm.trans hother)
      exact Or.inr (by rw [hroot]; exact Option.some_ne_none root)
  have hassigned : ∀ w, assigned tracer s e t = some w →
      trace.samplingPriorityLocked = true ∨ w = trace.samplingPriority := by
    intro w hw
    cases hlocked : trace.samplingPriorityLocked with
    | true => exact Or.inl rfl
    | false =>
        have hroot := hwhy.resolve_left fun h => by simp [hlocked] at h
        exact Or.inr (hrespects.keeps trace w htrace hlocked hroot hw)
  obtain ⟨hspans, hkeeps⟩ := step_keeps hstep htrace hpresent hassigned
  refine Settled.mono ⟨trace, htrace, hpriority, hwhy⟩ hspans fun other hother => ?_
  obtain rfl := Option.some.inj (htrace.symm.trans hother)
  exact hkeeps

end Steps

section Decisions

variable {tracer : Tracer} {s s' : State} {t : TraceRef}

/-- Every context made in the process leaves the priority to its trace. -/
def ContextsDefer (s : State) : Prop := ∀ context ∈ s.contexts, context.samplingPriority = none

theorem contextsDefer_preserved (tracer : Tracer) :
    (system tracer).Preserved ContextsDefer := by
  intro s e s' hs h
  cases e with
  | createSpanContext call =>
      simp only [system, step, bind, Option.bind_eq_some_iff] at h
      obtain ⟨args, -, h⟩ := h
      cases h
      exact List.forall_mem_append.mpr ⟨hs, List.forall_mem_singleton.mpr rfl⟩
  | startSpan call =>
      simp only [system, step, startSpan, bind, Option.bind_eq_some_iff] at h
      obtain ⟨args, -, h⟩ := h
      split at h
      · cases h
        exact hs
      · next span traces hstart =>
          cases h
          refine List.forall_mem_append.mpr ⟨hs, List.forall_mem_singleton.mpr ?_⟩
          rw [Tracer.startSpan_context hstart]
          rfl
  | setTag i key value =>
      simp only [system, step, setTag, bind, Option.bind_eq_some_iff] at h
      obtain ⟨⟨span, u, trace⟩, -, h⟩ := h
      simp only at h
      split at h <;> cases h <;> exact hs
  | assignPriority u value =>
      simp only [system, step, bind, Option.bind_eq_some_iff] at h
      obtain ⟨trace, -, h⟩ := h
      cases h
      exact hs
  | inject format ref carrier =>
      simp only [system, step] at h
      split at h
      · cases h
        exact hs
      · cases h
  | finish i finishTimestamp =>
      simp only [system, step, finish, bind, Option.bind_eq_some_iff] at h
      obtain ⟨⟨span, u, trace⟩, -, h⟩ := h
      cases h
      exact hs

/-- The first span of a trace with a priority becomes its root span. -/
theorem addSpan_of_priority {trace : TraceContext} {p : SamplingPriority}
    (hroot : trace.rootSpan = none) (hp : trace.samplingPriority = some p)
    (sampler : Option (SpanRef → SamplingPriority)) (parentPriority : Option SamplingPriority)
    (span : SpanRef) :
    (trace.addSpan sampler parentPriority span).rootSpan = some span ∧
      (trace.addSpan sampler parentPriority span).samplingPriority = some p := by
  simp [TraceContext.addSpan, TraceContext.setRootSpan, hroot, hp]

/-- A root span started from a propagated context settles the propagated priority. -/
theorem settled_of_continued {e : Event} {p : SamplingPriority}
    (hp : continuedPriority s e t = some p) (hrespects : Respects tracer s e t)
    (hstep : step tracer s e = some s') (hlength : s'.spans.length = s.spans.length + 1) :
    Settled s' t (some p) := by
  cases e with
  | startSpan call =>
      simp only [step, startSpan, bind, Option.bind_eq_some_iff] at hstep
      obtain ⟨args, hargs, hstep⟩ := hstep
      have hcontinued := hp
      simp only [continuedPriority, hargs, bind, Option.bind_some] at hcontinued
      split at hcontinued
      · next parent hparent =>
          split_ifs at hcontinued with hnew
          obtain ⟨hnone, rfl⟩ := hnew
          rw [Option.isNone_iff_eq_none] at hnone
          have hfor : Tracer.traceContextFor
              (Tracer.resolveParent args.active args.parent args.ignoreActiveScope) s.traces =
              (false, s.traces.length,
                s.traces ++ [TraceContext.create parent.samplingPriority]) := by
            simp only [hparent, Tracer.traceContextFor, hnone]
          have hlast : ∀ q, lastAssigned tracer.runtime (tracer.startTags false) = some q →
              q = p := by
            intro q hq
            refine Option.some.inj (hrespects.continues p (some q) hp ?_)
            simp [assigned, hargs, startTagsOf, hfor, hq]
          rcases startSpan_cases tracer args s.spans.length s.traces _ false _ hfor with
            ⟨-, hstart⟩ | ⟨trace, htrace, hstart | ⟨span, sampler, priority, hstart⟩⟩
          · rw [hstart] at hstep
            cases hstep
            simp at hlength
          · rw [hstart] at hstep
            cases hstep
            simp at hlength
          · have hcontext := Tracer.startSpan_context hstart
            rw [hstart] at hstep
            cases hstep
            rw [List.getElem?_concat_length] at htrace
            obtain rfl := Option.some.inj htrace
            rw [hcontinued] at hstart ⊢
            have hadded : (assignLast (lastAssigned tracer.runtime (tracer.startTags false))
                (TraceContext.create (some p))).rootSpan = none ∧
                (assignLast (lastAssigned tracer.runtime (tracer.startTags false))
                (TraceContext.create (some p))).samplingPriority = some p := by
              cases hq : lastAssigned tracer.runtime (tracer.startTags false) with
              | none => exact ⟨rfl, rfl⟩
              | some q => obtain rfl := hlast q hq; exact ⟨rfl, rfl⟩
            obtain ⟨hroot, hpriority⟩ :=
              addSpan_of_priority hadded.1 hadded.2 sampler priority s.spans.length
            have hget : (List.set (s.traces ++ [TraceContext.create (some p)]) s.traces.length
                ((assignLast (lastAssigned tracer.runtime (tracer.startTags false))
                  (TraceContext.create (some p))).addSpan sampler priority
                    s.spans.length))[s.traces.length]? = some _ :=
              List.getElem?_set_self (by simp)
            refine ⟨_, hget, hpriority, Or.inr ⟨_, _, span, hget, hroot,
              List.getElem?_concat_length .., ?_⟩⟩
            have hspanParent : span.context.parent = some (.inr parent) := by
              rw [hcontext, ← hparent]
              rfl
            simp [rootDecides, hspanParent, hnone, hcontinued]
      · cases hcontinued
  | _ => cases hp

/-- After each of the deciding events the priority of the trace is settled. -/
theorem settled_of_decides {e : Event} (hs : (system tracer).Reachable s)
    (hdecides : Decides tracer s e t) (hrespects : Respects tracer s e t)
    (hstep : step tracer s e = some s') :
    ∃ v, Settled s' t v ∧ ∀ p, continuedPriority s e t = some p → v = some p := by
  cases hdecides with
  | continued p hp started =>
      obtain ⟨after, hafter, hlength⟩ := started
      obtain rfl := Option.some.inj (hstep.symm.trans hafter)
      refine ⟨some p, settled_of_continued hp hrespects hstep hlength, fun q hq => ?_⟩
      exact hp.symm.trans hq
  | injected format ref carrier context p he hcontext ht hp =>
      subst he
      simp only [step, hcontext] at hstep
      cases hstep
      have hdefer : context.samplingPriority = none := by
        cases ref with
        | foreign other => cases hcontext
        | propagated draws traceId spanId samplingPriority serviceName traceState =>
            cases hcontext
            cases ht
        | created index =>
            simp only [State.context, Option.map_eq_some_iff] at hcontext
            obtain ⟨other, hother, hinr⟩ := hcontext
            cases hinr
            exact (contextsDefer_preserved tracer).reachable (fun _ h => by cases h) hs _
              (List.mem_of_getElem? hother)
      rw [samplingDecision, ht, hdefer, Option.or_none, Option.bind_some] at hp
      obtain ⟨trace, htrace, hpriority⟩ := Option.bind_eq_some_iff.mp hp
      refine ⟨some p, ⟨trace.lockSamplingPriority, ?_, ?_, Or.inl ⟨?_, by simp⟩⟩,
        fun q hq => by cases hq⟩
      · rw [tracesAfterInject_eq, lockTraceOf, ht]
        simp [htrace]
      · simpa using hpriority
      · simp [TraceContext.lockSamplingPriority, hpriority]
  | finished h =>
      cases e with
      | finish i finishTimestamp =>
          obtain ⟨span, trace, hspan, hopen, hroot⟩ := h
          obtain ⟨hi, hu, htrace⟩ := State.spanInTrace_eq_some.mp hspan
          obtain ⟨hspans, trace', htrace', hkeeps⟩ := finish_keeps htrace hstep
          have hfinished : s'.spans[i]? = some (span.markFinished finishTimestamp).1 := by
            simp only [step, finish, hspan, bind, Option.bind_some] at hstep
            cases hstep
            exact List.getElem?_set_self (List.getElem?_eq_some_iff.mp hi).1
          refine ⟨trace'.samplingPriority, ⟨trace', htrace', rfl, Or.inr ⟨trace', i, _, htrace',
            hkeeps.rootSpan i hroot, hfinished, ?_⟩⟩, fun q hq => by cases hq⟩
          simp [rootDecides]
      | _ => cases h

/-- The priority of a trace that exists. -/
def priorityOf (s : State) (t : TraceRef) : Option (Option SamplingPriority) :=
  s.traces[t]?.map TraceContext.samplingPriority

theorem Settled.priorityOf {v : Option SamplingPriority} (h : Settled s t v) :
    priorityOf s t = some v := by
  obtain ⟨trace, htrace, rfl, -⟩ := h
  simp [Process.priorityOf, htrace]

/-- Every call of a run respects the priority of the trace. -/
def RespectedBy (tracer : Tracer) (s : State) (es : List Event) (t : TraceRef) : Prop :=
  ∀ before e after u, es = before ++ e :: after → (system tracer).run s before = some u →
    Respects tracer u e t

theorem assignLast_unlocked {trace : TraceContext} {q : SamplingPriority}
    (h : trace.samplingPriorityLocked = false) :
    (assignLast (some q) trace).samplingPriority = some q := by
  simp [assignLast, TraceContext.setSamplingPriority, h]

/-- A priority that `StartSpan` assigns to an unlocked trace is its priority afterwards. -/
theorem startSpan_assigns {call : Call} {args : Tracer.StartArguments} {isRootSpan : Bool}
    {before : List TraceContext} {a : TraceContext} {q : SamplingPriority}
    (hargs : s.arguments call = some args)
    (hfor : Tracer.traceContextFor
      (Tracer.resolveParent args.active args.parent args.ignoreActiveScope) s.traces =
        (isRootSpan, t, before))
    (ha : before[t]? = some a) (hunlocked : a.samplingPriorityLocked = false)
    (hlast : lastAssigned tracer.runtime (tracer.startTags isRootSpan) = some q)
    (h : startSpan tracer s call = some s') : priorityOf s' t = some (some q) := by
  have hpriority := assignLast_unlocked (q := q) hunlocked
  have hset : ∀ b : TraceContext, (before.set t b)[t]? = some b := fun b =>
    List.getElem?_set_self (List.getElem?_eq_some_iff.mp ha).1
  simp only [startSpan, hargs, bind, Option.bind_some] at h
  rcases startSpan_cases tracer args s.spans.length s.traces before isRootSpan t hfor with
    ⟨hnone, -⟩ | ⟨b, hb, hcase⟩
  · rw [ha] at hnone
    cases hnone
  · obtain rfl := Option.some.inj (ha.symm.trans hb)
    rw [hlast] at hcase
    rcases hcase with hstart | ⟨span, sampler, priority, hstart⟩
    · rw [hstart] at h
      cases h
      simp only [priorityOf, hset, Option.map_some, hpriority]
    · rw [hstart] at h
      cases h
      have hkeeps := keeps_addSpan sampler priority s.spans.length
        (Or.inl (by rw [hpriority]; exact Option.some_ne_none q))
      simp only [priorityOf, hset, Option.map_some, hkeeps.samplingPriority, hpriority]

/-- A value assigned to an unlocked trace is its priority afterwards. -/
theorem step_assigns {e : Event} {v : Option SamplingPriority} {trace : TraceContext}
    (htrace : s.traces[t]? = some trace) (hunlocked : trace.samplingPriorityLocked = false)
    (hassigned : assigned tracer s e t = some v) (h : step tracer s e = some s') :
    priorityOf s' t = some v := by
  cases e with
  | startSpan call =>
      simp only [assigned, bind, Option.bind_eq_some_iff] at hassigned
      obtain ⟨args, hargs, hassigned⟩ := hassigned
      split_ifs at hassigned with hfor
      obtain ⟨q, hlast, rfl⟩ := Option.map_eq_some_iff.mp hassigned
      have hbefore : (Tracer.traceContextFor (Tracer.resolveParent args.active args.parent
          args.ignoreActiveScope) s.traces).2.2[t]? = some trace := by
        rcases traceContextFor_cases (Tracer.resolveParent args.active args.parent
          args.ignoreActiveScope) s.traces with ⟨_, _, _, _, hcase⟩ | ⟨_, _, hcase⟩
        · rw [hcase]
          exact htrace
        · rw [hcase]
          exact (List.getElem?_append_left (List.getElem?_eq_some_iff.mp htrace).1).trans htrace
      exact startSpan_assigns hargs (Prod.ext rfl (Prod.ext hfor rfl)) hbefore hunlocked hlast h
  | setTag i key value =>
      simp only [assigned, bind, Option.bind_eq_some_iff] at hassigned
      obtain ⟨⟨span, u, before⟩, hspan, hassigned⟩ := hassigned
      split_ifs at hassigned with hopen
      dsimp only at hopen
      obtain ⟨rfl, hopen⟩ := hopen
      obtain ⟨q, hlast, rfl⟩ := Option.map_eq_some_iff.mp hassigned
      obtain ⟨-, -, hbefore⟩ := State.spanInTrace_eq_some.mp hspan
      obtain rfl := Option.some.inj (htrace.symm.trans hbefore)
      simp only [step, setTag, hspan, bind, Option.bind_some] at h
      split at h
      · next hnone =>
          simp only [Span.setTag, hopen, Bool.false_eq_true, if_false] at hnone
          cases heffect : tagEffect tracer.runtime key value <;>
            simp [lastAssigned, heffect] at hlast hnone
      · next span' after hset =>
          obtain ⟨-, rfl⟩ := setTag_trace tracer.runtime hset
          cases h
          simp only [priorityOf, hopen, Bool.false_eq_true, if_false, hlast]
          rw [List.getElem?_set_self (List.getElem?_eq_some_iff.mp htrace).1, Option.map_some,
            assignLast_unlocked hunlocked]
  | assignPriority u value =>
      simp only [assigned] at hassigned
      split_ifs at hassigned with hut
      subst hut
      cases hassigned
      simp only [step, htrace, bind, Option.bind_some] at h
      cases h
      simp only [priorityOf]
      rw [List.getElem?_set_self (List.getElem?_eq_some_iff.mp htrace).1]
      simp [TraceContext.setSamplingPriority, hunlocked]
  | createSpanContext call => cases hassigned
  | inject format ref carrier => cases hassigned
  | finish i finishTimestamp => cases hassigned

/-- A call that does not respect a settled priority changes it. -/
theorem step_changes {e : Event} {v : Option SamplingPriority} (h : Settled s t v)
    (hrespects : ¬ Respects tracer s e t) (hstep : step tracer s e = some s') :
    priorityOf s' t ≠ some v := by
  obtain ⟨trace, htrace, hpriority, -⟩ := h
  intro hsame
  refine hrespects ⟨?_, ?_⟩
  · intro other w hother hunlocked _ hassigned
    obtain rfl := Option.some.inj (htrace.symm.trans hother)
    rw [step_assigns htrace hunlocked hassigned hstep] at hsame
    exact (Option.some.inj hsame).trans hpriority.symm
  · intro p w hp hassigned
    exfalso
    cases e with
    | startSpan call =>
        simp only [continuedPriority, bind, Option.bind_eq_some_iff] at hp
        obtain ⟨args, hargs, hp⟩ := hp
        split at hp
        · split_ifs at hp with hnew
          rw [hnew.2] at htrace
          simp at htrace
        · cases hp
    | _ => cases hp

/-- After a deciding event with outcome `s'` the priority of the trace is the
same after every part of the run, and the propagated one if there is one. -/
def FinalAlong (tracer : Tracer) (s s' : State) (e : Event) (es : List Event) (t : TraceRef) :
    Prop :=
  (∀ before after u, es = before ++ after → (system tracer).run s' before = some u →
    priorityOf u t = priorityOf s' t) ∧
  ∀ p, continuedPriority s e t = some p → priorityOf s' t = some (some p)

/-- The propagated priority was overwritten before the root span was started. -/
theorem respects_of_continued {e : Event} (hdecides : Decides tracer s e t)
    (hstep : step tracer s e = some s')
    (hfinal : ∀ p, continuedPriority s e t = some p → priorityOf s' t = some (some p)) :
    Respects tracer s e t := by
  cases hdecides with
  | injected format ref carrier context p he =>
      subst he
      exact ⟨fun _ _ _ _ _ h => (by cases h), fun _ _ h => (by cases h)⟩
  | finished h =>
      cases e with
      | finish i finishTimestamp =>
          exact ⟨fun _ _ _ _ _ h => (by cases h), fun _ _ h => (by cases h)⟩
      | _ => cases h
  | continued p hp started =>
      cases e with
      | startSpan call =>
          have hcontinued := hp
          simp only [continuedPriority, bind, Option.bind_eq_some_iff] at hcontinued
          obtain ⟨args, hargs, hcontinued⟩ := hcontinued
          split at hcontinued
          · next parent hparent =>
              split_ifs at hcontinued with hnew
              obtain ⟨hnone, rfl⟩ := hnew
              rw [Option.isNone_iff_eq_none] at hnone
              refine ⟨fun trace v htrace => by simp at htrace, fun q v hq hassigned => ?_⟩
              have hfor : Tracer.traceContextFor (Tracer.resolveParent args.active args.parent
                  args.ignoreActiveScope) s.traces = (false, s.traces.length,
                    s.traces ++ [TraceContext.create parent.samplingPriority]) := by
                simp only [hparent, Tracer.traceContextFor, hnone]
              simp only [assigned, hargs, startTagsOf, hfor, bind, Option.bind_some,
                if_true] at hassigned
              obtain ⟨last, hlast, rfl⟩ := Option.map_eq_some_iff.mp hassigned
              have hafter := startSpan_assigns hargs hfor (List.getElem?_concat_length ..)
                rfl hlast hstep
              exact Option.some.inj (hafter.symm.trans (hfinal q hq))
          · cases hcontinued
      | _ => cases hp

theorem RespectedBy.cons {e : Event} {es : List Event} (hfirst : Respects tracer s e t)
    (hstep : (system tracer).step s e = some s') (hrest : RespectedBy tracer s' es t) :
    RespectedBy tracer s (e :: es) t := by
  intro before e' after u hsplit hu
  cases before with
  | nil =>
      obtain ⟨rfl, rfl⟩ := List.cons.inj hsplit
      obtain rfl : s = u := Option.some.inj hu
      exact hfirst
  | cons e₀ before =>
      rw [List.cons_append] at hsplit
      obtain ⟨rfl, htail⟩ := List.cons.inj hsplit
      rw [Machine.run_cons, hstep, Option.bind_some] at hu
      exact hrest before e' after u htail hu

/-- A run along which a settled priority stays consists of calls that respect it. -/
theorem respectedBy_of_same {es : List Event} {v : Option SamplingPriority} {s'' : State}
    (hsettled : Settled s t v) (hrun : (system tracer).run s es = some s'')
    (hsame : ∀ before after u, es = before ++ after → (system tracer).run s before = some u →
      priorityOf u t = some v) : RespectedBy tracer s es t := by
  induction es generalizing s with
  | nil =>
      intro before e after u hsplit
      simp at hsplit
  | cons e rest ih =>
      obtain ⟨w, hw, hrest⟩ := ((system tracer).run_cons_eq_some).mp hrun
      have hrespects : Respects tracer s e t := by
        by_contra hnot
        exact step_changes hsettled hnot hw (hsame [e] rest w rfl (by simp [hw]))
      refine RespectedBy.cons hrespects hw (ih (settled_step hsettled hrespects hw) hrest ?_)
      intro before after u hsplit hu
      exact hsame (e :: before) after u (by rw [hsplit]; rfl) (by simp [hw, hu])

/-- The priority of a trace is final over a run after a deciding event exactly
when every call of the run respects it. -/
theorem decision_final_iff {e : Event} {es : List Event} {s'' : State}
    (hs : (system tracer).Reachable s) (hdecides : Decides tracer s e t)
    (hstep : (system tracer).step s e = some s')
    (hrun : (system tracer).run s' es = some s'') :
    FinalAlong tracer s s' e es t ↔ RespectedBy tracer s (e :: es) t := by
  constructor
  · rintro ⟨hsame, hpropagated⟩
    have hfirst := respects_of_continued hdecides hstep hpropagated
    obtain ⟨v, hsettled, -⟩ := settled_of_decides hs hdecides hfirst hstep
    refine RespectedBy.cons hfirst hstep (respectedBy_of_same hsettled hrun ?_)
    intro before after u hsplit hu
    rw [hsame before after u hsplit hu, hsettled.priorityOf]
  · intro hrespected
    obtain ⟨v, hsettled, hpropagated⟩ :=
      settled_of_decides hs hdecides (hrespected [] e es s rfl rfl) hstep
    refine ⟨fun before after u hsplit hu => ?_, fun p hp => ?_⟩
    · have hlast : Settled u t v := by
        refine (system tracer).run_of_forall (fun u e => Respects tracer u e t)
          (fun u e w hu hr hw => settled_step hu hr hw) hsettled hu ?_
        intro first e' rest w hfirst hw
        refine hrespected (e :: first) e' (rest ++ after) w (by simp [hsplit, hfirst]) ?_
        rw [Machine.run_cons, hstep]
        exact hw
      rw [hlast.priorityOf, hsettled.priorityOf]
    · rw [hsettled.priorityOf, hpropagated p hp]

end Decisions

section Examples

def noArguments : Call where
  active := none
  operationName := none
  parent := none
  serviceName := none
  startTime := none
  ignoreActiveScope := false
  spanId := none
  draws := ⟨0, 0, 1, 2⟩
  utcNow := 0

/-- A server span whose parent was propagated with the priority `AutoKeep`. -/
def startServerSpan : Event :=
  .startSpan { noArguments with
    parent := some (.propagated ⟨0, 0, 0, 0⟩ (some (TraceId.ofHalves 0 1)) 2
      (some .autoKeep) none none) }

/-- The state after the server span has been started. -/
def serverState : State :=
  ((system Tracer.plain).step (system Tracer.plain).initial startServerSpan).getD ⟨[], [], []⟩

theorem step_startServerSpan : (system Tracer.plain).step (system Tracer.plain).initial
    startServerSpan = some serverState := rfl

theorem decides_startServerSpan :
    Decides Tracer.plain (system Tracer.plain).initial startServerSpan 0 :=
  .continued .autoKeep rfl ⟨serverState, rfl, rfl⟩

/-- The server span is dropped by hand after it was continued with `AutoKeep`. -/
def dropServerSpan : Event := .setTag 0 Tags.manualDrop (some (text "1"))

theorem decision_final_iff_serverSpan :
    FinalAlong Tracer.plain (system Tracer.plain).initial serverState startServerSpan
        [dropServerSpan] 0 ↔
      RespectedBy Tracer.plain (system Tracer.plain).initial [startServerSpan, dropServerSpan] 0 :=
  decision_final_iff (system Tracer.plain).reachable_initial decides_startServerSpan
    step_startServerSpan rfl

/-- The propagated priority is overwritten after the root span has been started. -/
theorem decision_overwritten :
    Decides Tracer.plain (system Tracer.plain).initial startServerSpan 0 ∧
      (system Tracer.plain).step (system Tracer.plain).initial startServerSpan =
        some serverState ∧
      priorityOf serverState 0 = some (some .autoKeep) ∧
      ∃ s'', (system Tracer.plain).run serverState [dropServerSpan] = some s'' ∧
        priorityOf s'' 0 = some (some .userReject) :=
  ⟨decides_startServerSpan, step_startServerSpan, rfl, _, rfl, rfl⟩

end Examples

end SignalFxTracing.Process
