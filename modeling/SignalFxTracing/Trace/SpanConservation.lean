import SignalFxTracing.Lib.ListUpdate
import SignalFxTracing.Lib.Machine
import SignalFxTracing.Trace.TraceContext
import Mathlib.Data.List.Perm.Subperm
import Mathlib.Data.List.Nodup

/-!
# Conservation of the spans of a trace

Any number of threads call `AddSpan` and `Span.Finish` on one `TraceContext`.
A `Finish` call in progress is a program counter between two atomic sections:
the lock of the span, the root test of `CloseSpan`, the lock on `_spans` and
the call of `Tracer.Write`. One event runs one section of one call, so runs
are exactly the interleavings of the sections.

The invariant is a ledger: every added span is in the list, in a batch on its
way to `Tracer.Write` or in a written batch, and in one of them only.
-/

namespace SignalFxTracing.Trace.SpanConservation

open Lib Lib.ListUpdate

/-- Where a call of `Span.Finish` stands. -/
inductive FinishCall
  /-- Before `lock (_lock)`. -/
  | entered (span : SpanRef)
  /-- `CloseSpan` was entered, the root test is next. -/
  | closing (span : SpanRef)
  /-- Before `lock (_spans)`. -/
  | locking (span : SpanRef)
  /-- The lock was left with `spansToWrite`. -/
  | writing (batch : List SpanRef)
  deriving DecidableEq

/-- The span whose `IsFinished` the call has set and whose lock is still to come. -/
def FinishCall.closingSpan : FinishCall → List SpanRef
  | .closing span => [span]
  | .locking span => [span]
  | _ => []

def FinishCall.batch : FinishCall → List SpanRef
  | .writing batch => batch
  | _ => []

/-- The trace, its spans, the calls in progress and what `Tracer.Write` received. -/
structure State where
  context : TraceContext := {}
  added : List SpanRef := []
  finished : List SpanRef := []
  closed : List SpanRef := []
  calls : List FinishCall := []
  written : List (List SpanRef) := []
  deriving DecidableEq

inductive Event
  | addSpan (sampler : Option (SpanRef → SamplingPriority))
      (parentPriority : Option SamplingPriority) (span : SpanRef)
  | finish (span : SpanRef)
  | advance (call : Nat)

/-- Run the next atomic section of the call at position `i`. -/
def runSection (s : State) (i : Nat) : FinishCall → State
  | .entered span =>
      if span ∈ s.finished then { s with calls := s.calls.eraseIdx i }
      else { s with finished := span :: s.finished, calls := s.calls.set i (.closing span) }
  | .closing span =>
      { s with context := s.context.lockOnRootSpan span, calls := s.calls.set i (.locking span) }
  | .locking span =>
      let (context, spansToWrite) := s.context.detachSpans
      { s with
        context := context
        closed := span :: s.closed
        calls := match spansToWrite with
          | some batch => s.calls.set i (.writing batch)
          | none => s.calls.eraseIdx i }
  | .writing batch =>
      { s with written := s.written ++ [batch], calls := s.calls.eraseIdx i }

/-- A span is added once, by the `StartSpan` that makes it, and can be finished
only after that `StartSpan` has returned it. -/
def step (s : State) : Event → Option State
  | .addSpan sampler parentPriority span =>
      if span ∈ s.added then none
      else some { s with
        context := s.context.addSpan sampler parentPriority span
        added := span :: s.added }
  | .finish span =>
      if span ∈ s.added then some { s with calls := s.calls ++ [.entered span] } else none
  | .advance i => s.calls[i]?.map (runSection s i)

def system : Machine State Event := ⟨{}, step⟩

/-- Batches that left the lock and have not reached `Tracer.Write`. -/
def State.pending (s : State) : List SpanRef := s.calls.flatMap FinishCall.batch

/-- Finished spans whose `CloseSpan` has not left its lock. -/
def State.closing (s : State) : List SpanRef := s.calls.flatMap FinishCall.closingSpan

structure Inv (s : State) : Prop where
  added_nodup : s.added.Nodup
  finished_nodup : s.finished.Nodup
  finished_added : s.finished ⊆ s.added
  entered_added : ∀ span, .entered span ∈ s.calls → span ∈ s.added
  spans_ledger : ∀ x, s.written.flatten.count x + s.pending.count x +
    s.context.spans.count x = s.added.count x
  closed_ledger : ∀ x, s.closed.count x + s.closing.count x = s.finished.count x
  openSpans_eq : s.context.openSpans = s.added.length - s.closed.length
  sent_closed : s.written.flatten ++ s.pending ⊆ s.closed
  idle_spans : s.context.openSpans = 0 → s.context.spans = []

theorem inv_initial : Inv {} where
  added_nodup := List.nodup_nil
  finished_nodup := List.nodup_nil
  finished_added := List.Subset.refl _
  entered_added := by simp
  spans_ledger := by simp [State.pending]
  closed_ledger := by simp [State.closing]
  openSpans_eq := by simp
  sent_closed := by simp [State.pending]
  idle_spans := fun _ => rfl

theorem Inv.closed_subset {s : State} (h : Inv s) : s.closed ⊆ s.finished := by
  intro x hx
  have hc := List.count_pos_iff.mpr hx
  have hl := h.closed_ledger x
  exact List.count_pos_iff.mp (by omega)

theorem Inv.closed_nodup {s : State} (h : Inv s) : s.closed.Nodup := by
  rw [List.nodup_iff_count_le_one]
  intro x
  have hl := h.closed_ledger x
  have hf := (List.nodup_iff_count_le_one.mp h.finished_nodup) x
  omega

/-- Added spans whose `CloseSpan` has not left its lock. -/
def State.openSpans (s : State) : List SpanRef := s.added.filter (· ∉ s.closed)

theorem Inv.length_openSpans {s : State} (h : Inv s) :
    s.openSpans.length + s.closed.length = s.added.length := by
  have hclosed : (s.added.filter (· ∈ s.closed)).Perm s.closed := by
    rw [List.perm_ext_iff_of_nodup (h.added_nodup.filter _) h.closed_nodup]
    intro x
    simp only [List.mem_filter, decide_eq_true_eq, and_iff_right_iff_imp]
    exact fun hx => h.finished_added (h.closed_subset hx)
  have hsplit := List.length_eq_length_filter_add (l := s.added) (· ∈ s.closed)
  rw [hsplit, hclosed.length_eq, State.openSpans, Nat.add_comm]
  simp

/-- Once as many spans are closed as were added, all of them are. -/
theorem added_subset_of_length {added closed : List SpanRef} (hc : closed.Nodup)
    (hsub : closed ⊆ added) (hlen : added.length ≤ closed.length) : added ⊆ closed :=
  ((List.subperm_of_subset hc hsub).perm_of_length_le hlen).symm.subset

theorem Inv.sent_of_subset {s : State} (h : Inv s) {pending : List SpanRef}
    (hsub : pending ⊆ s.pending) : s.written.flatten ++ pending ⊆ s.closed :=
  List.append_subset.mpr ⟨(List.append_subset.mp h.sent_closed).1,
    List.Subset.trans hsub (List.append_subset.mp h.sent_closed).2⟩

theorem Inv.addSpan {s : State} (h : Inv s) {sampler parentPriority span}
    (hnew : span ∉ s.added) :
    Inv { s with
      context := s.context.addSpan sampler parentPriority span
      added := span :: s.added } where
  added_nodup := List.nodup_cons.mpr ⟨hnew, h.added_nodup⟩
  finished_nodup := h.finished_nodup
  finished_added := fun x hx => List.mem_cons_of_mem _ (h.finished_added hx)
  entered_added := fun x hx => List.mem_cons_of_mem _ (h.entered_added x hx)
  spans_ledger := by
    intro x
    have hl := h.spans_ledger x
    simp only [State.pending, TraceContext.addSpan_spans, List.count_append, List.count_cons,
      List.count_nil] at hl ⊢
    omega
  closed_ledger := h.closed_ledger
  openSpans_eq := by
    have ho := h.openSpans_eq
    simp only [TraceContext.addSpan_openSpans, List.length_cons]
    omega
  sent_closed := h.sent_closed
  idle_spans := by
    intro hz
    have ho := h.openSpans_eq
    have hc := h.length_openSpans
    rw [TraceContext.addSpan_openSpans] at hz
    omega

theorem Inv.finish {s : State} (h : Inv s) {span : SpanRef} (hadded : span ∈ s.added) :
    Inv { s with calls := s.calls ++ [.entered span] } where
  added_nodup := h.added_nodup
  finished_nodup := h.finished_nodup
  finished_added := h.finished_added
  entered_added := by
    intro x hx
    rcases List.mem_append.mp hx with hold | hnew
    · exact h.entered_added x hold
    · obtain rfl : x = span := by simpa using hnew
      exact hadded
  spans_ledger := by
    simpa [State.pending, FinishCall.batch] using h.spans_ledger
  closed_ledger := by
    simpa [State.closing, FinishCall.closingSpan] using h.closed_ledger
  openSpans_eq := h.openSpans_eq
  sent_closed := by
    simpa [State.pending, FinishCall.batch] using h.sent_closed
  idle_spans := h.idle_spans

/-- `Finish` of a span that is finished already returns without closing it. -/
theorem Inv.enteredAgain {s : State} (h : Inv s) {i : Nat} {span : SpanRef}
    (hcall : s.calls[i]? = some (.entered span)) :
    Inv { s with calls := s.calls.eraseIdx i } where
  added_nodup := h.added_nodup
  finished_nodup := h.finished_nodup
  finished_added := h.finished_added
  entered_added := fun x hx => h.entered_added x (List.mem_of_mem_eraseIdx hx)
  spans_ledger := by
    intro x
    have hl := h.spans_ledger x
    have hc := count_flatMap_eraseIdx FinishCall.batch x hcall
    simp only [State.pending, FinishCall.batch, List.count_nil] at hl hc ⊢
    omega
  closed_ledger := by
    intro x
    have hl := h.closed_ledger x
    have hc := count_flatMap_eraseIdx FinishCall.closingSpan x hcall
    simp only [State.closing, FinishCall.closingSpan, List.count_nil] at hl hc ⊢
    omega
  openSpans_eq := h.openSpans_eq
  sent_closed := h.sent_of_subset (flatMap_eraseIdx_subset _)
  idle_spans := h.idle_spans

/-- The first `Finish` of a span sets `IsFinished` and starts to close it. -/
theorem Inv.enteredFirst {s : State} (h : Inv s) {i : Nat} {span : SpanRef}
    (hcall : s.calls[i]? = some (.entered span)) (hnew : span ∉ s.finished) :
    Inv { s with
      finished := span :: s.finished
      calls := s.calls.set i (.closing span) } where
  added_nodup := h.added_nodup
  finished_nodup := List.nodup_cons.mpr ⟨hnew, h.finished_nodup⟩
  finished_added := List.cons_subset.mpr
    ⟨h.entered_added span (List.mem_of_getElem? hcall), h.finished_added⟩
  entered_added := by
    intro x hx
    rcases List.mem_or_eq_of_mem_set hx with hold | heq
    · exact h.entered_added x hold
    · cases heq
  spans_ledger := by
    intro x
    have hl := h.spans_ledger x
    have hc := count_flatMap_set FinishCall.batch x hcall (.closing span)
    simp only [State.pending, FinishCall.batch, List.count_nil] at hl hc ⊢
    omega
  closed_ledger := by
    intro x
    have hl := h.closed_ledger x
    have hc := count_flatMap_set FinishCall.closingSpan x hcall (.closing span)
    simp only [State.closing, FinishCall.closingSpan, List.count_nil, List.count_cons] at hl hc ⊢
    omega
  openSpans_eq := h.openSpans_eq
  sent_closed := by
    have hset := flatMap_set_subset (l := s.calls) (i := i) FinishCall.batch (.closing span)
    simp only [FinishCall.batch, List.append_nil] at hset
    exact h.sent_of_subset hset
  idle_spans := h.idle_spans

/-- The root test of `CloseSpan` moves no span. -/
theorem Inv.closing {s : State} (h : Inv s) {i : Nat} {span : SpanRef}
    (hcall : s.calls[i]? = some (.closing span)) :
    Inv { s with
      context := s.context.lockOnRootSpan span
      calls := s.calls.set i (.locking span) } where
  added_nodup := h.added_nodup
  finished_nodup := h.finished_nodup
  finished_added := h.finished_added
  entered_added := by
    intro x hx
    rcases List.mem_or_eq_of_mem_set hx with hold | heq
    · exact h.entered_added x hold
    · cases heq
  spans_ledger := by
    intro x
    have hl := h.spans_ledger x
    have hc := count_flatMap_set FinishCall.batch x hcall (.locking span)
    simp only [State.pending, FinishCall.batch, List.count_nil,
      TraceContext.lockOnRootSpan_spans] at hl hc ⊢
    omega
  closed_ledger := by
    intro x
    have hl := h.closed_ledger x
    have hc := count_flatMap_set FinishCall.closingSpan x hcall (.locking span)
    simp only [State.closing, FinishCall.closingSpan] at hl hc ⊢
    omega
  openSpans_eq := by simpa using h.openSpans_eq
  sent_closed := by
    have hset := flatMap_set_subset (l := s.calls) (i := i) FinishCall.batch (.locking span)
    simp only [FinishCall.batch, List.append_nil] at hset
    exact h.sent_of_subset hset
  idle_spans := by simpa using h.idle_spans

/-- A span whose call stands before the lock on `_spans` is not closed yet. -/
theorem Inv.not_closed_of_locking {s : State} (h : Inv s) {span : SpanRef}
    (hcall : .locking span ∈ s.calls) : span ∉ s.closed := by
  intro hclosed
  have hclosing : 0 < s.closing.count span :=
    List.count_pos_iff.mpr
      (List.mem_flatMap.mpr ⟨_, hcall, by simp [FinishCall.closingSpan]⟩)
  have hc := List.count_pos_iff.mpr hclosed
  have hl := h.closed_ledger span
  have hf := (List.nodup_iff_count_le_one.mp h.finished_nodup) span
  omega

/-- The calls after the lock of `CloseSpan` was left. -/
def callsAfterLock (calls : List FinishCall) (i : Nat) : Option (List SpanRef) → List FinishCall
  | some batch => calls.set i (.writing batch)
  | none => calls.eraseIdx i

theorem mem_callsAfterLock {calls : List FinishCall} {i : Nat} {spansToWrite}
    {span : SpanRef} (h : .entered span ∈ callsAfterLock calls i spansToWrite) :
    .entered span ∈ calls := by
  cases spansToWrite with
  | none => exact List.mem_of_mem_eraseIdx h
  | some batch =>
      rcases List.mem_or_eq_of_mem_set h with hold | heq
      · exact hold
      · cases heq

/-- Leaving the lock hands the detached spans to the call and forgets its span. -/
theorem count_callsAfterLock {s : State} {i : Nat} {span : SpanRef}
    (hcall : s.calls[i]? = some (.locking span)) (spansToWrite : Option (List SpanRef))
    (x : SpanRef) :
    ((callsAfterLock s.calls i spansToWrite).flatMap FinishCall.batch).count x =
      s.pending.count x + (spansToWrite.getD []).count x ∧
    ((callsAfterLock s.calls i spansToWrite).flatMap FinishCall.closingSpan).count x +
      [span].count x = s.closing.count x := by
  cases spansToWrite with
  | none =>
      have hb := count_flatMap_eraseIdx FinishCall.batch x hcall
      have hc := count_flatMap_eraseIdx FinishCall.closingSpan x hcall
      simp only [FinishCall.batch, FinishCall.closingSpan, List.count_nil] at hb hc
      simp only [callsAfterLock, State.pending, State.closing, Option.getD_none, List.count_nil]
      omega
  | some batch =>
      have hb := count_flatMap_set FinishCall.batch x hcall (.writing batch)
      have hc := count_flatMap_set FinishCall.closingSpan x hcall (.writing batch)
      simp only [FinishCall.batch, FinishCall.closingSpan, List.count_nil] at hb hc
      simp only [callsAfterLock, State.pending, State.closing, Option.getD_some]
      omega

theorem detachSpans_spans (ctx : TraceContext) (x : SpanRef) :
    (ctx.detachSpans.2.getD []).count x + ctx.detachSpans.1.spans.count x =
      ctx.spans.count x := by
  unfold TraceContext.detachSpans
  dsimp only
  split <;> simp

theorem detachSpans_isSome {ctx : TraceContext} {batch : List SpanRef}
    (h : ctx.detachSpans.2 = some batch) : ctx.openSpans = 1 ∧ batch = ctx.spans := by
  unfold TraceContext.detachSpans at h
  dsimp only at h
  split at h
  · rename_i hz
    exact ⟨by omega, (Option.some.inj h).symm⟩
  · cases h

theorem detachSpans_idle (ctx : TraceContext) (h : ctx.detachSpans.1.openSpans = 0) :
    ctx.detachSpans.1.spans = [] := by
  rw [TraceContext.detachSpans_openSpans] at h
  simp [TraceContext.detachSpans, h]

/-- The section under the lock on `_spans` closes one span. When that was the
last open one, every span of the batch is closed. -/
theorem Inv.locking {s : State} (h : Inv s) {i : Nat} {span : SpanRef}
    (hcall : s.calls[i]? = some (.locking span)) :
    Inv { s with
      context := s.context.detachSpans.1
      closed := span :: s.closed
      calls := callsAfterLock s.calls i s.context.detachSpans.2 } := by
  have hmem : FinishCall.locking span ∈ s.calls := List.mem_of_getElem? hcall
  have hspan : span ∈ s.finished := by
    have hc : 0 < s.closing.count span :=
      List.count_pos_iff.mpr
        (List.mem_flatMap.mpr ⟨_, hmem, by simp [FinishCall.closingSpan]⟩)
    have hl := h.closed_ledger span
    exact List.count_pos_iff.mp (by omega)
  have hnot := h.not_closed_of_locking hmem
  refine
    { added_nodup := h.added_nodup
      finished_nodup := h.finished_nodup
      finished_added := h.finished_added
      entered_added := fun x hx => h.entered_added x (mem_callsAfterLock hx)
      spans_ledger := ?_
      closed_ledger := ?_
      openSpans_eq := ?_
      sent_closed := ?_
      idle_spans := detachSpans_idle s.context }
  · intro x
    have hl := h.spans_ledger x
    have hc := (count_callsAfterLock hcall s.context.detachSpans.2 x).1
    have hd := detachSpans_spans s.context x
    simp only [State.pending] at hl hc ⊢
    omega
  · intro x
    have hl := h.closed_ledger x
    have hc := (count_callsAfterLock hcall s.context.detachSpans.2 x).2
    simp only [State.closing, List.count_cons, List.count_nil] at hl hc ⊢
    omega
  · have ho := h.openSpans_eq
    simp only [TraceContext.detachSpans_openSpans, List.length_cons]
    omega
  · have hold := List.append_subset.mp h.sent_closed
    refine List.append_subset.mpr ⟨List.Subset.trans hold.1 (List.subset_cons_self ..), ?_⟩
    intro x hx
    have hcount := (count_callsAfterLock hcall s.context.detachSpans.2 x).1
    have hpos := List.count_pos_iff.mpr hx
    simp only [State.pending] at hpos hcount
    by_cases hp : x ∈ s.pending
    · exact List.mem_cons_of_mem _ (hold.2 hp)
    · have hz : s.pending.count x = 0 := List.count_eq_zero.mpr hp
      simp only [State.pending] at hz
      cases hb : s.context.detachSpans.2 with
      | none => simp only [hb, Option.getD_none, List.count_nil] at hcount hpos; omega
      | some batch =>
          obtain ⟨hone, rfl⟩ := detachSpans_isSome hb
          have hx : x ∈ s.context.spans := by
            simp only [hb, Option.getD_some] at hcount hpos
            exact List.count_pos_iff.mp (by omega)
          have hadded : x ∈ s.added := by
            have hl := h.spans_ledger x
            have := List.count_pos_iff.mpr hx
            exact List.count_pos_iff.mp (by omega)
          refine added_subset_of_length (List.nodup_cons.mpr ⟨hnot, h.closed_nodup⟩) ?_ ?_ hadded
          · exact List.cons_subset.mpr ⟨h.finished_added hspan,
              fun y hy => h.finished_added (h.closed_subset hy)⟩
          · have ho := h.openSpans_eq
            simp only [List.length_cons]
            omega

/-- Writing a batch moves it from the call to the writer. -/
theorem Inv.writing {s : State} (h : Inv s) {i : Nat} {batch : List SpanRef}
    (hcall : s.calls[i]? = some (.writing batch)) :
    Inv { s with written := s.written ++ [batch], calls := s.calls.eraseIdx i } where
  added_nodup := h.added_nodup
  finished_nodup := h.finished_nodup
  finished_added := h.finished_added
  entered_added := fun x hx => h.entered_added x (List.mem_of_mem_eraseIdx hx)
  spans_ledger := by
    intro x
    have hl := h.spans_ledger x
    have hc := count_flatMap_eraseIdx FinishCall.batch x hcall
    simp only [State.pending, FinishCall.batch, List.flatten_append, List.flatten_cons,
      List.flatten_nil, List.append_nil, List.count_append] at hl hc ⊢
    omega
  closed_ledger := by
    intro x
    have hl := h.closed_ledger x
    have hc := count_flatMap_eraseIdx FinishCall.closingSpan x hcall
    simp only [State.closing, FinishCall.closingSpan, List.count_nil] at hl hc ⊢
    omega
  openSpans_eq := h.openSpans_eq
  sent_closed := by
    obtain ⟨hwritten, hpending⟩ := List.append_subset.mp h.sent_closed
    have hbatch : batch ⊆ s.closed := fun x hx =>
      hpending (List.mem_flatMap.mpr ⟨_, List.mem_of_getElem? hcall, hx⟩)
    refine List.append_subset.mpr ⟨?_, List.Subset.trans (flatMap_eraseIdx_subset _) hpending⟩
    simpa using ⟨hwritten, hbatch⟩
  idle_spans := h.idle_spans

theorem runSection_locking (s : State) (i : Nat) (span : SpanRef) :
    runSection s i (.locking span) =
      { s with
        context := s.context.detachSpans.1
        closed := span :: s.closed
        calls := callsAfterLock s.calls i s.context.detachSpans.2 } := by
  simp only [runSection]
  cases s.context.detachSpans.2 <;> rfl

theorem Inv.advance {s : State} (h : Inv s) {i : Nat} {call : FinishCall}
    (hcall : s.calls[i]? = some call) : Inv (runSection s i call) := by
  cases call with
  | entered span =>
      simp only [runSection]
      split
      · exact h.enteredAgain hcall
      · exact h.enteredFirst hcall ‹_›
  | closing span => exact h.closing hcall
  | locking span =>
      rw [runSection_locking]
      exact h.locking hcall
  | writing batch => exact h.writing hcall

theorem inv_preserved : system.Preserved Inv := by
  intro s e t h hstep
  cases e with
  | addSpan sampler parentPriority span =>
      simp only [system, step] at hstep
      split at hstep
      · cases hstep
      · cases hstep
        exact h.addSpan ‹_›
  | finish span =>
      simp only [system, step] at hstep
      split at hstep
      · cases hstep
        exact h.finish ‹_›
      · cases hstep
  | advance i =>
      obtain ⟨call, hcall, rfl⟩ := Option.map_eq_some_iff.mp hstep
      exact h.advance hcall

theorem inv_reachable {s : State} (hs : system.Reachable s) : Inv s :=
  inv_preserved.reachable inv_initial hs

/-- A list of the runtime bounds the counter, so the 32-bit field does not overflow. -/
theorem openSpans_le_length {s : State} (hs : system.Reachable s) :
    s.context.openSpans ≤ s.context.spans.length := by
  have h := inv_reachable hs
  have hsub : s.openSpans.Subperm s.context.spans := by
    refine List.subperm_of_subset (h.added_nodup.filter _) ?_
    intro x hx
    obtain ⟨hadded, hopen⟩ := List.mem_filter.mp hx
    have hsent : x ∉ s.written.flatten ++ s.pending := fun hm =>
      (by simpa using hopen : x ∉ s.closed) (h.sent_closed hm)
    have hz := List.count_eq_zero.mpr hsent
    have hl := h.spans_ledger x
    have hp := List.count_pos_iff.mpr hadded
    rw [List.count_append] at hz
    exact List.count_pos_iff.mp (by omega)
  have hlen := hsub.length_le
  have ho := h.openSpans_eq
  have hc := h.length_openSpans
  omega

theorem Inv.written_nodup {s : State} (h : Inv s) : s.written.flatten.Nodup := by
  rw [List.nodup_iff_count_le_one]
  intro x
  have hl := h.spans_ledger x
  have ha := (List.nodup_iff_count_le_one.mp h.added_nodup) x
  omega

/-- A list without repetitions has no element in two of its parts. -/
theorem countP_mem_le_count (batches : List (List SpanRef)) (x : SpanRef) :
    batches.countP (x ∈ ·) ≤ batches.flatten.count x := by
  induction batches with
  | nil => simp
  | cons batch rest ih =>
      rw [List.countP_cons, List.flatten_cons, List.count_append]
      by_cases hx : x ∈ batch
      · have hpos := List.count_pos_iff.mpr hx
        simp only [hx, decide_true, if_true]
        omega
      · simp only [hx, decide_false, Bool.false_eq_true, if_false]
        omega

/-- Every interleaving keeps the counter equal to the number of open spans and
writes only finished spans, none of them twice. When the counter is zero and
no call stands between its lock and its write, no closed span is missing. -/
theorem spans_conserved {s : State} (hs : system.Reachable s) :
    s.context.openSpans = s.openSpans.length ∧
    (∀ batch ∈ s.written, ∀ span ∈ batch, span ∈ s.added ∧ span ∈ s.finished) ∧
    (∀ span ∈ s.closed, s.written.countP (span ∈ ·) ≤ 1) ∧
    (s.context.openSpans = 0 → (∀ batch, .writing batch ∉ s.calls) →
      ∀ span ∈ s.closed, s.written.countP (span ∈ ·) = 1) := by
  have h := inv_reachable hs
  have hwritten := (List.append_subset.mp h.sent_closed).1
  have honce : ∀ span, s.written.countP (span ∈ ·) ≤ 1 := fun span =>
    (countP_mem_le_count s.written span).trans
      ((List.nodup_iff_count_le_one.mp h.written_nodup) span)
  refine ⟨?_, ?_, fun span _ => honce span, ?_⟩
  · have ho := h.openSpans_eq
    have hc := h.length_openSpans
    omega
  · intro batch hbatch span hspan
    have hclosed := h.closed_subset (hwritten (List.mem_flatten.mpr ⟨batch, hbatch, hspan⟩))
    exact ⟨h.finished_added hclosed, hclosed⟩
  · intro hz hidle span hspan
    have hpending : s.pending = [] := by
      refine List.flatMap_eq_nil_iff.mpr fun call hcall => ?_
      cases call with
      | writing batch => exact absurd hcall (hidle batch)
      | _ => rfl
    have hpos : 0 < s.written.flatten.count span := by
      have hl := h.spans_ledger span
      have hadded := List.count_pos_iff.mpr (h.finished_added (h.closed_subset hspan))
      rw [hpending, h.idle_spans hz, List.count_nil] at hl
      omega
    obtain ⟨batch, hbatch, hmem⟩ := List.mem_flatten.mp (List.count_pos_iff.mp hpos)
    have hpos : 0 < s.written.countP (span ∈ ·) :=
      List.countP_pos_iff.mpr ⟨batch, hbatch, by simpa using hmem⟩
    have := honce span
    omega

/-- A span finished twice and a late child after the first batch was written. -/
def lateChildRun : List Event :=
  [.addSpan none none 1, .finish 1, .finish 1, .advance 0, .advance 0, .advance 0, .advance 1,
    .advance 0, .addSpan none none 2, .finish 2, .advance 0, .advance 0, .advance 0, .advance 0]

def lateChildState : State := (system.run system.initial lateChildRun).getD {}

theorem spans_conserved_lateChild :
    lateChildState.written = [[1], [2]] ∧
      lateChildState.context.openSpans = lateChildState.openSpans.length ∧
      lateChildState.written.countP (2 ∈ ·) = 1 := by
  have hs : system.Reachable lateChildState := ⟨lateChildRun, by decide⟩
  obtain ⟨hopen, -, -, hall⟩ := spans_conserved hs
  have hidle : ∀ batch, FinishCall.writing batch ∉ lateChildState.calls := by
    intro batch hmem
    exact absurd hmem (by rw [show lateChildState.calls = [] by decide]; exact List.not_mem_nil)
  exact ⟨by decide, hopen, hall (by decide) hidle 2 (by decide)⟩

end SignalFxTracing.Trace.SpanConservation
