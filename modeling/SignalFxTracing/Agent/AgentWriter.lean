import SignalFxTracing.Agent.AgentWriterBuffer
import SignalFxTracing.Lib.Machine

/-!
# The flush loop (`AgentWriter.cs`)

Traces are written to the buffer by any thread. One loop takes them out, once
a second and a last time when the process exits, and passes them to the API.
Its steps interleave with the writes in any order.

## Implementation notes

What is reported to `IStatsd` is left out; it is assumed not to throw. The
number of a written trace tells one call of `WriteTrace` from another and is
not in the code. The API may be another one for every call.
-/

namespace SignalFxTracing.Agent

open Lib

/-- A trace, with the number of the call that wrote it. -/
structure Written (Trace : Type*) where
  number : Nat
  trace : Trace

def traceBufferSize : Nat := 1000

/-- Where `FlushTracesTaskLoopAsync` is; `exit` is whether it has seen the exit of the process. -/
inductive FlushLoop (T : Type*)
  /-- At `Task.WhenAny`. -/
  | waiting
  /-- At `Pop`. -/
  | flushing (exit : Bool)
  /-- At `SendTracesAsync`. -/
  | sending (exit : Bool) (traces : List (Option T))
  /-- The array is passed and its task awaited. -/
  | awaiting (exit : Bool)
  | returned

namespace FlushLoop

variable {T : Type*}

/-- The traces that are taken out and not passed yet. -/
def traces : FlushLoop T → List (Option T)
  | sending _ traces => traces
  | _ => []

/-- Behind a flush that did not throw. -/
def flushed (exit : Bool) : FlushLoop T := if exit then returned else waiting

/-- The last `Pop` has been made. -/
def isPastExit : FlushLoop T → Bool
  | sending exit _ => exit
  | awaiting exit => exit
  | returned => true
  | _ => false

@[simp] theorem traces_flushed (exit : Bool) : (flushed exit : FlushLoop T).traces = [] := by
  cases exit
  · rfl
  · rfl

@[simp] theorem isPastExit_flushed (exit : Bool) :
    (flushed exit : FlushLoop T).isPastExit = exit := by
  cases exit
  · rfl
  · rfl

end FlushLoop

structure AgentWriter (Trace : Type*) where
  synchronousSend : Bool
  tracesBuffer : AgentWriterBuffer (Written Trace) traceBufferSize
  processExit : Bool
  flushLoop : FlushLoop (Written Trace)
  /-- The arrays passed to `IApi.SendTracesAsync`. -/
  sent : List (List (Option (Written Trace)))
  /-- What the buffer has been through. -/
  history : AgentWriterBuffer.History (Written Trace)
  /-- The traces pushed before the exit was signalled. -/
  beforeExit : List (Written Trace)

namespace AgentWriter

variable {Trace : Type*}

/-- The constructor: the loop of a synchronous writer is a completed task. -/
def create (synchronousSend : Bool) : AgentWriter Trace where
  synchronousSend := synchronousSend
  tracesBuffer := AgentWriterBuffer.create
  processExit := false
  flushLoop := if synchronousSend then .returned else .waiting
  sent := []
  history := {}
  beforeExit := []

/-- An atomic step of a writer, of `FlushAndCloseAsync` or of the loop. -/
inductive Event (Trace : Type*)
  | writeTrace (trace : Trace) (index : Fin traceBufferSize)
  /-- `_processExit.TrySetResult`. -/
  | flushAndClose
  /-- The delay or the exit ends the wait. -/
  | wake
  | pop
  | send
  /-- The task of the API ends, or its call throws. -/
  | complete (succeeded : Bool)

variable (w : AgentWriter Trace)

def operate (op : AgentWriterBuffer.Op (Written Trace) traceBufferSize) : AgentWriter Trace :=
  { w with
    tracesBuffer := (w.tracesBuffer.perform w.history op).1
    history := (w.tracesBuffer.perform w.history op).2 }

/-- `WriteTrace`. -/
def writeTrace (trace : Trace) (index : Fin traceBufferSize) : AgentWriter Trace :=
  let written : Written Trace := ⟨w.history.pushed.length, trace⟩
  if w.synchronousSend then { w with sent := w.sent ++ [[some written]] }
  else
    { w.operate (.push written index) with
      beforeExit := if w.processExit then w.beforeExit else w.beforeExit ++ [written] }

/-- One step; `none` when the loop is elsewhere. -/
def step : Event Trace → Option (AgentWriter Trace)
  | .writeTrace trace index => some (w.writeTrace trace index)
  | .flushAndClose => some { w with processExit := true }
  | .wake =>
      match w.flushLoop with
      | .waiting => some { w with flushLoop := .flushing w.processExit }
      | _ => none
  | .pop =>
      match w.flushLoop with
      | .flushing exit =>
          let traces := w.tracesBuffer.held
          some { w.operate .pop with
            flushLoop := if 0 < traces.length then .sending exit traces else .flushed exit }
      | _ => none
  | .send =>
      match w.flushLoop with
      | .sending exit traces =>
          some { w with sent := w.sent ++ [traces], flushLoop := .awaiting exit }
      | _ => none
  | .complete succeeded =>
      match w.flushLoop with
      | .awaiting exit =>
          some { w with flushLoop := if succeeded then .flushed exit else .waiting }
      | _ => none

def machine (synchronousSend : Bool) : Machine (AgentWriter Trace) (Event Trace) where
  initial := create synchronousSend
  step := step

/-- What holds of a writer after any number of steps. -/
structure Inv (w : AgentWriter Trace) : Prop where
  conserved : AgentWriterBuffer.Conserved w.tracesBuffer w.history
  numbers : w.history.pushed.map Written.number = List.range w.history.pushed.length
  sent : w.synchronousSend = false →
    w.history.popped.flatten = w.sent.flatten ++ w.flushLoop.traces
  beforeExit_subset : w.beforeExit ⊆ w.history.pushed
  beforeExit_all : w.processExit = false → w.history.pushed ⊆ w.beforeExit
  flushing : w.flushLoop = .flushing true → w.processExit = true
  pastExit : w.flushLoop.isPastExit = true → w.synchronousSend = false →
    w.processExit = true ∧ ∀ t ∈ w.beforeExit, some t ∉ w.tracesBuffer.held
  synchronous : w.synchronousSend = true → w.beforeExit = []

theorem inv_create (synchronousSend : Bool) : (create synchronousSend : AgentWriter Trace).Inv where
  conserved := AgentWriterBuffer.conserved_create
  numbers := rfl
  sent h := by
    subst h
    rfl
  beforeExit_subset := List.Subset.refl _
  beforeExit_all _ := List.Subset.refl _
  flushing h := by
    cases synchronousSend
    · cases h
    · cases h
  pastExit h hsync := by
    subst hsync
    cases h
  synchronous _ := rfl

section Steps

variable {w : AgentWriter Trace}

/-- The next trace to be written has a number of its own. -/
theorem Inv.number_lt (h : w.Inv) {t : Written Trace} (ht : t ∈ w.history.pushed) :
    t.number < w.history.pushed.length := by
  have hmem := List.mem_map_of_mem (f := Written.number) ht
  rw [h.numbers] at hmem
  exact List.mem_range.mp hmem

theorem Inv.writeTrace (h : w.Inv) (trace : Trace) (index : Fin traceBufferSize) :
    (w.writeTrace trace index).Inv := by
  rw [AgentWriter.writeTrace]
  by_cases hsync : w.synchronousSend = true
  · rw [if_pos hsync]
    exact
      { h with
        sent := fun hasync => absurd (hsync.symm.trans hasync) (by decide) }
  · rw [if_neg hsync]
    have hasync : w.synchronousSend = false := Bool.eq_false_iff.mpr hsync
    have hpush := w.tracesBuffer.push_perm ⟨w.history.pushed.length, trace⟩ index
    constructor
    · exact h.conserved.perform _
    · simp [operate, AgentWriterBuffer.perform, h.numbers, List.range_succ]
    · exact h.sent
    · intro t ht
      split_ifs at ht
      · exact List.mem_append_left _ (h.beforeExit_subset ht)
      · exact (List.mem_append.mp ht).elim
          (fun ht => List.mem_append_left _ (h.beforeExit_subset ht))
          (List.mem_append_right _)
    · intro hexit t ht
      have hopen : w.processExit = false := hexit
      rw [hopen, if_neg Bool.false_ne_true]
      exact (List.mem_append.mp ht).elim
        (fun ht => List.mem_append_left _ (h.beforeExit_all hopen ht))
        (List.mem_append_right _)
    · exact h.flushing
    · intro hpast _
      obtain ⟨hexit, hheld⟩ := h.pastExit hpast hasync
      refine ⟨hexit, ?_⟩
      intro t ht hmem
      rw [hexit, if_pos rfl] at ht
      have hbefore := hpush.mem_iff.mp (List.mem_append_left _ hmem)
      rcases List.mem_append.mp hbefore with hold | hnew
      · exact hheld t ht hold
      · obtain rfl := Option.some.inj (List.mem_singleton.mp hnew)
        exact Nat.lt_irrefl _ (h.number_lt (h.beforeExit_subset ht))
    · exact fun hsync => absurd (hsync.symm.trans hasync) (by decide)

theorem Inv.flushAndClose (h : w.Inv) : ({ w with processExit := true } : AgentWriter Trace).Inv :=
  { h with
    beforeExit_all := nofun
    flushing := fun _ => rfl
    pastExit := fun hpast hasync => ⟨rfl, (h.pastExit hpast hasync).2⟩ }

theorem Inv.wake (h : w.Inv) (hloop : w.flushLoop = .waiting) :
    ({ w with flushLoop := .flushing w.processExit } : AgentWriter Trace).Inv :=
  { h with
    sent := fun hasync => by
      have hsent := h.sent hasync
      rwa [hloop] at hsent
    flushing := fun hflushing => by
      injection hflushing
    pastExit := nofun }

theorem Inv.pop (h : w.Inv) {exit : Bool} (hloop : w.flushLoop = .flushing exit) :
    ({ w.operate .pop with
      flushLoop := if 0 < w.tracesBuffer.held.length then .sending exit w.tracesBuffer.held
        else .flushed exit } : AgentWriter Trace).Inv := by
  have hexit : exit = true → w.processExit = true := by
    rintro rfl
    exact h.flushing hloop
  constructor
  · exact h.conserved.perform _
  · exact h.numbers
  · intro hasync
    have hsent := h.sent hasync
    rw [hloop] at hsent
    have htraces : (if 0 < w.tracesBuffer.held.length then
        FlushLoop.sending exit w.tracesBuffer.held else .flushed exit).traces =
          w.tracesBuffer.held := by
      split_ifs with hlength
      · rfl
      · have hnil : w.tracesBuffer.held = [] := List.eq_nil_of_length_eq_zero (by omega)
        rw [FlushLoop.traces_flushed, hnil]
    rw [htraces]
    simpa [operate, AgentWriterBuffer.perform, AgentWriterBuffer.pop, FlushLoop.traces] using hsent
  · exact h.beforeExit_subset
  · exact h.beforeExit_all
  · intro hflushing
    dsimp only at hflushing
    split_ifs at hflushing
    cases exit
    · cases hflushing
    · cases hflushing
  · intro hpast _
    refine ⟨?_, fun t _ => List.not_mem_nil⟩
    dsimp only at hpast
    split_ifs at hpast
    · exact hexit hpast
    · rw [FlushLoop.isPastExit_flushed] at hpast
      exact hexit hpast
  · exact h.synchronous

theorem Inv.send (h : w.Inv) {exit : Bool} {traces : List (Option (Written Trace))}
    (hloop : w.flushLoop = .sending exit traces) :
    ({ w with sent := w.sent ++ [traces], flushLoop := .awaiting exit } : AgentWriter Trace).Inv :=
  { h with
    sent := fun hasync => by
      have hsent := h.sent hasync
      rw [hloop] at hsent
      simpa [FlushLoop.traces] using hsent
    flushing := nofun
    pastExit := fun hpast hasync => h.pastExit (by rwa [hloop]) hasync }

theorem Inv.complete (h : w.Inv) {exit : Bool} (hloop : w.flushLoop = .awaiting exit)
    (succeeded : Bool) :
    ({ w with flushLoop := if succeeded then .flushed exit else .waiting } :
      AgentWriter Trace).Inv := by
  have hsent := h.sent
  have hpastExit := h.pastExit
  rw [hloop] at hsent hpastExit
  cases succeeded with
  | false => exact { h with sent := hsent, flushing := nofun, pastExit := nofun }
  | true =>
      exact
        { h with
          sent := fun hasync => by
            rw [if_pos rfl, FlushLoop.traces_flushed]
            exact hsent hasync
          flushing := fun hflushing => by
            cases exit
            · cases hflushing
            · cases hflushing
          pastExit := fun hpast hasync => by
            rw [if_pos rfl, FlushLoop.isPastExit_flushed] at hpast
            exact hpastExit hpast hasync }

/-- Every step keeps the invariant. -/
theorem inv_preserved (synchronousSend : Bool) :
    (machine synchronousSend : Machine (AgentWriter Trace) (Event Trace)).Preserved Inv := by
  intro w e after h hstep
  cases e with
  | writeTrace trace index =>
      obtain rfl := Option.some.inj hstep
      exact h.writeTrace trace index
  | flushAndClose =>
      obtain rfl := Option.some.inj hstep
      exact h.flushAndClose
  | wake =>
      cases hloop : w.flushLoop with
      | waiting =>
          simp only [machine, step, hloop, Option.some.injEq] at hstep
          subst hstep
          exact h.wake hloop
      | _ => simp [machine, step, hloop] at hstep
  | pop =>
      cases hloop : w.flushLoop with
      | flushing exit =>
          simp only [machine, step, hloop, Option.some.injEq] at hstep
          subst hstep
          exact h.pop hloop
      | _ => simp [machine, step, hloop] at hstep
  | send =>
      cases hloop : w.flushLoop with
      | sending exit traces =>
          simp only [machine, step, hloop, Option.some.injEq] at hstep
          subst hstep
          exact h.send hloop
      | _ => simp [machine, step, hloop] at hstep
  | complete succeeded =>
      cases hloop : w.flushLoop with
      | awaiting exit =>
          simp only [machine, step, hloop, Option.some.injEq] at hstep
          subst hstep
          exact h.complete hloop succeeded
      | _ => simp [machine, step, hloop] at hstep

theorem inv_reachable {synchronousSend : Bool}
    (h : (machine synchronousSend).Reachable w) : w.Inv :=
  (inv_preserved synchronousSend).reachable (inv_create synchronousSend) h

/-- A trace that was pushed before the exit and not overwritten has been passed to the API when the
loop has returned. -/
theorem Inv.mem_sent (h : w.Inv) (hloop : w.flushLoop = .returned) {t : Written Trace}
    (ht : t ∈ w.beforeExit) (hoverwritten : some t ∉ w.history.overwritten) :
    some t ∈ w.sent.flatten ∧ w.sent.flatten.Nodup := by
  have hasync : w.synchronousSend = false := by
    by_contra hsync
    rw [h.synchronous (Bool.not_eq_false _ ▸ hsync)] at ht
    cases ht
  have hsent : w.history.popped.flatten = w.sent.flatten := by
    have hsent := h.sent hasync
    rw [hloop] at hsent
    simpa [FlushLoop.traces] using hsent
  have hheld := (h.pastExit (by rw [hloop]; rfl) hasync).2 t ht
  have hmem := h.conserved.perm.mem_iff.mpr
    (List.mem_map_of_mem (f := some) (h.beforeExit_subset ht))
  have hpushed : w.history.pushed.Nodup := by
    apply List.Nodup.of_map Written.number
    rw [h.numbers]
    exact List.nodup_range
  have hnodup := h.conserved.nodup hpushed
  rw [hsent] at hmem hnodup
  constructor
  · rcases List.mem_append.mp hmem with hmem | hmem
    · exact (List.mem_append.mp hmem).resolve_right hheld
    · exact absurd hmem hoverwritten
  · exact (List.nodup_append.mp (List.nodup_append.mp hnodup).1).1

/-- In lists without repetitions among them, an element is in one list only. -/
theorem existsUnique_of_nodup_flatten {α : Type*} {lists : List (List α)} {a : α}
    (h : lists.flatten.Nodup) (ha : a ∈ lists.flatten) :
    ∃! i : Nat, ∃ l, lists[i]? = some l ∧ a ∈ l := by
  obtain ⟨l, hl, hal⟩ := List.mem_flatten.mp ha
  obtain ⟨i, hi⟩ := List.getElem?_of_mem hl
  refine ⟨i, ⟨l, hi, hal⟩, ?_⟩
  rintro j ⟨m, hj, ham⟩
  obtain ⟨-, hdisjoint⟩ := List.nodup_flatten.mp h
  by_contra hne
  obtain ⟨hilt, higet⟩ := List.getElem?_eq_some_iff.mp hi
  obtain ⟨hjlt, hjget⟩ := List.getElem?_eq_some_iff.mp hj
  rw [List.pairwise_iff_getElem] at hdisjoint
  rcases Nat.lt_or_gt_of_ne hne with hlt | hgt
  · have hapart := hdisjoint j i hjlt hilt hlt
    rw [higet, hjget] at hapart
    exact hapart ham hal
  · have hapart := hdisjoint i j hilt hjlt hgt
    rw [higet, hjget] at hapart
    exact hapart hal ham

end Steps

section Runs

/-- The buffer conserves its items in every run, and a writer passes each trace that was pushed
before the exit and not overwritten in exactly one array. -/
theorem agentWriter_run {T : Type*} {maxSize : Nat}
    (ops : List (AgentWriterBuffer.Op T maxSize)) {synchronousSend : Bool}
    {w : AgentWriter Trace} (h : (machine synchronousSend).Reachable w) :
    (∀ b history, AgentWriterBuffer.create.performAll {} ops = (b, history) →
      (history.popped.flatten ++ b.held ++ history.overwritten).Perm (history.pushed.map some) ∧
        (history.pushed.Nodup → history.popped.flatten.Nodup) ∧
        b.held.length ≤ maxSize ∧
        history.overwritten.length = history.rejected ∧
        ∀ items ∈ history.popped, none ∉ items) ∧
      (w.flushLoop = .returned → ∀ t ∈ w.beforeExit, some t ∉ w.history.overwritten →
        ∃! i : Nat, ∃ traces, w.sent[i]? = some traces ∧ some t ∈ traces) := by
  constructor
  · intro b history hops
    have hconserved : AgentWriterBuffer.Conserved b history := by
      have hperformed := (AgentWriterBuffer.conserved_create (T := T)).performAll ops
      rwa [hops] at hperformed
    refine ⟨hconserved.perm, ?_, ?_, hconserved.rejected, hconserved.popped_filled⟩
    · intro hpushed
      exact (List.nodup_append.mp (List.nodup_append.mp (hconserved.nodup hpushed)).1).1
    · rw [AgentWriterBuffer.held_length]
      exact b.count_le
  · intro hloop t ht hoverwritten
    obtain ⟨hmem, hnodup⟩ := (inv_reachable h).mem_sent hloop ht hoverwritten
    exact existsUnique_of_nodup_flatten hnodup hmem

/-- The send at the exit fails, and the loop returns behind one more flush. -/
theorem agentWriter_failingSend :
    ∃ w : AgentWriter Nat, (machine false).Reachable w ∧ w.flushLoop = .returned ∧
      w.beforeExit = [⟨0, 7⟩] ∧
      ∃! i : Nat, ∃ traces, w.sent[i]? = some traces ∧ some ⟨0, 7⟩ ∈ traces := by
  have h : (machine false).Reachable (_ : AgentWriter Nat) :=
    ⟨[.writeTrace 7 ⟨0, by decide⟩, .flushAndClose, .wake, .pop, .send, .complete false, .wake,
      .pop], rfl⟩
  refine ⟨_, h, rfl, rfl, ?_⟩
  exact (agentWriter_run ([] : List (AgentWriterBuffer.Op Nat 1)) h).2 rfl ⟨0, 7⟩
    (List.mem_singleton.mpr rfl) List.not_mem_nil

end Runs

end AgentWriter

end SignalFxTracing.Agent
