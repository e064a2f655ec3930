import SignalFxTracing.Scopes.Nesting
import SignalFxTracing.Trace.Tracer

/-!
# Active and the innermost open scope

The scope manager runs beside the nesting of the scopes that it was told of.
`Close` compares its argument with `Active` and restores the parent that was
captured at the activation, open or not, so the two agree as long as a scope
that is closed while innermost finds its enclosing scope open.
-/

namespace SignalFxTracing.Scopes

open Lib Trace

variable {S : Type*}

/-- The scope manager and the nesting of its scopes. -/
abbrev flow : Machine (Manager S × Nesting) (Operation S) :=
  Manager.machine.lockstep Nesting.machine

/-- Both number the scopes alike, parents are enclosing scopes and `Active` is innermost. -/
structure Agrees (s : Manager S × Nesting) : Prop where
  ordered : s.2.Ordered
  parents : s.1.scopes.map Scope.parent = s.2.enclosing
  active : s.1.active = s.2.innermost

theorem Agrees.length {s : Manager S × Nesting} (h : Agrees s) :
    s.1.scopes.length = s.2.enclosing.length := by
  rw [← h.parents, List.length_map]

theorem agrees_initial : Agrees (flow (S := S)).initial where
  ordered := Nesting.ordered_empty
  parents := rfl
  active := rfl

theorem Agrees.activate {s : Manager S × Nesting} (h : Agrees s) (span : S)
    (finishOnClose : Bool) : Agrees ((s.1.activate span finishOnClose).1, s.2.activate) where
  ordered := h.ordered.activate
  parents := by simp [Manager.activate, Nesting.activate, h.parents, h.active]
  active := congrArg some h.length

/-- One operation: the two agree afterwards when the nesting permits it, and `Active` is
innermost afterwards only then. -/
theorem Agrees.step {s t : Manager S × Nesting} {op : Operation S} (h : Agrees s)
    (hstep : flow.step s op = some t) :
    (t.1.active = t.2.innermost → s.2.ClosesInside op) ∧ (s.2.ClosesInside op → Agrees t) := by
  obtain ⟨m, n⟩ := s
  obtain ⟨m', n'⟩ := t
  obtain ⟨hm, hn⟩ := (Machine.lockstep_step_eq_some _).mp hstep
  dsimp only at hm hn ⊢
  cases op with
  | activate span finishOnClose =>
      obtain rfl : (m.activate span finishOnClose).1 = m' := Option.some.inj hm
      obtain rfl : n.activate = n' := Option.some.inj hn
      exact ⟨fun _ => trivial, fun _ => h.activate span finishOnClose⟩
  | close r =>
      obtain ⟨-, rfl⟩ := Nesting.machine_step_close_eq_some.mp hn
      by_cases hr : m.active = some r
      · obtain ⟨scope, hscope, rfl⟩ := Manager.machine_step_close_of_eq hr hm
        have hinnermost : n.innermost = some r := h.active.symm.trans hr
        have henclosing : n.enclosing[r]? = some scope.parent := by
          rw [← h.parents, List.getElem?_map, hscope]
          rfl
        constructor
        · intro hactive _ p hp
          have hparent : scope.parent = some p := Option.some.inj (henclosing.symm.trans hp)
          have hclosed : (n.close r).innermost = some p := hactive.symm.trans hparent
          exact List.mem_of_mem_erase (Nesting.innermost_isGreatest (h.ordered.close r) hclosed).1
        · intro hok
          refine ⟨h.ordered.close r, h.parents, ?_⟩
          refine (Nesting.innermost_close_of_eq h.ordered hinnermost henclosing ?_).symm
          intro p hp
          exact hok hinnermost p (hp ▸ henclosing)
      · obtain ⟨rfl, -⟩ := Manager.machine_step_close_of_ne hr hm
        have hne : n.innermost ≠ some r := fun hn => hr (h.active.trans hn)
        constructor
        · intro _ hinnermost
          exact absurd hinnermost hne
        · intro _
          refine ⟨h.ordered.close r, h.parents, ?_⟩
          exact h.active.trans (Nesting.innermost_close_of_ne hne).symm

section Children

variable (contextOf : S → SpanContext)

/-- `Active?.Span?.Context`. -/
def Manager.activeContext (m : Manager S) : Option ISpanContext :=
  m.activeSpan.map fun span => .inr (contextOf span)

/-- A span that a tracer starts without an explicit parent is a root or the child of the span
of an open scope. -/
def ChildrenOfOpen (s : Manager S × Nesting) : Prop :=
  ∀ (tracer : Tracer) serviceName spanId draws traces p,
    (tracer.createSpanContext (s.1.activeContext contextOf) none serviceName false spanId draws
      traces).2.1.parent = some p →
    ∃ r ∈ s.2.opens, ∃ span, s.1.spanOf r = some span ∧ p = .inr (contextOf span)

theorem Agrees.childrenOfOpen {s : Manager S × Nesting} (h : Agrees s) :
    ChildrenOfOpen contextOf s := by
  intro tracer serviceName spanId draws traces p hp
  have hactive : s.1.activeContext contextOf = some p := hp
  obtain ⟨span, hspan, rfl⟩ := Option.map_eq_some_iff.mp hactive
  obtain ⟨r, hr, hspan⟩ := Option.bind_eq_some_iff.mp hspan
  have hopen := (Nesting.innermost_isGreatest h.ordered (h.active.symm.trans hr)).1
  exact ⟨r, hopen, span, hspan, rfl⟩

end Children

section WellNested

/-- Only the top of the stack of open scopes is closed. -/
def Nesting.ClosesTop (n : Nesting) : Operation S → Prop
  | .activate _ _ => True
  | .close r => n.innermost = some r

theorem Nesting.close_top {n : Nesting} {r : ScopeRef} (h : n.innermost = some r) :
    (n.close r).opens = n.opens.tail := by
  obtain ⟨rest, hopens⟩ := List.head?_eq_some_iff.mp h
  simp [Nesting.close, hopens]

/-- Every scope of the stack is enclosed by the one below it. -/
def Stacked (enclosing : List (Option ScopeRef)) : List ScopeRef → Prop
  | [] => True
  | r :: below => enclosing[r]? = some below.head? ∧ Stacked enclosing below

theorem Stacked.append {enclosing : List (Option ScopeRef)} {rs : List ScopeRef}
    (h : Stacked enclosing rs) (e : Option ScopeRef) : Stacked (enclosing ++ [e]) rs := by
  induction rs with
  | nil => trivial
  | cons r below ih =>
      exact ⟨ListUpdate.getElem?_concat_eq_some.mpr (Or.inl h.1), ih h.2⟩

theorem Stacked.activate {n : Nesting} (h : Stacked n.enclosing n.opens) :
    Stacked n.activate.enclosing n.activate.opens :=
  ⟨ListUpdate.getElem?_concat_eq_some.mpr (Or.inr ⟨rfl, rfl⟩), h.append n.innermost⟩

theorem Stacked.close {n : Nesting} {r : ScopeRef} (h : Stacked n.enclosing n.opens)
    (hr : n.innermost = some r) : Stacked (n.close r).enclosing (n.close r).opens := by
  rw [Nesting.close_top hr]
  obtain ⟨rest, hopens⟩ := List.head?_eq_some_iff.mp hr
  rw [hopens] at h ⊢
  exact h.2

theorem Stacked.closesInside {n : Nesting} {op : Operation S} (h : Stacked n.enclosing n.opens)
    (htop : n.ClosesTop op) : n.ClosesInside op := by
  cases op with
  | activate span finishOnClose => trivial
  | close r =>
      intro _ p hp
      obtain ⟨rest, hopens⟩ := List.head?_eq_some_iff.mp htop
      rw [hopens] at h ⊢
      have hhead : rest.head? = some p := Option.some.inj (h.1.symm.trans hp)
      exact List.mem_cons_of_mem r (List.mem_of_mem_head? hhead)

/-- A well-nested step keeps the agreement and the stack. -/
theorem Agrees.step_of_closesTop {s t : Manager S × Nesting} {op : Operation S}
    (h : Agrees s ∧ Stacked s.2.enclosing s.2.opens) (htop : s.2.ClosesTop op)
    (hstep : flow.step s op = some t) : Agrees t ∧ Stacked t.2.enclosing t.2.opens := by
  refine ⟨(h.1.step hstep).2 (h.2.closesInside htop), ?_⟩
  obtain ⟨-, hn⟩ := (Machine.lockstep_step_eq_some _).mp hstep
  cases op with
  | activate span finishOnClose =>
      rw [← Option.some.inj hn]
      exact h.2.activate
  | close r =>
      rw [← (Nesting.machine_step_close_eq_some.mp hn).2]
      exact h.2.close htop

end WellNested

/-- Along every sequence of activations and closes, `Active` is the innermost open scope and
spans started from it are children of open scopes, exactly when each scope closed while
innermost finds its enclosing scope open; in particular, `Active` is the top of the stack of
open scopes while only that top is closed. -/
theorem active_innermost_iff (contextOf : S → SpanContext) (es : List (Operation S)) :
    (flow.Always flow.initial es
        (fun s => s.1.active = s.2.innermost ∧ ChildrenOfOpen contextOf s) ↔
      flow.Throughout flow.initial es fun s op => s.2.ClosesInside op) ∧
    (flow.Throughout flow.initial es (fun s op => s.2.ClosesTop op) →
      flow.Always flow.initial es fun s => s.1.active = s.2.opens.head?) := by
  constructor
  · refine flow.always_iff_throughout (fun s h => ⟨h.active, h.childrenOfOpen contextOf⟩) ?_
      agrees_initial es
    intro s op t h hstep
    obtain ⟨honly, hkeep⟩ := h.step hstep
    exact ⟨fun hactive => honly hactive.1, hkeep⟩
  · intro htop before after s hes hr
    have h := htop.always (fun s op t h htop hstep => Agrees.step_of_closesTop h htop hstep)
      ⟨agrees_initial, trivial⟩
    exact (h before after s hes hr).1.active

/-- Two scopes, the outer one closed before the inner one: `Active` is the closed outer scope. -/
theorem active_not_innermost :
    (flow.run flow.initial [.activate () true, .activate () true, .close 0, .close 1]).map
        (fun s => (s.1.active, s.2.opens)) = some (some 0, []) ∧
    ¬ ∀ (contextOf : Unit → SpanContext) (es : List (Operation Unit)),
      flow.Always flow.initial es fun s =>
        s.1.active = s.2.innermost ∧ ChildrenOfOpen contextOf s := by
  refine ⟨rfl, ?_⟩
  intro h
  have hactive := (h (fun _ => SpanContext.create ⟨1, 2, 3, 4⟩ none none)
    [.activate () true, .activate () true, .close 0, .close 1] _ [] _
    (List.append_nil _).symm rfl).1
  cases hactive

end SignalFxTracing.Scopes
