import SignalFxTracing.Scopes.ActiveScope
import SignalFxTracing.Trace.Span

/-!
# Log correlation on a stack (`LibLogScopeEventSubscriber.cs`)

In its stack-based mode the subscriber opens four mapped contexts when a span
is opened and disposes the last four when a span is closed. The disposal stack
does not know which scope pushed an entry, and the manager raises `SpanClosed`
at every close, so the stack follows the open scopes exactly as long as every
close closes the innermost one.

## Implementation notes

A mapped context is told apart by the opening that pushed it, as the
disposable object in the source is by its identity. A span stands in an
activation as it is when `SpanOpened` is raised, the only moment at which the
subscriber reads it. `opensContext` tells whether a call of
`OpenMappedContext` raises no exception; `Dispose` of a context raises none.
-/

namespace SignalFxTracing.Scopes

open Lib Clr Trace

namespace CorrelationIdentifier

def traceIdKey : Text := text "trace_id"

def spanIdKey : Text := text "span_id"

def serviceNameKey : Text := text "service.name"

def serviceEnvironmentKey : Text := text "deployment.environment"

end CorrelationIdentifier

structure LogCorrelationFields where
  traceId : TraceId
  spanId : UInt64
  service : Option Text
  environment : Text

/-- `new LogCorrelationFields(span)`. -/
def LogCorrelationFields.ofSpan (span : Span) : LogCorrelationFields where
  traceId := span.context.traceId
  spanId := span.context.spanId
  service := span.context.serviceName
  environment := (span.getTag Tags.environment).getD []

/-- A context opened in the logging framework by the opening with the given number. -/
structure MappedContext where
  opening : Nat
  key : Text
  value : Option Text

/-- The contexts of one opening, in the order in which they are opened. -/
def LogCorrelationFields.contexts (fields : LogCorrelationFields) (opening : Nat) :
    List MappedContext :=
  [⟨opening, CorrelationIdentifier.traceIdKey, fields.traceId.toString⟩,
    ⟨opening, CorrelationIdentifier.spanIdKey, some (toX16 fields.spanId)⟩,
    ⟨opening, CorrelationIdentifier.serviceNameKey, fields.service⟩,
    ⟨opening, CorrelationIdentifier.serviceEnvironmentKey, some fields.environment⟩]

structure LibLogScopeEventSubscriber where
  contextDisposalStack : List MappedContext
  safeToAddToMdc : Bool
  /-- How many spans were opened and how many pops found the stack empty. -/
  openings : Nat
  failedPops : Nat

namespace LibLogScopeEventSubscriber

/-- The subscriber when it is attached. -/
def initial : LibLogScopeEventSubscriber := ⟨[], true, 0, 0⟩

section

variable (opensContext : MappedContext → Bool)

/-- Open the contexts one after the other; an exception disposes the whole stack. -/
def pushAll : List MappedContext → LibLogScopeEventSubscriber → LibLogScopeEventSubscriber
  | [], s => s
  | context :: rest, s =>
      if opensContext context then
        pushAll rest { s with contextDisposalStack := context :: s.contextDisposalStack }
      else { s with contextDisposalStack := [], safeToAddToMdc := false }

/-- `SetCorrelationIdentifierContext`. -/
def setCorrelationIdentifierContext (fields : LogCorrelationFields)
    (s : LibLogScopeEventSubscriber) : LibLogScopeEventSubscriber :=
  if s.safeToAddToMdc then pushAll opensContext (fields.contexts s.openings) s else s

/-- `TryPop` and `Dispose` of the popped context. -/
def tryPop (s : LibLogScopeEventSubscriber) : LibLogScopeEventSubscriber :=
  match s.contextDisposalStack with
  | [] => { s with failedPops := s.failedPops + 1 }
  | _ :: rest => { s with contextDisposalStack := rest }

/-- `RemoveLastCorrelationIdentifierContext`. -/
def removeLastCorrelationIdentifierContext (s : LibLogScopeEventSubscriber) :
    LibLogScopeEventSubscriber :=
  tryPop^[4] s

/-- The handlers of the stack-based mode. -/
def handle (s : LibLogScopeEventSubscriber) : Notice Span → LibLogScopeEventSubscriber
  | .spanOpened span =>
      let s := setCorrelationIdentifierContext opensContext (.ofSpan span) s
      { s with openings := s.openings + 1 }
  | .spanClosed _ => removeLastCorrelationIdentifierContext s
  | _ => s

end

theorem pushAll_of_opens {opensContext : MappedContext → Bool}
    (h : ∀ context, opensContext context = true) (contexts : List MappedContext)
    (s : LibLogScopeEventSubscriber) :
    pushAll opensContext contexts s =
      { s with contextDisposalStack := contexts.reverse ++ s.contextDisposalStack } := by
  induction contexts generalizing s with
  | nil => rfl
  | cons context rest ih =>
      rw [pushAll, if_pos (h context), ih]
      simp

/-- While contexts open without error, a span that is opened pushes its four. -/
theorem handle_spanOpened {opensContext : MappedContext → Bool}
    (h : ∀ context, opensContext context = true) {s : LibLogScopeEventSubscriber}
    (hsafe : s.safeToAddToMdc = true) (span : Span) :
    handle opensContext s (.spanOpened span) =
      { s with
        contextDisposalStack :=
          ((LogCorrelationFields.ofSpan span).contexts s.openings).reverse ++
            s.contextDisposalStack
        openings := s.openings + 1 } := by
  simp only [handle, setCorrelationIdentifierContext, hsafe, if_true, pushAll_of_opens h]

/-- Four contexts on top are the four that are popped. -/
theorem removeLast_of_length {s : LibLogScopeEventSubscriber} {group below : List MappedContext}
    (hs : s.contextDisposalStack = group ++ below) (hlen : group.length = 4) :
    removeLastCorrelationIdentifierContext s = { s with contextDisposalStack := below } := by
  obtain ⟨a, b, c, d, rfl⟩ : ∃ a b c d, group = [a, b, c, d] := by
    match group, hlen with
    | [a, b, c, d], _ => exact ⟨a, b, c, d, rfl⟩
  simp [removeLastCorrelationIdentifierContext, tryPop, hs]

/-- Popping an empty stack fails four times. -/
theorem removeLast_of_nil {s : LibLogScopeEventSubscriber} (hs : s.contextDisposalStack = []) :
    (removeLastCorrelationIdentifierContext s).failedPops = s.failedPops + 4 := by
  simp [removeLastCorrelationIdentifierContext, tryPop, hs]

section

variable (opensContext : MappedContext → Bool)

theorem foldl_handle_activate (m : Manager Span) (span : Span) (finishOnClose : Bool)
    (s : LibLogScopeEventSubscriber) :
    (m.activate span finishOnClose).2.foldl (handle opensContext) s =
      handle opensContext s (.spanOpened span) := by
  cases h : m.active.bind m.spanOf <;> simp [Manager.activate, h, handle]

/-- Every close, of whichever scope, pops once. -/
theorem foldl_handle_close {m m' : Manager Span} {r : ScopeRef} {notices : List (Notice Span)}
    (h : m.close r = some (m', notices)) (s : LibLogScopeEventSubscriber) :
    notices.foldl (handle opensContext) s = removeLastCorrelationIdentifierContext s := by
  obtain ⟨scope, -, hclose⟩ := Option.map_eq_some_iff.mp h
  split at hclose
  · obtain ⟨-, rfl⟩ := Prod.mk.inj hclose
    rfl
  · obtain ⟨-, rfl⟩ := Prod.mk.inj hclose
    cases scope.parent with
    | none => rfl
    | some p => cases hp : m.spanOf p <;> simp [hp, handle]

end

end LibLogScopeEventSubscriber

open LibLogScopeEventSubscriber

section Correlated

variable (opensContext : MappedContext → Bool)

/-- The scope manager with the subscriber attached to it. -/
def correlated : Machine (Manager Span × LibLogScopeEventSubscriber) (Operation Span) where
  initial := (.empty, .initial)
  step s op := (s.1.perform op).map fun (m, notices) => (m, notices.foldl (handle opensContext) s.2)

/-- The manager and its subscriber beside the nesting of the scopes. -/
abbrev correlatedFlow :
    Machine ((Manager Span × LibLogScopeEventSubscriber) × Nesting) (Operation Span) :=
  (correlated opensContext).lockstep Nesting.machine

end Correlated

/-- The contexts of a scope on the stack: the last one opened comes first. -/
def contextsOf (m : Manager Span) (r : ScopeRef) : List MappedContext :=
  (m.spanOf r).elim [] fun span => ((LogCorrelationFields.ofSpan span).contexts r).reverse

/-- The stack holds the four contexts of every open scope and nothing else, the innermost
scope's on top, and no pop has failed. -/
structure MatchesOpenScopes (s : (Manager Span × LibLogScopeEventSubscriber) × Nesting) :
    Prop where
  contexts : s.1.2.contextDisposalStack = s.2.opens.flatMap (contextsOf s.1.1)
  count : s.1.2.contextDisposalStack.length = 4 * s.2.opens.length
  top : ∀ r, s.2.innermost = some r → ∃ span, s.1.1.spanOf r = some span ∧
    s.1.2.contextDisposalStack.take 4 = ((LogCorrelationFields.ofSpan span).contexts r).reverse
  failedPops : s.1.2.failedPops = 0

/-- What makes the stack match after every close of the innermost scope. -/
structure Correlates (s : (Manager Span × LibLogScopeEventSubscriber) × Nesting) : Prop where
  ordered : s.2.Ordered
  length : s.1.1.scopes.length = s.2.enclosing.length
  openings : s.1.2.openings = s.2.enclosing.length
  safe : s.1.2.safeToAddToMdc = true
  contexts : s.1.2.contextDisposalStack = s.2.opens.flatMap (contextsOf s.1.1)
  failedPops : s.1.2.failedPops = 0

namespace Correlates

variable {s t : (Manager Span × LibLogScopeEventSubscriber) × Nesting}

/-- An open scope has a span. -/
theorem exists_span (h : Correlates s) {r : ScopeRef} (hr : r ∈ s.2.opens) :
    ∃ span, s.1.1.spanOf r = some span ∧
      contextsOf s.1.1 r = ((LogCorrelationFields.ofSpan span).contexts r).reverse := by
  have hlt : r < s.1.1.scopes.length := h.length ▸ h.ordered.bound r hr
  have hspan : s.1.1.spanOf r = some s.1.1.scopes[r].span := by
    simp [Manager.spanOf, List.getElem?_eq_getElem hlt]
  exact ⟨_, hspan, by rw [contextsOf, hspan]; rfl⟩

theorem length_contextsOf (h : Correlates s) {r : ScopeRef} (hr : r ∈ s.2.opens) :
    (contextsOf s.1.1 r).length = 4 := by
  obtain ⟨span, -, hcontexts⟩ := h.exists_span hr
  rw [hcontexts]
  rfl

theorem opening_of_mem (m : Manager Span) {r : ScopeRef} {context : MappedContext}
    (h : context ∈ contextsOf m r) : context.opening = r := by
  unfold contextsOf at h
  cases hspan : m.spanOf r with
  | none => simp [hspan] at h
  | some span =>
      simp only [hspan, Option.elim_some, List.mem_reverse, LogCorrelationFields.contexts,
        List.mem_cons, List.not_mem_nil, or_false] at h
      rcases h with rfl | rfl | rfl | rfl
      all_goals rfl

theorem matchesOpenScopes (h : Correlates s) : MatchesOpenScopes s where
  contexts := h.contexts
  count := by
    rw [h.contexts, List.length_flatMap,
      List.map_congr_left fun r hr => h.length_contextsOf hr]
    simp [Nat.mul_comm]
  top := by
    intro r hr
    obtain ⟨rest, hopens⟩ := List.head?_eq_some_iff.mp hr
    have hmem : r ∈ s.2.opens := hopens ▸ List.mem_cons_self
    obtain ⟨span, hspan, hcontexts⟩ := h.exists_span hmem
    refine ⟨span, hspan, ?_⟩
    rw [h.contexts, hopens, List.flatMap_cons, List.take_append_of_le_length
      (Nat.le_of_eq (h.length_contextsOf hmem).symm), List.take_of_length_le
      (Nat.le_of_eq (h.length_contextsOf hmem)), hcontexts]
  failedPops := h.failedPops

theorem contextsOf_congr {m m' : Manager Span} (h : m'.scopes = m.scopes) :
    contextsOf m' = contextsOf m := by
  funext r
  rw [contextsOf, contextsOf, Manager.spanOf, Manager.spanOf, h]

theorem contextsOf_activate_of_lt (m : Manager Span) (span : Span) (finishOnClose : Bool)
    {r : ScopeRef} (hr : r < m.scopes.length) :
    contextsOf (m.activate span finishOnClose).1 r = contextsOf m r := by
  simp [contextsOf, Manager.spanOf, Manager.activate, List.getElem?_append_left hr]

theorem contextsOf_activate_self (m : Manager Span) (span : Span) (finishOnClose : Bool) :
    contextsOf (m.activate span finishOnClose).1 m.scopes.length =
      ((LogCorrelationFields.ofSpan span).contexts m.scopes.length).reverse := by
  simp [contextsOf, Manager.spanOf, Manager.activate]

/-- An activation pushes the contexts of the new innermost scope. -/
theorem activate {opensContext : MappedContext → Bool}
    (hopens : ∀ context, opensContext context = true)
    {m : Manager Span} {sub : LibLogScopeEventSubscriber} {n : Nesting}
    (h : Correlates ((m, sub), n)) (span : Span) (finishOnClose : Bool) :
    Correlates (((m.activate span finishOnClose).1,
      handle opensContext sub (.spanOpened span)), n.activate) := by
  obtain ⟨hordered, hlength, hopenings, hsafe, hstack, hfailed⟩ := h
  dsimp only at hordered hlength hopenings hsafe hstack hfailed
  rw [handle_spanOpened hopens hsafe, hopenings, hstack]
  refine ⟨hordered.activate, ?_, ?_, hsafe, ?_, hfailed⟩
  · simp [Manager.activate, Nesting.activate, hlength]
  · simp [Nesting.activate]
  · have hold : n.opens.flatMap (contextsOf (m.activate span finishOnClose).1) =
        n.opens.flatMap (contextsOf m) :=
      List.flatMap_congr fun r hr =>
        contextsOf_activate_of_lt m span finishOnClose (hlength ▸ hordered.bound r hr)
    have hnew := contextsOf_activate_self m span finishOnClose
    rw [hlength] at hnew
    simp only [Nesting.activate, List.flatMap_cons, hold, hnew]

/-- The stack after one close, in terms of the open scopes before it. -/
theorem removeLast {m : Manager Span} {sub : LibLogScopeEventSubscriber} {n : Nesting}
    (h : Correlates ((m, sub), n)) :
    (n.opens = [] ∧ (removeLastCorrelationIdentifierContext sub).failedPops ≠ 0) ∨
    ∃ r rest, n.opens = r :: rest ∧ removeLastCorrelationIdentifierContext sub =
      { sub with contextDisposalStack := rest.flatMap (contextsOf m) } := by
  have hstack : sub.contextDisposalStack = n.opens.flatMap (contextsOf m) := h.contexts
  cases hopens : n.opens with
  | nil =>
      refine Or.inl ⟨rfl, ?_⟩
      rw [removeLast_of_nil (by rw [hstack, hopens]; rfl)]
      exact Nat.succ_ne_zero _
  | cons r rest =>
      refine Or.inr ⟨r, rest, rfl, ?_⟩
      apply removeLast_of_length (by rw [hstack, hopens]; rfl)
      exact h.length_contextsOf (r := r) (by simp [hopens])

/-- A scope whose contexts are on the stack can be read off it. -/
theorem mem_of_flatMap_eq (h : Correlates s) {r : ScopeRef} {rs rs' : List ScopeRef}
    (hr : r ∈ rs) (hopen : r ∈ s.2.opens)
    (heq : rs'.flatMap (contextsOf s.1.1) = rs.flatMap (contextsOf s.1.1)) : r ∈ rs' := by
  obtain ⟨context, hcontext⟩ : ∃ context, context ∈ contextsOf s.1.1 r := by
    apply List.exists_mem_of_length_pos
    rw [h.length_contextsOf hopen]
    exact Nat.succ_pos 3
  have hstack : context ∈ rs'.flatMap (contextsOf s.1.1) :=
    heq ▸ List.mem_flatMap.mpr ⟨r, hr, hcontext⟩
  obtain ⟨r', hr', hcontext'⟩ := List.mem_flatMap.mp hstack
  rwa [← opening_of_mem _ hcontext, opening_of_mem _ hcontext']

/-- One operation: the stack matches afterwards exactly when the innermost scope is closed. -/
theorem step {opensContext : MappedContext → Bool}
    (hopens : ∀ context, opensContext context = true) {op : Operation Span} (h : Correlates s)
    (hstep : (correlatedFlow opensContext).step s op = some t) :
    (MatchesOpenScopes t → s.2.ClosesTop op) ∧ (s.2.ClosesTop op → Correlates t) := by
  obtain ⟨⟨m, sub⟩, n⟩ := s
  obtain ⟨⟨m', sub'⟩, n'⟩ := t
  obtain ⟨hm, hn⟩ := (Machine.lockstep_step_eq_some _).mp hstep
  obtain ⟨⟨after, notices⟩, hperform, hafter⟩ := Option.map_eq_some_iff.mp hm
  dsimp only at hn hperform hafter ⊢
  obtain ⟨rfl, hsub⟩ := Prod.mk.inj hafter
  cases op with
  | activate span finishOnClose =>
      obtain rfl : n.activate = n' := Option.some.inj hn
      have hactivate : m.activate span finishOnClose = (after, notices) := Option.some.inj hperform
      obtain rfl : (m.activate span finishOnClose).1 = after := congrArg Prod.fst hactivate
      obtain rfl : (m.activate span finishOnClose).2 = notices := congrArg Prod.snd hactivate
      rw [foldl_handle_activate] at hsub
      subst hsub
      exact ⟨fun _ => trivial, fun _ => h.activate hopens span finishOnClose⟩
  | close r =>
      obtain ⟨-, rfl⟩ := Nesting.machine_step_close_eq_some.mp hn
      rw [foldl_handle_close opensContext hperform] at hsub
      subst hsub
      have hcontexts := contextsOf_congr (Manager.close_scopes hperform)
      have hlength : after.scopes.length = n.enclosing.length :=
        (congrArg List.length (Manager.close_scopes hperform)).trans h.length
      rcases h.removeLast with ⟨hnil, hfailed⟩ | ⟨a, rest, hcons, hremove⟩
      · constructor
        · intro hmatches
          exact absurd hmatches.failedPops hfailed
        · intro htop
          rw [Nesting.ClosesTop, Nesting.innermost, hnil] at htop
          cases htop
      · rw [hremove]
        constructor
        · intro hmatches
          have hstack : rest.flatMap (contextsOf m) = (n.opens.erase r).flatMap (contextsOf m) :=
            hmatches.contexts.trans (by rw [hcontexts]; rfl)
          rw [Nesting.ClosesTop, Nesting.innermost, hcons, List.head?_cons, Option.some_inj]
          by_contra hne
          have hmem : a ∈ n.opens.erase r :=
            (List.mem_erase_of_ne hne).mpr (hcons ▸ List.mem_cons_self)
          have hopen : a ∈ rest := h.mem_of_flatMap_eq hmem (List.mem_of_mem_erase hmem) hstack
          have hsorted := List.pairwise_cons.mp (hcons ▸ h.ordered.sorted)
          exact absurd (hsorted.1 a hopen) (Nat.lt_irrefl a)
        · intro htop
          have hrest : (n.close r).opens = rest := by
            rw [Nesting.close_top htop, hcons, List.tail_cons]
          exact ⟨h.ordered.close r, hlength, h.openings, h.safe, by rw [hrest, hcontexts],
            h.failedPops⟩

end Correlates

theorem correlates_initial (opensContext : MappedContext → Bool) :
    Correlates (correlatedFlow opensContext).initial where
  ordered := Nesting.ordered_empty
  length := rfl
  openings := rfl
  safe := rfl
  contexts := rfl
  failedPops := rfl

/-- Along every sequence of activations and closes the stack holds the four contexts of each
open scope and nothing else, exactly when every close closes the innermost open scope. -/
theorem contextStack_matches_iff {opensContext : MappedContext → Bool}
    (hopens : ∀ context, opensContext context = true) (es : List (Operation Span)) :
    (correlatedFlow opensContext).Always (correlatedFlow opensContext).initial es
        MatchesOpenScopes ↔
      (correlatedFlow opensContext).Throughout (correlatedFlow opensContext).initial es
        fun s op => s.2.ClosesTop op := by
  refine Machine.always_iff_throughout _ (fun s (h : Correlates s) => h.matchesOpenScopes) ?_
    (correlates_initial opensContext) es
  intro s op t h hstep
  exact h.step hopens hstep

section Examples

def exampleSpan (spanId : UInt64) : Span :=
  Span.create (SpanContext.create ⟨1, 2, spanId, 4⟩ none (some (text "shop"))) none 0

/-- A scope that is opened, closed and disposed inside another one. -/
def disposedTwice : List (Operation Span) :=
  [.activate (exampleSpan 5) true, .activate (exampleSpan 6) true, .close 1, .close 1]

/-- The second disposal takes the contexts of the outer scope, which is still open. -/
theorem contextStack_disposed_twice :
    ((correlatedFlow fun _ => true).run (correlatedFlow fun _ => true).initial
        disposedTwice).map (fun s => (s.1.2.contextDisposalStack.length, s.2.opens)) =
      some (0, [0]) ∧
    ¬ (correlatedFlow fun _ => true).Always (correlatedFlow fun _ => true).initial disposedTwice
      MatchesOpenScopes := by
  refine ⟨rfl, ?_⟩
  intro h
  have hcount := (h disposedTwice [] _ (List.append_nil _).symm rfl).count
  cases hcount

theorem contextStack_matches_disposedTwice :
    (correlatedFlow fun _ => true).Always (correlatedFlow fun _ => true).initial disposedTwice
        MatchesOpenScopes ↔
      (correlatedFlow fun _ => true).Throughout (correlatedFlow fun _ => true).initial
        disposedTwice fun s op => s.2.ClosesTop op :=
  contextStack_matches_iff (fun _ => rfl) disposedTwice

end Examples

end SignalFxTracing.Scopes
