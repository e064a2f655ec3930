import SignalFxTracing.Lib.Machine

/-!
# The scope manager (`ScopeManagerBase.cs`, `Scope.cs`)

The scopes of one execution flow are objects in the order of their activation.
Each keeps the scope that was active when it was activated as its parent.

## Implementation notes

`Scope.Dispose` is `Scope.Close` that lets no exception out. Handlers of the
events read nothing of the manager, so the events of an operation are the list
of its notices, in the order in which they are raised.
-/

namespace SignalFxTracing.Scopes

open Lib

/-- Reference to a `Scope` object: how many scopes were activated before it. -/
abbrev ScopeRef := Nat

structure Scope (S : Type*) where
  parent : Option ScopeRef
  span : S
  finishOnClose : Bool

/-- What the events of the manager announce, with the span of their arguments. -/
inductive Notice (S : Type*)
  | spanOpened (span : S)
  | spanActivated (span : S)
  | spanDeactivated (span : S)
  | spanClosed (span : S)
  | traceEnded (span : S)

structure Manager (S : Type*) where
  scopes : List (Scope S)
  active : Option ScopeRef

inductive Operation (S : Type*)
  | activate (span : S) (finishOnClose : Bool)
  | close (scope : ScopeRef)

namespace Manager

variable {S : Type*}

/-- No scope has been activated. -/
def empty : Manager S := ⟨[], none⟩

/-- The span of a scope. -/
def spanOf (m : Manager S) (r : ScopeRef) : Option S := m.scopes[r]?.map Scope.span

/-- `Active?.Span`. -/
def activeSpan (m : Manager S) : Option S := m.active.bind m.spanOf

/-- `Activate`. -/
def activate (m : Manager S) (span : S) (finishOnClose : Bool) : Manager S × List (Notice S) :=
  let newParent := m.active
  ({ scopes := m.scopes ++ [⟨newParent, span, finishOnClose⟩], active := some m.scopes.length },
    [.spanOpened span] ++ (newParent.bind m.spanOf).toList.map .spanDeactivated ++
      [.spanActivated span])

/-- `Close` of a scope of the flow. -/
def close (m : Manager S) (r : ScopeRef) : Option (Manager S × List (Notice S)) :=
  m.scopes[r]?.map fun scope =>
    if m.active ≠ some r then (m, [.spanClosed scope.span])
    else
      ({ m with active := scope.parent },
        [.spanDeactivated scope.span] ++
          (scope.parent.bind m.spanOf).toList.map .spanActivated ++
          [.spanClosed scope.span] ++
          if scope.parent.isNone then [.traceEnded scope.span] else [])

/-- One operation with the events that it raises. -/
def perform (m : Manager S) : Operation S → Option (Manager S × List (Notice S))
  | .activate span finishOnClose => some (m.activate span finishOnClose)
  | .close r => m.close r

/-- The scope manager of one flow. -/
def machine : Machine (Manager S) (Operation S) where
  initial := empty
  step m op := (m.perform op).map Prod.fst

@[simp] theorem machine_initial : (machine (S := S)).initial = empty := rfl

@[simp] theorem machine_step_activate (m : Manager S) (span : S) (finishOnClose : Bool) :
    machine.step m (.activate span finishOnClose) = some (m.activate span finishOnClose).1 := rfl

/-- A scope that is not the active one is left alone, with all the others. -/
theorem machine_step_close_of_ne {m m' : Manager S} {r : ScopeRef} (hne : m.active ≠ some r)
    (h : machine.step m (.close r) = some m') : m' = m ∧ r < m.scopes.length := by
  obtain ⟨⟨after, notices⟩, hclose, rfl⟩ := Option.map_eq_some_iff.mp h
  obtain ⟨scope, hscope, hafter⟩ := Option.map_eq_some_iff.mp hclose
  rw [if_pos hne] at hafter
  exact ⟨(congrArg Prod.fst hafter).symm, (List.getElem?_eq_some_iff.mp hscope).1⟩

/-- The active scope hands over to its parent. -/
theorem machine_step_close_of_eq {m m' : Manager S} {r : ScopeRef} (heq : m.active = some r)
    (h : machine.step m (.close r) = some m') :
    ∃ scope, m.scopes[r]? = some scope ∧ m' = { m with active := scope.parent } := by
  obtain ⟨⟨after, notices⟩, hclose, rfl⟩ := Option.map_eq_some_iff.mp h
  obtain ⟨scope, hscope, hafter⟩ := Option.map_eq_some_iff.mp hclose
  rw [if_neg (not_not_intro heq)] at hafter
  exact ⟨scope, hscope, (congrArg Prod.fst hafter).symm⟩

/-- Closing changes no scope, only which one is active. -/
theorem close_scopes {m m' : Manager S} {r : ScopeRef} {notices : List (Notice S)}
    (h : m.close r = some (m', notices)) : m'.scopes = m.scopes := by
  obtain ⟨scope, -, hclose⟩ := Option.map_eq_some_iff.mp h
  split at hclose
  · rw [(Prod.mk.inj hclose).1]
  · rw [← (Prod.mk.inj hclose).1]

/-- The active scope, when it is closed, hands over to its parent. -/
theorem close_of_active {m : Manager S} {r : ScopeRef} {scope : Scope S}
    (hactive : m.active = some r) (hscope : m.scopes[r]? = some scope) :
    ∃ notices, m.close r = some ({ m with active := scope.parent }, notices) := by
  rw [close, hscope, Option.map_some, if_neg (not_not_intro hactive)]
  exact ⟨_, rfl⟩

end Manager

/-- The manager of a flow, with the scopes whose spans were finished by closing them. -/
structure ExecutionFlow (S : Type*) where
  manager : Manager S
  finished : List ScopeRef

namespace ExecutionFlow

variable {S : Type*}

/-- `StartActive` with the span that it starts. -/
def startActive (s : ExecutionFlow S) (span : S) : ScopeRef × ExecutionFlow S :=
  (s.manager.scopes.length, { s with manager := (s.manager.activate span true).1 })

/-- `scope?.Dispose()`. -/
def dispose (s : ExecutionFlow S) : Option ScopeRef → ExecutionFlow S
  | none => s
  | some r =>
      match s.manager.close r with
      | none => s
      | some (manager, _) =>
          { manager
            finished :=
              if s.manager.scopes[r]?.any Scope.finishOnClose then r :: s.finished
              else s.finished }

@[simp] theorem dispose_none (s : ExecutionFlow S) : s.dispose none = s := rfl

@[simp] theorem startActive_scopes (s : ExecutionFlow S) (span : S) :
    (s.startActive span).2.manager.scopes =
      s.manager.scopes ++ [⟨s.manager.active, span, true⟩] := rfl

@[simp] theorem startActive_active (s : ExecutionFlow S) (span : S) :
    (s.startActive span).2.manager.active = some s.manager.scopes.length := rfl

@[simp] theorem startActive_finished (s : ExecutionFlow S) (span : S) :
    (s.startActive span).2.finished = s.finished := rfl

@[simp] theorem dispose_scopes (s : ExecutionFlow S) (r : Option ScopeRef) :
    (s.dispose r).manager.scopes = s.manager.scopes := by
  cases r with
  | none => rfl
  | some r =>
      rw [dispose]
      split
      · rfl
      · next h => exact Manager.close_scopes h

theorem finished_subset_dispose (s : ExecutionFlow S) (r : Option ScopeRef) :
    s.finished ⊆ (s.dispose r).finished := by
  cases r with
  | none => exact List.Subset.refl _
  | some r =>
      rw [dispose]
      split
      · exact List.Subset.refl _
      · dsimp only
        split
        · exact List.subset_cons_self r s.finished
        · exact List.Subset.refl _

/-- Disposing the active scope finishes its span and activates its parent. -/
theorem dispose_of_active {s : ExecutionFlow S} {r : ScopeRef} {scope : Scope S}
    (hactive : s.manager.active = some r) (hscope : s.manager.scopes[r]? = some scope)
    (hfinish : scope.finishOnClose = true) :
    (s.dispose (some r)).manager.active = scope.parent ∧ r ∈ (s.dispose (some r)).finished := by
  obtain ⟨notices, hclose⟩ := Manager.close_of_active hactive hscope
  simp [dispose, hclose, hscope, hfinish]

end ExecutionFlow

end SignalFxTracing.Scopes
