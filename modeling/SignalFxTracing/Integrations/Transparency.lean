import SignalFxTracing.Integrations.Scopes

/-!
# Transparent wrappers

A wrapper is transparent when the original method, once its delegate has been
resolved, is invoked once with the caller's arguments and its outcome is the
outcome of the wrapper, and when the active scope is the one of the entry.

The rules follow the shape the wrappers share: a scope is opened, steps run
inside it and the scope is disposed. Steps that are `Quiet` cannot unbalance
the scopes, so only exceptions before the call of the original matter.
-/

namespace SignalFxTracing.Integrations

open Clr Lib Lib.Guarded Trace Propagation

variable {A R : Type} (setting : Setting)

/-- What a call of a wrapper from the world `w` must look like. -/
structure Transparent (args : A) (original : Original A R) (w : World A)
    (after : Except Exn R × World A) : Prop where
  once : after.2.resolved = true → after.1 = original.outcome args ∧ after.2.calls = [args]
  active : after.2.active = w.active

/-- The active scope is as before, and so are the scopes that there were. -/
structure SameStack (w w' : World A) : Prop where
  active : w'.active = w.active
  scopes : w.scopes <+: w'.scopes

instance : IsPreorder (World A) SameStack where
  refl := fun _ => ⟨rfl, List.prefix_rfl⟩
  trans := fun _ _ _ h k => ⟨k.active.trans h.active, h.scopes.trans k.scopes⟩

theorem Quiet.sameStack {w w' : World A} (h : Quiet w w') : SameStack w w' :=
  ⟨h.active, h.scopes ▸ List.prefix_rfl⟩

theorem Within.sameStack {m : Action A R} (h : Within Quiet m) : Within SameStack m :=
  fun w => (h w).sameStack

theorem within_invoke {original : Original A R} (horiginal : original.KeepsScopes) (args : A) :
    Within SameStack (invoke original args) := fun w =>
  ⟨horiginal.active args _, horiginal.scopes args { w with calls := w.calls ++ [args] }⟩

theorem within_recordException (scope : Option ScopeRef) {m : Action A R}
    (hm : Within SameStack m) : Within SameStack (recordException setting scope m) :=
  within_tryCatch hm fun exception =>
    within_bind (Within.sameStack (within_setException setting scope exception)) fun _ =>
      within_throw exception

section Recording

/-- What `scope?.Span.SetException(exception)` raises: describing the exception can fail. -/
def described (scope : Option ScopeRef) (exception : Exn) : Except Exn PUnit :=
  match scope with
  | none => .ok ⟨⟩
  | some _ => do
      let _ ← setting.message exception
      let _ ← setting.stack exception
      return ⟨⟩

theorem setException_fst (scope : Option ScopeRef) (exception : Exn) (w : World A) :
    ((setException setting scope exception).run w).1 = described setting scope exception := by
  cases scope with
  | none => rfl
  | some r =>
      unfold setException described
      dsimp only
      rw [run_bind_of_ok (a := ⟨⟩) rfl]
      cases hmessage : setting.message exception with
      | error e => rfl
      | ok message =>
          rw [run_bind_of_ok (a := message) rfl, run_bind_of_ok (a := ⟨⟩)
            (setTag_fst_of_not_special setting r (by decide) message _)]
          cases hstack : setting.stack exception with
          | error e => rfl
          | ok stack =>
              rw [run_bind_of_ok (a := stack) rfl, run_bind_of_ok (a := ⟨⟩)
                (setTag_fst_of_not_special setting r (by decide) stack _)]
              exact setTag_fst_of_not_special setting r (by decide) _ _

/-- Recording an exception of the original method does not replace it. -/
def Reported (scope : Option ScopeRef) (outcome : Except Exn R) : Prop :=
  ∀ exception, outcome = .error exception →
    described setting scope exception = .ok ⟨⟩ ∨
      described setting scope exception = .error exception

@[simp] theorem reported_none (outcome : Except Exn R) : Reported setting none outcome :=
  fun _ _ => Or.inl rfl

/-- Describing the exception of an outcome raises nothing else. -/
def Describable (outcome : Except Exn R) : Prop := Reported setting (some 0) outcome

theorem reported_some (r : ScopeRef) (outcome : Except Exn R) :
    Reported setting (some r) outcome ↔ Describable setting outcome := Iff.rfl

theorem reported_iff (scope : Option ScopeRef) (outcome : Except Exn R) :
    Reported setting scope outcome ↔ (scope ≠ none → Describable setting outcome) := by
  cases scope with
  | none => simp
  | some r => simp [reported_some]

/-- What a recorded action ends with. -/
theorem recordException_fst (scope : Option ScopeRef) (m : Action A R) (w : World A) :
    ((recordException setting scope m).run w).1 =
      match (m.run w).1 with
      | .ok a => .ok a
      | .error exception =>
          match described setting scope exception with
          | .ok _ => .error exception
          | .error e => .error e := by
  cases hm : (m.run w).1 with
  | ok a => rw [recordException, run_tryCatch_of_ok hm]
  | error exception =>
      rw [recordException, run_tryCatch_of_error hm]
      have h := setException_fst setting scope exception (m.run w).2
      cases hd : described setting scope exception with
      | ok _ =>
          rw [hd] at h
          rw [run_bind_of_ok h, run_throw]
          simp only [hd]
      | error e =>
          rw [hd] at h
          rw [run_bind_of_error h]
          simp only [hd]

theorem recordException_fst_eq_iff (scope : Option ScopeRef) (m : Action A R) (w : World A) :
    ((recordException setting scope m).run w).1 = (m.run w).1 ↔
      Reported setting scope (m.run w).1 := by
  rw [recordException_fst]
  unfold Reported
  cases (m.run w).1 with
  | ok a => simp
  | error exception =>
      simp only [Except.error.injEq, forall_eq']
      cases described setting scope exception with
      | ok _ => simp
      | error e => simp

/-- A recorded action returns what the action returns. -/
theorem recordException_fst_eq_ok_iff (scope : Option ScopeRef) (m : Action A R) (w : World A)
    (result : R) :
    ((recordException setting scope m).run w).1 = .ok result ↔ (m.run w).1 = .ok result := by
  rw [recordException_fst]
  cases (m.run w).1 with
  | ok a => exact Iff.rfl
  | error exception =>
      simp only [reduceCtorEq, iff_false]
      cases described setting scope exception <;> simp

/-- Recording only adds to what the action did. -/
theorem recordException_quiet (scope : Option ScopeRef) (m : Action A R) (w : World A) :
    Quiet (m.run w).2 ((recordException setting scope m).run w).2 := by
  cases hm : (m.run w).1 with
  | ok a =>
      rw [recordException, run_tryCatch_of_ok hm]
      exact Quiet.rfl
  | error exception =>
      rw [recordException, run_tryCatch_of_error hm]
      have hquiet : Within Quiet (do
          setException setting scope exception
          throw exception : Action A R) :=
        within_bind (within_setException setting scope exception) fun _ => within_throw exception
      exact hquiet (m.run w).2

/-- Recording touches neither the calls nor the resolution. -/
theorem recordException_invoke (scope : Option ScopeRef) {original : Original A R}
    (horiginal : original.KeepsScopes) (args : A) (w : World A) :
    ((recordException setting scope (invoke original args)).run w).2.calls =
        w.calls ++ [args] ∧
      ((recordException setting scope (invoke original args)).run w).2.resolved =
        w.resolved := by
  have h := recordException_quiet setting scope (invoke original args) w
  exact ⟨h.calls.trans (horiginal.calls args _), h.resolved.trans (horiginal.resolved args _)⟩

end Recording

section Opening

/-- A step that raises without a new scope, returns no scope, or returns a new
scope that it has made the active one. -/
def Opens (m : Action A (Option ScopeRef)) : Prop :=
  ∀ w, (∃ e, (m.run w).1 = .error e ∧ Quiet w (m.run w).2) ∨
    ((m.run w).1 = .ok none ∧ Quiet w (m.run w).2) ∨
    ∃ span finishOnClose, (m.run w).1 = .ok (some w.scopes.length) ∧
      (m.run w).2.scopes = w.scopes ++ [⟨w.active, span, finishOnClose⟩] ∧
      (m.run w).2.active = some w.scopes.length ∧
      (m.run w).2.resolved = w.resolved ∧ (m.run w).2.calls = w.calls

@[simp] theorem deactivate_resolved (r : ScopeRef) (w : World A) :
    (deactivate r w).resolved = w.resolved := by
  unfold deactivate
  split
  · rfl
  · split <;> rfl

@[simp] theorem deactivate_calls (r : ScopeRef) (w : World A) :
    (deactivate r w).calls = w.calls := by
  unfold deactivate
  split
  · rfl
  · split <;> rfl

/-- Disposing touches neither the calls nor the resolution. -/
@[simp] theorem dispose_calls (scope : Option ScopeRef) (w : World A) :
    (dispose setting scope w).calls = w.calls := by
  cases scope with
  | none => rfl
  | some r =>
      unfold dispose
      dsimp only
      split
      · simp
      · split <;> simp

@[simp] theorem dispose_resolved (scope : Option ScopeRef) (w : World A) :
    (dispose setting scope w).resolved = w.resolved := by
  cases scope with
  | none => rfl
  | some r =>
      unfold dispose
      dsimp only
      split
      · simp
      · split <;> simp

/-- Disposing the active scope makes its parent the active one. -/
theorem dispose_active {r : ScopeRef} (scope : Scope) {w : World A}
    (hscope : w.scopes[r]? = some scope) (hactive : w.active = some r) :
    (dispose setting (some r) w).active = scope.parent := by
  have hdeactivate : deactivate r w = { w with active := scope.parent } := by
    unfold deactivate
    rw [hscope]
    exact if_pos hactive
  unfold dispose
  simp only [hdeactivate, hscope]
  split <;> rfl

/-- A wrapper in a scope ends with the active scope it found. -/
theorem usingScope_active {create : Action A (Option ScopeRef)}
    {body : Option ScopeRef → Action A R} (hopens : Opens create)
    (hbody : ∀ scope, Within SameStack (body scope)) (w : World A) :
    ((usingScope setting create body).run w).2.active = w.active := by
  rw [usingScope]
  rcases hopens w with ⟨e, herror, hquiet⟩ | ⟨hnone, hquiet⟩ |
      ⟨span, finishOnClose, hsome, hscopes, hactive, -, -⟩
  · rw [run_bind_of_error herror]
    exact hquiet.active
  · rw [run_bind_of_ok hnone]
    exact (hbody none _).active.trans hquiet.active
  · rw [run_bind_of_ok hsome]
    have hsame := hbody (some w.scopes.length) (create.run w).2
    refine dispose_active setting ⟨w.active, span, finishOnClose⟩ ?_ ?_
    · obtain ⟨more, hmore⟩ := hsame.scopes
      rw [← hmore, hscopes]
      simp
    · rw [hsame.active, hactive]

theorem opens_pure_none : Opens (pure none : Action A (Option ScopeRef)) :=
  fun _ => Or.inr (Or.inl ⟨rfl, Quiet.rfl⟩)

/-- Starting and populating a scope opens it. -/
theorem opens_tryStartScope {operationName : Option Text} {parent : Option ISpanContext}
    {serviceName : Option Text} {populate : ScopeRef → Action A PUnit}
    (hpopulate : ∀ r, Within Quiet (populate r)) :
    Opens (tryStartScope (startActive setting operationName parent serviceName) populate) := by
  intro w
  right
  cases h : startedSpan setting w operationName parent serviceName with
  | none => exact Or.inl (tryStartScope_of_none _ h)
  | some started =>
      obtain ⟨t, hrun, hscopes, hactive, hresolved, hcalls, -, -⟩ := tryStartScope_of_some populate h
      have hquiet := hpopulate w.scopes.length t
      rw [hrun]
      exact Or.inr ⟨_, _, rfl, hquiet.scopes.trans hscopes, hquiet.active.trans hactive,
        hquiet.resolved.trans hresolved, hquiet.calls.trans hcalls⟩

/-- Reads before a scope is opened. -/
theorem opens_lift_bind {α : Type} {outcome : Except Exn α}
    {f : α → Action A (Option ScopeRef)} (hf : ∀ a, Opens (f a)) :
    Opens (lift outcome >>= f) := by
  intro w
  cases outcome with
  | error e => exact Or.inl ⟨e, rfl, Quiet.rfl⟩
  | ok a => exact hf a w

theorem Opens.calls {m : Action A (Option ScopeRef)} (h : Opens m) (w : World A) :
    (m.run w).2.calls = w.calls := by
  rcases h w with ⟨e, -, hquiet⟩ | ⟨-, hquiet⟩ | ⟨_, _, -, -, -, -, hcalls⟩
  · exact hquiet.calls
  · exact hquiet.calls
  · exact hcalls

theorem Opens.resolved {m : Action A (Option ScopeRef)} (h : Opens m) (w : World A) :
    (m.run w).2.resolved = w.resolved := by
  rcases h w with ⟨e, -, hquiet⟩ | ⟨-, hquiet⟩ | ⟨_, _, -, -, -, hresolved, -⟩
  · exact hquiet.resolved
  · exact hquiet.resolved
  · exact hresolved

end Opening

section Calls

variable {setting}

/-- A call that raises before the delegate is resolved is transparent. -/
theorem transparent_of_unresolved {args : A} {original : Original A R} {entry : World A}
    {after : Except Exn R × World A} (hentry : entry.resolved = false)
    (h : Quiet entry after.2) : Transparent args original entry after := by
  refine ⟨fun hresolved => ?_, h.active⟩
  rw [h.resolved, hentry] at hresolved
  cases hresolved

@[simp] theorem resolve_ok_snd (w : World A) :
    ((resolve (.ok ⟨⟩) : Action A PUnit).run w).2 = { w with resolved := true } := rfl

/-- A resolved call that raises before the original is invoked is not transparent. -/
theorem not_transparent_of_no_call {args : A} {original : Original A R} {entry : World A}
    {after : Except Exn R × World A} (hresolved : after.2.resolved = true)
    (hcalls : after.2.calls = []) : ¬ Transparent args original entry after := by
  intro h
  have hcall := (h.once hresolved).2
  rw [hcalls] at hcall
  cases hcall

/-- Steps before the call that raise nothing, and a call whose exception is
recorded: the condition for a transparent wrapper with a scope. -/
theorem transparent_callInScope_iff {create : Action A (Option ScopeRef)}
    (before : Option ScopeRef → Action A PUnit) {original : Original A R}
    (horiginal : original.KeepsScopes) (args : A) (hopens : Opens create)
    (hbefore : ∀ scope, Within Quiet (before scope))
    (entry : World A) {w : World A} (hactive : w.active = entry.active)
    (hresolved : w.resolved = true)
    (hcalls : w.calls = []) {scope : Option ScopeRef}
    (hcreate : (create.run w).1 = .ok scope) :
    Transparent args original entry
        ((callInScope setting create before original args).run w) ↔
      ((before scope).run (create.run w).2).1 = .ok ⟨⟩ ∧
        Reported setting scope (original.outcome args) := by
  have hbody : ∀ scope, Within SameStack (do
      before scope
      recordException setting scope (invoke original args) : Action A R) := fun scope =>
    within_bind (Within.sameStack (hbefore scope)) fun _ =>
      within_recordException setting scope (within_invoke horiginal args)
  have hkeeps := (usingScope_active setting hopens hbody w).trans hactive
  have hquiet := hbefore scope (create.run w).2
  cases hb : ((before scope).run (create.run w).2).1 with
  | error e =>
      simp only [reduceCtorEq, false_and, iff_false]
      rw [callInScope, usingScope, run_bind_of_ok hcreate, run_finallyDo, run_bind_of_error hb]
      refine not_transparent_of_no_call ?_ ?_
      · rw [dispose_resolved, hquiet.resolved, hopens.resolved, hresolved]
      · rw [dispose_calls, hquiet.calls, hopens.calls, hcalls]
  | ok _ =>
      simp only [true_and]
      obtain ⟨hinvoked, hstill⟩ := recordException_invoke setting scope horiginal args
        ((before scope).run (create.run w).2).2
      have hreported := recordException_fst_eq_iff setting scope (invoke original args)
        ((before scope).run (create.run w).2).2
      constructor
      · rintro ⟨honce, -⟩
        rw [callInScope, usingScope, run_bind_of_ok hcreate, run_finallyDo,
          run_bind_of_ok hb] at honce
        refine hreported.mp (honce ?_).1
        rw [dispose_resolved, hstill, hquiet.resolved, hopens.resolved, hresolved]
      · intro h
        refine ⟨fun _ => ?_, hkeeps⟩
        rw [callInScope, usingScope, run_bind_of_ok hcreate, run_finallyDo, run_bind_of_ok hb]
        refine ⟨hreported.mpr h, ?_⟩
        rw [dispose_calls, hinvoked, hquiet.calls, hopens.calls, hcalls]
        rfl

end Calls

end SignalFxTracing.Integrations
