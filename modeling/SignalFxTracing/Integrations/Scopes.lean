import SignalFxTracing.Lib.Guarded
import SignalFxTracing.Process.Tracing

/-!
# Scopes and the calls of an integration (`Scope.cs`, `ScopeManagerBase.cs`)

An integration runs in a world of spans, scopes and the one active scope. The
world also records whether the delegate of the original method has been
resolved and with which arguments the original method was invoked.

## Implementation notes

Code outside the repository (the instrumented library and its objects) is known
by the outcome of each call and leaves the world as it found it. The original
method may change the world. The events of the scope manager, which only notify log
integrations, are left out. Exceptions are told apart by kind; `other` stands
for the exceptions of foreign code.
-/

namespace SignalFxTracing.Integrations

open Clr Lib Lib.Guarded Trace Propagation

inductive Exn
  | argumentNull
  | argument
  | indexOutOfRange
  | nullReference
  | duckTypeTargetObjectInstanceIsNull
  | other (id : Nat)
  deriving DecidableEq

/-- Reference to a `Scope` object. -/
abbrev ScopeRef := Nat

structure Scope where
  parent : Option ScopeRef
  span : SpanRef
  finishOnClose : Bool

structure World (A : Type) where
  process : Process.State
  scopes : List Scope
  active : Option ScopeRef
  resolved : Bool
  calls : List A

/-- The world when an integration is entered: the active scope is one of the scopes. -/
def World.entry {A : Type} (process : Process.State) (scopes : List Scope)
    (active : Option (Fin scopes.length)) : World A :=
  ⟨process, scopes, active.map Fin.val, false, []⟩

/-- The settings and what the integration reads from its surroundings. -/
structure Setting where
  tracer : Tracer
  isIntegrationEnabled : Bool
  format : Process.Format
  draws : Draws
  utcNow : Int
  /-- `exception.Message`, `exception.ToString()` and the name of its type. -/
  message : Exn → Except Exn (Option Text)
  stack : Exn → Except Exn (Option Text)
  kind : Exn → Text

/-- A tracer without settings, an enabled integration and exceptions without texts. -/
def Setting.plain : Setting where
  tracer := Tracer.plain
  isIntegrationEnabled := true
  format := .b3
  draws := ⟨1, 2, 3, 4⟩
  utcNow := 0
  message := fun _ => .ok none
  stack := fun _ => .ok none
  kind := fun _ => []

abbrev Action (A α : Type) := Guarded (World A) Exn α

/-- The original method: how a call with these arguments ends, and what it does to the world. -/
structure Original (A R : Type) where
  outcome : A → Except Exn R
  effect : A → World A → World A

/-- The original leaves the active scope as it was, and the scopes that there are; it is no part of
the wrapper's call. -/
structure Original.KeepsScopes {A R : Type} (original : Original A R) : Prop where
  active : ∀ args w, (original.effect args w).active = w.active
  scopes : ∀ args w, w.scopes <+: (original.effect args w).scopes
  resolved : ∀ args w, (original.effect args w).resolved = w.resolved
  calls : ∀ args w, (original.effect args w).calls = w.calls

/-- An original that does nothing but return. -/
def Original.returns {A R : Type} (result : R) : Original A R := ⟨fun _ => .ok result, fun _ w => w⟩

theorem Original.keepsScopes_returns {A R : Type} (result : R) :
    (Original.returns result : Original A R).KeepsScopes where
  active _ _ := rfl
  scopes _ _ := List.prefix_rfl
  resolved _ _ := rfl
  calls _ _ := rfl

section Operations

variable {A R : Type} (setting : Setting)

namespace World

/-- The span of a scope, with its reference. -/
def spanOf (w : World A) (r : ScopeRef) : Option (SpanRef × Span) := do
  let scope ← w.scopes[r]?
  let span ← w.process.spans[scope.span]?
  return (scope.span, span)

/-- `ActiveScope?.Span?.Context`. -/
def activeContext (w : World A) : Option ISpanContext := do
  let r ← w.active
  let (_, span) ← w.spanOf r
  return .inr span.context

def setSpan (w : World A) (i : SpanRef) (span : Span) : World A :=
  { w with process := { w.process with spans := w.process.spans.set i span } }

end World

/-- The arguments of `StartSpan` in a call of `StartActive`. -/
def startArguments (w : World A) (operationName : Option Text) (parent : Option ISpanContext)
    (serviceName : Option Text) : Tracer.StartArguments :=
  { active := w.activeContext, operationName, parent, serviceName, startTime := none,
    ignoreActiveScope := false, spanId := none, draws := setting.draws,
    utcNow := setting.utcNow }

/-- `StartActive`. The exception that leaves `StartSpan` is that of `ToBoolean(null)`. -/
def startActive (operationName : Option Text) (parent : Option ISpanContext)
    (serviceName : Option Text) : Action A ScopeRef := ⟨fun w =>
  match setting.tracer.startSpan (startArguments setting w operationName parent serviceName)
      w.process.spans.length w.process.traces with
  | (none, traces) => (.error .argumentNull, { w with process := { w.process with traces } })
  | (some span, traces) =>
      (.ok w.scopes.length,
        { w with
          process :=
            { traces, contexts := w.process.contexts ++ [span.context],
              spans := w.process.spans ++ [span] }
          scopes := w.scopes ++ [⟨w.active, w.process.spans.length, true⟩]
          active := some w.scopes.length })⟩

/-- The span that `StartActive` starts, if it raises nothing, and the traces afterwards. -/
def startedSpan (w : World A) (operationName : Option Text) (parent : Option ISpanContext)
    (serviceName : Option Text) : Option (Span × List TraceContext) :=
  let (span, traces) := setting.tracer.startSpan
    (startArguments setting w operationName parent serviceName) w.process.spans.length
    w.process.traces
  span.map fun span => (span, traces)

/-- The block in which the integrations start and populate a scope: they catch
every exception and return the scope as far as it got. -/
def tryStartScope (start : Action A ScopeRef) (populate : ScopeRef → Action A PUnit) :
    Action A (Option ScopeRef) := do
  let scope ← tryCatch (some <$> start) fun _ => pure none
  match scope with
  | none => pure none
  | some r => do
      tryCatch (populate r) fun _ => pure ⟨⟩
      pure (some r)

/-- `Span.Tags.Add` of a scope: an existing key raises `ArgumentException`. -/
def addTag (r : ScopeRef) (key : Text) (value : Option Text) : Action A PUnit := ⟨fun w =>
  match w.spanOf r with
  | none => (.ok ⟨⟩, w)
  | some (i, span) =>
      if key ∈ span.tags then (.error .argument, w)
      else (.ok ⟨⟩, w.setSpan i { span with tags := span.tags.insert key value })⟩

/-- Successive calls of `Span.Tags.Add`. -/
def addTags (r : ScopeRef) : List (Text × Option Text) → Action A PUnit
  | [] => pure ⟨⟩
  | (key, value) :: rest => do
      addTag r key value
      addTags r rest

/-- `Span.SetTag` of a scope. -/
def setTag (r : ScopeRef) (key : Text) (value : Option Text) : Action A PUnit := ⟨fun w =>
  match (w.spanOf r).bind fun found => w.process.spanInTrace found.1 |>.map (found.1, ·) with
  | none => (.ok ⟨⟩, w)
  | some (i, span, t, trace) =>
      match Span.setTag setting.tracer.runtime key value span trace with
      | none => (.error .argumentNull, w)
      | some (span, trace) =>
          (.ok ⟨⟩, { w with process :=
            { w.process with
              spans := w.process.spans.set i span
              traces := w.process.traces.set t trace } })⟩

/-- Assign properties of the span of a scope. -/
def modifySpanOf (r : ScopeRef) (f : Span → Span) : Action A PUnit := modify fun w =>
  match w.spanOf r with
  | none => w
  | some (i, span) => w.setSpan i (f span)

/-- `Span.Error = true` of a scope. -/
def setError (r : ScopeRef) : Action A PUnit := modify fun w =>
  match w.spanOf r with
  | none => w
  | some (i, span) => w.setSpan i { span with error := true }

/-- `scope?.Span.SetException(exception)`. -/
def setException (scope : Option ScopeRef) (exception : Exn) : Action A PUnit :=
  match scope with
  | none => pure ⟨⟩
  | some r => do
      setError r
      let message ← lift (setting.message exception)
      setTag setting r Tags.errorMsg message
      let stack ← lift (setting.stack exception)
      setTag setting r Tags.errorStack stack
      setTag setting r Tags.errorKind (some (setting.kind exception))

/-- `ScopeManagerBase.Close`: a scope that is not the active one is left alone. -/
def deactivate (r : ScopeRef) (w : World A) : World A :=
  match w.scopes[r]? with
  | none => w
  | some scope => if w.active = some r then { w with active := scope.parent } else w

/-- `Scope.Dispose`, which lets no exception out. -/
def dispose (scope : Option ScopeRef) (w : World A) : World A :=
  match scope with
  | none => w
  | some r =>
      let w := deactivate r w
      match w.scopes[r]? with
      | none => w
      | some scope =>
          if scope.finishOnClose then
            { w with process :=
                (Process.finish w.process scope.span setting.utcNow).getD w.process }
          else w

/-- The headers that the configured propagator sets. -/
def headersOf (traces : List TraceContext) (context : SpanContext) : List (Text × Text) :=
  match setting.format with
  | .b3 => B3.headersOf traces context
  | .w3c => W3C.headersOf context

/-- `Propagator.Inject` of the span of a scope into a carrier known by the
outcome of setting these headers. -/
def injectInto (r : ScopeRef) (set : List (Text × Text) → Except Exn PUnit) : Action A PUnit := do
  let w ← get
  match w.spanOf r with
  | none => pure ⟨⟩
  | some (_, span) => do
      modify fun w => { w with process :=
        { w.process with traces := lockTraceOf span.context w.process.traces } }
      lift (set (headersOf setting w.process.traces span.context))

/-- `MethodBuilder….Build()`. -/
def resolve (build : Except Exn PUnit) : Action A PUnit := do
  lift build
  modify fun w => { w with resolved := true }

/-- The call of the delegate of the original method. -/
def invoke (original : Original A R) (args : A) : Action A R :=
  ⟨fun w => (original.outcome args, original.effect args { w with calls := w.calls ++ [args] })⟩

/-- `using (var scope = create()) { body(scope) }`. -/
def usingScope (create : Action A (Option ScopeRef)) (body : Option ScopeRef → Action A R) :
    Action A R := do
  let scope ← create
  finallyDo (body scope) (dispose setting scope)

/-- `try { m } catch (ex) { scope?.Span.SetException(ex); throw; }`. -/
def recordException (scope : Option ScopeRef) (m : Action A R) : Action A R :=
  tryCatch m fun exception => do
    setException setting scope exception
    throw exception

/-- A call of the original inside a scope, after some steps in the scope. -/
def callInScope (create : Action A (Option ScopeRef))
    (before : Option ScopeRef → Action A PUnit) (original : Original A R) (args : A) :
    Action A R :=
  usingScope setting create fun scope => do
    before scope
    recordException setting scope (invoke original args)

end Operations

/-- Active scope, scopes, calls and resolution are as before. -/
structure Quiet {A : Type} (w w' : World A) : Prop where
  active : w'.active = w.active
  scopes : w'.scopes = w.scopes
  resolved : w'.resolved = w.resolved
  calls : w'.calls = w.calls

instance {A : Type} : IsPreorder (World A) Quiet where
  refl := fun _ => ⟨rfl, rfl, rfl, rfl⟩
  trans := fun _ _ _ h k => ⟨k.active.trans h.active, k.scopes.trans h.scopes,
    k.resolved.trans h.resolved, k.calls.trans h.calls⟩

theorem Quiet.rfl {A : Type} {w : World A} : Quiet w w := Std.Refl.refl w

section QuietOperations

variable {A R : Type} (setting : Setting)

theorem within_addTag (r : ScopeRef) (key : Text) (value : Option Text) :
    Within Quiet (addTag r key value : Action A PUnit) := by
  intro w
  unfold addTag
  dsimp only
  split
  · exact Quiet.rfl
  · split
    · exact Quiet.rfl
    · exact ⟨rfl, rfl, rfl, rfl⟩

theorem within_addTags (r : ScopeRef) (tags : List (Text × Option Text)) :
    Within Quiet (addTags r tags : Action A PUnit) := by
  induction tags with
  | nil => exact within_pure _
  | cons tag rest ih => exact within_bind (within_addTag r tag.1 tag.2) fun _ => ih

theorem within_setTag (r : ScopeRef) (key : Text) (value : Option Text) :
    Within Quiet (setTag setting r key value : Action A PUnit) := by
  intro w
  unfold setTag
  dsimp only
  split
  · exact Quiet.rfl
  · split
    · exact Quiet.rfl
    · exact ⟨rfl, rfl, rfl, rfl⟩

theorem within_setError (r : ScopeRef) : Within Quiet (setError r : Action A PUnit) := by
  refine within_modify fun w => ?_
  split
  · exact Quiet.rfl
  · exact ⟨rfl, rfl, rfl, rfl⟩

theorem within_modifySpanOf (r : ScopeRef) (f : Span → Span) :
    Within Quiet (modifySpanOf r f : Action A PUnit) := by
  refine within_modify fun w => ?_
  split
  · exact Quiet.rfl
  · exact ⟨rfl, rfl, rfl, rfl⟩

theorem within_setException (scope : Option ScopeRef) (exception : Exn) :
    Within Quiet (setException setting scope exception : Action A PUnit) := by
  cases scope with
  | none => exact within_pure _
  | some r =>
      refine within_bind (within_setError r) fun _ => ?_
      refine within_bind (within_lift _) fun message => ?_
      refine within_bind (within_setTag setting r _ _) fun _ => ?_
      refine within_bind (within_lift _) fun stack => ?_
      refine within_bind (within_setTag setting r _ _) fun _ => ?_
      exact within_setTag setting r _ _

theorem within_injectInto (r : ScopeRef) (set : List (Text × Text) → Except Exn PUnit) :
    Within Quiet (injectInto setting r set : Action A PUnit) := by
  refine within_bind within_get fun w => ?_
  split
  · exact within_pure _
  · exact within_bind (within_modify fun _ => ⟨rfl, rfl, rfl, rfl⟩) fun _ => within_lift _

end QuietOperations

section StartedSpans

variable {A : Type}

/-- The scope `r` shows a span with the context of `span`, and the given keys
are tags of it exactly when they are tags of `span`. -/
def Shows (w : World A) (r : ScopeRef) (span : Span) (keys : List Text) : Prop :=
  ∃ i shown, w.spanOf r = some (i, shown) ∧ shown.context = span.context ∧
    ∀ key ∈ keys, key ∈ shown.tags ↔ key ∈ span.tags

theorem spanOf_setSpan {w : World A} {r : ScopeRef} {i : SpanRef} {span : Span}
    (h : w.spanOf r = some (i, span)) (other : Span) :
    (w.setSpan i other).spanOf r = some (i, other) := by
  simp only [World.spanOf, bind, Option.bind_eq_some_iff, pure, Option.some.injEq,
    Prod.mk.injEq] at h
  obtain ⟨scope, hscope, found, hfound, rfl, -⟩ := h
  have hset : (w.process.spans.set scope.span other)[scope.span]? = some other :=
    List.getElem?_set_self (List.getElem?_eq_some_iff.mp hfound).1
  simp [World.spanOf, World.setSpan, hscope, hset]

/-- `Tags.Add` raises exactly for a key that the span has. -/
theorem addTag_fst {w : World A} {r : ScopeRef} {span : Span} {keys : List Text} {key : Text}
    (h : Shows w r span keys) (hkey : key ∈ keys) (value : Option Text) :
    ((addTag r key value).run w).1 = if key ∈ span.tags then .error .argument else .ok ⟨⟩ := by
  obtain ⟨i, shown, hshown, -, hkeys⟩ := h
  simp only [addTag, hshown, hkeys key hkey]
  split <;> rfl

/-- `Tags.Add` does not touch the other keys. -/
theorem shows_addTag {w : World A} {r : ScopeRef} {span : Span} {keys : List Text} {key : Text}
    (h : Shows w r span keys) (hkey : key ∉ keys) (value : Option Text) :
    Shows ((addTag r key value).run w).2 r span keys := by
  obtain ⟨i, shown, hshown, hcontext, hkeys⟩ := h
  simp only [addTag, hshown]
  split
  · exact ⟨i, shown, hshown, hcontext, hkeys⟩
  · refine ⟨i, _, spanOf_setSpan hshown _, hcontext, fun k hk => ?_⟩
    rw [AList.mem_insert, ← hkeys k hk]
    exact or_iff_right fun hkk => hkey (hkk ▸ hk)

theorem Shows.subset {w : World A} {r : ScopeRef} {span : Span} {keys less : List Text}
    (h : Shows w r span keys) (hless : less ⊆ keys) : Shows w r span less := by
  obtain ⟨i, shown, hshown, hcontext, hkeys⟩ := h
  exact ⟨i, shown, hshown, hcontext, fun key hkey => hkeys key (hless hkey)⟩

theorem shows_addTags {r : ScopeRef} {span : Span} {keys : List Text}
    {tags : List (Text × Option Text)} (htags : ∀ tag ∈ tags, tag.1 ∉ keys) {w : World A}
    (h : Shows w r span keys) : Shows ((addTags r tags).run w).2 r span keys := by
  induction tags generalizing w with
  | nil => exact h
  | cons tag rest ih =>
      have hfirst := shows_addTag h (htags tag (List.mem_cons_self ..)) tag.2
      have hrest : ∀ tag ∈ rest, tag.1 ∉ keys := fun tag htag =>
        htags tag (List.mem_cons_of_mem _ htag)
      rw [addTags]
      cases houtcome : ((addTag r tag.1 tag.2).run w).1 with
      | ok _ =>
          rw [run_bind_of_ok houtcome]
          exact ih hrest hfirst
      | error e =>
          rw [run_bind_of_error houtcome]
          exact hfirst

@[simp] theorem addTag_traces (r : ScopeRef) (key : Text) (value : Option Text) (w : World A) :
    ((addTag r key value).run w).2.process.traces = w.process.traces := by
  unfold addTag
  dsimp only
  split
  · rfl
  · split <;> rfl

@[simp] theorem addTags_traces (r : ScopeRef) (tags : List (Text × Option Text)) (w : World A) :
    ((addTags r tags).run w).2.process.traces = w.process.traces := by
  induction tags generalizing w with
  | nil => rfl
  | cons tag rest ih =>
      rw [addTags]
      cases houtcome : ((addTag r tag.1 tag.2).run w).1 with
      | ok _ => rw [run_bind_of_ok houtcome, ih, addTag_traces]
      | error e => rw [run_bind_of_error houtcome, addTag_traces]

/-- The context of the span that `r` shows and the traces are as before. -/
def KeepsShown (r : ScopeRef) (span : Span) (w w' : World A) : Prop :=
  w'.process.traces = w.process.traces ∧ (Shows w r span [] → Shows w' r span [])

instance (r : ScopeRef) (span : Span) : IsPreorder (World A) (KeepsShown r span) where
  refl := fun _ => ⟨rfl, id⟩
  trans := fun _ _ _ h k => ⟨k.1.trans h.1, k.2 ∘ h.2⟩

theorem within_addTag_keepsShown (r : ScopeRef) (span : Span) (key : Text)
    (value : Option Text) :
    Within (KeepsShown r span) (addTag r key value : Action A PUnit) :=
  fun w => ⟨addTag_traces r key value w, fun h => shows_addTag h List.not_mem_nil value⟩

/-- `SetTag` with a key without a special meaning only touches the tags of the span. -/
theorem setTag_run_of_not_special (setting : Setting) (r : ScopeRef) {key : Text}
    (hkey : key ∉ Tags.specialKeys) (value : Option Text) (w : World A) :
    ∃ w', (setTag setting r key value).run w = (.ok ⟨⟩, w') ∧
      (w' = w ∨ ∃ i shown tags, w.spanOf r = some (i, shown) ∧
        w' = w.setSpan i { shown with tags := tags }) := by
  unfold setTag
  dsimp only
  split
  · exact ⟨w, rfl, Or.inl rfl⟩
  · next i shown t trace hfound =>
      simp only [Option.bind_eq_some_iff, Option.map_eq_some_iff, Prod.mk.injEq] at hfound
      obtain ⟨⟨j, read⟩, hread, _, hintrace, rfl, rfl⟩ := hfound
      obtain ⟨hspan, -, htrace⟩ := Process.State.spanInTrace_eq_some.mp hintrace
      obtain ⟨tags, htags⟩ :=
        Span.setTag_of_not_special setting.tracer.runtime hkey value shown trace
      have hsame : w.process.traces.set t trace = w.process.traces := by
        obtain ⟨ht, rfl⟩ := List.getElem?_eq_some_iff.mp htrace
        exact List.set_getElem_self ht
      have hshown : read = shown := by
        simp only [World.spanOf, bind, Option.bind_eq_some_iff, pure, Option.some.injEq,
          Prod.mk.injEq] at hread
        obtain ⟨scope, -, found, hfound, rfl, rfl⟩ := hread
        exact Option.some.inj (hfound.symm.trans hspan)
      simp only [htags, hsame]
      exact ⟨_, rfl, Or.inr ⟨j, shown, tags, by rw [← hshown, hread], rfl⟩⟩

theorem setTag_fst_of_not_special (setting : Setting) (r : ScopeRef) {key : Text}
    (hkey : key ∉ Tags.specialKeys) (value : Option Text) (w : World A) :
    ((setTag setting r key value).run w).1 = .ok ⟨⟩ := by
  obtain ⟨w', hrun, -⟩ := setTag_run_of_not_special setting r hkey value w
  rw [hrun]

theorem within_setTag_keepsShown (setting : Setting) (r : ScopeRef) (span : Span) {key : Text}
    (hkey : key ∉ Tags.specialKeys) (value : Option Text) :
    Within (KeepsShown r span) (setTag setting r key value : Action A PUnit) := by
  intro w
  obtain ⟨w', hrun, rfl | ⟨i, shown, tags, hread, rfl⟩⟩ :=
    setTag_run_of_not_special setting r hkey value w
  · rw [hrun]
    exact Std.Refl.refl w'
  · rw [hrun]
    refine ⟨rfl, fun ⟨j, before, hbefore, hcontext, _⟩ => ?_⟩
    obtain ⟨rfl, rfl⟩ := Prod.mk.inj (Option.some.inj (hread.symm.trans hbefore))
    exact ⟨_, _, spanOf_setSpan hread _, hcontext, by simp⟩

/-- The outcome of `Inject` is that of setting the headers of the span's context. -/
theorem injectInto_fst {setting : Setting} {w : World A} {r : ScopeRef} {span : Span}
    {keys : List Text} (h : Shows w r span keys)
    (set : List (Text × Text) → Except Exn PUnit) :
    ((injectInto setting r set).run w).1 =
      set (headersOf setting w.process.traces span.context) := by
  obtain ⟨i, shown, hshown, hcontext, -⟩ := h
  rw [injectInto, run_bind_of_ok (a := w) rfl]
  simp only [run_get, hshown]
  rw [run_bind_of_ok (a := ⟨⟩) rfl, run_lift, hcontext]

end StartedSpans

section StartActive

variable {A : Type} {setting : Setting} {w : World A} {operationName : Option Text}
variable {parent : Option ISpanContext} {serviceName : Option Text}

/-- A `StartActive` that raises leaves the scopes as they are. -/
theorem startActive_of_none
    (h : startedSpan setting w operationName parent serviceName = none) :
    ((startActive setting operationName parent serviceName).run w).1 = .error .argumentNull ∧
      Quiet w ((startActive setting operationName parent serviceName).run w).2 := by
  simp only [startedSpan, Option.map_eq_none_iff] at h
  simp only [startActive]
  split
  · exact ⟨rfl, rfl, rfl, rfl, rfl⟩
  · next hstart =>
      rw [hstart] at h
      cases h

/-- Otherwise the new scope is active and shows the started span. -/
theorem startActive_of_some {span : Span} {traces : List TraceContext}
    (h : startedSpan setting w operationName parent serviceName = some (span, traces)) :
    ∃ w', (startActive setting operationName parent serviceName).run w =
        (.ok w.scopes.length, w') ∧
      w'.scopes = w.scopes ++ [⟨w.active, w.process.spans.length, true⟩] ∧
      w'.active = some w.scopes.length ∧ w'.resolved = w.resolved ∧ w'.calls = w.calls ∧
      w'.process.traces = traces ∧ ∀ keys, Shows w' w.scopes.length span keys := by
  simp only [startedSpan, Option.map_eq_some_iff, Prod.mk.injEq] at h
  obtain ⟨started, hspan, hsame, htraces⟩ := h
  subst hsame
  have hstart : setting.tracer.startSpan
      (startArguments setting w operationName parent serviceName) w.process.spans.length
      w.process.traces = (some started, traces) := Prod.ext hspan htraces
  have hrun : (startActive setting operationName parent serviceName).run w =
      (.ok w.scopes.length,
        { w with
          process :=
            { traces, contexts := w.process.contexts ++ [started.context],
              spans := w.process.spans ++ [started] }
          scopes := w.scopes ++ [⟨w.active, w.process.spans.length, true⟩]
          active := some w.scopes.length }) := by
    simp only [startActive, hstart]
  refine ⟨_, hrun, rfl, rfl, rfl, rfl, rfl, fun keys => ?_⟩
  refine ⟨w.process.spans.length, started, ?_, rfl, fun _ _ => Iff.rfl⟩
  simp [World.spanOf]

variable (populate : ScopeRef → Action A PUnit)

/-- An exception of the start is caught. -/
theorem tryStartScope_run_of_error {start : Action A ScopeRef} {e : Exn} {t : World A}
    (h : start.run w = (.error e, t)) : (tryStartScope start populate).run w = (.ok none, t) := by
  have hmap : (some <$> start : Action A (Option ScopeRef)).run w = (.error e, t) := by
    have hstart : (start.run w).1 = .error e := by rw [h]
    change (start >>= fun r => pure (some r)).run w = _
    rw [run_bind_of_error hstart, h]
  have hcaught : (tryCatch (some <$> start) fun _ => pure none : Action A (Option ScopeRef)).run w =
      (.ok none, t) := by
    rw [run_tryCatch_of_error (by rw [hmap]), hmap, run_pure]
  rw [tryStartScope, run_bind_of_ok (by rw [hcaught]), hcaught]
  rfl

/-- A started scope is returned, populated as far as that raises nothing. -/
theorem tryStartScope_run_of_ok {start : Action A ScopeRef} {r : ScopeRef} {t : World A}
    (h : start.run w = (.ok r, t)) :
    (tryStartScope start populate).run w = (.ok (some r), ((populate r).run t).2) := by
  have hmap : (some <$> start : Action A (Option ScopeRef)).run w = (.ok (some r), t) := by
    have hstart : (start.run w).1 = .ok r := by rw [h]
    change (start >>= fun r => pure (some r)).run w = _
    rw [run_bind_of_ok hstart, h, run_pure]
  have hcaught : (tryCatch (some <$> start) fun _ => pure none : Action A (Option ScopeRef)).run w =
      (.ok (some r), t) := by
    rw [run_tryCatch_of_ok (by rw [hmap]), hmap]
  have hpopulate : ((tryCatch (populate r) fun _ => pure ⟨⟩ : Action A PUnit).run t) =
      (.ok ⟨⟩, ((populate r).run t).2) := by
    cases houtcome : ((populate r).run t).1 with
    | ok _ => rw [run_tryCatch_of_ok houtcome]
    | error e => rw [run_tryCatch_of_error houtcome, run_pure]
  rw [tryStartScope, run_bind_of_ok (by rw [hcaught]), hcaught]
  dsimp only
  rw [run_bind_of_ok (by rw [hpopulate]), hpopulate, run_pure]

theorem tryStartScope_of_none
    (h : startedSpan setting w operationName parent serviceName = none) :
    ((tryStartScope (startActive setting operationName parent serviceName) populate).run w).1 =
        .ok none ∧
      Quiet w ((tryStartScope (startActive setting operationName parent serviceName)
        populate).run w).2 := by
  obtain ⟨herror, hquiet⟩ := startActive_of_none h
  rw [tryStartScope_run_of_error populate (Prod.ext herror rfl)]
  exact ⟨rfl, hquiet⟩

theorem tryStartScope_of_some {span : Span} {traces : List TraceContext}
    (h : startedSpan setting w operationName parent serviceName = some (span, traces)) :
    ∃ t, (tryStartScope (startActive setting operationName parent serviceName)
          populate).run w =
        (.ok (some w.scopes.length), ((populate w.scopes.length).run t).2) ∧
      t.scopes = w.scopes ++ [⟨w.active, w.process.spans.length, true⟩] ∧
      t.active = some w.scopes.length ∧ t.resolved = w.resolved ∧ t.calls = w.calls ∧
      t.process.traces = traces ∧ ∀ keys, Shows t w.scopes.length span keys := by
  obtain ⟨t, hstart, hrest⟩ := startActive_of_some h
  exact ⟨t, tryStartScope_run_of_ok populate hstart, hrest⟩

/-- The block returns a scope exactly when a span is started. -/
theorem tryStartScope_fst (w : World A) :
    ((tryStartScope (startActive setting operationName parent serviceName) populate).run w).1 =
      .ok ((startedSpan setting w operationName parent serviceName).map
        fun _ => w.scopes.length) := by
  cases h : startedSpan setting w operationName parent serviceName with
  | none => exact (tryStartScope_of_none populate h).1
  | some started =>
      obtain ⟨t, hrun, -⟩ := tryStartScope_of_some populate h
      rw [hrun]
      rfl

end StartActive

section Closing

variable {A : Type} {setting : Setting} {w : World A}

/-- What closing the active scope, with the span `i`, has changed. -/
structure Closed (parent : Option ScopeRef) (i : SpanRef) (w w' : World A) : Prop where
  scopes : w'.scopes = w.scopes
  active : w'.active = parent
  traces : w'.process.traces.length = w.process.traces.length
  finished : w.process.IsTraced i →
    ∃ span, w'.process.spans[i]? = some span ∧ span.isFinished = true
  others : ∀ j : SpanRef, i ≠ j → w'.process.spans[j]? = w.process.spans[j]?

theorem dispose_scopes (r : ScopeRef) : (dispose setting (some r) w).scopes = w.scopes := by
  unfold dispose deactivate
  grind

theorem dispose_active_of_ne {r : ScopeRef} (h : w.active ≠ some r) :
    (dispose setting (some r) w).active = w.active := by
  unfold dispose deactivate
  grind

theorem dispose_active_of_eq {r : ScopeRef} {scope : Scope} (hscope : w.scopes[r]? = some scope)
    (hactive : w.active = some r) : (dispose setting (some r) w).active = scope.parent := by
  unfold dispose deactivate
  grind

theorem finish_closed (setting : Setting) (i : SpanRef) (parent : Option ScopeRef) (w : World A) :
    Closed parent i w
      { w with
        active := parent
        process := (Process.finish w.process i setting.utcNow).getD w.process } := by
  rw [Process.finish]
  cases hfound : w.process.spanInTrace i with
  | none =>
      refine ⟨rfl, rfl, rfl, fun htraced => ?_, fun _ _ => rfl⟩
      obtain ⟨_, _, _, hsome⟩ := htraced.exists_spanInTrace
      rw [hfound] at hsome
      cases hsome
  | some found =>
      obtain ⟨span, t, trace⟩ := found
      have hspan := (Process.State.spanInTrace_eq_some.mp hfound).1
      refine ⟨rfl, rfl, List.length_set, fun _ => ?_, fun j hj => List.getElem?_set_ne hj⟩
      exact ⟨_, List.getElem?_set_self (List.getElem?_eq_some_iff.mp hspan).1,
        Span.markFinished_isFinished setting.utcNow span⟩

theorem dispose_closed {r : ScopeRef} {parent : Option ScopeRef} {i : SpanRef}
    (hscope : w.scopes[r]? = some ⟨parent, i, true⟩) (hactive : w.active = some r) :
    Closed parent i w (dispose setting (some r) w) := by
  have hdeactivated : deactivate r w = { w with active := parent } := by
    rw [deactivate, hscope]
    dsimp only
    rw [if_pos hactive]
  simp only [dispose, hdeactivated, hscope, if_true]
  exact finish_closed setting i parent w

end Closing

section Traced

variable {A : Type} (setting : Setting)

/-- A span that belongs to a trace still does. -/
def KeepsTraced (w w' : World A) : Prop := ∀ i, w.process.IsTraced i → w'.process.IsTraced i

instance : IsPreorder (World A) KeepsTraced where
  refl := fun _ _ => id
  trans := fun _ _ _ h k i => k i ∘ h i

theorem keepsTraced_modify {w : World A} {r : ScopeRef} {i : SpanRef} {span after : Span}
    (h : w.spanOf r = some (i, span)) (hcontext : after.context = span.context) :
    KeepsTraced w (w.setSpan i after) := by
  intro j hj
  simp only [World.spanOf, bind, Option.bind_eq_some_iff, pure, Option.some.injEq,
    Prod.mk.injEq] at h
  obtain ⟨scope, -, found, hfound, rfl, rfl⟩ := h
  exact hj.set hfound hcontext (Nat.le_refl _)

theorem within_modifySpanOf_keepsTraced (r : ScopeRef) {f : Span → Span}
    (hf : ∀ span, (f span).context = span.context) :
    Within KeepsTraced (modifySpanOf r f : Action A PUnit) := by
  refine within_modify fun w => ?_
  split
  · exact Std.Refl.refl w
  · next i span hspan => exact keepsTraced_modify hspan (hf span)

theorem within_setError_keepsTraced (r : ScopeRef) :
    Within KeepsTraced (setError r : Action A PUnit) :=
  within_modifySpanOf_keepsTraced r fun _ => rfl

theorem within_addTag_keepsTraced (r : ScopeRef) (key : Text) (value : Option Text) :
    Within KeepsTraced (addTag r key value : Action A PUnit) := by
  intro w
  unfold addTag
  dsimp only
  split
  · exact Std.Refl.refl w
  · next i span hspan =>
      split
      · exact Std.Refl.refl w
      · exact keepsTraced_modify hspan rfl

theorem within_setTag_keepsTraced (r : ScopeRef) (key : Text) (value : Option Text) :
    Within KeepsTraced (setTag setting r key value : Action A PUnit) := by
  intro w
  unfold setTag
  dsimp only
  split
  · exact Std.Refl.refl w
  · next i span t trace hfound =>
      split
      · exact Std.Refl.refl w
      · next after trace' hset =>
          simp only [Option.bind_eq_some_iff, Option.map_eq_some_iff, Prod.mk.injEq] at hfound
          obtain ⟨⟨j, read⟩, -, _, hintrace, rfl, rfl⟩ := hfound
          have hspan := (Process.State.spanInTrace_eq_some.mp hintrace).1
          intro j hj
          exact hj.set hspan (Span.setTag_context hset) (Nat.le_of_eq List.length_set.symm)

theorem within_setException_keepsTraced (scope : Option ScopeRef) (exception : Exn) :
    Within KeepsTraced (setException setting scope exception : Action A PUnit) := by
  cases scope with
  | none => exact within_pure _
  | some r =>
      refine within_bind (within_setError_keepsTraced r) fun _ => ?_
      refine within_bind (within_lift _) fun message => ?_
      refine within_bind (within_setTag_keepsTraced setting r _ _) fun _ => ?_
      refine within_bind (within_lift _) fun stack => ?_
      refine within_bind (within_setTag_keepsTraced setting r _ _) fun _ => ?_
      exact within_setTag_keepsTraced setting r _ _

theorem keepsTraced_dispose (scope : Option ScopeRef) (w : World A) :
    KeepsTraced w (dispose setting scope w) := by
  intro i hi
  cases scope with
  | none => exact hi
  | some r =>
      have hprocess : (deactivate r w).process = w.process := by
        unfold deactivate
        split
        · rfl
        · split <;> rfl
      unfold dispose
      dsimp only
      split
      · rwa [hprocess]
      · split
        · exact Process.State.IsTraced.finish (by rwa [hprocess]) _ _
        · rwa [hprocess]

/-- A started scope is active and has a span of a trace that is finished with it. -/
theorem startActive_opens (operationName : Option Text) (parent : Option ISpanContext)
    (serviceName : Option Text) (w : World A) :
    let w' := ((startActive setting operationName parent serviceName).run w).2
    KeepsTraced w w' ∧
      ((w'.scopes = w.scopes ∧ w'.active = w.active) ∨
        w'.scopes = w.scopes ++ [⟨w.active, w.process.spans.length, true⟩] ∧
          w'.active = some w.scopes.length) := by
  dsimp only [startActive]
  split
  · next traces hstart =>
      obtain ⟨hgrown, -⟩ := Tracer.startSpan_traces hstart
      exact ⟨fun _ hi => hi.grow (List.prefix_refl _) hgrown, Or.inl ⟨rfl, rfl⟩⟩
  · next span traces hstart =>
      obtain ⟨hgrown, -⟩ := Tracer.startSpan_traces hstart
      exact ⟨fun _ hi => hi.grow (List.prefix_append _ [span]) hgrown, Or.inr ⟨rfl, rfl⟩⟩

end Traced

end SignalFxTracing.Integrations
