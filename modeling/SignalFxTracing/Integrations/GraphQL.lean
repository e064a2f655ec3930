import SignalFxTracing.Integrations.Transparency

/-!
# The GraphQL wrappers (`GraphQLIntegration.cs`)

`Validate` and `ExecuteAsync` invoke the original inside a scope and then
inspect its result for errors, in the same `try` block. The inspection takes
`scope.Span` without a test for null.

## Implementation notes

The asynchronous wrapper is read as the sequence of its steps: the outcome of
the original is that of its task. `Schema` lists the reads of properties of
objects of the instrumented library with their outcomes; a property that is
not found reads as null.
-/

namespace SignalFxTracing.Integrations.GraphQL

open Clr Lib Lib.Guarded Trace Propagation

def integrationName : Text := text "GraphQL"

def validateOperationName : Text := text "graphql.validate"

/-- Reads of objects of type `Obj` of the instrumented library. -/
structure Schema (Obj : Type) where
  /-- Finding the assembly and its types. -/
  findTypes : Except Exn PUnit
  build : Except Exn PUnit
  originalQuery : Obj → Except Exn (Option Text)
  documentQuery : Obj → Except Exn (Option Text)
  operationName : Obj → Except Exn (Option Text)
  operationType : Obj → Except Exn (Option Text)
  errors : Obj → Except Exn (Option Obj)
  count : Obj → Except Exn Int
  getEnumerator : Obj → Except Exn (Option Obj)
  /-- The text built from the enumerated errors. -/
  errorLines : Obj → Except Exn Text

section Model

variable {A Obj : Type} (setting : Setting) (schema : Schema Obj)

/-- A read of an object that may be null. -/
def readOrNull {α : Type} (read : Obj → Except Exn (Option α)) (source : Option Obj) :
    Except Exn (Option α) :=
  match source with
  | none => .ok none
  | some source => read source

/-- `DecorateSpan`. -/
def decorateSpan (r : ScopeRef) : Action A PUnit :=
  setTag setting r Tags.instrumentationName (some (text "graphql"))

/-- The shape of both functions that create a scope: the reads come before the
block that catches. -/
def createAfter {α : Type} (reads : Except Exn α) (operationName : α → Text)
    (populate : α → ScopeRef → Action A PUnit) : Action A (Option ScopeRef) :=
  if setting.isIntegrationEnabled then do
    let read ← lift reads
    tryStartScope
      (startActive setting (some (operationName read)) none setting.tracer.defaultServiceName)
      (populate read)
  else pure none

/-- `CreateScopeFromValidate`. -/
def createScopeFromValidate (document : Option Obj) : Action A (Option ScopeRef) :=
  createAfter setting (readOrNull schema.originalQuery document)
    (fun _ => validateOperationName)
    fun source r => do
      decorateSpan setting r
      setTag setting r Tags.graphQLSource source

/-- `GetValueOrDefault().ToString()` of the operation type. -/
def operationTypeText (executionContext : Option Obj) : Except Exn Text := do
  match ← readOrNull schema.operationType executionContext with
  | none => .error .nullReference
  | some operationType => .ok operationType

/-- Source, name and type of the executed operation. -/
def readOperation (executionContext : Option Obj) :
    Except Exn (Option Text × Option Text × Text) := do
  let source ← readOrNull schema.documentQuery executionContext
  let operationName ← readOrNull schema.operationName executionContext
  let operationType ← operationTypeText schema executionContext
  return (source, operationName, operationType)

/-- The name of the span of an operation. -/
def operationText (operationName : Option Text) (operationType : Text) : Text :=
  operationType ++
    if isNullOrEmpty operationName then [] else text " " ++ operationName.getD []

/-- `CreateScopeFromExecuteAsync`. -/
def createScopeFromExecuteAsync (executionContext : Option Obj) :
    Action A (Option ScopeRef) :=
  createAfter setting (readOperation schema executionContext)
    (fun (_, operationName, operationType) => operationText operationName operationType)
    fun (source, operationName, operationType) r => do
      decorateSpan setting r
      setTag setting r Tags.graphQLSource source
      setTag setting r Tags.graphQLOperationName operationName
      setTag setting r Tags.graphQLOperationType (some operationType)

/-- `ConstructErrorMessage`: only the enumeration is guarded. -/
def constructErrorMessage (executionErrors : Option Obj) : Except Exn Text :=
  match executionErrors with
  | none => .ok []
  | some errors => do
      match ← schema.getEnumerator errors with
      | none => return text "errors: [\r\n]\r\n"
      | some enumerator =>
          match schema.errorLines enumerator with
          | .ok lines => return lines
          | .error _ => return text "errors: []"

/-- `RecordExecutionErrorsIfPresent`. -/
def recordExecutionErrorsIfPresent (r : ScopeRef) (errorType : Text)
    (executionErrors : Option Obj) : Action A PUnit := do
  let errorCount ← lift (executionErrors.elim (.ok 0) schema.count)
  if errorCount > 0 then do
    setError r
    setTag setting r Tags.errorMsg
      (some (text (toString errorCount) ++ text " error(s)"))
    setTag setting r Tags.errorKind (some errorType)
    let stack ← lift (constructErrorMessage schema executionErrors)
    setTag setting r Tags.errorStack (some stack)
  else pure ⟨⟩

/-- The inspection of a result; `scope.Span` of no scope raises. -/
def inspectResult (scope : Option ScopeRef) (errorType : Text)
    (readErrors : Except Exn (Option Obj)) : Action A PUnit :=
  match scope with
  | none => throw .nullReference
  | some r => do
      let executionErrors ← lift readErrors
      recordExecutionErrorsIfPresent setting schema r errorType executionErrors

/-- The call of the original and the inspection of its result. -/
def invokeAndInspect {R : Type} (scope : Option ScopeRef) (errorType : Text)
    (readErrors : R → Except Exn (Option Obj)) (original : Original A R) (args : A) :
    Action A R := do
  let result ← invoke original args
  inspectResult setting schema scope errorType (readErrors result)
  pure result

/-- A call of the original inside a scope, inspected before it returns. -/
def callAndInspect {R : Type} (create : Action A (Option ScopeRef)) (errorType : Text)
    (readErrors : R → Except Exn (Option Obj)) (original : Original A R) (args : A) :
    Action A R :=
  usingScope setting create fun scope =>
    recordException setting scope
      (invokeAndInspect setting schema scope errorType readErrors original args)

structure ValidateArguments (Obj : Type) where
  documentValidator : Option Obj
  originalQuery : Option Obj
  schema : Option Obj
  document : Option Obj
  rules : Option Obj
  userContext : Option Obj
  inputs : Option Obj

/-- `Validate`. -/
def validate (original : Original (ValidateArguments Obj) (Option Obj))
    (args : ValidateArguments Obj) : Action (ValidateArguments Obj) (Option Obj) := do
  if args.documentValidator.isNone then throw .argumentNull
  lift schema.findTypes
  resolve schema.build
  callAndInspect setting schema (createScopeFromValidate setting schema args.document)
    (text "GraphQL.Validation.ValidationError") (readOrNull schema.errors) original args

structure ExecuteArguments (Obj : Type) where
  executionStrategy : Option Obj
  context : Option Obj

/-- `ExecuteAsync` with `CallGraphQLExecuteAsyncInternal`. -/
def executeAsync (original : Original (ExecuteArguments Obj) (Option Obj))
    (args : ExecuteArguments Obj) : Action (ExecuteArguments Obj) (Option Obj) := do
  if args.executionStrategy.isNone then throw .argumentNull
  lift schema.findTypes
  resolve schema.build
  callAndInspect setting schema (createScopeFromExecuteAsync setting schema args.context)
    (text "GraphQL.ExecutionError") (fun _ => readOrNull schema.errors args.context) original args

end Model

section Inspection

variable {A Obj R : Type} {setting : Setting} {schema : Schema Obj}

/-- Reading and recording the errors of a result raises nothing. -/
def InspectsResult (schema : Schema Obj) (readErrors : Except Exn (Option Obj)) : Prop :=
  ∃ executionErrors, readErrors = .ok executionErrors ∧
    ∃ errorCount, executionErrors.elim (.ok 0) schema.count = .ok errorCount ∧
      (errorCount > 0 → ∃ stack, constructErrorMessage schema executionErrors = .ok stack)

theorem recordExecutionErrors_fst_iff (r : ScopeRef) (errorType : Text)
    (executionErrors : Option Obj) (w : World A) :
    ((recordExecutionErrorsIfPresent setting schema r errorType executionErrors).run w).1 =
        .ok ⟨⟩ ↔
      ∃ errorCount, executionErrors.elim (.ok 0) schema.count = .ok errorCount ∧
        (errorCount > 0 → ∃ stack, constructErrorMessage schema executionErrors = .ok stack) := by
  unfold recordExecutionErrorsIfPresent
  simp only [run_bind_fst_eq_ok_iff, run_lift]
  refine exists_congr fun errorCount => and_congr_right fun _ => ?_
  by_cases hcount : errorCount > 0
  · have htag : ∀ key ∈ [Tags.errorMsg, Tags.errorKind, Tags.errorStack],
        ∀ (value : Option Text) (w : World A),
          ((setTag setting r key value).run w).1 = .ok ⟨⟩ := fun key hkey value w =>
      setTag_fst_of_not_special setting r
        ((by decide : ∀ key ∈ [Tags.errorMsg, Tags.errorKind, Tags.errorStack],
          key ∉ Tags.specialKeys) key hkey) value w
    simp only [hcount, if_true, true_implies, run_bind_fst_eq_ok_iff, run_lift, setError,
      run_modify, htag Tags.errorMsg (by simp), htag Tags.errorKind (by simp),
      htag Tags.errorStack (by simp), and_true, true_and, exists_const]
  · simp [hcount]

theorem inspectResult_fst_iff (scope : Option ScopeRef) (errorType : Text)
    (readErrors : Except Exn (Option Obj)) (w : World A) :
    ((inspectResult setting schema scope errorType readErrors).run w).1 = .ok ⟨⟩ ↔
      scope ≠ none ∧ InspectsResult schema readErrors := by
  cases scope with
  | none => simp [inspectResult]
  | some r =>
      simp only [inspectResult, run_bind_fst_eq_ok_iff, run_lift, recordExecutionErrors_fst_iff,
        ne_eq, reduceCtorEq, not_false_eq_true, true_and]
      exact Iff.rfl

theorem within_inspectResult (scope : Option ScopeRef) (errorType : Text)
    (readErrors : Except Exn (Option Obj)) :
    Within Quiet (inspectResult setting schema scope errorType readErrors : Action A PUnit) := by
  cases scope with
  | none => exact within_throw _
  | some r =>
      refine within_bind (within_lift _) fun errors => within_bind (within_lift _) fun count => ?_
      split
      · exact within_bind (within_setError r) fun _ => within_bind (within_setTag setting r _ _)
          fun _ => within_bind (within_setTag setting r _ _) fun _ =>
            within_bind (within_lift _) fun _ => within_setTag setting r _ _
      · exact within_pure _

/-- An outcome that leaves the `try` block of the wrapper as it is, with and
without a scope. -/
def SurvivesInspection (schema : Schema Obj) (setting : Setting) (hasScope : Prop)
    (readErrors : R → Except Exn (Option Obj)) : Except Exn R → Prop
  | .ok result => hasScope ∧ InspectsResult schema (readErrors result)
  | .error exception => hasScope → Describable setting (.error exception : Except Exn R)

variable (setting schema) (errorType : Text) (readErrors : R → Except Exn (Option Obj))
variable {original : Original A R} (horiginal : original.KeepsScopes) (args : A)

/-- The recorded outcome is that of the original exactly when it survives. -/
theorem recordException_inspect_iff (scope : Option ScopeRef) (w : World A) :
    ((recordException setting scope
        (invokeAndInspect setting schema scope errorType readErrors original args)).run w).1 =
        original.outcome args ↔
      SurvivesInspection schema setting (scope ≠ none) readErrors (original.outcome args) := by
  cases houtcome : original.outcome args with
  | ok result =>
      rw [recordException_fst_eq_ok_iff, invokeAndInspect]
      simp only [run_bind_fst_eq_ok_iff, run_pure, Except.ok.injEq, invoke, houtcome,
        exists_eq_left', and_true]
      exact (exists_const PUnit).trans (inspectResult_fst_iff scope errorType _ _)
  | error exception =>
      have hinvoke : ((invokeAndInspect setting schema scope errorType readErrors original
          args).run w).1 = .error exception := by
        rw [invokeAndInspect, run_bind_of_error (e := exception) houtcome]
      rw [← hinvoke, recordException_fst_eq_iff, hinvoke, reported_iff]
      exact Iff.rfl

include horiginal

/-- The original is called once, whatever follows. -/
theorem invokeAndInspect_snd (scope : Option ScopeRef) (w : World A) :
    ((invokeAndInspect setting schema scope errorType readErrors original args).run w).2.calls =
        w.calls ++ [args] ∧
      ((invokeAndInspect setting schema scope errorType readErrors original args).run w).2.resolved =
        w.resolved := by
  rw [invokeAndInspect]
  cases houtcome : original.outcome args with
  | ok result =>
      rw [run_bind_of_ok (a := result) houtcome]
      have hrest : Within Quiet (do
          inspectResult setting schema scope errorType (readErrors result)
          pure result : Action A R) :=
        within_bind (within_inspectResult scope errorType (readErrors result))
          fun _ => within_pure result
      have hquiet := hrest ((invoke original args).run w).2
      exact ⟨hquiet.calls.trans (horiginal.calls args _),
        hquiet.resolved.trans (horiginal.resolved args _)⟩
  | error exception =>
      rw [run_bind_of_error (e := exception) houtcome]
      exact ⟨horiginal.calls args _, horiginal.resolved args _⟩

/-- The condition for a wrapper that inspects to be transparent, once its scope
has been created. -/
theorem transparent_callAndInspect_iff {create : Action A (Option ScopeRef)}
    (hopens : Opens create) (entry : World A) {w : World A} (hactive : w.active = entry.active)
    (hresolved : w.resolved = true) (hcalls : w.calls = []) {scope : Option ScopeRef}
    (hcreate : (create.run w).1 = .ok scope) :
    Transparent args original entry
        ((callAndInspect setting schema create errorType readErrors original args).run w) ↔
      SurvivesInspection schema setting (scope ≠ none) readErrors (original.outcome args) := by
  have hbody : ∀ scope, Within SameStack (recordException setting scope
      (invokeAndInspect setting schema scope errorType readErrors original args)) :=
    fun scope => within_recordException setting scope
      (within_bind (within_invoke horiginal args) fun result =>
        within_bind (Within.sameStack (within_inspectResult scope errorType (readErrors result)))
          fun _ => within_pure result)
  have hkeeps := (usingScope_active setting hopens hbody w).trans hactive
  have hrecorded := recordException_quiet setting scope
    (invokeAndInspect setting schema scope errorType readErrors original args) (create.run w).2
  obtain ⟨hinvoked, hstill⟩ := invokeAndInspect_snd setting schema errorType readErrors horiginal
    args scope (create.run w).2
  have hsame := @recordException_inspect_iff A Obj R setting schema errorType readErrors original
    args scope (create.run w).2
  have hrun : (callAndInspect setting schema create errorType readErrors original args).run w =
      (finallyDo (recordException setting scope
        (invokeAndInspect setting schema scope errorType readErrors original args))
        (dispose setting scope)).run (create.run w).2 := by
    rw [callAndInspect, usingScope, run_bind_of_ok hcreate]
  have hcall : ((callAndInspect setting schema create errorType readErrors original
      args).run w).2.calls = [args] := by
    rw [hrun, run_finallyDo, dispose_calls, hrecorded.calls, hinvoked, hopens.calls, hcalls]
    rfl
  constructor
  · rintro ⟨honce, -⟩
    rw [hrun, run_finallyDo] at honce
    refine hsame.mp (honce ?_).1
    rw [dispose_resolved, hrecorded.resolved, hstill]
    exact (hopens.resolved w).trans hresolved
  · intro h
    refine ⟨fun _ => ⟨?_, hcall⟩, hkeeps⟩
    rw [hrun, run_finallyDo]
    exact hsame.mpr h

end Inspection

section Transparency

variable {A Obj R α : Type} (setting : Setting) (schema : Schema Obj)

/-- The condition for an inspecting wrapper whose original is resolved: without
a scope only an exception of the original gets through unchanged. -/
def InspectsTransparently (reads : Except Exn α) (operationName : α → Text)
    (readErrors : R → Except Exn (Option Obj)) (entry : World A) (outcome : Except Exn R) :
    Prop :=
  if setting.isIntegrationEnabled then
    ∃ read, reads = .ok read ∧
      SurvivesInspection schema setting
        (startedSpan setting entry (some (operationName read)) none
          setting.tracer.defaultServiceName ≠ none) readErrors outcome
  else ∃ exception, outcome = .error exception

theorem opens_createAfter (reads : Except Exn α) (operationName : α → Text)
    {populate : α → ScopeRef → Action A PUnit}
    (hpopulate : ∀ read r, Within Quiet (populate read r)) :
    Opens (createAfter setting reads operationName populate) := by
  unfold createAfter
  split
  · exact opens_lift_bind fun read => opens_tryStartScope setting (hpopulate read)
  · exact opens_pure_none

theorem createAfter_fst (reads : Except Exn α) (operationName : α → Text)
    (populate : α → ScopeRef → Action A PUnit) (w : World A) :
    ((createAfter setting reads operationName populate).run w).1 =
      if setting.isIntegrationEnabled then
        reads.map fun read =>
          (startedSpan setting w (some (operationName read)) none
            setting.tracer.defaultServiceName).map fun _ => w.scopes.length
      else .ok none := by
  unfold createAfter
  split
  · cases reads with
    | error e => rfl
    | ok read => exact tryStartScope_fst (populate read) w
  · rfl

/-- The part of the wrappers after the delegate has been resolved. -/
theorem callAndInspect_createAfter_iff (reads : Except Exn α) (operationName : α → Text)
    {populate : α → ScopeRef → Action A PUnit}
    (hpopulate : ∀ read r, Within Quiet (populate read r)) (errorType : Text)
    (readErrors : R → Except Exn (Option Obj)) {original : Original A R}
    (horiginal : original.KeepsScopes) (args : A) (entry : World A) {w : World A}
    (hactive : w.active = entry.active) (hresolved : w.resolved = true) (hcalls : w.calls = []) :
    Transparent args original entry
        ((callAndInspect setting schema (createAfter setting reads operationName populate)
          errorType readErrors original args).run w) ↔
      InspectsTransparently setting schema reads operationName readErrors w (original.outcome args) := by
  have hopens := opens_createAfter setting reads operationName hpopulate
  have hcreate := createAfter_fst setting reads operationName populate w
  unfold InspectsTransparently
  split at hcreate
  · next henabled =>
      rw [if_pos henabled]
      cases reads with
      | error e =>
          simp only [reduceCtorEq, false_and, exists_false, iff_false]
          rw [callAndInspect, usingScope, run_bind_of_error hcreate]
          exact not_transparent_of_no_call ((hopens.resolved w).trans hresolved)
            ((hopens.calls w).trans hcalls)
      | ok read =>
          simp only [Except.ok.injEq, exists_eq_left']
          rw [transparent_callAndInspect_iff setting schema errorType readErrors horiginal args
            hopens entry hactive hresolved hcalls hcreate]
          simp only [ne_eq, Option.map_eq_none_iff]
  · next hdisabled =>
      rw [if_neg hdisabled, transparent_callAndInspect_iff setting schema errorType readErrors
        horiginal args hopens entry hactive hresolved hcalls hcreate]
      cases original.outcome args <;> simp [SurvivesInspection]

/-- The condition under which a call of `Validate` is transparent. -/
def ValidatesTransparently (original : Original (ValidateArguments Obj) (Option Obj))
    (args : ValidateArguments Obj) (entry : World (ValidateArguments Obj)) : Prop :=
  args.documentValidator ≠ none → schema.findTypes = .ok ⟨⟩ → schema.build = .ok ⟨⟩ →
    InspectsTransparently setting schema (readOrNull schema.originalQuery args.document)
      (fun _ => validateOperationName) (readOrNull schema.errors) entry (original.outcome args)

/-- The condition under which a call of `ExecuteAsync` is transparent. -/
def ExecutesTransparently (original : Original (ExecuteArguments Obj) (Option Obj))
    (args : ExecuteArguments Obj) (entry : World (ExecuteArguments Obj)) : Prop :=
  args.executionStrategy ≠ none → schema.findTypes = .ok ⟨⟩ → schema.build = .ok ⟨⟩ →
    InspectsTransparently setting schema (readOperation schema args.context)
      (fun (_, operationName, operationType) => operationText operationName operationType)
      (fun _ => readOrNull schema.errors args.context) entry (original.outcome args)

/-- What both wrappers do before they create a scope raises with the delegate unresolved. -/
theorem transparent_guarded_iff (instance? : Option Obj) (original : Original A R) (args : A)
    (m : Action A R) (process : Process.State) (scopes : List Scope)
    (active : Option (Fin scopes.length)) :
    Transparent args original (World.entry process scopes active)
        ((do
          if instance?.isNone then throw .argumentNull
          lift schema.findTypes
          resolve schema.build
          m : Action A R).run (World.entry process scopes active)) ↔
      (instance? ≠ none → schema.findTypes = .ok ⟨⟩ → schema.build = .ok ⟨⟩ →
        Transparent args original (World.entry process scopes active)
          (m.run { World.entry process scopes active with resolved := true })) := by
  cases instance? with
  | none =>
      simp only [Option.isNone_none, if_true, ne_eq, not_true, false_implies, iff_true]
      exact transparent_of_unresolved rfl Quiet.rfl
  | some object =>
      simp only [Option.isNone_some, Bool.false_eq_true, if_false, ne_eq, reduceCtorEq,
        not_false_eq_true, true_implies]
      cases hfind : schema.findTypes with
      | error e =>
          simp only [reduceCtorEq, false_implies, iff_true]
          exact transparent_of_unresolved rfl Quiet.rfl
      | ok _ =>
          simp only [true_implies]
          cases hbuild : schema.build with
          | error e =>
              simp only [reduceCtorEq, false_implies, iff_true]
              exact transparent_of_unresolved rfl Quiet.rfl
          | ok _ =>
              simp only [true_implies]
              exact Iff.rfl

theorem validate_transparent_iff
    (original : Original (ValidateArguments Obj) (Option Obj)) (horiginal : original.KeepsScopes)
    (args : ValidateArguments Obj)
    (process : Process.State) (scopes : List Scope) (active : Option (Fin scopes.length)) :
    Transparent args original (World.entry process scopes active)
        ((validate setting schema original args).run (World.entry process scopes active)) ↔
      ValidatesTransparently setting schema original args (World.entry process scopes active) := by
  unfold ValidatesTransparently
  refine (transparent_guarded_iff schema args.documentValidator original args _ process scopes
    active).trans ?_
  refine imp_congr_right fun _ => imp_congr_right fun _ => imp_congr_right fun _ => ?_
  exact callAndInspect_createAfter_iff setting schema _ _
    (fun source r => within_bind (within_setTag setting r _ _) fun _ =>
      within_setTag setting r _ _) _ _ horiginal args _ rfl rfl rfl

theorem executeAsync_transparent_iff
    (original : Original (ExecuteArguments Obj) (Option Obj)) (horiginal : original.KeepsScopes)
    (args : ExecuteArguments Obj)
    (process : Process.State) (scopes : List Scope) (active : Option (Fin scopes.length)) :
    Transparent args original (World.entry process scopes active)
        ((executeAsync setting schema original args).run (World.entry process scopes active)) ↔
      ExecutesTransparently setting schema original args (World.entry process scopes active) := by
  unfold ExecutesTransparently
  refine (transparent_guarded_iff schema args.executionStrategy original args _ process scopes
    active).trans ?_
  refine imp_congr_right fun _ => imp_congr_right fun _ => imp_congr_right fun _ => ?_
  exact callAndInspect_createAfter_iff setting schema _ _
    (fun _ r => within_bind (within_setTag setting r _ _) fun _ =>
      within_bind (within_setTag setting r _ _) fun _ =>
        within_bind (within_setTag setting r _ _) fun _ => within_setTag setting r _ _)
    _ _ horiginal args _ rfl rfl rfl

end Transparency

end SignalFxTracing.Integrations.GraphQL
