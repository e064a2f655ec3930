import SignalFxTracing.Integrations.Transparency

/-!
# The Kafka wrapper (`ProduceKafkaIntegrationHelper.cs`)

`Produce` starts its scope and injects the headers before it resolves the
delegate of the original, outside the block that disposes the scope.

## Implementation notes

`Client` lists the reads of properties of the client library and the calls on
its headers with their outcomes; a property that is not found reads as null.
-/

namespace SignalFxTracing.Integrations.Kafka

open Clr Lib Lib.Guarded Trace Propagation

namespace ConfluentKafka

def integrationName : Text := text "Confluent.Kafka"

def openTelemetrySystemName : Text := text "kafka"

end ConfluentKafka

/-- `SpanKinds.Producer`. -/
def producerKind : Text := text "producer"

/-- `ConfluentKafkaAnyPartitionSentinel`. -/
def anyPartitionSentinel : Int := -1

/-- Calls into the client library on objects of type `Obj`. -/
structure Client (Obj : Type) where
  build : Except Exn PUnit
  /-- `Topic` and `Partition` of a topic that is not a string. -/
  topicName : Obj → Except Exn (Option Text)
  partition : Obj → Except Exn (Option Obj)
  partitionNumber : Obj → Except Exn Int
  messageValue : Obj → Except Exn (Option Obj)
  producerName : Obj → Except Exn (Option Text)
  messageHeaders : Obj → Except Exn (Option Obj)
  /-- `LazyHeadersType.Value != null`. -/
  hasHeadersType : Bool
  /-- New headers, set as those of the message. -/
  createHeaders : Obj → Except Exn Obj
  /-- Set these headers, as the propagator does one by one. -/
  setHeaders : Obj → List (Text × Text) → Except Exn PUnit

inductive Topic (Obj : Type)
  | name (topicName : Text)
  | topicPartition (topic : Obj)

structure ProduceArguments (Obj : Type) where
  producer : Option Obj
  topic : Option (Topic Obj)
  message : Option Obj
  deliveryHandler : Option Obj

section Model

variable {A Obj : Type} (setting : Setting) (client : Client Obj)

/-- `KafkaHelper.GetPropertyValue` of an object that may be null. -/
def getPropertyValue {α : Type} (read : Obj → Except Exn (Option α)) (object : Option Obj) :
    Except Exn (Option α) :=
  match object with
  | none => .ok none
  | some object => read object

/-- `KafkaHelper.AlreadyInstrumented`. -/
def alreadyInstrumented (w : World A) : Bool :=
  match w.active.bind w.spanOf with
  | none => false
  | some (_, span) =>
      span.tags.lookup Tags.instrumentationName == some (some ConfluentKafka.integrationName)

/-- The name of the topic and the partition, as `CreateProduceScope` reads them. -/
def readTopic : Option (Topic Obj) → Except Exn (Option Text × Option Text)
  | none => .ok (none, none)
  | some (.name topicName) => .ok (some topicName, none)
  | some (.topicPartition topic) => do
      let topicName ← client.topicName topic
      match ← client.partition topic with
      | none => return (topicName, none)
      | some partition => do
          let partitionNumber ← client.partitionNumber partition
          if partitionNumber ≠ anyPartitionSentinel then
            return (topicName, some (text (toString partitionNumber)))
          else return (topicName, none)

/-- `OpenTelemetryProduceSpanName`. -/
def produceSpanName (topicName : Option Text) : Text :=
  if isNullOrEmpty topicName then text "send" else topicName.getD [] ++ text " " ++ text "send"

/-- A message without a value is a tombstone. -/
def addTombstone (message : Option Obj) (r : ScopeRef) : Action A PUnit :=
  if message.isSome then do
    let value ← lift (getPropertyValue client.messageValue message)
    if value.isNone then addTag r Tags.Kafka.tombstone (some (text "true")) else pure ⟨⟩
  else pure ⟨⟩

def addClientName (producer : Option Obj) (r : ScopeRef) : Action A PUnit := do
  let clientName ← lift (getPropertyValue client.producerName producer)
  if clientName.isSome then addTag r Tags.Kafka.clientName clientName else pure ⟨⟩

/-- The tags that `CreateProduceScopeImpl` sets and adds. -/
def populate (producer message : Option Obj) (topicName partitionValue : Option Text)
    (spanKind : Text) (r : ScopeRef) : Action A PUnit := do
  setTag setting r Tags.spanKind (some spanKind)
  setTag setting r Tags.Messaging.system (some ConfluentKafka.openTelemetrySystemName)
  setTag setting r Tags.Messaging.destination topicName
  setTag setting r Tags.instrumentationName (some ConfluentKafka.integrationName)
  match partitionValue with
  | none => pure ⟨⟩
  | some partitionValue => setTag setting r Tags.Kafka.partition (some partitionValue)
  addTombstone client message r
  addClientName client producer r

/-- `CreateProduceScope` and `CreateProduceScopeImpl`: only the second catches. -/
def createProduceScope (args : ProduceArguments Obj) (spanKind : Text) :
    Action A (Option ScopeRef) := do
  let (topicName, partitionValue) ← lift (readTopic client args.topic)
  tryStartScope (startActive setting (some (produceSpanName topicName)) none none)
    (populate setting client args.producer args.message topicName partitionValue spanKind)

/-- `CreateHeaders`, which catches every exception. -/
def createHeaders (message : Option Obj) : Option Obj :=
  match message with
  | none => none
  | some message =>
      if client.hasHeadersType then
        match client.createHeaders message with
        | .ok headers => some headers
        | .error _ => none
      else none

/-- The headers of the message or new ones. -/
def headersOrNew (message : Option Obj) : Except Exn (Option Obj) := do
  match ← getPropertyValue client.messageHeaders message with
  | some headers => return some headers
  | none => return createHeaders client message

/-- `InjectHeaders`; `scope.Span` of no scope raises. -/
def injectHeaders (message : Option Obj) (scope : Option ScopeRef) : Action A PUnit := do
  match ← lift (headersOrNew client message) with
  | none => pure ⟨⟩
  | some headers =>
      match scope with
      | none => throw .nullReference
      | some r => injectInto setting r (client.setHeaders headers)

/-- The scope of a call that is traced, with its headers injected. -/
def openScope (args : ProduceArguments Obj) : Action A (Option ScopeRef) := do
  if setting.isIntegrationEnabled && !alreadyInstrumented (← get) then do
    let scope ← createProduceScope setting client args producerKind
    injectHeaders setting client args.message scope
    pure scope
  else pure none

/-- `Produce`. -/
def produce (original : Original (ProduceArguments Obj) PUnit) (args : ProduceArguments Obj) :
    Action (ProduceArguments Obj) PUnit := do
  if args.producer.isNone then throw .argumentNull
  let scope ← openScope setting client args
  resolve client.build
  finallyDo (recordException setting scope (invoke original args)) (dispose setting scope)

end Model

section OpenScope

variable {A Obj : Type} (setting : Setting) (client : Client Obj)

/-- The span that `Produce` starts, if any, and the traces afterwards. -/
def producedSpan (w : World A) (topic : Option (Topic Obj)) : Option (Span × List TraceContext) :=
  if setting.isIntegrationEnabled && !alreadyInstrumented w then
    match readTopic client topic with
    | .error _ => none
    | .ok (topicName, _) => startedSpan setting w (some (produceSpanName topicName)) none none
  else none

/-- The message has headers or gets new ones, if it can, and they can be set. -/
def InjectsHeaders (message : Option Obj) (span : Span) (traces : List TraceContext) : Prop :=
  ∃ headers, headersOrNew client message = .ok headers ∧
    ∀ found, headers = some found →
      client.setHeaders found (headersOf setting traces span.context) = .ok ⟨⟩

section Populate

variable {R : World A → World A → Prop} [IsPreorder (World A) R] {r : ScopeRef}
variable (hset : ∀ key ∉ Tags.specialKeys, ∀ value, Within R (setTag setting r key value))
variable (hadd : ∀ key value, Within R (addTag r key value))

include hadd

theorem within_addTombstone (message : Option Obj) :
    Within R (addTombstone client message r) := by
  unfold addTombstone
  split
  · refine within_bind (within_lift _) fun value => ?_
    split
    · exact hadd _ _
    · exact within_pure _
  · exact within_pure _

theorem within_addClientName (producer : Option Obj) :
    Within R (addClientName client producer r) := by
  refine within_bind (within_lift _) fun clientName => ?_
  split
  · exact hadd _ _
  · exact within_pure _

include hset

/-- `populate` stays inside a relation that plain tags stay inside. -/
theorem within_populate (producer message : Option Obj) (topicName partitionValue : Option Text)
    (spanKind : Text) :
    Within R (populate setting client producer message topicName partitionValue spanKind r) := by
  refine within_bind (hset _ (by decide) _) fun _ => ?_
  refine within_bind (hset _ (by decide) _) fun _ => ?_
  refine within_bind (hset _ (by decide) _) fun _ => ?_
  refine within_bind (hset _ (by decide) _) fun _ => ?_
  have hrest : Within R (do
      addTombstone client message r
      addClientName client producer r : Action A PUnit) :=
    within_bind (within_addTombstone client hadd message) fun _ =>
      within_addClientName client hadd producer
  cases partitionValue with
  | none => exact hrest
  | some partitionValue => exact within_bind (hset _ (by decide) _) fun _ => hrest

end Populate

variable {setting client} {w : World A} {args : ProduceArguments Obj}

/-- Starting the scope of `Produce` without the headers. -/
theorem createProduceScope_of_ok {topicName partitionValue : Option Text}
    (htopic : readTopic client args.topic = .ok (topicName, partitionValue)) :
    createProduceScope setting client args producerKind = (tryStartScope
      (startActive setting (some (produceSpanName topicName)) none none)
      (populate setting client args.producer args.message topicName partitionValue producerKind) :
        Action A (Option ScopeRef)) := by
  rw [createProduceScope, htopic]
  rfl

theorem within_injectHeaders (message : Option Obj) (scope : Option ScopeRef) :
    Within Quiet (injectHeaders setting client message scope : Action A PUnit) := by
  refine within_bind (within_lift _) fun headers => ?_
  cases headers with
  | none => exact within_pure _
  | some headers =>
      cases scope with
      | none => exact within_throw _
      | some r => exact within_injectInto setting r _

theorem injectHeaders_fst_iff (setting : Setting) (client : Client Obj) {r : ScopeRef} {span : Span}
    {keys : List Text}
    (h : Shows w r span keys) (message : Option Obj) :
    ((injectHeaders setting client message (some r)).run w).1 = .ok ⟨⟩ ↔
      InjectsHeaders setting client message span w.process.traces := by
  unfold injectHeaders InjectsHeaders
  rw [run_bind_fst_eq_ok_iff]
  refine exists_congr fun headers => and_congr Iff.rfl ?_
  cases headers with
  | none => simp
  | some headers =>
      simp only [run_lift, injectInto_fst h, Option.some.injEq, forall_eq']

/-- Without a span to start, `openScope` leaves the scopes as they are. -/
theorem openScope_of_none (h : producedSpan setting client w args.topic = none) :
    Quiet w ((openScope setting client args).run w).2 ∧
      ∀ scope, ((openScope setting client args).run w).1 = .ok scope → scope = none := by
  unfold producedSpan at h
  rw [openScope, run_bind_of_ok (a := w) rfl, run_get]
  split at h
  · next htraced =>
      rw [if_pos htraced]
      cases htopic : readTopic client args.topic with
      | error e =>
          have hcreate : (createProduceScope setting client args producerKind).run w =
              (.error e, w) := by
            rw [createProduceScope, htopic, run_bind_of_error (e := e) rfl, run_lift]
          rw [run_bind_of_error (by rw [hcreate]), hcreate]
          exact ⟨Quiet.rfl, by simp⟩
      | ok topic =>
          rw [htopic] at h
          obtain ⟨hcreate, hquiet⟩ := tryStartScope_of_none
            (populate setting client args.producer args.message topic.1 topic.2 producerKind) h
          rw [createProduceScope_of_ok htopic, run_bind_of_ok hcreate]
          refine ⟨IsTrans.trans _ _ _ hquiet (within_bind (within_injectHeaders args.message none)
            (fun _ => within_pure none) _), fun scope hscope => ?_⟩
          obtain ⟨_, -, hreturned⟩ := run_bind_fst_eq_ok_iff.mp hscope
          exact (Except.ok.inj hreturned).symm
  · next htraced =>
      rw [if_neg htraced]
      refine ⟨Quiet.rfl, fun scope hscope => ?_⟩
      exact (Except.ok.inj hscope).symm

/-- Otherwise the new scope is active, and it is returned when the headers can be injected. -/
theorem openScope_of_some {span : Span} {traces : List TraceContext}
    (h : producedSpan setting client w args.topic = some (span, traces)) :
    (((openScope setting client args).run w).1 = .ok (some w.scopes.length) ∧
          InjectsHeaders setting client args.message span traces ∨
        (∃ e, ((openScope setting client args).run w).1 = .error e) ∧
          ¬ InjectsHeaders setting client args.message span traces) ∧
      ∃ t : World A, Quiet t ((openScope setting client args).run w).2 ∧
        t.scopes = w.scopes ++ [⟨w.active, w.process.spans.length, true⟩] ∧
        t.active = some w.scopes.length ∧ t.resolved = w.resolved ∧ t.calls = w.calls := by
  unfold producedSpan at h
  rw [openScope, run_bind_of_ok (a := w) rfl, run_get]
  split at h
  · next htraced =>
      rw [if_pos htraced]
      split at h
      · cases h
      · next topicName partitionValue htopic =>
          obtain ⟨t, hrun, hscopes, hactive, hresolved, hcalls, rfl, hshows⟩ :=
            tryStartScope_of_some (populate setting client args.producer args.message topicName
              partitionValue producerKind) h
          have hquiet : Within Quiet (populate setting client args.producer args.message topicName
              partitionValue producerKind w.scopes.length : Action A PUnit) :=
            within_populate setting client (fun key _ value => within_setTag setting _ key value)
              (fun key value => within_addTag _ key value) _ _ _ _ _
          have hkeeps : Within (KeepsShown w.scopes.length span) (populate setting client
              args.producer args.message topicName partitionValue producerKind w.scopes.length :
                Action A PUnit) :=
            within_populate setting client
              (fun key hkey value => within_setTag_keepsShown setting _ span hkey value)
              (fun key value => within_addTag_keepsShown _ span key value) _ _ _ _ _
          rw [createProduceScope_of_ok htopic, run_bind_of_ok (by rw [hrun]), hrun]
          have hinject := injectHeaders_fst_iff setting client
            ((hkeeps t).2 (hshows [])) args.message
          rw [(hkeeps t).1] at hinject
          refine ⟨?_, t, IsTrans.trans _ _ _ (hquiet t) (within_bind (within_injectHeaders
            args.message _) (fun _ => within_pure _) _), hscopes, hactive, hresolved, hcalls⟩
          cases houtcome : ((injectHeaders setting client args.message
              (some w.scopes.length)).run ((populate setting client args.producer args.message
                topicName partitionValue producerKind w.scopes.length).run t).2).1 with
          | ok _ =>
              left
              rw [run_bind_of_ok houtcome]
              exact ⟨rfl, hinject.mp houtcome⟩
          | error e =>
              right
              rw [run_bind_of_error houtcome]
              exact ⟨⟨e, rfl⟩, fun hinjects => by rw [hinject.mpr hinjects] at houtcome; cases houtcome⟩
  · cases h

end OpenScope

section Transparency

variable {Obj : Type} {A R : Type} (setting : Setting) (client : Client Obj)

/-- The call of the original in a scope that is disposed at the end. -/
theorem transparent_disposing_iff (scope : Option ScopeRef) {original : Original A R}
    (horiginal : original.KeepsScopes) (args : A) (entry : World A) {w : World A}
    (hresolved : w.resolved = true)
    (hcalls : w.calls = []) (hdisposed : ∀ w' : World A, SameStack w w' →
      (dispose setting scope w').active = entry.active) :
    Transparent args original entry
        ((finallyDo (recordException setting scope (invoke original args))
          (dispose setting scope)).run w) ↔
      Reported setting scope (original.outcome args) := by
  obtain ⟨hinvoked, hstill⟩ := recordException_invoke setting scope horiginal args w
  have hreported := recordException_fst_eq_iff setting scope (invoke original args) w
  rw [run_finallyDo]
  constructor
  · rintro ⟨honce, -⟩
    refine hreported.mp (honce ?_).1
    rw [dispose_resolved, hstill, hresolved]
  · intro h
    refine ⟨fun _ => ⟨hreported.mpr h, ?_⟩, ?_⟩
    · rw [dispose_calls, hinvoked, hcalls]
      rfl
    · exact hdisposed _ (within_recordException setting scope (within_invoke horiginal args) w)

/-- The condition under which a call of `Produce` is transparent. -/
def ProducesTransparently (original : Original (ProduceArguments Obj) PUnit)
    (args : ProduceArguments Obj) (entry : World (ProduceArguments Obj)) : Prop :=
  args.producer ≠ none → ∀ span traces,
    producedSpan setting client entry args.topic = some (span, traces) →
    InjectsHeaders setting client args.message span traces ∧ client.build = .ok ⟨⟩ ∧
      Describable setting (original.outcome args)

/-- A wrapper that leaves its scope active is not transparent. -/
theorem not_transparent_of_active {original : Original A R} {args : A}
    {process : Process.State} {scopes : List Scope} {active : Option (Fin scopes.length)}
    {after : Except Exn R × World A} (h : after.2.active = some scopes.length) :
    ¬ Transparent args original (World.entry process scopes active) after := by
  rintro ⟨-, hactive⟩
  rw [h] at hactive
  obtain ⟨i, -, hi⟩ := Option.map_eq_some_iff.mp hactive.symm
  exact absurd hi (Nat.ne_of_lt i.isLt)

/-- `Produce` from the resolution of the delegate on, when no span was started. -/
theorem resolve_untraced_transparent {original : Original A R}
    (horiginal : original.KeepsScopes) (args : A) (entry : World A) {w : World A}
    (hentry : entry.resolved = false) (hcalls : entry.calls = [])
    (hquiet : Quiet entry w) :
    Transparent args original entry
      ((resolve client.build >>= fun _ => finallyDo
        (recordException setting none (invoke original args)) (dispose setting none)).run w) := by
  cases hbuild : client.build with
  | error e => exact transparent_of_unresolved hentry hquiet
  | ok _ =>
      rw [run_bind_of_ok (a := ⟨⟩) rfl, resolve_ok_snd]
      refine (transparent_disposing_iff setting none (w := { w with resolved := true })
        horiginal args entry rfl (hquiet.calls.trans hcalls) fun w' hw' => ?_).mpr
          (reported_none setting _)
      exact hw'.active.trans hquiet.active

/-- `Produce` from the resolution of the delegate on, in the scope it opened. -/
theorem resolve_traced_transparent_iff {original : Original A R}
    (horiginal : original.KeepsScopes) (args : A)
    (process : Process.State) (scopes : List Scope) (active : Option (Fin scopes.length))
    {w : World A} {span : SpanRef} {finishOnClose : Bool}
    (hscopes : w.scopes = scopes ++ [⟨active.map Fin.val, span, finishOnClose⟩])
    (hactive : w.active = some scopes.length) (hcalls : w.calls = []) :
    Transparent args original (World.entry process scopes active)
        ((resolve client.build >>= fun _ => finallyDo
          (recordException setting (some scopes.length) (invoke original args))
          (dispose setting (some scopes.length))).run w) ↔
      client.build = .ok ⟨⟩ ∧ Describable setting (original.outcome args) := by
  cases hbuild : client.build with
  | error e =>
      simp only [reduceCtorEq, false_and, iff_false]
      exact not_transparent_of_active hactive
  | ok _ =>
      simp only [true_and]
      rw [run_bind_of_ok (a := ⟨⟩) rfl, resolve_ok_snd]
      refine transparent_disposing_iff setting (some scopes.length)
        (w := { w with resolved := true }) horiginal args _ rfl hcalls fun w' hw' => ?_
      refine dispose_active setting ⟨active.map Fin.val, span, finishOnClose⟩ ?_ ?_
      · obtain ⟨more, hmore⟩ := hw'.scopes
        rw [← hmore, hscopes]
        simp
      · rw [hw'.active, hactive]

theorem produce_transparent_iff (original : Original (ProduceArguments Obj) PUnit)
    (horiginal : original.KeepsScopes) (args : ProduceArguments Obj)
    (process : Process.State) (scopes : List Scope)
    (active : Option (Fin scopes.length)) :
    Transparent args original (World.entry process scopes active)
        ((produce setting client original args).run (World.entry process scopes active)) ↔
      ProducesTransparently setting client original args (World.entry process scopes active) := by
  unfold produce ProducesTransparently
  cases hproducer : args.producer with
  | none =>
      simp only [Option.isNone_none, if_true, ne_eq, not_true, false_implies, iff_true]
      exact transparent_of_unresolved rfl Quiet.rfl
  | some producer =>
      simp only [Option.isNone_some, Bool.false_eq_true, if_false, ne_eq, reduceCtorEq,
        not_false_eq_true, true_implies]
      cases hspan : producedSpan setting client (World.entry process scopes active) args.topic with
      | none =>
          simp only [reduceCtorEq, false_implies, implies_true, iff_true]
          obtain ⟨hquiet, hnone⟩ := openScope_of_none hspan
          cases houtcome : ((openScope setting client args).run
              (World.entry process scopes active)).1 with
          | error e =>
              rw [run_bind_of_error houtcome]
              exact transparent_of_unresolved rfl hquiet
          | ok scope =>
              rw [run_bind_of_ok houtcome, hnone scope houtcome]
              exact resolve_untraced_transparent setting client horiginal args _ rfl rfl hquiet
      | some started =>
          obtain ⟨span, traces⟩ := started
          have hcondition : (∀ span' traces', some (span, traces) = some (span', traces') →
              InjectsHeaders setting client args.message span' traces' ∧ client.build = .ok ⟨⟩ ∧
                Describable setting (original.outcome args)) ↔
              InjectsHeaders setting client args.message span traces ∧ client.build = .ok ⟨⟩ ∧
                Describable setting (original.outcome args) :=
            ⟨fun h => h span traces rfl, by rintro h _ _ ⟨⟩; exact h⟩
          rw [hcondition]
          obtain ⟨houtcome, t, hquiet, hscopes, hactive, -, hcalls⟩ := openScope_of_some hspan
          have hopen := hquiet.active.trans hactive
          rcases houtcome with ⟨hok, hinjects⟩ | ⟨⟨e, herror⟩, hraises⟩
          · simp only [hinjects, true_and]
            rw [run_bind_of_ok hok]
            exact resolve_traced_transparent_iff setting client horiginal args process scopes active
              (hquiet.scopes.trans hscopes) hopen (hquiet.calls.trans hcalls)
          · simp only [hraises, false_and, iff_false]
            rw [run_bind_of_error herror]
            exact not_transparent_of_active hopen

end Transparency

end SignalFxTracing.Integrations.Kafka
