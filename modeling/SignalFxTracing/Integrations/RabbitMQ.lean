import SignalFxTracing.Integrations.Transparency

/-!
# The RabbitMQ wrappers (`RabbitMQIntegration.cs`)

`BasicPublish` and `BasicDeliver`, each in the form for client versions before
6 and in the form for version 6, which differ in how the body is measured.
`CreateScope` catches what it raises; the steps between it and the call of the
original are not guarded.

## Implementation notes

`StartsWith` is read as an ordinal test. `Client` lists the calls into the
client library with their outcomes; the duck type of the message properties
reads them through the same calls.
-/

namespace SignalFxTracing.Integrations.RabbitMQ

open Clr Lib Lib.Guarded Trace Propagation

def integrationName : Text := text "RabbitMQ"

def operationName : Text := text "amqp.command"

def systemName : Text := text "rabbitmq"

def amqpBasicDeliverCommand : Text := text "basic.deliver"

def amqpBasicGetCommand : Text := text "basic.get"

def amqpBasicPublishCommand : Text := text "basic.publish"

/-- `DeliveryModeStrings`. -/
def deliveryModeStrings : List (Option Text) := [none, some (text "1"), some (text "2")]

/-- Calls into the client library on objects of type `Obj`. -/
structure Client (Obj : Type) where
  build : Except Exn PUnit
  tryDuckCast : Obj → Except Exn Bool
  isDeliveryModePresent : Obj → Except Exn Bool
  deliveryMode : Obj → Except Exn UInt8
  /-- `Headers != null`. -/
  hasHeaders : Obj → Except Exn Bool
  /-- `Headers = new Dictionary<string, object>()`. -/
  createHeaders : Obj → Except Exn PUnit
  /-- Set these headers of the message, as the propagator does one by one. -/
  setHeaders : Obj → List (Text × Text) → Except Exn PUnit
  /-- `Propagator.Extract` from the headers of the message. -/
  extract : Obj → Except Exn (Option SpanContext)
  /-- The length of a body of version 6 that can be read as `BodyStruct`. -/
  tryDuckCastBody : Obj → Except Exn (Option Int)

section Model

variable {A Obj R : Type} (setting : Setting) (client : Client Obj)

/-- `value.ToString(CultureInfo.InvariantCulture)`. -/
def decimal (value : Int) : Text := text (toString value)

/-- The name of the span, its kind and its routing key. -/
def describeCommand (command : Text) (exchange routingKey : Option Text) :
    Text × Text × Option Text :=
  let normalizedExchangeName :=
    if isNullOrEmpty exchange then text "<default>" else exchange.getD []
  let normalizedRoutingKey :=
    if isNullOrEmpty routingKey then some (text "<all>")
    else if (text "amq.gen-").isPrefixOf (routingKey.getD []) then some (text "<generated>")
    else routingKey
  if command = amqpBasicDeliverCommand ∨ command = amqpBasicGetCommand then
    (normalizedExchangeName ++ text " receive", text "consumer", normalizedRoutingKey)
  else if command = amqpBasicPublishCommand then
    (normalizedExchangeName ++ text " send", text "producer", normalizedRoutingKey)
  else (operationName ++ text ": " ++ command, text "client", routingKey)

/-- The tags that `CreateScope` adds, in order. -/
def scopeTags (command : Text) (exchange routingKey : Option Text) :
    List (Text × Option Text) :=
  let (_, spanKind, normalizedRoutingKey) := describeCommand command exchange routingKey
  [(Tags.instrumentationName, some integrationName), (Tags.spanKind, some spanKind),
    (Tags.Messaging.system, some systemName),
    (Tags.Messaging.destinationKind, some (text "queue")),
    (Tags.Messaging.destination,
      some (if isNullOrEmpty exchange then text "<default>" else exchange.getD [])),
    (operationName, some command)] ++
  (normalizedRoutingKey.map fun key => (Tags.RabbitMQ.routingKey, some key)).toList

/-- `CreateScope`: after an exception the scope is returned as far as it got. -/
def createScope (command : Text) (parentContext : Option SpanContext)
    (exchange routingKey : Option Text) : Action A (Option ScopeRef) :=
  if setting.isIntegrationEnabled then
    tryStartScope
      (startActive setting (describeCommand command exchange routingKey).1
        (parentContext.map Sum.inr) none)
      fun r => addTags r (scopeTags command exchange routingKey)
  else pure none

/-- `DeliveryModeStrings[0x3 & mode]`. -/
def deliveryModeString (mode : UInt8) : Except Exn (Option Text) :=
  match deliveryModeStrings[(0x3 &&& mode).toNat]? with
  | none => .error .indexOutOfRange
  | some value => .ok value

/-- The tag with the delivery mode of a message that has one. -/
def addDeliveryMode (r : ScopeRef) (properties : Obj) : Action A PUnit := do
  if ← lift (client.isDeliveryModePresent properties) then do
    let mode ← lift (client.deliveryMode properties)
    let value ← lift (deliveryModeString mode)
    addTag r Tags.RabbitMQ.deliveryMode value
  else pure ⟨⟩

/-- New headers for a message without headers. -/
def ensureHeaders (properties : Obj) : Action A PUnit := do
  if ← lift (client.hasHeaders properties) then pure ⟨⟩
  else lift (client.createHeaders properties)

/-- Tags and headers of a message that has properties. -/
def decorateProperties (r : ScopeRef) (properties : Obj) : Action A PUnit := do
  addDeliveryMode client r properties
  ensureHeaders client properties
  injectInto setting r (client.setHeaders properties)

/-- The steps of `BasicPublish` between `CreateScope` and the original. -/
def beforePublish (messageSize : Except Exn Text) (basicProperties : Option Obj) :
    Option ScopeRef → Action A PUnit
  | none => pure ⟨⟩
  | some r => do
      let messageSize ← lift messageSize
      addTag r Tags.Messaging.messagePayloadSizeBytes (some messageSize)
      match basicProperties with
      | none => pure ⟨⟩
      | some properties => do
          if ← lift (client.tryDuckCast properties) then
            decorateProperties setting client r properties
          else pure ⟨⟩

/-- The arguments of `_Private_BasicPublish`. -/
structure PublishArguments (Obj Body : Type) where
  model : Option Obj
  exchange : Option Text
  routingKey : Option Text
  mandatory : Bool
  basicProperties : Option Obj
  body : Option Body

/-- The body shared by both forms of `BasicPublish`. -/
def publish {Body : Type} (messageSize : Option Body → Except Exn Text)
    (original : Original (PublishArguments Obj Body) R) (args : PublishArguments Obj Body) :
    Action (PublishArguments Obj Body) R := do
  if args.model.isNone then throw .argumentNull
  resolve client.build
  callInScope setting
    (createScope setting amqpBasicPublishCommand none args.exchange args.routingKey)
    (beforePublish setting client (messageSize args.body) args.basicProperties)
    original args

/-- `body?.Length`. -/
def bytesLength (body : Option (List UInt8)) : Text := decimal (body.elim 0 fun b => b.length)

/-- The length of a body of version 6, when there is one. -/
def structLength (body : Option Obj) : Except Exn (Option Int) :=
  match body with
  | none => .ok none
  | some body => client.tryDuckCastBody body

def basicPublish (original : Original (PublishArguments Obj (List UInt8)) PUnit) :=
  publish setting client (fun body => .ok (bytesLength body)) original

def basicPublishV6 (original : Original (PublishArguments Obj Obj) PUnit) :=
  publish setting client
    (fun body => (structLength client body).map fun length => decimal (length.getD 0)) original

/-- The arguments of `HandleBasicDeliver`. -/
structure DeliverArguments (Obj Body : Type) where
  model : Option Obj
  consumerTag : Option Text
  deliveryTag : UInt64
  redelivered : Bool
  exchange : Option Text
  routingKey : Option Text
  basicProperties : Option Obj
  body : Option Body

/-- The context of the message; an exception of `Extract` is logged. -/
def propagatedContext (properties : Obj) : Action A (Option SpanContext) := do
  if ← lift (client.hasHeaders properties) then
    tryCatch (lift (client.extract properties)) fun _ => pure none
  else pure none

/-- `scope?.Span.Tags.Add` of the size of the message, when there is one. -/
def beforeDeliver (messageSize : Except Exn (Option Text)) (scope : Option ScopeRef) :
    Action A PUnit := do
  match ← lift messageSize with
  | none => pure ⟨⟩
  | some messageSize =>
      match scope with
      | none => pure ⟨⟩
      | some r => addTag r Tags.Messaging.messagePayloadSizeBytes (some messageSize)

/-- The body shared by both forms of `BasicDeliver`. -/
def deliver {Body : Type} (messageSize : Option Body → Except Exn (Option Text))
    (original : Original (DeliverArguments Obj Body) R) (args : DeliverArguments Obj Body) :
    Action (DeliverArguments Obj Body) R := do
  if args.model.isNone then throw .argumentNull
  resolve client.build
  match args.basicProperties with
  | none => throw .duckTypeTargetObjectInstanceIsNull
  | some properties => do
      if ← lift (client.tryDuckCast properties) then
        let context ← propagatedContext client properties
        callInScope setting
          (createScope setting amqpBasicDeliverCommand context args.exchange args.routingKey)
          (beforeDeliver (messageSize args.body)) original args
      else invoke original args

def basicDeliver (original : Original (DeliverArguments Obj (List UInt8)) PUnit) :=
  deliver setting client (fun body => .ok (some (bytesLength body))) original

def basicDeliverV6 (original : Original (DeliverArguments Obj Obj) PUnit) :=
  deliver setting client
    (fun body => (structLength client body).map (Option.map decimal)) original

end Model

section CreateScope

variable {A : Type} (setting : Setting)

/-- The span that `CreateScope` starts, if any, and the traces afterwards. -/
def createdSpan (w : World A) (command : Text) (parentContext : Option SpanContext)
    (exchange routingKey : Option Text) : Option (Span × List TraceContext) :=
  if setting.isIntegrationEnabled then
    startedSpan setting w (describeCommand command exchange routingKey).1
      (parentContext.map Sum.inr) none
  else none

/-- The keys that the wrappers add after `CreateScope`. -/
def wrapperKeys : List Text := [Tags.Messaging.messagePayloadSizeBytes, Tags.RabbitMQ.deliveryMode]

theorem scopeTags_disjoint (command : Text) (exchange routingKey : Option Text) :
    ∀ tag ∈ scopeTags command exchange routingKey, tag.1 ∉ wrapperKeys := by
  have hkeys : ∀ key ∈ [Tags.instrumentationName, Tags.spanKind, Tags.Messaging.system,
      Tags.Messaging.destinationKind, Tags.Messaging.destination, operationName, Tags.RabbitMQ.routingKey],
      key ∉ wrapperKeys := by decide
  intro tag htag
  refine hkeys tag.1 ?_
  simp only [scopeTags, List.mem_append, List.mem_cons, List.not_mem_nil, or_false,
    Option.mem_toList, Option.map_eq_some_iff] at htag
  rcases htag with (rfl | rfl | rfl | rfl | rfl | rfl) | ⟨key, -, rfl⟩ <;> simp

variable {setting} {w : World A} {command : Text} {parentContext : Option SpanContext}
variable {exchange routingKey : Option Text}

theorem createScope_of_none (h : createdSpan setting w command parentContext exchange
    routingKey = none) :
    ((createScope setting command parentContext exchange routingKey).run w).1 = .ok none := by
  unfold createScope
  split
  · next henabled =>
      rw [createdSpan, if_pos henabled] at h
      exact (tryStartScope_of_none _ h).1
  · rfl

/-- The scope is returned however many of its tags could be added. -/
theorem createScope_of_some {span : Span} {traces : List TraceContext}
    (h : createdSpan setting w command parentContext exchange routingKey =
      some (span, traces)) :
    ∃ w', (createScope setting command parentContext exchange routingKey).run w =
        (.ok (some w.scopes.length), w') ∧
      w'.process.traces = traces ∧ Shows w' w.scopes.length span wrapperKeys := by
  unfold createdSpan at h
  split at h
  · next henabled =>
      obtain ⟨t, hrun, -, -, -, -, htraces, hshows⟩ := tryStartScope_of_some
        (fun r => addTags r (scopeTags command exchange routingKey)) h
      refine ⟨_, by rw [createScope, if_pos henabled, hrun],
        (addTags_traces _ _ t).trans htraces, ?_⟩
      exact shows_addTags (scopeTags_disjoint command exchange routingKey) (hshows wrapperKeys)
  · cases h

theorem opens_createScope :
    Opens (createScope setting command parentContext exchange routingKey : Action A _) := by
  unfold createScope
  split
  · exact opens_tryStartScope setting fun r => within_addTags r _
  · exact opens_pure_none

end CreateScope

section Publish

variable {A Obj R : Type} (setting : Setting) (client : Client Obj)

/-- The delivery mode of the message can be tagged. -/
def TagsDeliveryMode (span : Span) (properties : Obj) : Prop :=
  ∃ present, client.isDeliveryModePresent properties = .ok present ∧
    (present = true → ∃ mode, client.deliveryMode properties = .ok mode ∧
      0x3 &&& mode ≠ 3 ∧ Tags.RabbitMQ.deliveryMode ∉ span.tags)

/-- The message has headers or can be given headers. -/
def HasOrGetsHeaders (properties : Obj) : Prop :=
  ∃ has, client.hasHeaders properties = .ok has ∧
    (has = false → client.createHeaders properties = .ok ⟨⟩)

/-- Everything `BasicPublish` does to a message with these properties succeeds. -/
def DecoratesProperties (span : Span) (traces : List TraceContext) (properties : Obj) : Prop :=
  TagsDeliveryMode client span properties ∧ HasOrGetsHeaders client properties ∧
    client.setHeaders properties (headersOf setting traces span.context) = .ok ⟨⟩

/-- The two low bits of the mode choose the text; there is none for 3. -/
theorem deliveryModeString_cases (mode : UInt8) :
    0x3 &&& mode = 0 ∧ deliveryModeString mode = .ok none ∨
      0x3 &&& mode = 1 ∧ deliveryModeString mode = .ok (some (text "1")) ∨
      0x3 &&& mode = 2 ∧ deliveryModeString mode = .ok (some (text "2")) ∨
      0x3 &&& mode = 3 ∧ deliveryModeString mode = .error .indexOutOfRange := by
  have hlt : (0x3 &&& mode).toNat ≤ 3 := by
    rw [UInt8.toNat_and]
    exact Nat.and_le_left
  unfold deliveryModeString
  simp only [← UInt8.toNat_inj]
  generalize (0x3 &&& mode).toNat = n at hlt
  have hcases : n = 0 ∨ n = 1 ∨ n = 2 ∨ n = 3 := by omega
  rcases hcases with rfl | rfl | rfl | rfl <;> simp [deliveryModeStrings]

theorem deliveryModeString_eq_ok_iff (mode : UInt8) :
    (∃ value, deliveryModeString mode = .ok value) ↔ 0x3 &&& mode ≠ 3 := by
  obtain ⟨hmode, htext⟩ | ⟨hmode, htext⟩ | ⟨hmode, htext⟩ | ⟨hmode, htext⟩ :=
    deliveryModeString_cases mode <;> simp [hmode, htext]

/-- The text for the modes whose two low bits are clear is null. -/
theorem deliveryModeString_eq_null_iff (mode : UInt8) :
    deliveryModeString mode = .ok none ↔ 0x3 &&& mode = 0 := by
  obtain ⟨hmode, htext⟩ | ⟨hmode, htext⟩ | ⟨hmode, htext⟩ | ⟨hmode, htext⟩ :=
    deliveryModeString_cases mode <;> simp [hmode, htext]

variable {setting client} {w : World A} {r : ScopeRef} {span : Span}

theorem addDeliveryMode_fst_iff (h : Shows w r span [Tags.RabbitMQ.deliveryMode]) (properties : Obj) :
    ((addDeliveryMode client r properties : Action A PUnit).run w).1 = .ok ⟨⟩ ↔
      TagsDeliveryMode client span properties := by
  unfold addDeliveryMode TagsDeliveryMode
  simp only [run_bind_fst_eq_ok_iff, run_lift]
  refine exists_congr fun present => and_congr_right fun _ => ?_
  cases present with
  | false => simp
  | true =>
      simp only [if_true, run_bind_fst_eq_ok_iff, run_lift, true_implies]
      refine exists_congr fun mode => and_congr_right fun _ => ?_
      simp only [addTag_fst h (List.mem_singleton.mpr rfl), ite_eq_right_iff, reduceCtorEq,
        imp_false, exists_and_right, deliveryModeString_eq_ok_iff]

theorem ensureHeaders_fst_iff (properties : Obj) :
    ((ensureHeaders client properties : Action A PUnit).run w).1 = .ok ⟨⟩ ↔
      HasOrGetsHeaders client properties := by
  unfold ensureHeaders HasOrGetsHeaders
  simp only [run_bind_fst_eq_ok_iff, run_lift]
  refine exists_congr fun has => and_congr_right fun _ => ?_
  cases has <;> simp

theorem ensureHeaders_snd (properties : Obj) :
    ((ensureHeaders client properties : Action A PUnit).run w).2 = w := by
  unfold ensureHeaders
  rw [run_bind]
  simp only [run_lift]
  cases client.hasHeaders properties with
  | error e => rfl
  | ok has => cases has <;> rfl

theorem addDeliveryMode_keepsShown (client : Client Obj) (r : ScopeRef) (span : Span)
    (properties : Obj) :
    Within (KeepsShown r span) (addDeliveryMode client r properties : Action A PUnit) := by
  refine within_bind (within_lift _) fun present => ?_
  cases present with
  | false => exact within_pure _
  | true =>
      refine within_bind (within_lift _) fun mode => within_bind (within_lift _) fun value => ?_
      exact within_addTag_keepsShown r span _ value

theorem decorateProperties_fst_iff (h : Shows w r span [Tags.RabbitMQ.deliveryMode]) (properties : Obj) :
    ((decorateProperties setting client r properties : Action A PUnit).run w).1 = .ok ⟨⟩ ↔
      DecoratesProperties setting client span w.process.traces properties := by
  unfold decorateProperties DecoratesProperties
  obtain ⟨htraces, hshows⟩ := addDeliveryMode_keepsShown client r span properties w
  rw [run_bind_fst_eq_ok_iff]
  simp only [run_bind_fst_eq_ok_iff, ensureHeaders_snd]
  rw [← addDeliveryMode_fst_iff h]
  constructor
  · rintro ⟨_, hmode, _, hheaders, hinject⟩
    rw [injectInto_fst (hshows (h.subset (List.nil_subset _))), htraces] at hinject
    exact ⟨hmode, (ensureHeaders_fst_iff properties).mp hheaders, hinject⟩
  · rintro ⟨hmode, hheaders, hset⟩
    refine ⟨⟨⟩, hmode, ⟨⟩, (ensureHeaders_fst_iff properties).mpr hheaders, ?_⟩
    rw [injectInto_fst (hshows (h.subset (List.nil_subset _))), htraces]
    exact hset

/-- The steps before the call of `BasicPublish` succeed. -/
def PreparesPublish (setting : Setting) (client : Client Obj) (messageSize : Except Exn Text)
    (basicProperties : Option Obj) (span : Span) (traces : List TraceContext) : Prop :=
  (∃ size, messageSize = .ok size) ∧ Tags.Messaging.messagePayloadSizeBytes ∉ span.tags ∧
    ∀ properties, basicProperties = some properties →
      ∃ castable, client.tryDuckCast properties = .ok castable ∧
        (castable = true → DecoratesProperties setting client span traces properties)

theorem beforePublish_fst_iff (h : Shows w r span wrapperKeys) (messageSize : Except Exn Text)
    (basicProperties : Option Obj) :
    ((beforePublish setting client messageSize basicProperties (some r) :
        Action A PUnit).run w).1 = .ok ⟨⟩ ↔
      PreparesPublish setting client messageSize basicProperties span w.process.traces := by
  have hpayload : Tags.Messaging.messagePayloadSizeBytes ∈ wrapperKeys := by decide
  have hother : Tags.Messaging.messagePayloadSizeBytes ∉ [Tags.RabbitMQ.deliveryMode] := by decide
  unfold beforePublish PreparesPublish
  simp only [run_bind_fst_eq_ok_iff, run_lift, addTag_fst h hpayload, ite_eq_right_iff,
    reduceCtorEq, imp_false, exists_and_left]
  rw [← exists_and_right]
  refine exists_congr fun size => ?_
  refine and_congr_right fun _ => ?_
  constructor
  · rintro ⟨hfree, _, hrest⟩
    refine ⟨hfree, fun properties hproperties => ?_⟩
    rw [hproperties] at hrest
    simp only [run_bind_fst_eq_ok_iff, run_lift] at hrest
    obtain ⟨castable, hcast, hrest⟩ := hrest
    refine ⟨castable, hcast, fun htrue => ?_⟩
    rw [htrue, if_pos rfl, decorateProperties_fst_iff (shows_addTag
      (h.subset (by decide)) hother _), addTag_traces] at hrest
    exact hrest
  · rintro ⟨hfree, hproperties⟩
    refine ⟨hfree, ⟨⟩, ?_⟩
    cases basicProperties with
    | none => rfl
    | some properties =>
        obtain ⟨castable, hcast, hdecorate⟩ := hproperties properties rfl
        simp only [run_bind_fst_eq_ok_iff, run_lift]
        refine ⟨castable, hcast, ?_⟩
        cases castable with
        | false => rfl
        | true =>
            rw [if_pos rfl, decorateProperties_fst_iff (shows_addTag
              (h.subset (by decide)) hother _), addTag_traces]
            exact hdecorate rfl

theorem within_beforePublish (messageSize : Except Exn Text) (basicProperties : Option Obj)
    (scope : Option ScopeRef) :
    Within Quiet (beforePublish setting client messageSize basicProperties scope :
      Action A PUnit) := by
  cases scope with
  | none => exact within_pure _
  | some r =>
      refine within_bind (within_lift _) fun size => within_bind (within_addTag r _ _) fun _ => ?_
      cases basicProperties with
      | none => exact within_pure _
      | some properties =>
          refine within_bind (within_lift _) fun castable => ?_
          cases castable with
          | false => exact within_pure _
          | true =>
              refine within_bind ?_ fun _ => within_bind ?_ fun _ =>
                within_injectInto setting r _
              · refine within_bind (within_lift _) fun present => ?_
                cases present with
                | false => exact within_pure _
                | true =>
                    exact within_bind (within_lift _) fun mode =>
                      within_bind (within_lift _) fun value => within_addTag r _ value
              · refine within_bind (within_lift _) fun has => ?_
                cases has with
                | false => exact within_lift _
                | true => exact within_pure _

end Publish

section Transparency

variable {Obj Body R : Type} (setting : Setting) (client : Client Obj)

/-- The condition under which a call of `BasicPublish` is transparent. -/
def PublishesTransparently (messageSize : Option Body → Except Exn Text)
    (original : Original (PublishArguments Obj Body) R) (args : PublishArguments Obj Body)
    (entry : World (PublishArguments Obj Body)) : Prop :=
  args.model ≠ none → client.build = .ok ⟨⟩ → ∀ span traces,
    createdSpan setting entry amqpBasicPublishCommand none args.exchange args.routingKey =
      some (span, traces) →
    PreparesPublish setting client (messageSize args.body) args.basicProperties span traces ∧
      Describable setting (original.outcome args)

/-- The part of `BasicPublish` after the delegate has been resolved. -/
theorem callInScope_publish_iff (messageSize : Except Exn Text) (basicProperties : Option Obj)
    (exchange routingKey : Option Text) {A : Type} {original : Original A R}
    (horiginal : original.KeepsScopes) (args : A) (entry : World A) {w : World A}
    (hactive : w.active = entry.active) (hresolved : w.resolved = true) (hcalls : w.calls = []) :
    Transparent args original entry
        ((callInScope setting
          (createScope setting amqpBasicPublishCommand none exchange routingKey)
          (beforePublish setting client messageSize basicProperties) original args).run w) ↔
      ∀ span traces,
        createdSpan setting w amqpBasicPublishCommand none exchange routingKey =
          some (span, traces) →
        PreparesPublish setting client messageSize basicProperties span traces ∧
          Describable setting (original.outcome args) := by
  cases hstarted : createdSpan setting w amqpBasicPublishCommand none exchange routingKey with
  | none =>
      rw [transparent_callInScope_iff _ horiginal args opens_createScope
        (fun scope => within_beforePublish _ _ scope) entry hactive hresolved hcalls
        (createScope_of_none hstarted)]
      simp [beforePublish]
  | some started =>
      obtain ⟨span, traces⟩ := started
      obtain ⟨w', hrun, rfl, hshows⟩ := createScope_of_some hstarted
      rw [transparent_callInScope_iff _ horiginal args opens_createScope
        (fun scope => within_beforePublish _ _ scope) entry hactive hresolved hcalls
        (by rw [hrun]), hrun, beforePublish_fst_iff hshows, reported_some]
      constructor
      · rintro h _ _ ⟨⟩
        exact h
      · exact fun h => h _ _ rfl

theorem publish_transparent_iff (messageSize : Option Body → Except Exn Text)
    (original : Original (PublishArguments Obj Body) R) (horiginal : original.KeepsScopes)
    (args : PublishArguments Obj Body)
    (process : Process.State) (scopes : List Scope) (active : Option (Fin scopes.length)) :
    Transparent args original (World.entry process scopes active)
        ((publish setting client messageSize original args).run
          (World.entry process scopes active)) ↔
      PublishesTransparently setting client messageSize original args
        (World.entry process scopes active) := by
  unfold publish PublishesTransparently
  cases hmodel : args.model with
  | none =>
      simp only [Option.isNone_none, if_true, ne_eq, not_true, false_implies, iff_true]
      exact transparent_of_unresolved rfl Quiet.rfl
  | some model =>
      simp only [Option.isNone_some, Bool.false_eq_true, if_false, ne_eq, reduceCtorEq,
        not_false_eq_true, true_implies]
      cases hbuild : client.build with
      | error e =>
          simp only [reduceCtorEq, false_implies, iff_true]
          rw [run_bind_of_error (e := e) rfl]
          exact transparent_of_unresolved rfl Quiet.rfl
      | ok _ =>
          simp only [true_implies]
          rw [run_bind_of_ok (a := ⟨⟩) rfl, resolve_ok_snd]
          exact callInScope_publish_iff setting client _ _ _ _ horiginal args
            (World.entry process scopes active) rfl rfl rfl

/-- The context that a message with headers brings. -/
def messageContext (properties : Obj) (has : Bool) : Option SpanContext :=
  if has then
    match client.extract properties with
    | .ok context => context
    | .error _ => none
  else none

/-- The condition under which a call of `BasicDeliver` is transparent. -/
def DeliversTransparently (messageSize : Option Body → Except Exn (Option Text))
    (original : Original (DeliverArguments Obj Body) R) (args : DeliverArguments Obj Body)
    (entry : World (DeliverArguments Obj Body)) : Prop :=
  args.model ≠ none → client.build = .ok ⟨⟩ →
  ∃ properties castable, args.basicProperties = some properties ∧
    client.tryDuckCast properties = .ok castable ∧
    (castable = true → ∃ has size, client.hasHeaders properties = .ok has ∧
      messageSize args.body = .ok size ∧ ∀ span traces,
        createdSpan setting entry amqpBasicDeliverCommand
          (messageContext client properties has) args.exchange args.routingKey =
            some (span, traces) →
        (size ≠ none → Tags.Messaging.messagePayloadSizeBytes ∉ span.tags) ∧
          Describable setting (original.outcome args))

theorem within_beforeDeliver {A : Type} (messageSize : Except Exn (Option Text))
    (scope : Option ScopeRef) :
    Within Quiet (beforeDeliver messageSize scope : Action A PUnit) := by
  refine within_bind (within_lift _) fun size => ?_
  cases size with
  | none => exact within_pure _
  | some size =>
      cases scope with
      | none => exact within_pure _
      | some r => exact within_addTag r _ _

/-- The size of the message can be tagged. -/
theorem beforeDeliver_fst_iff {A : Type} {w : World A} {r : ScopeRef} {span : Span}
    (h : Shows w r span wrapperKeys) (messageSize : Except Exn (Option Text)) :
    ((beforeDeliver messageSize (some r) : Action A PUnit).run w).1 = .ok ⟨⟩ ↔
      ∃ size, messageSize = .ok size ∧
        (size ≠ none → Tags.Messaging.messagePayloadSizeBytes ∉ span.tags) := by
  have hpayload : Tags.Messaging.messagePayloadSizeBytes ∈ wrapperKeys := by decide
  unfold beforeDeliver
  simp only [run_bind_fst_eq_ok_iff, run_lift]
  refine exists_congr fun size => and_congr_right fun _ => ?_
  cases size with
  | none => simp
  | some size =>
      simp only [addTag_fst h hpayload,
        ite_eq_right_iff, reduceCtorEq, imp_false, ne_eq, not_false_eq_true, true_implies]

theorem beforeDeliver_none_fst_iff {A : Type} (w : World A)
    (messageSize : Except Exn (Option Text)) :
    ((beforeDeliver messageSize none : Action A PUnit).run w).1 = .ok ⟨⟩ ↔
      ∃ size, messageSize = .ok size := by
  unfold beforeDeliver
  simp only [run_bind_fst_eq_ok_iff, run_lift]
  refine exists_congr fun size => and_iff_left ?_
  cases size <;> rfl

/-- The part of `BasicDeliver` after the context of the message is known. -/
theorem callInScope_deliver_iff (messageSize : Except Exn (Option Text))
    (context : Option SpanContext) (exchange routingKey : Option Text) {A : Type}
    {original : Original A R} (horiginal : original.KeepsScopes) (args : A) (entry : World A)
    {w : World A} (hactive : w.active = entry.active) (hresolved : w.resolved = true)
    (hcalls : w.calls = []) :
    Transparent args original entry
        ((callInScope setting
          (createScope setting amqpBasicDeliverCommand context exchange routingKey)
          (beforeDeliver messageSize) original args).run w) ↔
      ∃ size, messageSize = .ok size ∧ ∀ span traces,
        createdSpan setting w amqpBasicDeliverCommand context exchange routingKey =
          some (span, traces) →
        (size ≠ none → Tags.Messaging.messagePayloadSizeBytes ∉ span.tags) ∧
          Describable setting (original.outcome args) := by
  cases hstarted : createdSpan setting w amqpBasicDeliverCommand context exchange
      routingKey with
  | none =>
      rw [transparent_callInScope_iff _ horiginal args opens_createScope
        (fun scope => within_beforeDeliver _ scope) entry hactive hresolved hcalls
        (createScope_of_none hstarted), beforeDeliver_none_fst_iff]
      simp
  | some started =>
      obtain ⟨span, traces⟩ := started
      obtain ⟨w', hrun, rfl, hshows⟩ := createScope_of_some hstarted
      rw [transparent_callInScope_iff _ horiginal args opens_createScope
        (fun scope => within_beforeDeliver _ scope) entry hactive hresolved hcalls
        (by rw [hrun]), hrun, beforeDeliver_fst_iff hshows, reported_some]
      constructor
      · rintro ⟨⟨size, hsize, hfree⟩, hreport⟩
        refine ⟨size, hsize, ?_⟩
        rintro _ _ ⟨⟩
        exact ⟨hfree, hreport⟩
      · rintro ⟨size, hsize, h⟩
        exact ⟨⟨size, hsize, (h _ _ rfl).1⟩, (h _ _ rfl).2⟩

/-- Reading the context of a message raises only where its headers do. -/
theorem propagatedContext_run {A : Type} (properties : Obj) {has : Bool}
    (h : client.hasHeaders properties = .ok has) (w : World A) :
    (propagatedContext client properties : Action A _).run w =
      (.ok (messageContext client properties has), w) := by
  unfold propagatedContext messageContext
  rw [run_bind_of_ok (a := has) h, run_lift]
  cases has with
  | false => rfl
  | true =>
      simp only [if_true]
      rw [run_tryCatch, run_lift]
      cases client.extract properties <;> rfl

/-- The part of `BasicDeliver` for a message whose properties can be read. -/
theorem propagated_deliver_iff (messageSize : Except Exn (Option Text)) (properties : Obj)
    (exchange routingKey : Option Text) {A : Type} {original : Original A R}
    (horiginal : original.KeepsScopes) (args : A) (entry : World A) {w : World A}
    (hactive : w.active = entry.active) (hresolved : w.resolved = true) (hcalls : w.calls = []) :
    Transparent args original entry
        ((propagatedContext client properties >>= fun context =>
          callInScope setting
            (createScope setting amqpBasicDeliverCommand context exchange routingKey)
            (beforeDeliver messageSize) original args).run w) ↔
      ∃ has size, client.hasHeaders properties = .ok has ∧ messageSize = .ok size ∧
        ∀ span traces,
          createdSpan setting w amqpBasicDeliverCommand (messageContext client properties has)
            exchange routingKey = some (span, traces) →
          (size ≠ none → Tags.Messaging.messagePayloadSizeBytes ∉ span.tags) ∧
            Describable setting (original.outcome args) := by
  cases hhas : client.hasHeaders properties with
  | error e =>
      have hcontext : (propagatedContext client properties : Action A _).run w =
          (.error e, w) := by
        rw [propagatedContext, run_bind_of_error (e := e) hhas, run_lift]
      rw [run_bind_of_error (e := e) (by rw [hcontext]), hcontext]
      simp only [reduceCtorEq, false_and, exists_false, iff_false]
      exact not_transparent_of_no_call hresolved hcalls
  | ok has =>
      have hcontext := propagatedContext_run client properties hhas w
      rw [run_bind_of_ok (by rw [hcontext]), hcontext,
        callInScope_deliver_iff setting messageSize _ _ _ horiginal args entry hactive hresolved
          hcalls]
      simp only [Except.ok.injEq, exists_and_left, exists_eq_left']

theorem deliver_transparent_iff (messageSize : Option Body → Except Exn (Option Text))
    (original : Original (DeliverArguments Obj Body) R) (horiginal : original.KeepsScopes)
    (args : DeliverArguments Obj Body)
    (process : Process.State) (scopes : List Scope) (active : Option (Fin scopes.length)) :
    Transparent args original (World.entry process scopes active)
        ((deliver setting client messageSize original args).run
          (World.entry process scopes active)) ↔
      DeliversTransparently setting client messageSize original args
        (World.entry process scopes active) := by
  unfold deliver DeliversTransparently
  cases hmodel : args.model with
  | none =>
      simp only [Option.isNone_none, if_true, ne_eq, not_true, false_implies, iff_true]
      exact transparent_of_unresolved rfl Quiet.rfl
  | some model =>
      simp only [Option.isNone_some, Bool.false_eq_true, if_false, ne_eq, reduceCtorEq,
        not_false_eq_true, true_implies]
      cases hbuild : client.build with
      | error e =>
          simp only [reduceCtorEq, false_implies, iff_true]
          rw [run_bind_of_error (e := e) rfl]
          exact transparent_of_unresolved rfl Quiet.rfl
      | ok _ =>
          simp only [true_implies]
          rw [run_bind_of_ok (a := ⟨⟩) rfl, resolve_ok_snd]
          cases hproperties : args.basicProperties with
          | none =>
              simp only [reduceCtorEq, false_and, exists_false, iff_false]
              exact not_transparent_of_no_call rfl rfl
          | some properties =>
              simp only [Option.some.injEq, exists_and_left, exists_eq_left']
              cases hcast : client.tryDuckCast properties with
              | error e =>
                  rw [run_bind_of_error (e := e) rfl]
                  simp only [reduceCtorEq, false_and, exists_false, iff_false]
                  exact not_transparent_of_no_call rfl rfl
              | ok castable =>
                  rw [run_bind_of_ok (a := castable) rfl]
                  simp only [Except.ok.injEq, exists_eq_left']
                  cases castable with
                  | false =>
                      simp only [Bool.false_eq_true, if_false, false_implies, iff_true]
                      exact ⟨fun _ => ⟨rfl, horiginal.calls args _⟩, horiginal.active args _⟩
                  | true =>
                      simp only [if_true, true_implies]
                      refine (propagated_deliver_iff setting client _ properties _ _ horiginal args
                        (World.entry process scopes active)
                        (w := { World.entry process scopes active with resolved := true })
                        rfl rfl rfl).trans ?_
                      simp only [exists_and_left, ne_eq]
                      exact Iff.rfl

end Transparency

end SignalFxTracing.Integrations.RabbitMQ
