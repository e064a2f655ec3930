import SignalFxTracing.Integrations.RabbitMQ
import SignalFxTracing.Integrations.GraphQL
import SignalFxTracing.Integrations.Kafka

/-!
# When the wrappers are transparent

The conditions of the wrappers of RabbitMQ, GraphQL and Kafka side by side,
from any world in which an integration can be entered.
-/

namespace SignalFxTracing.Integrations

open Clr Trace

/-- A call of `wrapper` from an integration's entry, around an original that leaves the active scope
as it was, is transparent exactly when `condition` holds. -/
def TransparentIff {A R : Type} (wrapper : Original A R → A → Action A R)
    (condition : Original A R → A → World A → Prop) : Prop :=
  ∀ original : Original A R, original.KeepsScopes → ∀ (args : A) (process : Process.State)
    (scopes : List Scope) (active : Option (Fin scopes.length)),
    Transparent args original (World.entry process scopes active)
        ((wrapper original args).run (World.entry process scopes active)) ↔
      condition original args (World.entry process scopes active)

/-- The wrappers are transparent under exactly these conditions. -/
theorem wrappers_transparent_iff {Obj : Type} (setting : Setting)
    (rabbitMQ : RabbitMQ.Client Obj) (graphQL : GraphQL.Schema Obj) (kafka : Kafka.Client Obj) :
    TransparentIff (RabbitMQ.basicPublish setting rabbitMQ)
        (RabbitMQ.PublishesTransparently setting rabbitMQ
          fun body => .ok (RabbitMQ.bytesLength body)) ∧
      TransparentIff (RabbitMQ.basicPublishV6 setting rabbitMQ)
        (RabbitMQ.PublishesTransparently setting rabbitMQ fun body =>
          (RabbitMQ.structLength rabbitMQ body).map fun length =>
            RabbitMQ.decimal (length.getD 0)) ∧
      TransparentIff (RabbitMQ.basicDeliver setting rabbitMQ)
        (RabbitMQ.DeliversTransparently setting rabbitMQ
          fun body => .ok (some (RabbitMQ.bytesLength body))) ∧
      TransparentIff (RabbitMQ.basicDeliverV6 setting rabbitMQ)
        (RabbitMQ.DeliversTransparently setting rabbitMQ fun body =>
          (RabbitMQ.structLength rabbitMQ body).map (Option.map RabbitMQ.decimal)) ∧
      TransparentIff (GraphQL.validate setting graphQL)
        (GraphQL.ValidatesTransparently setting graphQL) ∧
      TransparentIff (GraphQL.executeAsync setting graphQL)
        (GraphQL.ExecutesTransparently setting graphQL) ∧
      TransparentIff (Kafka.produce setting kafka) (Kafka.ProducesTransparently setting kafka) :=
  ⟨RabbitMQ.publish_transparent_iff setting rabbitMQ _,
    RabbitMQ.publish_transparent_iff setting rabbitMQ _,
    RabbitMQ.deliver_transparent_iff setting rabbitMQ _,
    RabbitMQ.deliver_transparent_iff setting rabbitMQ _,
    GraphQL.validate_transparent_iff setting graphQL,
    GraphQL.executeAsync_transparent_iff setting graphQL,
    Kafka.produce_transparent_iff setting kafka⟩

section Examples

/-- A tracer without settings that describes every exception. -/
def plainSetting (isIntegrationEnabled : Bool) : Setting where
  tracer := Tracer.plain
  isIntegrationEnabled := isIntegrationEnabled
  format := .b3
  draws := ⟨0, 0, 0, 0⟩
  utcNow := 0
  message := fun _ => .ok none
  stack := fun _ => .ok none
  kind := fun _ => []

/-- Nothing is active when the wrapper is entered. -/
def emptyWorld (A : Type) : World A := World.entry ⟨[], [], []⟩ [] none

/-- A client whose messages all have the delivery mode 3. -/
def modeThreeClient : RabbitMQ.Client Unit where
  build := .ok ⟨⟩
  tryDuckCast := fun _ => .ok true
  isDeliveryModePresent := fun _ => .ok true
  deliveryMode := fun _ => .ok 3
  hasHeaders := fun _ => .ok true
  createHeaders := fun _ => .ok ⟨⟩
  setHeaders := fun _ _ => .ok ⟨⟩
  extract := fun _ => .ok none
  tryDuckCastBody := fun _ => .ok none

def publishArguments : RabbitMQ.PublishArguments Unit (List UInt8) :=
  ⟨some (), none, none, false, some (), none⟩

/-- A schema whose reads all find nothing. -/
def emptySchema : GraphQL.Schema Unit where
  findTypes := .ok ⟨⟩
  build := .ok ⟨⟩
  originalQuery := fun _ => .ok none
  documentQuery := fun _ => .ok none
  operationName := fun _ => .ok none
  operationType := fun _ => .ok (some [])
  errors := fun _ => .ok none
  count := fun _ => .ok 0
  getEnumerator := fun _ => .ok none
  errorLines := fun _ => .ok []

def validateArguments : GraphQL.ValidateArguments Unit :=
  ⟨some (), none, none, none, none, none, none⟩

/-- A client whose delegate cannot be built. -/
def unresolvableClient : Kafka.Client Unit where
  build := .error (.other 0)
  topicName := fun _ => .ok none
  partition := fun _ => .ok none
  partitionNumber := fun _ => .ok 0
  messageValue := fun _ => .ok none
  producerName := fun _ => .ok none
  messageHeaders := fun _ => .ok none
  hasHeadersType := false
  createHeaders := fun _ => .ok ()
  setHeaders := fun _ _ => .ok ⟨⟩

def produceArguments : Kafka.ProduceArguments Unit := ⟨some (), none, none, none⟩

/-- With the integration disabled a message is published whatever its delivery mode is. -/
theorem wrappers_transparent_disabled :
    Transparent publishArguments (.returns ⟨⟩) (emptyWorld _)
      ((RabbitMQ.basicPublish (plainSetting false) modeThreeClient (.returns ⟨⟩)
        publishArguments).run (emptyWorld _)) := by
  apply ((wrappers_transparent_iff (plainSetting false) modeThreeClient emptySchema
    unresolvableClient).1 (.returns ⟨⟩) (Original.keepsScopes_returns _) publishArguments
      ⟨[], [], []⟩ [] none).mpr
  intro _ _ span traces hstarted
  cases hstarted

/-- Delivery mode 3 keeps a message from being published, a disabled GraphQL
integration takes the result away, and a delegate of Kafka that cannot be built
leaves the scope active. -/
theorem wrappers_not_transparent :
    ¬ Transparent publishArguments (.returns ⟨⟩) (emptyWorld _)
        ((RabbitMQ.basicPublish (plainSetting true) modeThreeClient (.returns ⟨⟩)
          publishArguments).run (emptyWorld _)) ∧
      ¬ Transparent validateArguments (.returns none) (emptyWorld _)
        ((GraphQL.validate (plainSetting false) emptySchema (.returns none)
          validateArguments).run (emptyWorld _)) ∧
      ¬ Transparent produceArguments (.returns ⟨⟩) (emptyWorld _)
        ((Kafka.produce (plainSetting true) unresolvableClient (.returns ⟨⟩)
          produceArguments).run (emptyWorld _)) := by
  refine ⟨fun h => ?_, fun h => ?_, fun h => ?_⟩
  · have hcalls := (h.once rfl).2
    cases hcalls
  · have houtcome := (h.once rfl).1
    cases houtcome
  · have hactive := h.active
    cases hactive

end Examples

end SignalFxTracing.Integrations
