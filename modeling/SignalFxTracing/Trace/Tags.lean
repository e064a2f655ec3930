import SignalFxTracing.Clr.Text

/-!
# Keys of tags (`Tags.cs`)
-/

namespace SignalFxTracing.Trace.Tags

open Clr

def environment : Text := text "environment"

def instrumentationName : Text := text "component"

def spanKind : Text := text "span.kind"

def resourceName : Text := text "resource.name"

def spanType : Text := text "span.type"

def error : Text := text "error"

def dbStatement : Text := text "db.statement"

def errorMsg : Text := text "sfx.error.message"

def errorKind : Text := text "sfx.error.kind"

def errorStack : Text := text "sfx.error.stack"

def graphQLOperationName : Text := text "graphql.operation.name"

def graphQLOperationType : Text := text "graphql.operation.type"

def graphQLSource : Text := text "graphql.source"

def samplingPriority : Text := text "sampling.priority"

def forceKeep : Text := text "force.keep"

def forceDrop : Text := text "force.drop"

def manualKeep : Text := text "manual.keep"

def manualDrop : Text := text "manual.drop"

def language : Text := text "signalfx.tracing.library"

def azureAppServicesResourceId : Text := text "aas.resource.id"

def azureAppServicesResourceGroup : Text := text "aas.resource.group"

def azureAppServicesSiteName : Text := text "aas.site.name"

def azureAppServicesSubscriptionId : Text := text "aas.subscription.id"

def version : Text := text "signalfx.tracing.version"

def httpUrl : Text := text "http.url"

def httpMethod : Text := text "http.method"

def httpRequestHeadersHost : Text := text "http.request.headers.host"

def httpStatusCode : Text := text "http.status_code"

def aspNetController : Text := text "aspnet.controller"

def aspNetAction : Text := text "aspnet.action"

def peerIpV4 : Text := text "peer.ipv4"

def peerIpV6 : Text := text "peer.ipv6"

namespace Messaging

def system : Text := text "messaging.system"

def destination : Text := text "messaging.destination"

def destinationKind : Text := text "messaging.destination_kind"

def messagePayloadSizeBytes : Text := text "messaging.message_payload_size_bytes"

end Messaging

namespace Kafka

def partition : Text := text "messaging.kafka.partition"

def tombstone : Text := text "messaging.kafka.tombstone"

def consumerGroup : Text := text "massaging.kafka.consumer_group"

def queueTimeMs : Text := text "messaging.kafka.queue_time_ms"

def clientName : Text := text "massaging.kafka.client_id"

end Kafka

namespace RabbitMQ

def routingKey : Text := text "messaging.rabbitmq.routing_key"

def deliveryMode : Text := text "messaging.rabbitmq.delivery_mode"

end RabbitMQ

/-- The keys that `SetTag` gives a special meaning. -/
def specialKeys : List Text := [samplingPriority, forceKeep, manualKeep, forceDrop, manualDrop]

end SignalFxTracing.Trace.Tags
