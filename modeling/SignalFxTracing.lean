import SignalFxTracing.Lib.Machine
import SignalFxTracing.Lib.ListUpdate
import SignalFxTracing.Lib.KeyedUpdate
import SignalFxTracing.Lib.Hex
import SignalFxTracing.Clr.Text
import SignalFxTracing.Trace.TraceContext
import SignalFxTracing.Trace.SpanConservation
import SignalFxTracing.Propagation.B3RoundTrip
import SignalFxTracing.Propagation.W3C
import SignalFxTracing.Trace.Tracer
import SignalFxTracing.Propagation.W3CPassThrough
import SignalFxTracing.Trace.TraceIdText
import SignalFxTracing.Trace.TraceIdCodec
import SignalFxTracing.Propagation.ExtractErrors
import SignalFxTracing.Process.Tracing
import SignalFxTracing.Process.SamplingDecision
import SignalFxTracing.Lib.Guarded
import SignalFxTracing.Integrations.Scopes
import SignalFxTracing.Integrations.Transparency
import SignalFxTracing.Integrations.RabbitMQ
import SignalFxTracing.Integrations.GraphQL
import SignalFxTracing.Trace.Tags
import SignalFxTracing.Integrations.Kafka
import SignalFxTracing.Integrations.Wrappers
import SignalFxTracing.Lib.LittleEndian
import SignalFxTracing.Il.OpCode
import SignalFxTracing.Il.Instr
import SignalFxTracing.Il.Format
import SignalFxTracing.Il.Import
import SignalFxTracing.Lib.MapOption
import SignalFxTracing.Lib.Potential
import SignalFxTracing.Il.StackDepth
import SignalFxTracing.Il.ControlFlow
import SignalFxTracing.Il.RewriterWrapper
import SignalFxTracing.Il.EntryCall
import SignalFxTracing.Il.MaxStack
import SignalFxTracing.Metadata.Signature
import SignalFxTracing.Metadata.SignatureGrammar
import SignalFxTracing.Metadata.SignatureReading
import SignalFxTracing.Scopes.ScopeManager
import SignalFxTracing.Scopes.Nesting
import SignalFxTracing.Scopes.ActiveScope
import SignalFxTracing.Scopes.LogCorrelation
import SignalFxTracing.Integrations.AspNetMvc
import SignalFxTracing.Propagation.W3CRoundTrip
import SignalFxTracing.DiagnosticListeners.RequestNesting
import SignalFxTracing.Integrations.WebRequest
import SignalFxTracing.Lib.KeyedCache
import SignalFxTracing.Metadata.Integration
import SignalFxTracing.Metadata.WrapperRefs
import SignalFxTracing.Metadata.WrapperCoherence
import SignalFxTracing.Metadata.WrapperCollisions
import SignalFxTracing.Metadata.FunctionInfo
import SignalFxTracing.Metadata.SignatureTypes
import SignalFxTracing.Lib.NameTree
import SignalFxTracing.Metadata.TypeTree
import SignalFxTracing.Metadata.TypeNames
import SignalFxTracing.Metadata.SignatureNames
import SignalFxTracing.Metadata.NamesApart
import SignalFxTracing.Metadata.ReturnType
import SignalFxTracing.Metadata.CallSite
import SignalFxTracing.Metadata.TypeReading
import SignalFxTracing.Metadata.Unboxing
import SignalFxTracing.Profiler.ModuleEvents
import SignalFxTracing.Profiler.AppDomains
import SignalFxTracing.Profiler.StartupHook
import SignalFxTracing.Lib.PriorityList
import SignalFxTracing.Sampling.RuleBasedSampler
import SignalFxTracing.Sampling.RateSampling
import SignalFxTracing.Sampling.PatternEngine
import SignalFxTracing.Sampling.ConfiguredRules
import SignalFxTracing.Sampling.RateLimiter
import SignalFxTracing.Agent.AgentWriterBuffer
import SignalFxTracing.Agent.AgentWriter
import SignalFxTracing.Emit.DynamicMethod
import SignalFxTracing.Emit.ObjectExtensions
import SignalFxTracing.Emit.MethodBuilder
import SignalFxTracing.Emit.DelegateCache
import SignalFxTracing.Integrations.OutboundHttp
import SignalFxTracing.Integrations.OutboundNesting
import SignalFxTracing.Lib.Segments
import SignalFxTracing.Propagation.TraceStateScanner
import SignalFxTracing.Propagation.TraceStateGrammar
import SignalFxTracing.Lib.Regex
import SignalFxTracing.Lib.RegexFree
import SignalFxTracing.Lib.RegexGroup
import SignalFxTracing.Lib.JsonText
import SignalFxTracing.Lib.Follow
import SignalFxTracing.Clr.Utf8
import SignalFxTracing.ExtensionMethods.StringExtensions
import SignalFxTracing.ExtensionMethods.QuotedLiterals
import SignalFxTracing.ExtensionMethods.SanitizedStatement
import SignalFxTracing.Agent.ZipkinSerializer
import SignalFxTracing.Agent.RecordedTags
import SignalFxTracing.Agent.RecordedStatement
import SignalFxTracing.Agent.SpanWrites
import SignalFxTracing.Agent.StoredFields
import SignalFxTracing.ExtensionMethods.TimeExtensions
import SignalFxTracing.Agent.SpanTimes
import SignalFxTracing.Agent.AfterFinish
import SignalFxTracing.Agent.LogEvents
import SignalFxTracing.Agent.SerializedTags
import SignalFxTracing.Agent.BoundedValues
import SignalFxTracing.Agent.BatchSerialization
import SignalFxTracing.Integrations.ElasticsearchNetCommon
import SignalFxTracing.Integrations.StatementPieces
import SignalFxTracing.Integrations.StatementStrings
import SignalFxTracing.Integrations.ElasticsearchCredentials
import SignalFxTracing.Metadata.DeclaringType
import SignalFxTracing.Metadata.SkippedTypes
import SignalFxTracing.Metadata.LastArgument
import SignalFxTracing.Lib.Captures
import SignalFxTracing.Metadata.AssemblyReferences
import SignalFxTracing.Metadata.ReferenceRoundTrip
import SignalFxTracing.Metadata.ReferencePlatforms
import SignalFxTracing.Lib.FirstError
import SignalFxTracing.Metadata.IntegrationJson
import SignalFxTracing.Metadata.IntegrationErrors
import SignalFxTracing.Metadata.GeneratedSignatures
import SignalFxTracing.Lib.BlankSegments
import SignalFxTracing.Profiler.Environment
import SignalFxTracing.Util.UriHelpers
import SignalFxTracing.Il.ReleaseImport
import SignalFxTracing.Il.Effect
import SignalFxTracing.DuckTyping.ILHelpersExtensions
import SignalFxTracing.Lib.Buffer
import SignalFxTracing.Il.Export
import SignalFxTracing.Il.Layout
import SignalFxTracing.Il.Encoding
import SignalFxTracing.Il.EncodingLoop
import SignalFxTracing.Il.EditedList
import SignalFxTracing.Il.BranchDistances
import SignalFxTracing.OpenTracing.TextMap
import SignalFxTracing.OpenTracing.HttpHeadersCodec
import SignalFxTracing.OpenTracing.CodecRoundTrip
import SignalFxTracing.Propagation.HeadersCollection
import SignalFxTracing.Lib.CursorSweep
import SignalFxTracing.Il.ReplacementCalls
import SignalFxTracing.Il.ReplacementSites
import SignalFxTracing.Il.Coverage
import SignalFxTracing.Il.ReplacementRuns
import SignalFxTracing.Il.Prefixes
import SignalFxTracing.Il.SiteStack
import SignalFxTracing.Il.SiteEntry
import SignalFxTracing.Il.ReplacementValidity
import SignalFxTracing.Il.Program
import SignalFxTracing.Il.ImportedProgram
import SignalFxTracing.Il.Insertions
import SignalFxTracing.Il.ExportBody
import SignalFxTracing.Il.Relocation
import SignalFxTracing.Il.RoundTrip
import SignalFxTracing.Il.UneditedBytes
import SignalFxTracing.Il.BodyBytes
import SignalFxTracing.Il.InsertionCalls
import SignalFxTracing.Lib.UnitCodec
import SignalFxTracing.Native.MiniUtf
