import SignalFxTracing.Integrations.Scopes
import SignalFxTracing.Propagation.B3RoundTrip
import SignalFxTracing.Propagation.W3CRoundTrip

/-!
# Web requests with a request stream (`WebRequestIntegration.cs`, `ScopeFactory.cs`)

`GetRequestStream` sends the headers before there is a span, so it injects the
ids of a context made for the purpose. `GetResponse` extracts that context
and passes its span id, not its trace id, to the span that it starts.

## Implementation notes

The wrappers are modelled up to the call of the original method. The headers
are those of a `WebHeaderCollection`, whose `Wrap` answers with the shared
empty sequence for an absent name. Uris are known by what is read from them.
-/

namespace SignalFxTracing.Integrations.WebRequest

open Clr Lib Lib.Guarded Trace Propagation

def integrationName : Text := text "WebRequest"

/-- `HttpHeaderNames.TracingEnabled`. -/
def tracingEnabledHeader : Text := text "x-sfx-tracing-enabled"

/-- `ScopeFactory.OperationName`. -/
def operationName : Text := text "http.request"

/-- `SpanKinds.Client`. -/
def clientKind : Text := text "client"

/-- The delegates of `WebHeadersCollection`. -/
def headersAccess : CarrierAccess HeaderMap where
  setter := fun carrier name value => Function.update carrier name [value]
  getter := fun carrier name =>
    if carrier name = [] then HeaderValues.sharedEmpty else HeaderValues.ofList (carrier name)

theorem headersAccess_values (carrier : HeaderMap) (name : Text) :
    (headersAccess.getter carrier name).values = carrier name := by
  simp only [headersAccess]
  split
  · next h => rw [h]; rfl
  · rfl

theorem headersAccess_lawful {names : List Text} : headersAccess.Lawful names where
  getter_setter := by
    intro carrier name _ value
    rw [headersAccess_values]
    simp [headersAccess]
  getter_setter_ne := by
    intro carrier name _ value other _ h
    simp [headersAccess, Function.update_of_ne h]

/-- The settings of outbound requests and the comparison that the runtime provides. -/
structure HttpSettings where
  skipsPlus : Bool
  appendUrlPathToName : Bool
  outboundHttpExcludedHosts : List Text
  /-- `StringComparer.OrdinalIgnoreCase.Equals`. -/
  equalsIgnoreCase : Option Text → Option Text → Bool

/-- `IsOutboundHttpExcludedHost`: the set of the excluded hosts ignores case. -/
def isOutboundHttpExcludedHost (http : HttpSettings) (host : Text) : Bool :=
  http.outboundHttpExcludedHosts.any fun excluded =>
    http.equalsIgnoreCase (some excluded) (some host)

/-- A request and what is read from its uri. -/
structure Request where
  isHttpWebRequest : Bool
  method : Option Text
  host : Text
  absolutePath : Text
  cleanUri : Text

section Wrappers

variable (http : HttpSettings) (setting : Setting) (request : Request)

/-- The value of a header as the indexer of the collection gives it. -/
def headerValue (headers : HeaderMap) (name : Text) : Option Text :=
  if headers name = [] then none else some (List.intercalate (text ",") (headers name))

/-- `IsTracingEnabled`. -/
def isTracingEnabled (headers : HeaderMap) : Bool :=
  !http.equalsIgnoreCase (headerValue headers tracingEnabledHeader) (some (text "false"))

/-- `GetActiveHttpScope`. -/
def getActiveHttpScope (w : World Unit) : Option ScopeRef := do
  let scope ← w.active
  let (_, parent) ← w.spanOf scope
  if http.equalsIgnoreCase (parent.getTag Tags.spanKind) (some clientKind) &&
      http.equalsIgnoreCase (parent.getTag Tags.httpMethod) request.method &&
      http.equalsIgnoreCase (parent.getTag Tags.httpUrl) (some request.cleanUri)
    then some scope else none

/-- `CreateHttpSpanContext`. -/
def createHttpSpanContext (w : World Unit) : Option SpanContext × World Unit :=
  if ¬ setting.isIntegrationEnabled then (none, w)
  else
    match getActiveHttpScope http request w with
    | some scope => ((w.spanOf scope).map fun found => found.2.context, w)
    | none =>
        let (_, context, traces) := setting.tracer.createSpanContext w.activeContext none none
          false none setting.draws w.process.traces
        (some context, { w with process :=
          { w.process with traces, contexts := w.process.contexts ++ [context] } })

/-- `Propagator.Inject` into the headers of the request. -/
def inject (context : SpanContext) (headers : HeaderMap) (w : World Unit) :
    HeaderMap × World Unit :=
  let (traces, headers) :=
    match setting.format with
    | .b3 => B3.inject headersAccess w.process.traces context headers
    | .w3c => W3C.inject headersAccess w.process.traces context headers
  (headers, { w with process := { w.process with traces } })

/-- `Propagator.Extract` from the headers of the request. -/
def extract (headers : HeaderMap) : Except ExtractError (Option SpanContext) :=
  match setting.format with
  | .b3 => B3.extract headersAccess http.skipsPlus setting.draws headers
  | .w3c => W3C.extract headersAccess http.skipsPlus setting.draws headers

/-- `GetRequestStream` up to the call of the original method: the context that it injected,
the headers and the world. -/
def getRequestStream (headers : HeaderMap) (w : World Unit) :
    Option SpanContext × HeaderMap × World Unit :=
  if ¬ request.isHttpWebRequest ∨ ¬ isTracingEnabled http headers then (none, headers, w)
  else
    match createHttpSpanContext http setting request w with
    | (none, w) => (none, headers, w)
    | (some context, w) => (some context, inject setting context headers w)

/-- `StartActive` with the id of the span. -/
def startActiveWithId (operationName : Text) (spanId : Option UInt64) : Action Unit ScopeRef :=
  ⟨fun w =>
    match setting.tracer.startSpan
        { startArguments setting w (some operationName) none none with spanId }
        w.process.spans.length w.process.traces with
    | (none, traces) => (.error .argumentNull, { w with process := { w.process with traces } })
    | (some span, traces) =>
        (.ok w.scopes.length,
          { w with
            process :=
              { traces, contexts := w.process.contexts ++ [span.context],
                spans := w.process.spans ++ [span] }
            scopes := w.scopes ++ [⟨w.active, w.process.spans.length, true⟩]
            active := some w.scopes.length })⟩

/-- The parent of a client span loses its kind when that is client, too. -/
def clearParentKind (scope : ScopeRef) : Action Unit PUnit := do
  let w ← get
  match w.scopes[scope]?.bind Scope.parent with
  | none => pure ⟨⟩
  | some parent =>
      if (w.spanOf parent).bind (fun found => found.2.getTag Tags.spanKind) = some clientKind
        then setTag setting parent Tags.spanKind none else pure ⟨⟩

/-- The details that `CreateOutboundHttpScope` gives its span. -/
def populate (integrationName : Text) (scope : ScopeRef) : Action Unit PUnit := do
  modifySpanOf scope fun span =>
    { span with context := { span.context with serviceName := setting.tracer.defaultServiceName } }
  setTag setting scope Tags.spanKind (some clientKind)
  clearParentKind setting scope
  setTag setting scope Tags.httpMethod
    (request.method.map setting.tracer.runtime.toUpperInvariant)
  setTag setting scope Tags.httpUrl (some request.cleanUri)
  setTag setting scope Tags.instrumentationName (some integrationName)

/-- The name of the span of an outbound request. -/
def spanName : Text :=
  let spanName := request.method.getD operationName
  if http.appendUrlPathToName then spanName ++ text ":" ++ request.absolutePath else spanName

/-- `CreateOutboundHttpScope`. -/
def createOutboundHttpScope (integrationName : Text) (propagatedSpanId : Option UInt64) :
    Action Unit (Option ScopeRef) := do
  let w ← get
  if ¬ setting.isIntegrationEnabled ∨ isOutboundHttpExcludedHost http request.host then
    pure none
  else
    match getActiveHttpScope http request w with
    | some _ => pure none
    | none =>
        tryStartScope (startActiveWithId setting (spanName http request) propagatedSpanId)
          (populate setting request integrationName)

/-- The common part of the wrappers of a response up to the call of the original method: the
scope of the client span, the headers and the world. An exception of `Extract` leaves them. -/
def respond (headers : HeaderMap) (w : World Unit) :
    Option ScopeRef × HeaderMap × World Unit :=
  if ¬ request.isHttpWebRequest ∨ ¬ isTracingEnabled http headers then (none, headers, w)
  else
    match extract http setting headers with
    | .error _ => (none, headers, w)
    | .ok spanContext =>
        match (createOutboundHttpScope http setting request integrationName
            (spanContext.map SpanContext.spanId)).run w with
        | (.ok (some scope), w) =>
            match w.spanOf scope with
            | none => (some scope, headers, w)
            | some (_, span) => (some scope, inject setting span.context headers w)
        | (_, w) => (none, headers, w)

/-- `GetResponse`. -/
def getResponse : HeaderMap → World Unit → Option ScopeRef × HeaderMap × World Unit :=
  respond http setting request

/-- `GetResponseAsyncInternal`. -/
def getResponseAsyncInternal :
    HeaderMap → World Unit → Option ScopeRef × HeaderMap × World Unit :=
  respond http setting request

end Wrappers

/-- The trace id and the span id of a context. -/
def idsOf (context : SpanContext) : TraceId × UInt64 := (context.traceId, context.spanId)

/-- The ids of the span of a scope. -/
def idsOfScope (w : World Unit) (scope : ScopeRef) : Option (TraceId × UInt64) :=
  (w.spanOf scope).map fun found => idsOf found.2.context

/-- The spans of all scopes keep their ids. -/
def KeepsIds (w w' : World Unit) : Prop := ∀ scope, idsOfScope w' scope = idsOfScope w scope

instance : IsPreorder (World Unit) KeepsIds where
  refl := fun _ _ => rfl
  trans := fun _ _ _ h k scope => (k scope).trans (h scope)

theorem keepsIds_setSpan {w : World Unit} {i : SpanRef} {span other : Span}
    (h : w.process.spans[i]? = some span) (hids : idsOf other.context = idsOf span.context) :
    KeepsIds w (w.setSpan i other) := by
  intro scope
  unfold idsOfScope World.spanOf World.setSpan
  cases w.scopes[scope]? with
  | none => rfl
  | some found =>
      dsimp only [bind, Option.bind_some]
      rw [List.getElem?_set]
      split
      · next hi =>
          subst hi
          have hlt := (List.getElem?_eq_some_iff.mp h).1
          rw [if_pos hlt, h]
          exact congrArg some hids
      · rfl

theorem spanOf_eq_some {w : World Unit} {scope : ScopeRef} {i : SpanRef} {span : Span}
    (h : w.spanOf scope = some (i, span)) : w.process.spans[i]? = some span := by
  simp only [World.spanOf, bind, Option.bind_eq_some_iff, pure, Option.some.injEq,
    Prod.mk.injEq] at h
  obtain ⟨found, -, read, hread, rfl, rfl⟩ := h
  exact hread

section KeepsIds

variable (setting : Setting) (request : Request)

theorem within_setTag_keepsIds (scope : ScopeRef) {key : Text} (hkey : key ∉ Tags.specialKeys)
    (value : Option Text) : Within KeepsIds (setTag setting scope key value) := by
  intro w
  obtain ⟨w', hrun, rfl | ⟨i, shown, tags, hread, rfl⟩⟩ :=
    setTag_run_of_not_special setting scope hkey value w
  · rw [hrun]
    exact Std.Refl.refl w'
  · rw [hrun]
    exact keepsIds_setSpan (spanOf_eq_some hread) rfl

theorem within_modifySpanOf_keepsIds (scope : ScopeRef) {f : Span → Span}
    (hf : ∀ span, idsOf (f span).context = idsOf span.context) :
    Within KeepsIds (modifySpanOf scope f : Action Unit PUnit) := by
  refine within_modify fun w => ?_
  split
  · exact Std.Refl.refl w
  · next i span hread => exact keepsIds_setSpan (spanOf_eq_some hread) (hf span)

theorem within_clearParentKind (scope : ScopeRef) :
    Within KeepsIds (clearParentKind setting scope) := by
  refine within_bind within_get fun w => ?_
  split
  · exact within_pure _
  · split
    · exact within_setTag_keepsIds setting _ (by decide) _
    · exact within_pure _

theorem within_populate (integrationName : Text) (scope : ScopeRef) :
    Within KeepsIds (populate setting request integrationName scope) := by
  refine within_bind (within_modifySpanOf_keepsIds scope fun _ => rfl) fun _ => ?_
  refine within_bind (within_setTag_keepsIds setting scope (by decide) _) fun _ => ?_
  refine within_bind (within_clearParentKind setting scope) fun _ => ?_
  refine within_bind (within_setTag_keepsIds setting scope (by decide) _) fun _ => ?_
  refine within_bind (within_setTag_keepsIds setting scope (by decide) _) fun _ => ?_
  exact within_setTag_keepsIds setting scope (by decide) _

end KeepsIds

section Extracted

variable (http : HttpSettings) (setting later : Setting) (context : SpanContext)
variable (headers : HeaderMap) (w : World Unit)

theorem inject_headers :
    (inject setting context headers w).1 =
      match setting.format with
      | .b3 => (B3.inject headersAccess w.process.traces context headers).2
      | .w3c => (W3C.inject headersAccess w.process.traces context headers).2 := by
  unfold inject
  cases setting.format <;> rfl

/-- Ids that are not zero are read back from the headers. -/
theorem extract_inject_of_ne_zero (hformat : later.format = setting.format)
    (htrace : context.traceId.equals TraceId.zero = false) (hspan : context.spanId ≠ 0) :
    ∃ extracted, extract http later (inject setting context headers w).1 =
      .ok (some extracted) ∧ extracted.spanId = context.spanId := by
  rw [inject_headers, extract, hformat]
  cases setting.format with
  | b3 =>
      exact ⟨_, B3.extract_inject headersAccess_lawful w.process.traces context headers
        http.skipsPlus later.draws htrace, rfl⟩
  | w3c =>
      obtain ⟨traceState, hextract⟩ := W3C.extract_inject_of_text headersAccess_lawful
        w.process.traces context headers http.skipsPlus later.draws
        (TraceId.toString_of_not_zero htrace)
      rw [htrace, if_neg (by simp [hspan])] at hextract
      exact ⟨_, hextract, rfl⟩

/-- With a zero id at most the span id zero is read back. -/
theorem extract_inject_of_zero (hformat : later.format = setting.format)
    (hzero : context.traceId.equals TraceId.zero = true ∨ context.spanId = 0)
    {extracted : Option SpanContext}
    (h : extract http later (inject setting context headers w).1 = .ok extracted) :
    (extracted.map SpanContext.spanId).getD 0 = 0 := by
  rw [inject_headers, extract, hformat] at h
  cases hf : setting.format with
  | b3 =>
      rw [hf] at h
      cases htrace : context.traceId.equals TraceId.zero with
      | true =>
          rw [B3.extract_inject_of_zero headersAccess_lawful w.process.traces context headers
            http.skipsPlus later.draws htrace] at h
          cases h
          rfl
      | false =>
          rw [B3.extract_inject headersAccess_lawful w.process.traces context headers
            http.skipsPlus later.draws htrace] at h
          cases h
          exact hzero.resolve_left (by simp [htrace])
  | w3c =>
      rw [hf] at h
      cases htext : context.traceId.toString with
      | none =>
          rw [W3C.extract_inject_of_default headersAccess_lawful w.process.traces context headers
            http.skipsPlus later.draws htext] at h
          cases h
      | some id =>
          obtain ⟨traceState, hextract⟩ := W3C.extract_inject_of_text headersAccess_lawful
            w.process.traces context headers http.skipsPlus later.draws htext
          rw [hextract, if_pos hzero] at h
          cases h
          rfl

end Extracted

section Responses

variable {http : HttpSettings} {setting : Setting} {request : Request} {w : World Unit}

/-- The arguments with which a client span is started. -/
def clientArguments (setting : Setting) (w : World Unit) (operationName : Option Text)
    (spanId : Option UInt64) : Tracer.StartArguments :=
  { startArguments setting w operationName none none with spanId }

/-- A response gets a client span: its host is not excluded, the active scope is not that of
the request, and the tags of the settings raise nothing. -/
structure CreatesClientSpan (http : HttpSettings) (setting : Setting) (request : Request)
    (w : World Unit) : Prop where
  included : ¬ isOutboundHttpExcludedHost http request.host
  notActive : getActiveHttpScope http request w = none
  starts : (setting.tracer.startSpan (clientArguments setting w none none)
    w.process.spans.length w.process.traces).1.isSome = true

/-- Neither the random numbers nor the clock decide whether a span is started. -/
theorem startSpan_isSome_congr {later : Setting} (htracer : later.tracer = setting.tracer)
    (operationName : Option Text) (spanId : Option UInt64) :
    (later.tracer.startSpan (clientArguments later w operationName spanId)
        w.process.spans.length w.process.traces).1.isSome = true ↔
      (setting.tracer.startSpan (clientArguments setting w none none)
        w.process.spans.length w.process.traces).1.isSome = true := by
  rw [Tracer.startSpan_isSome_iff, Tracer.startSpan_isSome_iff, htracer]
  exact Iff.rfl

theorem startActiveWithId_of_none {operationName : Text} {spanId : Option UInt64}
    (h : (setting.tracer.startSpan (clientArguments setting w (some operationName) spanId)
      w.process.spans.length w.process.traces).1 = none) :
    ∃ t, (startActiveWithId setting operationName spanId).run w = (.error .argumentNull, t) := by
  unfold startActiveWithId
  dsimp only
  split
  · exact ⟨_, rfl⟩
  · next hsome =>
      rw [clientArguments, hsome] at h
      cases h

theorem startActiveWithId_of_some {operationName : Text} {spanId : Option UInt64} {span : Span}
    (h : (setting.tracer.startSpan (clientArguments setting w (some operationName) spanId)
      w.process.spans.length w.process.traces).1 = some span) :
    ∃ t, (startActiveWithId setting operationName spanId).run w = (.ok w.scopes.length, t) ∧
      idsOfScope t w.scopes.length = some (idsOf span.context) := by
  unfold startActiveWithId
  dsimp only
  split
  · next hnone =>
      rw [clientArguments, hnone] at h
      cases h
  · next started traces hsome =>
      rw [clientArguments, hsome] at h
      obtain rfl : started = span := Option.some.inj h
      refine ⟨_, rfl, ?_⟩
      simp [idsOfScope, World.spanOf]

/-- The ids of the context that the client span is started with. -/
def clientIds (setting : Setting) (w : World Unit) (spanId : Option UInt64) :
    TraceId × UInt64 :=
  idsOf (setting.tracer.createSpanContext w.activeContext none none false spanId setting.draws
    w.process.traces).2.1

theorem createOutboundHttpScope_of_creates (henabled : setting.isIntegrationEnabled = true)
    (hcreates : CreatesClientSpan http setting request w) (integrationName : Text)
    (spanId : Option UInt64) :
    ∃ t, (createOutboundHttpScope http setting request integrationName spanId).run w =
        (.ok (some w.scopes.length), t) ∧
      idsOfScope t w.scopes.length = some (clientIds setting w spanId) := by
  obtain ⟨hincluded, hnotActive, hstarts⟩ := hcreates
  have hsome := (startSpan_isSome_congr rfl (some (spanName http request)) spanId).mpr hstarts
  obtain ⟨span, hspan⟩ := Option.isSome_iff_exists.mp hsome
  obtain ⟨t, hrun, hids⟩ := startActiveWithId_of_some hspan
  refine ⟨((populate setting request integrationName w.scopes.length).run t).2, ?_, ?_⟩
  · rw [createOutboundHttpScope, run_get_bind, if_neg (by simp [henabled, hincluded]), hnotActive]
    exact tryStartScope_run_of_ok (populate setting request integrationName) hrun
  · rw [within_populate setting request integrationName w.scopes.length t w.scopes.length, hids]
    have hcontext := Tracer.startSpan_context (Prod.ext hspan rfl)
    rw [hcontext]
    rfl

theorem createOutboundHttpScope_of_not_creates
    (hcreates : ¬ CreatesClientSpan http setting request w) (integrationName : Text)
    (spanId : Option UInt64) :
    ((createOutboundHttpScope http setting request integrationName spanId).run w).1 =
      .ok none := by
  rw [createOutboundHttpScope, run_get_bind]
  split
  · rfl
  · next hskip =>
      cases hactive : getActiveHttpScope http request w with
      | some scope => rfl
      | none =>
          have hincluded : ¬ isOutboundHttpExcludedHost http request.host :=
            fun hexcluded => hskip (Or.inr hexcluded)
          have hnone : (setting.tracer.startSpan
              (clientArguments setting w (some (spanName http request)) spanId)
              w.process.spans.length w.process.traces).1 = none := by
            rw [← Option.not_isSome_iff_eq_none, startSpan_isSome_congr rfl]
            exact fun hstarts => hcreates ⟨hincluded, hactive, hstarts⟩
          obtain ⟨t, hrun⟩ := startActiveWithId_of_none hnone
          rw [tryStartScope_run_of_error (populate setting request integrationName) hrun]

theorem keepsIds_inject (setting : Setting) (context : SpanContext) (headers : HeaderMap)
    (w : World Unit) : KeepsIds w (inject setting context headers w).2 :=
  fun _ => rfl

variable {headers : HeaderMap}

/-- The client span of a response whose headers could be read. -/
theorem respond_of_creates (hhttp : request.isHttpWebRequest = true)
    (htracing : isTracingEnabled http headers = true)
    (henabled : setting.isIntegrationEnabled = true)
    (hcreates : CreatesClientSpan http setting request w) {extracted : Option SpanContext}
    (hextract : extract http setting headers = .ok extracted) :
    (respond http setting request headers w).1 = some w.scopes.length ∧
      idsOfScope (respond http setting request headers w).2.2 w.scopes.length =
        some (clientIds setting w (extracted.map SpanContext.spanId)) := by
  obtain ⟨t, hrun, hids⟩ := createOutboundHttpScope_of_creates henabled hcreates integrationName
    (extracted.map SpanContext.spanId)
  rw [respond, if_neg (by simp [hhttp, htracing]), hextract]
  dsimp only
  rw [hrun]
  dsimp only
  cases hspan : t.spanOf w.scopes.length with
  | none => exact ⟨rfl, hids⟩
  | some found => exact ⟨rfl, (keepsIds_inject setting _ headers t _).trans hids⟩

theorem respond_of_not_creates (hcreates : ¬ CreatesClientSpan http setting request w) :
    (respond http setting request headers w).1 = none := by
  rw [respond]
  split
  · rfl
  · split
    · rfl
    · next extracted hextract =>
        have hnone := createOutboundHttpScope_of_not_creates hcreates integrationName
          (extracted.map SpanContext.spanId)
        split
        · next hrun =>
            rw [hrun] at hnone
            cases hnone
        · rfl

theorem respond_of_error {e : ExtractError} (hextract : extract http setting headers = .error e) :
    (respond http setting request headers w).1 = none := by
  rw [respond, hextract]
  split
  · rfl
  · rfl

end Responses

section RequestStreams

variable {http : HttpSettings} {setting : Setting} {request : Request}
variable {headers : HeaderMap} {w : World Unit}

/-- `GetRequestStream` injects a context: the request is traced and the integration enabled. -/
def Propagates (http : HttpSettings) (setting : Setting) (request : Request)
    (headers : HeaderMap) : Prop :=
  request.isHttpWebRequest = true ∧ isTracingEnabled http headers = true ∧
    setting.isIntegrationEnabled = true

/-- The context that is made for the headers when no span exists for the request. -/
def headerContext (setting : Setting) (w : World Unit) : SpanContext :=
  (setting.tracer.createSpanContext w.activeContext none none false none setting.draws
    w.process.traces).2.1

theorem getRequestStream_of_not_propagates (h : ¬ Propagates http setting request headers) :
    (getRequestStream http setting request headers w).1 = none := by
  rw [getRequestStream]
  split
  · rfl
  · next hskip =>
      have hdisabled : setting.isIntegrationEnabled ≠ true := by
        intro henabled
        exact h (by simpa [Propagates, henabled] using hskip)
      rw [createHttpSpanContext, if_pos hdisabled]

theorem getRequestStream_of_active (h : Propagates http setting request headers)
    {scope : ScopeRef} (hactive : getActiveHttpScope http request w = some scope) :
    (getRequestStream http setting request headers w).1.map idsOf = idsOfScope w scope := by
  obtain ⟨hhttp, htracing, henabled⟩ := h
  rw [getRequestStream, if_neg (by simp [hhttp, htracing]), createHttpSpanContext,
    if_neg (by simp [henabled]), hactive, idsOfScope]
  dsimp only
  cases hspan : w.spanOf scope with
  | none => rfl
  | some found => rfl

theorem getRequestStream_of_none (h : Propagates http setting request headers)
    (hactive : getActiveHttpScope http request w = none) :
    ∃ t, getRequestStream http setting request headers w =
      (some (headerContext setting w), inject setting (headerContext setting w) headers t) := by
  obtain ⟨hhttp, htracing, henabled⟩ := h
  rw [getRequestStream, if_neg (by simp [hhttp, htracing]), createHttpSpanContext,
    if_neg (by simp [henabled]), hactive]
  exact ⟨_, rfl⟩

/-- Injecting a context leaves the header that disables tracing. -/
theorem isTracingEnabled_inject (context : SpanContext) (t : World Unit) :
    isTracingEnabled http (inject setting context headers t).1 =
      isTracingEnabled http headers := by
  have hgetter : headersAccess.getter (inject setting context headers t).1 tracingEnabledHeader =
      headersAccess.getter headers tracingEnabledHeader := by
    rw [inject_headers]
    cases setting.format with
    | b3 =>
        have hb3 := B3.headersOf_names_subset (lockTraceOf context t.process.traces) context
        refine headersAccess_lawful.getter_setAll_of_notMem
          (List.subset_cons_of_subset tracingEnabledHeader hb3) List.mem_cons_self ?_ headers
        intro hmem
        have hnot := hb3 hmem
        revert hnot
        decide
    | w3c =>
        have hw3c := W3C.headersOf_names_subset context
        refine headersAccess_lawful.getter_setAll_of_notMem
          (List.subset_cons_of_subset tracingEnabledHeader hw3c) List.mem_cons_self ?_ headers
        intro hmem
        have hnot := hw3c hmem
        revert hnot
        decide
  have hkept := congrArg HeaderValues.values hgetter
  rw [headersAccess_values, headersAccess_values] at hkept
  rw [isTracingEnabled, isTracingEnabled, headerValue, headerValue, hkept]

end RequestStreams

/-- The same scope, or none, is active in both worlds; its span has kept its ids. -/
structure SameActive (w later : World Unit) : Prop where
  active : later.active = w.active
  ids : ∀ scope, w.active = some scope → idsOfScope later scope = idsOfScope w scope

theorem activeContext_traceId (w : World Unit) :
    w.activeContext.map ISpanContext.traceId =
      w.active.bind fun scope => (idsOfScope w scope).map Prod.fst := by
  unfold World.activeContext idsOfScope
  cases w.active with
  | none => rfl
  | some scope =>
      dsimp only [bind, Option.bind_some]
      cases w.spanOf scope with
      | none => rfl
      | some found => rfl

theorem SameActive.traceId {w later : World Unit} (h : SameActive w later) :
    later.activeContext.map ISpanContext.traceId = w.activeContext.map ISpanContext.traceId := by
  rw [activeContext_traceId, activeContext_traceId, h.active]
  cases hactive : w.active with
  | none => rfl
  | some scope => exact congrArg (Option.map Prod.fst) (h.ids scope hactive)

section Ids

variable (setting : Setting) (w : World Unit) (spanId : Option UInt64)

/-- Without an active scope the trace id is drawn. -/
theorem clientIds_of_none (h : w.activeContext = none) :
    (clientIds setting w spanId).1 =
      TraceId.ofHalves setting.draws.higher setting.draws.lower := by
  rw [clientIds, h]
  rfl

/-- Below an active scope the trace id is that of its span, and the span id is the given one,
or drawn when that is absent or zero. -/
theorem clientIds_of_some {active : ISpanContext} (h : w.activeContext = some active) :
    clientIds setting w spanId = (active.traceId,
      if spanId.getD 0 = 0 then setting.draws.retry else spanId.getD 0) := by
  rw [clientIds, h]
  rfl

end Ids

theorem headerContext_ids (setting : Setting) (w : World Unit) :
    idsOf (headerContext setting w) = clientIds setting w none := rfl

/-- The wrappers of a response. -/
inductive ResponseMethod
  | getResponse
  | getResponseAsync

def ResponseMethod.run (http : HttpSettings) (setting : Setting) (request : Request) :
    ResponseMethod → HeaderMap → World Unit → Option ScopeRef × HeaderMap × World Unit
  | .getResponse => WebRequest.getResponse http setting request
  | .getResponseAsync => WebRequest.getResponseAsyncInternal http setting request

theorem ResponseMethod.run_eq (http : HttpSettings) (setting : Setting) (request : Request)
    (method : ResponseMethod) : method.run http setting request = respond http setting request := by
  cases method with
  | getResponse => rfl
  | getResponseAsync => rfl

/-- The span with the given ids exists: it is that of the active scope, if the request has it
already, or the client span of the response. -/
def ParentExists (http : HttpSettings) (request : Request) (w : World Unit)
    (ids : TraceId × UInt64) (response : Option ScopeRef × HeaderMap × World Unit) : Prop :=
  (∃ scope, getActiveHttpScope http request w = some scope ∧ idsOfScope w scope = some ids) ∨
    ∃ scope, response.1 = some scope ∧ idsOfScope response.2.2 scope = some ids

/-- The condition on the active scope, the random numbers of `GetRequestStream` and the state
at the response. -/
def KeepsIdentity (http : HttpSettings) (setting : Setting) (request : Request)
    (w later : World Unit) : Prop :=
  (∃ active, w.activeContext = some active ∧ active.traceId.equals TraceId.zero = false) ∧
    setting.draws.retry ≠ 0 ∧ CreatesClientSpan http setting request later

section Identity

variable {http : HttpSettings} {setting : Setting} {request : Request} {headers : HeaderMap}
variable {w later : World Unit}

theorem add_one_ne_self (n : UInt64) : n + 1 ≠ n := by
  intro h
  have hnat := congrArg UInt64.toNat h
  rw [UInt64.toNat_add] at hnat
  have hone : UInt64.toNat 1 = 1 := rfl
  have hlt := n.toNat_lt
  omega

/-- The settings at the response, with its random numbers and its clock. -/
def atResponse (setting : Setting) (draws : Draws) (utcNow : Int) : Setting :=
  { setting with draws, utcNow }

theorem createsClientSpan_atResponse (draws : Draws) (utcNow : Int) :
    CreatesClientSpan http (atResponse setting draws utcNow) request later ↔
      CreatesClientSpan http setting request later := by
  have hstarts : (setting.tracer.startSpan
      (clientArguments (atResponse setting draws utcNow) later none none)
      later.process.spans.length later.process.traces).1.isSome = true ↔
      (setting.tracer.startSpan (clientArguments setting later none none)
        later.process.spans.length later.process.traces).1.isSome = true :=
    startSpan_isSome_congr
      (show (atResponse setting draws utcNow).tracer = setting.tracer from rfl) none none
  constructor
  · rintro ⟨hincluded, hactive, hsome⟩
    exact ⟨hincluded, hactive, hstarts.mp hsome⟩
  · rintro ⟨hincluded, hactive, hsome⟩
    exact ⟨hincluded, hactive, hstarts.mpr hsome⟩

/-- With an active scope the ids of the header context become those of the client span. -/
theorem parentExists_of_keepsIdentity (hpropagates : Propagates http setting request headers)
    (hsame : SameActive w later) (hkeeps : KeepsIdentity http setting request w later)
    (t : World Unit) (draws : Draws) (utcNow : Int) :
    ParentExists http request w (idsOf (headerContext setting w))
      (respond http (atResponse setting draws utcNow) request
        (inject setting (headerContext setting w) headers t).1 later) := by
  obtain ⟨hhttp, htracing, henabled⟩ := hpropagates
  obtain ⟨⟨active, hactive, htrace⟩, hdraw, hcreates⟩ := hkeeps
  have hids : idsOf (headerContext setting w) = (active.traceId, setting.draws.retry) :=
    (headerContext_ids setting w).trans (clientIds_of_some setting w none hactive)
  have hspan : (headerContext setting w).spanId ≠ 0 := by
    rw [show (headerContext setting w).spanId = setting.draws.retry from congrArg Prod.snd hids]
    exact hdraw
  have htraceId : (headerContext setting w).traceId.equals TraceId.zero = false := by
    rw [show (headerContext setting w).traceId = active.traceId from congrArg Prod.fst hids]
    exact htrace
  obtain ⟨extracted, hextract, hspanId⟩ := extract_inject_of_ne_zero http setting
    (atResponse setting draws utcNow) (headerContext setting w) headers t rfl htraceId hspan
  have henabled : (atResponse setting draws utcNow).isIntegrationEnabled = true := henabled
  obtain ⟨hclient, hclientIds⟩ := respond_of_creates hhttp
    ((isTracingEnabled_inject _ t).trans htracing) henabled
    ((createsClientSpan_atResponse draws utcNow).mpr hcreates) hextract
  refine Or.inr ⟨_, hclient, ?_⟩
  rw [hclientIds]
  obtain ⟨active', hactive', htraceId'⟩ : ∃ active', later.activeContext = some active' ∧
      active'.traceId = active.traceId := by
    have hmap := hsame.traceId
    rw [hactive] at hmap
    exact Option.map_eq_some_iff.mp hmap
  rw [clientIds_of_some _ later _ hactive', hids, htraceId']
  have hgiven : (Option.map SpanContext.spanId (some extracted)).getD 0 = setting.draws.retry :=
    hspanId.trans (congrArg Prod.snd hids)
  rw [hgiven, if_neg hdraw]

/-- A response whose client span has the ids sent creates that span, whatever numbers are drawn for
it, with ids from what it extracts. -/
theorem clientIds_of_parentExists (hpropagates : Propagates http setting request headers)
    (hnone : getActiveHttpScope http request w = none) (t : World Unit)
    (h : ∀ draws utcNow, ParentExists http request w (idsOf (headerContext setting w))
      (respond http (atResponse setting draws utcNow) request
        (inject setting (headerContext setting w) headers t).1 later)) :
    CreatesClientSpan http setting request later ∧ ∀ draws, ∃ extracted,
      extract http (atResponse setting draws 0)
        (inject setting (headerContext setting w) headers t).1 = .ok extracted ∧
      clientIds (atResponse setting draws 0) later (extracted.map SpanContext.spanId) =
        idsOf (headerContext setting w) := by
  obtain ⟨hhttp, htracing, henabled⟩ := hpropagates
  -- a response without a client span, or with other ids, has not kept them
  have hclient (draws : Draws) : ∃ scope,
      (respond http (atResponse setting draws 0) request
        (inject setting (headerContext setting w) headers t).1 later).1 = some scope ∧
      idsOfScope (respond http (atResponse setting draws 0) request
        (inject setting (headerContext setting w) headers t).1 later).2.2 scope =
        some (idsOf (headerContext setting w)) := by
    rcases h draws 0 with ⟨scope, hactive, -⟩ | hresponse
    · rw [hnone] at hactive
      cases hactive
    · exact hresponse
  have hcreates : CreatesClientSpan http setting request later := by
    by_contra hnot
    obtain ⟨scope, hscope, -⟩ := hclient setting.draws
    rw [respond_of_not_creates
      (fun hcreates => hnot ((createsClientSpan_atResponse _ _).mp hcreates))] at hscope
    cases hscope
  refine ⟨hcreates, fun draws => ?_⟩
  obtain ⟨scope, hscope, hscopeIds⟩ := hclient draws
  cases hextract : extract http (atResponse setting draws 0)
      (inject setting (headerContext setting w) headers t).1 with
  | error e =>
      rw [respond_of_error hextract] at hscope
      cases hscope
  | ok extracted =>
      refine ⟨extracted, rfl, ?_⟩
      have henabled : (atResponse setting draws 0).isIntegrationEnabled = true := henabled
      obtain ⟨hclient, hclientIds⟩ := respond_of_creates hhttp
        ((isTracingEnabled_inject _ t).trans htracing) henabled
        ((createsClientSpan_atResponse draws 0).mpr hcreates) hextract
      obtain rfl := Option.some.inj (hclient.symm.trans hscope)
      exact Option.some.inj (hclientIds.symm.trans hscopeIds)

/-- Ids that are right whatever is drawn at the response come from an active scope. -/
theorem keepsIdentity_of_parentExists (hpropagates : Propagates http setting request headers)
    (hsame : SameActive w later) (hnone : getActiveHttpScope http request w = none)
    (t : World Unit)
    (h : ∀ draws utcNow, ParentExists http request w (idsOf (headerContext setting w))
      (respond http (atResponse setting draws utcNow) request
        (inject setting (headerContext setting w) headers t).1 later)) :
    KeepsIdentity http setting request w later := by
  obtain ⟨hcreates, hids⟩ := clientIds_of_parentExists hpropagates hnone t h
  cases hactive : w.activeContext with
  | none =>
      have hlater : later.activeContext = none := by
        have hmap := hsame.traceId
        rw [hactive] at hmap
        exact Option.map_eq_none_iff.mp hmap
      obtain ⟨extracted, -, hsameIds⟩ :=
        hids ⟨(headerContext setting w).traceId.higher + 1, 0, 0, 0⟩
      have htraceId := (clientIds_of_none _ later _ hlater).symm.trans
        (congrArg Prod.fst hsameIds)
      exact absurd (congrArg TraceId.higher htraceId) (add_one_ne_self _)
  | some active =>
      have hheader : idsOf (headerContext setting w) = (active.traceId, setting.draws.retry) :=
        (headerContext_ids setting w).trans (clientIds_of_some setting w none hactive)
      obtain ⟨active', hactive', -⟩ : ∃ active', later.activeContext = some active' ∧
          active'.traceId = active.traceId := by
        have hmap := hsame.traceId
        rw [hactive] at hmap
        exact Option.map_eq_some_iff.mp hmap
      have hnonzero : ¬ ((headerContext setting w).traceId.equals TraceId.zero = true ∨
          (headerContext setting w).spanId = 0) := by
        intro hzero
        obtain ⟨extracted, hextract, hsameIds⟩ :=
          hids ⟨0, 0, 0, (headerContext setting w).spanId + 1⟩
        have hspanId := extract_inject_of_zero http setting _ _ headers t rfl hzero hextract
        rw [clientIds_of_some _ later _ hactive', hspanId] at hsameIds
        have hsucc : (headerContext setting w).spanId + 1 = (headerContext setting w).spanId :=
          congrArg Prod.snd hsameIds
        exact add_one_ne_self _ hsucc
      rw [not_or] at hnonzero
      refine ⟨⟨active, hactive, ?_⟩, ?_, hcreates⟩
      · rw [← show (headerContext setting w).traceId = active.traceId from
            congrArg Prod.fst hheader]
        exact Bool.eq_false_iff.mpr hnonzero.1
      · rw [← show (headerContext setting w).spanId = setting.draws.retry from
          congrArg Prod.snd hheader]
        exact hnonzero.2

end Identity

/-- The ids sent with the request stream are those of an existing span of the request whatever is
drawn at the response, exactly when nothing is sent, the active scope is that of the request,
or an active scope with a trace id is there and the response gets its client span. -/
theorem clientSpan_keeps_ids_iff (http : HttpSettings) (setting : Setting) (request : Request)
    (headers : HeaderMap) {w later : World Unit} (method : ResponseMethod)
    (hsame : SameActive w later) :
    (∀ draws utcNow context,
      (getRequestStream http setting request headers w).1 = some context →
      ParentExists http request w (idsOf context)
        (method.run http (atResponse setting draws utcNow) request
          (getRequestStream http setting request headers w).2.1 later)) ↔
      ¬ Propagates http setting request headers ∨
        (getActiveHttpScope http request w).isSome = true ∨
        KeepsIdentity http setting request w later := by
  by_cases hpropagates : Propagates http setting request headers
  · cases hactive : getActiveHttpScope http request w with
    | some scope =>
        have hsent := getRequestStream_of_active hpropagates hactive
        refine iff_of_true ?_ (Or.inr (Or.inl rfl))
        intro draws utcNow context hcontext
        rw [hcontext] at hsent
        exact Or.inl ⟨scope, hactive, hsent.symm⟩
    | none =>
        obtain ⟨t, hsent⟩ := getRequestStream_of_none hpropagates hactive
        rw [hsent]
        constructor
        · intro h
          refine Or.inr (Or.inr (keepsIdentity_of_parentExists hpropagates hsame hactive t ?_))
          intro draws utcNow
          have hparent := h draws utcNow _ rfl
          rwa [method.run_eq] at hparent
        · rintro (hnot | hsome | hkeeps)
          · exact absurd hpropagates hnot
          · cases hsome
          · intro draws utcNow context hcontext
            obtain rfl := Option.some.inj hcontext
            rw [method.run_eq]
            exact parentExists_of_keepsIdentity hpropagates hsame hkeeps t draws utcNow
  · refine iff_of_true ?_ (Or.inl hpropagates)
    intro draws utcNow context hcontext
    rw [getRequestStream_of_not_propagates hpropagates] at hcontext
    cases hcontext

section Examples

/-- No host is excluded and texts are compared as they are. -/
def plainHttp : HttpSettings := ⟨true, false, [], fun a b => a == b⟩

def postOrder : Request :=
  ⟨true, some (text "POST"), text "shop", text "/order", text "http://shop/order"⟩

/-- A process without spans and scopes. -/
def idleWorld : World Unit := ⟨⟨[], [], []⟩, [], none, false, []⟩

/-- Without an active scope the headers name a trace that no span belongs to. -/
theorem clientSpan_loses_trace :
    SameActive idleWorld idleWorld ∧
    ¬ ∀ draws utcNow context,
      (getRequestStream plainHttp Setting.plain postOrder (fun _ => []) idleWorld).1 =
        some context →
      ParentExists plainHttp postOrder idleWorld (idsOf context)
        (ResponseMethod.getResponse.run plainHttp (atResponse Setting.plain draws utcNow) postOrder
          (getRequestStream plainHttp Setting.plain postOrder (fun _ => []) idleWorld).2.1
          idleWorld) := by
  have hsame : SameActive idleWorld idleWorld := ⟨rfl, fun _ _ => rfl⟩
  refine ⟨hsame, ?_⟩
  intro h
  have hpropagates : Propagates plainHttp Setting.plain postOrder fun _ => [] :=
    ⟨rfl, by decide, rfl⟩
  obtain ⟨t, hsent⟩ := getRequestStream_of_none (w := idleWorld) hpropagates rfl
  rw [hsent] at h
  obtain ⟨⟨active, hactive, -⟩, -⟩ := keepsIdentity_of_parentExists hpropagates hsame rfl t
    fun draws utcNow => h draws utcNow _ rfl
  cases hactive

theorem clientSpan_keeps_ids_idle :
    SameActive idleWorld idleWorld ∧
    ((∀ draws utcNow context,
      (getRequestStream plainHttp Setting.plain postOrder (fun _ => []) idleWorld).1 =
        some context →
      ParentExists plainHttp postOrder idleWorld (idsOf context)
        (ResponseMethod.getResponse.run plainHttp (atResponse Setting.plain draws utcNow) postOrder
          (getRequestStream plainHttp Setting.plain postOrder (fun _ => []) idleWorld).2.1
          idleWorld)) ↔
      ¬ Propagates plainHttp Setting.plain postOrder (fun _ => []) ∨
        (getActiveHttpScope plainHttp postOrder idleWorld).isSome = true ∨
        KeepsIdentity plainHttp Setting.plain postOrder idleWorld idleWorld) :=
  have hsame : SameActive idleWorld idleWorld := ⟨rfl, fun _ _ => rfl⟩
  ⟨hsame, clientSpan_keeps_ids_iff plainHttp Setting.plain postOrder (fun _ => []) .getResponse
    hsame⟩

end Examples

end SignalFxTracing.Integrations.WebRequest
