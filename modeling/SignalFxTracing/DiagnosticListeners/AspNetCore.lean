import SignalFxTracing.Integrations.Scopes

/-!
# ASP.NET Core requests (`AspNetCoreDiagnosticObserver.cs`)

The handler of `HttpRequestIn.Start` opens a scope unless the request is
ignored, and the handler of `HttpRequestIn.Stop` disposes whatever scope is
active. Nothing connects a Stop with its request.

## Implementation notes

Code outside the repository is known by its outcome: the payload of an event,
the properties of the request, the patterns and callbacks of the options. The
base class logs what a handler raises, so that the state it reached stays.
-/

namespace SignalFxTracing.DiagnosticListeners.AspNetCore

open Clr Lib Lib.Guarded Trace Integrations

def integrationName : Text := text "AspNetCore"

def componentName : Text := text "aspnet_core"

def httpRequestInOperationName : Text := text "aspnet_core.request"

/-- The options of the observer and what it asks the runtime and the settings for. -/
structure Options (H : Type) where
  ignorePatterns : List (H → Except Exn Bool)
  useWebServerResourceAsOperationName : Bool
  toUpperInvariant : Text → Text
  toLowerInvariant : Text → Text

/-- `ShouldIgnore`: the first pattern that answers yes or raises decides. -/
def shouldIgnore {H : Type} : List (H → Except Exn Bool) → H → Except Exn Bool
  | [], _ => .ok false
  | ignore :: rest, httpContext =>
      match ignore httpContext with
      | .ok true => .ok true
      | .ok false => shouldIgnore rest httpContext
      | .error e => .error e

/-- What the handler of Start reads from the request. -/
structure Request where
  host : Option Text
  method : Option Text
  url : Text
  cleanUriPath : Text

inductive AddressFamily
  | interNetwork
  | interNetworkV6
  | other

structure StartEvent (H : Type) where
  httpContext : Except Exn H
  request : Except Exn Request
  /-- What `ExtractPropagatedContext` returns. -/
  propagatedContext : Option ISpanContext
  remoteIp : Except Exn (Option (AddressFamily × Text))
  /-- The callback `OnRequest` and the response headers, after `ActivateSpan`. -/
  onRequest : Except Exn PUnit

structure ActionDescriptor where
  controller : Option Text
  action : Option Text
  template : Option Text

structure BeforeActionEvent (H : Type) where
  httpContext : Except Exn H
  actionDescriptor : Except Exn ActionDescriptor
  method : Except Exn (Option Text)

structure UnhandledExceptionEvent where
  /-- The exception and the context of the payload. -/
  exception : Except Exn Exn
  onError : Except Exn PUnit

section Handlers

variable (setting : Setting) {H : Type} (options : Options H)

/-- `StartSpan`. The exception that leaves it is that of `ToBoolean(null)`. -/
def startSpan (operationName : Option Text) (parent : Option ISpanContext) :
    Integrations.Action Unit SpanRef := ⟨fun w =>
  match setting.tracer.startSpan (startArguments setting w operationName parent none)
      w.process.spans.length w.process.traces with
  | (none, traces) => (.error .argumentNull, { w with process := { w.process with traces } })
  | (some span, traces) =>
      (.ok w.process.spans.length,
        { w with process :=
          { traces, contexts := w.process.contexts ++ [span.context],
            spans := w.process.spans ++ [span] } })⟩

/-- `ActivateSpan`. -/
def activateSpan (span : SpanRef) (finishOnClose : Bool) :
    Integrations.Action Unit ScopeRef := ⟨fun w =>
  (.ok w.scopes.length,
    { w with
      scopes := w.scopes ++ [⟨w.active, span, finishOnClose⟩]
      active := some w.scopes.length })⟩

/-- `SetTag` of a span that no scope holds yet. -/
def tagSpan (i : SpanRef) (key : Text) (value : Option Text) :
    Integrations.Action Unit PUnit := modify fun w =>
  { w with process := (Process.setTag setting.tracer w.process i key value).getD w.process }

/-- Successive calls of `SetTag`. -/
def tagSpanAll (i : SpanRef) : List (Text × Option Text) → Integrations.Action Unit PUnit
  | [] => pure ⟨⟩
  | (key, value) :: rest => do
      tagSpan setting i key value
      tagSpanAll i rest

/-- The names that `DecorateWebServerSpan` gives a span. -/
def nameWebServerSpan (resourceName : Text) (span : Span) : Span :=
  let resourceName := trim resourceName
  { span with
    resourceName := some resourceName
    operationName :=
      if options.useWebServerResourceAsOperationName ∧ resourceName ≠ [] then some resourceName
      else span.operationName }

/-- The tags that `DecorateWebServerSpan` sets. -/
def webServerTags (request : Request) (remoteIp : Option (AddressFamily × Text)) :
    List (Text × Option Text) :=
  [(Tags.spanKind, some (text "server")),
    (Tags.httpMethod,
      some ((request.method.map options.toUpperInvariant).getD (text "UNKNOWN"))),
    (Tags.httpRequestHeadersHost, request.host), (Tags.httpUrl, some request.url)] ++
  match remoteIp with
  | some (.interNetwork, address) => [(Tags.peerIpV4, some address)]
  | some (.interNetworkV6, address) => [(Tags.peerIpV6, some address)]
  | _ => []

/-- The tags and the names that `OnHostingHttpRequestInStart` gives its span. -/
def decorateRequestSpan (e : StartEvent H) (request : Request) (span : SpanRef) :
    Integrations.Action Unit PUnit := do
  tagSpan setting span Tags.instrumentationName (some componentName)
  let remoteIp ← lift e.remoteIp
  modify fun w => { w with process := { w.process with
    spans := w.process.spans.modify span
      (nameWebServerSpan options (options.toLowerInvariant request.cleanUriPath)) } }
  tagSpanAll setting span (webServerTags options request remoteIp)
  tagSpan setting span Tags.instrumentationName (some integrationName)

/-- `OnHostingHttpRequestInStart` up to `ActivateSpan`: the span, unless the request is
ignored. -/
def startRequestSpan (e : StartEvent H) : Integrations.Action Unit (Option SpanRef) := do
  let httpContext ← lift e.httpContext
  let ignored ← lift (shouldIgnore options.ignorePatterns httpContext)
  match ignored with
  | true => pure none
  | false => do
      let request ← lift e.request
      let span ← startSpan setting (some httpRequestInOperationName) e.propagatedContext
      decorateRequestSpan setting options e request span
      pure (some span)

/-- `OnHostingHttpRequestInStart`. -/
def onHostingHttpRequestInStart (e : StartEvent H) : Integrations.Action Unit PUnit := do
  let span ← startRequestSpan setting options e
  match span with
  | none => pure ⟨⟩
  | some span => do
      let _ ← activateSpan span true
      lift e.onRequest

/-- The operation name that the route of an action gives. -/
def actionOperationName (descriptor : ActionDescriptor) : Option Text :=
  if isNullOrEmpty descriptor.template then
    if isNullOrEmpty descriptor.controller ∨ isNullOrEmpty descriptor.action then none
    else some (options.toLowerInvariant
      (descriptor.controller.getD [] ++ text "." ++ descriptor.action.getD []))
  else descriptor.template

/-- The changes that `OnMvcBeforeAction` makes to the active span. -/
def decorateActionSpan (descriptor : ActionDescriptor) (span : Span) : Span :=
  let tags := descriptor.controller.elim span.tags fun name =>
    span.tags.insert Tags.aspNetController (some name)
  let tags := descriptor.action.elim tags fun name => tags.insert Tags.aspNetAction (some name)
  { span with
    tags
    operationName := (actionOperationName options descriptor).or span.operationName }

/-- The method tag of `OnMvcBeforeAction`, read from the request when it is absent. -/
def addMethodTag (r : ScopeRef) (method : Except Exn (Option Text)) :
    Integrations.Action Unit PUnit := do
  let w ← get
  match w.spanOf r with
  | none => pure ⟨⟩
  | some (_, span) =>
      if Tags.httpMethod ∈ span.tags then pure ⟨⟩
      else do
        let httpMethod ← lift method
        match httpMethod.map options.toUpperInvariant with
        | none => pure ⟨⟩
        | some httpMethod =>
            if httpMethod = [] then pure ⟨⟩ else addTag r Tags.httpMethod (some httpMethod)

/-- `OnMvcBeforeAction`. -/
def onMvcBeforeAction (e : BeforeActionEvent H) : Integrations.Action Unit PUnit := do
  let httpContext ← lift e.httpContext
  let ignored ← lift (shouldIgnore options.ignorePatterns httpContext)
  let w ← get
  match ignored, w.active with
  | false, some r => do
      let descriptor ← lift e.actionDescriptor
      addMethodTag options r e.method
      modifySpanOf r (decorateActionSpan options descriptor)
  | _, _ => pure ⟨⟩

/-- `Error = true` for a server-side error. -/
def setServerError (r : ScopeRef) (statusCode : Int) : Integrations.Action Unit PUnit :=
  if statusCode.tdiv 100 = 5 then setError r else pure ⟨⟩

/-- `OnHostingHttpRequestInStop`, with the scope that it disposes. -/
def onHostingHttpRequestInStop (statusCode : Except Exn Int) :
    Integrations.Action Unit (Option ScopeRef) := do
  let w ← get
  match w.active with
  | none => pure none
  | some r => do
      let statusCode ← lift statusCode
      setTag setting r Tags.httpStatusCode (some (text (toString statusCode)))
      setServerError r statusCode
      modify (dispose setting (some r))
      pure (some r)

/-- `OnHostingUnhandledException`. -/
def onHostingUnhandledException (e : UnhandledExceptionEvent) : Integrations.Action Unit PUnit := do
  let w ← get
  match w.active with
  | none => pure ⟨⟩
  | some r => do
      let exception ← lift e.exception
      setException setting (some r) exception
      lift e.onError

end Handlers

/-- Scopes and calls are as before, and the spans still belong to their traces. -/
def Undisturbed (w w' : World Unit) : Prop := Quiet w w' ∧ KeepsTraced w w'

instance : IsPreorder (World Unit) Undisturbed where
  refl := fun w => ⟨Quiet.rfl, Std.Refl.refl w⟩
  trans := fun _ _ _ h k => ⟨IsTrans.trans _ _ _ h.1 k.1, IsTrans.trans _ _ _ h.2 k.2⟩

section Start

variable (setting : Setting) {H : Type} (options : Options H)

theorem within_startSpan (operationName : Option Text) (parent : Option ISpanContext) :
    Within Undisturbed (startSpan setting operationName parent) := by
  intro w
  unfold startSpan
  dsimp only
  split
  · next traces hstart =>
      obtain ⟨hgrown, -⟩ := Tracer.startSpan_traces hstart
      exact ⟨⟨rfl, rfl, rfl, rfl⟩, fun _ hi => hi.grow (List.prefix_refl _) hgrown⟩
  · next span traces hstart =>
      obtain ⟨hgrown, -⟩ := Tracer.startSpan_traces hstart
      exact ⟨⟨rfl, rfl, rfl, rfl⟩, fun _ hi => hi.grow (List.prefix_append _ [span]) hgrown⟩

/-- A started span belongs to a trace. -/
theorem startSpan_isTraced (operationName : Option Text) (parent : Option ISpanContext) :
    Ensures (fun _ => True) (startSpan setting operationName parent)
      fun i w => w.process.IsTraced i := by
  rintro w - i hi
  unfold startSpan at hi ⊢
  dsimp only at hi ⊢
  split at hi
  · cases hi
  · next span traces hstart =>
      obtain rfl := Except.ok.inj hi
      obtain ⟨-, htraced⟩ := Tracer.startSpan_traces hstart
      obtain ⟨t, ht, hlt⟩ := htraced span rfl
      exact ⟨span, t, List.getElem?_concat_length .., ht, hlt⟩

theorem within_tagSpan (i : SpanRef) (key : Text) (value : Option Text) :
    Within Undisturbed (tagSpan setting i key value) :=
  within_modify fun _ => ⟨⟨rfl, rfl, rfl, rfl⟩, fun _ hj => hj.setTag setting.tracer i key value⟩

theorem within_tagSpanAll (i : SpanRef) (tags : List (Text × Option Text)) :
    Within Undisturbed (tagSpanAll setting i tags) := by
  induction tags with
  | nil => exact within_pure _
  | cons tag rest ih => exact within_bind (within_tagSpan setting i tag.1 tag.2) fun _ => ih

theorem within_decorateRequestSpan (e : StartEvent H) (request : Request) (span : SpanRef) :
    Within Undisturbed (decorateRequestSpan setting options e request span) := by
  refine within_bind (within_tagSpan setting _ _ _) fun _ => ?_
  refine within_bind (within_lift _) fun remoteIp => ?_
  refine within_bind (within_modify fun _ => ⟨⟨rfl, rfl, rfl, rfl⟩, fun _ hi => ?_⟩) fun _ => ?_
  · exact hi.modify span fun _ => rfl
  · refine within_bind (within_tagSpanAll setting _ _) fun _ => ?_
    exact within_tagSpan setting _ _ _

/-- Up to `ActivateSpan` no scope is opened. -/
theorem within_startRequestSpan (e : StartEvent H) :
    Within Undisturbed (startRequestSpan setting options e) := by
  refine within_bind (within_lift _) fun httpContext => ?_
  refine within_bind (within_lift _) fun ignored => ?_
  cases ignored with
  | true => exact within_pure _
  | false =>
      refine within_bind (within_lift _) fun request => ?_
      refine within_bind (within_startSpan setting _ _) fun span => ?_
      refine within_bind (within_decorateRequestSpan setting options e request span) fun _ => ?_
      exact within_pure _

/-- The span of a request belongs to a trace. -/
theorem startRequestSpan_isTraced (e : StartEvent H) :
    Ensures (fun _ => True) (startRequestSpan setting options e)
      fun found w => ∀ i, found = some i → w.process.IsTraced i := by
  refine ensures_bind (ensures_true _) fun httpContext => ?_
  refine ensures_bind (ensures_true _) fun ignored => ?_
  cases ignored with
  | true => exact ensures_pure fun _ _ => nofun
  | false =>
      refine ensures_bind (ensures_true _) fun request => ?_
      refine ensures_bind (startSpan_isTraced setting _ _) fun i => ?_
      have hdecorate := within_decorateRequestSpan setting options e request i
      refine ensures_bind (ensures_of_within hdecorate fun _ _ h hi => h.2 i hi) fun _ => ?_
      refine ensures_pure fun w hi j hj => ?_
      obtain rfl := Option.some.inj hj
      exact hi

/-- A Start opens the scope of its request and makes it active, or leaves the scopes alone. -/
theorem onHostingHttpRequestInStart_scopes (e : StartEvent H) (w : World Unit) :
    let w' := ((onHostingHttpRequestInStart setting options e).run w).2
    KeepsTraced w w' ∧
      ((w'.scopes = w.scopes ∧ w'.active = w.active) ∨
        ∃ span, w'.scopes = w.scopes ++ [⟨w.active, span, true⟩] ∧
          w'.active = some w.scopes.length ∧ w'.process.IsTraced span) := by
  dsimp only
  obtain ⟨hquiet, htraced⟩ := within_startRequestSpan setting options e w
  cases h : ((startRequestSpan setting options e).run w).1 with
  | error exn =>
      rw [onHostingHttpRequestInStart, run_bind_of_error h]
      exact ⟨htraced, Or.inl ⟨hquiet.scopes, hquiet.active⟩⟩
  | ok span =>
      rw [onHostingHttpRequestInStart, run_bind_of_ok h]
      cases span with
      | none => exact ⟨htraced, Or.inl ⟨hquiet.scopes, hquiet.active⟩⟩
      | some span =>
          refine ⟨htraced, Or.inr ⟨span, ?_, ?_, ?_⟩⟩
          · rw [← hquiet.scopes, ← hquiet.active]
            rfl
          · rw [← hquiet.scopes]
            rfl
          · exact startRequestSpan_isTraced setting options e w trivial _ h span rfl

end Start

section Other

variable (setting : Setting) {H : Type} (options : Options H)

theorem within_addMethodTag (r : ScopeRef) (method : Except Exn (Option Text)) :
    Within Undisturbed (addMethodTag options r method) := by
  refine within_bind within_get fun w => ?_
  split
  · exact within_pure _
  · split
    · exact within_pure _
    · refine within_bind (within_lift _) fun httpMethod => ?_
      split
      · exact within_pure _
      · split
        · exact within_pure _
        · exact fun w => ⟨within_addTag r _ _ w, within_addTag_keepsTraced r _ _ w⟩

theorem within_onMvcBeforeAction (e : BeforeActionEvent H) :
    Within Undisturbed (onMvcBeforeAction options e) := by
  refine within_bind (within_lift _) fun httpContext => ?_
  refine within_bind (within_lift _) fun ignored => ?_
  refine within_bind within_get fun w => ?_
  split
  · refine within_bind (within_lift _) fun descriptor => ?_
    refine within_bind (within_addMethodTag options _ _) fun _ => ?_
    have hcontext : ∀ span, (decorateActionSpan options descriptor span).context = span.context :=
      fun _ => rfl
    exact fun w => ⟨within_modifySpanOf _ _ w, within_modifySpanOf_keepsTraced _ hcontext w⟩
  · exact within_pure _

theorem within_onHostingUnhandledException (e : UnhandledExceptionEvent) :
    Within Undisturbed (onHostingUnhandledException setting e) := by
  refine within_bind within_get fun w => ?_
  split
  · exact within_pure _
  · refine within_bind (within_lift _) fun exception => ?_
    refine within_bind (fun w => ⟨?_, ?_⟩) fun _ => within_lift _
    · exact within_setException setting _ _ w
    · exact within_setException_keepsTraced setting _ _ w

end Other

section Stop

/-- The scopes are as before, and so are all spans but that of one scope. -/
structure TouchesOnly (r : ScopeRef) (w w' : World Unit) : Prop where
  scopes : w'.scopes = w.scopes
  others : ∀ scope, w.scopes[r]? = some scope →
    ∀ i, i ≠ scope.span → w'.process.spans[i]? = w.process.spans[i]?

instance (r : ScopeRef) : IsPreorder (World Unit) (TouchesOnly r) where
  refl := fun _ => ⟨rfl, fun _ _ _ _ => rfl⟩
  trans := fun _ _ _ h k => by
    refine ⟨k.scopes.trans h.scopes, fun scope hscope i hi => ?_⟩
    have hsame : _ = some scope := (congrArg (·[r]?) h.scopes).trans hscope
    exact (k.others scope hsame i hi).trans (h.others scope hscope i hi)

variable {setting : Setting} {w : World Unit}

theorem touchesOnly_setSpan {r : ScopeRef} {i : SpanRef} {span : Span}
    (h : w.spanOf r = some (i, span)) (after : Span) : TouchesOnly r w (w.setSpan i after) := by
  refine ⟨rfl, fun scope hscope j hj => List.getElem?_set_ne ?_⟩
  simp only [World.spanOf, bind, hscope, Option.bind_some, Option.bind_eq_some_iff, pure,
    Option.some.injEq, Prod.mk.injEq] at h
  obtain ⟨_, -, rfl, -⟩ := h
  exact hj.symm

theorem within_setServerError (r : ScopeRef) (statusCode : Int) :
    Within Undisturbed (setServerError r statusCode) := by
  unfold setServerError
  split
  · exact fun w => ⟨within_setError r w, within_setError_keepsTraced r w⟩
  · exact within_pure _

theorem within_setServerError_touchesOnly (r : ScopeRef) (statusCode : Int) :
    Within (TouchesOnly r) (setServerError r statusCode) := by
  unfold setServerError
  split
  · refine within_modify fun w => ?_
    split
    · exact Std.Refl.refl w
    · next i span hspan => exact touchesOnly_setSpan hspan _
  · exact within_pure _

theorem stop_of_none (h : w.active = none) (statusCode : Except Exn Int) :
    ((onHostingHttpRequestInStop setting statusCode).run w).2 = w := by
  rw [onHostingHttpRequestInStop, run_get_bind, h]
  rfl

/-- An exception before the tag is set leaves everything as it is. -/
theorem stop_of_error (e : Exn) : ((onHostingHttpRequestInStop setting (.error e)).run w).2 = w := by
  rw [onHostingHttpRequestInStop, run_get_bind]
  cases w.active with
  | none => rfl
  | some r => rfl

theorem httpStatusCode_not_special : Tags.httpStatusCode ∉ Tags.specialKeys := by decide

/-- With a response, the active scope is tagged and disposed, whosever it is. -/
theorem stop_of_ok {r : ScopeRef} (h : w.active = some r) (statusCode : Int) :
    ∃ tagged, Undisturbed w tagged ∧ TouchesOnly r w tagged ∧
      ((onHostingHttpRequestInStop setting (.ok statusCode)).run w).2 =
        dispose setting (some r) tagged := by
  obtain ⟨w', htag, htouched⟩ := setTag_run_of_not_special setting r httpStatusCode_not_special
    (some (text (toString statusCode))) w
  have hundisturbed : Undisturbed w w' := by
    have hquiet := within_setTag setting r Tags.httpStatusCode
      (some (text (toString statusCode))) w
    have htraced := within_setTag_keepsTraced setting r Tags.httpStatusCode
      (some (text (toString statusCode))) w
    rw [htag] at hquiet htraced
    exact ⟨hquiet, htraced⟩
  have honly : TouchesOnly r w w' := by
    rcases htouched with rfl | ⟨i, shown, tags, hshown, rfl⟩
    · exact Std.Refl.refl w'
    · exact touchesOnly_setSpan hshown _
  have herror : ((setServerError r statusCode).run w').1 = .ok ⟨⟩ := by
    unfold setServerError
    split
    · rfl
    · rfl
  refine ⟨((setServerError r statusCode).run w').2, ?_, ?_, ?_⟩
  · exact IsTrans.trans _ _ _ hundisturbed (within_setServerError r statusCode w')
  · exact IsTrans.trans _ _ _ honly (within_setServerError_touchesOnly r statusCode w')
  · rw [onHostingHttpRequestInStop, run_get_bind, h]
    dsimp only
    rw [run_lift_bind, run_bind_of_ok (by rw [htag]), htag, run_bind_of_ok herror]
    rfl

end Stop

end SignalFxTracing.DiagnosticListeners.AspNetCore
