import SignalFxTracing.Integrations.WebRequest
import SignalFxTracing.Process.SamplingDecision

/-!
# What opening and closing an outbound scope changes (`ScopeFactory.cs`)

A client span takes the kind of its parent away and leaves all other spans as
they are; closing its scope leaves all spans but its own.
-/

namespace SignalFxTracing.Integrations.WebRequest

open Clr Lib Lib.Guarded Trace Propagation

/-- The span object at `i` is not finished and belongs to a trace of the process. -/
structure Live (w : World Unit) (i : SpanRef) (span : Span) : Prop where
  isAt : w.process.spans[i]? = some span
  unfinished : span.isFinished = false
  inTrace : ∃ t, span.context.traceContext = some t ∧ t < w.process.traces.length

section SetTag

variable {w : World Unit} {i : SpanRef} {span : Span} {r : ScopeRef} {scope : Scope}

theorem spanOf_of_scope (hscope : w.scopes[r]? = some scope)
    (hspan : w.process.spans[scope.span]? = some span) :
    w.spanOf r = some (scope.span, span) := by
  simp [World.spanOf, hscope, hspan]

theorem scope_of_spanOf (h : w.spanOf r = some (i, span)) :
    ∃ scope, w.scopes[r]? = some scope ∧ scope.span = i ∧ w.process.spans[i]? = some span := by
  simp only [World.spanOf, bind, Option.bind_eq_some_iff, pure, Option.some.injEq,
    Prod.mk.injEq] at h
  obtain ⟨scope, hscope, found, hfound, rfl, rfl⟩ := h
  exact ⟨scope, hscope, rfl, hfound⟩

theorem Live.lt (h : Live w i span) : i < w.process.spans.length :=
  (List.getElem?_eq_some_iff.mp h.isAt).1

theorem Live.setSpan_self (h : Live w i span) {other : Span}
    (hcontext : other.context.traceContext = span.context.traceContext)
    (hunfinished : other.isFinished = false) : Live (w.setSpan i other) i other where
  isAt := List.getElem?_set_self h.lt
  unfinished := hunfinished
  inTrace := by
    rw [hcontext]
    exact h.inTrace

/-- The scope `r` shows a live span. -/
structure LiveAt (w : World Unit) (r : ScopeRef) (scope : Scope) (span : Span) : Prop where
  isScope : w.scopes[r]? = some scope
  live : Live w scope.span span

/-- A tag without a special meaning is put on a live span. -/
theorem LiveAt.setTag_run (h : LiveAt w r scope span) (setting : Setting) {key : Text}
    (hkey : key ∉ Tags.specialKeys) (value : Option Text) :
    (setTag setting r key value).run w =
      (.ok ⟨⟩, w.setSpan scope.span (span.putTag key value)) := by
  obtain ⟨t, ht, hlt⟩ := h.live.inTrace
  have htrace : w.process.traces[t]? = some w.process.traces[t] := List.getElem?_eq_getElem hlt
  have hfound : (w.spanOf r).bind (fun found => (w.process.spanInTrace found.1).map
      (found.1, ·)) = some (scope.span, span, t, w.process.traces[t]) := by
    rw [spanOf_of_scope h.isScope h.live.isAt, Option.bind_some,
      Process.State.spanInTrace_eq_some.mpr ⟨h.live.isAt, ht, htrace⟩]
    rfl
  simp only [setTag, hfound, Span.setTag_eq_putTag _ hkey value h.live.unfinished,
    List.set_getElem_self hlt]
  rfl

theorem LiveAt.setSpan (h : LiveAt w r scope span) {other : Span}
    (hcontext : other.context.traceContext = span.context.traceContext)
    (hunfinished : other.isFinished = span.isFinished) :
    LiveAt (w.setSpan scope.span other) r scope other where
  isScope := h.isScope
  live := h.live.setSpan_self hcontext (hunfinished.trans h.live.unfinished)

theorem LiveAt.putTag (h : LiveAt w r scope span) (key : Text) (value : Option Text) :
    LiveAt (w.setSpan scope.span (span.putTag key value)) r scope (span.putTag key value) :=
  h.setSpan rfl rfl

/-- The assignment of the service name. -/
def named (serviceName : Option Text) (span : Span) : Span :=
  { span with context := { span.context with serviceName } }

theorem LiveAt.named_run (h : LiveAt w r scope span) (serviceName : Option Text) :
    (modifySpanOf r (named serviceName) : Action Unit PUnit).run w =
      (.ok ⟨⟩, w.setSpan scope.span (named serviceName span)) := by
  simp only [modifySpanOf, run_modify, spanOf_of_scope h.isScope h.live.isAt]

end SetTag

section Populate

variable (setting : Setting) (w : World Unit)

/-- The reference to the span of the parent scope. -/
def parentSpan (r : ScopeRef) : Option SpanRef :=
  (w.scopes[r]?.bind Scope.parent).bind fun parent => (w.spanOf parent).map Prod.fst

/-- A span behind the start of a client span below it. -/
def clearKind (span : Span) : Span :=
  if span.getTag Tags.spanKind = some clientKind then span.putTag Tags.spanKind none else span

/-- The scopes and traces are as they were. Of the spans other than `own` only that at `parent` may
have other tags; if it is live it has lost the client kind. -/
structure ClearsKind (own parent : Option SpanRef) (w w' : World Unit) : Prop where
  scopes : w'.scopes = w.scopes
  active : w'.active = w.active
  traces : w'.process.traces = w.process.traces
  others : ∀ i : SpanRef, own ≠ some i → parent ≠ some i →
    w'.process.spans[i]? = w.process.spans[i]?
  context : ∀ (i : SpanRef) (span : Span), own ≠ some i → w.process.spans[i]? = some span →
    ∃ after : Span, w'.process.spans[i]? = some after ∧ after.context = span.context
  cleared : ∀ i span, own ≠ some i → parent = some i → Live w i span →
    w'.process.spans[i]? = some (clearKind span)

variable {own parent : Option SpanRef} {i : SpanRef} {span other : Span}

theorem clearsKind_rfl_of
    (h : ∀ i span, parent = some i → Live w i span → clearKind span = span) :
    ClearsKind own parent w w where
  scopes := rfl
  active := rfl
  traces := rfl
  others _ _ _ := rfl
  context _ span _ hspan := ⟨span, hspan, rfl⟩
  cleared i span _ hi hlive := by rw [h i span hi hlive, hlive.isAt]

theorem ClearsKind.mono {w' : World Unit} (h : ClearsKind none parent w w') :
    ClearsKind own parent w w' where
  scopes := h.scopes
  active := h.active
  traces := h.traces
  others i _ := h.others i nofun
  context i span _ := h.context i span nofun
  cleared i span _ := h.cleared i span nofun

theorem clearsKind_setSpan_own (i : SpanRef) (other : Span) :
    ClearsKind (some i) none w (w.setSpan i other) where
  scopes := rfl
  active := rfl
  traces := rfl
  others _ hj _ := List.getElem?_set_ne fun heq => hj (congrArg some heq)
  context _ read hj hread :=
    ⟨read, (List.getElem?_set_ne fun heq => hj (congrArg some heq)).trans hread, rfl⟩
  cleared := nofun

theorem clearsKind_setSpan (hspan : w.process.spans[i]? = some span)
    (hcontext : other.context = span.context)
    (hcleared : ∀ read, Live w i read → other = clearKind read) :
    ClearsKind own (some i) w (w.setSpan i other) where
  scopes := rfl
  active := rfl
  traces := rfl
  others _ _ hj := List.getElem?_set_ne fun heq => hj (congrArg some heq)
  context j read _ hread := by
    by_cases hj : i = j
    · subst hj
      obtain rfl := Option.some.inj (hspan.symm.trans hread)
      exact ⟨other, List.getElem?_set_self (List.getElem?_eq_some_iff.mp hspan).1, hcontext⟩
    · exact ⟨read, (List.getElem?_set_ne hj).trans hread, rfl⟩
  cleared j read _ hj hlive := by
    obtain rfl := Option.some.inj hj
    rw [← hcleared read hlive]
    exact List.getElem?_set_self hlive.lt

variable {w} {w₁ w₂ : World Unit}

theorem ClearsKind.live (h : ClearsKind own parent w w₁) (hown : own ≠ some i)
    (hparent : parent ≠ some i) (hlive : Live w i span) : Live w₁ i span where
  isAt := (h.others i hown hparent).trans hlive.isAt
  unfinished := hlive.unfinished
  inTrace := by
    rw [h.traces]
    exact hlive.inTrace

/-- Changes of the own span come before. -/
theorem ClearsKind.behind (h : ClearsKind own none w w₁) (k : ClearsKind own parent w₁ w₂) :
    ClearsKind own parent w w₂ where
  scopes := k.scopes.trans h.scopes
  active := k.active.trans h.active
  traces := k.traces.trans h.traces
  others i hown hi := (k.others i hown hi).trans (h.others i hown nofun)
  context i span hown hspan := by
    obtain ⟨after, hafter, hcontext⟩ := h.context i span hown hspan
    obtain ⟨last, hlast, hsame⟩ := k.context i after hown hafter
    exact ⟨last, hlast, hsame.trans hcontext⟩
  cleared i span hown hi hlive := k.cleared i span hown hi (h.live hown nofun hlive)

/-- Changes of the own span come afterwards. -/
theorem ClearsKind.before (h : ClearsKind own parent w w₁) (k : ClearsKind own none w₁ w₂) :
    ClearsKind own parent w w₂ where
  scopes := k.scopes.trans h.scopes
  active := k.active.trans h.active
  traces := k.traces.trans h.traces
  others i hown hi := (k.others i hown nofun).trans (h.others i hown hi)
  context i span hown hspan := by
    obtain ⟨after, hafter, hcontext⟩ := h.context i span hown hspan
    obtain ⟨last, hlast, hsame⟩ := k.context i after hown hafter
    exact ⟨last, hlast, hsame.trans hcontext⟩
  cleared i span hown hi hlive :=
    (k.others i hown nofun).trans (h.cleared i span hown hi hlive)

variable (w)

theorem parentSpan_eq_some {r : ScopeRef} {scope : Scope} {parent : ScopeRef}
    (hscope : w.scopes[r]? = some scope) (hparent : scope.parent = some parent)
    (hspan : w.spanOf parent = some (i, span)) : parentSpan w r = some i := by
  simp [parentSpan, hscope, hparent, hspan]

theorem clearParentKind_run {r : ScopeRef} {scope : Scope} (hscope : w.scopes[r]? = some scope) :
    ∃ w', (clearParentKind setting r).run w = (.ok ⟨⟩, w') ∧
      ClearsKind none (parentSpan w r) w w' := by
  rw [clearParentKind, run_get_bind, hscope, Option.bind_some]
  cases hparent : scope.parent with
  | none =>
      refine ⟨w, rfl, clearsKind_rfl_of w ?_⟩
      intro i span hi
      simp [parentSpan, hscope, hparent] at hi
  | some parent =>
      dsimp only
      cases hfound : w.spanOf parent with
      | none =>
          refine ⟨w, rfl, clearsKind_rfl_of w ?_⟩
          intro i span hi
          simp [parentSpan, hscope, hparent, hfound] at hi
      | some found =>
          obtain ⟨i, span⟩ := found
          have hi := parentSpan_eq_some w hscope hparent hfound
          have hspan := spanOf_eq_some hfound
          rw [hi, Option.bind_some]
          have hsame : ∀ j other, some i = some j → Live w j other → other = span := by
            rintro j other hj hlive
            obtain rfl := Option.some.inj hj
            exact Option.some.inj (hlive.isAt.symm.trans hspan)
          split_ifs with hclient
          · have hkey : Tags.spanKind ∉ Tags.specialKeys := by decide
            by_cases hlive : Live w i span
            · obtain ⟨parentScope, hparentScope, rfl, -⟩ := scope_of_spanOf hfound
              refine ⟨_, LiveAt.setTag_run ⟨hparentScope, hlive⟩ setting hkey none,
                clearsKind_setSpan w hspan rfl ?_⟩
              intro other hother
              rw [hsame _ other rfl hother, clearKind, if_pos hclient]
            · obtain ⟨after, hrun, rfl | ⟨j, read, tags, hread, rfl⟩⟩ :=
                setTag_run_of_not_special setting parent hkey none w
              · refine ⟨after, hrun, clearsKind_rfl_of after ?_⟩
                intro j other hj hother
                obtain rfl := Option.some.inj hj
                exact absurd (hsame i other rfl hother ▸ hother) hlive
              · obtain ⟨rfl, rfl⟩ := Prod.mk.inj (Option.some.inj (hread.symm.trans hfound))
                refine ⟨_, hrun, clearsKind_setSpan w hspan rfl ?_⟩
                intro other hother
                exact absurd (hsame j other rfl hother ▸ hother) hlive
          · refine ⟨w, rfl, clearsKind_rfl_of w ?_⟩
            intro j other hj hlive
            obtain rfl := hsame j other hj hlive
            rw [clearKind, if_neg hclient]

theorem parentSpan_setSpan (i : SpanRef) (other : Span) (r : ScopeRef) :
    parentSpan (w.setSpan i other) r = parentSpan w r := by
  have hspanOf : ∀ p, ((w.setSpan i other).spanOf p).map Prod.fst = (w.spanOf p).map Prod.fst := by
    intro p
    cases hscope : w.scopes[p]? with
    | none => simp [World.spanOf, World.setSpan, hscope]
    | some scope =>
        simp only [World.spanOf, World.setSpan, hscope, bind, pure, Option.bind_some]
        by_cases hi : i = scope.span
        · subst hi
          by_cases hlt : scope.span < w.process.spans.length
          · simp [hlt]
          · simp [hlt]
        · rw [List.getElem?_set_ne hi]
  exact congrArg _ (funext hspanOf)

/-- The tags that tell which request a span is for. -/
structure Records (rt : Runtime) (request : Request) (span : Span) : Prop where
  method : span.getTag Tags.httpMethod = request.method.map rt.toUpperInvariant
  url : span.getTag Tags.httpUrl = some request.cleanUri

variable {w}

theorem ClearsKind.liveAt {w' : World Unit} {r : ScopeRef} {scope : Scope}
    (h : ClearsKind none parent w w') (hparent : parent ≠ some scope.span)
    (hlive : LiveAt w r scope span) : LiveAt w' r scope span where
  isScope := by
    rw [h.scopes]
    exact hlive.isScope
  live := h.live nofun hparent hlive.live

/-- Populating a live span gives it its tags and takes the kind of the parent away. -/
theorem populate_run (request : Request) (integrationName : Text) {r : ScopeRef} {scope : Scope}
    (h : LiveAt w r scope span) (hparent : parentSpan w r ≠ some scope.span) :
    ∃ w' last, (populate setting request integrationName r).run w = (.ok ⟨⟩, w') ∧
      LiveAt w' r scope last ∧ last.getTag Tags.spanKind = some clientKind ∧
      Records setting.tracer.runtime request last ∧
      ClearsKind (some scope.span) (parentSpan w r) w w' := by
  have hnamed := h.named_run setting.tracer.defaultServiceName
  have hlive₁ : LiveAt _ r scope (named setting.tracer.defaultServiceName span) :=
    h.setSpan rfl rfl
  have hclient := hlive₁.setTag_run setting (by decide : Tags.spanKind ∉ Tags.specialKeys)
    (some clientKind)
  have hlive₂ := hlive₁.putTag Tags.spanKind (some clientKind)
  obtain ⟨w₃, hclear, hclears⟩ := clearParentKind_run setting _ hlive₂.isScope
  rw [parentSpan_setSpan, parentSpan_setSpan] at hclears
  have hlive₃ := hclears.liveAt hparent hlive₂
  have hmethod := hlive₃.setTag_run setting (by decide : Tags.httpMethod ∉ Tags.specialKeys)
    (request.method.map setting.tracer.runtime.toUpperInvariant)
  have hlive₄ := hlive₃.putTag Tags.httpMethod
    (request.method.map setting.tracer.runtime.toUpperInvariant)
  have hurl := hlive₄.setTag_run setting (by decide : Tags.httpUrl ∉ Tags.specialKeys)
    (some request.cleanUri)
  have hlive₅ := hlive₄.putTag Tags.httpUrl (some request.cleanUri)
  have hname := hlive₅.setTag_run setting
    (by decide : Tags.instrumentationName ∉ Tags.specialKeys) (some integrationName)
  refine ⟨_, _, ?_, hlive₅.putTag Tags.instrumentationName (some integrationName), ?_, ?_, ?_⟩
  · change (modifySpanOf r (named setting.tracer.defaultServiceName) >>= fun _ => _).run w = _
    rw [run_bind_of_ok (congrArg Prod.fst hnamed), hnamed,
      run_bind_of_ok (congrArg Prod.fst hclient), hclient,
      run_bind_of_ok (congrArg Prod.fst hclear), hclear,
      run_bind_of_ok (congrArg Prod.fst hmethod), hmethod,
      run_bind_of_ok (congrArg Prod.fst hurl), hurl, hname]
  · simp [Tags.spanKind, Tags.httpMethod, Tags.httpUrl, Tags.instrumentationName, text]
  · constructor
    · simp [Tags.httpMethod, Tags.httpUrl, Tags.instrumentationName, text]
    · simp [Tags.httpUrl, Tags.instrumentationName, text]
  · refine ClearsKind.before ?_ (clearsKind_setSpan_own _ _ _)
    refine ClearsKind.before ?_ (clearsKind_setSpan_own _ _ _)
    refine ClearsKind.before ?_ (clearsKind_setSpan_own _ _ _)
    have hcleared : ClearsKind (some scope.span) (parentSpan w r) _ w₃ := hclears.mono
    have hput := ClearsKind.behind (clearsKind_setSpan_own _ _ _) hcleared
    exact ClearsKind.behind (clearsKind_setSpan_own _ _ _) hput

end Populate

section StartSpan

variable {tracer : Tracer}

theorem addSpan_isFinished (ref : SpanRef) (span : Span) (trace : TraceContext) :
    (tracer.addSpan ref span trace).1.isFinished = span.isFinished := by
  rw [Tracer.addSpan]
  split_ifs
  · exact Process.setTags_isFinished tracer.runtime (Tracer.azureTags tracer.azure) span trace
  · rfl

theorem startSpan_isFinished {args : Tracer.StartArguments} {ref : SpanRef}
    {traces after : List TraceContext} {span : Span}
    (h : tracer.startSpan args ref traces = (some span, after)) : span.isFinished = false := by
  rw [Tracer.startSpan] at h
  dsimp only at h
  split at h
  · cases h
  · split at h
    · cases h
    · next tagged trace hset =>
        obtain ⟨rfl, -⟩ := Prod.mk.inj h |>.imp_left Option.some.inj
        rw [addSpan_isFinished]
        have hkept := congrArg (fun result => result.2.1.isFinished) hset
        rw [Process.setTags_isFinished] at hkept
        exact hkept.symm

/-- What starts a span returns it unfinished and in one of the traces. -/
theorem startSpan_live {args : Tracer.StartArguments} {ref : SpanRef}
    {traces after : List TraceContext} {span : Span}
    (h : tracer.startSpan args ref traces = (some span, after)) :
    span.isFinished = false ∧ traces.length ≤ after.length ∧
      ∃ t, span.context.traceContext = some t ∧ t < after.length := by
  obtain ⟨hgrown, htraced⟩ := Tracer.startSpan_traces h
  exact ⟨startSpan_isFinished h, hgrown, htraced span rfl⟩

/-- No tag of the settings is a keep or drop tag of null. -/
def TagsRaiseNothing (tracer : Tracer) : Prop :=
  ∀ tag ∈ tracer.globalTags, tagEffect tracer.runtime tag.1 tag.2 ≠ .argumentNull

theorem startTags_raise_iff (isRootSpan : Bool) :
    (∀ tag ∈ tracer.startTags isRootSpan, tagEffect tracer.runtime tag.1 tag.2 ≠ .argumentNull) ↔
      TagsRaiseNothing tracer := by
  have hplain : ∀ key : Text, key ∉ Tags.specialKeys → ∀ value,
      tagEffect tracer.runtime key value ≠ .argumentNull := by
    intro key hkey value
    rw [tagEffect_of_not_special tracer.runtime hkey]
    cases value with
    | none => decide
    | some value => simp
  rw [Tracer.startTags, TagsRaiseNothing]
  constructor
  · intro h tag htag
    exact h tag (List.mem_append_right _ htag)
  · intro h tag htag
    rcases List.mem_append.mp htag with htag | htag
    · rcases List.mem_append.mp htag with htag | htag
      · split_ifs at htag
        · cases htag
        · obtain rfl := List.mem_singleton.mp htag
          exact hplain Tags.environment (by decide) _
      · split_ifs at htag
        · rcases List.mem_cons.mp htag with rfl | htag
          · exact hplain Tags.language (by decide) _
          · obtain rfl := List.mem_singleton.mp htag
            exact hplain Tags.version (by decide) _
        · cases htag
    · exact h tag htag

end StartSpan

section Opening

variable {setting : Setting} {w : World Unit}

/-- The span of the active scope. -/
def activeSpan (w : World Unit) : Option SpanRef :=
  w.active.bind fun r => (w.spanOf r).map Prod.fst

/-- The active scope, if there is one, has a span that belongs to a trace. -/
def ActiveInTrace (w : World Unit) : Prop :=
  ∀ r, w.active = some r → ∃ i span t, w.spanOf r = some (i, span) ∧
    span.context.traceContext = some t ∧ t < w.process.traces.length

/-- Only the tags of the settings keep a client span from being started. -/
theorem starts_iff (hactive : ActiveInTrace w) (operationName : Option Text)
    (spanId : Option UInt64) :
    (setting.tracer.startSpan (clientArguments setting w operationName spanId)
        w.process.spans.length w.process.traces).1.isSome = true ↔
      TagsRaiseNothing setting.tracer := by
  rw [Tracer.startSpan_isSome_iff]
  dsimp only
  rw [startTags_raise_iff]
  have hlt : (Tracer.traceContextFor w.activeContext w.process.traces).2.1 <
      (Tracer.traceContextFor w.activeContext w.process.traces).2.2.length := by
    rcases Process.traceContextFor_cases w.activeContext w.process.traces
      with ⟨context, t, hparent, ht, hfor⟩ | ⟨_, _, hfor⟩
    · rw [hfor]
      cases hr : w.active with
      | none => simp [World.activeContext, hr] at hparent
      | some r =>
          obtain ⟨i, span, u, hspan, hu, hlt⟩ := hactive r hr
          have hcontext : span.context = context := by
            simpa [World.activeContext, hr, hspan] using hparent
          rw [hcontext, ht] at hu
          obtain rfl := Option.some.inj hu
          exact hlt
    · rw [hfor]
      simp
  exact and_iff_right hlt

/-- What a call that opens a scope has changed. -/
structure Opened (rt : Runtime) (request : Request) (w w' : World Unit) : Prop where
  scopes : w'.scopes = w.scopes ++ [⟨w.active, w.process.spans.length, true⟩]
  active : w'.active = some w.scopes.length
  traces : w.process.traces.length ≤ w'.process.traces.length
  own : ∃ span, Live w' w.process.spans.length span ∧
    span.getTag Tags.spanKind = some clientKind ∧ Records rt request span
  others : ∀ i : SpanRef, i < w.process.spans.length → activeSpan w ≠ some i →
    w'.process.spans[i]? = w.process.spans[i]?
  context : ∀ (i : SpanRef) (span : Span), w.process.spans[i]? = some span →
    ∃ after : Span, w'.process.spans[i]? = some after ∧ after.context = span.context
  cleared : ∀ i span, activeSpan w = some i → Live w i span →
    w'.process.spans[i]? = some (clearKind span)

variable {http : HttpSettings} {request : Request}

theorem createOutboundHttpScope_of_active (henabled : setting.isIntegrationEnabled = true)
    (hincluded : ¬ isOutboundHttpExcludedHost http request.host) {scope : ScopeRef}
    (hscope : getActiveHttpScope http request w = some scope) (integrationName : Text)
    (spanId : Option UInt64) :
    (createOutboundHttpScope http setting request integrationName spanId).run w =
      (.ok none, w) := by
  rw [createOutboundHttpScope, run_get_bind, if_neg (by simp [henabled, hincluded]), hscope]
  rfl

/-- The world behind `StartActive` with a span that was started. -/
def started (w : World Unit) (span : Span) (traces : List TraceContext) : World Unit :=
  { w with
    process :=
      { traces, contexts := w.process.contexts ++ [span.context],
        spans := w.process.spans ++ [span] }
    scopes := w.scopes ++ [⟨w.active, w.process.spans.length, true⟩]
    active := some w.scopes.length }

theorem spanOf_started {r : ScopeRef} {i : SpanRef} {old : Span} (h : w.spanOf r = some (i, old))
    (span : Span) (traces : List TraceContext) :
    (started w span traces).spanOf r = some (i, old) := by
  obtain ⟨scope, hscope, rfl, hspan⟩ := scope_of_spanOf h
  apply spanOf_of_scope
  · exact (List.getElem?_append_left (List.getElem?_eq_some_iff.mp hscope).1).trans hscope
  · exact (List.getElem?_append_left (List.getElem?_eq_some_iff.mp hspan).1).trans hspan

theorem parentSpan_started (hactive : ActiveInTrace w) (span : Span)
    (traces : List TraceContext) :
    parentSpan (started w span traces) w.scopes.length = activeSpan w := by
  have hscope : (started w span traces).scopes[w.scopes.length]? =
      some ⟨w.active, w.process.spans.length, true⟩ := by simp [started]
  rw [parentSpan, hscope, Option.bind_some, activeSpan]
  cases hr : w.active with
  | none => rfl
  | some r =>
      obtain ⟨i, old, t, hold, -⟩ := hactive r hr
      rw [Option.bind_some, Option.bind_some, spanOf_started hold, hold]

theorem activeSpan_lt {i : SpanRef} (h : activeSpan w = some i) : i < w.process.spans.length := by
  simp only [activeSpan, Option.bind_eq_some_iff, Option.map_eq_some_iff] at h
  obtain ⟨r, -, ⟨j, span⟩, hspan, rfl⟩ := h
  exact (List.getElem?_eq_some_iff.mp (spanOf_eq_some hspan)).1

theorem createOutboundHttpScope_of_opened (henabled : setting.isIntegrationEnabled = true)
    (hincluded : ¬ isOutboundHttpExcludedHost http request.host) (hactive : ActiveInTrace w)
    (hnone : getActiveHttpScope http request w = none)
    (htags : TagsRaiseNothing setting.tracer) (integrationName : Text)
    (spanId : Option UInt64) :
    ∃ w', (createOutboundHttpScope http setting request integrationName spanId).run w =
        (.ok (some w.scopes.length), w') ∧ Opened setting.tracer.runtime request w w' := by
  obtain ⟨span, hspan⟩ := Option.isSome_iff_exists.mp
    ((starts_iff hactive (some (spanName http request)) spanId).mpr htags)
  rcases hstart : setting.tracer.startSpan
      (clientArguments setting w (some (spanName http request)) spanId)
      w.process.spans.length w.process.traces with ⟨_, traces⟩
  rw [hstart] at hspan
  obtain rfl := hspan
  obtain ⟨hunfinished, hgrown, t, ht, hlt⟩ := startSpan_live hstart
  have hrun : (startActiveWithId setting (spanName http request) spanId).run w =
      (.ok w.scopes.length, started w span traces) := by
    rw [clientArguments] at hstart
    simp only [startActiveWithId, hstart, started]
  have hlive : LiveAt (started w span traces) w.scopes.length
      ⟨w.active, w.process.spans.length, true⟩ span := by
    refine ⟨by simp [started], by simp [started], hunfinished, t, ht, hlt⟩
  have hparent := parentSpan_started hactive span traces
  have hne : parentSpan (started w span traces) w.scopes.length ≠
      some w.process.spans.length := by
    rw [hparent]
    intro hown
    exact Nat.lt_irrefl _ (activeSpan_lt hown)
  have hold : ∀ {i : SpanRef}, i < w.process.spans.length →
      (started w span traces).process.spans[i]? = w.process.spans[i]? ∧
        some w.process.spans.length ≠ some i :=
    fun hi => ⟨List.getElem?_append_left hi, fun heq => hi.ne (Option.some.inj heq).symm⟩
  obtain ⟨w', last, hpopulate, hlast, hkind, hrecords, hclears⟩ :=
    populate_run setting request integrationName hlive hne
  rw [hparent] at hclears
  refine ⟨w', ?_, ?_⟩
  · rw [createOutboundHttpScope, run_get_bind, if_neg (by simp [henabled, hincluded]), hnone]
    dsimp only
    rw [tryStartScope_run_of_ok (populate setting request integrationName) hrun, hpopulate]
  · constructor
    · exact hclears.scopes
    · exact hclears.active
    · rw [hclears.traces]
      exact hgrown
    · exact ⟨last, hlast.live, hkind, hrecords⟩
    · intro i hi hother
      obtain ⟨hsame, hown⟩ := hold hi
      exact (hclears.others i hown hother).trans hsame
    · intro i before hbefore
      obtain ⟨hsame, hown⟩ := hold (List.getElem?_eq_some_iff.mp hbefore).1
      exact hclears.context i before hown (hsame.trans hbefore)
    · intro i before hi hbefore
      obtain ⟨hsame, hown⟩ := hold hbefore.lt
      apply hclears.cleared i before hown hi
      obtain ⟨u, hu, hult⟩ := hbefore.inTrace
      exact ⟨hsame.trans hbefore.isAt, hbefore.unfinished, u, hu, Nat.lt_of_lt_of_le hult hgrown⟩

theorem createOutboundHttpScope_of_raising (hactive : ActiveInTrace w)
    (htags : ¬TagsRaiseNothing setting.tracer) (integrationName : Text)
    (spanId : Option UInt64) :
    ((createOutboundHttpScope http setting request integrationName spanId).run w).1 =
      .ok none := by
  apply createOutboundHttpScope_of_not_creates
  intro hcreates
  exact htags ((starts_iff hactive none none).mp hcreates.starts)

end Opening

end SignalFxTracing.Integrations.WebRequest
