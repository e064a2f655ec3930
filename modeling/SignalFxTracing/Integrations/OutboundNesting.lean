import SignalFxTracing.Integrations.OutboundHttp

/-!
# Nested outbound requests on one flow (`ScopeFactory.cs`)

The scopes of outbound requests are opened one inside another and closed from
the innermost outwards. A request that is instrumented twice is recognized by
the tags of the active span, among them the kind, which a client span takes
from its parent and does not give back when its scope is closed.

## Implementation notes

Besides the scopes opened here there may be one that was active from the start.
-/

namespace SignalFxTracing.Integrations.WebRequest

open Clr Lib Lib.Guarded Trace

/-- An open scope that `CreateOutboundHttpScope` has returned. -/
structure Entry where
  scope : ScopeRef
  span : SpanRef
  request : Request

/-- The world with the open outbound scopes, the innermost one first. -/
structure Flow where
  world : World Unit
  opened : List Entry

inductive Op
  | create (request : Request) (integrationName : Text) (propagatedSpanId : Option UInt64)
      (draws : Draws) (utcNow : Int)
  | close (utcNow : Int)

/-- What the comparer of the runtime has to do with upper case. -/
structure IgnoresCase (http : HttpSettings) (rt : Runtime) : Prop where
  idempotent : ∀ s, rt.toUpperInvariant (rt.toUpperInvariant s) = rt.toUpperInvariant s
  equals : ∀ a b, http.equalsIgnoreCase a b = true ↔
    a.map rt.toUpperInvariant = b.map rt.toUpperInvariant

/-- The settings with the random numbers and the time of one call. -/
def settingAt (setting : Setting) (draws : Draws) (utcNow : Int) : Setting :=
  { setting with draws, utcNow }

namespace Flow

variable (http : HttpSettings) (setting : Setting)

/-- The outcome of a call of `CreateOutboundHttpScope` and the flow behind it. -/
def create (flow : Flow) (request : Request) (integrationName : Text)
    (propagatedSpanId : Option UInt64) (draws : Draws) (utcNow : Int) :
    Option ScopeRef × Flow :=
  match (createOutboundHttpScope http (settingAt setting draws utcNow) request integrationName
      propagatedSpanId).run flow.world with
  | (.ok (some scope), world) =>
      (some scope, ⟨world, ⟨scope, flow.world.process.spans.length, request⟩ :: flow.opened⟩)
  | (_, world) => (none, ⟨world, flow.opened⟩)

/-- One step; excluded hosts are refused, and so is a close without an open scope. -/
def step (flow : Flow) : Op → Option Flow
  | .create request integrationName propagatedSpanId draws utcNow =>
      if isOutboundHttpExcludedHost http request.host then none
      else some (flow.create http setting request integrationName propagatedSpanId draws utcNow).2
  | .close utcNow =>
      match flow.opened with
      | [] => none
      | e :: rest =>
          some ⟨dispose (settingAt setting setting.draws utcNow) (some e.scope) flow.world, rest⟩

/-- One flow, with what is active before the first request. -/
def machine (world : World Unit) : Machine Flow Op where
  initial := ⟨world, []⟩
  step := step http setting

/-- The kind of the span of an entry. -/
def kindOf (w : World Unit) (e : Entry) : Option Text :=
  w.process.spans[e.span]?.bind (Span.getTag Tags.spanKind)

/-- Of the spans of the open scopes, the innermost one and no other has the client kind. -/
def InnermostIsClient (flow : Flow) : Prop :=
  ∀ (i : Nat) (e : Entry), flow.opened[i]? = some e →
    (kindOf flow.world e = some clientKind ↔ i = 0)

/-- The same method, ignoring case, and the same url. -/
def SameRequest (rt : Runtime) (a b : Request) : Prop :=
  a.method.map rt.toUpperInvariant = b.method.map rt.toUpperInvariant ∧ a.cleanUri = b.cleanUri

/-- A call returns null exactly when the active scope was created for the same request. -/
def AnswersRight (flow : Flow) (op : Op) (_ : Flow) : Prop :=
  match op with
  | .create request integrationName propagatedSpanId draws utcNow =>
      (flow.create http setting request integrationName propagatedSpanId draws utcNow).1 = none ↔
        ∃ e ∈ flow.opened, flow.world.active = some e.scope ∧
          SameRequest setting.tracer.runtime e.request request
  | .close _ => True

/-- Both requests have the same method and the same url, ignoring case. -/
def SameIgnoringCase (rt : Runtime) (a b : Request) : Prop :=
  a.method.map rt.toUpperInvariant = b.method.map rt.toUpperInvariant ∧
    rt.toUpperInvariant a.cleanUri = rt.toUpperInvariant b.cleanUri

instance (rt : Runtime) (a b : Request) : Decidable (SameIgnoringCase rt a b) :=
  inferInstanceAs (Decidable (_ ∧ _))

/-- A scope is closed only when it is not inside another outbound one. A call for the request of
the innermost scope has its url in the same case; any other call finds tags of the settings that
raise nothing and, outside all outbound scopes, no active span with the tags of its request. -/
def StepOk (flow : Flow) : Op → Prop
  | .create request _ _ _ _ =>
      match flow.opened with
      | [] => getActiveHttpScope http request flow.world = none ∧ TagsRaiseNothing setting.tracer
      | e :: _ =>
          (SameIgnoringCase setting.tracer.runtime e.request request →
            e.request.cleanUri = request.cleanUri) ∧
          (¬SameIgnoringCase setting.tracer.runtime e.request request →
            TagsRaiseNothing setting.tracer)
  | .close _ => flow.opened.length ≤ 1

section Invariant

/-- The scope around the innermost one. -/
def top (outer : Option ScopeRef) : List Entry → Option ScopeRef
  | [] => outer
  | e :: _ => some e.scope

/-- Each scope has the next one as its parent, the last one the outer one. -/
def Linked (w : World Unit) (outer : Option ScopeRef) : List Entry → Prop
  | [] => True
  | e :: rest => w.scopes[e.scope]? = some ⟨top outer rest, e.span, true⟩ ∧ Linked w outer rest

theorem Linked.mono {w w' : World Unit} {outer : Option ScopeRef} {opened : List Entry}
    (h : Linked w outer opened)
    (hscopes : ∀ (r : ScopeRef) (s : Scope), w.scopes[r]? = some s → w'.scopes[r]? = some s) :
    Linked w' outer opened := by
  induction opened with
  | nil => trivial
  | cons e rest ih => exact ⟨hscopes _ _ h.1, ih h.2⟩

/-- What holds of a flow while no close has happened inside another scope. -/
structure Inv (rt : Runtime) (outer : Option ScopeRef) (flow : Flow) : Prop where
  linked : Linked flow.world outer flow.opened
  active : flow.world.active = top outer flow.opened
  spans : (flow.opened.map Entry.span).Nodup
  live : ∀ e ∈ flow.opened, ∃ span, Live flow.world e.span span ∧
    Records rt e.request span
  kinds : ∀ (i : Nat) (e : Entry), flow.opened[i]? = some e →
    kindOf flow.world e = if i = 0 then some clientKind else none
  outer : ∀ r, outer = some r → ∃ i span t, flow.world.spanOf r = some (i, span) ∧
    span.context.traceContext = some t ∧ t < flow.world.process.traces.length ∧
    ∀ e ∈ flow.opened, e.span ≠ i

variable {http setting} {rt : Runtime} {outer : Option ScopeRef} {flow : Flow}

theorem Inv.innermostIsClient (h : Inv rt outer flow) : flow.InnermostIsClient := by
  intro i e hi
  rw [h.kinds i e hi]
  by_cases hzero : i = 0
  · simp [hzero]
  · simp [hzero]

theorem inv_initial {w : World Unit} (hactive : ActiveInTrace w) :
    Inv rt w.active ⟨w, []⟩ where
  linked := trivial
  active := rfl
  spans := List.nodup_nil
  live := nofun
  kinds := nofun
  outer r hr := by
    obtain ⟨i, span, t, hspan, ht, hlt⟩ := hactive r hr
    exact ⟨i, span, t, hspan, ht, hlt, nofun⟩

/-- The active scope of a flow belongs to a trace. -/
theorem Inv.activeInTrace (h : Inv rt outer flow) : ActiveInTrace flow.world := by
  intro r hr
  cases hopened : flow.opened with
  | nil =>
      have hactive := h.active
      rw [hopened, hr] at hactive
      obtain ⟨i, span, t, hspan, ht, hlt, -⟩ := h.outer r hactive.symm
      exact ⟨i, span, t, hspan, ht, hlt⟩
  | cons e rest =>
      have hactive := h.active
      have hlinked := h.linked
      rw [hopened] at hactive hlinked
      rw [hr] at hactive
      obtain rfl := Option.some.inj hactive
      obtain ⟨span, hlive, -⟩ := h.live e (by rw [hopened]; exact List.mem_cons_self)
      obtain ⟨t, ht, hlt⟩ := hlive.inTrace
      exact ⟨e.span, span, t, spanOf_of_scope hlinked.1 hlive.isAt, ht, hlt⟩

theorem Linked.scope_of_mem {w : World Unit} {opened : List Entry} (h : Linked w outer opened)
    {e : Entry} (he : e ∈ opened) : ∃ parent, w.scopes[e.scope]? = some ⟨parent, e.span, true⟩ := by
  induction opened with
  | nil => cases he
  | cons first rest ih =>
      rcases List.mem_cons.mp he with rfl | he
      · exact ⟨_, h.1⟩
      · exact ih h.2 he

/-- The entry whose scope is active is the innermost one. -/
theorem Inv.eq_of_active (h : Inv rt outer flow) {e first : Entry} {rest : List Entry}
    (hopened : flow.opened = first :: rest) (he : e ∈ flow.opened)
    (hactive : flow.world.active = some e.scope) : e = first := by
  have hfirst : first ∈ flow.opened := by
    rw [hopened]
    exact List.mem_cons_self
  have hscope : first.scope = e.scope := by
    have htop := h.active
    rw [hopened, hactive] at htop
    exact (Option.some.inj htop).symm
  obtain ⟨_, hat⟩ := h.linked.scope_of_mem he
  obtain ⟨_, hat'⟩ := h.linked.scope_of_mem hfirst
  rw [hscope, hat] at hat'
  have hspan : e.span = first.span := (Scope.mk.inj (Option.some.inj hat')).2.1
  exact List.inj_on_of_nodup_map h.spans he hfirst hspan

/-- Below an open scope a request is recognized by its method and url, ignoring case. -/
theorem Inv.getActive (h : Inv rt outer flow) (hcase : IgnoresCase http rt) {e : Entry}
    {rest : List Entry} (hopened : flow.opened = e :: rest) (request : Request) :
    getActiveHttpScope http request flow.world =
      if SameIgnoringCase rt e.request request then some e.scope else none := by
  have he : e ∈ flow.opened := by
    rw [hopened]
    exact List.mem_cons_self
  have hactive := h.active
  have hlinked := h.linked
  rw [hopened] at hactive hlinked
  obtain ⟨span, hlive, hmethod, hurl⟩ := h.live e he
  have hkind : span.getTag Tags.spanKind = some clientKind := by
    have hkind := h.kinds 0 e (by rw [hopened]; rfl)
    rwa [kindOf, hlive.isAt] at hkind
  have hspan := spanOf_of_scope hlinked.1 hlive.isAt
  have hsame : (http.equalsIgnoreCase (span.getTag Tags.spanKind) (some clientKind) &&
      http.equalsIgnoreCase (span.getTag Tags.httpMethod) request.method &&
      http.equalsIgnoreCase (span.getTag Tags.httpUrl) (some request.cleanUri)) = true ↔
        SameIgnoringCase rt e.request request := by
    rw [hkind, hmethod, hurl, Bool.and_eq_true, Bool.and_eq_true, hcase.equals, hcase.equals,
      hcase.equals, Option.map_map, SameIgnoringCase]
    have hupper : rt.toUpperInvariant ∘ rt.toUpperInvariant = rt.toUpperInvariant :=
      funext hcase.idempotent
    simp [hupper]
  simp only [getActiveHttpScope, hactive, top, bind, Option.bind_some, hspan, hsame]

theorem getTag_clearKind {span : Span}
    (h : span.getTag Tags.spanKind = some clientKind ∨ span.getTag Tags.spanKind = none) :
    (clearKind span).getTag Tags.spanKind = none := by
  rw [clearKind]
  split_ifs with hclient
  · exact Span.getTag_putTag_self Tags.spanKind none span
  · exact h.resolve_left hclient

theorem records_clearKind {request : Request} {span : Span} (h : Records rt request span) :
    Records rt request (clearKind span) := by
  rw [WebRequest.clearKind]
  split_ifs
  · constructor
    · rw [Span.getTag_putTag_of_ne (by decide), h.method]
    · rw [Span.getTag_putTag_of_ne (by decide), h.url]
  · exact h

theorem clearKind_isFinished (span : Span) : (clearKind span).isFinished = span.isFinished := by
  rw [clearKind]
  split_ifs
  · rfl
  · rfl

theorem clearKind_context (span : Span) : (clearKind span).context = span.context := by
  rw [clearKind]
  split_ifs
  · rfl
  · rfl

/-- The spans of the open scopes stay live and have no kind below a new one. -/
theorem Inv.below (h : Inv rt outer flow) {request : Request} {w' : World Unit}
    (hopened : Opened rt request flow.world w') {i : Nat} {e : Entry}
    (hi : flow.opened[i]? = some e) :
    ∃ after, Live w' e.span after ∧ Records rt e.request after ∧
      after.getTag Tags.spanKind = none := by
  obtain ⟨span, hlive, hrecords⟩ := h.live e (List.mem_of_getElem? hi)
  obtain ⟨t, ht, hlt⟩ := hlive.inTrace
  have hkind : span.getTag Tags.spanKind = if i = 0 then some clientKind else none := by
    have hkind := h.kinds i e hi
    rwa [kindOf, hlive.isAt] at hkind
  by_cases hactive : activeSpan flow.world = some e.span
  · refine ⟨clearKind span, ⟨hopened.cleared _ span hactive hlive, ?_, t, ?_, ?_⟩,
      records_clearKind hrecords, getTag_clearKind ?_⟩
    · rw [clearKind_isFinished, hlive.unfinished]
    · rw [clearKind_context, ht]
    · exact Nat.lt_of_lt_of_le hlt hopened.traces
    · rw [hkind]
      split_ifs
      · exact Or.inl rfl
      · exact Or.inr rfl
  · have hinner : i ≠ 0 := by
      rintro rfl
      obtain ⟨rest, hrest⟩ : ∃ rest, flow.opened = e :: rest := by
        cases hlist : flow.opened with
        | nil =>
            rw [hlist] at hi
            cases hi
        | cons first rest =>
            rw [hlist] at hi
            exact ⟨rest, by rw [Option.some.inj hi]⟩
      have htop := h.active
      have hlinked := h.linked
      rw [hrest] at htop hlinked
      rw [activeSpan, htop, top, Option.bind_some,
        spanOf_of_scope hlinked.1 hlive.isAt] at hactive
      exact hactive rfl
    rw [if_neg hinner] at hkind
    exact ⟨span, ⟨(hopened.others _ hlive.lt hactive).trans hlive.isAt, hlive.unfinished, t, ht,
      Nat.lt_of_lt_of_le hlt hopened.traces⟩, hrecords, hkind⟩

theorem Inv.opened (h : Inv rt outer flow) {request : Request} {w' : World Unit}
    (hopened : Opened rt request flow.world w') :
    Inv rt outer ⟨w', ⟨flow.world.scopes.length, flow.world.process.spans.length, request⟩ ::
      flow.opened⟩ := by
  obtain ⟨own, hown, hkind, hrecords⟩ := hopened.own
  constructor
  · refine ⟨?_, h.linked.mono ?_⟩
    · rw [hopened.scopes, h.active]
      simp
    · intro r s hs
      rw [hopened.scopes]
      exact (List.getElem?_append_left (List.getElem?_eq_some_iff.mp hs).1).trans hs
  · exact hopened.active
  · rw [List.map_cons, List.nodup_cons]
    refine ⟨?_, h.spans⟩
    intro hmem
    obtain ⟨e, he, hspan⟩ := List.mem_map.mp hmem
    obtain ⟨span, hlive, -⟩ := h.live e he
    exact hlive.lt.ne hspan
  · intro e he
    rcases List.mem_cons.mp he with rfl | he
    · exact ⟨own, hown, hrecords⟩
    · obtain ⟨i, hi⟩ := List.getElem?_of_mem he
      obtain ⟨after, hlive, hafter, -⟩ := h.below hopened hi
      exact ⟨after, hlive, hafter⟩
  · intro i e hi
    cases i with
    | zero =>
        obtain rfl := Option.some.inj hi
        rw [kindOf, hown.isAt]
        exact hkind
    | succ i =>
        obtain ⟨after, hlive, -, hnone⟩ := h.below hopened hi
        rw [kindOf, hlive.isAt, if_neg i.succ_ne_zero]
        exact hnone
  · intro r hr
    obtain ⟨i, span, t, hspan, ht, hlt, hne⟩ := h.outer r hr
    obtain ⟨scope, hscope, rfl, hat⟩ := scope_of_spanOf hspan
    obtain ⟨after, hafter, hcontext⟩ := hopened.context _ span hat
    refine ⟨scope.span, after, t, spanOf_of_scope ?_ hafter, by rw [hcontext, ht],
      Nat.lt_of_lt_of_le hlt hopened.traces, ?_⟩
    · rw [hopened.scopes]
      exact (List.getElem?_append_left (List.getElem?_eq_some_iff.mp hscope).1).trans hscope
    · intro e he
      rcases List.mem_cons.mp he with rfl | he
      · exact (List.getElem?_eq_some_iff.mp hat).1.ne'
      · exact hne e he

theorem Inv.closed (h : Inv rt outer flow) {e : Entry} {w' : World Unit}
    (hopened : flow.opened = [e]) (hclosed : Closed outer e.span flow.world w') :
    Inv rt outer ⟨w', []⟩ := by
  constructor
  · trivial
  · exact hclosed.active
  · exact List.nodup_nil
  · nofun
  · nofun
  · intro r hr
    obtain ⟨i, span, t, hspan, ht, hlt, hne⟩ := h.outer r hr
    have hother : e.span ≠ i := hne e (by rw [hopened]; exact List.mem_cons_self)
    obtain ⟨scope, hscope, rfl, hat⟩ := scope_of_spanOf hspan
    refine ⟨scope.span, span, t, ?_, ht, ?_, nofun⟩
    · apply spanOf_of_scope
      · rwa [hclosed.scopes]
      · exact (hclosed.others _ hother).trans hat
    · rwa [hclosed.traces]

end Invariant

section Steps

variable {http : HttpSettings} {setting : Setting} {outer : Option ScopeRef} {flow : Flow}
variable {request : Request} (integrationName : Text) (propagatedSpanId : Option UInt64)
variable (draws : Draws) (utcNow : Int)

theorem create_of_active (henabled : setting.isIntegrationEnabled = true)
    (hincluded : ¬ isOutboundHttpExcludedHost http request.host) {scope : ScopeRef}
    (hscope : getActiveHttpScope http request flow.world = some scope) :
    flow.create http setting request integrationName propagatedSpanId draws utcNow =
      (none, flow) := by
  have henabled' : (settingAt setting draws utcNow).isIntegrationEnabled = true := henabled
  rw [create, createOutboundHttpScope_of_active henabled' hincluded hscope]

theorem create_of_raising (h : Inv setting.tracer.runtime outer flow)
    (htags : ¬TagsRaiseNothing setting.tracer) :
    (flow.create http setting request integrationName propagatedSpanId draws utcNow).1 =
      none := by
  have htags' : ¬TagsRaiseNothing (settingAt setting draws utcNow).tracer := htags
  rw [create]
  split
  · next hsome =>
      have hnone := congrArg Prod.fst hsome
      rw [createOutboundHttpScope_of_raising h.activeInTrace htags'] at hnone
      cases hnone
  · rfl

theorem create_of_opened (h : Inv setting.tracer.runtime outer flow)
    (henabled : setting.isIntegrationEnabled = true)
    (hincluded : ¬ isOutboundHttpExcludedHost http request.host)
    (hnone : getActiveHttpScope http request flow.world = none)
    (htags : TagsRaiseNothing setting.tracer) :
    ∃ after, flow.create http setting request integrationName propagatedSpanId draws utcNow =
        (some flow.world.scopes.length, after) ∧ Inv setting.tracer.runtime outer after := by
  have henabled' : (settingAt setting draws utcNow).isIntegrationEnabled = true := henabled
  obtain ⟨w', hrun, hopened⟩ := createOutboundHttpScope_of_opened henabled' hincluded
    h.activeInTrace hnone htags integrationName propagatedSpanId
  refine ⟨_, ?_, h.opened hopened⟩
  rw [create, hrun]

end Steps

section Runs

variable {http : HttpSettings} {setting : Setting} {outer : Option ScopeRef}

/-- The request of the innermost scope is the one that is recognized. -/
theorem Inv.recognized_iff {rt : Runtime} {flow : Flow} (h : Inv rt outer flow)
    (request : Request) :
    (∃ e ∈ flow.opened, flow.world.active = some e.scope ∧ SameRequest rt e.request request) ↔
      ∃ e, flow.opened.head? = some e ∧ SameRequest rt e.request request := by
  cases hopened : flow.opened with
  | nil => simp
  | cons first rest =>
      constructor
      · rintro ⟨e, he, hactive, hsame⟩
        rw [← hopened] at he
        obtain rfl := h.eq_of_active hopened he hactive
        exact ⟨e, rfl, hsame⟩
      · rintro ⟨e, he, hsame⟩
        obtain rfl := Option.some.inj he
        have hactive := h.active
        rw [hopened] at hactive
        exact ⟨first, List.mem_cons_self, hactive, hsame⟩

/-- A call is answered right exactly when its step is harmless, which then keeps the invariant. -/
theorem create_step (hcase : IgnoresCase http setting.tracer.runtime)
    (henabled : setting.isIntegrationEnabled = true) {flow : Flow}
    (h : Inv setting.tracer.runtime outer flow) {request : Request}
    (hincluded : ¬ isOutboundHttpExcludedHost http request.host) (integrationName : Text)
    (propagatedSpanId : Option UInt64) (draws : Draws) (utcNow : Int) (after : Flow) :
    (AnswersRight http setting flow
        (.create request integrationName propagatedSpanId draws utcNow) after ↔
      StepOk http setting flow (.create request integrationName propagatedSpanId draws utcNow)) ∧
      (StepOk http setting flow
          (.create request integrationName propagatedSpanId draws utcNow) →
        Inv setting.tracer.runtime outer
          (flow.create http setting request integrationName propagatedSpanId draws utcNow).2) := by
  rw [AnswersRight, h.recognized_iff]
  -- what a call does that is not recognized
  have hopens : getActiveHttpScope http request flow.world = none →
      ((flow.create http setting request integrationName propagatedSpanId draws utcNow).1 = none ↔
        ¬TagsRaiseNothing setting.tracer) ∧
      (TagsRaiseNothing setting.tracer → Inv setting.tracer.runtime outer
        (flow.create http setting request integrationName propagatedSpanId draws utcNow).2) := by
    intro hnone
    by_cases htags : TagsRaiseNothing setting.tracer
    · obtain ⟨opened, hcreate, hinv⟩ := create_of_opened integrationName propagatedSpanId draws
        utcNow h henabled hincluded hnone htags
      rw [hcreate]
      exact ⟨by simp [htags], fun _ => hinv⟩
    · exact ⟨iff_of_true (create_of_raising integrationName propagatedSpanId draws utcNow h htags)
        htags, fun htags' => absurd htags' htags⟩
  cases hopened : flow.opened with
  | nil =>
      simp only [StepOk, hopened]
      cases hactive : getActiveHttpScope http request flow.world with
      | some scope =>
          rw [create_of_active integrationName propagatedSpanId draws utcNow henabled hincluded
            hactive]
          simp
      | none =>
          obtain ⟨hfst, hinv⟩ := hopens hactive
          rw [hfst]
          simpa using hinv
  | cons e rest =>
      simp only [StepOk, hopened]
      have hactive := h.getActive hcase hopened request
      by_cases hsame : SameIgnoringCase setting.tracer.runtime e.request request
      · rw [if_pos hsame] at hactive
        rw [create_of_active integrationName propagatedSpanId draws utcNow henabled hincluded
          hactive]
        refine ⟨?_, fun _ => h⟩
        simp [hsame, SameRequest, hsame.1]
      · rw [if_neg hsame] at hactive
        obtain ⟨hfst, hinv⟩ := hopens hactive
        have hother : ¬SameRequest setting.tracer.runtime e.request request := by
          rintro ⟨hmethod, huri⟩
          exact hsame ⟨hmethod, by rw [huri]⟩
        rw [hfst]
        refine ⟨?_, fun hok => hinv (hok.2 hsame)⟩
        simp [hsame, hother]

theorem close_step {flow : Flow} (h : Inv setting.tracer.runtime outer flow) {e : Entry}
    {rest : List Entry} (hopened : flow.opened = e :: rest) (utcNow : Int) :
    let after : Flow :=
      ⟨dispose (settingAt setting setting.draws utcNow) (some e.scope) flow.world, rest⟩
    (after.InnermostIsClient → rest = []) ∧
      (rest = [] → Inv setting.tracer.runtime outer after) := by
  have hlinked := h.linked
  have hactive := h.active
  rw [hopened] at hlinked hactive
  have hclosed : Closed (top outer rest) e.span flow.world
      (dispose (settingAt setting setting.draws utcNow) (some e.scope) flow.world) :=
    dispose_closed hlinked.1 hactive
  constructor
  · intro hinnermost
    cases rest with
    | nil => rfl
    | cons below rest =>
        have hnodup := h.spans
        rw [hopened, List.map_cons, List.map_cons, List.nodup_cons] at hnodup
        have hne : e.span ≠ below.span := fun heq => hnodup.1 (heq ▸ List.mem_cons_self)
        have hnone := h.kinds 1 below (by rw [hopened]; rfl)
        have hclient := (hinnermost 0 below rfl).mpr rfl
        rw [kindOf, hclosed.others _ hne, ← kindOf, hnone] at hclient
        cases hclient
  · rintro rfl
    exact h.closed hopened hclosed

end Runs

section TwoRequests

/-- Upper case of the letters of ASCII. -/
def upperAscii (s : Text) : Text := s.map fun c => if 0x61 ≤ c ∧ c ≤ 0x7A then c - 0x20 else c

def httpPlain : HttpSettings where
  skipsPlus := false
  appendUrlPathToName := false
  outboundHttpExcludedHosts := []
  equalsIgnoreCase a b := a.map upperAscii = b.map upperAscii

def settingPlain : Setting :=
  { Setting.plain with tracer := { Tracer.plain with runtime := ⟨fun _ => none, upperAscii⟩ } }

theorem ignoresCase_plain : IgnoresCase httpPlain settingPlain.tracer.runtime where
  idempotent s := by
    change upperAscii (upperAscii s) = upperAscii s
    rw [upperAscii, upperAscii, List.map_map]
    apply List.map_congr_left
    intro c _
    have hletter : ∀ c : UInt16, 0x61 ≤ c ∧ c ≤ 0x7A → ¬(0x61 ≤ c - 0x20 ∧ c - 0x20 ≤ 0x7A) := by
      intro c
      simp only [UInt16.le_iff_toNat_le, UInt16.toNat_sub]
      intro ⟨hlow, hhigh⟩
      simp at hlow hhigh ⊢
      omega
    by_cases h : 0x61 ≤ c ∧ c ≤ 0x7A
    · simp only [Function.comp_apply, if_pos h, if_neg (hletter c h)]
    · simp only [Function.comp_apply, if_neg h]
  equals a b := decide_eq_true_iff

/-- A request of a page of one host. -/
def getPage (page : String) : Op :=
  .create ⟨true, some (text "GET"), text "h", text page, text "http://h" ++ text page⟩
    (text "WebRequest") none ⟨1, 2, 3, 4⟩ 0

/-- No scope is active before the first request. -/
def idle : World Unit := World.entry ⟨[], [], []⟩ [] none

theorem activeInTrace_idle : ActiveInTrace idle := nofun

end TwoRequests

end Flow

end SignalFxTracing.Integrations.WebRequest
