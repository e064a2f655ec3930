import SignalFxTracing.DiagnosticListeners.AspNetCore
import SignalFxTracing.Scopes.ActiveScope

/-!
# Requests and the nesting of scopes (`AspNetCoreDiagnosticObserver.cs`)

The scopes that the events of a flow open lie in a stack. An event takes only
the scope that it is to close from it, and only from the top. The observer
closes the right scopes as long as the scope of a request is on top at its
Stop.
-/

namespace SignalFxTracing.DiagnosticListeners.AspNetCore

open Clr Lib Lib.Guarded Trace Integrations

/-- An event on the flow, or what user code does there with scopes. -/
inductive Event (H : Type)
  | start (e : StartEvent H)
  | beforeAction (e : BeforeActionEvent H)
  | unhandledException (e : UnhandledExceptionEvent)
  /-- The Stop of the request with the given number. -/
  | stop (request : Nat) (statusCode : Except Exn Int)
  | userStartActive (operationName : Option Text) (parent : Option ISpanContext)
      (serviceName : Option Text)
  | userActivate (span : SpanRef) (finishOnClose : Bool)
  | userClose (scope : ScopeRef)

structure State where
  world : World Unit
  /-- For each request, in the order of their Starts, the scope that its Start opened. -/
  opened : List (Option ScopeRef)
  /-- The scopes that events have opened and no event was to close from the inside, the innermost
  one first. -/
  nest : List ScopeRef

namespace State

/-- The scope that the Start of a request opened. -/
def openedBy (s : State) (request : Nat) : Option ScopeRef := s.opened.getD request none

end State

section Events

variable {H : Type} (options : Options H)

/-- What the observer, or the code of the user, makes of the world. -/
def Event.perform (setting : Setting) (w : World Unit) : Event H → World Unit
  | .start e => ((onHostingHttpRequestInStart setting options e).run w).2
  | .beforeAction e => ((onMvcBeforeAction options e).run w).2
  | .unhandledException e => ((onHostingUnhandledException setting e).run w).2
  | .stop _ statusCode => ((onHostingHttpRequestInStop setting statusCode).run w).2
  | .userStartActive operationName parent serviceName =>
      ((startActive setting operationName parent serviceName).run w).2
  | .userActivate span finishOnClose => ((activateSpan span finishOnClose).run w).2
  | .userClose r => dispose setting (some r) w

/-- The scope that an event is to close: a Stop that of its request. -/
def Event.closes (s : State) : Event H → Option ScopeRef
  | .stop request _ => s.openedBy request
  | .userClose r => some r
  | _ => none

/-- Only the innermost scope can be closed. -/
def closeInnermost (nest : List ScopeRef) (closed : Option ScopeRef) : List ScopeRef :=
  if closed.isSome ∧ nest.head? = closed then nest.tail else nest

/-- The requests after an event. -/
def Event.requests (opened : List (Option ScopeRef)) (scope : Option ScopeRef) :
    Event H → List (Option ScopeRef)
  | .start _ => opened ++ [scope]
  | _ => opened

/-- One event, with the settings and the clock at that moment. -/
def State.handle (s : State) (setting : Setting) (e : Event H) : State :=
  let world := e.perform options setting s.world
  let scope := if s.world.scopes.length < world.scopes.length then some s.world.scopes.length
    else none
  { world
    opened := e.requests s.opened scope
    nest := scope.toList ++ closeInnermost s.nest (e.closes s) }

/-- The observer on one flow, on which no scope is open at first. -/
def machine (process : Process.State) : Machine State (Setting × Event H) where
  initial := ⟨⟨process, [], none, false, []⟩, [], []⟩
  step s e := some (s.handle options e.1 e.2)

end Events

/-- The scope was active and is closed: its parent is active again, its span is finished, and
nothing is done to other scopes and spans. -/
structure Closes (r : ScopeRef) (w w' : World Unit) : Prop where
  wasActive : w.active = some r
  scopes : w'.scopes = w.scopes
  closed : ∃ scope, w.scopes[r]? = some scope ∧ w'.active = scope.parent ∧
    (∃ span, w'.process.spans[scope.span]? = some span ∧ span.isFinished = true) ∧
    ∀ i, i ≠ scope.span → w'.process.spans[i]? = w.process.spans[i]?

/-- A Stop closes the scope that the Start of its request opened; when that opened none, it
closes nothing and tags nothing. -/
def StopsOwn {H : Type} (s : State) (e : Setting × Event H) (t : State) : Prop :=
  match e.2 with
  | .stop request _ =>
      match s.openedBy request with
      | some r => Closes r s.world t.world
      | none => t.world = s.world
  | _ => True

/-- At its Stop, all scopes that have been opened inside the scope of the request are closed, that
scope itself is not, and the response can be read. When the Start opened none, no scope of the
flow is open, or reading the response raises. -/
def OwnIsInnermost {H : Type} (s : State) (e : Setting × Event H) : Prop :=
  match e.2 with
  | .stop request statusCode =>
      match s.openedBy request with
      | some r => s.nest.head? = some r ∧ ∃ code, statusCode = .ok code
      | none => s.nest = [] ∨ ∃ exn, statusCode = .error exn
  | _ => True

section Invariant

/-- The scope of a request. -/
def OwnScope (w : World Unit) (r : ScopeRef) : Prop :=
  ∃ parent i, w.scopes[r]? = some ⟨parent, i, true⟩ ∧ w.process.IsTraced i

/-- What holds of a flow while every Stop has closed the scope of its own request. -/
structure Inv (s : State) : Prop where
  active : s.world.active = s.nest.head?
  stacked : Scopes.Stacked (s.world.scopes.map Scope.parent) s.nest
  ordered : s.nest.Pairwise (· > ·)
  existing : ∀ r ∈ s.nest, r < s.world.scopes.length
  own : ∀ r, some r ∈ s.opened → OwnScope s.world r

variable {s : State} {w : World Unit} {opened : List (Option ScopeRef)}

theorem inv_initial (process : Process.State) : Inv ⟨⟨process, [], none, false, []⟩, [], []⟩ where
  active := rfl
  stacked := trivial
  ordered := .nil
  existing := nofun
  own := nofun

theorem Inv.own_of_openedBy (h : Inv s) {request : Nat} {r : ScopeRef}
    (hr : s.openedBy request = some r) : OwnScope s.world r := by
  apply h.own
  rw [State.openedBy, List.getD_eq_getElem?_getD] at hr
  cases hfound : s.opened[request]? with
  | none =>
      rw [hfound] at hr
      cases hr
  | some found =>
      rw [hfound] at hr
      exact hr ▸ List.mem_of_getElem? hfound

/-- Nothing happens to the scopes. -/
theorem Inv.quiet (h : Inv s) (hscopes : w.scopes = s.world.scopes)
    (hactive : w.active = s.world.active) (htraced : KeepsTraced s.world w)
    (hopened : ∀ r, some r ∈ opened → some r ∈ s.opened) : Inv ⟨w, opened, s.nest⟩ where
  active := hactive.trans h.active
  stacked := by
    rw [hscopes]
    exact h.stacked
  ordered := h.ordered
  existing := by
    rw [hscopes]
    exact h.existing
  own r hr := by
    obtain ⟨parent, i, hscope, hi⟩ := h.own r (hopened r hr)
    exact ⟨parent, i, by rw [hscopes, hscope], htraced i hi⟩

/-- A scope is opened inside the innermost one. -/
theorem Inv.push (h : Inv s) {span : SpanRef} {finishOnClose : Bool}
    (hscopes : w.scopes = s.world.scopes ++ [⟨s.world.active, span, finishOnClose⟩])
    (hactive : w.active = some s.world.scopes.length) (htraced : KeepsTraced s.world w)
    (hopened : ∀ r, some r ∈ opened → some r ∈ s.opened ∨
      r = s.world.scopes.length ∧ finishOnClose = true ∧ w.process.IsTraced span) :
    Inv ⟨w, opened, s.world.scopes.length :: s.nest⟩ where
  active := hactive
  stacked := by
    rw [hscopes, List.map_append]
    refine ⟨?_, h.stacked.append _⟩
    rw [← h.active]
    simp
  ordered := List.pairwise_cons.mpr ⟨h.existing, h.ordered⟩
  existing := by
    rw [hscopes, List.length_append]
    intro r hr
    rcases List.mem_cons.mp hr with rfl | hr
    · exact Nat.lt_succ_self _
    · exact Nat.lt_succ_of_lt (h.existing r hr)
  own r hr := by
    rcases hopened r hr with hold | ⟨rfl, rfl, hspan⟩
    · obtain ⟨parent, i, hscope, hi⟩ := h.own r hold
      refine ⟨parent, i, ?_, htraced i hi⟩
      rw [hscopes, List.getElem?_append_left (List.getElem?_eq_some_iff.mp hscope).1, hscope]
    · exact ⟨s.world.active, span, by simp [hscopes], hspan⟩

/-- The innermost scope is closed. -/
theorem Inv.pop (h : Inv s) {r : ScopeRef} {below : List ScopeRef} (hnest : s.nest = r :: below)
    (hscopes : w.scopes = s.world.scopes) (hactive : w.active = below.head?)
    (htraced : KeepsTraced s.world w) : Inv ⟨w, s.opened, below⟩ := by
  have hstacked := h.stacked
  have hordered := h.ordered
  have hexisting := h.existing
  rw [hnest] at hstacked hordered hexisting
  refine ⟨hactive, ?_, (List.pairwise_cons.mp hordered).2, ?_, ?_⟩
  · rw [hscopes]
    exact hstacked.2
  · rw [hscopes]
    exact fun r hr => hexisting r (List.mem_cons_of_mem _ hr)
  · intro r hr
    obtain ⟨parent, i, hscope, hi⟩ := h.own r hr
    exact ⟨parent, i, by rw [hscopes, hscope], htraced i hi⟩

/-- The innermost scope exists, inside the one below it. -/
theorem Inv.scope_of_top (h : Inv s) {r : ScopeRef} {below : List ScopeRef}
    (hnest : s.nest = r :: below) :
    ∃ scope, s.world.scopes[r]? = some scope ∧ scope.parent = below.head? := by
  have hstacked := h.stacked
  rw [hnest] at hstacked
  obtain ⟨hparent, -⟩ := hstacked
  rw [List.getElem?_map] at hparent
  exact Option.map_eq_some_iff.mp hparent

/-- No scope is its own parent. -/
theorem Inv.below_ne (h : Inv s) {r : ScopeRef} {below : List ScopeRef}
    (hnest : s.nest = r :: below) : below.head? ≠ some r := by
  have hordered := h.ordered
  rw [hnest] at hordered
  intro hhead
  exact Nat.lt_irrefl r ((List.pairwise_cons.mp hordered).1 r (List.mem_of_mem_head? hhead))

end Invariant

section Steps

variable {H : Type} (options : Options H) {s : State} {setting : Setting} {e : Event H}

theorem handle_of_quiet
    (h : (e.perform options setting s.world).scopes = s.world.scopes) :
    s.handle options setting e = ⟨e.perform options setting s.world, e.requests s.opened none,
      closeInnermost s.nest (e.closes s)⟩ := by
  simp [State.handle, h]

theorem handle_of_opened {scope : Scope}
    (h : (e.perform options setting s.world).scopes = s.world.scopes ++ [scope]) :
    s.handle options setting e = ⟨e.perform options setting s.world,
      e.requests s.opened (some s.world.scopes.length),
      s.world.scopes.length :: closeInnermost s.nest (e.closes s)⟩ := by
  simp [State.handle, h]

theorem closeInnermost_none (nest : List ScopeRef) : closeInnermost nest none = nest := by
  simp [closeInnermost]

theorem closeInnermost_top (r : ScopeRef) (below : List ScopeRef) :
    closeInnermost (r :: below) (some r) = below := by
  simp [closeInnermost]

theorem closeInnermost_of_ne {nest : List ScopeRef} {r : ScopeRef} (h : nest.head? ≠ some r) :
    closeInnermost nest (some r) = nest := by
  simp [closeInnermost, h]

/-- Events that close no scope open at most one. -/
theorem Inv.opens (h : Inv s) (hcloses : e.closes s = none)
    (htraced : KeepsTraced s.world (e.perform options setting s.world))
    (hscopes : ((e.perform options setting s.world).scopes = s.world.scopes ∧
        (e.perform options setting s.world).active = s.world.active ∧
        ∀ r, some r ∈ e.requests s.opened none → some r ∈ s.opened) ∨
      ∃ span finishOnClose,
        (e.perform options setting s.world).scopes =
          s.world.scopes ++ [⟨s.world.active, span, finishOnClose⟩] ∧
        (e.perform options setting s.world).active = some s.world.scopes.length ∧
        ∀ r, some r ∈ e.requests s.opened (some s.world.scopes.length) → some r ∈ s.opened ∨
          r = s.world.scopes.length ∧ finishOnClose = true ∧
            (e.perform options setting s.world).process.IsTraced span) :
    Inv (s.handle options setting e) := by
  rcases hscopes with ⟨hsame, hactive, hopened⟩ | ⟨span, finishOnClose, hnew, hactive, hopened⟩
  · rw [handle_of_quiet options hsame, hcloses, closeInnermost_none]
    exact h.quiet hsame hactive htraced hopened
  · rw [handle_of_opened options hnew, hcloses, closeInnermost_none]
    exact h.push hnew hactive htraced hopened

/-- Closing a scope takes it from the top of the stack or changes no stack. -/
theorem Inv.userClose (h : Inv s) (r : ScopeRef) :
    Inv (s.handle options setting (.userClose r)) := by
  have hscopes : (Event.perform options setting s.world (.userClose r)).scopes =
      s.world.scopes := dispose_scopes r
  have htraced : KeepsTraced s.world (Event.perform options setting s.world (.userClose r)) :=
    keepsTraced_dispose setting (some r) s.world
  rw [handle_of_quiet options hscopes]
  by_cases hactive : s.world.active = some r
  · obtain ⟨below, hnest⟩ := List.head?_eq_some_iff.mp (h.active.symm.trans hactive)
    obtain ⟨scope, hscope, hparent⟩ := h.scope_of_top hnest
    rw [Event.closes, hnest, closeInnermost_top]
    exact h.pop hnest hscopes ((dispose_active_of_eq hscope hactive).trans hparent) htraced
  · have hne : s.nest.head? ≠ some r := by rwa [← h.active]
    rw [Event.closes, closeInnermost_of_ne hne]
    exact h.quiet hscopes (dispose_active_of_ne hactive) htraced fun _ => id

end Steps

section Stops

variable {H : Type} (options : Options H) {s : State} {setting : Setting} {request : Nat}

/-- A Stop with a response closes the innermost scope, whosever it is. -/
theorem Inv.stop (h : Inv s) {r : ScopeRef} {below : List ScopeRef} (hnest : s.nest = r :: below)
    (code : Int) :
    let w := Event.perform options setting s.world (.stop request (.ok code))
    w.scopes = s.world.scopes ∧ w.active = below.head? ∧ KeepsTraced s.world w ∧
      (OwnScope s.world r → Closes r s.world w) := by
  dsimp only
  have hactive : s.world.active = some r := by
    rw [h.active, hnest]
    rfl
  obtain ⟨scope, hscope, hparent⟩ := h.scope_of_top hnest
  obtain ⟨tagged, ⟨hquiet, htraced⟩, honly, hstop⟩ :=
    @stop_of_ok setting s.world r hactive code
  have htagged : tagged.scopes[r]? = some scope := by rw [hquiet.scopes, hscope]
  have htop : tagged.active = some r := hquiet.active.trans hactive
  have hscopes : (dispose setting (some r) tagged).scopes = s.world.scopes :=
    (dispose_scopes r).trans hquiet.scopes
  rw [Event.perform, hstop]
  refine ⟨hscopes, (dispose_active_of_eq htagged htop).trans hparent, ?_, ?_⟩
  · exact IsTrans.trans _ _ _ htraced (keepsTraced_dispose setting (some r) tagged)
  · rintro ⟨parent, i, hown, hi⟩
    obtain rfl := Option.some.inj (hscope.symm.trans hown)
    have hclosed := @dispose_closed Unit setting _ _ _ _ htagged htop
    refine ⟨hactive, hscopes, _, hscope, hclosed.active, hclosed.finished (htraced i hi), ?_⟩
    intro j hj
    exact (hclosed.others j hj.symm).trans (honly.others _ hscope j hj)

/-- A Stop without a scope or without a response does nothing. -/
theorem perform_stop_of_idle {statusCode : Except Exn Int}
    (h : s.world.active = none ∨ ∃ exn, statusCode = .error exn) :
    Event.perform options setting s.world (.stop request statusCode) = s.world := by
  rcases h with hnone | ⟨exn, rfl⟩
  · exact stop_of_none hnone statusCode
  · exact stop_of_error exn

/-- What a Stop does to the scope of its request, from where that scope lies. -/
theorem stopsOwn_stop_iff (h : Inv s) (statusCode : Except Exn Int) :
    StopsOwn s (setting, (.stop request statusCode : Event H))
        (s.handle options setting (.stop request statusCode)) ↔
      OwnIsInnermost s (setting, (.stop request statusCode : Event H)) := by
  have hworld : (s.handle options setting (.stop request statusCode)).world =
      Event.perform options setting s.world (.stop request statusCode) := rfl
  simp only [StopsOwn, OwnIsInnermost, hworld]
  cases hnest : s.nest with
  | nil =>
      have hnone : s.world.active = none := by
        rw [h.active, hnest]
        rfl
      rw [perform_stop_of_idle options (Or.inl hnone)]
      cases s.openedBy request with
      | none => exact iff_of_true rfl (Or.inl rfl)
      | some r =>
          apply iff_of_false
          · intro hcloses
            cases hnone.symm.trans hcloses.wasActive
          · rintro ⟨hhead, -⟩
            cases hhead
  | cons a below =>
      have hactive : s.world.active = some a := by
        rw [h.active, hnest]
        rfl
      cases statusCode with
      | error exn =>
          rw [perform_stop_of_idle options (Or.inr ⟨exn, rfl⟩)]
          cases s.openedBy request with
          | none => exact iff_of_true rfl (Or.inr ⟨exn, rfl⟩)
          | some r =>
              apply iff_of_false
              · intro hcloses
                obtain rfl : a = r := Option.some.inj (hactive.symm.trans hcloses.wasActive)
                obtain ⟨scope, hscope, hparent⟩ := h.scope_of_top hnest
                obtain ⟨found, hfound, hclosed, -⟩ := hcloses.closed
                obtain rfl := Option.some.inj (hscope.symm.trans hfound)
                exact h.below_ne hnest (hparent.symm.trans (hclosed.symm.trans hactive))
              · rintro ⟨-, code, hcode⟩
                cases hcode
      | ok code =>
          obtain ⟨-, hbelow, -, hcloses⟩ :=
            @Inv.stop H options s setting request h a below hnest code
          cases hown : s.openedBy request with
          | none =>
              apply iff_of_false
              · intro hsame
                rw [hsame, hactive] at hbelow
                exact h.below_ne hnest hbelow.symm
              · simp
          | some r =>
              constructor
              · intro hclosed
                exact ⟨hactive.symm.trans hclosed.wasActive, code, rfl⟩
              · rintro ⟨hhead, -⟩
                obtain rfl : a = r := Option.some.inj hhead
                exact hcloses (h.own_of_openedBy hown)

/-- A Stop of the innermost scope, or one that does nothing, keeps the invariant. -/
theorem Inv.stops (h : Inv s) {statusCode : Except Exn Int}
    (hok : OwnIsInnermost s (setting, (.stop request statusCode : Event H))) :
    Inv (s.handle options setting (.stop request statusCode)) := by
  simp only [OwnIsInnermost] at hok
  cases hown : s.openedBy request with
  | none =>
      rw [hown] at hok
      have hidle : s.world.active = none ∨ ∃ exn, statusCode = .error exn :=
        hok.imp_left fun hnest => by rw [h.active, hnest]; rfl
      have hworld := @perform_stop_of_idle H options s setting request statusCode hidle
      rw [handle_of_quiet options (congrArg World.scopes hworld), hworld, Event.closes, hown,
        closeInnermost_none]
      exact h.quiet rfl rfl (Std.Refl.refl _) fun _ => id
  | some r =>
      rw [hown] at hok
      obtain ⟨hhead, code, rfl⟩ := hok
      obtain ⟨below, hnest⟩ := List.head?_eq_some_iff.mp hhead
      obtain ⟨hscopes, hactive, htraced, -⟩ :=
        @Inv.stop H options s setting request h r below hnest code
      rw [handle_of_quiet options hscopes, Event.closes, hown, hnest, closeInnermost_top]
      exact h.pop hnest hscopes hactive htraced

end Stops

/-- Every event keeps the invariant, a Stop when it closes the scope of its request. -/
theorem Inv.step {H : Type} (options : Options H) {s : State} (h : Inv s) (setting : Setting)
    (e : Event H) (hok : OwnIsInnermost s (setting, e)) : Inv (s.handle options setting e) := by
  cases e with
  | start e =>
      obtain ⟨htraced, hscopes⟩ := onHostingHttpRequestInStart_scopes setting options e s.world
      refine h.opens options rfl htraced ?_
      rcases hscopes with ⟨hsame, hactive⟩ | ⟨span, hnew, hactive, hspan⟩
      · exact Or.inl ⟨hsame, hactive, fun r hr => by simpa [Event.requests] using hr⟩
      · refine Or.inr ⟨span, true, hnew, hactive, fun r hr => ?_⟩
        rcases List.mem_append.mp hr with hold | hr
        · exact Or.inl hold
        · obtain rfl := Option.some.inj (List.mem_singleton.mp hr)
          exact Or.inr ⟨rfl, rfl, hspan⟩
  | beforeAction e =>
      obtain ⟨hquiet, htraced⟩ := within_onMvcBeforeAction options e s.world
      exact h.opens options rfl htraced (Or.inl ⟨hquiet.scopes, hquiet.active, fun _ => id⟩)
  | unhandledException e =>
      obtain ⟨hquiet, htraced⟩ := within_onHostingUnhandledException setting e s.world
      exact h.opens options rfl htraced (Or.inl ⟨hquiet.scopes, hquiet.active, fun _ => id⟩)
  | stop request statusCode => exact h.stops options hok
  | userStartActive operationName parent serviceName =>
      obtain ⟨htraced, hscopes⟩ :=
        startActive_opens setting operationName parent serviceName s.world
      refine h.opens options rfl htraced ?_
      rcases hscopes with ⟨hsame, hactive⟩ | ⟨hnew, hactive⟩
      · exact Or.inl ⟨hsame, hactive, fun _ => id⟩
      · exact Or.inr ⟨_, true, hnew, hactive, fun _ => Or.inl⟩
  | userActivate span finishOnClose =>
      exact h.opens options rfl (fun _ => id)
        (Or.inr ⟨span, finishOnClose, rfl, rfl, fun _ => Or.inl⟩)
  | userClose r => exact h.userClose options r

/-- In every sequence of events on a flow, each Stop closes the scope of its own request, and
nothing when there is none, exactly when that scope is the innermost one at each Stop. -/
theorem stops_own_iff {H : Type} (options : Options H) (process : Process.State)
    (es : List (Setting × Event H)) :
    (machine options process).EveryStep (machine options process).initial es StopsOwn ↔
      (machine options process).Throughout (machine options process).initial es
        OwnIsInnermost := by
  refine (machine options process).everyStep_iff_throughout ?_ (inv_initial process) es
  rintro s ⟨setting, e⟩ t h hstep
  obtain rfl : s.handle options setting e = t := Option.some.inj hstep
  have hiff : StopsOwn s (setting, e) (s.handle options setting e) ↔
      OwnIsInnermost s (setting, e) := by
    cases e with
    | stop request statusCode => exact stopsOwn_stop_iff options h statusCode
    | _ => exact Iff.rfl
  exact ⟨hiff.mp, fun hok => ⟨hiff.mpr hok, h.step options setting e hok⟩⟩

section Examples

/-- Every request is ignored, or none is. -/
def ignoring (ignored : Bool) : Options Unit := ⟨[fun _ => .ok ignored], false, id, id⟩

def requestStart : StartEvent Unit where
  httpContext := .ok ()
  request := .ok ⟨none, none, [], []⟩
  propagatedContext := none
  remoteIp := .ok none
  onRequest := .ok ⟨⟩

/-- A request in which user code opens a scope and closes it. -/
def nestedScope : List (Setting × Event Unit) :=
  [(Setting.plain, .start requestStart), (Setting.plain, .userActivate 0 false),
    (Setting.plain, .userClose 1), (Setting.plain, .stop 0 (.ok 200))]

theorem stops_own_nestedScope :
    (machine (ignoring false) ⟨[], [], []⟩).EveryStep
      (machine (ignoring false) ⟨[], [], []⟩).initial nestedScope StopsOwn := by
  refine (stops_own_iff (ignoring false) ⟨[], [], []⟩ nestedScope).mpr ?_
  simp only [nestedScope, Machine.throughout_cons]
  rintro _ ⟨⟩
  refine ⟨trivial, ?_⟩
  rintro _ ⟨⟩
  refine ⟨trivial, ?_⟩
  rintro _ ⟨⟩
  refine ⟨trivial, ?_⟩
  rintro _ ⟨⟩
  exact ⟨⟨by decide +kernel, 200, rfl⟩, Machine.throughout_nil _⟩

/-- User code opens a scope, then a request is ignored and ends. -/
def ignoredRequest : List (Setting × Event Unit) :=
  [(Setting.plain, .userActivate 0 true), (Setting.plain, .start requestStart),
    (Setting.plain, .stop 0 (.ok 200))]

/-- The Stop of the ignored request closes the scope of the user. -/
theorem not_stops_own :
    ¬ (machine (ignoring true) ⟨[], [], []⟩).EveryStep
      (machine (ignoring true) ⟨[], [], []⟩).initial ignoredRequest StopsOwn := by
  intro h
  have hsame := h (ignoredRequest.take 2) ignoredRequest[2] [] _ _ rfl rfl rfl
  have hactive : none = some 0 := congrArg World.active hsame
  cases hactive

end Examples

end SignalFxTracing.DiagnosticListeners.AspNetCore
