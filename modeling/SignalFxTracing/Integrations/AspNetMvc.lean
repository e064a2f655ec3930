import SignalFxTracing.Clr.Text
import SignalFxTracing.Lib.MapOption
import SignalFxTracing.Scopes.ScopeManager

/-!
# MVC actions (`AspNetMvcIntegration.cs`)

`BeginInvokeAction` stores its scope in one slot of `HttpContext.Items`, and
`EndInvokeAction` disposes what it finds there. An action may run child
actions while its original `BeginInvokeAction` runs, between its two calls and
while its original `EndInvokeAction` runs.

## Implementation notes

All calls share one `HttpContext`, whose items are written by these wrappers
only under their key. Code outside the wrappers is known by its outcome; the
tags of the spans, which no call reads back, are left out.
-/

namespace SignalFxTracing.Integrations.AspNetMvc

open Clr Lib Scopes

def controllerContextTypeName : Text := text "System.Web.Mvc.ControllerContext"

/-- What `CreateScope` finds, and the span that `StartActive` starts there. -/
structure ControllerContext (S : Type*) where
  isIntegrationEnabled : Bool
  /-- The full name of the type of the controller context, if it is not null. -/
  typeName : Option Text
  hasHttpContext : Bool
  /-- Whether reading the request raises an exception before `StartActive`. -/
  requestRaises : Bool
  span : S

variable {S : Type*}

/-- `CreateScope`: the span of the scope that it returns, if it returns one. -/
def createScope (c : ControllerContext S) : Option S :=
  if ¬ c.isIntegrationEnabled then none
  else if c.typeName ≠ some controllerContextTypeName then none
  else if ¬ c.hasHttpContext then none
  else if c.requestRaises then none
  else some c.span

/-- Well-nested calls that return to the same caller, one action after the other. -/
inductive Calls (S : Type*)
  | done
  /-- `BeginInvokeAction` of a null invoker raises before it does anything. -/
  | refused (rest : Calls S)
  /-- `BeginInvokeAction` raises: it found no method, or the original one raised. -/
  | beginThrows (context : ControllerContext S) (inBegin rest : Calls S)
  /-- `EndInvokeAction` raises before its original method: it found none. -/
  | endUnresolved (context : ControllerContext S) (inBegin between rest : Calls S)
  /-- The original `EndInvokeAction` runs, and returns or raises. -/
  | endInvoked (context : ControllerContext S) (inBegin between inEnd rest : Calls S)

structure State (S : Type*) where
  flow : ExecutionFlow S
  /-- The scope in `HttpContext.Items`, null and absent alike. -/
  items : Option ScopeRef

/-- What became of one `BeginInvokeAction`: its scope, whether its `EndInvokeAction` was
called and which scope that one disposed. -/
structure Record where
  opened : Option ScopeRef
  ended : Bool
  closed : Option ScopeRef

namespace State

/-- `BeginInvokeAction` up to the call of the original method, with the scope it holds. -/
def beginInvokeAction (c : ControllerContext S) (s : State S) : Option ScopeRef × State S :=
  match createScope c with
  | none => (none, { s with items := none })
  | some span =>
      let (scope, flow) := s.flow.startActive span
      (some scope, { flow := flow, items := some scope })

theorem beginInvokeAction_of_none {c : ControllerContext S} (h : createScope c = none)
    (s : State S) : s.beginInvokeAction c = (none, { s with items := none }) := by
  rw [beginInvokeAction, h]

theorem beginInvokeAction_of_some {c : ControllerContext S} {span : S}
    (h : createScope c = some span) (s : State S) :
    s.beginInvokeAction c = (some s.flow.manager.scopes.length,
      { flow := (s.flow.startActive span).2, items := some s.flow.manager.scopes.length }) := by
  rw [beginInvokeAction, h]
  rfl

/-- The block `finally` of `EndInvokeAction`. -/
def dispose (scope : Option ScopeRef) (s : State S) : State S :=
  { s with flow := s.flow.dispose scope }

end State

/-- Execute the calls, with a record for every action whose scope was decided on. -/
def run : Calls S → State S → List Record × State S
  | .done, s => ([], s)
  | .refused rest, s => run rest s
  | .beginThrows context inBegin rest, s =>
      let begun := s.beginInvokeAction context
      let first := run inBegin begun.2
      let last := run rest first.2
      (first.1 ++ ⟨begun.1, false, none⟩ :: last.1, last.2)
  | .endUnresolved context inBegin between rest, s =>
      let begun := s.beginInvokeAction context
      let first := run inBegin begun.2
      let second := run between first.2
      let last := run rest second.2
      (first.1 ++ second.1 ++ ⟨begun.1, true, none⟩ :: last.1, last.2)
  | .endInvoked context inBegin between inEnd rest, s =>
      let begun := s.beginInvokeAction context
      let first := run inBegin begun.2
      let second := run between first.2
      let scope := second.2.items
      let third := run inEnd second.2
      let last := run rest (third.2.dispose scope)
      (first.1 ++ second.1 ++ third.1 ++ ⟨begun.1, true, scope⟩ :: last.1, last.2)

/-- The last write to the slot: whether it stored a scope. -/
def lastWrite : Calls S → Option Bool
  | .done => none
  | .refused rest => lastWrite rest
  | .beginThrows context inBegin rest =>
      (lastWrite rest).or ((lastWrite inBegin).or (some (createScope context).isSome))
  | .endUnresolved context inBegin between rest =>
      (lastWrite rest).or ((lastWrite between).or
        ((lastWrite inBegin).or (some (createScope context).isSome)))
  | .endInvoked context inBegin between inEnd rest =>
      (lastWrite rest).or ((lastWrite inEnd).or ((lastWrite between).or
        ((lastWrite inBegin).or (some (createScope context).isSome))))

/-- The condition on the calls: an action that opens a scope gets to dispose it, and no other
action has written to the slot before `EndInvokeAction` reads it; for one that opens none,
the last write before that stored none. -/
def Undisturbed : Calls S → Prop
  | .done => True
  | .refused rest => Undisturbed rest
  | .beginThrows context inBegin rest =>
      createScope context = none ∧ Undisturbed inBegin ∧ Undisturbed rest
  | .endUnresolved context inBegin between rest =>
      createScope context = none ∧ Undisturbed inBegin ∧ Undisturbed between ∧ Undisturbed rest
  | .endInvoked context inBegin between inEnd rest =>
      (match createScope context with
        | some _ => lastWrite inBegin = none ∧ lastWrite between = none
        | none => (lastWrite between).or (lastWrite inBegin) ≠ some true) ∧
      Undisturbed inBegin ∧ Undisturbed between ∧ Undisturbed inEnd ∧ Undisturbed rest

/-- The slot after calls with a given last write, from a state with `n` scopes. -/
def SlotAfter (n : Nat) (before : Option ScopeRef) : Option Bool → Option ScopeRef → Prop
  | none, after => after = before
  | some false, after => after = none
  | some true, after => ∃ scope : ScopeRef, after = some scope ∧ n ≤ scope

/-- What some calls with a given last write leave behind. -/
structure Outcome (write : Option Bool) (s : State S) (out : List Record × State S) : Prop where
  scopes : s.flow.manager.scopes <+: out.2.flow.manager.scopes
  owners : ∀ scope ∈ out.1.filterMap Record.opened,
    s.flow.manager.scopes.length ≤ scope ∧ scope < out.2.flow.manager.scopes.length
  nodup : (out.1.filterMap Record.opened).Nodup
  notEnded : ∀ r ∈ out.1, r.ended = false → r.closed = none
  items : SlotAfter s.flow.manager.scopes.length s.items write out.2.items
  finished : s.flow.finished ⊆ out.2.flow.finished
  restores : (∀ r ∈ out.1, r.closed = r.opened) →
    out.2.flow.manager.active = s.flow.manager.active ∧
      ∀ scope ∈ out.1.filterMap Record.opened, scope ∈ out.2.flow.finished

namespace Outcome

theorem refl (s : State S) : Outcome none s ([], s) where
  scopes := List.prefix_rfl
  owners := by simp
  nodup := List.nodup_nil
  notEnded := by simp
  items := rfl
  finished := List.Subset.refl _
  restores := by simp

theorem length_le {write : Option Bool} {s : State S} {out : List Record × State S}
    (h : Outcome write s out) :
    s.flow.manager.scopes.length ≤ out.2.flow.manager.scopes.length :=
  h.scopes.length_le

/-- Calls that follow one another. -/
theorem trans {write write' : Option Bool} {s t u : State S} {rs rs' : List Record}
    (h : Outcome write s (rs, t)) (h' : Outcome write' t (rs', u)) :
    Outcome (write'.or write) s (rs ++ rs', u) where
  scopes := h.scopes.trans h'.scopes
  owners := by
    intro scope hscope
    rw [List.filterMap_append] at hscope
    rcases List.mem_append.mp hscope with hfirst | hsecond
    · obtain ⟨hle, hlt⟩ := h.owners scope hfirst
      exact ⟨hle, Nat.lt_of_lt_of_le hlt h'.length_le⟩
    · obtain ⟨hle, hlt⟩ := h'.owners scope hsecond
      exact ⟨Nat.le_trans h.length_le hle, hlt⟩
  nodup := by
    rw [List.filterMap_append]
    refine h.nodup.append h'.nodup ?_
    intro scope hfirst hsecond
    exact Nat.not_lt_of_le (h'.owners scope hsecond).1 (h.owners scope hfirst).2
  notEnded := by
    intro r hr
    rcases List.mem_append.mp hr with hfirst | hsecond
    · exact h.notEnded r hfirst
    · exact h'.notEnded r hsecond
  items := by
    have hfirst := h.items
    have hsecond := h'.items
    match write' with
    | none =>
        have hkept : u.items = t.items := hsecond
        show SlotAfter _ _ write u.items
        rw [hkept]
        exact hfirst
    | some false => exact hsecond
    | some true =>
        obtain ⟨scope, hscope, hle⟩ := hsecond
        exact ⟨scope, hscope, Nat.le_trans h.length_le hle⟩
  finished := List.Subset.trans h.finished h'.finished
  restores := by
    intro hrecords
    obtain ⟨hactive, hdone⟩ := h.restores fun r hr => hrecords r (List.mem_append_left rs' hr)
    obtain ⟨hactive', hdone'⟩ := h'.restores fun r hr => hrecords r (List.mem_append_right rs hr)
    refine ⟨hactive'.trans hactive, ?_⟩
    intro scope hscope
    rw [List.filterMap_append] at hscope
    rcases List.mem_append.mp hscope with hfirst | hsecond
    · exact h'.finished (hdone scope hfirst)
    · exact hdone' scope hsecond

/-- The calls inside one action, between its `BeginInvokeAction` and the disposal at its end. -/
theorem enclose {c : ControllerContext S} {write : Option Bool} {s t : State S}
    {rs : List Record} (h : Outcome write (s.beginInvokeAction c).2 (rs, t)) (ended : Bool)
    (closed : Option ScopeRef) (hended : ended = false → closed = none) :
    Outcome (write.or (some (createScope c).isSome)) s
      (rs ++ [⟨(s.beginInvokeAction c).1, ended, closed⟩], t.dispose closed) := by
  have hnotEnded : ∀ r ∈ rs ++ [⟨(s.beginInvokeAction c).1, ended, closed⟩],
      r.ended = false → r.closed = none := by
    intro r hr
    rcases List.mem_append.mp hr with hinner | hlast
    · exact h.notEnded r hinner
    · obtain rfl := List.mem_singleton.mp hlast
      exact hended
  have hfinished : t.flow.finished ⊆ (t.dispose closed).flow.finished :=
    ExecutionFlow.finished_subset_dispose t.flow closed
  cases hc : createScope c with
  | none =>
      rw [State.beginInvokeAction_of_none hc] at h hnotEnded ⊢
      refine ⟨?_, ?_, ?_, hnotEnded, ?_, List.Subset.trans h.finished hfinished, ?_⟩
      · simpa [State.dispose] using h.scopes
      · simpa [State.dispose] using h.owners
      · simpa using h.nodup
      · match write, h.items with
        | none, hitems => exact hitems
        | some false, hitems => exact hitems
        | some true, hitems => exact hitems
      · intro hrecords
        obtain rfl : closed = none := hrecords ⟨none, ended, closed⟩ (by simp)
        obtain ⟨hactive, hdone⟩ := h.restores fun r hr => hrecords r (List.mem_append_left _ hr)
        refine ⟨hactive, ?_⟩
        simpa [State.dispose] using hdone
  | some span =>
      rw [State.beginInvokeAction_of_some hc] at h hnotEnded ⊢
      have hlt : s.flow.manager.scopes.length < t.flow.manager.scopes.length := by
        have := h.length_le
        rw [ExecutionFlow.startActive_scopes, List.length_append] at this
        exact this
      have howners : ∀ scope ∈ rs.filterMap Record.opened,
          s.flow.manager.scopes.length < scope ∧ scope < t.flow.manager.scopes.length := by
        intro scope hscope
        have := h.owners scope hscope
        rw [ExecutionFlow.startActive_scopes, List.length_append] at this
        exact this
      refine ⟨?_, ?_, ?_, hnotEnded, ?_, List.Subset.trans h.finished hfinished, ?_⟩
      · have hscopes : (t.dispose closed).flow.manager.scopes = t.flow.manager.scopes :=
          ExecutionFlow.dispose_scopes _ _
        have hprefix := (List.prefix_append _ _).trans h.scopes
        exact hscopes ▸ hprefix
      · intro scope hscope
        rw [State.dispose, ExecutionFlow.dispose_scopes]
        rw [List.filterMap_append] at hscope
        rcases List.mem_append.mp hscope with hinner | hown
        · exact ⟨Nat.le_of_lt (howners scope hinner).1, (howners scope hinner).2⟩
        · obtain rfl : scope = s.flow.manager.scopes.length := by simpa using hown
          exact ⟨Nat.le_refl _, hlt⟩
      · rw [List.filterMap_append]
        refine h.nodup.append (List.nodup_singleton _) ?_
        intro scope hinner hown
        obtain rfl : scope = s.flow.manager.scopes.length := by simpa using hown
        exact Nat.lt_irrefl _ (howners _ hinner).1
      · match write, h.items with
        | none, hitems => exact ⟨_, hitems, Nat.le_refl _⟩
        | some false, hitems => exact hitems
        | some true, hitems =>
            obtain ⟨scope, hscope, hle⟩ := hitems
            rw [ExecutionFlow.startActive_scopes, List.length_append] at hle
            exact ⟨scope, hscope, Nat.le_of_succ_le hle⟩
      · intro hrecords
        obtain rfl : closed = some s.flow.manager.scopes.length :=
          hrecords ⟨some s.flow.manager.scopes.length, ended, closed⟩ (by simp)
        obtain ⟨hactive, hdone⟩ := h.restores fun r hr => hrecords r (List.mem_append_left _ hr)
        have hscope : t.flow.manager.scopes[s.flow.manager.scopes.length]? =
            some ⟨s.flow.manager.active, span, true⟩ := by
          obtain ⟨later, hlater⟩ := h.scopes
          rw [← hlater]
          simp
        obtain ⟨hparent, hown⟩ := ExecutionFlow.dispose_of_active hactive hscope rfl
        refine ⟨hparent, ?_⟩
        intro scope hmem
        rw [List.filterMap_append] at hmem
        rcases List.mem_append.mp hmem with hinner | hlast
        · exact hfinished (hdone scope hinner)
        · obtain rfl : scope = s.flow.manager.scopes.length := by simpa using hlast
          exact hown

end Outcome

/-- What every well-nested sequence of calls leaves behind. -/
theorem run_outcome (calls : Calls S) (s : State S) : Outcome (lastWrite calls) s (run calls s) := by
  induction calls generalizing s with
  | done => exact Outcome.refl s
  | refused rest ihRest => exact ihRest s
  | beginThrows context inBegin rest ihBegin ihRest =>
      have hinside := ihBegin (s.beginInvokeAction context).2
      have haction := hinside.enclose false none fun _ => rfl
      have h := haction.trans (ihRest _)
      rw [List.append_assoc] at h
      exact h
  | endUnresolved context inBegin between rest ihBegin ihBetween ihRest =>
      have hinside := (ihBegin (s.beginInvokeAction context).2).trans (ihBetween _)
      have haction := hinside.enclose true none fun _ => rfl
      have h := haction.trans (ihRest _)
      rw [List.append_assoc, Option.or_assoc] at h
      exact h
  | endInvoked context inBegin between inEnd rest ihBegin ihBetween ihEnd ihRest =>
      have hbefore := (ihBegin (s.beginInvokeAction context).2).trans (ihBetween _)
      have hinside := hbefore.trans (ihEnd _)
      have haction := hinside.enclose true
        (run between (run inBegin (s.beginInvokeAction context).2).2).2.items nofun
      have h := haction.trans (ihRest _)
      rw [List.append_assoc, Option.or_assoc, Option.or_assoc] at h
      exact h

theorem opened_eq_none_iff (c : ControllerContext S) (s : State S) :
    (s.beginInvokeAction c).1 = none ↔ createScope c = none := by
  cases hc : createScope c with
  | none => simp [State.beginInvokeAction_of_none hc]
  | some span => simp [State.beginInvokeAction_of_some hc]

/-- When the slot still holds the scope of the action at its end. -/
theorem slot_eq_opened_iff {c : ControllerContext S} {s : State S} {write : Option Bool}
    {out : List Record × State S} (h : Outcome write (s.beginInvokeAction c).2 out) :
    out.2.items = (s.beginInvokeAction c).1 ↔
      match createScope c with
      | some _ => write = none
      | none => write ≠ some true := by
  have hitems := h.items
  cases hc : createScope c with
  | none =>
      rw [State.beginInvokeAction_of_none hc] at hitems ⊢
      match write, hitems with
      | none, hitems => exact iff_of_true hitems nofun
      | some false, hitems => exact iff_of_true hitems nofun
      | some true, ⟨scope, hscope, _⟩ =>
          rw [hscope]
          exact iff_of_false nofun fun hne => hne rfl
  | some span =>
      rw [State.beginInvokeAction_of_some hc] at hitems ⊢
      match write, hitems with
      | none, hitems => exact iff_of_true hitems rfl
      | some false, hitems =>
          have hnone : out.2.items = none := hitems
          rw [hnone]
          exact iff_of_false nofun nofun
      | some true, ⟨scope, hscope, hle⟩ =>
          rw [ExecutionFlow.startActive_scopes, List.length_append] at hle
          rw [hscope]
          refine iff_of_false ?_ nofun
          intro heq
          exact Nat.not_lt_of_le hle (Option.some.inj heq ▸ Nat.lt_succ_self _)

/-- The condition on the calls says that each action disposes its own scope and no other. -/
theorem undisturbed_iff (calls : Calls S) (s : State S) :
    Undisturbed calls ↔ ∀ r ∈ (run calls s).1, r.closed = r.opened := by
  induction calls generalizing s with
  | done => simp [Undisturbed, run]
  | refused rest ihRest => exact ihRest s
  | beginThrows context inBegin rest ihBegin ihRest =>
      simp only [Undisturbed, run, List.forall_mem_append, List.forall_mem_cons]
      rw [ihBegin (s.beginInvokeAction context).2, ihRest (run inBegin _).2,
        ← opened_eq_none_iff context s, eq_comm]
      exact and_left_comm
  | endUnresolved context inBegin between rest ihBegin ihBetween ihRest =>
      simp only [Undisturbed, run, List.forall_mem_append, List.forall_mem_cons]
      rw [ihBegin (s.beginInvokeAction context).2, ihBetween (run inBegin _).2,
        ihRest (run between _).2, ← opened_eq_none_iff context s, eq_comm]
      tauto
  | endInvoked context inBegin between inEnd rest ihBegin ihBetween ihEnd ihRest =>
      have hslot := slot_eq_opened_iff
        ((run_outcome inBegin (s.beginInvokeAction context).2).trans (run_outcome between _))
      simp only [Undisturbed, run, List.forall_mem_append, List.forall_mem_cons]
      rw [ihBegin (s.beginInvokeAction context).2, ihBetween (run inBegin _).2,
        ihEnd (run between _).2, ihRest ((run inEnd _).2.dispose _), hslot]
      cases createScope context <;> simp only [Option.or_eq_none_iff] <;> tauto

/-- Each `EndInvokeAction` closes the scope of its `BeginInvokeAction`, each scope is closed
once, and afterwards no scope of these actions is active or has an unfinished span. -/
structure PairsUp (s : State S) (out : List Record × State S) : Prop where
  closesOwn : ∀ r ∈ out.1, r.ended = true → r.closed = r.opened
  closedOnce : ∀ scope ∈ out.1.filterMap Record.opened,
    (out.1.filterMap Record.closed).count scope = 1
  finished : ∀ scope ∈ out.1.filterMap Record.opened, scope ∈ out.2.flow.finished
  active : out.2.flow.manager.active = s.flow.manager.active

theorem Outcome.pairsUp {write : Option Bool} {s : State S} {out : List Record × State S}
    (h : Outcome write s out) (hrecords : ∀ r ∈ out.1, r.closed = r.opened) : PairsUp s out := by
  obtain ⟨hactive, hfinished⟩ := h.restores hrecords
  have hclosed : out.1.filterMap Record.closed = out.1.filterMap Record.opened :=
    List.filterMap_congr hrecords
  refine ⟨fun r hr _ => hrecords r hr, ?_, hfinished, hactive⟩
  intro scope hscope
  rw [hclosed]
  exact List.count_eq_one_of_mem h.nodup hscope

theorem Outcome.closed_eq_opened {write : Option Bool} {s : State S}
    {out : List Record × State S} (h : Outcome write s out) (hpairs : PairsUp s out) :
    ∀ r ∈ out.1, r.closed = r.opened := by
  intro r hr
  cases hended : r.ended with
  | true => exact hpairs.closesOwn r hr hended
  | false =>
      rw [h.notEnded r hr hended]
      cases hopened : r.opened with
      | none => rfl
      | some scope =>
          have hmem : scope ∈ out.1.filterMap Record.opened :=
            List.mem_filterMap.mpr ⟨r, hr, hopened⟩
          have hclosed : scope ∈ out.1.filterMap Record.closed := by
            apply List.count_pos_iff.mp
            rw [hpairs.closedOnce scope hmem]
            exact Nat.one_pos
          obtain ⟨r', hr', hscope⟩ := List.mem_filterMap.mp hclosed
          -- the action that disposed it was ended, so it is another one with the same scope
          have hended' : r'.ended = true := by
            by_contra hfalse
            rw [h.notEnded r' hr' (Bool.eq_false_iff.mpr hfalse)] at hscope
            cases hscope
          have hopened' := (hpairs.closesOwn r' hr' hended').symm.trans hscope
          obtain rfl := MapOption.eq_of_nodup_filterMap h.nodup hr hr' hopened hopened'
          rw [hended] at hended'
          cases hended'

/-- Well-nested calls pair up exactly when every action that opens a scope reaches the end of
its `EndInvokeAction` and the slot holds its own scope there. -/
theorem pairsUp_iff (calls : Calls S) (s : State S) :
    PairsUp s (run calls s) ↔ Undisturbed calls := by
  rw [undisturbed_iff calls s]
  constructor
  · intro hpairs
    exact (run_outcome calls s).closed_eq_opened hpairs
  · intro hrecords
    exact (run_outcome calls s).pairsUp hrecords

section Examples

/-- A request that is traced. -/
def traced : ControllerContext Unit := ⟨true, some controllerContextTypeName, true, false, ()⟩

/-- No scope is active and the slot is empty. -/
def idle : State Unit := ⟨⟨.empty, []⟩, none⟩

/-- An action whose original `BeginInvokeAction` raises leaves its scope active for ever; so
does one that runs a child action before its end, whose scope is disposed twice instead. -/
theorem not_pairsUp :
    ¬ PairsUp idle (run (.beginThrows traced .done .done) idle) ∧
    ¬ PairsUp idle (run (.endInvoked traced .done (.endInvoked traced .done .done .done .done)
      .done .done) idle) := by
  constructor
  · intro h
    have hfinished : 0 ∈ ([] : List ScopeRef) := h.finished 0 (List.mem_singleton_self 0)
    cases hfinished
  · intro h
    have hclosed := h.closesOwn ⟨some 0, true, some 1⟩ (List.mem_of_getLast? rfl) rfl
    cases hclosed

end Examples

end SignalFxTracing.Integrations.AspNetMvc
