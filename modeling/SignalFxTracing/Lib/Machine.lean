import Mathlib.Data.List.Basic

/-!
# Machines with guarded events

A machine is a state type with a partial step: `none` means that the event is
not enabled in that state. Runs are lists of events, so that statements about
every order of operations are statements about every list.

The rules below carry a property along a whole run from what one step does.
-/

namespace SignalFxTracing.Lib

/-- A deterministic machine whose events may be refused. -/
structure Machine (State Event : Type*) where
  initial : State
  step : State → Event → Option State

namespace Machine

variable {State Event : Type*} (m : Machine State Event)

/-- Execute the events in order, failing at the first one that is refused. -/
def run (s : State) : List Event → Option State
  | [] => some s
  | e :: rest => (m.step s e).bind fun t => run t rest

@[simp] theorem run_nil (s : State) : m.run s [] = some s := rfl

@[simp] theorem run_cons (s : State) (e : Event) (rest : List Event) :
    m.run s (e :: rest) = (m.step s e).bind fun t => m.run t rest := rfl

theorem run_cons_eq_some {s u : State} {e : Event} {rest : List Event} :
    m.run s (e :: rest) = some u ↔
      ∃ t, m.step s e = some t ∧ m.run t rest = some u := by
  simp [Option.bind_eq_some_iff]

theorem run_append (s : State) (before after : List Event) :
    m.run s (before ++ after) = (m.run s before).bind fun t => m.run t after := by
  induction before generalizing s with
  | nil => rfl
  | cons e rest ih =>
      simp only [List.cons_append, run_cons, Option.bind_assoc]
      exact congrArg _ (funext ih)

/-- States that some run from the initial state ends in. -/
def Reachable (s : State) : Prop := ∃ es, m.run m.initial es = some s

theorem reachable_initial : m.Reachable m.initial := ⟨[], rfl⟩

/-- A property that no enabled event destroys. -/
def Preserved (P : State → Prop) : Prop :=
  ∀ s e t, P s → m.step s e = some t → P t

theorem Preserved.run {m : Machine State Event} {P : State → Prop}
    (h : m.Preserved P) {s t : State} {es : List Event}
    (hs : P s) (hr : m.run s es = some t) : P t := by
  induction es generalizing s with
  | nil =>
      obtain rfl : s = t := Option.some.inj hr
      exact hs
  | cons e rest ih =>
      obtain ⟨u, hu, hrest⟩ := (m.run_cons_eq_some).mp hr
      exact ih (h s e u hs hu) hrest

/-- The invariant rule: initial states have it and steps keep it. -/
theorem Preserved.reachable {m : Machine State Event} {P : State → Prop}
    (h : m.Preserved P) (hi : P m.initial) {s : State} (hs : m.Reachable s) : P s := by
  obtain ⟨es, hr⟩ := hs
  exact h.run hi hr

/-- Steps whose events satisfy `allowed` keep `P`; then so do runs of such events. -/
theorem run_of_forall {P : State → Prop} (allowed : State → Event → Prop)
    (h : ∀ s e t, P s → allowed s e → m.step s e = some t → P t)
    {s t : State} {es : List Event} (hs : P s) (hr : m.run s es = some t)
    (ha : ∀ before e after u, es = before ++ e :: after →
      m.run s before = some u → allowed u e) : P t := by
  induction es generalizing s with
  | nil =>
      obtain rfl : s = t := Option.some.inj hr
      exact hs
  | cons e rest ih =>
      obtain ⟨u, hu, hrest⟩ := (m.run_cons_eq_some).mp hr
      refine ih (h s e u hs (ha [] e rest s rfl rfl) hu) hrest ?_
      intro before e' after v hsplit hv
      exact ha (e :: before) e' after v (by rw [hsplit]; rfl) (by simp [hu, hv])

section Lockstep

variable {Other : Type*}

/-- Two machines that execute every event together. -/
def lockstep (other : Machine Other Event) : Machine (State × Other) Event where
  initial := (m.initial, other.initial)
  step s e := (m.step s.1 e).bind fun t => (other.step s.2 e).map fun u => (t, u)

theorem lockstep_step_eq_some {other : Machine Other Event} {s t : State × Other} {e : Event} :
    (m.lockstep other).step s e = some t ↔
      m.step s.1 e = some t.1 ∧ other.step s.2 e = some t.2 := by
  constructor
  · intro h
    obtain ⟨u, hu, h⟩ := Option.bind_eq_some_iff.mp h
    obtain ⟨v, hv, rfl⟩ := Option.map_eq_some_iff.mp h
    exact ⟨hu, hv⟩
  · intro ⟨hfst, hsnd⟩
    simp [lockstep, hfst, hsnd]

end Lockstep

/-- Every state that the run passes through has the property. -/
def Always (s : State) (es : List Event) (P : State → Prop) : Prop :=
  ∀ before after t, es = before ++ after → m.run s before = some t → P t

/-- Every event that the run executes meets the condition in the state before it. -/
def Throughout (s : State) (es : List Event) (ok : State → Event → Prop) : Prop :=
  ∀ before e after t u, es = before ++ e :: after →
    m.run s before = some t → m.step t e = some u → ok t e

/-- Every step of the run is related as `R` says. -/
def EveryStep (s : State) (es : List Event) (R : State → Event → State → Prop) : Prop :=
  ∀ before e after t u, es = before ++ e :: after →
    m.run s before = some t → m.step t e = some u → R t e u

theorem always_nil {s : State} {P : State → Prop} : m.Always s [] P ↔ P s := by
  constructor
  · intro h
    exact h [] [] s rfl rfl
  · intro hs before after t hes hr
    obtain ⟨rfl, -⟩ := List.append_eq_nil_iff.mp hes.symm
    obtain rfl : s = t := Option.some.inj hr
    exact hs

theorem always_cons {s : State} {e : Event} {rest : List Event} {P : State → Prop} :
    m.Always s (e :: rest) P ↔ P s ∧ ∀ t, m.step s e = some t → m.Always t rest P := by
  constructor
  · intro h
    refine ⟨h [] (e :: rest) s rfl rfl, ?_⟩
    intro t ht before after u hrest hu
    exact h (e :: before) after u (by rw [hrest]; rfl) (by simp [ht, hu])
  · rintro ⟨hs, h⟩ before after u hes hu
    cases before with
    | nil =>
        obtain rfl : s = u := Option.some.inj hu
        exact hs
    | cons e' before =>
        obtain ⟨rfl, hrest⟩ := List.cons_eq_cons.mp hes
        obtain ⟨t, ht, hu⟩ := m.run_cons_eq_some.mp hu
        exact h t ht before after u hrest hu

theorem throughout_nil {s : State} {ok : State → Event → Prop} : m.Throughout s [] ok := by
  intro before e after t u hes
  simp at hes

theorem throughout_cons {s : State} {e : Event} {rest : List Event}
    {ok : State → Event → Prop} :
    m.Throughout s (e :: rest) ok ↔
      ∀ t, m.step s e = some t → ok s e ∧ m.Throughout t rest ok := by
  constructor
  · intro h t ht
    refine ⟨h [] e rest s t rfl rfl ht, ?_⟩
    intro before e' after u v hrest hu hv
    exact h (e :: before) e' after u v (by rw [hrest]; rfl) (by simp [ht, hu]) hv
  · intro h before e' after u v hes hu hv
    cases before with
    | nil =>
        obtain ⟨rfl, rfl⟩ := List.cons_eq_cons.mp hes
        obtain rfl : s = u := Option.some.inj hu
        exact (h v hv).1
    | cons e'' before =>
        obtain ⟨rfl, hrest⟩ := List.cons_eq_cons.mp hes
        obtain ⟨t, ht, hu⟩ := m.run_cons_eq_some.mp hu
        exact (h t ht).2 before e' after u v hrest hu hv

/-- Steps that meet the condition keep `P`; so does a run of such steps, all along. -/
theorem Throughout.always {m : Machine State Event} {P : State → Prop}
    {ok : State → Event → Prop} (h : ∀ s e t, P s → ok s e → m.step s e = some t → P t)
    {s : State} {es : List Event} (hs : P s) (hok : m.Throughout s es ok) : m.Always s es P := by
  induction es generalizing s with
  | nil => exact m.always_nil.mpr hs
  | cons e rest ih =>
      refine m.always_cons.mpr ⟨hs, ?_⟩
      intro t ht
      obtain ⟨hse, hrest⟩ := m.throughout_cons.mp hok t ht
      exact ih (h s e t hs hse ht) hrest

/-- If, from a state with the invariant, a step leads to the property only when it meets the
condition, and a step that meets it keeps the invariant, then a run has the property
throughout exactly when all its steps meet the condition. -/
theorem always_iff_throughout {Inv P : State → Prop} {ok : State → Event → Prop}
    (hP : ∀ s, Inv s → P s)
    (hstep : ∀ s e t, Inv s → m.step s e = some t → (P t → ok s e) ∧ (ok s e → Inv t))
    {s : State} (hs : Inv s) (es : List Event) :
    m.Always s es P ↔ m.Throughout s es ok := by
  induction es generalizing s with
  | nil => exact iff_of_true (m.always_nil.mpr (hP s hs)) m.throughout_nil
  | cons e rest ih =>
      rw [always_cons, throughout_cons]
      constructor
      · rintro ⟨-, h⟩ t ht
        obtain ⟨honly, hkeep⟩ := hstep s e t hs ht
        have hok := honly (h t ht [] rest t rfl rfl)
        exact ⟨hok, (ih (hkeep hok)).mp (h t ht)⟩
      · intro h
        refine ⟨hP s hs, ?_⟩
        intro t ht
        obtain ⟨hok, hrest⟩ := h t ht
        exact (ih ((hstep s e t hs ht).2 hok)).mpr hrest

theorem everyStep_nil {s : State} {R : State → Event → State → Prop} : m.EveryStep s [] R := by
  intro before e after t u hes
  simp at hes

theorem everyStep_cons {s : State} {e : Event} {rest : List Event}
    {R : State → Event → State → Prop} :
    m.EveryStep s (e :: rest) R ↔
      ∀ t, m.step s e = some t → R s e t ∧ m.EveryStep t rest R := by
  constructor
  · intro h t ht
    refine ⟨h [] e rest s t rfl rfl ht, ?_⟩
    intro before e' after u v hrest hu hv
    exact h (e :: before) e' after u v (by rw [hrest]; rfl) (by simp [ht, hu]) hv
  · intro h before e' after u v hes hu hv
    cases before with
    | nil =>
        obtain ⟨rfl, rfl⟩ := List.cons_eq_cons.mp hes
        obtain rfl : s = u := Option.some.inj hu
        exact (h v hv).1
    | cons e'' before =>
        obtain ⟨rfl, hrest⟩ := List.cons_eq_cons.mp hes
        obtain ⟨t, ht, hu⟩ := m.run_cons_eq_some.mp hu
        exact (h t ht).2 before e' after u v hrest hu hv

/-- The rule `always_iff_throughout` for a property of states and one of steps. -/
theorem correct_iff_throughout {Inv P : State → Prop} {R : State → Event → State → Prop}
    {ok : State → Event → Prop} (hP : ∀ s, Inv s → P s)
    (hstep : ∀ s e t, Inv s → m.step s e = some t →
      (R s e t ∧ P t → ok s e) ∧ (ok s e → R s e t ∧ Inv t))
    {s : State} (hs : Inv s) (es : List Event) :
    m.Always s es P ∧ m.EveryStep s es R ↔ m.Throughout s es ok := by
  induction es generalizing s with
  | nil => exact iff_of_true ⟨m.always_nil.mpr (hP s hs), m.everyStep_nil⟩ m.throughout_nil
  | cons e rest ih =>
      rw [always_cons, everyStep_cons, throughout_cons]
      constructor
      · rintro ⟨⟨-, halways⟩, heach⟩ t ht
        obtain ⟨honly, hkeep⟩ := hstep s e t hs ht
        have hok := honly ⟨(heach t ht).1, halways t ht [] rest t rfl rfl⟩
        exact ⟨hok, (ih (hkeep hok).2).mp ⟨halways t ht, (heach t ht).2⟩⟩
      · intro h
        refine ⟨⟨hP s hs, ?_⟩, ?_⟩
        · intro t ht
          obtain ⟨hok, hrest⟩ := h t ht
          exact ((ih ((hstep s e t hs ht).2 hok).2).mpr hrest).1
        · intro t ht
          obtain ⟨hok, hrest⟩ := h t ht
          obtain ⟨hR, hInv⟩ := (hstep s e t hs ht).2 hok
          exact ⟨hR, ((ih hInv).mpr hrest).2⟩

/-- The rule for a property of steps alone. -/
theorem everyStep_iff_throughout {Inv : State → Prop} {R : State → Event → State → Prop}
    {ok : State → Event → Prop}
    (hstep : ∀ s e t, Inv s → m.step s e = some t →
      (R s e t → ok s e) ∧ (ok s e → R s e t ∧ Inv t))
    {s : State} (hs : Inv s) (es : List Event) : m.EveryStep s es R ↔ m.Throughout s es ok := by
  have hcorrect : m.Always s es (fun _ => True) ∧ m.EveryStep s es R ↔ m.Throughout s es ok := by
    refine m.correct_iff_throughout (fun _ _ => trivial) ?_ hs es
    intro s e t hs ht
    obtain ⟨honly, hkeep⟩ := hstep s e t hs ht
    exact ⟨fun hright => honly hright.1, hkeep⟩
  rw [← hcorrect]
  exact (and_iff_right fun _ _ _ _ _ => trivial).symm

end Machine

end SignalFxTracing.Lib
