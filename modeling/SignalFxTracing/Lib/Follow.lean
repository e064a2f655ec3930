import Mathlib.Data.Fintype.Card
import Mathlib.Logic.Relation

/-!
# Following references

Every element has at most one reference to another one. A search follows them as
often as its fuel allows; it ends exactly where the references do. Where there are
only so many elements, references that end do so within as many rounds.
-/

namespace SignalFxTracing.Lib.Follow

variable {α : Type*} (next : α → Option α)

/-- The last element, when less than `fuel` references have to be followed. -/
def follow : Nat → α → Option α
  | 0, _ => none
  | fuel + 1, a =>
      match next a with
      | none => some a
      | some b => follow fuel b

/-- The references from the first element end in the second. -/
def EndsIn (a b : α) : Prop :=
  Relation.ReflTransGen (fun a b => next a = some b) a b ∧ next b = none

variable {next} {a b c : α}

/-- Without a reference the element is the last one. -/
theorem endsIn_iff_of_none (h : next a = none) : EndsIn next a b ↔ b = a := by
  constructor
  · rintro ⟨hchain, -⟩
    rcases hchain.cases_head with rfl | ⟨c, hstep, -⟩
    · rfl
    · rw [h] at hstep
      cases hstep
  · rintro rfl
    exact ⟨.refl, h⟩

theorem endsIn_iff_of_some (h : next a = some b) : EndsIn next a c ↔ EndsIn next b c := by
  constructor
  · rintro ⟨hchain, hlast⟩
    rcases hchain.cases_head with rfl | ⟨d, hstep, hbehind⟩
    · rw [h] at hlast
      cases hlast
    · rw [h] at hstep
      obtain rfl := Option.some.inj hstep
      exact ⟨hbehind, hlast⟩
  · rintro ⟨hchain, hlast⟩
    exact ⟨.head h hchain, hlast⟩

/-- The search with enough fuel gives the end of the references. -/
theorem endsIn_iff_exists_follow : EndsIn next a b ↔ ∃ fuel, follow next fuel a = some b := by
  constructor
  · rintro ⟨hchain, hlast⟩
    induction hchain using Relation.ReflTransGen.head_induction_on with
    | refl =>
        refine ⟨1, ?_⟩
        rw [follow, hlast]
    | head hstep _ ih =>
        obtain ⟨fuel, hfuel⟩ := ih
        refine ⟨fuel + 1, ?_⟩
        rw [follow, hstep]
        exact hfuel
  · rintro ⟨fuel, hfuel⟩
    induction fuel generalizing a with
    | zero => cases hfuel
    | succ fuel ih =>
        rw [follow] at hfuel
        cases hnext : next a with
        | none =>
            rw [hnext] at hfuel
            obtain rfl := Option.some.inj hfuel
            exact (endsIn_iff_of_none hnext).mpr rfl
        | some c =>
            rw [hnext] at hfuel
            exact (endsIn_iff_of_some hnext).mpr (ih hfuel)

/-- References end in one element. -/
theorem EndsIn.unique (h : EndsIn next a b) (h' : EndsIn next a c) : b = c := by
  obtain ⟨hchain, hlast⟩ := h
  induction hchain using Relation.ReflTransGen.head_induction_on with
  | refl => exact ((endsIn_iff_of_none hlast).mp h').symm
  | head hstep _ ih => exact ih ((endsIn_iff_of_some hstep).mp h')

section Bounded

/-- The search ends with this fuel and with no less. -/
def EndsWithin (next : α → Option α) (fuel : Nat) (a b : α) : Prop :=
  follow next fuel a = some b ∧ ∀ less < fuel, follow next less a = none

theorem follow_of_le {fuel more : Nat} (h : follow next fuel a = some b) (hle : fuel ≤ more) :
    follow next more a = some b := by
  induction fuel generalizing a more with
  | zero => cases h
  | succ fuel ih =>
      obtain ⟨more, rfl⟩ := Nat.exists_eq_succ_of_ne_zero (Nat.ne_zero_of_lt hle)
      rw [follow] at h ⊢
      cases hnext : next a with
      | none =>
          rw [hnext] at h
          exact h
      | some c =>
          rw [hnext] at h
          exact ih h (Nat.le_of_succ_le_succ hle)

theorem EndsWithin.fuel_unique {fuel fuel' : Nat} (h : EndsWithin next fuel a b)
    (h' : EndsWithin next fuel' a c) : fuel = fuel' := by
  rcases Nat.lt_trichotomy fuel fuel' with hlt | heq | hlt
  · have hnone := h'.2 fuel hlt
    rw [h.1] at hnone
    cases hnone
  · exact heq
  · have hnone := h.2 fuel' hlt
    rw [h'.1] at hnone
    cases hnone

theorem EndsWithin.tail {fuel : Nat} {d : α} (h : EndsWithin next (fuel + 1) a b)
    (hnext : next a = some d) : EndsWithin next fuel d b := by
  obtain ⟨hfollow, hleast⟩ := h
  rw [follow, hnext] at hfollow
  refine ⟨hfollow, fun less hless => ?_⟩
  have hnone := hleast (less + 1) (Nat.succ_lt_succ hless)
  rw [follow, hnext] at hnone
  exact hnone

/-- The elements that are passed are as many as the rounds: each takes one round less than the
one before it. -/
theorem EndsWithin.exists_nodup {fuel : Nat} (h : EndsWithin next fuel a b) :
    ∃ passed : List α, passed.Nodup ∧ passed.length = fuel ∧
      ∀ c ∈ passed, ∃ rounds ≤ fuel, EndsWithin next rounds c b := by
  induction fuel generalizing a with
  | zero => exact ⟨[], List.nodup_nil, rfl, by simp⟩
  | succ fuel ih =>
      cases hnext : next a with
      | none =>
          have hone : EndsWithin next 1 a b := by
            refine ⟨?_, fun less hless => ?_⟩
            · have hfollow := h.1
              rw [follow, hnext] at hfollow
              rw [follow, hnext]
              exact hfollow
            · obtain rfl : less = 0 := by omega
              rfl
          obtain rfl : fuel = 0 := by
            have := h.fuel_unique hone
            omega
          exact ⟨[a], List.nodup_singleton a, rfl, by simpa using ⟨1, Nat.le_refl 1, hone⟩⟩
      | some d =>
          obtain ⟨passed, hnodup, hlength, hrounds⟩ := ih (h.tail hnext)
          refine ⟨a :: passed, ?_, by rw [List.length_cons, hlength], ?_⟩
          · apply List.nodup_cons.mpr
            refine ⟨fun hmem => ?_, hnodup⟩
            obtain ⟨rounds, hle, hrounds⟩ := hrounds a hmem
            have := h.fuel_unique hrounds
            omega
          · rw [List.forall_mem_cons]
            refine ⟨⟨fuel + 1, Nat.le_refl _, h⟩, fun c hc => ?_⟩
            obtain ⟨rounds, hle, hrounds⟩ := hrounds c hc
            exact ⟨rounds, Nat.le_succ_of_le hle, hrounds⟩

/-- References that end are followed to their end within as many rounds as there are elements. -/
theorem endsIn_iff_follow {size : Nat} {code : α → Fin size} (hcode : Function.Injective code) :
    EndsIn next a b ↔ follow next size a = some b := by
  constructor
  · intro h
    obtain ⟨fuel, hfuel⟩ := endsIn_iff_exists_follow.mp h
    have hleast : ∃ fuel, EndsWithin next fuel a b := by
      induction fuel using Nat.strong_induction_on with
      | _ fuel ih =>
          by_cases hless : ∃ less < fuel, follow next less a = some b
          · obtain ⟨less, hlt, hless⟩ := hless
            exact ih less hlt hless
          · refine ⟨fuel, hfuel, fun less hlt => ?_⟩
            cases hfollow : follow next less a with
            | none => rfl
            | some c =>
                have hmore := follow_of_le hfollow (Nat.le_of_lt hlt)
                rw [hfuel] at hmore
                exact absurd ⟨less, hlt, hfollow.trans hmore.symm⟩ hless
    obtain ⟨fuel, hends⟩ := hleast
    obtain ⟨passed, hnodup, hlength, -⟩ := hends.exists_nodup
    apply follow_of_le hends.1
    rw [← hlength, ← List.length_map code]
    exact (hnodup.map hcode).length_le_card.trans_eq (Fintype.card_fin size)
  · exact fun h => endsIn_iff_exists_follow.mpr ⟨size, h⟩

/-- A recursion that goes on along references returns within as many rounds as there are elements,
or never. -/
theorem exists_fuel_iff {State Result : Type*} {f : Nat → State → Option Result} (place : State → α)
    (hzero : ∀ s, f 0 s = none)
    (hstop : ∀ s, next (place s) = none → ∀ k k', f (k + 1) s = f (k' + 1) s)
    (hgo : ∀ s c, next (place s) = some c → ∃ t g, place t = c ∧ ∀ k, f (k + 1) s = (f k t).bind g)
    {size : Nat} {code : α → Fin size} (hcode : Function.Injective code) {s : State}
    {result : Result} :
    (∃ fuel, f fuel s = some result) ↔ f size s = some result := by
  constructor
  · rintro ⟨fuel, hfuel⟩
    have hends : ∃ last, EndsIn next (place s) last := by
      induction fuel generalizing s result with
      | zero =>
          rw [hzero] at hfuel
          cases hfuel
      | succ fuel ih =>
          cases hnext : next (place s) with
          | none => exact ⟨place s, (endsIn_iff_of_none hnext).mpr rfl⟩
          | some c =>
              obtain ⟨t, g, rfl, hstep⟩ := hgo s c hnext
              rw [hstep] at hfuel
              obtain ⟨between, hbetween, -⟩ := Option.bind_eq_some_iff.mp hfuel
              obtain ⟨last, hlast⟩ := ih hbetween
              exact ⟨last, (endsIn_iff_of_some hnext).mpr hlast⟩
    obtain ⟨last, hlast⟩ := hends
    rw [endsIn_iff_follow hcode] at hlast
    clear hcode code
    induction size generalizing s fuel result with
    | zero => cases hlast
    | succ size ih =>
        obtain ⟨fuel, rfl⟩ : ∃ less, fuel = less + 1 := by
          cases fuel with
          | zero =>
              rw [hzero] at hfuel
              cases hfuel
          | succ less => exact ⟨less, rfl⟩
        cases hnext : next (place s) with
        | none => exact (hstop s hnext size fuel).trans hfuel
        | some c =>
            obtain ⟨t, g, rfl, hstep⟩ := hgo s c hnext
            rw [follow, hnext] at hlast
            rw [hstep] at hfuel ⊢
            obtain ⟨between, hbetween, hresult⟩ := Option.bind_eq_some_iff.mp hfuel
            rw [ih fuel hbetween hlast, Option.bind_some, hresult]
  · exact fun h => ⟨size, h⟩

end Bounded

end SignalFxTracing.Lib.Follow
