import SignalFxTracing.Sampling.CustomSamplingRule
import SignalFxTracing.Sampling.RuleBasedSampler

/-!
# The rules of a configuration (`CustomSamplingRule.cs`, `GlobalSamplingRule.cs`)

The rules that are registered beside the built-in one: the global rate, and
rules with patterns. A rule with patterns raises an exception for a pattern
that is not accepted and for a name that is null.

## Implementation notes

Which matches run out of time is part of the world. The priority of a rule with
patterns does not change after its construction.
-/

namespace SignalFxTracing.Sampling

open Clr Lib Trace

namespace CustomSamplingRule

variable {engine : PatternEngine}

/-- There is a pattern, and it is not accepted or the name is null. -/
def Raises (engine : PatternEngine) (name pattern : Option Text) : Prop :=
  ∃ p, pattern = some p ∧ (engine.alternatives p = none ∨ name = none)

/-- There is no pattern, or it is found in the name, or the match runs out of time. -/
def letsThrough (engine : PatternEngine) (name pattern : Option Text) (timesOut : Bool) : Bool :=
  match pattern with
  | none => true
  | some p =>
      match engine.alternatives p, name with
      | some as, some name => timesOut || finds as name
      | _, _ => false

/-- The patterns are what they were. -/
def SamePatterns (rule rule' : CustomSamplingRule) : Prop :=
  rule'.serviceNameRegex = rule.serviceNameRegex ∧
    rule'.operationNameRegex = rule.operationNameRegex

instance : Std.Refl SamePatterns := ⟨fun _ => ⟨rfl, rfl⟩⟩

instance : IsTrans CustomSamplingRule SamePatterns :=
  ⟨fun _ _ _ h h' => ⟨h'.1.trans h.1, h'.2.trans h.2⟩⟩

theorem doesNotMatch_outcome (name pattern : Option Text) (timesOut : Bool)
    (rule : CustomSamplingRule) :
    (Raises engine name pattern ∧
        ∃ e, ((doesNotMatch engine name pattern timesOut).run rule).1 = .error e) ∨
      ¬Raises engine name pattern ∧
        ((doesNotMatch engine name pattern timesOut).run rule).1 =
          .ok !letsThrough engine name pattern timesOut := by
  cases pattern with
  | none =>
      right
      constructor
      · rintro ⟨p, hp, -⟩
        cases hp
      · rfl
  | some p =>
      cases halternatives : engine.alternatives p with
      | none =>
          left
          refine ⟨⟨p, rfl, Or.inl halternatives⟩, .argument, ?_⟩
          simp [doesNotMatch, Guarded.run_tryCatch, Guarded.run_bind, PatternEngine.isMatch,
            halternatives]
      | some as =>
          cases name with
          | none =>
              left
              refine ⟨⟨p, rfl, Or.inr rfl⟩, .argumentNull, ?_⟩
              simp [doesNotMatch, Guarded.run_tryCatch, Guarded.run_bind, PatternEngine.isMatch,
                halternatives]
          | some name =>
              right
              constructor
              · rintro ⟨q, hq, hraises⟩
                obtain rfl := Option.some.inj hq
                rcases hraises with hnone | hnone
                · rw [halternatives] at hnone
                  cases hnone
                · cases hnone
              · cases timesOut with
                | false => simp [doesNotMatch, Guarded.run_tryCatch, Guarded.run_bind,
                    PatternEngine.isMatch, halternatives, letsThrough]
                | true => simp [doesNotMatch, Guarded.run_tryCatch, Guarded.run_bind,
                    PatternEngine.isMatch, halternatives, letsThrough]

theorem doesNotMatch_samePatterns (name pattern : Option Text) (timesOut : Bool)
    (rule : CustomSamplingRule) :
    SamePatterns rule ((doesNotMatch engine name pattern timesOut).run rule).2 := by
  cases pattern with
  | none => exact ⟨rfl, rfl⟩
  | some p =>
      rw [doesNotMatch, Guarded.run_tryCatch, Guarded.run_bind, Guarded.run_lift]
      cases engine.isMatch name p timesOut with
      | ok found => exact ⟨rfl, rfl⟩
      | error e =>
          cases e with
          | argument => exact ⟨rfl, rfl⟩
          | argumentNull => exact ⟨rfl, rfl⟩
          | regexMatchTimeout => exact ⟨rfl, rfl⟩

/-- A rule raises exactly when it is not poisoned and a name that it comes to cannot be matched with
its pattern. -/
theorem isMatch_raises_iff (rule : CustomSamplingRule) (call : Call) :
    (∃ e, ((isMatch engine call).run rule).1 = .error e) ↔
      rule.hasPoisonedRegex = false ∧
        (Raises engine call.span.context.serviceName rule.serviceNameRegex ∨
          letsThrough engine call.span.context.serviceName rule.serviceNameRegex
              call.serviceTimesOut = true ∧
            Raises engine call.span.operationName rule.operationNameRegex) := by
  rw [isMatch, Guarded.run_get_bind]
  cases hpoisoned : rule.hasPoisonedRegex with
  | true => simp
  | false =>
      rw [if_neg Bool.false_ne_true]
      rcases @doesNotMatch_outcome engine call.span.context.serviceName rule.serviceNameRegex
        call.serviceTimesOut rule with ⟨hraises, e, he⟩ | ⟨hraises, hservice⟩
      · rw [Guarded.run_bind_of_error he]
        exact iff_of_true ⟨e, rfl⟩ ⟨rfl, Or.inl hraises⟩
      · rw [Guarded.run_bind_of_ok hservice]
        cases letsThrough engine call.span.context.serviceName rule.serviceNameRegex
            call.serviceTimesOut with
        | false => simp [hraises]
        | true =>
            rw [Bool.not_true, if_neg Bool.false_ne_true]
            rcases @doesNotMatch_outcome engine call.span.operationName rule.operationNameRegex
              call.operationTimesOut _ with ⟨hraises', e, he⟩ | ⟨hraises', hoperation⟩
            · rw [Guarded.run_bind_of_error he]
              exact iff_of_true ⟨e, rfl⟩ ⟨rfl, Or.inr ⟨rfl, hraises'⟩⟩
            · rw [Guarded.run_bind_of_ok hoperation]
              cases letsThrough engine call.span.operationName rule.operationNameRegex
                  call.operationTimesOut with
              | false => simp [hraises, hraises']
              | true => simp [hraises, hraises']

theorem isMatch_samePatterns (call : Call) : Guarded.Within SamePatterns (isMatch engine call) := by
  have hstep : ∀ name pattern timesOut, Guarded.Within SamePatterns
      (doesNotMatch engine name pattern timesOut) :=
    fun name pattern timesOut rule => doesNotMatch_samePatterns name pattern timesOut rule
  refine Guarded.within_bind Guarded.within_get fun rule => ?_
  split_ifs
  · exact Guarded.within_pure false
  · refine Guarded.within_bind (hstep _ _ _) fun serviceDiffers => ?_
    split_ifs
    · exact Guarded.within_pure false
    · refine Guarded.within_bind (hstep _ _ _) fun operationDiffers => ?_
      split_ifs
      · exact Guarded.within_pure false
      · exact Guarded.within_pure true

/-- The engine accepts the patterns of the rule. -/
def IsAccepted (engine : PatternEngine) (rule : CustomSamplingRule) : Prop :=
  (∀ p, rule.serviceNameRegex = some p → engine.alternatives p ≠ none) ∧
    ∀ p, rule.operationNameRegex = some p → engine.alternatives p ≠ none

theorem IsAccepted.of_samePatterns {rule rule' : CustomSamplingRule} (h : rule.IsAccepted engine)
    (hsame : SamePatterns rule rule') : rule'.IsAccepted engine := by
  rw [IsAccepted, hsame.1, hsame.2]
  exact h

/-- An accepted rule raises nothing for a span with both names. -/
theorem IsAccepted.returns {rule : CustomSamplingRule} (h : rule.IsAccepted engine) {call : Call}
    (hservice : call.span.context.serviceName ≠ none) (hoperation : call.span.operationName ≠ none) :
    ∃ found, ((isMatch engine call).run rule).1 = .ok found := by
  cases houtcome : ((isMatch engine call).run rule).1 with
  | ok found => exact ⟨found, rfl⟩
  | error e =>
      obtain ⟨-, ⟨p, hp, hraises⟩ | ⟨-, p, hp, hraises⟩⟩ :=
        (isMatch_raises_iff rule call).mp ⟨e, houtcome⟩
      · exact absurd hraises (not_or.mpr ⟨h.1 p hp, hservice⟩)
      · exact absurd hraises (not_or.mpr ⟨h.2 p hp, hoperation⟩)

end CustomSamplingRule

/-- A rule of a configuration; one with patterns is an object of the world. -/
inductive ConfiguredRule
  | globalRate (rate : Float32)
  | custom (reference : Nat) (priority : Int)

/-- The rules with patterns, the matches that run out of time when they are asked, and the
limiter. -/
structure RuleWorld (L : Type*) where
  rules : Nat → CustomSamplingRule
  serviceTimesOut : Nat → Bool
  operationTimesOut : Nat → Bool
  limiter : L

namespace RuleWorld

variable {L : Type*} (engine : PatternEngine) (reference : Nat) (span : Span) (world : RuleWorld L)

/-- The call of a rule for a span. -/
def call : CustomSamplingRule.Call where
  span
  serviceTimesOut := world.serviceTimesOut reference
  operationTimesOut := world.operationTimesOut reference

/-- A rule with patterns is asked. -/
def isMatch : Except MatchException Bool × RuleWorld L :=
  let (outcome, rule) :=
    (CustomSamplingRule.isMatch engine (world.call reference span)).run (world.rules reference)
  (outcome, { world with rules := Function.update world.rules reference rule })

/-- The engine accepts the patterns of the rules. -/
def IsAccepted : Prop := ∀ reference, (world.rules reference).IsAccepted engine

variable {engine world}

theorem IsAccepted.isMatch (h : world.IsAccepted engine) :
    (world.isMatch engine reference span).2.IsAccepted engine := by
  intro other
  rw [RuleWorld.isMatch]
  dsimp only
  by_cases hother : other = reference
  · rw [hother, Function.update_self]
    exact (h reference).of_samePatterns (CustomSamplingRule.isMatch_samePatterns _ _)
  · rw [Function.update_of_ne hother]
    exact h other

end RuleWorld

/-- The rules of a configuration with a limiter. -/
def configuredParts {L : Type*} (engine : PatternEngine) (allowed : Span → L → Bool × L) :
    Parts ConfiguredRule (RuleWorld L) MatchException Float32 where
  priority
    | .globalRate _ => 0
    | .custom _ priority => priority
  isMatch
    | .globalRate _, _, world => (.ok true, world)
    | .custom reference _, span, world => world.isMatch engine reference span
  getSamplingRate
    | .globalRate rate, _, world => (rate, world)
    | .custom reference _, span, world => ((world.rules reference).getSamplingRate span, world)
  allowed span world :=
    let (allowed, limiter) := allowed span world.limiter
    (allowed, { world with limiter := limiter })

section Named

variable {L : Type*} {engine : PatternEngine} {allowed : Span → L → Bool × L} {span : Span}

/-- Rules with accepted patterns raise nothing for a span with both names. -/
theorem noneRaises_of_named {world : RuleWorld L} (haccepted : world.IsAccepted engine)
    (hservice : span.context.serviceName ≠ none) (hoperation : span.operationName ≠ none)
    (rules : List (Rule ConfiguredRule)) :
    NoneRaises (configuredParts engine allowed) span rules world := by
  induction rules generalizing world with
  | nil => trivial
  | cons rule rules ih =>
      cases rule with
      | default => trivial
      | other r =>
          cases r with
          | globalRate rate => trivial
          | custom reference priority =>
              obtain ⟨found, hfound⟩ := @CustomSamplingRule.IsAccepted.returns engine
                (world.rules reference) (haccepted reference) (world.call reference span) hservice
                hoperation
              have hanswer : world.isMatch engine reference span =
                  (.ok found, (world.isMatch engine reference span).2) := Prod.ext hfound rfl
              rw [NoneRaises, Rule.isMatch, configuredParts]
              dsimp only
              rw [hanswer]
              cases found with
              | true => trivial
              | false => exact ih (haccepted.isMatch reference span)

/-- Every run over rules with accepted patterns decides a span with both names by the first rule
that matches. -/
theorem decides_of_named (enabled : Bool) (sampleRates : Text → Option Float32)
    (world : RuleWorld L) (ops : List (RuleBasedSampler.Op ConfiguredRule (RuleWorld L) Float32))
    (hservice : span.context.serviceName ≠ none) (hoperation : span.operationName ≠ none)
    {s : RuleBasedSampler ConfiguredRule (RuleWorld L) Float32}
    (hs : ops.foldl (RuleBasedSampler.perform (configuredParts engine allowed))
      (RuleBasedSampler.create (configuredParts engine allowed) enabled sampleRates world) = s)
    (haccepted : s.world.IsAccepted engine) : Decides (configuredParts engine allowed) span s := by
  have h := RuleBasedSampler.inv_run (configuredParts engine allowed) enabled sampleRates world ops
  rw [hs] at h
  apply decides_of_inv (configuredParts engine allowed) span h List.mem_cons_self
  exact noneRaises_of_named haccepted hservice hoperation s.rules

end Named

section NullName

/-- A rule for the operation `a`, and a limiter that lets every trace through. -/
def literalWorld : RuleWorld Unit where
  rules _ := literal.create ordinal
  serviceTimesOut _ := false
  operationTimesOut _ := false
  limiter := ()

/-- A sampler with a rule for operations raises an exception for a span without an operation
name. -/
theorem not_decides_nullName :
    ¬∀ (ops : List (RuleBasedSampler.Op ConfiguredRule (RuleWorld Unit) Float32)) (span : Span),
      Decides (configuredParts plainEngine fun _ limiter => (true, limiter)) span
        (ops.foldl (RuleBasedSampler.perform
            (configuredParts plainEngine fun _ limiter => (true, limiter)))
          (RuleBasedSampler.create (configuredParts plainEngine fun _ limiter => (true, limiter))
            false (fun _ => none) literalWorld)) := by
  intro h
  exact noneRaises_of_decides _ _
    (h [.registerRule (.custom 0 1)] (namedCall (some (text "a")) none).span)

end NullName

end SignalFxTracing.Sampling
