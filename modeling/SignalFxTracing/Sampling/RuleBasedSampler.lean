import SignalFxTracing.Lib.PriorityList
import SignalFxTracing.Trace.Span

/-!
# Sampling by rules (`RuleBasedSampler.cs`, `DefaultSamplingRule.cs`)

The rules and the limiter are objects behind interfaces; what they remember
between calls is a state of the world that they read and change. A rule may
raise an exception when it is asked whether it matches.

## Implementation notes

The loop of `RegisterRule` is `PriorityList.insert`. The numbers used for rates
are a parameter, which for the code is the type of floating point numbers with
the operators of the language. The rates of the rules and the limiter raise
nothing.
-/

namespace SignalFxTracing.Sampling

open Clr Lib Trace

/-- The numbers used for rates. -/
class Rate (F : Type*) where
  one : F
  /-- `x <= rate * y` for integers `x` and `y`. -/
  atMostTimes : UInt64 → F → UInt64 → Bool

instance : Rate Float32 where
  one := 1
  atMostTimes x rate y := x.toFloat32 ≤ rate * y.toFloat32

/-- The implementations of `ISamplingRule` and `IRateLimiter` in a process. -/
structure Parts (R W E F : Type*) where
  priority : R → Int
  isMatch : R → Span → W → Except E Bool × W
  getSamplingRate : R → Span → W → F × W
  allowed : Span → W → Bool × W

/-- The built-in rule, or another one. -/
inductive Rule (R : Type*)
  | default
  | other (r : R)

/-- The static fields, the rules of one sampler and what its parts remember. -/
structure RuleBasedSampler (R W F : Type*) where
  tracingWithoutLimitsEnabled : Bool
  /-- `_sampleRates` of the default rule. -/
  sampleRates : Text → Option F
  rules : List (Rule R)
  world : W

section Rules

variable {R W E F : Type*} [Rate F] (parts : Parts R W E F)

namespace Rule

omit [Rate F] in
/-- The default rule has the lowest priority, `int.MinValue`. -/
def priority : Rule R → Int
  | default => -2 ^ 31
  | other r => parts.priority r

def isMatch : Rule R → Span → W → Except E Bool × W
  | default, _, world => (.ok true, world)
  | other r, span, world => parts.isMatch r span world

/-- The rate of the default rule is that of the span's service and environment, or 1. -/
def getSamplingRate (sampleRates : Text → Option F) : Rule R → Span → W → F × W
  | default, span, world =>
      let env := (span.getTag Tags.environment).getD []
      let service := span.context.serviceName.getD []
      let key := text "service:" ++ service ++ text ",env:" ++ env
      ((sampleRates key).getD Rate.one, world)
  | other r, span, world => parts.getSamplingRate r span world

end Rule

def knuthFactor : UInt64 := 1111111111111111111

/-- `TracerConstants.MaxTraceId`. -/
def maxTraceId : UInt64 := 0xFFFFFFFFFFFFFFFF

/-- A rate keeps the trace. -/
def sample (traceId : TraceId) (rate : F) : Bool :=
  Rate.atMostTimes (traceId.lower * knuthFactor % maxTraceId) rate maxTraceId

/-- The loop of `GetSamplingPriority`: the first rule that matches. -/
def firstMatch (span : Span) : List (Rule R) → W → Except E (Option (Rule R)) × W
  | [], world => (.ok none, world)
  | rule :: rules, world =>
      match rule.isMatch parts span world with
      | (.error e, world) => (.error e, world)
      | (.ok true, world) => (.ok (some rule), world)
      | (.ok false, world) => firstMatch span rules world

namespace RuleBasedSampler

/-- `RegisterRule`. -/
def registerRule (rule : Rule R) (s : RuleBasedSampler R W F) : RuleBasedSampler R W F :=
  { s with
    tracingWithoutLimitsEnabled := true
    rules := PriorityList.insert (Rule.priority parts) rule s.rules }

/-- The constructor registers the default rule. -/
def create (tracingWithoutLimitsEnabled : Bool) (sampleRates : Text → Option F)
    (world : W) : RuleBasedSampler R W F :=
  registerRule parts .default ⟨tracingWithoutLimitsEnabled, sampleRates, [], world⟩

/-- `GetSamplingPriority` with a rate. -/
def priorityOfRate (span : Span) (rate : F) (s : RuleBasedSampler R W F) :
    SamplingPriority × RuleBasedSampler R W F :=
  if sample span.context.traceId rate then
    if s.tracingWithoutLimitsEnabled then
      let (allowed, world) := parts.allowed span s.world
      (if allowed then .autoKeep else .autoReject, { s with world := world })
    else (.autoKeep, s)
  else (.autoReject, s)

/-- `GetSamplingPriority`. -/
def getSamplingPriority (span : Span) (s : RuleBasedSampler R W F) :
    Except E SamplingPriority × RuleBasedSampler R W F :=
  match firstMatch parts span s.rules s.world with
  | (.error e, world) => (.error e, { s with world := world })
  | (.ok none, world) => (.ok .autoKeep, { s with world := world })
  | (.ok (some rule), world) =>
      let (rate, world) := rule.getSamplingRate parts s.sampleRates span world
      let (priority, s) := priorityOfRate parts span rate { s with world := world }
      (.ok priority, s)

/-- What happens to a sampler after its construction. -/
inductive Op (R W F : Type*)
  | registerRule (r : R)
  | getSamplingPriority (span : Span)
  /-- `SetDefaultSampleRates`, with the dictionary that it builds. -/
  | setDefaultSampleRates (sampleRates : Text → Option F)
  /-- `OptInTracingWithoutLimits`, also by another sampler. -/
  | optInTracingWithoutLimits
  /-- The rules and the limiter change otherwise. -/
  | elsewhere (world : W)

def perform (s : RuleBasedSampler R W F) : Op R W F → RuleBasedSampler R W F
  | .registerRule r => registerRule parts (.other r) s
  | .getSamplingPriority span => (getSamplingPriority parts span s).2
  | .setDefaultSampleRates sampleRates => { s with sampleRates := sampleRates }
  | .optInTracingWithoutLimits => { s with tracingWithoutLimitsEnabled := true }
  | .elsewhere world => { s with world := world }

/-- The rules that are registered, the default rule first. -/
def registered (ops : List (Op R W F)) : List (Rule R) :=
  .default :: ops.filterMap fun
    | .registerRule r => some (.other r)
    | _ => none

/-- The rules of a run are the registered ones, and their limiter is asked. -/
structure Inv (registered : List (Rule R)) (s : RuleBasedSampler R W F) : Prop where
  orders : PriorityList.Orders (Rule.priority parts) registered s.rules
  enabled : s.tracingWithoutLimitsEnabled = true

omit [Rate F] in
theorem inv_create (enabled : Bool) (sampleRates : Text → Option F) (world : W) :
    Inv parts [.default] (create parts enabled sampleRates world) where
  orders := PriorityList.Orders.nil.insert Rule.default
  enabled := rfl

theorem priorityOfRate_keeps (span : Span) (rate : F) (s : RuleBasedSampler R W F) :
    (priorityOfRate parts span rate s).2.rules = s.rules ∧
      (priorityOfRate parts span rate s).2.tracingWithoutLimitsEnabled =
        s.tracingWithoutLimitsEnabled := by
  rw [priorityOfRate]
  split_ifs
  all_goals exact ⟨rfl, rfl⟩

/-- Sampling changes the world only. -/
theorem getSamplingPriority_keeps (span : Span) (s : RuleBasedSampler R W F) :
    (getSamplingPriority parts span s).2.rules = s.rules ∧
      (getSamplingPriority parts span s).2.tracingWithoutLimitsEnabled =
        s.tracingWithoutLimitsEnabled := by
  rw [getSamplingPriority]
  rcases firstMatch parts span s.rules s.world with ⟨outcome, world⟩
  cases outcome with
  | error e => exact ⟨rfl, rfl⟩
  | ok rule =>
      cases rule with
      | none => exact ⟨rfl, rfl⟩
      | some rule => exact priorityOfRate_keeps parts span _ _

/-- An operation keeps the invariant, with the rule that it registers. -/
theorem Inv.perform {before : List (Rule R)} {s : RuleBasedSampler R W F}
    (h : Inv parts before s) (op : Op R W F) :
    Inv parts (before ++ (registered [op]).tail) (perform parts s op) := by
  cases op with
  | registerRule r =>
      constructor
      · exact h.orders.insert (Rule.other r)
      · rfl
  | getSamplingPriority span =>
      have hkeeps := getSamplingPriority_keeps parts span s
      constructor
      · rw [RuleBasedSampler.perform, hkeeps.1]
        simpa [registered] using h.orders
      · exact hkeeps.2.trans h.enabled
  | setDefaultSampleRates sampleRates =>
      constructor
      · simpa [registered, RuleBasedSampler.perform] using h.orders
      · exact h.enabled
  | optInTracingWithoutLimits =>
      constructor
      · simpa [registered, RuleBasedSampler.perform] using h.orders
      · rfl
  | elsewhere world =>
      constructor
      · simpa [registered, RuleBasedSampler.perform] using h.orders
      · exact h.enabled

/-- Operations keep the invariant, with the rules that they register. -/
theorem Inv.foldl {before : List (Rule R)} {s : RuleBasedSampler R W F} (h : Inv parts before s)
    (ops : List (Op R W F)) :
    Inv parts (before ++ (registered ops).tail) (ops.foldl (RuleBasedSampler.perform parts) s) := by
  induction ops generalizing before s with
  | nil => simpa [registered] using h
  | cons op ops ih =>
      have htail : (registered (op :: ops)).tail =
          (registered [op]).tail ++ (registered ops).tail := by
        simp only [registered, List.tail_cons, ← List.filterMap_append, List.singleton_append]
      rw [htail, ← List.append_assoc]
      exact ih (h.perform parts op)

theorem inv_run (enabled : Bool) (sampleRates : Text → Option F) (world : W)
    (ops : List (Op R W F)) :
    Inv parts (registered ops)
      (ops.foldl (RuleBasedSampler.perform parts) (create parts enabled sampleRates world)) :=
  (inv_create parts enabled sampleRates world).foldl parts ops

end RuleBasedSampler

section Selection

variable (span : Span)

/-- None of the rules matches, asked one after another. -/
def PassedOver : List (Rule R) → W → W → Prop
  | [], before, after => before = after
  | rule :: rules, before, after =>
      (rule.isMatch parts span before).1 = .ok false ∧
        PassedOver rules (rule.isMatch parts span before).2 after

/-- The rules, asked one after another until one matches, raise nothing. -/
def NoneRaises : List (Rule R) → W → Prop
  | [], _ => True
  | rule :: rules, world =>
      match rule.isMatch parts span world with
      | (.error _, _) => False
      | (.ok true, _) => True
      | (.ok false, world) => NoneRaises rules world

omit [Rate F] in
theorem noneRaises_iff {rules : List (Rule R)} {world : W} :
    NoneRaises parts span rules world ↔
      ∃ rule, (firstMatch parts span rules world).1 = .ok rule := by
  induction rules generalizing world with
  | nil => exact iff_of_true trivial ⟨none, rfl⟩
  | cons r rules ih =>
      rw [NoneRaises, firstMatch]
      rcases r.isMatch parts span world with ⟨outcome, world'⟩
      cases outcome with
      | error e => simp
      | ok found =>
          cases found with
          | false => exact ih
          | true => simp

omit [Rate F] in
theorem firstMatch_eq_some {rules : List (Rule R)} {world world' : W} {rule : Rule R}
    (h : firstMatch parts span rules world = (.ok (some rule), world')) :
    ∃ before after middle, rules = before ++ rule :: after ∧
      PassedOver parts span before world middle ∧
        rule.isMatch parts span middle = (.ok true, world') := by
  induction rules generalizing world with
  | nil => cases h
  | cons r rules ih =>
      rw [firstMatch] at h
      rcases hfound : r.isMatch parts span world with ⟨outcome, world''⟩
      rw [hfound] at h
      cases outcome with
      | error e => cases h
      | ok found =>
          cases found with
          | true =>
              obtain ⟨hr, rfl⟩ := Prod.mk.inj h
              obtain rfl := Option.some.inj (Except.ok.inj hr)
              exact ⟨[], rules, world, rfl, rfl, hfound⟩
          | false =>
              obtain ⟨before, after, middle, rfl, hpassed, hmatch⟩ := ih h
              refine ⟨r :: before, after, middle, rfl, ?_, hmatch⟩
              rw [PassedOver, hfound]
              exact ⟨rfl, hpassed⟩

omit [Rate F] in
/-- The default rule matches every span. -/
theorem firstMatch_ne_none {rules : List (Rule R)} (h : Rule.default ∈ rules) (world : W) :
    (firstMatch parts span rules world).1 ≠ .ok none := by
  induction rules generalizing world with
  | nil => cases h
  | cons r rules ih =>
      rw [firstMatch]
      rcases hfound : r.isMatch parts span world with ⟨outcome, world'⟩
      cases outcome with
      | error e => simp
      | ok found =>
          cases found with
          | true => simp
          | false =>
              rcases List.mem_cons.mp h with rfl | h
              · rw [Rule.isMatch] at hfound
                cases hfound
              · exact ih h world'

/-- The priority is that of the rate of the first rule that matches, which is the default rule
only when no rule of higher priority does; the limiter is asked exactly when the rate keeps the
trace. -/
def Decides (s : RuleBasedSampler R W F) : Prop :=
  ∃ before rule after middle world,
    s.rules = before ++ rule :: after ∧
      PassedOver parts span before s.world middle ∧
      rule.isMatch parts span middle = (.ok true, world) ∧
      (rule = .default → ∀ r ∈ s.rules, Rule.priority parts .default < r.priority parts →
        r ∈ before) ∧
      s.getSamplingPriority parts span =
        let (rate, world) := rule.getSamplingRate parts s.sampleRates span world
        if sample span.context.traceId rate then
          (.ok (if (parts.allowed span world).1 then .autoKeep else .autoReject),
            { s with world := (parts.allowed span world).2 })
        else (.ok .autoReject, { s with world := world })

theorem decides_of_inv {registered : List (Rule R)} {s : RuleBasedSampler R W F}
    (h : s.Inv parts registered) (hdefault : Rule.default ∈ registered)
    (hraises : NoneRaises parts span s.rules s.world) : Decides parts span s := by
  have hmem : Rule.default ∈ s.rules := h.orders.perm.mem_iff.mpr hdefault
  obtain ⟨found, hfound⟩ := (noneRaises_iff parts span).mp hraises
  cases found with
  | none => exact absurd hfound (firstMatch_ne_none parts span hmem s.world)
  | some rule =>
      have hfirst : firstMatch parts span s.rules s.world =
          (.ok (some rule), (firstMatch parts span s.rules s.world).2) := Prod.ext hfound rfl
      obtain ⟨before, after, middle, hrules, hpassed, hmatch⟩ :=
        firstMatch_eq_some parts span hfirst
      refine ⟨before, rule, after, middle, _, hrules, hpassed, hmatch, ?_, ?_⟩
      · rintro rfl r hr hlt
        have hsorted := h.orders.sorted
        rw [hrules] at hr hsorted
        exact hsorted.mem_before hr hlt
      · rw [RuleBasedSampler.getSamplingPriority, hfirst]
        dsimp only
        rw [RuleBasedSampler.priorityOfRate]
        simp only [h.enabled, if_true]
        split_ifs
        · rfl
        · rfl
        · rfl

/-- A rule that raises ends the sampling without a priority. -/
theorem noneRaises_of_decides {s : RuleBasedSampler R W F} (h : Decides parts span s) :
    NoneRaises parts span s.rules s.world := by
  obtain ⟨before, rule, after, middle, world, -, -, -, -, hpriority⟩ := h
  apply (noneRaises_iff parts span).mpr
  cases hfirst : (firstMatch parts span s.rules s.world).1 with
  | ok found => exact ⟨found, rfl⟩
  | error e =>
      have hraised : firstMatch parts span s.rules s.world =
          (.error e, (firstMatch parts span s.rules s.world).2) := Prod.ext hfirst rfl
      rw [RuleBasedSampler.getSamplingPriority, hraised] at hpriority
      dsimp only at hpriority
      split_ifs at hpriority
      · cases congrArg Prod.fst hpriority
      · cases congrArg Prod.fst hpriority
      · cases congrArg Prod.fst hpriority

/-- In every run the rules are the registered ones by falling priority, those of one priority in
the order of registration, and a span is decided by the first that matches exactly when no rule
raises that is asked before. -/
theorem ruleBasedSampler_run (enabled : Bool) (sampleRates : Text → Option F) (world : W)
    (ops : List (RuleBasedSampler.Op R W F)) :
    let s := ops.foldl (RuleBasedSampler.perform parts)
      (RuleBasedSampler.create parts enabled sampleRates world)
    PriorityList.Orders (Rule.priority parts) (RuleBasedSampler.registered ops) s.rules ∧
      ∀ span, Decides parts span s ↔ NoneRaises parts span s.rules s.world := by
  intro s
  have h := RuleBasedSampler.inv_run parts enabled sampleRates world ops
  refine ⟨h.orders, fun span => ?_⟩
  constructor
  · exact noneRaises_of_decides parts span
  · exact decides_of_inv parts span h List.mem_cons_self

end Selection

end Rules

end SignalFxTracing.Sampling
