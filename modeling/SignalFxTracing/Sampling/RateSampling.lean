import Mathlib.Data.Rat.Cast.Order
import Mathlib.Tactic.Linarith
import SignalFxTracing.Sampling.RuleBasedSampler

/-!
# Sampling by a rate (`RuleBasedSampler.cs`)

The comparison of `GetSamplingPriority` over exact rationals. The product with
the constant is taken modulo `2^64` and then modulo `2^64 - 1`, so that two
products are reduced to zero, and the comparison is not strict.
-/

namespace SignalFxTracing.Sampling

open Clr Trace

/-- What the identifier is reduced to before it is compared. -/
def residue (traceId : TraceId) : UInt64 := traceId.lower * knuthFactor % maxTraceId

instance : Rate ℚ where
  one := 1
  atMostTimes x rate y := (x.toNat : ℚ) ≤ rate * y.toNat

/-- The comparison with a rate, over exact rationals. -/
def sampleExactly (traceId : TraceId) (rate : ℚ) : Bool :=
  ((residue traceId).toNat : ℚ) ≤ rate * maxTraceId.toNat

theorem sample_eq_sampleExactly (traceId : TraceId) (rate : ℚ) :
    sample traceId rate = sampleExactly traceId rate := rfl

/-- A sampler whose limiter lets every trace through, or is not asked. -/
structure UnlimitedSampler where
  {R W E : Type}
  parts : Parts R W E ℚ
  sampler : RuleBasedSampler R W ℚ
  unlimited : sampler.tracingWithoutLimitsEnabled = true →
    ∀ span, (parts.allowed span sampler.world).1 = true

/-- The decision of a service about a span of its own. -/
def UnlimitedSampler.priorityOfRate (service : UnlimitedSampler) (span : Span) (rate : ℚ) :
    SamplingPriority :=
  (RuleBasedSampler.priorityOfRate service.parts span rate service.sampler).1

section Comparison

variable {traceId : TraceId} {rate rate' : ℚ}

theorem sampleExactly_iff :
    sampleExactly traceId rate = true ↔
      ((residue traceId).toNat : ℚ) ≤ rate * maxTraceId.toNat := by
  rw [sampleExactly, decide_eq_true_iff]

/-- A trace that one rate keeps is kept by every higher one. -/
theorem sampleExactly_mono (h : rate ≤ rate') (hsampled : sampleExactly traceId rate = true) :
    sampleExactly traceId rate' = true := by
  rw [sampleExactly_iff] at hsampled ⊢
  calc
    ((residue traceId).toNat : ℚ) ≤ rate * maxTraceId.toNat := hsampled
    _ ≤ rate' * maxTraceId.toNat := mul_le_mul_of_nonneg_right h (Nat.cast_nonneg _)

/-- The rate 1 keeps every trace. -/
theorem sampleExactly_one (traceId : TraceId) : sampleExactly traceId 1 = true := by
  have hlt : (residue traceId).toNat < maxTraceId.toNat := by
    rw [residue, UInt64.toNat_mod]
    exact Nat.mod_lt _ (by decide)
  rw [sampleExactly_iff, one_mul]
  exact Nat.cast_le.mpr hlt.le

/-- The rate 0 keeps exactly the traces that are reduced to zero. -/
theorem sampleExactly_zero_iff : sampleExactly traceId 0 = true ↔ residue traceId = 0 := by
  rw [sampleExactly_iff, zero_mul, ← UInt64.toNat_inj]
  constructor
  · intro h
    exact Nat.le_zero.mp (Nat.cast_le.mp (h.trans Nat.cast_zero.ge))
  · intro h
    rw [h]
    exact le_refl _

end Comparison

section Product

/-- The inverse of `knuthFactor` modulo `2^64`. -/
def knuthInverse : UInt64 := 3396998997810348023

/-- The identifier whose product with `knuthFactor` is `2^64 - 1`. -/
def maxProductId : UInt64 := 15049745075899203593

theorem knuthFactor_mul_knuthInverse : knuthFactor * knuthInverse = 1 := by decide

theorem maxProductId_mul_knuthFactor : maxProductId * knuthFactor = maxTraceId := by decide

/-- No two identifiers have one product. -/
theorem mul_knuthFactor_inj {a b : UInt64} : a * knuthFactor = b * knuthFactor ↔ a = b := by
  constructor
  · intro h
    have hcancel : ∀ c : UInt64, c * knuthFactor * knuthInverse = c := by
      intro c
      rw [UInt64.mul_assoc, knuthFactor_mul_knuthInverse, UInt64.mul_one]
    rw [← hcancel a, h, hcancel b]
  · rintro rfl
    rfl

theorem mod_maxTraceId_eq_zero_iff {a : UInt64} : a % maxTraceId = 0 ↔ a = 0 ∨ a = maxTraceId := by
  have hlt := a.toNat_lt
  have hmax : maxTraceId.toNat = 2 ^ 64 - 1 := rfl
  simp only [← UInt64.toNat_inj, UInt64.toNat_mod, hmax]
  change a.toNat % (2 ^ 64 - 1) = 0 ↔ a.toNat = 0 ∨ a.toNat = 2 ^ 64 - 1
  omega

/-- Exactly two lower halves are reduced to zero. -/
theorem residue_eq_zero_iff {traceId : TraceId} :
    residue traceId = 0 ↔ traceId.lower = 0 ∨ traceId.lower = maxProductId := by
  have hzero : traceId.lower * knuthFactor = 0 * knuthFactor ↔ traceId.lower = 0 :=
    mul_knuthFactor_inj
  rw [UInt64.zero_mul] at hzero
  rw [residue, mod_maxTraceId_eq_zero_iff, ← maxProductId_mul_knuthFactor, mul_knuthFactor_inj,
    hzero]

end Product

/-- What is expected of sampling a trace by rates: higher rates keep more, the rate 1 keeps
it, the rate 0 does not, and every two services decide about their spans of the trace alike. -/
structure SamplesByRate (traceId : TraceId) : Prop where
  mono : ∀ rate rate', rate ≤ rate' → sampleExactly traceId rate = true →
    sampleExactly traceId rate' = true
  one : sampleExactly traceId 1 = true
  zero : sampleExactly traceId 0 = false
  agree : ∀ (service service' : UnlimitedSampler) (span span' : Span),
    span.context.traceId.equals traceId = true → span'.context.traceId.equals traceId = true →
      ∀ rate, 0 ≤ rate → rate ≤ 1 →
        service.priorityOfRate span rate = service'.priorityOfRate span' rate

/-- The decision reads nothing but the trace identifier. -/
theorem UnlimitedSampler.priorityOfRate_eq (service : UnlimitedSampler) {span : Span}
    {traceId : TraceId} (h : span.context.traceId.equals traceId = true) (rate : ℚ) :
    service.priorityOfRate span rate =
      if sampleExactly traceId rate then .autoKeep else .autoReject := by
  obtain ⟨-, hlower⟩ := TraceId.equals_iff.mp h
  have hsample : sample span.context.traceId rate = sampleExactly traceId rate := by
    rw [sample_eq_sampleExactly, sampleExactly, sampleExactly, residue, residue, hlower]
  rw [priorityOfRate, RuleBasedSampler.priorityOfRate, hsample]
  cases sampleExactly traceId rate with
  | false => rfl
  | true =>
      cases henabled : service.sampler.tracingWithoutLimitsEnabled with
      | false => rfl
      | true => simp [service.unlimited henabled span]

/-- A trace is sampled by rates as expected exactly when its lower half is none of the two
that are reduced to zero. -/
theorem samplesByRate_iff (traceId : TraceId) :
    SamplesByRate traceId ↔ traceId.lower ≠ 0 ∧ traceId.lower ≠ maxProductId := by
  rw [← not_or, ← residue_eq_zero_iff, ← sampleExactly_zero_iff, Bool.not_eq_true]
  constructor
  · intro h
    exact h.zero
  · intro hzero
    constructor
    · intro rate rate' hle hsampled
      exact sampleExactly_mono hle hsampled
    · exact sampleExactly_one traceId
    · exact hzero
    · intro service service' span span' hspan hspan' rate _ _
      rw [service.priorityOfRate_eq hspan, service'.priorityOfRate_eq hspan']

/-- The rate 0 samples the trace whose product is `2^64 - 1`, and the zero trace. -/
theorem not_samplesByRate_maxProductId :
    ¬ SamplesByRate (TraceId.ofHalves 0 maxProductId) ∧ ¬ SamplesByRate TraceId.zero := by
  have hsampled : ∀ {traceId : TraceId}, traceId.lower = 0 ∨ traceId.lower = maxProductId →
      ¬ SamplesByRate traceId := by
    intro traceId hlower h
    have hkept := sampleExactly_zero_iff.mpr (residue_eq_zero_iff.mpr hlower)
    rw [h.zero] at hkept
    cases hkept
  constructor
  · apply hsampled
    exact Or.inr rfl
  · apply hsampled
    exact Or.inl rfl

end SignalFxTracing.Sampling
