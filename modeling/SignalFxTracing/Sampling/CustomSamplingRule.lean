import SignalFxTracing.Lib.Guarded
import SignalFxTracing.Sampling.PatternEngine
import SignalFxTracing.Trace.Span

/-!
# Rules with patterns (`CustomSamplingRule.cs`)

A rule remembers that one of its matches ran out of time. Whether a match does
so is decided by the clock, apart from the pattern and the input.

## Implementation notes

`StartsWith` and `EndsWith` with a string compare as the current culture does,
which is a parameter. The text of the error message is logged only.
-/

namespace SignalFxTracing.Sampling

open Clr Lib Trace

/-- The comparisons of the current culture. -/
structure Culture where
  startsWith : Text → Text → Bool
  endsWith : Text → Text → Bool

/-- What `Regex.IsMatch` raises. -/
inductive MatchException
  | argument
  | argumentNull
  | regexMatchTimeout
  deriving DecidableEq

structure CustomSamplingRule where
  samplingRate : Float32
  ruleName : Option Text
  priority : Int
  serviceNameRegex : Option Text
  operationNameRegex : Option Text
  hasPoisonedRegex : Bool

/-- `Regex.IsMatch` with a limit of time: the pattern is parsed before the input is read. -/
def PatternEngine.isMatch (engine : PatternEngine) (input : Option Text) (pattern : Text)
    (timesOut : Bool) : Except MatchException Bool :=
  match engine.alternatives pattern with
  | none => .error .argument
  | some as =>
      match input with
      | none => .error .argumentNull
      | some input => if timesOut then .error .regexMatchTimeout else .ok (finds as input)

namespace CustomSamplingRule

/-- `WrapWithLineCharacters`. -/
def wrapWithLineCharacters (culture : Culture) (regex : Option Text) : Option Text :=
  match regex with
  | none => none
  | some regex =>
      let regex := if !culture.startsWith regex (text "^") then text "^" ++ regex else regex
      let regex := if !culture.endsWith regex (text "$") then regex ++ text "$" else regex
      some regex

/-- The constructor. -/
def create (culture : Culture) (rate : Float32) (ruleName serviceNameRegex operationNameRegex :
    Option Text) : CustomSamplingRule :=
  { samplingRate := rate
    ruleName := ruleName
    priority := 1
    serviceNameRegex := wrapWithLineCharacters culture serviceNameRegex
    operationNameRegex := wrapWithLineCharacters culture operationNameRegex
    hasPoisonedRegex := false }

def getSamplingRate (rule : CustomSamplingRule) (_ : Span) : Float32 := rule.samplingRate

/-- `DoesNotMatch`: only a timeout is caught. -/
def doesNotMatch (engine : PatternEngine) (input pattern : Option Text) (timesOut : Bool) :
    Guarded CustomSamplingRule MatchException Bool :=
  Guarded.tryCatch
    (match pattern with
      | none => pure false
      | some pattern => do
          let isMatch ← Guarded.lift (engine.isMatch input pattern timesOut)
          pure !isMatch)
    fun
      | .regexMatchTimeout => do
          Guarded.modify fun rule => { rule with hasPoisonedRegex := true }
          pure false
      | e => Guarded.throw e

/-- A call of `IsMatch`, and which of its matches run out of time. -/
structure Call where
  span : Span
  serviceTimesOut : Bool
  operationTimesOut : Bool

/-- `IsMatch`. -/
def isMatch (engine : PatternEngine) (call : Call) :
    Guarded CustomSamplingRule MatchException Bool := do
  let rule ← Guarded.get
  if rule.hasPoisonedRegex then pure false
  else
    let serviceDiffers ← doesNotMatch engine call.span.context.serviceName rule.serviceNameRegex
      call.serviceTimesOut
    if serviceDiffers then pure false
    else
      let operationDiffers ← doesNotMatch engine call.span.operationName rule.operationNameRegex
        call.operationTimesOut
      if operationDiffers then pure false else pure true

/-- The rule after calls. -/
def afterCalls (engine : PatternEngine) (rule : CustomSamplingRule) (calls : List Call) :
    CustomSamplingRule := calls.foldl (fun rule call => ((isMatch engine call).run rule).2) rule

end CustomSamplingRule

section Wrapping

variable {engine : PatternEngine} (culture : Culture)

/-- The alternatives of a pattern with `^` before it, unless it starts so. -/
def caretAlternatives (p : engine.Pattern) : List Alternative :=
  if culture.startsWith p.source (text "^") then p.alternatives
  else p.alternatives.modifyHead Alternative.atStart

/-- The text with `^` before it, unless it starts so. -/
def caretText (p : engine.Pattern) : Text :=
  if culture.startsWith p.source (text "^") then p.source else text "^" ++ p.source

/-- The alternatives of a configured pattern: the first one is bound to the start of the name
unless the pattern starts with `^`, the last one to where `$` lets it end unless the pattern
ends with `$`. -/
def anchoredAlternatives (p : engine.Pattern) : List Alternative :=
  if culture.endsWith (caretText culture p) (text "$") then caretAlternatives culture p
  else (caretAlternatives culture p).modifyLast
    (Alternative.atEnd (engine.dollar (caretText culture p)))

variable {culture}

theorem alternatives_caretText (p : engine.Pattern) :
    engine.alternatives (caretText culture p) = some (caretAlternatives culture p) := by
  by_cases hstart : culture.startsWith p.source (text "^") = true
  · rw [caretText, caretAlternatives, if_pos hstart, if_pos hstart, p.alternatives_eq]
  · rw [caretText, caretAlternatives, if_neg hstart, if_neg hstart]
    exact engine.alternatives_caret _ _ p.alternatives_eq

/-- The anchors bind the first and the last alternative. -/
theorem wrapWithLineCharacters_some (p : engine.Pattern) :
    ∃ wrapped, CustomSamplingRule.wrapWithLineCharacters culture (some p.source) = some wrapped ∧
      engine.alternatives wrapped = some (anchoredAlternatives culture p) := by
  have hcaret : (if !culture.startsWith p.source (text "^") then text "^" ++ p.source else p.source) =
      caretText culture p := by
    rw [caretText]
    cases culture.startsWith p.source (text "^") <;> rfl
  rw [CustomSamplingRule.wrapWithLineCharacters, anchoredAlternatives]
  rw [hcaret]
  by_cases hend : culture.endsWith (caretText culture p) (text "$") = true
  · refine ⟨caretText culture p, ?_, ?_⟩
    · rw [hend]
      rfl
    · rw [if_pos hend, alternatives_caretText]
  · refine ⟨caretText culture p ++ text "$", ?_, ?_⟩
    · rw [Bool.not_eq_true _ |>.mp hend]
      rfl
    · rw [if_neg hend]
      exact engine.alternatives_dollar _ _ (alternatives_caretText p)

/-- Whatever a pattern matches as a whole is found by it with its anchors. -/
theorem finds_of_matchesWhole {p : engine.Pattern} {input : Text}
    (h : p.matchesWhole input = true) : finds (anchoredAlternatives culture p) input = true := by
  apply finds_of_matchesAll
  have hcaret : matchesAll (caretAlternatives culture p) input = true := by
    rw [caretAlternatives]
    split_ifs
    · exact h
    · rw [matchesAll_modifyHead]
      exact h
  rw [anchoredAlternatives]
  split_ifs
  · exact hcaret
  · rw [matchesAll_modifyLast (engine.dollar_length _ _)]
    exact hcaret

/-- A pattern with one alternative and no anchors of its own finds exactly what it matches as a
whole, where `$` lets it end at the end of the name only. -/
theorem finds_eq_matchesWhole_of_single {p : engine.Pattern} {a : Alternative} {input : Text}
    (ha : p.alternatives = [a]) (hstart : ¬ culture.startsWith p.source (text "^") = true)
    (hend : ¬ culture.endsWith (caretText culture p) (text "$") = true)
    (hdollar : ∀ j, engine.dollar (caretText culture p) input j = true → j = input.length) :
    finds (anchoredAlternatives culture p) input = p.matchesWhole input := by
  apply Bool.eq_iff_iff.mpr
  constructor
  · intro hfinds
    obtain ⟨b, hb, hpart⟩ := List.any_eq_true.mp hfinds
    rw [anchoredAlternatives, if_neg hend, caretAlternatives, if_neg hstart, ha] at hb
    obtain rfl := List.mem_singleton.mp hb
    obtain ⟨i, -, j, -, hmatch⟩ := Alternative.findsPart_iff.mp hpart
    rw [Alternative.atEnd, Alternative.atStart, Bool.and_eq_true, Bool.and_eq_true,
      beq_iff_eq] at hmatch
    obtain ⟨⟨rfl, hmatch⟩, hplace⟩ := hmatch
    obtain rfl := hdollar j hplace
    rw [PatternEngine.Pattern.matchesWhole, ha]
    exact List.any_eq_true.mpr ⟨a, List.mem_singleton_self a, hmatch⟩
  · exact finds_of_matchesWhole

end Wrapping

/-- A name, the pattern configured for it, and whether their match runs out of time. -/
structure NameMatch (engine : PatternEngine) where
  pattern : Option engine.Pattern
  name : Option Text
  timesOut : Bool

namespace NameMatch

variable {engine : PatternEngine} (culture : Culture) (m : NameMatch engine)

/-- There is a pattern for the name, and the name is null. -/
def raises : Bool := m.pattern.isSome && m.name.isNone

/-- The match runs out of time. -/
def expires : Bool := m.pattern.isSome && m.name.isSome && m.timesOut

/-- The anchored pattern finds nothing in the name, in time. -/
def refuses : Bool :=
  !m.timesOut && m.pattern.any fun p =>
    m.name.any fun name => !finds (anchoredAlternatives culture p) name

/-- The whole name matches; an absent pattern matches everything. -/
def isWhole : Bool := m.pattern.all fun p => m.name.any p.matchesWhole

/-- The name is let through although the match ran out of time or the pattern does not match
all of it. -/
def isLoose : Bool := !m.raises && !m.refuses culture && (m.expires || !m.isWhole)

variable {culture}

theorem isWhole_of_refuses (h : m.refuses culture = true) : m.isWhole = false := by
  obtain ⟨pattern, name, timesOut⟩ := m
  rw [refuses, Bool.and_eq_true, Option.any_eq_true] at h
  obtain ⟨-, p, rfl, hname⟩ := h
  obtain ⟨name, rfl, hrefused⟩ := (Option.any_eq_true _ _).mp hname
  change p.matchesWhole name = false
  by_contra hwhole
  rw [finds_of_matchesWhole (Bool.not_eq_false _ |>.mp hwhole)] at hrefused
  cases hrefused

/-- What `DoesNotMatch` answers and what the rule remembers. -/
theorem doesNotMatch_run (rule : CustomSamplingRule) :
    (CustomSamplingRule.doesNotMatch engine m.name
      (CustomSamplingRule.wrapWithLineCharacters culture (m.pattern.map (·.source)))
      m.timesOut).run rule =
    (if m.raises then .error .argumentNull else .ok (m.refuses culture),
      { rule with hasPoisonedRegex := rule.hasPoisonedRegex || m.expires }) := by
  obtain ⟨pattern, name, timesOut⟩ := m
  cases pattern with
  | none => simp [CustomSamplingRule.doesNotMatch, CustomSamplingRule.wrapWithLineCharacters,
      raises, refuses, expires, Guarded.run_tryCatch]
  | some p =>
      obtain ⟨wrapped, hwrapped, halternatives⟩ := @wrapWithLineCharacters_some engine culture p
      rw [Option.map_some, hwrapped, CustomSamplingRule.doesNotMatch]
      cases name with
      | none => simp [Guarded.run_tryCatch, Guarded.run_bind, PatternEngine.isMatch,
          halternatives, raises, expires]
      | some name =>
          cases timesOut with
          | false => simp [Guarded.run_tryCatch, Guarded.run_bind, PatternEngine.isMatch,
              halternatives, raises, refuses, expires]
          | true => simp [Guarded.run_tryCatch, Guarded.run_bind, PatternEngine.isMatch,
              halternatives, raises, refuses, expires]

end NameMatch

/-- The patterns that a rule is configured with. -/
structure RuleConfig (engine : PatternEngine) where
  rate : Float32
  ruleName : Option Text
  service : Option engine.Pattern
  operation : Option engine.Pattern

namespace RuleConfig

variable {engine : PatternEngine} (culture : Culture) (config : RuleConfig engine)

def create : CustomSamplingRule :=
  CustomSamplingRule.create culture config.rate config.ruleName (config.service.map (·.source))
    (config.operation.map (·.source))

/-- The match of the service name in a call. -/
def serviceMatch (call : CustomSamplingRule.Call) : NameMatch engine :=
  ⟨config.service, call.span.context.serviceName, call.serviceTimesOut⟩

/-- The match of the operation name in a call, if it comes to that. -/
def operationMatch (call : CustomSamplingRule.Call) : NameMatch engine :=
  ⟨config.operation, call.span.operationName, call.operationTimesOut⟩

/-- The operation name is looked at. -/
def looksOn (call : CustomSamplingRule.Call) : Bool :=
  !(config.serviceMatch call).raises && !(config.serviceMatch call).refuses culture

/-- A match of the rule runs out of time in a call. -/
def expires (call : CustomSamplingRule.Call) : Bool :=
  (config.serviceMatch call).expires ||
    (config.looksOn culture call && (config.operationMatch call).expires)

/-- The span matches the rule: no match ran out of time so far, and both names match as a
whole. -/
def Matches (before : List CustomSamplingRule.Call) (call : CustomSamplingRule.Call) : Prop :=
  (∀ earlier ∈ before, config.expires culture earlier = false) ∧
    config.expires culture call = false ∧
    (config.serviceMatch call).isWhole = true ∧ (config.operationMatch call).isWhole = true

/-- A call before which no match ran out of time answers as it should: the name that is asked
for is not null, and when no name is refused, neither is let through loosely. -/
structure Clear (call : CustomSamplingRule.Call) : Prop where
  service : (config.serviceMatch call).raises = false
  operation : (config.serviceMatch call).refuses culture = false →
    (config.operationMatch call).raises = false
  whole : (config.serviceMatch call).refuses culture = false →
    (config.operationMatch call).refuses culture = false →
    (config.serviceMatch call).isLoose culture = false ∧
      (config.operationMatch call).isLoose culture = false

/-- Every call returns, and answers whether the span matches the rule. -/
def Answers (calls : List CustomSamplingRule.Call) : Prop :=
  ∀ before call after, calls = before ++ call :: after →
    ∃ answer,
      ((CustomSamplingRule.isMatch engine call).run
        (CustomSamplingRule.afterCalls engine (config.create culture) before)).1 = .ok answer ∧
      (answer = true ↔ config.Matches culture before call)

variable {culture}

/-- What `IsMatch` answers while no match has run out of time, and what it remembers. -/
theorem isMatch_run (call : CustomSamplingRule.Call) :
    (CustomSamplingRule.isMatch engine call).run (config.create culture) =
      (if (config.serviceMatch call).raises then .error .argumentNull
        else if (config.serviceMatch call).refuses culture then .ok false
        else if (config.operationMatch call).raises then .error .argumentNull
        else .ok (!(config.operationMatch call).refuses culture),
        { config.create culture with hasPoisonedRegex := config.expires culture call }) := by
  have hservice : ∀ rule, (CustomSamplingRule.doesNotMatch engine call.span.context.serviceName
      (config.create culture).serviceNameRegex call.serviceTimesOut).run rule = _ :=
    fun rule => (config.serviceMatch call).doesNotMatch_run rule
  have hoperation : ∀ rule, (CustomSamplingRule.doesNotMatch engine call.span.operationName
      (config.create culture).operationNameRegex call.operationTimesOut).run rule = _ :=
    fun rule => (config.operationMatch call).doesNotMatch_run rule
  have hclean : (config.create culture).hasPoisonedRegex = false := rfl
  rw [CustomSamplingRule.isMatch, Guarded.run_get_bind, hclean, if_neg Bool.false_ne_true,
    Guarded.run_bind, hservice, expires, looksOn]
  cases hraises : (config.serviceMatch call).raises with
  | true => simp [hclean]
  | false =>
      cases hrefuses : (config.serviceMatch call).refuses culture with
      | true => simp [hclean]
      | false =>
          cases hraises' : (config.operationMatch call).raises with
          | true => simp [Guarded.run_bind, hoperation, hraises', hclean]
          | false =>
              cases hrefuses' : (config.operationMatch call).refuses culture with
              | true => simp [Guarded.run_bind, hoperation, hraises', hrefuses', hclean]
              | false => simp [Guarded.run_bind, hoperation, hraises', hrefuses', hclean]

/-- A rule with a match that ran out of time answers no to every span. -/
theorem isMatch_run_of_poisoned {rule : CustomSamplingRule} (h : rule.hasPoisonedRegex = true)
    (call : CustomSamplingRule.Call) :
    (CustomSamplingRule.isMatch engine call).run rule = (.ok false, rule) := by
  rw [CustomSamplingRule.isMatch, Guarded.run_get_bind, if_pos h, Guarded.run_pure]

theorem afterCalls_of_poisoned {rule : CustomSamplingRule} (h : rule.hasPoisonedRegex = true)
    (calls : List CustomSamplingRule.Call) :
    CustomSamplingRule.afterCalls engine rule calls = rule := by
  induction calls with
  | nil => rfl
  | cons call rest ih =>
      rw [CustomSamplingRule.afterCalls, List.foldl_cons, isMatch_run_of_poisoned h]
      exact ih

/-- A rule remembers exactly whether a match ran out of time in an earlier call. -/
theorem afterCalls_create (calls : List CustomSamplingRule.Call) :
    CustomSamplingRule.afterCalls engine (config.create culture) calls =
      { config.create culture with hasPoisonedRegex := calls.any (config.expires culture) } := by
  induction calls with
  | nil => rfl
  | cons call rest ih =>
      rw [CustomSamplingRule.afterCalls, List.foldl_cons, isMatch_run, List.any_cons]
      cases hexpires : config.expires culture call with
      | true =>
          exact afterCalls_of_poisoned rfl rest
      | false =>
          rw [Bool.false_or, ← ih]
          rfl

theorem clear_iff_of_not_refused {call : CustomSamplingRule.Call}
    (hraises : (config.serviceMatch call).raises = false)
    (hrefuses : (config.serviceMatch call).refuses culture = false) :
    config.Clear culture call ↔ (config.operationMatch call).raises = false ∧
      ((config.operationMatch call).refuses culture = false →
        (config.serviceMatch call).isLoose culture = false ∧
          (config.operationMatch call).isLoose culture = false) := by
  constructor
  · intro h
    exact ⟨h.operation hrefuses, h.whole hrefuses⟩
  · intro ⟨hraises', hwhole⟩
    exact ⟨hraises, fun _ => hraises', fun _ => hwhole⟩

/-- While no match has run out of time, a call answers as it should exactly when it is clear. -/
theorem answers_iff_clear {before : List CustomSamplingRule.Call}
    (hbefore : ∀ earlier ∈ before, config.expires culture earlier = false)
    (call : CustomSamplingRule.Call) :
    (∃ answer,
      ((CustomSamplingRule.isMatch engine call).run (config.create culture)).1 = .ok answer ∧
      (answer = true ↔ config.Matches culture before call)) ↔ config.Clear culture call := by
  have hwhole : ∀ m : NameMatch engine, m.refuses culture = true → m.isWhole = false :=
    fun m => m.isWhole_of_refuses
  have hmatches : config.Matches culture before call ↔ config.expires culture call = false ∧
      (config.serviceMatch call).isWhole = true ∧ (config.operationMatch call).isWhole = true := by
    rw [Matches, and_iff_right hbefore]
  rw [isMatch_run, hmatches]
  cases hraises : (config.serviceMatch call).raises with
  | true =>
      constructor
      · rintro ⟨answer, h, -⟩
        cases h
      · intro h
        rw [h.service] at hraises
        cases hraises
  | false =>
      cases hrefuses : (config.serviceMatch call).refuses culture with
      | true =>
          constructor
          · intro _
            constructor
            · exact hraises
            · rw [hrefuses]; nofun
            · rw [hrefuses]; nofun
          · intro _
            refine ⟨false, rfl, ?_⟩
            simp [hwhole _ hrefuses]
      | false =>
          rw [config.clear_iff_of_not_refused hraises hrefuses]
          cases hraises' : (config.operationMatch call).raises with
          | true => simp
          | false =>
              cases hrefuses' : (config.operationMatch call).refuses culture with
              | true => simp [hwhole _ hrefuses']
              | false =>
                  simp only [expires, looksOn, NameMatch.isLoose, hraises, hrefuses, hraises',
                    hrefuses', Bool.not_false, Bool.true_and, Bool.or_eq_false_iff,
                    Bool.not_eq_false', forall_const, if_false, Bool.false_eq_true,
                    Except.ok.injEq, exists_eq_left', true_iff, true_and]
                  exact and_and_and_comm

/-- The calls of a rule are answered as they should be exactly when every one of them is clear,
or comes after one in which a match ran out of time. -/
theorem answersCalls_iff (culture : Culture) (config : RuleConfig engine)
    (calls : List CustomSamplingRule.Call) :
    config.Answers culture calls ↔
      ∀ before call after, calls = before ++ call :: after →
        (∃ earlier ∈ before, config.expires culture earlier = true) ∨
          config.Clear culture call := by
  refine forall_congr' fun before => forall_congr' fun call => forall_congr' fun after =>
    forall_congr' fun hcalls => ?_
  rw [afterCalls_create]
  by_cases hbefore : ∃ earlier ∈ before, config.expires culture earlier = true
  · rw [List.any_eq_true.mpr hbefore, isMatch_run_of_poisoned rfl]
    refine iff_of_true ⟨false, rfl, ?_⟩ (Or.inl hbefore)
    rw [iff_comm, Bool.false_eq_true, iff_false]
    rintro ⟨hnone, -⟩
    obtain ⟨earlier, hearlier, hexpires⟩ := hbefore
    rw [hnone earlier hearlier] at hexpires
    cases hexpires
  · have hnone : ∀ earlier ∈ before, config.expires culture earlier = false := by
      intro earlier hearlier
      by_contra hexpires
      exact hbefore ⟨earlier, hearlier, Bool.not_eq_false _ |>.mp hexpires⟩
    rw [List.any_eq_false.mpr fun earlier hearlier => by simp [hnone earlier hearlier],
      or_iff_right hbefore]
    exact config.answers_iff_clear hnone call

end RuleConfig

section Alternation

/-- The comparison of code units, which is that of every culture for plain letters. -/
def ordinal : Culture := ⟨fun s start => start.isPrefixOf s, fun s tail => tail.isSuffixOf s⟩

/-- A call for a span with these names, its matches in time. -/
def namedCall (serviceName operationName : Option Text) : CustomSamplingRule.Call :=
  { span := { Span.create (SpanContext.create ⟨1, 2, 3, 4⟩ none serviceName) none 0 with
      operationName := operationName }
    serviceTimesOut := false
    operationTimesOut := false }

/-- The service must be `a` or `b`. -/
def alternation : RuleConfig plainEngine := ⟨1, none, some ⟨text "a|b", by decide⟩, none⟩

/-- The operation must be `a`. -/
def literal : RuleConfig plainEngine := ⟨1, none, none, some ⟨text "a", by decide⟩⟩

/-- The service `ax` is let through by `a|b`, a null operation name raises, and a name whose
match runs out of time is let through. -/
theorem not_answers_alternation :
    ¬ alternation.Answers ordinal [namedCall (some (text "ax")) (some (text "a"))] ∧
    ¬ literal.Answers ordinal [namedCall (some (text "a")) none] ∧
    ¬ literal.Answers ordinal
      [{ namedCall (some (text "a")) (some (text "b")) with operationTimesOut := true }] := by
  have hclear : ∀ (config : RuleConfig plainEngine) call, config.Answers ordinal [call] →
      config.Clear ordinal call := by
    intro config call h
    apply (config.answers_iff_clear (List.forall_mem_nil _) call).mp
    exact h [] call [] rfl
  refine ⟨?_, ?_, ?_⟩
  · intro h
    exact absurd ((hclear _ _ h).whole (by decide) (by decide)).1 (by decide)
  · intro h
    exact absurd ((hclear _ _ h).operation (by decide)) (by decide)
  · intro h
    exact absurd ((hclear _ _ h).whole (by decide) (by decide)).2 (by decide)

end Alternation

end SignalFxTracing.Sampling
