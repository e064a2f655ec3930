import Mathlib.Data.List.ModifyLast
import SignalFxTracing.Clr.Text

/-!
# A regular expression engine, seen through top-level alternatives

What `Regex.IsMatch` finds for a pattern is known through the alternatives at
the top level of the pattern: each of them matches some parts of an input. The
text of a pattern is not read any further. What is known of the engine is how
the alternatives change when `^` is put before a pattern and `$` behind it.

## Implementation notes

`$` behind a pattern means what the options in force there make of it, or
nothing at all behind a comment. It never rejects the end of the input.
-/

namespace SignalFxTracing.Sampling

open Clr

/-- The parts of an input, from one position to another, that an alternative matches. -/
abbrev Alternative := Text → Nat → Nat → Bool

namespace Alternative

/-- The matches that begin at the start of the input. -/
def atStart (a : Alternative) : Alternative := fun input i j => i == 0 && a input i j

/-- The matches that end at certain places. -/
def atEnd (place : Text → Nat → Bool) (a : Alternative) : Alternative :=
  fun input i j => a input i j && place input j

/-- An alternative that matches some part of the input. -/
def findsPart (a : Alternative) (input : Text) : Bool :=
  (List.range (input.length + 1)).any fun i =>
    (List.range (input.length + 1)).any fun j => a input i j

theorem findsPart_iff {a : Alternative} {input : Text} :
    a.findsPart input = true ↔
      ∃ i ≤ input.length, ∃ j ≤ input.length, a input i j = true := by
  simp only [findsPart, List.any_eq_true, List.mem_range, Nat.lt_succ_iff]

end Alternative

/-- Some alternative matches some part of the input. -/
def finds (alternatives : List Alternative) (input : Text) : Bool :=
  alternatives.any fun a => a.findsPart input

/-- Some alternative matches all of the input. -/
def matchesAll (alternatives : List Alternative) (input : Text) : Bool :=
  alternatives.any fun a => a input 0 input.length

/-- An engine and what it makes of `^` before a pattern and of `$` behind it. -/
structure PatternEngine where
  /-- The alternatives of a pattern that is accepted. -/
  alternatives : Text → Option (List Alternative)
  /-- Where `$` behind the pattern lets a match of its last alternative end. -/
  dollar : Text → Text → Nat → Bool
  alternatives_caret : ∀ p as, alternatives p = some as →
    alternatives (text "^" ++ p) = some (as.modifyHead Alternative.atStart)
  alternatives_dollar : ∀ p as, alternatives p = some as →
    alternatives (p ++ text "$") = some (as.modifyLast (Alternative.atEnd (dollar p)))
  dollar_length : ∀ p input, dollar p input input.length = true

namespace PatternEngine

/-- The patterns that an engine accepts. -/
structure Pattern (engine : PatternEngine) where
  source : Text
  accepted : (engine.alternatives source).isSome

namespace Pattern

variable {engine : PatternEngine}

/-- The alternatives of an accepted pattern. -/
def alternatives (p : engine.Pattern) : List Alternative :=
  (engine.alternatives p.source).get p.accepted

theorem alternatives_eq (p : engine.Pattern) :
    engine.alternatives p.source = some p.alternatives := (Option.some_get p.accepted).symm

/-- The pattern matches the whole input. -/
def matchesWhole (p : engine.Pattern) (input : Text) : Bool := matchesAll p.alternatives input

end Pattern

end PatternEngine

section Anchors

variable {as : List Alternative} {input : Text}

theorem finds_of_matchesAll (h : matchesAll as input = true) : finds as input = true := by
  obtain ⟨a, ha, hmatch⟩ := List.any_eq_true.mp h
  apply List.any_eq_true.mpr
  refine ⟨a, ha, Alternative.findsPart_iff.mpr ?_⟩
  exact ⟨0, Nat.zero_le _, input.length, le_refl _, hmatch⟩

/-- A match of the whole input begins at its start. -/
theorem matchesAll_modifyHead :
    matchesAll (as.modifyHead Alternative.atStart) input = matchesAll as input := by
  cases as with
  | nil => rfl
  | cons a rest => simp [matchesAll, Alternative.atStart]

/-- A match of the whole input ends where every `$` lets it end. -/
theorem matchesAll_modifyLast {place : Text → Nat → Bool}
    (h : place input input.length = true) :
    matchesAll (as.modifyLast (Alternative.atEnd place)) input = matchesAll as input := by
  rcases List.eq_nil_or_concat as with rfl | ⟨init, last, rfl⟩
  · rfl
  · rw [List.concat_eq_append, List.modifyLast_concat]
    simp [matchesAll, Alternative.atEnd, h]

end Anchors

section Plain

/-- Where `$` matches without options: at the end, or before the newline that ends the input. -/
def isFinalPlace (input : Text) (j : Nat) : Bool :=
  j == input.length || (j + 1 == input.length && input[j]? == some 0x0A)

/-- The end of the match of plain characters and anchors from a position on. -/
def scan (input : Text) : Text → Nat → Option Nat
  | [], i => some i
  | c :: rest, i =>
      if c = 0x5E then if i = 0 then scan input rest i else none
      else if c = 0x24 then if isFinalPlace input i then scan input rest i else none
      else if input[i]? = some c then scan input rest (i + 1)
      else none

/-- What the text of an alternative without special characters matches. -/
def plainAlternative (s : Text) : Alternative := fun input i j => scan input s i == some j

/-- The characters with a special meaning, apart from `|`, `^` and `$`. -/
def isSpecial (c : UInt16) : Bool := text "\\*+?.()[]\x7b\x7d" |>.contains c

/-- The top-level alternatives of a pattern without other special characters. -/
def plainAlternatives (p : Text) : Option (List Alternative) :=
  if p.any isSpecial then none else some ((p.splitOn 0x7C).map plainAlternative)

theorem plainAlternative_caret (s : Text) :
    plainAlternative (0x5E :: s) = (plainAlternative s).atStart := by
  ext input i j
  by_cases hi : i = 0
  · simp [plainAlternative, Alternative.atStart, scan, hi]
  · simp [plainAlternative, Alternative.atStart, scan, hi]

theorem scan_append (input s t : Text) (i : Nat) :
    scan input (s ++ t) i = (scan input s i).bind (scan input t) := by
  induction s generalizing i with
  | nil => rfl
  | cons c rest ih =>
      rw [List.cons_append, scan, scan]
      split_ifs
      all_goals first | exact ih _ | rfl

theorem plainAlternative_dollar (s : Text) :
    plainAlternative (s ++ [0x24]) = (plainAlternative s).atEnd isFinalPlace := by
  ext input i j
  rw [plainAlternative, Alternative.atEnd, plainAlternative, scan_append]
  cases h : scan input s i with
  | none => simp
  | some k =>
      by_cases hkj : k = j
      · subst hkj
        by_cases hplace : isFinalPlace input k = true
        · simp [scan, hplace]
        · simp [scan, hplace]
      · by_cases hplace : isFinalPlace input k = true
        · simp [scan, hplace, hkj]
        · simp [scan, hplace, hkj]

/-- What is appended to a text goes to its last segment. -/
theorem splitOn_concat {c separator : UInt16} (h : c ≠ separator) (s : Text) :
    (s ++ [c]).splitOn separator = (s.splitOn separator).modifyLast (· ++ [c]) := by
  induction s with
  | nil =>
      rw [List.nil_append, List.splitOn_cons_eq_if_modifyHead, if_neg (by simpa using h)]
      rfl
  | cons d rest ih =>
      rw [List.cons_append, List.splitOn_cons_eq_if_modifyHead, List.splitOn_cons_eq_if_modifyHead,
        ih]
      obtain hnil | ⟨init, last, hsegments⟩ := List.eq_nil_or_concat (rest.splitOn separator)
      · exact absurd hnil (List.splitOn_ne_nil _ _)
      · rw [hsegments, List.concat_eq_append, List.modifyLast_concat]
        split_ifs
        · rw [← List.cons_append, ← List.cons_append, List.modifyLast_concat]
        · cases init with
          | nil => rfl
          | cons first init =>
              rw [List.cons_append, List.cons_append, List.modifyHead_cons, List.modifyHead_cons,
                ← List.cons_append, ← List.cons_append, List.modifyLast_concat]

/-- The engine for patterns of plain characters, `|`, `^` and `$`. -/
def plainEngine : PatternEngine where
  alternatives := plainAlternatives
  dollar := fun _ => isFinalPlace
  alternatives_caret := by
    intro p as h
    obtain ⟨hplain, heq⟩ := Option.ite_none_left_eq_some.mp h
    obtain rfl := Option.some.inj heq
    have hcaret : ¬ (text "^" ++ p).any isSpecial = true := by
      rw [List.any_append, Bool.or_eq_true, not_or]
      exact ⟨by decide, hplain⟩
    rw [plainAlternatives, if_neg hcaret]
    change some ((List.splitOn 0x7C (0x5E :: p)).map plainAlternative) = _
    rw [List.splitOn_cons_eq_if_modifyHead]
    cases hsegments : p.splitOn 0x7C with
    | nil => exact absurd hsegments (List.splitOn_ne_nil _ _)
    | cons first rest => simp [plainAlternative_caret]
  alternatives_dollar := by
    intro p as h
    obtain ⟨hplain, heq⟩ := Option.ite_none_left_eq_some.mp h
    obtain rfl := Option.some.inj heq
    have hdollar : ¬ (p ++ text "$").any isSpecial = true := by
      rw [List.any_append, Bool.or_eq_true, not_or]
      exact ⟨hplain, by decide⟩
    rw [plainAlternatives, if_neg hdollar]
    change some ((List.splitOn 0x7C (p ++ [0x24])).map plainAlternative) = _
    rw [splitOn_concat (by decide)]
    obtain hnil | ⟨init, last, hsegments⟩ := List.eq_nil_or_concat (p.splitOn 0x7C)
    · exact absurd hnil (List.splitOn_ne_nil _ _)
    · rw [hsegments, List.concat_eq_append, List.modifyLast_concat, List.map_append,
        List.map_append, List.map_singleton, List.map_singleton, List.modifyLast_concat,
        plainAlternative_dollar]
  dollar_length := by
    intro p input
    simp [isFinalPlace]

end Plain

end SignalFxTracing.Sampling
