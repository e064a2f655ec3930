import SignalFxTracing.Clr.Text
import SignalFxTracing.Lib.Segments

/-!
# Paths without identifiers (`UriHelpers.cs`)

A path is cut at its slashes, and a segment that looks like an identifier is
replaced by a question mark.
-/

namespace SignalFxTracing.Util.UriHelpers

open Clr

section Characters

abbrev slash : UInt16 := 0x2F

abbrev questionMark : UInt16 := 0x3F

def isDecimalDigit (c : UInt16) : Bool := 0x30 ≤ c && c ≤ 0x39

def isHexLetter (c : UInt16) : Bool := (0x61 ≤ c && c ≤ 0x66) || (0x41 ≤ c && c ≤ 0x46)

def isDash (c : UInt16) : Bool := c == 0x2D

theorem not_isHexLetter_of_isDecimalDigit {c : UInt16} (h : isDecimalDigit c = true) :
    ¬ isHexLetter c = true := by
  simp only [isDecimalDigit, isHexLetter, Bool.and_eq_true, Bool.or_eq_true, decide_eq_true_eq,
    UInt16.le_iff_toNat_le, UInt16.toNat_ofNat] at h ⊢
  omega

end Characters

section Loops

/-- The loop of `IsIdentifierSegment` from `index`, with at most `turns` turns to `lastIndex`. -/
def identifierLoop (absolutePath : Text) (segmentLength : Nat) :
    (turns index : Nat) → (containsNumber : Bool) → Bool
  | 0, _, containsNumber => containsNumber
  | turns + 1, index, containsNumber =>
      match absolutePath[index]? with
      | none => containsNumber
      | some c =>
          if isDecimalDigit c then identifierLoop absolutePath segmentLength turns (index + 1) true
          else if isHexLetter c then
            -- short segments are likely no identifiers
            if segmentLength < 16 then false
            else identifierLoop absolutePath segmentLength turns (index + 1) containsNumber
          else if isDash c then
            identifierLoop absolutePath segmentLength turns (index + 1) containsNumber
          else false

/-- `IsIdentifierSegment`. -/
def isIdentifierSegment (absolutePath : Text) (startIndex segmentLength : Nat) : Bool :=
  if segmentLength = 0 then false
  else identifierLoop absolutePath segmentLength segmentLength startIndex false

/-- `IndexOf('/', startIndex)`. -/
def indexOfSlash (absolutePath : Text) (startIndex : Nat) : Option Nat :=
  ((absolutePath.drop startIndex).idxOf? slash).map (startIndex + ·)

/-- The loop of `GetCleanUriPath`; `none` when it has not ended after so many turns. -/
def cleanLoop (absolutePath : Text) : (turns previousIndex : Nat) → (sb : Text) → Option Text
  | 0, _, _ => none
  | turns + 1, previousIndex, sb =>
      let index := indexOfSlash absolutePath previousIndex
      let segmentLength :=
        match index with
        | none => absolutePath.length - previousIndex
        | some index => index - previousIndex
      let sb :=
        if isIdentifierSegment absolutePath previousIndex segmentLength then sb ++ [questionMark]
        else sb ++ (absolutePath.drop previousIndex).take segmentLength
      match index with
      | none => some sb
      | some index => cleanLoop absolutePath turns (index + 1) (sb ++ [slash])

/-- `GetCleanUriPath` of a path that is not null. -/
def getCleanUriPath (turns : Nat) (absolutePath : Text) : Option Text :=
  if isNullOrWhiteSpace (some absolutePath) ∨ absolutePath = [slash] then some absolutePath
  else cleanLoop absolutePath turns 0 []

end Loops

section Segments

/-- Hexadecimal digits and dashes with a decimal digit, and no letter in a short segment. -/
def IsIdentifier (segment : Text) : Prop :=
  (∀ c ∈ segment, isDecimalDigit c ∨ isHexLetter c ∨ isDash c) ∧
    (∃ c ∈ segment, isDecimalDigit c) ∧
    ((∀ c ∈ segment, ¬ isHexLetter c) ∨ 16 ≤ segment.length)

instance (segment : Text) : Decidable (IsIdentifier segment) :=
  decidable_of_iff
    (segment.all (fun c => isDecimalDigit c || isHexLetter c || isDash c) = true ∧
      segment.any isDecimalDigit = true ∧
      (segment.all (fun c => !isHexLetter c) = true ∨ 16 ≤ segment.length))
    (by simp [IsIdentifier, or_assoc])

def cleanSegment (segment : Text) : Text :=
  if IsIdentifier segment then [questionMark] else segment

/-- The segments between the slashes, with the identifiers replaced. -/
def cleanPath (path : Text) : Text := Lib.Segments.mapSegments slash cleanSegment path

theorem identifierLoop_iff {absolutePath before behind segment : Text} {segmentLength : Nat}
    (hpath : absolutePath = before ++ segment ++ behind) (containsNumber : Bool) :
    identifierLoop absolutePath segmentLength segment.length before.length containsNumber = true ↔
      (∀ c ∈ segment, isDecimalDigit c ∨ isHexLetter c ∨ isDash c) ∧
        (containsNumber = true ∨ ∃ c ∈ segment, isDecimalDigit c) ∧
        ((∀ c ∈ segment, ¬ isHexLetter c) ∨ 16 ≤ segmentLength) := by
  induction segment generalizing before containsNumber with
  | nil => simp [identifierLoop]
  | cons c segment ih =>
      have hc : absolutePath[before.length]? = some c := by simp [hpath]
      have hrest := fun containsNumber =>
        @ih (before ++ [c]) (by simp [hpath]) containsNumber
      rw [List.length_append, List.length_singleton] at hrest
      rw [List.length_cons, identifierLoop, hc]
      simp only [List.forall_mem_cons, List.exists_mem_cons_iff]
      by_cases hdigit : isDecimalDigit c = true
      · rw [if_pos hdigit, hrest]
        simp [hdigit, not_isHexLetter_of_isDecimalDigit hdigit]
      · rw [if_neg hdigit]
        by_cases hletter : isHexLetter c = true
        · rw [if_pos hletter]
          by_cases hshort : segmentLength < 16
          · rw [if_pos hshort]
            simp [hletter, Nat.not_le.mpr hshort]
          · rw [if_neg hshort, hrest]
            simp [hdigit, hletter, Nat.not_lt.mp hshort]
        · rw [if_neg hletter]
          by_cases hdash : isDash c = true
          · rw [if_pos hdash, hrest]
            simp [hdigit, hletter, hdash]
          · rw [if_neg hdash]
            simp [hdigit, hletter, hdash]

theorem isIdentifierSegment_iff {absolutePath before behind segment : Text}
    (hpath : absolutePath = before ++ segment ++ behind) :
    isIdentifierSegment absolutePath before.length segment.length = true ↔
      IsIdentifier segment := by
  rw [isIdentifierSegment]
  split_ifs with hempty
  · rw [List.length_eq_zero_iff.mp hempty]
    simp [IsIdentifier]
  · rw [identifierLoop_iff hpath]
    simp [IsIdentifier]

theorem cleanSegment_cases (segment : Text) :
    cleanSegment segment = segment ∨ segment ≠ [] ∧ cleanSegment segment = [questionMark] := by
  rw [cleanSegment]
  split_ifs with h
  · right
    refine ⟨?_, rfl⟩
    rintro rfl
    obtain ⟨-, ⟨c, hc, -⟩, -⟩ := h
    cases hc
  · exact Or.inl rfl

theorem slash_notMem_cleanSegment {segment : Text} (h : slash ∉ segment) :
    slash ∉ cleanSegment segment := by
  rcases cleanSegment_cases segment with heq | ⟨-, heq⟩
  · rwa [heq]
  · rw [heq]
    decide

theorem length_cleanSegment_le (segment : Text) :
    (cleanSegment segment).length ≤ segment.length := by
  rcases cleanSegment_cases segment with heq | ⟨hne, heq⟩
  · rw [heq]
  · rw [heq]
    exact List.length_pos_iff.mpr hne

theorem cleanSegment_cleanSegment (segment : Text) :
    cleanSegment (cleanSegment segment) = cleanSegment segment := by
  rcases cleanSegment_cases segment with heq | ⟨-, heq⟩
  · rw [heq, heq]
  · rw [heq]
    decide

end Segments

section Clean

open Lib.Segments

theorem indexOfSlash_of_notMem {before rest : Text} (h : slash ∉ rest) :
    indexOfSlash (before ++ rest) before.length = none := by
  rw [indexOfSlash, List.drop_left, List.idxOf?_eq_none_iff.mpr h, Option.map_none]

theorem indexOfSlash_append_cons {before first rest : Text} (h : slash ∉ first) :
    indexOfSlash (before ++ (first ++ slash :: rest)) before.length =
      some (before.length + first.length) := by
  have hfirst : first.idxOf? slash = none := List.idxOf?_eq_none_iff.mpr h
  rw [indexOfSlash, List.drop_left]
  rw [List.idxOf?] at hfirst ⊢
  rw [List.findIdx?_append, hfirst]
  simp [List.findIdx?_cons]

/-- What a turn of the loop adds for the segment at its position. -/
theorem appendSegment_eq {absolutePath before segment behind : Text}
    (hpath : absolutePath = before ++ segment ++ behind) (sb : Text) :
    (if isIdentifierSegment absolutePath before.length segment.length then sb ++ [questionMark]
      else sb ++ (absolutePath.drop before.length).take segment.length) =
      sb ++ cleanSegment segment := by
  have hcut : (absolutePath.drop before.length).take segment.length = segment := by
    rw [hpath, List.append_assoc, List.drop_left, List.take_left]
  rw [hcut, cleanSegment]
  by_cases h : IsIdentifier segment
  · rw [if_pos ((isIdentifierSegment_iff hpath).mpr h), if_pos h]
  · rw [if_neg (mt (isIdentifierSegment_iff hpath).mp h), if_neg h]

/-- The loop goes through the segments that are left. -/
theorem cleanLoop_eq {before rest : Text} {turns : Nat} (hturns : rest.length < turns)
    (sb : Text) :
    cleanLoop (before ++ rest) turns before.length sb = some (sb ++ cleanPath rest) := by
  induction turns generalizing before rest sb with
  | zero => exact absurd hturns (Nat.not_lt_zero _)
  | succ turns ih =>
      rw [cleanLoop, cleanPath]
      by_cases h : slash ∈ rest
      · obtain ⟨first, rest, rfl, hfirst⟩ := List.eq_append_cons_of_mem h
        have hlength : rest.length < turns := by
          rw [List.length_append, List.length_cons] at hturns
          omega
        have hnext := @ih (before ++ first ++ [slash]) rest hlength
          (sb ++ cleanSegment first ++ [slash])
        simp only [indexOfSlash_append_cons hfirst, Nat.add_sub_cancel_left]
        rw [@appendSegment_eq _ before first (slash :: rest) (by simp),
          mapSegments_append_cons hfirst]
        simpa [cleanPath, Nat.add_assoc] using hnext
      · simp only [indexOfSlash_of_notMem h, List.length_append, Nat.add_sub_cancel_left]
        rw [@appendSegment_eq _ before rest [] (by simp), mapSegments_of_notMem h]

theorem cleanPath_of_isWhiteSpace {path : Text} (h : isNullOrWhiteSpace (some path) = true) :
    cleanPath path = path := by
  have hwhite : ∀ c ∈ path, isWhiteSpace c = true := List.all_eq_true.mp h
  have hslash : slash ∉ path := by
    intro hmem
    have hslash := hwhite slash hmem
    revert hslash
    decide
  have hidentifier : ¬ IsIdentifier path := by
    rintro ⟨-, ⟨c, hc, hdigit⟩, -⟩
    have hwhite := hwhite c hc
    simp only [isDecimalDigit, isWhiteSpace, Bool.and_eq_true, Bool.or_eq_true,
      decide_eq_true_eq, beq_iff_eq, UInt16.le_iff_toNat_le, ← UInt16.toNat_inj,
      UInt16.toNat_ofNat] at hdigit hwhite
    omega
  rw [cleanPath, mapSegments_of_notMem hslash, cleanSegment, if_neg hidentifier]

theorem getCleanUriPath_eq {absolutePath : Text} {turns : Nat}
    (hturns : absolutePath.length < turns) :
    getCleanUriPath turns absolutePath = some (cleanPath absolutePath) := by
  rw [getCleanUriPath]
  split_ifs with h
  · rcases h with hwhite | rfl
    · rw [cleanPath_of_isWhiteSpace hwhite]
    · decide
  · exact @cleanLoop_eq [] absolutePath turns hturns []

/-- The loop ends after at most one turn for each character and one more. -/
theorem getCleanUriPath_clean (absolutePath : Text) :
    ∃ cleaned,
      (∀ more, getCleanUriPath (absolutePath.length + 1 + more) absolutePath = some cleaned) ∧
      cleaned = [slash].intercalate ((absolutePath.splitOn slash).map fun segment =>
        if IsIdentifier segment then [questionMark] else segment) ∧
      cleaned.count slash = absolutePath.count slash ∧
      cleaned.length ≤ absolutePath.length ∧
      ∀ more, getCleanUriPath (cleaned.length + 1 + more) cleaned = some cleaned := by
  have hslash : ∀ segment, slash ∉ segment → slash ∉ cleanSegment segment :=
    fun _ => slash_notMem_cleanSegment
  refine ⟨cleanPath absolutePath, ?_, rfl, ?_, ?_, ?_⟩
  · intro more
    exact getCleanUriPath_eq (by omega)
  · exact count_mapSegments hslash absolutePath
  · exact length_mapSegments_le length_cleanSegment_le absolutePath
  · intro more
    rw [getCleanUriPath_eq (by omega), cleanPath, cleanPath,
      mapSegments_mapSegments hslash cleanSegment_cleanSegment]

end Clean

end SignalFxTracing.Util.UriHelpers
