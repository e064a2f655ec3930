import SignalFxTracing.Clr.Text
import SignalFxTracing.Lib.BlankSegments

/-!
# Lists in environment variables (`util.cpp`, `cor_profiler.cpp`)

The value of a variable is trimmed and cut at a delimiter, and each segment is
trimmed again. Trimming leaves a text of blanks as it is.

## Implementation notes

Elsewhere than on Windows a value is the text that its bytes are decoded to.
When a value does not fit the buffer on Windows, what is in the buffer is not
defined.
-/

namespace SignalFxTracing.Profiler.Environment

open Clr Lib.BlankSegments

/-- `max_buf_size`. -/
abbrev maxBufSize : Nat := 4096

/-- The characters that are trimmed. -/
def isBlankChar (c : UInt16) : Bool := (text " \t").contains c

section Split

/-- The loop of `Split` at position `i`, with what is behind it. -/
def splitLoop (s : Text) (delim : UInt16) (i lpos : Nat) : Text → List Text
  | [] => [s.drop lpos]
  | c :: rest =>
      if c = delim then
        (s.drop lpos).take (i - lpos) :: splitLoop s delim (i + 1) (i + 1) rest
      else splitLoop s delim (i + 1) lpos rest

/-- `Split`. -/
def split (s : Text) (delim : UInt16) : List Text := splitLoop s delim 0 0 s

theorem splitLoop_eq_splitOn {s before segment rest : Text} {delim : UInt16}
    (hs : s = before ++ segment ++ rest) (hsegment : delim ∉ segment) :
    splitLoop s delim (before ++ segment).length before.length rest =
      (segment ++ rest).splitOn delim := by
  induction rest generalizing before segment with
  | nil =>
      rw [splitLoop, hs, List.append_assoc, List.drop_left, List.append_nil,
        List.splitOn_eq_singleton hsegment]
  | cons c rest ih =>
      rw [splitLoop]
      split_ifs with hc
      · subst hc
        rw [List.splitOn_append_cons_self_of_not_mem hsegment]
        have hcut : (s.drop before.length).take ((before ++ segment).length - before.length) =
            segment := by
          rw [hs, List.append_assoc, List.drop_left, List.length_append, Nat.add_sub_cancel_left,
            List.take_left]
        have hrest := @ih (before ++ segment ++ [c]) [] (by simp [hs]) List.not_mem_nil
        rw [List.append_nil, List.length_append, List.length_singleton] at hrest
        rw [hcut, hrest, List.nil_append]
      · have hmem : delim ∉ segment ++ [c] := by
          rw [List.mem_append, List.mem_singleton, not_or]
          exact ⟨hsegment, fun h => hc h.symm⟩
        have hrest := @ih before (segment ++ [c]) (by simp [hs]) hmem
        rw [← List.append_assoc, List.length_append, List.length_singleton] at hrest
        rw [hrest, List.append_assoc, List.singleton_append]

theorem split_eq_splitOn (s : Text) (delim : UInt16) : split s delim = s.splitOn delim :=
  @splitLoop_eq_splitOn s [] [] s delim rfl List.not_mem_nil

end Split

section Trim

/-- `find_first_not_of(" \t")`. -/
def findFirstNotOf (s : Text) : Option Nat := s.findIdx? fun c => !isBlankChar c

/-- `find_last_not_of(" \t")`. -/
def findLastNotOf (s : Text) : Option Nat :=
  (s.reverse.findIdx? fun c => !isBlankChar c).map fun i => s.length - 1 - i

/-- `Trim`. -/
def trim (str : Text) : Text :=
  if str.length = 0 then []
  else
    let trimmed :=
      match findFirstNotOf str with
      | some lpos => if 0 < lpos then str.drop lpos else str
      | none => str
    match findLastNotOf trimmed with
    | some rpos => trimmed.take (rpos + 1)
    | none => trimmed

theorem exists_findFirstNotOf {s : Text} (hs : ¬ IsBlank isBlankChar s) :
    ∃ lpos < s.length, findFirstNotOf s = some lpos ∧
      s.drop lpos = s.dropWhile isBlankChar := by
  have hsome : findFirstNotOf s ≠ none := by
    rw [findFirstNotOf, Ne, List.findIdx?_eq_none_iff]
    simpa [IsBlank] using hs
  obtain ⟨lpos, hlpos⟩ := Option.ne_none_iff_exists'.mp hsome
  obtain ⟨hlt, hidx⟩ := List.findIdx?_eq_some_iff_findIdx_eq.mp hlpos
  exact ⟨lpos, hlt, hlpos, by rw [List.dropWhile_eq_drop_findIdx_not, hidx]⟩

theorem exists_findLastNotOf {s : Text} (hs : ¬ IsBlank isBlankChar s) :
    ∃ rpos, findLastNotOf s = some rpos ∧ s.take (rpos + 1) = s.rdropWhile isBlankChar := by
  obtain ⟨i, hlt, hi, hdrop⟩ := exists_findFirstNotOf (mt isBlank_reverse.mp hs)
  rw [List.length_reverse] at hlt
  refine ⟨s.length - 1 - i, congrArg (Option.map _) hi, ?_⟩
  have hlength : s.length - 1 - i + 1 = s.length - i := by omega
  rw [List.rdropWhile, ← hdrop, List.drop_reverse, List.reverse_reverse, hlength]

theorem findLastNotOf_of_isBlank {s : Text} (hs : IsBlank isBlankChar s) :
    findLastNotOf s = none := by
  rw [findLastNotOf, Option.map_eq_none_iff, List.findIdx?_eq_none_iff]
  simpa [IsBlank] using hs

theorem trim_eq_stripUnlessBlank (str : Text) : trim str = stripUnlessBlank isBlankChar str := by
  rw [trim, stripUnlessBlank]
  split_ifs with hempty hs hs
  · exact (List.length_eq_zero_iff.mp hempty).symm
  · rw [List.length_eq_zero_iff.mp hempty] at hs
    exact absurd isBlank_nil hs
  · have hnone : findFirstNotOf str = none := by
      rw [findFirstNotOf, List.findIdx?_eq_none_iff]
      simpa [IsBlank] using hs
    simp only [hnone, findLastNotOf_of_isBlank hs]
  · obtain ⟨lpos, -, hlpos, hdrop⟩ := exists_findFirstNotOf hs
    have htrimmed : (if 0 < lpos then str.drop lpos else str) = str.dropWhile isBlankChar := by
      rw [← hdrop]
      split_ifs with hpos
      · rfl
      · rw [Nat.eq_zero_of_not_pos hpos, List.drop_zero]
    obtain ⟨rpos, hrpos, htake⟩ := exists_findLastNotOf (not_isBlank_dropWhile hs)
    simp only [hlpos, htrimmed, hrpos, htake, strip]

end Trim

section Values

/-- `GetEnvironmentValue`, for the variable if it is set. -/
def getEnvironmentValue (platform : Platform) (buffer : Vector UInt16 maxBufSize) :
    Option Text → Text
  | none => trim []
  | some value =>
      if platform = .windows ∧ maxBufSize ≤ value.length then trim buffer.toList
      else trim value

/-- `GetEnvironmentValues`. -/
def getEnvironmentValues (platform : Platform) (buffer : Vector UInt16 maxBufSize)
    (value : Option Text) (delim : UInt16) : List Text :=
  ((split (getEnvironmentValue platform buffer value) delim).map trim).filter (· ≠ [])

/-- The tests of the process lists in `Initialize`. -/
def passesProcessLists (included excluded : List Text) (processName : Text) : Bool :=
  (included.isEmpty || included.contains processName) && !excluded.contains processName

variable {platform : Platform} {buffer : Vector UInt16 maxBufSize} {value : Text} {delim : UInt16}

theorem getEnvironmentValues_of_fits (h : ¬ (platform = .windows ∧ maxBufSize ≤ value.length)) :
    getEnvironmentValues platform buffer (some value) delim =
      keptEntries isBlankChar delim (stripUnlessBlank isBlankChar value) := by
  rw [getEnvironmentValues, getEnvironmentValue, if_neg h, split_eq_splitOn,
    trim_eq_stripUnlessBlank, keptEntries, funext trim_eq_stripUnlessBlank]

/-- A value that does not fit is read as what is in the buffer. -/
theorem getEnvironmentValues_of_not_fits (h : platform = .windows ∧ maxBufSize ≤ value.length) :
    getEnvironmentValues platform buffer (some value) delim =
      keptEntries isBlankChar delim (stripUnlessBlank isBlankChar buffer.toList) := by
  rw [getEnvironmentValues, getEnvironmentValue, if_pos h, split_eq_splitOn,
    trim_eq_stripUnlessBlank, keptEntries, funext trim_eq_stripUnlessBlank]

end Values

section Entries

/-- What the values of a list are to be. -/
structure IsListOf (delim : UInt16) (value : Text) (values : List Text) : Prop where
  eq_entries : values = entries isBlankChar delim value
  not_blank : ∀ entry ∈ values, entry ≠ [] ∧ ¬ IsBlank isBlankChar entry
  /-- A blank list of processes is no list. -/
  blank : IsBlank isBlankChar value → ∀ excluded processName,
    passesProcessLists values excluded processName = !excluded.contains processName

variable {platform : Platform} {value : Text} {delim : UInt16}

theorem isListOf_iff {values : List Text} :
    IsListOf delim value values ↔ values = entries isBlankChar delim value := by
  constructor
  · exact IsListOf.eq_entries
  · rintro rfl
    refine ⟨rfl, ?_, ?_⟩
    · intro entry hentry
      have hblank := not_isBlank_of_mem_entries hentry
      exact ⟨fun hnil => hblank (hnil ▸ isBlank_nil), hblank⟩
    · intro hvalue excluded processName
      rw [entries_of_isBlank hvalue]
      rfl

/-- The value fits the buffer. -/
def Fits (platform : Platform) (value : Text) : Prop :=
  ¬ (platform = .windows ∧ maxBufSize ≤ value.length)

theorem exists_buffer_of_not_fits (h : ¬ Fits platform value) (values : List Text) :
    ∃ buffer, getEnvironmentValues platform buffer (some value) delim ≠ values := by
  have hread : ∀ {c}, isBlankChar c = false → delim ≠ c →
      getEnvironmentValues platform (Vector.replicate maxBufSize c) (some value) delim =
        [List.replicate maxBufSize c] := by
    intro c hc hdelim
    rw [getEnvironmentValues_of_not_fits (not_not.mp h), Vector.toList_replicate]
    apply keptEntries_singleton
    · simp
    · intro c' hc'
      rw [List.eq_of_mem_replicate hc', hc]
    · exact fun hmem => hdelim (List.eq_of_mem_replicate hmem)
  -- two contents that give different lists
  obtain ⟨c, c', hne, hc, hc', hdelim, hdelim'⟩ : ∃ c c' : UInt16, c ≠ c' ∧
      isBlankChar c = false ∧ isBlankChar c' = false ∧ delim ≠ c ∧ delim ≠ c' := by
    by_cases hA : delim = 0x41
    · exact ⟨0x42, 0x43, by decide, by decide, by decide, by simp [hA], by simp [hA]⟩
    · by_cases hB : delim = 0x42
      · exact ⟨0x41, 0x43, by decide, by decide, by decide, hA, by simp [hB]⟩
      · exact ⟨0x41, 0x42, by decide, by decide, by decide, hA, hB⟩
  by_contra hall
  simp only [not_exists, not_not] at hall
  have heq := (hread hc hdelim).symm.trans ((hall _).trans ((hall _).symm.trans
    (hread hc' hdelim')))
  rw [List.cons.injEq, List.replicate_inj] at heq
  rcases heq.1.2 with hzero | hsame
  · cases hzero
  · exact hne hsame

theorem isListOf_getEnvironmentValues_iff :
    (∀ buffer, IsListOf delim value (getEnvironmentValues platform buffer (some value) delim)) ↔
      Fits platform value ∧ ¬ HasStray isBlankChar delim value := by
  simp only [isListOf_iff]
  by_cases h : Fits platform value
  · simp only [getEnvironmentValues_of_fits h, keptEntries_stripUnlessBlank_iff, h, true_and]
    exact forall_const _
  · simp only [h, false_and, iff_false, not_forall]
    exact exists_buffer_of_not_fits h _

end Entries

/-- A list of processes that is one space is a list with that process. -/
theorem not_isListOf_space :
    ¬ ∀ buffer, IsListOf 0x3B (text " ")
      (getEnvironmentValues .windows buffer (some (text " ")) 0x3B) := by
  intro h
  have hentry := (h (Vector.replicate maxBufSize 0)).not_blank (text " ") (by decide)
  exact hentry.2 (by decide)

end SignalFxTracing.Profiler.Environment
