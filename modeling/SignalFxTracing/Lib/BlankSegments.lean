import SignalFxTracing.Lib.Segments
import Mathlib.Data.List.DropRight

/-!
# The segments of a list that are not blank

A list is cut at separators. Of its segments those that are blank are left out,
and the others lose the blanks at their ends. A reader that keeps a blank list
as it is, instead of making it empty, differs at the blank segments.
-/

namespace SignalFxTracing.Lib.BlankSegments

variable {α : Type*} (blank : α → Bool)

def IsBlank (s : List α) : Prop := ∀ c ∈ s, blank c = true

instance (s : List α) : Decidable (IsBlank blank s) :=
  inferInstanceAs (Decidable (∀ c ∈ s, blank c = true))

/-- Without the blanks at both ends. -/
def strip (s : List α) : List α := (s.dropWhile blank).rdropWhile blank

/-- A blank list is kept as it is. -/
def stripUnlessBlank (s : List α) : List α := if IsBlank blank s then s else strip blank s

section Strip

variable {blank}

theorem isBlank_nil : IsBlank blank [] := by simp [IsBlank]

theorem isBlank_append {s t : List α} :
    IsBlank blank (s ++ t) ↔ IsBlank blank s ∧ IsBlank blank t := by
  simp [IsBlank, or_imp, forall_and]

theorem isBlank_cons {c : α} {s : List α} :
    IsBlank blank (c :: s) ↔ blank c = true ∧ IsBlank blank s := by
  simp [IsBlank]

theorem dropWhile_append_of_isBlank {l : List α} (hl : IsBlank blank l) (s : List α) :
    (l ++ s).dropWhile blank = s.dropWhile blank :=
  List.dropWhile_append_of_pos hl

theorem dropWhile_append_of_not_isBlank {s : List α} (hs : ¬ IsBlank blank s) (t : List α) :
    (s ++ t).dropWhile blank = s.dropWhile blank ++ t := by
  induction s with
  | nil => exact absurd isBlank_nil hs
  | cons c s ih =>
      by_cases hc : blank c = true
      · rw [List.cons_append, List.dropWhile_cons_of_pos hc, List.dropWhile_cons_of_pos hc]
        exact ih fun hblank => hs (isBlank_cons.mpr ⟨hc, hblank⟩)
      · rw [List.cons_append, List.dropWhile_cons_of_neg hc, List.dropWhile_cons_of_neg hc,
          List.cons_append]

theorem isBlank_reverse {s : List α} : IsBlank blank s.reverse ↔ IsBlank blank s := by
  simp [IsBlank]

theorem rdropWhile_append_of_isBlank (s : List α) {r : List α} (hr : IsBlank blank r) :
    (s ++ r).rdropWhile blank = s.rdropWhile blank := by
  rw [List.rdropWhile, List.reverse_append,
    dropWhile_append_of_isBlank (isBlank_reverse.mpr hr), List.rdropWhile]

theorem rdropWhile_append_of_not_isBlank (s : List α) {t : List α} (ht : ¬ IsBlank blank t) :
    (s ++ t).rdropWhile blank = s ++ t.rdropWhile blank := by
  rw [List.rdropWhile, List.reverse_append,
    dropWhile_append_of_not_isBlank (mt isBlank_reverse.mp ht), List.reverse_append,
    List.reverse_reverse, List.rdropWhile]

theorem not_isBlank_dropWhile {s : List α} (hs : ¬ IsBlank blank s) :
    ¬ IsBlank blank (s.dropWhile blank) := by
  intro h
  apply hs
  rw [← @List.takeWhile_append_dropWhile _ blank s, isBlank_append]
  exact ⟨fun c hc => List.mem_takeWhile_imp hc, h⟩

theorem not_isBlank_strip {s : List α} (hs : ¬ IsBlank blank s) : ¬ IsBlank blank (strip blank s) := by
  intro h
  have hreverse := mt isBlank_reverse.mp (not_isBlank_dropWhile hs)
  exact not_isBlank_dropWhile hreverse (isBlank_reverse.mp h)

/-- What is between two lists that are not blank stays. -/
theorem strip_append_append {before behind : List α} (hbefore : ¬ IsBlank blank before)
    (hbehind : ¬ IsBlank blank behind) (s : List α) :
    strip blank (before ++ s ++ behind) =
      before.dropWhile blank ++ s ++ behind.rdropWhile blank := by
  rw [strip, List.append_assoc, dropWhile_append_of_not_isBlank hbefore, ← List.append_assoc,
    rdropWhile_append_of_not_isBlank _ hbehind]

theorem strip_append_of_isBlank {l : List α} (hl : IsBlank blank l) (s : List α) :
    strip blank (l ++ s) = strip blank s := by
  rw [strip, dropWhile_append_of_isBlank hl, strip]

theorem strip_append_of_isBlank_right {s : List α} (hs : ¬ IsBlank blank s) {r : List α}
    (hr : IsBlank blank r) : strip blank (s ++ r) = strip blank s := by
  rw [strip, dropWhile_append_of_not_isBlank hs, rdropWhile_append_of_isBlank _ hr, strip]

/-- A list that is not blank is its middle with blanks around it. -/
theorem exists_append_strip (s : List α) :
    ∃ l r, s = l ++ strip blank s ++ r ∧ IsBlank blank l ∧ IsBlank blank r := by
  refine ⟨s.takeWhile blank, (s.dropWhile blank).rtakeWhile blank, ?_, ?_, ?_⟩
  · rw [strip, List.append_assoc, List.rdropWhile_append_rtakeWhile,
      List.takeWhile_append_dropWhile]
  · exact fun c hc => List.mem_takeWhile_imp hc
  · exact fun c hc => List.mem_rtakeWhile_imp hc

theorem stripUnlessBlank_eq_self {s : List α} (h : ∀ c ∈ s, blank c = false) :
    stripUnlessBlank blank s = s := by
  have hnil : ∀ t, (∀ c ∈ t, c ∈ s) → IsBlank blank t → t = [] := by
    intro t hsub ht
    apply List.eq_nil_iff_forall_not_mem.mpr
    intro c hc
    exact Bool.eq_false_iff.mp (h c (hsub c hc)) (ht c hc)
  obtain ⟨l, r, hs, hl, hr⟩ := @exists_append_strip α blank s
  have hl' := hnil l (fun c hc => by rw [hs]; simp [hc]) hl
  have hr' := hnil r (fun c hc => by rw [hs]; simp [hc]) hr
  rw [stripUnlessBlank]
  split_ifs
  · rfl
  · rw [hl', hr', List.nil_append, List.append_nil] at hs
    exact hs.symm

theorem length_strip_le (s : List α) : (strip blank s).length ≤ s.length := by
  obtain ⟨l, r, hs, -⟩ := @exists_append_strip α blank s
  have hlength := congrArg List.length hs
  rw [List.length_append, List.length_append] at hlength
  omega

theorem strip_strip {s : List α} (hs : ¬ IsBlank blank s) :
    strip blank (strip blank s) = strip blank s := by
  obtain ⟨l, r, h, hl, hr⟩ := @exists_append_strip α blank s
  calc
    strip blank (strip blank s)
        = strip blank (l ++ strip blank s) := (strip_append_of_isBlank hl _).symm
    _ = strip blank (l ++ strip blank s ++ r) :=
        (strip_append_of_isBlank_right (fun h => not_isBlank_strip hs (isBlank_append.mp h).2)
          hr).symm
    _ = strip blank s := congrArg (strip blank) h.symm

/-- No blank is at an end of what is left. -/
theorem eq_nil_of_strip_eq_append {s x y : List α} (hs : ¬ IsBlank blank s)
    (h : strip blank s = x ++ y) :
    (IsBlank blank x → x = []) ∧ (IsBlank blank y → y = []) := by
  have hlength := congrArg List.length (strip_strip hs)
  have hnot := not_isBlank_strip hs
  rw [h] at hlength hnot
  rw [List.length_append] at hlength
  constructor
  · intro hx
    rw [strip_append_of_isBlank hx] at hlength
    have hle := @length_strip_le α blank y
    exact List.length_eq_zero_iff.mp (by omega)
  · intro hy
    rw [strip_append_of_isBlank_right (fun hx => hnot (isBlank_append.mpr ⟨hx, hy⟩)) hy]
      at hlength
    have hle := @length_strip_le α blank x
    exact List.length_eq_zero_iff.mp (by omega)

end Strip

variable [DecidableEq α] (separator : α)

/-- The segments that are not blank, without the blanks at their ends. -/
def entries (s : List α) : List (List α) :=
  ((s.splitOn separator).filter fun segment => ¬ IsBlank blank segment).map (strip blank)

/-- The segments without the blanks at their ends that are not empty then, if blank segments are
kept as they are. -/
def keptEntries (s : List α) : List (List α) :=
  ((s.splitOn separator).map (stripUnlessBlank blank)).filter fun segment => segment ≠ []

/-- A blank segment that is not empty, between parts that are not blank or in a blank list. -/
def HasStray (s : List α) : Prop :=
  ∃ before segment behind, s = before ++ segment ++ behind ∧ segment ≠ [] ∧
    IsBlank blank segment ∧ separator ∉ segment ∧
    (before = [] ∨ ∃ others, before = others ++ [separator]) ∧
    (behind = [] ∨ ∃ others, behind = separator :: others) ∧
    (IsBlank blank s ∨ ¬ IsBlank blank before ∧ ¬ IsBlank blank behind)

section Entries

variable {blank separator}

theorem entries_append_cons_self (s t : List α) :
    entries blank separator (s ++ separator :: t) =
      entries blank separator s ++ entries blank separator t := by
  rw [entries, List.splitOn_append_cons_self, List.filter_append, List.map_append, entries,
    entries]

theorem entries_of_notMem {s : List α} (h : separator ∉ s) :
    entries blank separator s = if IsBlank blank s then [] else [strip blank s] := by
  rw [entries, List.splitOn_eq_singleton h]
  by_cases hs : IsBlank blank s
  · rw [if_pos hs, List.filter_cons_of_neg (by simp [hs])]
    rfl
  · rw [if_neg hs, List.filter_cons_of_pos (by simp [hs])]
    rfl

theorem entries_nil : entries blank separator [] = [] := by
  rw [entries_of_notMem List.not_mem_nil, if_pos isBlank_nil]

theorem entries_cons_of_blank {c : α} (hc : blank c = true) (s : List α) :
    entries blank separator (c :: s) = entries blank separator s := by
  by_cases hsep : c = separator
  · rw [← List.nil_append (c :: s), hsep, entries_append_cons_self, entries_nil, List.nil_append]
  · have hsingle : ∀ s, separator ∉ s →
        entries blank separator (c :: s) = entries blank separator s := by
      intro s hs
      have hmem : separator ∉ c :: s := by
        rw [List.mem_cons, not_or]
        exact ⟨fun h => hsep h.symm, hs⟩
      have hstrip : strip blank (c :: s) = strip blank s :=
        strip_append_of_isBlank (isBlank_cons.mpr ⟨hc, isBlank_nil⟩) s
      rw [entries_of_notMem hmem, entries_of_notMem hs, hstrip]
      simp [isBlank_cons, hc]
    induction s using Segments.cut_induction with
    | single s hs => exact hsingle s hs
    | cut first rest hfirst ih =>
        rw [← List.cons_append, entries_append_cons_self, entries_append_cons_self,
          hsingle first hfirst]

theorem entries_of_isBlank {s : List α} (hs : IsBlank blank s) : entries blank separator s = [] := by
  induction s with
  | nil => exact entries_nil
  | cons c s ih =>
      obtain ⟨hc, hs⟩ := isBlank_cons.mp hs
      rw [entries_cons_of_blank hc, ih hs]

theorem entries_concat_of_blank {c : α} (hc : blank c = true) (s : List α) :
    entries blank separator (s ++ [c]) = entries blank separator s := by
  by_cases hsep : c = separator
  · rw [hsep, entries_append_cons_self, entries_nil, List.append_nil]
  · induction s using Segments.cut_induction with
    | single s hs =>
        have hmem : separator ∉ s ++ [c] := by
          rw [List.mem_append, List.mem_singleton, not_or]
          exact ⟨hs, fun h => hsep h.symm⟩
        have hblank : IsBlank blank [c] := isBlank_cons.mpr ⟨hc, isBlank_nil⟩
        rw [entries_of_notMem hmem, entries_of_notMem hs]
        by_cases hs : IsBlank blank s
        · rw [if_pos hs, if_pos (isBlank_append.mpr ⟨hs, hblank⟩)]
        · rw [if_neg hs, if_neg fun h => hs (isBlank_append.mp h).1,
            strip_append_of_isBlank_right hs hblank]
    | cut first rest hfirst ih =>
        rw [List.append_assoc, List.cons_append, entries_append_cons_self,
          entries_append_cons_self, ih]

/-- Blanks at the ends of the list are in no entry. -/
theorem entries_strip (s : List α) :
    entries blank separator (strip blank s) = entries blank separator s := by
  have hleft : ∀ {l}, IsBlank blank l → ∀ s,
      entries blank separator (l ++ s) = entries blank separator s := by
    intro l hl s
    induction l with
    | nil => rfl
    | cons c l ih =>
        obtain ⟨hc, hl⟩ := isBlank_cons.mp hl
        rw [List.cons_append, entries_cons_of_blank hc, ih hl]
  have hright : ∀ {r}, IsBlank blank r → ∀ s,
      entries blank separator (s ++ r) = entries blank separator s := by
    intro r hr s
    induction r generalizing s with
    | nil => rw [List.append_nil]
    | cons c r ih =>
        obtain ⟨hc, hr⟩ := isBlank_cons.mp hr
        rw [← List.singleton_append, ← List.append_assoc, ih hr, entries_concat_of_blank hc]
  obtain ⟨l, r, hs, hl, hr⟩ := @exists_append_strip α blank s
  calc
    entries blank separator (strip blank s)
        = entries blank separator (l ++ strip blank s ++ r) := by rw [hright hr, hleft hl]
    _ = entries blank separator s := by rw [← hs]

theorem not_isBlank_of_mem_entries {s entry : List α} (h : entry ∈ entries blank separator s) :
    ¬ IsBlank blank entry := by
  obtain ⟨segment, hsegment, rfl⟩ := List.mem_map.mp h
  exact not_isBlank_strip (by simpa using (List.mem_filter.mp hsegment).2)

/-- The blank segments that are not empty make the difference. -/
theorem keptEntries_eq_entries_iff {s : List α} :
    keptEntries blank separator s = entries blank separator s ↔
      ∀ segment ∈ s.splitOn separator, segment ≠ [] → ¬ IsBlank blank segment := by
  constructor
  · intro heq segment hmem hne hblank
    have hkept : segment ∈ keptEntries blank separator s := by
      refine List.mem_filter.mpr ⟨List.mem_map.mpr ⟨segment, hmem, ?_⟩, by simpa using hne⟩
      rw [stripUnlessBlank, if_pos hblank]
    rw [heq] at hkept
    exact not_isBlank_of_mem_entries hkept hblank
  · intro h
    rw [keptEntries, entries]
    generalize s.splitOn separator = segments at h
    induction segments with
    | nil => rfl
    | cons segment rest ih =>
        obtain ⟨hsegment, hrest⟩ := List.forall_mem_cons.mp h
        by_cases hblank : IsBlank blank segment
        · obtain rfl : segment = [] := by
            by_contra hne
            exact hsegment hne hblank
          rw [List.map_cons, stripUnlessBlank, if_pos hblank, List.filter_cons_of_neg (by simp),
            List.filter_cons_of_neg (by simp [hblank]), ih hrest]
        · have hne : strip blank segment ≠ [] := by
            intro hnil
            exact not_isBlank_strip hblank (hnil ▸ isBlank_nil)
          rw [List.map_cons, stripUnlessBlank, if_neg hblank,
            List.filter_cons_of_pos (by simpa using hne),
            List.filter_cons_of_pos (by simpa using hblank), List.map_cons, ih hrest]

theorem keptEntries_singleton {s : List α} (hne : s ≠ []) (h : ∀ c ∈ s, blank c = false)
    (hs : separator ∉ s) : keptEntries blank separator (stripUnlessBlank blank s) = [s] := by
  rw [stripUnlessBlank_eq_self h, keptEntries, List.splitOn_eq_singleton hs, List.map_singleton,
    stripUnlessBlank_eq_self h, List.filter_cons_of_pos (by simpa using hne), List.filter_nil]

theorem hasStray_iff {s : List α} :
    HasStray blank separator s ↔ ∃ segment ∈ (stripUnlessBlank blank s).splitOn separator,
      segment ≠ [] ∧ IsBlank blank segment := by
  rw [stripUnlessBlank]
  split_ifs with hs
  · simp only [Segments.mem_splitOn_iff]
    constructor
    · rintro ⟨before, segment, behind, rfl, hne, hblank, hmem, hbefore, hbehind, -⟩
      exact ⟨segment, ⟨hmem, before, behind, rfl, hbefore, hbehind⟩, hne, hblank⟩
    · rintro ⟨segment, ⟨hmem, before, behind, heq, hbefore, hbehind⟩, hne, hblank⟩
      exact ⟨before, segment, behind, heq, hne, hblank, hmem, hbefore, hbehind, Or.inl hs⟩
  · constructor
    · rintro ⟨before, segment, behind, rfl, hne, hblank, hmem, hbefore, hbehind, hends⟩
      obtain ⟨hbeforeNot, hbehindNot⟩ := hends.resolve_left hs
      refine ⟨segment, Segments.mem_splitOn_iff.mpr ⟨hmem, before.dropWhile blank,
        behind.rdropWhile blank, strip_append_append hbeforeNot hbehindNot segment, ?_, ?_⟩,
        hne, hblank⟩
      · rcases hbefore with rfl | ⟨others, rfl⟩
        · exact absurd isBlank_nil hbeforeNot
        · rcases List.suffix_concat_iff.mp (@List.dropWhile_suffix _ (others ++ [separator]) blank)
            with hnil | ⟨t, ht, -⟩
          · exact Or.inl hnil
          · exact Or.inr ⟨t, ht⟩
      · rcases hbehind with rfl | ⟨others, rfl⟩
        · exact absurd isBlank_nil hbehindNot
        · rcases List.prefix_cons_iff.mp (List.rdropWhile_prefix blank (separator :: others))
            with hnil | ⟨t, ht, -⟩
          · exact Or.inl hnil
          · exact Or.inr ⟨t, ht⟩
    · rintro ⟨segment, hsegment, hne, hblank⟩
      obtain ⟨hmem, before, behind, heq, hbefore, hbehind⟩ :=
        Segments.mem_splitOn_iff.mp hsegment
      have hbeforeNot : ¬ IsBlank blank before := by
        intro h
        have hnil := (eq_nil_of_strip_eq_append hs heq).1 (isBlank_append.mpr ⟨h, hblank⟩)
        exact hne (List.append_eq_nil_iff.mp hnil).2
      have hbehindNot : ¬ IsBlank blank behind := by
        intro h
        rw [List.append_assoc] at heq
        have hnil := (eq_nil_of_strip_eq_append hs heq).2 (isBlank_append.mpr ⟨hblank, h⟩)
        exact hne (List.append_eq_nil_iff.mp hnil).1
      obtain ⟨l, r, hstrip, -, -⟩ := @exists_append_strip α blank s
      refine ⟨l ++ before, segment, behind ++ r, ?_, hne, hblank, hmem, Or.inr ?_, Or.inr ?_,
        Or.inr ⟨?_, ?_⟩⟩
      · rw [hstrip, heq]
        simp
      · rcases hbefore with rfl | ⟨others, rfl⟩
        · exact absurd isBlank_nil hbeforeNot
        · exact ⟨l ++ others, by simp⟩
      · rcases hbehind with rfl | ⟨others, rfl⟩
        · exact absurd isBlank_nil hbehindNot
        · exact ⟨others ++ r, by simp⟩
      · exact fun h => hbeforeNot (isBlank_append.mp h).2
      · exact fun h => hbehindNot (isBlank_append.mp h).1

/-- A reader that keeps blank lists reads the entries exactly when no blank segment is stray. -/
theorem keptEntries_stripUnlessBlank_iff {s : List α} :
    keptEntries blank separator (stripUnlessBlank blank s) = entries blank separator s ↔
      ¬ HasStray blank separator s := by
  have hentries : entries blank separator (stripUnlessBlank blank s) =
      entries blank separator s := by
    rw [stripUnlessBlank]
    split_ifs
    · rfl
    · exact entries_strip s
  rw [← hentries, keptEntries_eq_entries_iff, hasStray_iff]
  simp only [not_exists, not_and]

end Entries

end SignalFxTracing.Lib.BlankSegments
