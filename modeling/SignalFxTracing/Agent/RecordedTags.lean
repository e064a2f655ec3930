import SignalFxTracing.Agent.ZipkinSerializer

/-!
# Recorded values (`ZipkinSerializer.cs`)

A span can be written exactly when each value recorded in it can be truncated:
it is not null, and the maximal length is not negative.
-/

namespace SignalFxTracing.Agent

open Clr Lib Lib.ExceptRules Trace ExtensionMethods

/-- A value that `Truncate` takes. -/
def Truncatable (maxLength : Int) (value : Option Text) : Prop :=
  value ≠ none ∧ 0 ≤ maxLength

theorem truncatable_iff {maxLength : Int} {value : Option Text} :
    Truncatable maxLength value ↔ ∃ truncated, truncate value maxLength = .ok truncated := by
  simp only [truncate_eq_ok_iff, Truncatable]
  constructor
  · rintro ⟨hvalue, hlength⟩
    obtain ⟨s, rfl⟩ := Option.ne_none_iff_exists'.mp hvalue
    exact ⟨_, hlength, s, rfl, rfl⟩
  · rintro ⟨_, hlength, s, rfl, -⟩
    exact ⟨Option.some_ne_none s, hlength⟩

section Tags

/-- What the loop of `BuildTags` makes of one entry: nothing of the kind. -/
def truncateEntry (maxLength : Int) (entry : Sigma fun _ : Text => Option Text) :
    Except StringError (Option (Text × Text)) :=
  if entry.1 = Tags.spanKind then .ok none
  else (truncate entry.2 maxLength).map fun value => some (entry.1, value)

theorem exists_truncateEntry_iff {maxLength : Int} {entry : Sigma fun _ : Text => Option Text} :
    (∃ kept, truncateEntry maxLength entry = .ok kept) ↔
      (entry.1 ≠ Tags.spanKind → Truncatable maxLength entry.2) := by
  rw [truncateEntry]
  split_ifs with hkind
  · simp [hkind]
  · rw [truncatable_iff]
    cases truncate entry.2 maxLength with
    | error e => simp [hkind, Except.map]
    | ok value => simp [Except.map]

def keep (tags : Texts) (kept : List (Option (Text × Text))) : Texts :=
  (kept.filterMap id).foldl (fun tags entry => tags.insert entry.1 (some entry.2)) tags

/-- Whether the loop raises does not depend on the tags kept before. -/
theorem foldlM_truncateEntry (maxLength : Int)
    (entries : List (Sigma fun _ : Text => Option Text)) (tags : Texts) :
    entries.foldlM (fun tags entry =>
      if entry.1 = Tags.spanKind then .ok tags
      else (truncate entry.2 maxLength).map fun value => tags.insert entry.1 (some value)) tags =
      (entries.mapM (truncateEntry maxLength)).map (keep tags) := by
  induction entries generalizing tags with
  | nil => rfl
  | cons entry rest ih =>
      rw [List.foldlM_cons, List.mapM_cons, truncateEntry]
      by_cases hkind : entry.1 = Tags.spanKind
      · rw [if_pos hkind, if_pos hkind, ok_bind, ok_bind, ih]
        cases rest.mapM (truncateEntry maxLength) with
        | error e => rfl
        | ok kept => rfl
      · rw [if_neg hkind, if_neg hkind]
        cases truncate entry.2 maxLength with
        | error e => rfl
        | ok value =>
            refine (ih (tags.insert entry.1 (some value))).trans ?_
            cases rest.mapM (truncateEntry maxLength) with
            | error e => rfl
            | ok kept => rfl

theorem truncateTags_eq (maxLength : Int) (entries : List (Sigma fun _ : Text => Option Text)) :
    truncateTags maxLength entries = (entries.mapM (truncateEntry maxLength)).map (keep ∅) :=
  foldlM_truncateEntry maxLength entries ∅

/-- Keys that are not kept have the value they had. -/
theorem lookup_keep {kept : List (Option (Text × Text))} {key : Text}
    (h : ∀ entry, some entry ∈ kept → entry.1 ≠ key) (tags : Texts) :
    (keep tags kept).lookup key = tags.lookup key := by
  rw [keep]
  have hkeys : ∀ entry ∈ kept.filterMap id, entry.1 ≠ key := by
    intro entry hmem
    exact h entry (by simpa using hmem)
  generalize kept.filterMap id = entries at hkeys
  induction entries generalizing tags with
  | nil => rfl
  | cons entry rest ih =>
      obtain ⟨hfirst, hrest⟩ := List.forall_mem_cons.mp hkeys
      rw [List.foldl_cons, ih _ hrest, AList.lookup_insert_ne hfirst.symm]

/-- The loop succeeds exactly when every entry but the kind can be truncated. -/
theorem exists_truncateTags_iff {maxLength : Int}
    {entries : List (Sigma fun _ : Text => Option Text)} :
    (∃ tags, truncateTags maxLength entries = .ok tags) ↔
      ∀ entry ∈ entries, entry.1 ≠ Tags.spanKind → Truncatable maxLength entry.2 := by
  have hentries : (∃ kept, entries.mapM (truncateEntry maxLength) = .ok kept) ↔
      ∀ entry ∈ entries, entry.1 ≠ Tags.spanKind → Truncatable maxLength entry.2 := by
    rw [exists_mapM_eq_ok_iff]
    simp only [exists_truncateEntry_iff]
  rw [← hentries, truncateTags_eq]
  cases entries.mapM (truncateEntry maxLength) with
  | error e => simp [Except.map]
  | ok kept => simp [Except.map]

/-- No kept value is null. -/
theorem lookup_keep_ne_null {tags : Texts} (h : ∀ key, tags.lookup key ≠ some none)
    (kept : List (Option (Text × Text))) (key : Text) : (keep tags kept).lookup key ≠ some none := by
  rw [keep]
  generalize kept.filterMap id = entries
  induction entries generalizing tags with
  | nil => exact h key
  | cons entry rest ih =>
      rw [List.foldl_cons]
      apply ih
      intro other
      by_cases hother : other = entry.1
      · subst hother
        simp
      · rw [AList.lookup_insert_ne hother]
        exact h other

/-- Sanitizing truncated tags does not raise. -/
theorem exists_sanitizeTags (isLetterOrOther : UInt16 → Bool) (settings : RecordingSettings)
    {entries : List (Sigma fun _ : Text => Option Text)} {tags : Texts}
    (h : truncateTags settings.recordedValueMaxLength entries = .ok tags) :
    ∃ sanitized, sanitizeTags isLetterOrOther settings tags = .ok sanitized := by
  rw [truncateTags_eq] at h
  have hnull : tags.lookup Tags.dbStatement ≠ some none := by
    cases hkept : entries.mapM (truncateEntry settings.recordedValueMaxLength) with
    | error e =>
        rw [hkept] at h
        cases h
    | ok kept =>
        rw [hkept] at h
        obtain rfl := Except.ok.inj h
        exact lookup_keep_ne_null (by simp) kept _
  rw [sanitizeTags]
  split_ifs
  · cases hstatement : tags.lookup Tags.dbStatement with
    | none => exact ⟨_, rfl⟩
    | some statement =>
        cases statement with
        | none => exact absurd hstatement hnull
        | some statement => exact ⟨_, rfl⟩
  · exact ⟨_, rfl⟩

theorem lookup_insert_eq_ite {tags : Texts} {name key : Text} {value : Option Text} :
    (tags.insert name value).lookup key = if key = name then some value else tags.lookup key := by
  split_ifs with hkey
  · rw [hkey, AList.lookup_insert]
  · exact AList.lookup_insert_ne hkey

/-- The error flag comes before the type, and the type before the resource. -/
theorem lookup_describeTags {span : RecordedSpan} {tags : Texts} (key : Text) :
    (describeTags span tags).lookup key =
      if span.error ∧ key = Tags.error then some (some (text "true"))
      else if span.type.isSome ∧ key = Tags.spanType then some span.type
      else if span.operationName ≠ span.resourceName ∧ key = Tags.resourceName then
        some span.resourceName
      else tags.lookup key := by
  rw [describeTags]
  by_cases herror : span.error = true <;> by_cases htype : span.type.isSome = true <;>
    by_cases hresource : span.operationName = span.resourceName <;>
    simp [herror, htype, hresource, lookup_insert_eq_ite]

/-- `BuildTags` raises exactly when its loop does. -/
theorem exists_buildTags_iff {isLetterOrOther : UInt16 → Bool} {settings : RecordingSettings}
    {span : RecordedSpan} :
    (∃ tags, buildTags isLetterOrOther settings span = .ok tags) ↔
      ∀ entry ∈ span.tags.entries, entry.1 ≠ Tags.spanKind →
        Truncatable settings.recordedValueMaxLength entry.2 := by
  rw [← exists_truncateTags_iff]
  constructor
  · rintro ⟨tags, h⟩
    obtain ⟨truncated, htruncated, -⟩ := bind_eq_ok_iff.mp h
    exact ⟨truncated, htruncated⟩
  · rintro ⟨truncated, htruncated⟩
    obtain ⟨sanitized, hsanitized⟩ := exists_sanitizeTags isLetterOrOther settings htruncated
    refine ⟨describeTags span sanitized, ?_⟩
    rw [buildTags, htruncated, ok_bind, hsanitized]
    rfl

theorem exists_zipkinTags_iff {isLetterOrOther : UInt16 → Bool} {settings : RecordingSettings}
    {span : RecordedSpan} :
    (∃ tags, zipkinTags isLetterOrOther settings span = .ok tags) ↔
      ∀ entry ∈ span.tags.entries, entry.1 ≠ Tags.spanKind →
        Truncatable settings.recordedValueMaxLength entry.2 := by
  rw [zipkinTags]
  split_ifs with hempty
  · simp [hempty]
  · exact exists_buildTags_iff

end Tags

section Logs

theorem exists_truncateFields_iff {maxLength : Int} {fields : Texts} :
    (∃ truncated, truncateFields maxLength fields = .ok truncated) ↔
      ∀ field ∈ fields.entries, Truncatable maxLength field.2 := by
  rw [truncateFields, exists_mapM_eq_ok_iff]
  apply forall₂_congr
  intro field _
  rw [truncatable_iff]
  cases truncate field.2 maxLength with
  | error e => simp [Except.map]
  | ok value => simp [Except.map]

theorem exists_annotations_iff {formatting : Formatting} {settings : RecordingSettings}
    {span : RecordedSpan} :
    (∃ built, annotations formatting settings span = .ok built) ↔
      ∀ log ∈ span.logEntries, ∀ field ∈ log.2.fields.entries,
        Truncatable settings.recordedValueMaxLength field.2 := by
  rw [annotations, exists_mapM_eq_ok_iff]
  apply forall₂_congr
  intro log _
  rw [← exists_truncateFields_iff, annotation]
  cases truncateFields settings.recordedValueMaxLength log.2.fields with
  | error e => simp
  | ok fields => simp [pure, Except.pure]

end Logs

section Batches

/-- Every value recorded in the span can be truncated. -/
structure Recordable (settings : RecordingSettings) (span : RecordedSpan) : Prop where
  tags : ∀ entry ∈ span.tags.entries, entry.1 ≠ Tags.spanKind →
    Truncatable settings.recordedValueMaxLength entry.2
  logs : ∀ log ∈ span.logEntries, ∀ field ∈ log.2.fields.entries,
    Truncatable settings.recordedValueMaxLength field.2

/-- The Zipkin form of one span on its own. -/
def zipkinSpan (formatting : Formatting) (settings : RecordingSettings) (span : RecordedSpan) :
    Except StringError ZipkinSpan := do
  let tags ← zipkinTags formatting.isLetterOrOther settings span
  emit formatting settings (span, tags)

/-- Building the form of the span completes exactly when its values can be truncated. -/
theorem exists_zipkinSpan_iff {formatting : Formatting} {settings : RecordingSettings}
    {span : RecordedSpan} :
    (∃ form, zipkinSpan formatting settings span = .ok form) ↔ Recordable settings span := by
  constructor
  · rintro ⟨form, h⟩
    obtain ⟨tags, htags, h⟩ := bind_eq_ok_iff.mp h
    obtain ⟨built, hbuilt, -⟩ := bind_eq_ok_iff.mp h
    exact ⟨exists_zipkinTags_iff.mp ⟨tags, htags⟩, exists_annotations_iff.mp ⟨built, hbuilt⟩⟩
  · intro h
    obtain ⟨tags, htags⟩ : ∃ tags,
        zipkinTags formatting.isLetterOrOther settings span = .ok tags :=
      exists_zipkinTags_iff.mpr h.tags
    obtain ⟨built, hbuilt⟩ : ∃ built, annotations formatting settings span = .ok built :=
      exists_annotations_iff.mpr h.logs
    refine ⟨_, bind_eq_ok_iff.mpr ⟨tags, htags, bind_eq_ok_iff.mpr ⟨built, hbuilt, rfl⟩⟩⟩

/-- `Serialize` completes with one Zipkin span for each span of the batch, in order. -/
def EmitsEach (formatting : Formatting) (settings : RecordingSettings)
    (traces : List (List RecordedSpan)) : Prop :=
  ∃ emitted, serialize formatting settings traces = .ok emitted ∧
    List.Forall₂ (fun span form => zipkinSpan formatting settings span = .ok form)
      traces.flatten emitted

/-- A batch is emitted exactly when every value of every span of it can be truncated. -/
theorem emitsEach_iff {formatting : Formatting} {settings : RecordingSettings}
    {traces : List (List RecordedSpan)} :
    EmitsEach formatting settings traces ↔
      ∀ trace ∈ traces, ∀ span ∈ trace, Recordable settings span := by
  have hserialize : ∀ emitted, serialize formatting settings traces = .ok emitted ↔
      List.Forall₂ (fun span form => zipkinSpan formatting settings span = .ok form)
        traces.flatten emitted := by
    intro emitted
    rw [serialize, mapM_mapM_eq_ok_iff, mapM_eq_ok_iff]
    apply iff_of_eq
    congr 1
    funext span form
    rw [zipkinSpan]
    cases zipkinTags formatting.isLetterOrOther settings span with
    | error e => rfl
    | ok tags => rfl
  have hflatten : (∀ trace ∈ traces, ∀ span ∈ trace, Recordable settings span) ↔
      ∀ span ∈ traces.flatten, ∃ form, zipkinSpan formatting settings span = .ok form := by
    simp only [exists_zipkinSpan_iff, List.mem_flatten]
    constructor
    · rintro h span ⟨trace, htrace, hspan⟩
      exact h trace htrace span hspan
    · intro h trace htrace span hspan
      exact h span ⟨trace, htrace, hspan⟩
  rw [hflatten, ← exists_mapM_eq_ok_iff]
  simp only [EmitsEach, hserialize, and_self, mapM_eq_ok_iff]

end Batches

end SignalFxTracing.Agent
