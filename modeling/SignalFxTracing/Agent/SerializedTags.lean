import SignalFxTracing.Agent.SpanWrites

/-!
# The tags of a Zipkin span, key by key (`ZipkinSerializer.cs`)

What `BuildTags` stores under each key, and where the constructor of
`ZipkinSpan` differs from it for a span without tags.
-/

namespace SignalFxTracing.Agent

open Clr Lib Lib.ExceptRules Trace ExtensionMethods

/-- A value of a tag as it is recorded: truncated, and a statement then sanitized. -/
def recordedValue (isLetterOrOther : UInt16 → Bool) (settings : RecordingSettings) (key value : Text) :
    Text :=
  let truncated := value.take settings.recordedValueMaxLength.toNat
  if settings.sanitizeSqlStatements && key == Tags.dbStatement then
    Regex.replace (sqlNormalizePattern isLetterOrOther) replacement none truncated
  else truncated

/-- What is to be recorded under a key. -/
def expectedTag (isLetterOrOther : UInt16 → Bool) (settings : RecordingSettings)
    (span : RecordedSpan) (key : Text) : Option (Option Text) :=
  if span.error ∧ key = Tags.error then some (some (text "true"))
  else if span.type.isSome ∧ key = Tags.spanType then some span.type
  else if span.operationName ≠ span.resourceName ∧ key = Tags.resourceName then
    some span.resourceName
  else if key = Tags.spanKind then none
  else (span.tags.lookup key).map fun value =>
    value.map (recordedValue isLetterOrOther settings key)

/-- The span is constructed with exactly the tags that are to be recorded. -/
def HasExpectedTags (isLetterOrOther : UInt16 → Bool) (settings : RecordingSettings)
    (span : RecordedSpan) : Prop :=
  ∃ tags, zipkinTags isLetterOrOther settings span = .ok tags ∧
    ∀ key, tags.lookup key = expectedTag isLetterOrOther settings span key

/-- There is nothing to record for the error flag, the type and the resource. -/
def IsPlain (span : RecordedSpan) : Prop :=
  span.error = false ∧ span.type = none ∧ span.operationName = span.resourceName

section Lookup

variable {isLetterOrOther : UInt16 → Bool} {settings : RecordingSettings}

/-- The loop keeps every entry but the kind, truncated, over what was there before. -/
theorem lookup_foldlM_truncate {maxLength : Int}
    {entries : List (Sigma fun _ : Text => Option Text)} (hnodup : entries.NodupKeys)
    {before after : Texts}
    (h : entries.foldlM (fun tags entry =>
      if entry.1 = Tags.spanKind then .ok tags
      else (truncate entry.2 maxLength).map fun value => tags.insert entry.1 (some value))
        before = .ok after) (key : Text) :
    after.lookup key =
      (if key = Tags.spanKind then none
        else (entries.dlookup key).map fun value => value.map (List.take maxLength.toNat)).or
        (before.lookup key) := by
  induction entries generalizing before with
  | nil =>
      obtain rfl := Except.ok.inj h
      split_ifs <;> rfl
  | cons entry rest ih =>
      obtain ⟨name, value⟩ := entry
      obtain ⟨hname, hrest⟩ := List.nodupKeys_cons.mp hnodup
      rw [List.foldlM_cons] at h
      obtain ⟨middle, hmiddle, h⟩ := bind_eq_ok_iff.mp h
      rw [ih hrest h]
      dsimp only at hmiddle
      split_ifs at hmiddle with hkind
      · obtain rfl := Except.ok.inj hmiddle
        split_ifs with hkey
        · rfl
        · rw [List.dlookup_cons_ne _ _ (fun heq => hkey (heq.trans hkind))]
      · cases htruncate : truncate value maxLength with
        | error e =>
            rw [htruncate] at hmiddle
            cases hmiddle
        | ok truncated =>
            rw [htruncate] at hmiddle
            obtain rfl := Except.ok.inj hmiddle
            obtain ⟨-, s, rfl, rfl⟩ := truncate_eq_ok_iff.mp htruncate
            by_cases hkey : key = name
            · subst hkey
              rw [if_neg hkind, if_neg hkind, List.dlookup_eq_none.mpr hname, List.dlookup_cons_eq,
                AList.lookup_insert]
              rfl
            · rw [AList.lookup_insert_ne hkey, List.dlookup_cons_ne _ _ hkey]

theorem lookup_truncateTags {maxLength : Int} {span : RecordedSpan} {tags : Texts}
    (h : truncateTags maxLength span.tags.entries = .ok tags) (key : Text) :
    tags.lookup key = if key = Tags.spanKind then none
      else (span.tags.lookup key).map fun value => value.map (List.take maxLength.toNat) := by
  rw [lookup_foldlM_truncate span.tags.nodupKeys h, AList.lookup_empty, Option.or_none]
  rfl

/-- Only the statement is sanitized. -/
theorem lookup_sanitizeTags {tags sanitized : Texts}
    (h : sanitizeTags isLetterOrOther settings tags = .ok sanitized) (key : Text) :
    sanitized.lookup key = (tags.lookup key).map fun value => value.map fun s =>
      if settings.sanitizeSqlStatements && key == Tags.dbStatement then
        Regex.replace (sqlNormalizePattern isLetterOrOther) replacement none s
      else s := by
  rw [sanitizeTags] at h
  split_ifs at h with hsanitize
  · by_cases hkey : key = Tags.dbStatement
    · subst hkey
      rw [hsanitize, beq_self_eq_true]
      cases hstatement : tags.lookup Tags.dbStatement with
      | none =>
          rw [hstatement] at h
          obtain rfl := Except.ok.inj h
          exact hstatement
      | some statement =>
          rw [hstatement] at h
          cases statement with
          | none => cases h
          | some statement =>
              obtain rfl := Except.ok.inj h
              exact AList.lookup_insert _
    · have hlookup : sanitized.lookup key = tags.lookup key := by
        cases hstatement : tags.lookup Tags.dbStatement with
        | none =>
            rw [hstatement] at h
            obtain rfl := Except.ok.inj h
            rfl
        | some statement =>
            rw [hstatement] at h
            cases statement with
            | none => cases h
            | some statement =>
                obtain rfl := Except.ok.inj h
                exact AList.lookup_insert_ne hkey
      simp [hlookup, hkey]
  · obtain rfl := Except.ok.inj h
    simp [hsanitize]

/-- `BuildTags` records what is to be recorded. -/
theorem lookup_buildTags {span : RecordedSpan} {tags : Texts}
    (h : buildTags isLetterOrOther settings span = .ok tags) (key : Text) :
    tags.lookup key = expectedTag isLetterOrOther settings span key := by
  obtain ⟨truncated, htruncated, h⟩ := bind_eq_ok_iff.mp h
  obtain ⟨sanitized, hsanitized, h⟩ := bind_eq_ok_iff.mp h
  obtain rfl := Except.ok.inj h
  rw [lookup_describeTags, lookup_sanitizeTags hsanitized, lookup_truncateTags htruncated,
    expectedTag]
  by_cases hkind : key = Tags.spanKind
  · simp only [hkind, if_true, Option.map_none]
  · simp only [hkind, if_false, Option.map_map, Function.comp_def]
    rfl

end Lookup

section Tagless

variable {isLetterOrOther : UInt16 → Bool} {settings : RecordingSettings} {span : RecordedSpan}

/-- Nothing is to be recorded for a span without tags exactly when it is plain. -/
theorem forall_expectedTag_eq_none_iff (hempty : span.tags.entries = []) :
    (∀ key, expectedTag isLetterOrOther settings span key = none) ↔ IsPlain span := by
  have hlookup : ∀ key, span.tags.lookup key = none := by
    intro key
    change span.tags.entries.dlookup key = none
    rw [hempty]
    rfl
  constructor
  · intro h
    have herror : span.error = false := by
      by_contra herror
      have hexpected := h Tags.error
      rw [expectedTag, if_pos ⟨Bool.not_eq_false _ |>.mp herror, rfl⟩] at hexpected
      cases hexpected
    have htype : span.type = none := by
      by_contra htype
      have hexpected := h Tags.spanType
      rw [expectedTag, herror, if_neg (fun hnot => Bool.false_ne_true hnot.1),
        if_pos ⟨Option.isSome_iff_ne_none.mpr htype, rfl⟩] at hexpected
      cases hexpected
    refine ⟨herror, htype, ?_⟩
    by_contra hresource
    have hexpected := h Tags.resourceName
    rw [expectedTag, herror, htype, if_neg (fun hnot => Bool.false_ne_true hnot.1),
      if_neg (fun hnot => Bool.false_ne_true hnot.1), if_pos ⟨hresource, rfl⟩] at hexpected
    cases hexpected
  · rintro ⟨herror, htype, hresource⟩ key
    simp [expectedTag, herror, htype, hresource, hlookup]

end Tagless

/-- The tags of a Zipkin span are those that are to be recorded exactly when every value but that
of the kind can be truncated, and the span has a tag or nothing else to record. -/
theorem hasExpectedTags_iff (isLetterOrOther : UInt16 → Bool) (settings : RecordingSettings)
    (span : RecordedSpan) :
    HasExpectedTags isLetterOrOther settings span ↔
      (∀ entry ∈ span.tags.entries, entry.1 ≠ Tags.spanKind →
        Truncatable settings.recordedValueMaxLength entry.2) ∧
      (span.tags.entries = [] → IsPlain span) := by
  constructor
  · rintro ⟨tags, htags, hlookup⟩
    refine ⟨exists_zipkinTags_iff.mp ⟨tags, htags⟩, ?_⟩
    intro hempty
    rw [zipkinTags, if_pos hempty] at htags
    obtain rfl := Except.ok.inj htags
    apply (forall_expectedTag_eq_none_iff hempty).mp
    intro key
    rw [← hlookup, AList.lookup_empty]
  · rintro ⟨htruncatable, hplain⟩
    obtain ⟨tags, htags⟩ : ∃ tags, zipkinTags isLetterOrOther settings span = .ok tags :=
      exists_zipkinTags_iff.mpr htruncatable
    refine ⟨tags, htags, ?_⟩
    intro key
    rw [zipkinTags] at htags
    split_ifs at htags with hempty
    · obtain rfl := Except.ok.inj htags
      rw [AList.lookup_empty]
      exact ((forall_expectedTag_eq_none_iff hempty).mpr (hplain hempty) key).symm
    · exact lookup_buildTags htags key

/-- A span without tags that failed. -/
def taglessFailure : RecordedSpan :=
  { RecordedSpan.create (SpanContext.create ⟨1, 2, 3, 4⟩ none none) 0 with
    error := true
    isFinished := true }

/-- The error of a span without tags is not recorded. -/
theorem not_hasExpectedTags_taglessFailure :
    ¬ HasExpectedTags (fun _ => false) ⟨1200, true⟩ taglessFailure := by
  rintro ⟨tags, htags, hlookup⟩
  have hempty : taglessFailure.tags.entries = [] := rfl
  rw [zipkinTags, if_pos hempty] at htags
  obtain rfl := Except.ok.inj htags
  have herror := hlookup Tags.error
  rw [AList.lookup_empty, expectedTag, if_pos ⟨rfl, rfl⟩] at herror
  cases herror

end SignalFxTracing.Agent
