import SignalFxTracing.Agent.SerializedTags
import SignalFxTracing.Agent.StoredFields

/-!
# The length of recorded values (`ZipkinSerializer.cs`)

Values of tags and of logged fields are truncated on their way out. The name of
the resource, the type and the mark of an error are stored next to them as they
are.
-/

namespace SignalFxTracing.Agent

open Clr Lib Lib.ExceptRules Trace ExtensionMethods

/-- A span is constructed and its properties are read; the fields of its annotations are kept
beside them. -/
def serializeSpan (formatting : Formatting) (settings : RecordingSettings) :
    Guarded RecordedSpan StringError (ZipkinSpan × List LoggedFields) := do
  let span ← Guarded.get
  let tags ← Guarded.lift (zipkinTags formatting.isLetterOrOther settings span)
  let logged ← readAnnotations settings.recordedValueMaxLength
  pure ({
    id := toX16 span.context.spanId
    traceId := span.context.traceId.toString
    parentId := span.context.parentId.map toX16
    name := span.operationName
    kind := (span.getTag Tags.spanKind).map formatting.toUpper
    tags := tags
    annotations := logged.map fun item =>
      ⟨item.timestamp, formatting.serializeObject item.fields⟩ }, logged)

/-- The values of tags and of logged fields are at most of the maximal length. -/
structure IsBounded (maxLength : Nat) (tags : Texts) (logged : List LoggedFields) : Prop where
  tags : ∀ entry ∈ tags.entries, ∀ value, entry.2 = some value → value.length ≤ maxLength
  fields : ∀ item ∈ logged, ∀ field ∈ item.fields, field.2.length ≤ maxLength

/-- Whatever is serialized is bounded, and serializing again gives the same. -/
def BoundedAndStable (formatting : Formatting) (maxLength : Nat) (sanitize : Bool)
    (span : RecordedSpan) : Prop :=
  (∀ form logged, ((serializeSpan formatting ⟨maxLength, sanitize⟩).run span).1 =
    .ok (form, logged) → IsBounded maxLength form.tags logged) ∧
  ((serializeSpan formatting ⟨maxLength, sanitize⟩).run
    ((serializeSpan formatting ⟨maxLength, sanitize⟩).run span).2).1 =
    ((serializeSpan formatting ⟨maxLength, sanitize⟩).run span).1

/-- A resource that is recorded, the type and the mark of an error are short enough. -/
structure DescriptionFits (maxLength : Nat) (span : RecordedSpan) : Prop where
  resource : span.operationName ≠ span.resourceName →
    ∀ value, span.resourceName = some value → value.length ≤ maxLength
  type : ∀ value, span.type = some value → value.length ≤ maxLength
  error : span.error = true → (text "true").length ≤ maxLength

section Serialize

variable {formatting : Formatting} {settings : RecordingSettings}

/-- The form is the one that is built without stores. -/
theorem serializeSpan_run_fst (span : RecordedSpan) :
    ((serializeSpan formatting settings).run span).1.map Prod.fst =
      zipkinSpan formatting settings span := by
  rw [serializeSpan, Guarded.run_get_bind, zipkinSpan]
  cases zipkinTags formatting.isLetterOrOther settings span with
  | error e => rfl
  | ok tags =>
      rw [Guarded.run_lift_bind, ok_bind, emit, annotations_eq]
      cases hlogged : ((readAnnotations settings.recordedValueMaxLength).run span).1 with
      | error e => rw [Guarded.run_bind_of_error hlogged]; rfl
      | ok logged => rw [Guarded.run_bind_of_ok hlogged]; rfl

/-- What is serialized: the tags of the span, and its logged fields. -/
theorem serializeSpan_run_eq_ok {span : RecordedSpan} {form : ZipkinSpan}
    {logged : List LoggedFields}
    (h : ((serializeSpan formatting settings).run span).1 = .ok (form, logged)) :
    zipkinTags formatting.isLetterOrOther settings span = .ok form.tags ∧
      span.logEntries.mapM (loggedFields settings.recordedValueMaxLength) = .ok logged := by
  rw [serializeSpan, Guarded.run_get_bind] at h
  cases htags : zipkinTags formatting.isLetterOrOther settings span with
  | error e =>
      rw [htags] at h
      cases h
  | ok tags =>
      rw [htags, Guarded.run_lift_bind] at h
      obtain ⟨read, hread, h⟩ := Guarded.run_bind_fst_eq_ok_iff.mp h
      obtain ⟨rfl, rfl⟩ := Prod.mk.inj (Except.ok.inj h)
      rw [← readAnnotations_run_fst]
      exact ⟨rfl, hread⟩

/-- Once the tags are built, the span is left as reading its annotations leaves it. -/
theorem serializeSpan_run_snd {span : RecordedSpan} {tags : Texts}
    (h : zipkinTags formatting.isLetterOrOther settings span = .ok tags) :
    ((serializeSpan formatting settings).run span).2 =
      ((readAnnotations settings.recordedValueMaxLength).run span).2 := by
  rw [serializeSpan, Guarded.run_get_bind, h, Guarded.run_lift_bind]
  cases hlogged : ((readAnnotations settings.recordedValueMaxLength).run span).1 with
  | error e => rw [Guarded.run_bind_of_error hlogged]
  | ok logged => rw [Guarded.run_bind_of_ok hlogged]; rfl

/-- Serializing a span again gives the same. -/
theorem serializeSpan_run_again (span : RecordedSpan) :
    ((serializeSpan formatting settings).run ((serializeSpan formatting settings).run span).2).1 =
      ((serializeSpan formatting settings).run span).1 := by
  cases htags : zipkinTags formatting.isLetterOrOther settings span with
  | error e =>
      have hstate : ((serializeSpan formatting settings).run span).2 = span := by
        rw [serializeSpan, Guarded.run_get_bind, htags]
        rfl
      rw [hstate]
  | ok tags =>
      have hagain := @readAnnotations_run_again settings.recordedValueMaxLength span
      have htags' : zipkinTags formatting.isLetterOrOther settings
          ((readAnnotations settings.recordedValueMaxLength).run span).2 = .ok tags := htags
      rw [serializeSpan_run_snd htags, serializeSpan, Guarded.run_get_bind, Guarded.run_get_bind,
        htags, htags', Guarded.run_lift_bind, Guarded.run_lift_bind]
      cases hlogged : ((readAnnotations settings.recordedValueMaxLength).run span).1 with
      | error e =>
          rw [Guarded.run_bind_of_error hlogged, Guarded.run_bind_of_error (hagain.trans hlogged)]
      | ok logged =>
          rw [Guarded.run_bind_of_ok hlogged, Guarded.run_bind_of_ok (hagain.trans hlogged)]
          rfl

end Serialize

section Bounds

variable {isLetterOrOther : UInt16 → Bool} {maxLength : Nat} {sanitize : Bool}
  {span : RecordedSpan}

/-- Sanitizing a truncated statement does not make it longer. -/
theorem length_recordedValue_le (key value : Text) :
    (recordedValue isLetterOrOther ⟨maxLength, sanitize⟩ key value).length ≤ maxLength := by
  have htake : (value.take maxLength).length ≤ maxLength := by
    rw [List.length_take]
    exact min_le_left _ _
  rw [recordedValue]
  dsimp only
  split_ifs
  · exact (Regex.length_replace_le _ replacement (by decide) _ _).trans htake
  · exact htake

/-- Logged fields are truncated. -/
theorem length_loggedFields_le {log : Sigma fun _ : Int => LogRecord} {item : LoggedFields}
    (h : loggedFields maxLength log = .ok item) {field : Text × Text} (hfield : field ∈ item.fields) :
    field.2.length ≤ maxLength := by
  obtain ⟨fields, hfields, h⟩ := bind_eq_ok_iff.mp h
  obtain rfl := Except.ok.inj h
  obtain ⟨stored, -, hstored⟩ := exists_of_mem_mapM hfields hfield
  cases htruncate : truncate stored.2 maxLength with
  | error e =>
      rw [htruncate] at hstored
      cases hstored
  | ok truncated =>
      rw [htruncate] at hstored
      obtain rfl := Except.ok.inj hstored
      obtain ⟨-, s, -, rfl⟩ := truncate_eq_ok_iff.mp htruncate
      rw [Int.toNat_natCast, List.length_take]
      exact min_le_left _ _

/-- What is to be recorded is bounded when the description is. -/
theorem length_expectedTag_le (h : DescriptionFits maxLength span) {key value : Text}
    (hvalue : expectedTag isLetterOrOther ⟨maxLength, sanitize⟩ span key = some (some value)) :
    value.length ≤ maxLength := by
  rw [expectedTag] at hvalue
  split_ifs at hvalue with herror htype hresource
  · obtain rfl := Option.some.inj (Option.some.inj hvalue)
    exact h.error herror.1
  · exact h.type value (Option.some.inj hvalue)
  · exact h.resource hresource.1 value (Option.some.inj hvalue)
  · obtain ⟨stored, -, hstored⟩ := Option.map_eq_some_iff.mp hvalue
    obtain ⟨s, -, rfl⟩ := Option.map_eq_some_iff.mp hstored
    exact length_recordedValue_le key s

/-- The description is recorded next to the tags. -/
theorem descriptionFits_of_forall
    (h : ∀ key value, expectedTag isLetterOrOther ⟨maxLength, sanitize⟩ span key =
      some (some value) → value.length ≤ maxLength) : DescriptionFits maxLength span := by
  have htypeError : Tags.spanType ≠ Tags.error := by decide
  have hresourceError : Tags.resourceName ≠ Tags.error := by decide
  have hresourceType : Tags.resourceName ≠ Tags.spanType := by decide
  constructor
  · intro hresource value hvalue
    apply h Tags.resourceName
    rw [expectedTag, if_neg fun hnot => hresourceError hnot.2,
      if_neg fun hnot => hresourceType hnot.2, if_pos ⟨hresource, rfl⟩, hvalue]
  · intro value hvalue
    apply h Tags.spanType
    rw [expectedTag, if_neg fun hnot => htypeError hnot.2,
      if_pos ⟨by rw [hvalue]; rfl, rfl⟩, hvalue]
  · intro herror
    apply h Tags.error
    rw [expectedTag, if_pos ⟨herror, rfl⟩]

end Bounds

/-- Where the serialization completes, what is serialized next to tags must fit. -/
theorem descriptionFits_of_boundedAndStable {formatting : Formatting} {maxLength : Nat}
    {sanitize : Bool} {span : RecordedSpan}
    (h : BoundedAndStable formatting maxLength sanitize span)
    (hrecordable : Recordable ⟨maxLength, sanitize⟩ span) (htags : span.tags.entries ≠ []) :
    DescriptionFits maxLength span := by
  obtain ⟨form, hform⟩ : ∃ form, zipkinSpan formatting ⟨maxLength, sanitize⟩ span = .ok form :=
    exists_zipkinSpan_iff.mpr hrecordable
  rw [← serializeSpan_run_fst] at hform
  cases houtcome : ((serializeSpan formatting ⟨maxLength, sanitize⟩).run span).1 with
  | error e =>
      rw [houtcome] at hform
      cases hform
  | ok outcome =>
      obtain ⟨htags', -⟩ := serializeSpan_run_eq_ok houtcome
      rw [zipkinTags, if_neg htags] at htags'
      apply descriptionFits_of_forall
      intro key value hvalue
      rw [← lookup_buildTags htags'] at hvalue
      exact (h.1 _ _ houtcome).tags ⟨key, some value⟩ (AList.mem_lookup_iff.mp hvalue) value rfl

/-- What is serialized of a span is bounded, and the same the next time, exactly when the
serialization raises, the span has no tags, or its description is short enough. -/
theorem boundedAndStable_iff (formatting : Formatting) (maxLength : Nat) (sanitize : Bool)
    (span : RecordedSpan) :
    BoundedAndStable formatting maxLength sanitize span ↔
      (Recordable ⟨maxLength, sanitize⟩ span → span.tags.entries ≠ [] →
        DescriptionFits maxLength span) := by
  constructor
  · exact descriptionFits_of_boundedAndStable
  · intro h
    refine ⟨?_, serializeSpan_run_again span⟩
    intro form logged hform
    obtain ⟨htags, hlogged⟩ := serializeSpan_run_eq_ok hform
    constructor
    · intro entry hentry value hvalue
      rw [zipkinTags] at htags
      split_ifs at htags with hempty
      · rw [← Except.ok.inj htags] at hentry
        cases hentry
      · have hrecordable : Recordable ⟨maxLength, sanitize⟩ span := by
          apply exists_zipkinSpan_iff.mp
          refine ⟨form, ?_⟩
          rw [← serializeSpan_run_fst, hform]
          rfl
        apply length_expectedTag_le (h hrecordable hempty)
        rw [← lookup_buildTags htags, ← hvalue]
        exact AList.mem_lookup_iff.mpr hentry
    · intro item hitem field hfield
      obtain ⟨log, -, hlog⟩ := exists_of_mem_mapM hlogged hitem
      exact length_loggedFields_le hlog hfield

/-- A span with one tag and the name of a resource that is longer than the default maximum. -/
def longResource : RecordedSpan :=
  { RecordedSpan.create (SpanContext.create ⟨1, 2, 3, 4⟩ none none) 0 with
    operationName := some (text "query")
    resourceName := some (List.replicate 1201 0x61)
    tags := (∅ : Texts).insert Tags.dbStatement (some (text "SELECT 1")) }

/-- The name of the resource is serialized in its full length. -/
theorem not_boundedAndStable_longResource :
    ¬ BoundedAndStable ⟨fun _ => false, id, fun _ => []⟩ 1200 true longResource := by
  intro h
  have hrecordable : Recordable ⟨(1200 : Nat), true⟩ longResource := by
    constructor
    · intro entry hentry _
      obtain rfl := List.mem_singleton.mp hentry
      exact ⟨Option.some_ne_none _, by decide⟩
    · intro log hlog
      cases hlog
  have hfits := descriptionFits_of_boundedAndStable h hrecordable (List.cons_ne_nil _ _)
  have hle := hfits.resource (by decide) _ rfl
  rw [List.length_replicate] at hle
  exact absurd hle (by decide)

end SignalFxTracing.Agent
