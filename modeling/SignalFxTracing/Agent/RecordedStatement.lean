import SignalFxTracing.Agent.RecordedTags
import SignalFxTracing.ExtensionMethods.QuotedLiterals

/-!
# The recorded statement (`ZipkinSerializer.cs`)

`BuildTags` truncates a statement before it sanitizes it. What it records does
not depend on the texts of the closed literals, unless the truncation ends
inside one of them: what is left of that literal is no literal any more.
-/

namespace SignalFxTracing.Agent

open Clr Lib Lib.ExceptRules Trace ExtensionMethods

/-- The settings that sanitize statements. -/
def sanitizing (maxLength : Nat) : RecordingSettings := ⟨maxLength, true⟩

namespace RecordedSpan

def withStatement (span : RecordedSpan) (statement : Text) : RecordedSpan :=
  { span with tags := span.tags.insert Tags.dbStatement (some statement) }

/-- Another tag, which is truncated as well, is null. -/
def HasOtherNull (span : RecordedSpan) : Prop :=
  ∃ key, key ≠ Tags.spanKind ∧ key ≠ Tags.dbStatement ∧ span.tags.lookup key = some none

end RecordedSpan

/-- The statement among the tags that `BuildTags` returns. -/
def recordedStatement (isLetterOrOther : UInt16 → Bool) (settings : RecordingSettings)
    (span : RecordedSpan) : Except StringError (Option (Option Text)) :=
  (buildTags isLetterOrOther settings span).map fun tags => tags.lookup Tags.dbStatement

section

variable (isLetterOrOther : UInt16 → Bool) (maxLength : Nat) (span : RecordedSpan)

theorem lookup_dbStatement_describeTags (tags : Texts) :
    (describeTags span tags).lookup Tags.dbStatement = tags.lookup Tags.dbStatement := by
  have hresource : Tags.dbStatement ≠ Tags.resourceName := by decide
  have htype : Tags.dbStatement ≠ Tags.spanType := by decide
  have herror : Tags.dbStatement ≠ Tags.error := by decide
  rw [lookup_describeTags, if_neg fun h => herror h.2, if_neg fun h => htype h.2,
    if_neg fun h => hresource h.2]

/-- What the loop of `BuildTags` keeps besides the statement. -/
def othersKept : Except StringError (List (Option (Text × Text))) :=
  (span.tags.erase Tags.dbStatement).entries.mapM (truncateEntry maxLength)

variable {maxLength span} in
theorem ne_dbStatement_of_othersKept {kept : List (Option (Text × Text))}
    (h : othersKept maxLength span = .ok kept) :
    ∀ entry, some entry ∈ kept → entry.1 ≠ Tags.dbStatement := by
  intro entry hmem
  obtain ⟨original, horiginal, hkept⟩ := exists_of_mem_mapM h hmem
  have hne : original.1 ≠ Tags.dbStatement :=
    (AList.mem_erase.mp (List.mem_keys_of_mem horiginal)).1
  rw [truncateEntry] at hkept
  split_ifs at hkept
  · cases hkept
  · cases htruncate : truncate original.2 maxLength with
    | error e =>
        rw [htruncate] at hkept
        cases hkept
    | ok value =>
        rw [htruncate] at hkept
        obtain rfl := Option.some.inj (Except.ok.inj hkept)
        exact hne

/-- The recorded statement is the truncated one, sanitized. -/
theorem recordedStatement_eq (statement : Text) :
    recordedStatement isLetterOrOther (sanitizing maxLength) (span.withStatement statement) =
      (othersKept maxLength span).map fun _ =>
        some (some (sanitized isLetterOrOther none (statement.take maxLength))) := by
  have hkind : Tags.dbStatement ≠ Tags.spanKind := by decide
  have htruncate : truncate (some statement) maxLength = .ok (statement.take maxLength) :=
    truncate_eq_ok_iff.mpr ⟨Int.natCast_nonneg _, statement, rfl, by simp⟩
  have hentry : truncateEntry maxLength ⟨Tags.dbStatement, some statement⟩ =
      .ok (some (Tags.dbStatement, statement.take maxLength)) := by
    rw [truncateEntry, if_neg hkind, htruncate]
    rfl
  have hentries : (span.withStatement statement).tags.entries =
      ⟨Tags.dbStatement, some statement⟩ :: (span.tags.erase Tags.dbStatement).entries := rfl
  rw [recordedStatement, buildTags, truncateTags_eq, hentries, sanitizing, List.mapM_cons, hentry,
    ok_bind]
  change _ = Except.map _ (othersKept maxLength span)
  rw [← othersKept]
  cases hkept : othersKept maxLength span with
  | error e => rfl
  | ok kept =>
      have hlookup : (keep ∅ (some (Tags.dbStatement, statement.take maxLength) :: kept)).lookup
          Tags.dbStatement = some (some (statement.take maxLength)) := by
        refine (lookup_keep (ne_dbStatement_of_othersKept hkept) _).trans ?_
        exact AList.lookup_insert _
      rw [ok_bind]
      simp only [Except.map, pure, Except.pure, ok_bind, sanitizeTags, if_true, hlookup,
        sanitizeSqlStatement, lookup_dbStatement_describeTags, AList.lookup_insert]
      rfl

/-- The loop of `BuildTags` raises for the other tags exactly when one of them is null. -/
theorem othersKept_isError_iff :
    (∃ e, othersKept maxLength span = .error e) ↔ span.HasOtherNull := by
  have hok : (∃ kept, othersKept maxLength span = .ok kept) ↔ ¬ span.HasOtherNull := by
    rw [othersKept, exists_mapM_eq_ok_iff]
    simp only [exists_truncateEntry_iff]
    constructor
    · rintro h ⟨key, hkind, hstatement, hnull⟩
      rw [← AList.lookup_erase_ne hstatement] at hnull
      exact (h ⟨key, none⟩ (AList.mem_lookup_iff.mp hnull) hkind).1 rfl
    · intro h entry hmem hkind
      have hne : entry.1 ≠ Tags.dbStatement :=
        (AList.mem_erase.mp (List.mem_keys_of_mem hmem)).1
      refine ⟨fun hnull => h ⟨entry.1, hkind, hne, ?_⟩, Int.natCast_nonneg _⟩
      rw [← AList.lookup_erase_ne hne, ← hnull]
      exact AList.mem_lookup_iff.mpr hmem
  cases hkept : othersKept maxLength span with
  | error e => simpa [hkept] using hok
  | ok kept => simpa [hkept] using hok

/-- What `BuildTags` records of a statement does not depend on the texts of its closed
literals exactly when the truncation does not cut a literal, or when another null
tag keeps the span from being built at all. -/
theorem recordedStatement_variant_iff (statement : Text) :
    (∀ other, Variant statement other →
        recordedStatement isLetterOrOther (sanitizing maxLength) (span.withStatement other) =
          recordedStatement isLetterOrOther (sanitizing maxLength)
            (span.withStatement statement)) ↔
      span.HasOtherNull ∨ ¬ CutsLiteral maxLength statement := by
  simp only [recordedStatement_eq]
  rw [← othersKept_isError_iff maxLength,
    ← sanitized_take_iff isLetterOrOther maxLength statement none]
  cases othersKept maxLength span with
  | error e => simp [Except.map]
  | ok kept => simp [Except.map]

end

/-- The span of a query. -/
def querySpan : RecordedSpan where
  context := SpanContext.create ⟨0, 0, 1, 1⟩ none none
  operationName := some (text "query")
  resourceName := some (text "query")
  tags := ∅
  startTime := 0
  duration := 0
  error := false
  isFinished := true
  type := none
  logs := none

/-- The letters of ASCII, for the classes of the look-behind. -/
def isAsciiLetter (c : UInt16) : Bool := (0x41 ≤ c && c ≤ 0x5A) || (0x61 ≤ c && c ≤ 0x7A)

/-- Four characters of `x='abc'` end behind the quote and one letter, which is recorded. -/
theorem recordedStatement_cut :
    Variant (text "x='abc'") (text "x='def'") ∧
      recordedStatement isAsciiLetter (sanitizing 4) (querySpan.withStatement (text "x='abc'")) =
        .ok (some (some (text "x='a"))) ∧
      recordedStatement isAsciiLetter (sanitizing 4) (querySpan.withStatement (text "x='def'")) =
        .ok (some (some (text "x='d"))) := by
  have hbody : IsBody singleQuote (text "abc") :=
    .plain (by decide) (.plain (by decide) (.plain (by decide) .nil))
  have hstart : StartsWithLiteral (text "x='abc'") (text "x=") singleQuote (text "abc") [] :=
    ⟨rfl, by decide, Or.inl rfl, hbody, nofun⟩
  have hother : (text "def").length = (text "abc").length ∧ QuoteFree (text "def") :=
    ⟨rfl, by decide⟩
  exact ⟨.literal hstart (Or.inr hother) (.same []), rfl, rfl⟩

end SignalFxTracing.Agent
