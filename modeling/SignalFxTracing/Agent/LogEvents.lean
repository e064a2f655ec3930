import SignalFxTracing.Agent.SpanTimes

/-!
# Log events and annotations (`Span.cs`, `ZipkinSerializer.cs`)

`Log` converts the fields before it stores them under the instant of the event:
a call can fail, and an event takes the place of one at the same instant. An
annotation is made of each entry that is left.
-/

namespace SignalFxTracing.Agent

open Clr Lib Lib.ExceptRules Trace ExtensionMethods

/-- What is written for a logged field: its key, and the text of its value, truncated. -/
def WrittenAs (maxLength : Int) (field : Option Text × LoggedValue) (written : Text × Text) :
    Prop :=
  ∃ value, field = (some written.1, .shown (some value)) ∧
    truncate (some value) maxLength = .ok written.2

namespace LogCall

/-- The call returns, if the span is not finished. -/
def Succeeds (call : LogCall) : Prop :=
  ∀ fields, call.fields = some fields → (toDictionary fields).isSome = true

/-- The annotation `a` has the timestamp of the call and all of its fields, in some order. -/
def IsCarriedBy (formatting : Formatting) (maxLength : Int) (call : LogCall)
    (a : Annotation) : Prop :=
  a.timestamp = toUnixTimeMicroseconds call.timestamp.ticks ∧
    ∃ fields written ordered, call.fields = some fields ∧
      List.Forall₂ (WrittenAs maxLength) fields written ∧ ordered.Perm written ∧
      a.value = formatting.serializeObject ordered

/-- There is a list of fields, its keys are distinct and none is null, and each value has a text
that can be truncated. -/
def IsComplete (maxLength : Int) (call : LogCall) : Prop :=
  ∃ fields, call.fields = some fields ∧ (fields.map Prod.fst).Nodup ∧
    ∀ field ∈ fields, 0 ≤ maxLength ∧ ∃ key value, field = (some key, .shown (some value))

end LogCall

/-- Every call returns, and the serialized span has one annotation more for each call. -/
structure NoEventLost (formatting : Formatting) (settings : RecordingSettings)
    (span : RecordedSpan) (calls : List LogCall) : Prop where
  succeed : ∀ call ∈ calls, call.Succeeds
  annotations : ∃ form kept added,
    zipkinSpan formatting settings (calls.foldl LogCall.perform span) = .ok form ∧
    annotations formatting settings span = .ok kept ∧ form.annotations.Perm (kept ++ added) ∧
    List.Forall₂ (LogCall.IsCarriedBy formatting settings.recordedValueMaxLength) calls added

section Dictionaries

/-- The entry that is stored for a field. -/
def StoredAs (field : Option Text × LoggedValue) (entry : Sigma fun _ : Text => Option Text) :
    Prop :=
  field = (some entry.1, .shown entry.2)

/-- The entries of the fields are added, last first. -/
theorem entries_foldlM_addField {fields : List (Option Text × LoggedValue)}
    {loggedFields after : Texts} (h : fields.foldlM addField loggedFields = some after) :
    ∃ entries, List.Forall₂ StoredAs fields entries ∧
      after.entries = entries.reverse ++ loggedFields.entries := by
  induction fields generalizing loggedFields with
  | nil =>
      obtain rfl := Option.some.inj h
      exact ⟨[], .nil, rfl⟩
  | cons field rest ih =>
      rw [List.foldlM_cons] at h
      obtain ⟨middle, hmiddle, h⟩ := Option.bind_eq_some_iff.mp h
      obtain ⟨key, value, rfl, hkey, rfl⟩ := addField_eq_some_iff.mp hmiddle
      obtain ⟨entries, hentries, hafter⟩ := ih h
      refine ⟨⟨key, value⟩ :: entries, .cons rfl hentries, ?_⟩
      rw [hafter, AList.entries_insert_of_notMem hkey, List.reverse_cons, List.append_assoc]
      rfl

theorem entries_toDictionary {fields : List (Option Text × LoggedValue)} {loggedFields : Texts}
    (h : toDictionary fields = some loggedFields) :
    List.Forall₂ StoredAs fields loggedFields.entries.reverse := by
  obtain ⟨entries, hentries, hafter⟩ := entries_foldlM_addField h
  rw [hafter, AList.empty_entries, List.append_nil, List.reverse_reverse]
  exact hentries

/-- The fields are converted when they have texts and the keys are new and distinct. -/
theorem isSome_foldlM_addField {fields : List (Option Text × LoggedValue)} {loggedFields : Texts}
    (hnodup : (fields.map Prod.fst).Nodup)
    (h : ∀ field ∈ fields, ∃ key value, field = (some key, .shown value) ∧ key ∉ loggedFields) :
    (fields.foldlM addField loggedFields).isSome = true := by
  induction fields generalizing loggedFields with
  | nil => rfl
  | cons field rest ih =>
      obtain ⟨key, value, rfl, hkey⟩ := h field List.mem_cons_self
      have hfirst : addField loggedFields (some key, .shown value) =
          some (loggedFields.insert key value) :=
        addField_eq_some_iff.mpr ⟨key, value, rfl, hkey, rfl⟩
      obtain ⟨hnotMem, hnodup⟩ := List.nodup_cons.mp hnodup
      rw [List.foldlM_cons, hfirst]
      apply ih hnodup
      intro other hother
      obtain ⟨otherKey, otherValue, rfl, hotherKey⟩ := h other (List.mem_cons_of_mem _ hother)
      refine ⟨otherKey, otherValue, rfl, ?_⟩
      rw [AList.mem_insert, not_or]
      refine ⟨?_, hotherKey⟩
      rintro rfl
      exact hnotMem (List.mem_map.mpr ⟨_, hother, rfl⟩)

theorem isSome_toDictionary {fields : List (Option Text × LoggedValue)}
    (hnodup : (fields.map Prod.fst).Nodup)
    (h : ∀ field ∈ fields, ∃ key value, field = (some key, .shown value)) :
    (toDictionary fields).isSome = true := by
  apply isSome_foldlM_addField hnodup
  intro field hfield
  obtain ⟨key, value, rfl⟩ := h field hfield
  exact ⟨key, value, rfl, AList.notMem_empty key⟩

theorem keys_of_storedAs {fields : List (Option Text × LoggedValue)}
    {entries : List (Sigma fun _ : Text => Option Text)} (h : List.Forall₂ StoredAs fields entries) :
    fields.map Prod.fst = (entries.map Sigma.fst).map some := by
  induction h with
  | nil => rfl
  | cons hstored _ ih => rw [List.map_cons, List.map_cons, List.map_cons, ih, hstored]

theorem mem_of_storedAs {fields : List (Option Text × LoggedValue)}
    {entries : List (Sigma fun _ : Text => Option Text)} (h : List.Forall₂ StoredAs fields entries)
    {entry : Sigma fun _ : Text => Option Text} (hentry : entry ∈ entries) :
    (some entry.1, .shown entry.2) ∈ fields := by
  induction h with
  | nil => cases hentry
  | cons hstored _ ih =>
      rcases List.mem_cons.mp hentry with rfl | hentry
      · exact hstored ▸ List.mem_cons_self
      · exact List.mem_cons_of_mem _ (ih hentry)

/-- The keys of fields that are converted are distinct. -/
theorem nodup_of_toDictionary {fields : List (Option Text × LoggedValue)} {loggedFields : Texts}
    (h : toDictionary fields = some loggedFields) : (fields.map Prod.fst).Nodup := by
  rw [keys_of_storedAs (entries_toDictionary h)]
  apply List.Nodup.map (Option.some_injective _)
  rw [List.map_reverse, List.nodup_reverse]
  exact loggedFields.nodupKeys

end Dictionaries

section Calls

variable {formatting : Formatting} {settings : RecordingSettings} {maxLength : Int}
  {span : RecordedSpan} {call : LogCall}

theorem perform_eq_putLog (hspan : span.isFinished = false) {loggedFields : Texts}
    (h : call.fields.bind toDictionary = some loggedFields) :
    call.perform span =
      span.putLog call.timestamp.utcTicks call.timestamp.offset loggedFields := by
  rw [LogCall.perform, RecordedSpan.log, hspan, if_neg Bool.false_ne_true, h]
  rfl

theorem perform_of_not_recorded (h : call.isRecorded = false) : call.perform span = span := by
  rw [LogCall.isRecorded, Option.isSome_eq_false_iff, Option.isNone_iff_eq_none] at h
  rw [LogCall.perform, RecordedSpan.log, h]
  split_ifs <;> rfl

theorem isFinished_perform : (call.perform span).isFinished = span.isFinished :=
  congrArg Span.isFinished (toSpan_perform span call)

theorem recordAt_eq_none_iff {utcTicks : Int} :
    span.recordAt utcTicks = none ↔ utcTicks ∉ span.logs.getD ∅ :=
  AList.lookup_eq_none

theorem logEntries_eq (span : RecordedSpan) : span.logEntries = (span.logs.getD ∅).entries := by
  rw [RecordedSpan.logEntries]
  cases span.logs <;> rfl

/-- An event at a new instant is one entry more. -/
theorem logEntries_putLog {timestamp : Int} (h : span.recordAt timestamp = none) (offset : Int)
    (loggedFields : Texts) :
    (span.putLog timestamp offset loggedFields).logEntries =
      ⟨timestamp, offset, loggedFields⟩ :: span.logEntries := by
  have hoffset : ((span.logs.getD ∅).lookup timestamp).elim offset LogRecord.offset = offset := by
    have hlookup : (span.logs.getD ∅).lookup timestamp = none := h
    rw [hlookup]
    rfl
  rw [logEntries_eq, logEntries_eq, RecordedSpan.putLog]
  dsimp only
  rw [hoffset, Option.getD_some,
    AList.entries_insert_of_notMem (recordAt_eq_none_iff.mp h)]

/-- An event at an instant that is present is no entry more. -/
theorem length_logEntries_putLog {timestamp : Int} (h : span.recordAt timestamp ≠ none)
    (offset : Int) (loggedFields : Texts) :
    (span.putLog timestamp offset loggedFields).logEntries.length = span.logEntries.length := by
  have hmem : timestamp ∈ (span.logs.getD ∅).keys := by
    by_contra hnotMem
    exact h (recordAt_eq_none_iff.mpr hnotMem)
  have hkeys : ∀ logs : AList fun _ : Int => LogRecord, logs.entries.length = logs.keys.length :=
    fun logs => (List.length_map Sigma.fst).symm
  have hpos := List.length_pos_of_mem hmem
  rw [logEntries_eq, logEntries_eq, RecordedSpan.putLog]
  dsimp only
  rw [Option.getD_some, hkeys, hkeys, AList.keys_insert, List.length_cons,
    List.length_erase_of_mem hmem]
  omega

/-- A call is one entry more exactly when its fields are stored and its instant is new. -/
theorem length_logEntries_perform (hspan : span.isFinished = false) :
    (call.perform span).logEntries.length = span.logEntries.length +
      if call.isRecorded = true ∧ span.recordAt call.timestamp.utcTicks = none then 1 else 0 := by
  cases hrecorded : call.isRecorded with
  | false => rw [perform_of_not_recorded hrecorded, if_neg (fun h => Bool.false_ne_true h.1)]; rfl
  | true =>
      obtain ⟨loggedFields, hfields⟩ := Option.isSome_iff_exists.mp hrecorded
      rw [perform_eq_putLog hspan hfields]
      by_cases hnew : span.recordAt call.timestamp.utcTicks = none
      · rw [logEntries_putLog hnew, if_pos ⟨rfl, hnew⟩]
        rfl
      · rw [length_logEntries_putLog hnew, if_neg (fun h => hnew h.2)]
        rfl

theorem recordAt_perform_eq_none_iff (hspan : span.isFinished = false)
    (hrecorded : call.isRecorded = true) {utcTicks : Int} :
    (call.perform span).recordAt utcTicks = none ↔
      utcTicks ≠ call.timestamp.utcTicks ∧ span.recordAt utcTicks = none := by
  obtain ⟨loggedFields, hfields⟩ := Option.isSome_iff_exists.mp hrecorded
  rw [perform_eq_putLog hspan hfields, recordAt_putLog]
  split_ifs with hsame
  · simp [hsame]
  · simp [hsame]

/-- The events have instants of their own. -/
def ApartFrom (span : RecordedSpan) (calls : List LogCall) : Prop :=
  (calls.map fun call => call.timestamp.utcTicks).Nodup ∧
    ∀ call ∈ calls, span.recordAt call.timestamp.utcTicks = none

theorem apartFrom_cons_iff (hspan : span.isFinished = false)
    (hrecorded : call.isRecorded = true) {rest : List LogCall} :
    ApartFrom span (call :: rest) ↔
      span.recordAt call.timestamp.utcTicks = none ∧ ApartFrom (call.perform span) rest := by
  simp only [ApartFrom, List.map_cons, List.nodup_cons, List.mem_map, List.forall_mem_cons,
    recordAt_perform_eq_none_iff hspan hrecorded, not_exists, not_and]
  constructor
  · rintro ⟨⟨hother, hnodup⟩, hnew, hrest⟩
    exact ⟨hnew, hnodup, fun other hmem => ⟨hother other hmem, hrest other hmem⟩⟩
  · rintro ⟨hnew, hnodup, hrest⟩
    exact ⟨⟨fun other hmem => (hrest other hmem).1, hnodup⟩, hnew,
      fun other hmem => (hrest other hmem).2⟩

theorem length_logEntries_foldl_le (hspan : span.isFinished = false) (calls : List LogCall) :
    (calls.foldl LogCall.perform span).logEntries.length ≤
      span.logEntries.length + calls.length := by
  induction calls generalizing span with
  | nil => exact Nat.le_refl _
  | cons call rest ih =>
      have hrest := ih (isFinished_perform.trans hspan : (call.perform span).isFinished = false)
      have hfirst := @length_logEntries_perform span call hspan
      rw [List.foldl_cons, List.length_cons]
      split_ifs at hfirst <;> omega

/-- The calls are as many entries exactly when all are recorded at instants of their own. -/
theorem length_logEntries_foldl_eq_iff (hspan : span.isFinished = false) (calls : List LogCall) :
    (calls.foldl LogCall.perform span).logEntries.length =
        span.logEntries.length + calls.length ↔
      (∀ call ∈ calls, call.isRecorded = true) ∧ ApartFrom span calls := by
  induction calls generalizing span with
  | nil => simp [ApartFrom]
  | cons call rest ih =>
      have hafter : (call.perform span).isFinished = false := isFinished_perform.trans hspan
      have hle := length_logEntries_foldl_le hafter rest
      have hfirst := @length_logEntries_perform span call hspan
      have hrest := ih hafter
      rw [List.foldl_cons, List.length_cons, List.forall_mem_cons]
      constructor
      · intro hlength
        have hcall : call.isRecorded = true ∧
            span.recordAt call.timestamp.utcTicks = none := by
          by_contra hnot
          rw [if_neg hnot] at hfirst
          omega
        rw [if_pos hcall] at hfirst
        obtain ⟨hrecorded, hapart⟩ := hrest.mp (by omega)
        exact ⟨⟨hcall.1, hrecorded⟩, (apartFrom_cons_iff hspan hcall.1).mpr ⟨hcall.2, hapart⟩⟩
      · rintro ⟨⟨hcall, hrecorded⟩, hapart⟩
        obtain ⟨hnew, hapart⟩ := (apartFrom_cons_iff hspan hcall).mp hapart
        have hlength := hrest.mpr ⟨hrecorded, hapart⟩
        rw [if_pos ⟨hcall, hnew⟩] at hfirst
        omega

end Calls

section Complete

variable {formatting : Formatting} {settings : RecordingSettings} {maxLength : Int}
  {span : RecordedSpan} {call : LogCall}

/-- Complete fields are stored, and can be truncated. -/
theorem LogCall.IsComplete.exists_toDictionary (h : call.IsComplete maxLength) :
    ∃ fields loggedFields, call.fields = some fields ∧
      toDictionary fields = some loggedFields ∧
      ∃ written, truncateFields maxLength loggedFields = .ok written := by
  obtain ⟨fields, hfields, hnodup, hshown⟩ := h
  have hsome : (toDictionary fields).isSome = true := by
    apply isSome_toDictionary hnodup
    intro field hfield
    obtain ⟨-, key, value, rfl⟩ := hshown field hfield
    exact ⟨key, some value, rfl⟩
  obtain ⟨loggedFields, hlogged⟩ := Option.isSome_iff_exists.mp hsome
  refine ⟨fields, loggedFields, hfields, hlogged, exists_truncateFields_iff.mpr ?_⟩
  intro entry hentry
  obtain ⟨hlength, key, value, hvalue⟩ := hshown _
    (mem_of_storedAs (entries_toDictionary hlogged) (List.mem_reverse.mpr hentry))
  obtain ⟨-, hshown⟩ := Prod.mk.inj hvalue
  rw [LoggedValue.shown.inj hshown]
  exact ⟨Option.some_ne_none value, hlength⟩

theorem LogCall.IsComplete.isRecorded (h : call.IsComplete maxLength) :
    call.isRecorded = true := by
  obtain ⟨fields, loggedFields, hfields, hlogged, -⟩ := h.exists_toDictionary
  rw [LogCall.isRecorded, hfields, Option.bind_some, hlogged]
  rfl

theorem LogCall.IsComplete.succeeds (h : call.IsComplete maxLength) : call.Succeeds := by
  obtain ⟨fields, loggedFields, hfields, hlogged, -⟩ := h.exists_toDictionary
  intro other hother
  obtain rfl := Option.some.inj (hfields.symm.trans hother)
  rw [hlogged]
  rfl

/-- The truncated entries of a dictionary are what is written for the fields. -/
theorem writtenAs_of_truncateFields {fields : List (Option Text × LoggedValue)}
    {loggedFields : Texts} {written : List (Text × Text)}
    (h : toDictionary fields = some loggedFields)
    (hwritten : truncateFields maxLength loggedFields = .ok written) :
    List.Forall₂ (WrittenAs maxLength) fields written.reverse := by
  have hstored := entries_toDictionary h
  have htruncated := List.rel_reverse (mapM_eq_ok_iff.mp hwritten)
  generalize loggedFields.entries.reverse = entries at hstored htruncated
  generalize written.reverse = texts at htruncated
  clear h hwritten
  induction hstored generalizing texts with
  | nil =>
      rw [List.forall₂_nil_left_iff] at htruncated
      exact htruncated ▸ .nil
  | @cons field entry _ _ hfield _ ih =>
      obtain ⟨text, others, htext, hothers, rfl⟩ := List.forall₂_cons_left_iff.mp htruncated
      refine .cons ?_ (ih others hothers)
      obtain ⟨value, hvalue, rfl⟩ : ∃ value, truncate entry.2 maxLength = .ok value ∧
          (entry.1, value) = text := by
        cases htruncate : truncate entry.2 maxLength with
        | error e => rw [htruncate] at htext; cases htext
        | ok value => rw [htruncate] at htext; exact ⟨value, rfl, Except.ok.inj htext⟩
      obtain ⟨-, shown, hshown, -⟩ := truncate_eq_ok_iff.mp hvalue
      refine ⟨shown, ?_, hshown ▸ hvalue⟩
      rw [hfield, hshown]

/-- A complete event at a new instant is one annotation more, which carries it. -/
theorem exists_annotations_perform (hspan : span.isFinished = false)
    (hcall : call.IsComplete settings.recordedValueMaxLength)
    (hnew : span.recordAt call.timestamp.utcTicks = none) {kept : List Annotation}
    (hkept : annotations formatting settings span = .ok kept) :
    ∃ added, annotations formatting settings (call.perform span) = .ok (added :: kept) ∧
      call.IsCarriedBy formatting settings.recordedValueMaxLength added := by
  obtain ⟨fields, loggedFields, hfields, hlogged, written, hwritten⟩ := hcall.exists_toDictionary
  have hbind : call.fields.bind toDictionary = some loggedFields := by
    rw [hfields, Option.bind_some, hlogged]
  refine ⟨⟨toUnixTimeMicroseconds call.timestamp.ticks, formatting.serializeObject written⟩, ?_, ?_⟩
  · rw [annotations, perform_eq_putLog hspan hbind, logEntries_putLog hnew, List.mapM_cons,
      annotation]
    rw [annotations] at hkept
    dsimp only
    rw [hwritten, hkept]
    rfl
  · exact ⟨rfl, fields, written.reverse, written, hfields,
      writtenAs_of_truncateFields hlogged hwritten, (List.reverse_perm written).symm, rfl⟩

/-- Complete events at instants of their own are one annotation each. -/
theorem exists_annotations_foldl (hspan : span.isFinished = false) {calls : List LogCall}
    (hcalls : ∀ call ∈ calls, call.IsComplete settings.recordedValueMaxLength)
    (hapart : ApartFrom span calls) {kept : List Annotation}
    (hkept : annotations formatting settings span = .ok kept) :
    ∃ built added, annotations formatting settings (calls.foldl LogCall.perform span) = .ok built ∧
      built.Perm (kept ++ added) ∧
      List.Forall₂ (LogCall.IsCarriedBy formatting settings.recordedValueMaxLength) calls added := by
  induction calls generalizing span kept with
  | nil => exact ⟨kept, [], hkept, by rw [List.append_nil], .nil⟩
  | cons call rest ih =>
      obtain ⟨hcall, hrest⟩ := List.forall_mem_cons.mp hcalls
      obtain ⟨hnew, hapart⟩ := (apartFrom_cons_iff hspan hcall.isRecorded).mp hapart
      obtain ⟨first, hfirst, hcarried⟩ := exists_annotations_perform hspan hcall hnew hkept
      obtain ⟨built, added, hbuilt, hperm, hadded⟩ :=
        ih (isFinished_perform.trans hspan) hrest hapart hfirst
      refine ⟨built, first :: added, hbuilt, ?_, .cons hcarried hadded⟩
      exact hperm.trans List.perm_middle.symm

/-- An event that is carried was complete, if its fields were stored. -/
theorem LogCall.IsCarriedBy.isComplete {a : Annotation}
    (h : call.IsCarriedBy formatting maxLength a) (hrecorded : call.isRecorded = true) :
    call.IsComplete maxLength := by
  obtain ⟨-, fields, written, -, hfields, hwritten, -⟩ := h
  obtain ⟨loggedFields, hlogged⟩ := Option.isSome_iff_exists.mp hrecorded
  rw [hfields, Option.bind_some] at hlogged
  refine ⟨fields, hfields, nodup_of_toDictionary hlogged, ?_⟩
  clear hlogged hfields
  induction hwritten with
  | nil => exact List.forall_mem_nil _
  | cons hfield _ ih =>
      obtain ⟨value, hfield, htruncate⟩ := hfield
      exact List.forall_mem_cons.mpr ⟨⟨(truncate_eq_ok_iff.mp htruncate).1, _, value, hfield⟩, ih⟩

theorem isComplete_of_isCarriedBy {calls : List LogCall} {added : List Annotation}
    (h : List.Forall₂ (LogCall.IsCarriedBy formatting maxLength) calls added)
    (hrecorded : ∀ call ∈ calls, call.isRecorded = true) :
    ∀ call ∈ calls, call.IsComplete maxLength := by
  induction h with
  | nil => exact List.forall_mem_nil _
  | cons hcall _ ih =>
      obtain ⟨hfirst, hrest⟩ := List.forall_mem_cons.mp hrecorded
      exact List.forall_mem_cons.mpr ⟨hcall.isComplete hfirst, ih hrest⟩

end Complete

section Lost

variable {formatting : Formatting} {settings : RecordingSettings} {span : RecordedSpan}
  {calls : List LogCall}

theorem length_annotations {built : List Annotation}
    (h : annotations formatting settings span = .ok built) :
    built.length = span.logEntries.length :=
  (mapM_eq_ok_iff.mp h).length_eq.symm

theorem tags_foldl : (calls.foldl LogCall.perform span).tags = span.tags :=
  congrArg Span.tags (toSpan_foldl span calls)

/-- No event is lost only if the span can be recorded and the events are complete and have
instants of their own. -/
theorem NoEventLost.complete (hspan : span.isFinished = false)
    (h : NoEventLost formatting settings span calls) :
    Recordable settings span ∧
      (∀ call ∈ calls, call.IsComplete settings.recordedValueMaxLength) ∧
      ApartFrom span calls := by
  obtain ⟨form, kept, added, hform, hkept, hperm, hcarried⟩ := h.annotations
  obtain ⟨tags, -, hemit⟩ := bind_eq_ok_iff.mp hform
  obtain ⟨built, hbuilt, hemit⟩ := bind_eq_ok_iff.mp hemit
  obtain rfl : _ = form := Except.ok.inj hemit
  have hlength : (calls.foldl LogCall.perform span).logEntries.length =
      span.logEntries.length + calls.length := by
    calc
      _ = built.length := (length_annotations hbuilt).symm
      _ = (kept ++ added).length := hperm.length_eq
      _ = span.logEntries.length + calls.length := by
        rw [List.length_append, length_annotations hkept, hcarried.length_eq]
  obtain ⟨hrecorded, hapart⟩ := (length_logEntries_foldl_eq_iff hspan calls).mp hlength
  have hrecordable := exists_zipkinSpan_iff.mp ⟨_, hform⟩
  refine ⟨⟨?_, exists_annotations_iff.mp ⟨kept, hkept⟩⟩,
    isComplete_of_isCarriedBy hcarried hrecorded, hapart⟩
  rw [← @tags_foldl span calls]
  exact hrecordable.tags

/-- No event is lost exactly when the span can be recorded, the list of the fields of each event
is there, with distinct keys and with texts, and no two events have the same instant. -/
theorem noEventLost_iff (formatting : Formatting) (settings : RecordingSettings)
    (span : RecordedSpan) (hspan : span.isFinished = false) (calls : List LogCall) :
    NoEventLost formatting settings span calls ↔
      Recordable settings span ∧
        (∀ call ∈ calls, call.IsComplete settings.recordedValueMaxLength) ∧
        ApartFrom span calls := by
  constructor
  · exact NoEventLost.complete hspan
  · rintro ⟨hrecordable, hcomplete, hapart⟩
    obtain ⟨kept, hkept⟩ : ∃ kept, annotations formatting settings span = .ok kept :=
      exists_annotations_iff.mpr hrecordable.logs
    obtain ⟨built, added, hbuilt, hperm, hcarried⟩ :=
      exists_annotations_foldl hspan hcomplete hapart hkept
    obtain ⟨tags, htags⟩ : ∃ tags, zipkinTags formatting.isLetterOrOther settings
        (calls.foldl LogCall.perform span) = .ok tags := by
      apply exists_zipkinTags_iff.mpr
      rw [tags_foldl]
      exact hrecordable.tags
    refine ⟨fun call hcall => (hcomplete call hcall).succeeds, ?_⟩
    refine ⟨_, kept, added, bind_eq_ok_iff.mpr ⟨tags, htags, bind_eq_ok_iff.mpr
      ⟨built, hbuilt, rfl⟩⟩, hkept, hperm, hcarried⟩

end Lost

/-- A new span. -/
def newSpan : RecordedSpan := RecordedSpan.create (SpanContext.create ⟨1, 2, 3, 4⟩ none none) 0

/-- An event at the first instant. -/
def firstEvent (value : LoggedValue) : LogCall := ⟨firstInstant, some [(some (text "a"), value)]⟩

/-- An event on a new span is not lost. -/
theorem noEventLost_firstEvent :
    NoEventLost ⟨fun _ => false, id, fun _ => []⟩ ⟨1200, true⟩ newSpan
      [firstEvent (.shown (some (text "b")))] := by
  apply (noEventLost_iff _ _ newSpan rfl _).mpr
  refine ⟨⟨nofun, nofun⟩, ?_, List.nodup_singleton _, ?_⟩
  · intro call hcall
    obtain rfl := List.mem_singleton.mp hcall
    refine ⟨_, rfl, List.nodup_singleton _, fun field hfield => ?_⟩
    obtain rfl := List.mem_singleton.mp hfield
    exact ⟨by decide, text "a", text "b", rfl⟩
  · intro call hcall
    obtain rfl := List.mem_singleton.mp hcall
    rfl

/-- Of two events at one instant only the second one is left, and an event with a null value
fails. -/
theorem not_noEventLost_sameInstant :
    ¬ NoEventLost ⟨fun _ => false, id, fun _ => []⟩ ⟨1200, true⟩ newSpan
        [firstEvent (.shown (some (text "b"))), firstEvent (.shown (some (text "c")))] ∧
      ¬ NoEventLost ⟨fun _ => false, id, fun _ => []⟩ ⟨1200, true⟩ newSpan
        [firstEvent .null] := by
  constructor
  · intro h
    have hnodup := (h.complete rfl).2.2.1
    exact (List.nodup_cons.mp hnodup).1 List.mem_cons_self
  · intro h
    have hsucceeds := h.succeed _ List.mem_cons_self _ rfl
    cases hsucceeds

end SignalFxTracing.Agent
