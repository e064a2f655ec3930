import SignalFxTracing.Agent.SpanWrites
import SignalFxTracing.Lib.Guarded
import SignalFxTracing.Lib.KeyedUpdate

/-!
# Annotations that store truncated fields (`ZipkinSerializer.cs`)

Reading the annotations of a Zipkin span writes truncated fields back into the
dictionaries of the live span, up to the first field that cannot be truncated.
What is read later is the same.
-/

namespace SignalFxTracing.Agent

open Clr Lib Lib.ExceptRules Trace ExtensionMethods

abbrev Logs := AList fun _ : Int => LogRecord

/-- An annotation before its fields are serialized. -/
structure LoggedFields where
  timestamp : Int
  fields : List (Text × Text)
  deriving DecidableEq

/-- The inner loop of `Annotations` over a copy of the fields. -/
def storeFields (maxLength : Int) :
    List (Sigma fun _ : Text => Option Text) → Guarded Texts StringError PUnit
  | [] => pure ⟨⟩
  | kvp :: rest => do
      let truncated ← Guarded.lift (truncate kvp.2 maxLength)
      Guarded.modify fun fields =>
        if kvp.2 = some truncated then fields else fields.replace kvp.1 (some truncated)
      storeFields maxLength rest

/-- Fields as they are serialized behind the inner loop, where none of them is null. -/
def fieldTexts (fields : Texts) : List (Text × Text) :=
  fields.entries.map fun field => (field.1, field.2.getD [])

/-- One turn of the outer loop of `Annotations`. -/
def storeLog (maxLength : Int) (e : Sigma fun _ : Int => LogRecord) :
    Guarded Logs StringError LoggedFields := ⟨fun logs =>
  let (outcome, fields) := (storeFields maxLength e.2.fields.entries).run e.2.fields
  (outcome.map fun _ => ⟨toUnixTimeMicroseconds (e.1 + e.2.offset), fieldTexts fields⟩,
    logs.replace e.1 { e.2 with fields := fields })⟩

/-- The outer loop of `Annotations`. -/
def storeLogs (maxLength : Int) :
    List (Sigma fun _ : Int => LogRecord) → Guarded Logs StringError (List LoggedFields)
  | [] => pure []
  | e :: rest => do
      let item ← storeLog maxLength e
      let items ← storeLogs maxLength rest
      pure (item :: items)

/-- `Annotations`; `ShouldSerializeAnnotations`, which is read before it, creates the logs. -/
def readAnnotations (maxLength : Int) : Guarded RecordedSpan StringError (List LoggedFields) :=
  ⟨fun span =>
    let logs := span.logs.getD ∅
    let (outcome, logs) := (storeLogs maxLength logs.entries).run logs
    (outcome, { span with logs := some logs })⟩

/-- What a log says once its fields are truncated. -/
def loggedFields (maxLength : Int) (log : Sigma fun _ : Int => LogRecord) :
    Except StringError LoggedFields := do
  let fields ← truncateFields maxLength log.2.fields
  return ⟨toUnixTimeMicroseconds (log.1 + log.2.offset), fields⟩

section Fields

variable {maxLength : Int}

/-- What truncation reads of a field. -/
def readField (maxLength : Int) (field : Sigma fun _ : Text => Option Text) :
    Text × Except StringError Text := (field.1, truncate field.2 maxLength)

/-- A truncated text is truncated to itself. -/
theorem truncate_truncated {value : Option Text} {truncated : Text}
    (h : truncate value maxLength = .ok truncated) :
    truncate (some truncated) maxLength = .ok truncated := by
  obtain ⟨hlength, s, rfl, rfl⟩ := truncate_eq_ok_iff.mp h
  refine truncate_eq_ok_iff.mpr ⟨hlength, _, rfl, ?_⟩
  rw [List.take_take, min_self]

/-- The inner loop does not change what truncation reads. -/
theorem map_readField_storeFields {fields : Texts} :
    ∀ (copy : List (Sigma fun _ : Text => Option Text)) (state : Texts),
      copy ⊆ fields.entries →
      state.entries.map (readField maxLength) = fields.entries.map (readField maxLength) →
      ((storeFields maxLength copy).run state).2.entries.map (readField maxLength) =
        fields.entries.map (readField maxLength)
  | [], state, _, hstate => hstate
  | kvp :: rest, state, hcopy, hstate => by
      rw [storeFields]
      cases htruncate : truncate kvp.2 maxLength with
      | error e => exact hstate
      | ok truncated =>
          obtain ⟨hmem, hrest⟩ := List.cons_subset.mp hcopy
          apply map_readField_storeFields rest _ hrest
          dsimp only
          split_ifs
          · exact hstate
          · apply KeyedUpdate.map_kreplace_of_map_eq ?_ fields.nodupKeys hstate hmem
            · rw [readField, readField, truncate_truncated htruncate, htruncate]
            · intro entry entry' h
              exact congrArg Prod.fst h

/-- The inner loop fails where truncating the fields of the copy does. -/
theorem storeFields_run_fst (copy : List (Sigma fun _ : Text => Option Text)) (state : Texts) :
    ((storeFields maxLength copy).run state).1 =
      (copy.mapM fun field => (truncate field.2 maxLength).map fun value => (field.1, value)).map
        fun _ => ⟨⟩ := by
  induction copy generalizing state with
  | nil => rfl
  | cons kvp rest ih =>
      rw [storeFields, List.mapM_cons]
      cases htruncate : truncate kvp.2 maxLength with
      | error e => rfl
      | ok truncated =>
          refine (ih _).trans ?_
          cases rest.mapM fun field =>
            (truncate field.2 maxLength).map fun value => (field.1, value) with
          | error e => rfl
          | ok others => rfl

/-- When all fields of the copy can be truncated, they are stored truncated. -/
theorem storeFields_entries {copy : List (Sigma fun _ : Text => Option Text)}
    {truncated : List (Text × Text)}
    (h : copy.mapM (fun field => (truncate field.2 maxLength).map fun value =>
      (field.1, value)) = .ok truncated)
    {before : List (Sigma fun _ : Text => Option Text)} {state : Texts}
    (hstate : state.entries = before ++ copy) :
    ((storeFields maxLength copy).run state).2.entries =
      before ++ truncated.map fun field => ⟨field.1, some field.2⟩ := by
  induction copy generalizing truncated before state with
  | nil =>
      obtain rfl := Except.ok.inj h
      exact hstate
  | cons kvp rest ih =>
      obtain ⟨key, value⟩ := kvp
      rw [List.mapM_cons] at h
      rw [storeFields]
      cases htruncate : truncate value maxLength with
      | error e =>
          rw [htruncate] at h
          cases h
      | ok first =>
          rw [htruncate] at h
          obtain ⟨field, hfield, h⟩ := bind_eq_ok_iff.mp h
          obtain rfl := Except.ok.inj hfield
          obtain ⟨others, hothers, h⟩ := bind_eq_ok_iff.mp h
          obtain rfl := Except.ok.inj h
          have hnodup := state.nodupKeys
          rw [hstate, List.NodupKeys, List.keys, List.map_append] at hnodup
          have hkey : key ∉ before.keys := by
            intro hmem
            exact List.disjoint_of_nodup_append hnodup hmem (List.mem_cons_self ..)
          have hstep : (if value = some first then state
              else state.replace key (some first)).entries =
                (before ++ [⟨key, some first⟩]) ++ rest := by
            split_ifs with hsame
            · rw [hstate, hsame, List.append_assoc]
              rfl
            · change List.kreplace key (some first) state.entries = _
              rw [hstate, KeyedUpdate.kreplace_append _ hkey, List.append_assoc]
              rfl
          refine (ih hothers hstep).trans ?_
          rw [List.append_assoc]
          rfl

/-- Reading a log gives its truncated fields. -/
theorem storeLog_run_fst (log : Sigma fun _ : Int => LogRecord) (logs : Logs) :
    ((storeLog maxLength log).run logs).1 = loggedFields maxLength log := by
  have hfst := @storeFields_run_fst maxLength log.2.fields.entries log.2.fields
  rw [storeLog, loggedFields, truncateFields]
  dsimp only
  rw [hfst]
  cases htruncated : log.2.fields.entries.mapM fun field =>
      (truncate field.2 maxLength).map fun value => (field.1, value) with
  | error e => rfl
  | ok truncated =>
      have hentries := @storeFields_entries maxLength _ _ htruncated [] log.2.fields rfl
      have htexts : fieldTexts ((storeFields maxLength log.2.fields.entries).run log.2.fields).2 =
          truncated := by
        rw [fieldTexts, hentries, List.nil_append, List.map_map]
        exact List.map_id truncated
      rw [htexts]
      rfl

end Fields

section Logs

variable {maxLength : Int}

/-- What truncation reads of a log. -/
def readLog (maxLength : Int) (log : Sigma fun _ : Int => LogRecord) :
    Int × Int × List (Text × Except StringError Text) :=
  (log.1, log.2.offset, log.2.fields.entries.map (readField maxLength))

/-- What a log says, from what truncation reads of it. -/
def sayLog (read : Int × Int × List (Text × Except StringError Text)) :
    Except StringError LoggedFields := do
  let fields ← read.2.2.mapM fun field => field.2.map fun value => (field.1, value)
  return ⟨toUnixTimeMicroseconds (read.1 + read.2.1), fields⟩

theorem mapM_loggedFields_eq (logs : List (Sigma fun _ : Int => LogRecord)) :
    logs.mapM (loggedFields maxLength) = (logs.map (readLog maxLength)).mapM sayLog := by
  rw [List.mapM_map]
  congr
  funext log
  rw [Function.comp_apply, loggedFields, truncateFields, sayLog, readLog, List.mapM_map]
  rfl

/-- The outer loop does not change what truncation reads. -/
theorem map_readLog_storeLogs {logs : Logs} :
    ∀ (copy : List (Sigma fun _ : Int => LogRecord)) (state : Logs),
      copy ⊆ logs.entries →
      state.entries.map (readLog maxLength) = logs.entries.map (readLog maxLength) →
      ((storeLogs maxLength copy).run state).2.entries.map (readLog maxLength) =
        logs.entries.map (readLog maxLength)
  | [], state, _, hstate => hstate
  | e :: rest, state, hcopy, hstate => by
      obtain ⟨hmem, hrest⟩ := List.cons_subset.mp hcopy
      have hstep : ((storeLog maxLength e).run state).2.entries.map (readLog maxLength) =
          logs.entries.map (readLog maxLength) := by
        apply KeyedUpdate.map_kreplace_of_map_eq ?_ logs.nodupKeys hstate hmem
        · rw [readLog, readLog, map_readField_storeFields _ _ (List.Subset.refl _) rfl]
        · intro entry entry' h
          exact congrArg Prod.fst h
      rw [storeLogs]
      cases hitem : ((storeLog maxLength e).run state).1 with
      | error error =>
          rw [Guarded.run_bind_of_error hitem]
          exact hstep
      | ok item =>
          have hitems := map_readLog_storeLogs rest _ hrest hstep
          rw [Guarded.run_bind_of_ok hitem]
          cases houtcome : ((storeLogs maxLength rest).run
              ((storeLog maxLength e).run state).2).1 with
          | error error =>
              rw [Guarded.run_bind_of_error houtcome]
              exact hitems
          | ok items =>
              rw [Guarded.run_bind_of_ok houtcome]
              exact hitems

/-- The outer loop gives what the logs of the copy say. -/
theorem storeLogs_run_fst (copy : List (Sigma fun _ : Int => LogRecord)) (state : Logs) :
    ((storeLogs maxLength copy).run state).1 = copy.mapM (loggedFields maxLength) := by
  induction copy generalizing state with
  | nil => rfl
  | cons e rest ih =>
      rw [storeLogs, List.mapM_cons, ← storeLog_run_fst e state]
      cases hitem : ((storeLog maxLength e).run state).1 with
      | error error => rw [Guarded.run_bind_of_error hitem]; rfl
      | ok item =>
          rw [Guarded.run_bind_of_ok hitem, ok_bind, ← ih ((storeLog maxLength e).run state).2]
          cases houtcome : ((storeLogs maxLength rest).run
              ((storeLog maxLength e).run state).2).1 with
          | error error => rw [Guarded.run_bind_of_error houtcome]; rfl
          | ok items => rw [Guarded.run_bind_of_ok houtcome]; rfl

/-- Reading the annotations gives what the logs of the span say. -/
theorem readAnnotations_run_fst (span : RecordedSpan) :
    ((readAnnotations maxLength).run span).1 = span.logEntries.mapM (loggedFields maxLength) := by
  rw [readAnnotations]
  dsimp only
  rw [storeLogs_run_fst, RecordedSpan.logEntries]
  cases span.logs with
  | none => rfl
  | some logs => rfl

/-- Reading the annotations does not change what truncation reads of the logs. -/
theorem map_readLog_readAnnotations (span : RecordedSpan) :
    ((readAnnotations maxLength).run span).2.logEntries.map (readLog maxLength) =
      span.logEntries.map (readLog maxLength) := by
  have hlogs : span.logEntries = (span.logs.getD ∅).entries := by
    rw [RecordedSpan.logEntries]
    cases span.logs with
    | none => rfl
    | some logs => rfl
  rw [hlogs]
  exact map_readLog_storeLogs _ _ (List.Subset.refl _) rfl

/-- Reading the annotations again gives the same, whether the first reading raised or not. -/
theorem readAnnotations_run_again (span : RecordedSpan) :
    ((readAnnotations maxLength).run ((readAnnotations maxLength).run span).2).1 =
      ((readAnnotations maxLength).run span).1 := by
  rw [readAnnotations_run_fst, readAnnotations_run_fst, mapM_loggedFields_eq,
    map_readLog_readAnnotations, ← mapM_loggedFields_eq]

/-- The annotations of the model without stores are these, with their fields serialized. -/
theorem annotations_eq (formatting : Formatting) (settings : RecordingSettings)
    (span : RecordedSpan) :
    annotations formatting settings span =
      ((readAnnotations settings.recordedValueMaxLength).run span).1.map (List.map fun logged =>
        ⟨logged.timestamp, formatting.serializeObject logged.fields⟩) := by
  rw [readAnnotations_run_fst, annotations]
  induction span.logEntries with
  | nil => rfl
  | cons log rest ih =>
      rw [List.mapM_cons, List.mapM_cons, ih, annotation, loggedFields]
      cases truncateFields settings.recordedValueMaxLength log.2.fields with
      | error e => rfl
      | ok fields =>
          cases rest.mapM (loggedFields settings.recordedValueMaxLength) with
          | error e => rfl
          | ok others => rfl

end Logs

end SignalFxTracing.Agent
