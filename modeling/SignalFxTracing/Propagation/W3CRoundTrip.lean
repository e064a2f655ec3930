import SignalFxTracing.Propagation.W3CPassThrough

/-!
# Reading back an injected trace parent

The trace parent that `Inject` writes has the ids at the positions at which
`Extract` looks for them. They come back unless one of them is zero.
-/

namespace SignalFxTracing.Propagation.W3C

open Clr Lib Lib.ExceptRules Trace

/-- A part of a text between two others is the substring at its position. -/
theorem substring_of_append (before part after : Text) {start length : Nat}
    (hstart : before.length = start) (hlength : part.length = length) :
    substring (before ++ (part ++ after)) start length = .ok part := by
  subst hstart hlength
  rw [substring, if_pos (by simp), List.drop_left, List.take_left]

theorem toString_eq_format {traceId : TraceId} {id : Text} (h : traceId.toString = some id) :
    id = TraceId.format traceId.higher traceId.lower := by
  rcases traceId.string_eq with hs | ⟨hnone, -, -⟩
  · exact Option.some.inj (h.symm.trans hs)
  · rw [TraceId.toString, hnone] at h
    cases h

theorem traceParentText_of_text {traceId : TraceId} {id : Text} (h : traceId.toString = some id)
    (spanId : UInt64) :
    traceParentText traceId spanId =
      text "00-" ++ (id ++ (text "-" ++ (toX16 spanId ++ text "-01"))) := by
  simp only [traceParentText, h, Option.getD_some, List.append_assoc]

section Reading

variable (skipsPlus : Bool)

/-- The ids that `Extract` reads from a trace parent. -/
def readTraceParent (traceParentHeader : Text) :
    Except ExtractError (Option (TraceId × UInt64)) := do
  let traceIdString ← substring traceParentHeader versionPrefixIdLength traceIdLength
  match ← tryParseTraceId skipsPlus traceIdString with
  | none => return none
  | some traceId =>
      if traceId.equals TraceId.zero then return none
      let spanIdString ← substring traceParentHeader versionAndTraceIdLength spanIdLength
      match tryParseHexUInt64 spanIdString with
      | none => return none
      | some spanId =>
          if spanId = 0 then return none
          return some (traceId, spanId)

/-- The first value decides about the ids. -/
theorem extract_eq_readTraceParent {T : Type*} {access : CarrierAccess T} {carrier : T}
    {header : Text} {rest : List Text} (draws : Draws)
    (h : (access.getter carrier W3CHeaderNames.traceParent).values = header :: rest) :
    extract access skipsPlus draws carrier =
      (readTraceParent skipsPlus header).map fun ids => ids.map fun ids =>
        SpanContext.ofPropagated draws (some ids.1) ids.2 none none
          (extractTraceState (access.getter carrier W3CHeaderNames.traceState).values) := by
  have hshared := HeaderValues.isSharedEmpty_eq_false (ne_of_eq_of_ne h (by simp))
  rw [extract, hshared, first, h, readTraceParent]
  simp only [Bool.false_eq_true, if_false, ok_bind]
  cases substring header versionPrefixIdLength traceIdLength with
  | error e => rfl
  | ok traceIdString =>
      rw [ok_bind, ok_bind]
      cases tryParseTraceId skipsPlus traceIdString with
      | error e => rfl
      | ok traceId =>
          cases traceId with
          | none => rfl
          | some traceId =>
              rw [ok_bind, ok_bind]
              dsimp only
              split_ifs
              · rfl
              · cases substring header versionAndTraceIdLength spanIdLength with
                | error e => rfl
                | ok spanIdString =>
                    rw [ok_bind, ok_bind]
                    cases tryParseHexUInt64 spanIdString with
                    | none => rfl
                    | some spanId =>
                        dsimp only
                        split_ifs <;> rfl

/-- The texts at the two positions have to be ids, and neither of them zero. -/
theorem readTraceParent_eq_some_iff {header : Text} {traceId : TraceId} {spanId : UInt64} :
    readTraceParent skipsPlus header = .ok (some (traceId, spanId)) ↔
      ∃ id spanText,
        substring header versionPrefixIdLength traceIdLength = .ok id ∧
          tryParseTraceId skipsPlus id = .ok (some traceId) ∧
          traceId.equals TraceId.zero = false ∧
          substring header versionAndTraceIdLength spanIdLength = .ok spanText ∧
          tryParseHexUInt64 spanText = some spanId ∧ spanId ≠ 0 := by
  rw [readTraceParent]
  constructor
  · intro h
    obtain ⟨id, hid, h⟩ := bind_eq_ok_iff.mp h
    obtain ⟨parsed, hparsed, h⟩ := bind_eq_ok_iff.mp h
    cases parsed with
    | none => cases h
    | some parsed =>
        dsimp only at h
        split_ifs at h with hzero
        · cases h
        · obtain ⟨spanText, hspanText, h⟩ := bind_eq_ok_iff.mp h
          cases hspan : tryParseHexUInt64 spanText with
          | none =>
              rw [hspan] at h
              cases h
          | some value =>
              rw [hspan] at h
              dsimp only at h
              split_ifs at h with hvalue
              · cases h
              · cases h
                exact ⟨id, spanText, hid, hparsed, by simpa using hzero, hspanText, hspan,
                  hvalue⟩
  · rintro ⟨id, spanText, hid, hparsed, hzero, hspanText, hspan, hvalue⟩
    rw [hid, ok_bind, hparsed, ok_bind]
    simp [hzero, hspanText, hspan, hvalue, pure, Except.pure]

/-- The ids of a written trace parent, unless one of them is zero. -/
theorem readTraceParent_traceParentText {traceId : TraceId} {id : Text}
    (h : traceId.toString = some id) (spanId : UInt64) :
    readTraceParent skipsPlus (traceParentText traceId spanId) =
      .ok (if traceId.equals TraceId.zero ∨ spanId = 0 then none
        else some (TraceId.ofHalves traceId.higher traceId.lower, spanId)) := by
  have hlength : id.length = 32 := by simp [toString_eq_format h, TraceId.format]
  have htraceId : substring (text "00-" ++ (id ++ (text "-" ++ (toX16 spanId ++
      text "-01")))) versionPrefixIdLength traceIdLength = .ok id :=
    substring_of_append _ id _ rfl hlength
  have hspanId : substring (text "00-" ++ (id ++ (text "-" ++ (toX16 spanId ++
      text "-01")))) versionAndTraceIdLength spanIdLength = .ok (toX16 spanId) := by
    have hbefore : (text "00-" ++ (id ++ text "-")).length = versionAndTraceIdLength := by
      simp only [List.length_append, hlength]
      rfl
    have hpart := @substring_of_append _ (toX16 spanId)
      (text "-01") versionAndTraceIdLength spanIdLength hbefore (toX16_length _)
    simpa only [List.append_assoc] using hpart
  have hparse : tryParseTraceId skipsPlus id =
      .ok (some (TraceId.ofHalves traceId.higher traceId.lower)) := by
    rw [toString_eq_format h]
    simp [tryParseTraceId]
  have hzero : (TraceId.ofHalves traceId.higher traceId.lower).equals TraceId.zero =
      traceId.equals TraceId.zero := rfl
  rw [readTraceParent, traceParentText_of_text h, htraceId, ok_bind, hparse, ok_bind]
  dsimp only
  rw [hzero, hspanId, ok_bind, tryParseHexUInt64_toX16]
  by_cases htrace : traceId.equals TraceId.zero = true
  · simp [htrace, pure, Except.pure]
  · by_cases hspan : spanId = 0
    · simp [htrace, hspan, pure, Except.pure]
    · simp [htrace, hspan, pure, Except.pure]

end Reading

section

variable {T : Type*} {access : CarrierAccess T} (law : access.Lawful w3cHeaders)
variable (traces : List TraceContext) (context : SpanContext) (carrier : T)

include law

/-- `Extract` after `Inject`, when the trace id has a text: both ids, or null if one is zero. -/
theorem extract_inject_of_text (skipsPlus : Bool) (draws : Draws) {id : Text}
    (hid : context.traceId.toString = some id) :
    ∃ traceState, extract access skipsPlus draws (inject access traces context carrier).2 =
      .ok (if context.traceId.equals TraceId.zero ∨ context.spanId = 0 then none
        else some (SpanContext.ofPropagated draws
          (some (TraceId.ofHalves context.traceId.higher context.traceId.lower)) context.spanId
          none none traceState)) := by
  have hheader := writesTraceParent_inject law traces context carrier
  rw [WritesTraceParent] at hheader
  refine ⟨extractTraceState (access.getter (inject access traces context carrier).2
    W3CHeaderNames.traceState).values, ?_⟩
  rw [extract_eq_readTraceParent skipsPlus draws hheader,
    readTraceParent_traceParentText skipsPlus hid]
  split_ifs <;> rfl

/-- A trace id without a text leaves a trace parent that is too short to read. -/
theorem extract_inject_of_default (skipsPlus : Bool) (draws : Draws)
    (hid : context.traceId.toString = none) :
    extract access skipsPlus draws (inject access traces context carrier).2 =
      .error .argumentOutOfRange := by
  have hheader := writesTraceParent_inject law traces context carrier
  rw [WritesTraceParent] at hheader
  have hshort : substring (traceParentText context.traceId context.spanId)
      versionPrefixIdLength traceIdLength = .error .argumentOutOfRange := by
    rw [substring, if_neg]
    simp [traceParentText, hid, versionPrefixIdLength, traceIdLength, text]
  rw [extract_eq_readTraceParent skipsPlus draws hheader, readTraceParent, hshort]
  rfl

end

end SignalFxTracing.Propagation.W3C
