import SignalFxTracing.Metadata.TypeNames

/-!
# The names that `TryParseSignatureTypes` finds

A type that is read completely adds the text of its tree to the name that is
written, wherever in a signature it stands. The names of a signature are then
those of its types.
-/

namespace SignalFxTracing.Metadata

open Clr Lib
open Lib.ExceptRules
open NameTree (squares render renderMore)

theorem squares_append_text (n : Nat) : squares n ++ text "[]" = squares (n + 1) := by
  rw [squares, squares, List.replicate_succ']
  simp
  rfl

theorem decrementTop_succ (n : Nat) (stack : List Int) :
    decrementTop (((n + 1 : Nat) : Int) :: stack) = (n : Int) :: stack := by
  simp [decrementTop]

section Complete

variable (metadata : MetadataImport) (expected : Nat)

/-- The text of a type goes to the name that is written. -/
def ReadAs (t : SigType) : Prop :=
  ∀ pending s rest, s.appendToType = squares pending →
    readTypes metadata expected (t.encode ++ rest) s =
      (s.behind expected (render (t.codeTree metadata pending))).bind
        (readTypes metadata expected rest)

/-- The arguments behind the first, up to the end of the generic type. -/
theorem readTypes_encodeAll {ts : List SigType} (h : ∀ t ∈ ts, ReadAs metadata expected t)
    (typeNames : List Text) (name : Text) (stack : List Int) (rest : Signature) :
    (settle expected typeNames name ((ts.length : Int) :: stack)).bind
        (readTypes metadata expected (TypeTree.encodeAll ts ++ rest)) =
      (settle expected typeNames
        (name ++ (renderMore (TypeTree.codeTreeAll metadata ts) ++ text ">")) stack).bind
          (readTypes metadata expected rest) := by
  induction ts generalizing name with
  | nil =>
      rw [List.length_nil, Nat.cast_zero, settle_zero]
      rfl
  | cons t ts ih =>
      rw [List.length_cons, settle_succ, bind_ok, TypeTree.encodeAll, List.append_assoc,
        h t List.mem_cons_self 0 _ _ rfl, TypeNamesState.behind]
      rw [decrementTop_succ, ih fun t ht => h t (List.mem_cons_of_mem _ ht)]
      simp only [TypeTree.codeTreeAll, renderMore, List.append_assoc, List.cons_append]
      rfl

theorem TypeTree.readingAll_eq_complete {ts : List SigType} :
    TypeTree.readingAll metadata ts = .complete ↔ ∀ t ∈ ts, t.reading metadata = .complete := by
  induction ts with
  | nil => simp [TypeTree.readingAll]
  | cons t ts ih => simp [TypeTree.readingAll, Reading.andThen_eq_complete, ih]

/-- How the name of a generic type is read. -/
def openReading (token : MdToken) : Except ParseStop Int :=
  (ParseStop.stuck.unless (metadata.getTypeInfo token)).bind fun typeData =>
    ParseStop.refused.unless (genericArity typeData.name)

/-- The reading of a type at which the loop stops. -/
def ParseStop.reading : ParseStop → Reading
  | refused => .failed
  | stuck => .undefined

/-- What is known of a generic type that is not lost. -/
theorem TypeTree.reading_genericInst {name : TypeToken} {arg : SigType} {args : List SigType}
    (h : (genericInst name arg args).reading metadata ≠ .lost) :
    (∃ stop, openReading metadata name.mdToken = .error stop ∧
        (genericInst name arg args).reading metadata = stop.reading) ∨
      ∃ typeData, metadata.getTypeInfo name.mdToken = some typeData ∧
        genericArity typeData.name = some ((args.length + 1 : Nat) : Int) ∧
        args.length + 1 < 0x80 ∧
        (genericInst name arg args).reading metadata =
          (arg.reading metadata).andThen (TypeTree.readingAll metadata args) := by
  simp only [TypeTree.reading, openReading] at h ⊢
  cases htype : metadata.getTypeInfo name.mdToken with
  | none => exact Or.inl ⟨.stuck, rfl, rfl⟩
  | some typeData =>
      simp only [htype] at h
      simp only [ParseStop.unless, bind_ok]
      cases harity : genericArity typeData.name with
      | none => exact Or.inl ⟨.refused, rfl, rfl⟩
      | some arity =>
          simp only [harity] at h
          by_cases hargs : arity = args.length + 1 ∧ args.length + 1 < 0x80
          · refine Or.inr ⟨typeData, rfl, ?_, hargs.2, if_pos hargs⟩
            rw [harity, hargs.1]
            rfl
          · exact absurd (if_neg hargs) h

/-- A type that is read completely is read as its tree. -/
theorem readAs_of_complete {t : SigType} :
    t.reading metadata = .complete → ReadAs metadata expected t := by
  induction t using TypeTree.induct with
  | hbasic b =>
      intro _ pending s rest hs
      rw [TypeTree.encode, List.singleton_append, readTypes_basic, hs]
      rfl
  | hnamed name =>
      intro h pending s rest hs
      rw [TypeTree.reading] at h
      split_ifs at h with hsome
      obtain ⟨typeName, hname⟩ := Option.isSome_iff_exists.mp hsome
      rw [TypeTree.encode, typeNamesStep_named, hs, hname, TypeTree.codeTree,
        MetadataImport.typeName, hname]
      rfl
  | hvar v =>
      intro h pending s rest hs
      have hv : v.index.val < 0x80 := by
        by_contra hv
        rw [TypeTree.reading, if_neg hv] at h
        cases h
      rw [TypeTree.encode, readTypes_var metadata expected hv, hs]
      rfl
  | harray t bounds => exact bounds.2.elim
  | hszArray t ih =>
      intro h pending s rest hs
      rw [TypeTree.encode, List.cons_append, readTypes_szArray]
      have hsuffix : (s.appendSuffix (text "[]")).appendToType = squares (pending + 1) := by
        rw [TypeNamesState.appendSuffix, hs]
        exact squares_append_text pending
      rw [ih h (pending + 1) _ _ hsuffix]
      rfl
  | hgenericInst name arg args iharg ihargs =>
      intro h pending s rest hs
      have hread := TypeTree.reading_genericInst metadata (by rw [h]; decide)
      rcases hread with ⟨stop, -, hstop⟩ | ⟨typeData, htype, harity, hcount, hread⟩
      · rw [h] at hstop
        cases stop
        all_goals cases hstop
      · rw [hread, Reading.andThen_eq_complete, TypeTree.readingAll_eq_complete] at h
        rw [TypeTree.encode, List.cons_append, List.append_assoc, List.append_assoc,
          readTypes_genericInst metadata expected hcount htype harity, List.append_assoc,
          iharg h.1 pending (s.openGeneric _ _) _ hs, TypeNamesState.behind]
        rw [TypeNamesState.openGeneric, decrementTop_succ,
          readTypes_encodeAll metadata expected fun t ht => ihargs t ht (h.2 t ht)]
        rw [TypeNamesState.behind, TypeTree.codeTree, render, MetadataImport.reportedType, htype]
        simp only [List.append_assoc]
        rfl

end Complete

section Stops

variable (metadata : MetadataImport) (expected : Nat) (stop : ParseStop)

def StopsAt (t : SigType) : Prop :=
  ∀ pending s rest, s.appendToType = squares pending →
    readTypes metadata expected (t.encode ++ rest) s = .error stop

theorem ParseStop.reading_ne_complete : stop.reading ≠ .complete := by
  cases stop with
  | refused => decide
  | stuck => decide

theorem ParseStop.reading_ne_lost : stop.reading ≠ .lost := by
  cases stop with
  | refused => decide
  | stuck => decide

variable {stop} in
theorem ParseStop.reading_injective {other : ParseStop} (h : stop.reading = other.reading) :
    stop = other := by
  cases stop
  all_goals
    cases other
    all_goals first | rfl | cases h

/-- A type at which the loop stops, behind types that are read completely. -/
theorem TypeTree.readingAll_eq_stop {ts : List SigType} :
    TypeTree.readingAll metadata ts = stop.reading ↔
      ∃ before t behind, ts = before ++ t :: behind ∧
        (∀ t ∈ before, t.reading metadata = .complete) ∧ t.reading metadata = stop.reading := by
  induction ts with
  | nil =>
      rw [TypeTree.readingAll]
      exact iff_of_false stop.reading_ne_complete.symm (by simp)
  | cons t ts ih =>
      rw [TypeTree.readingAll, Reading.andThen_eq_iff stop.reading_ne_complete, ih]
      constructor
      · rintro (ht | ⟨ht, before, u, behind, rfl, hbefore, hu⟩)
        · exact ⟨[], t, ts, rfl, by simp, ht⟩
        · exact ⟨t :: before, u, behind, rfl, by simpa [ht] using hbefore, hu⟩
      · rintro ⟨before, u, behind, hts, hbefore, hu⟩
        cases before with
        | nil =>
            obtain ⟨rfl, rfl⟩ := List.cons.inj hts
            exact Or.inl hu
        | cons v before =>
            obtain ⟨rfl, rfl⟩ := List.cons.inj hts
            rw [List.forall_mem_cons] at hbefore
            exact Or.inr ⟨hbefore.1, before, u, behind, rfl, hbefore.2, hu⟩

/-- Among the arguments behind the first, one at which the loop stops. -/
theorem readTypes_encodeAll_stop {before behind : List SigType} {t : SigType}
    (hbefore : ∀ t ∈ before, t.reading metadata = .complete)
    (ht : StopsAt metadata expected stop t)
    (typeNames : List Text) (name : Text) (stack : List Int) (rest : Signature) :
    (settle expected typeNames name
        (((before ++ t :: behind).length : Int) :: stack)).bind
      (readTypes metadata expected (TypeTree.encodeAll (before ++ t :: behind) ++ rest)) =
        .error stop := by
  induction before generalizing name with
  | nil =>
      rw [List.nil_append, List.length_cons, settle_succ, bind_ok, TypeTree.encodeAll,
        List.append_assoc]
      exact ht 0 _ _ rfl
  | cons u before ih =>
      rw [List.forall_mem_cons] at hbefore
      rw [List.cons_append, List.length_cons, settle_succ, bind_ok, TypeTree.encodeAll,
        List.append_assoc, readAs_of_complete metadata expected hbefore.1 0 _ _ rfl,
        TypeNamesState.behind]
      rw [decrementTop_succ]
      exact ih hbefore.2 _

theorem stopsAt_of_reading {t : SigType} :
    t.reading metadata = stop.reading → StopsAt metadata expected stop t := by
  induction t using TypeTree.induct with
  | hbasic b => exact fun h => absurd h.symm stop.reading_ne_complete
  | hnamed name =>
      intro h pending s rest hs
      rw [TypeTree.reading] at h
      split_ifs at h with hsome
      · exact absurd h.symm stop.reading_ne_complete
      · obtain rfl : ParseStop.stuck = stop := ParseStop.reading_injective h
        rw [Option.not_isSome_iff_eq_none] at hsome
        rw [TypeTree.encode, typeNamesStep_named, hsome]
        rfl
  | hvar v =>
      intro h
      rw [TypeTree.reading] at h
      split_ifs at h
      · exact absurd h.symm stop.reading_ne_complete
      · exact absurd h.symm stop.reading_ne_lost
  | harray t bounds => exact bounds.2.elim
  | hszArray t ih =>
      intro h pending s rest hs
      rw [TypeTree.encode, List.cons_append, readTypes_szArray]
      exact ih h (pending + 1) _ _ (by
        rw [TypeNamesState.appendSuffix, hs]
        exact squares_append_text pending)
  | hgenericInst name arg args iharg ihargs =>
      intro h pending s rest hs
      have hread := TypeTree.reading_genericInst metadata (by rw [h]; exact stop.reading_ne_lost)
      rcases hread with ⟨other, hopen, hother⟩ | ⟨typeData, htype, harity, hcount, hread⟩
      · obtain rfl : stop = other := ParseStop.reading_injective (h.symm.trans hother)
        rw [TypeTree.encode, List.cons_append, List.append_assoc]
        exact readTypes_genericInst_error metadata expected hopen _ _
      · rw [hread, Reading.andThen_eq_iff stop.reading_ne_complete] at h
        rw [TypeTree.encode, List.cons_append, List.append_assoc, List.append_assoc,
          readTypes_genericInst metadata expected hcount htype harity, List.append_assoc]
        rcases h with harg | ⟨harg, hargs⟩
        · exact iharg harg pending (s.openGeneric _ _) _ hs
        · obtain ⟨before, t, behind, rfl, hbefore, ht⟩ :=
            (TypeTree.readingAll_eq_stop metadata stop).mp hargs
          rw [readAs_of_complete metadata expected harg pending (s.openGeneric _ _) _ hs,
            TypeNamesState.behind, TypeNamesState.openGeneric, decrementTop_succ]
          exact readTypes_encodeAll_stop metadata expected stop hbefore
            (ihargs t (by simp) ht) _ _ _ _

end Stops

section Signatures

variable (metadata : MetadataImport)

namespace SigMethod

/-- How a signature is read. -/
def reading (m : SigMethod) : Reading :=
  if m.header.IsShort then TypeTree.readingAll metadata m.types else .lost

end SigMethod

/-- The name of a type by itself. -/
def TypeTree.codeName (t : SigType) : Text := render (t.codeTree metadata 0)

theorem readTypes_all {expected : Nat} {ts : List SigType} {typeNames : List Text}
    (h : ∀ t ∈ ts, t.reading metadata = .complete)
    (hlength : typeNames.length + ts.length ≤ expected) (rest : Signature) :
    readTypes metadata expected (TypeTree.encodeAll ts ++ rest) { typeNames := typeNames } =
      readTypes metadata expected rest
        { typeNames := typeNames ++ ts.map (TypeTree.codeName metadata) } := by
  induction ts generalizing typeNames with
  | nil => simp [TypeTree.encodeAll]
  | cons t ts ih =>
      rw [List.forall_mem_cons] at h
      rw [List.length_cons] at hlength
      rw [TypeTree.encodeAll, List.append_assoc,
        readAs_of_complete metadata expected h.1 0 _ _ rfl, TypeNamesState.behind]
      dsimp only [decrementTop, List.nil_append]
      rw [settle_nil expected _ (by omega), bind_ok, ih h.2 (by simp; omega)]
      simp [TypeTree.codeName]

theorem readTypes_all_stop {stop : ParseStop} {expected : Nat} {ts : List SigType}
    {typeNames : List Text} (h : TypeTree.readingAll metadata ts = stop.reading)
    (hlength : typeNames.length + ts.length ≤ expected) :
    readTypes metadata expected (TypeTree.encodeAll ts) { typeNames := typeNames } =
      .error stop := by
  obtain ⟨before, t, behind, rfl, hbefore, ht⟩ :=
    (TypeTree.readingAll_eq_stop metadata stop).mp h
  have happend : TypeTree.encodeAll (before ++ t :: behind) =
      TypeTree.encodeAll before ++ (t.encode ++ TypeTree.encodeAll behind) := by
    clear hbefore h hlength
    induction before with
    | nil => rfl
    | cons u before ih => simp [TypeTree.encodeAll, ih]
  rw [List.length_append] at hlength
  rw [happend, readTypes_all metadata hbefore (by omega)]
  exact stopsAt_of_reading metadata expected stop ht 0 _ _ rfl

/-- Where the types of a signature start, and their number. -/
theorem tryParseSignatureTypes_encode {m : SigMethod} (h : m.header.IsShort) :
    tryParseSignatureTypes metadata m.encode =
      (readTypes metadata (m.params.length + 1) (TypeTree.encodeAll m.types) {}).map fun s =>
        s.typeNames ++ List.replicate (m.params.length + 1 - s.typeNames.length) [] := by
  obtain ⟨hparameters, harguments, htypes⟩ := h.read (TypeTree.encodeAll m.types)
  rw [tryParseSignatureTypes, SigMethod.encode, hparameters, harguments, htypes]
  rfl

/-- A signature that is read completely has the names of its types. -/
theorem tryParseSignatureTypes_of_complete {m : SigMethod}
    (h : m.reading metadata = .complete) :
    tryParseSignatureTypes metadata m.encode = .ok (m.types.map (TypeTree.codeName metadata)) := by
  rw [SigMethod.reading] at h
  split_ifs at h with hbytes
  rw [TypeTree.readingAll_eq_complete] at h
  have hread : readTypes metadata (m.params.length + 1) (TypeTree.encodeAll m.types ++ []) {} = _ :=
    readTypes_all metadata h (by simp [SigMethod.types]) []
  rw [List.append_nil, readTypes_nil] at hread
  rw [tryParseSignatureTypes_encode metadata hbytes, hread]
  simp [SigMethod.types]

theorem tryParseSignatureTypes_of_stop {m : SigMethod} {stop : ParseStop}
    (h : m.reading metadata = stop.reading) :
    tryParseSignatureTypes metadata m.encode = .error stop := by
  rw [SigMethod.reading] at h
  split_ifs at h with hbytes
  · rw [tryParseSignatureTypes_encode metadata hbytes,
      readTypes_all_stop metadata h (by simp [SigMethod.types])]
    rfl
  · exact absurd h.symm stop.reading_ne_lost

theorem SigMethod.reading_ofType (t : SigType) :
    (SigMethod.ofType t).reading metadata = t.reading metadata := by
  have hcomplete : ∀ r : Reading, r.andThen .complete = r := by
    intro r
    cases r
    all_goals rfl
  exact hcomplete (t.reading metadata)

/-- A type alone gets its own name, or none where the loop stops. -/
theorem tryParseSignatureTypes_ofType_complete {t : SigType} (h : t.reading metadata = .complete) :
    tryParseSignatureTypes metadata (SigMethod.ofType t).encode = .ok [t.codeName metadata] := by
  rw [← SigMethod.reading_ofType] at h
  exact tryParseSignatureTypes_of_complete metadata h

theorem tryParseSignatureTypes_ofType_stop {t : SigType} {stop : ParseStop}
    (h : t.reading metadata = stop.reading) :
    tryParseSignatureTypes metadata (SigMethod.ofType t).encode = .error stop := by
  rw [← SigMethod.reading_ofType] at h
  exact tryParseSignatureTypes_of_stop metadata h

end Signatures

end SignalFxTracing.Metadata
