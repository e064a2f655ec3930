import SignalFxTracing.Il.EntryCall
import SignalFxTracing.Il.ReleaseImport

/-!
# Edited lists (`il_rewriter.h`)

What a rewriter can hold between `Import` and `Export`. A node is created by
`NewILInstr` before it is linked, and its fields are changed in place; its
number stays.
-/

namespace SignalFxTracing.Il

open Lib.MapOption

/-- `InitializeTiny`. -/
def ILRewriter.tiny : ILRewriter where
  tkLocalVarSig := 0
  maxStack := 8
  flags := 2
  il := []
  eh := []
  nInstrs := 0

/-- The rewriters behind an import and any edits. -/
inductive Edited : ILRewriter → Prop
  | tiny : Edited .tiny
  | imported {m : IlMethod} {r : ILRewriter} : importMethod m = some r → Edited r
  | importedRelease {m : IlMethod} {r : ILRewriter} {eh : List NullableClause} :
      importRelease m = .success r eh → Edited r
  /-- `NewILInstr`. -/
  | newILInstr {r : ILRewriter} : Edited r → Edited { r with nInstrs := r.nInstrs + 1 }
  | insertBefore {r : ILRewriter} (place : InstrRef) {what : ILInstr} : Edited r →
      what.id < r.nInstrs → what.id ∉ r.il.map ILInstr.id → Edited (r.insertBefore place what)
  | insertAfter {r : ILRewriter} (place : InstrRef) {what : ILInstr} : Edited r →
      what.id < r.nInstrs → what.id ∉ r.il.map ILInstr.id → Edited (r.insertAfter place what)
  /-- The fields of the nodes. -/
  | change {r : ILRewriter} (f : ILInstr → ILInstr) : Edited r → (∀ x, (f x).id = x.id) →
      Edited { r with il := r.il.map f }
  /-- The header and the clauses. -/
  | header {r r' : ILRewriter} : Edited r → r'.il = r.il → r'.nInstrs = r.nInstrs → Edited r'

/-- The nodes of a list are told apart by numbers that have been given. -/
structure NumberedApart (r : ILRewriter) : Prop where
  nodup : (r.il.map ILInstr.id).Nodup
  lt : ∀ id ∈ r.il.map ILInstr.id, id < r.nInstrs

section Numbers

variable {r : ILRewriter}

theorem numberedApart_of_range (h : r.il.map ILInstr.id = List.range' 0 r.nInstrs) :
    NumberedApart r := by
  constructor
  · rw [h]
    exact List.nodup_range'
  · intro id hid
    rw [h, List.mem_range'_1] at hid
    omega

theorem NumberedApart.insert {il : List ILInstr} {what : ILInstr} (h : NumberedApart r)
    (hlt : what.id < r.nInstrs) (hnew : what.id ∉ r.il.map ILInstr.id)
    (hperm : il.Perm (what :: r.il)) : NumberedApart { r with il := il } := by
  have hids := hperm.map ILInstr.id
  constructor
  · exact hids.nodup_iff.mpr (List.nodup_cons.mpr ⟨hnew, h.nodup⟩)
  · intro id hid
    rcases List.mem_cons.mp (hids.mem_iff.mp hid) with rfl | hid
    · exact hlt
    · exact h.lt id hid

theorem linkBefore_perm_or (id : Nat) (what : ILInstr) (il : List ILInstr) :
    (linkBefore id what il).Perm (what :: il) ∨ linkBefore id what il = il := by
  induction il with
  | nil => exact .inr rfl
  | cons x rest ih =>
      rw [linkBefore]
      split_ifs
      · exact .inl (List.Perm.refl _)
      · rcases ih with hperm | heq
        · exact .inl ((hperm.cons x).trans (List.Perm.swap what x rest))
        · exact .inr (congrArg (x :: ·) heq)

theorem linkAfter_perm_or (id : Nat) (what : ILInstr) (il : List ILInstr) :
    (linkAfter id what il).Perm (what :: il) ∨ linkAfter id what il = il := by
  induction il with
  | nil => exact .inr rfl
  | cons x rest ih =>
      rw [linkAfter]
      split_ifs
      · exact .inl (List.Perm.swap what x rest)
      · rcases ih with hperm | heq
        · exact .inl ((hperm.cons x).trans (List.Perm.swap what x rest))
        · exact .inr (congrArg (x :: ·) heq)

theorem insertBefore_perm_or (place : InstrRef) (what : ILInstr) :
    (r.insertBefore place what).il.Perm (what :: r.il) ∨
      (r.insertBefore place what).il = r.il := by
  cases place with
  | sentinel => exact .inl (List.perm_append_singleton what r.il)
  | instr id => exact linkBefore_perm_or id what r.il

theorem insertAfter_perm_or (place : InstrRef) (what : ILInstr) :
    (r.insertAfter place what).il.Perm (what :: r.il) ∨
      (r.insertAfter place what).il = r.il := by
  cases place with
  | sentinel => exact .inl (List.Perm.refl _)
  | instr id => exact linkAfter_perm_or id what r.il

theorem NumberedApart.of_insertion {r' : ILRewriter} {what : ILInstr} (h : NumberedApart r)
    (hlt : what.id < r.nInstrs) (hnew : what.id ∉ r.il.map ILInstr.id)
    (hcount : r'.nInstrs = r.nInstrs) (hil : r'.il.Perm (what :: r.il) ∨ r'.il = r.il) :
    NumberedApart r' := by
  rcases hil with hperm | heq
  · have hapart := h.insert hlt hnew hperm
    exact ⟨hapart.nodup, hcount ▸ hapart.lt⟩
  · constructor
    · rw [heq]
      exact h.nodup
    · rw [heq, hcount]
      exact h.lt

theorem ids_of_importMethod {m : IlMethod} (h : importMethod m = some r) :
    r.il.map ILInstr.id = List.range' 0 r.nInstrs := by
  obtain ⟨il, table, eh, hil, -, rfl⟩ := importMethod_eq_some_iff.mp h
  obtain ⟨instructions, -, -, hnodes⟩ := importIL_eq_some_iff.mp hil
  have hids := map_of_mapM hnodes fun _ _ hxy => (resolveTarget_keeps hxy).1
  have hlength := congrArg List.length hids
  rw [List.length_map, List.length_map] at hlength
  dsimp only
  rw [hids, ids_linkNodes, hlength]

theorem ids_of_importRelease {m : IlMethod} {eh : List NullableClause}
    (h : importRelease m = .success r eh) : r.il.map ILInstr.id = List.range' 0 r.nInstrs := by
  rw [importRelease] at h
  cases hdecode : decode m.code with
  | none => simp [hdecode] at h
  | some instructions =>
      rw [hdecode] at h
      dsimp only at h
      split at h
      · cases h
      · obtain ⟨rfl, -⟩ := ImportResult.success.inj h
        have hid : ∀ table x, (resolveOrNull table x).id = x.id := by
          intro table x
          rw [resolveOrNull]
          split_ifs <;> rfl
        simp only [foldl_insertBefore, importHeader, List.nil_append, List.map_map,
          List.length_map, Function.comp_def, hid]
        exact ids_linkNodes 0 instructions

/-- The numbers tell the nodes of every edited list apart. -/
theorem Edited.numberedApart (h : Edited r) : NumberedApart r := by
  induction h with
  | tiny => exact ⟨List.nodup_nil, fun _ hid => nomatch hid⟩
  | imported h => exact numberedApart_of_range (ids_of_importMethod h)
  | importedRelease h => exact numberedApart_of_range (ids_of_importRelease h)
  | newILInstr _ ih => exact ⟨ih.nodup, fun id hid => (ih.lt id hid).trans (Nat.lt_succ_self _)⟩
  | insertBefore place _ hlt hnew ih =>
      exact ih.of_insertion hlt hnew rfl (insertBefore_perm_or place _)
  | insertAfter place _ hlt hnew ih =>
      exact ih.of_insertion hlt hnew rfl (insertAfter_perm_or place _)
  | change f _ hf ih =>
      have hids : ∀ il : List ILInstr, (il.map f).map ILInstr.id = il.map ILInstr.id := by
        intro il
        rw [List.map_map]
        exact List.map_congr_left fun x _ => hf x
      constructor
      · rw [hids]
        exact ih.nodup
      · rw [hids]
        exact ih.lt
  | header _ hil hcount ih =>
      constructor
      · rw [hil]
        exact ih.nodup
      · rw [hil, hcount]
        exact ih.lt

theorem NumberedApart.length_le (h : NumberedApart r) : r.il.length ≤ r.nInstrs := by
  have hsubset : (r.il.map ILInstr.id).Subperm (List.range r.nInstrs) := by
    apply h.nodup.subperm
    intro id hid
    exact List.mem_range.mpr (h.lt id hid)
  have hle := hsubset.length_le
  rwa [List.length_map, List.length_range] at hle

theorem NumberedApart.nodup_ref (h : NumberedApart r) : (r.il.map ILInstr.ref).Nodup := by
  have href : r.il.map ILInstr.ref = (r.il.map ILInstr.id).map InstrRef.instr := by
    rw [List.map_map]
    rfl
  rw [href]
  exact h.nodup.map fun _ _ => InstrRef.instr.inj

end Numbers

end SignalFxTracing.Il
