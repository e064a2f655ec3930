import SignalFxTracing.Il.EditedList
import SignalFxTracing.Il.ReplacementCalls

/-!
# What stands in place of a replaced call

The instructions that `ProcessReplacementCalls` links behind a call that it
replaces, and the place that they have in the list.
-/

namespace SignalFxTracing.Il

open Clr Metadata Profiler

/-- Reference to the first node, or to the head of the list if there is none. -/
def headRef (il : List ILInstr) : InstrRef := (il.head?.map ILInstr.ref).getD .sentinel

section Places

variable {before rest : List ILInstr} {x : ILInstr}

theorem nextRef_append (hx : ∀ y ∈ before, y.id ≠ x.id) :
    nextRef (before ++ x :: rest) x.ref = headRef rest := by
  have hdrop : (before ++ x :: rest).dropWhile (fun y => y.id ≠ x.id) = x :: rest := by
    rw [List.dropWhile_append_of_pos (by simpa using hx)]
    simp
  rw [ILInstr.ref, nextRef, hdrop]
  rfl

theorem nodeAt_append (hx : ∀ y ∈ before, y.id ≠ x.id) :
    nodeAt (before ++ x :: rest) x.ref = some x := by
  rw [ILInstr.ref, nodeAt, List.find?_append, List.find?_eq_none.mpr (by simpa using hx)]
  simp

theorem prevRef_append (h : ∀ y ∈ rest.head?, ∀ z ∈ before ++ [x], z.id ≠ y.id) :
    prevRef (before ++ x :: rest) (headRef rest) = x.ref := by
  cases rest with
  | nil => simp [headRef, prevRef]
  | cons y rest =>
      have htake : (before ++ x :: y :: rest).takeWhile (fun z => z.id ≠ y.id) = before ++ [x] := by
        have hassoc : before ++ x :: y :: rest = (before ++ [x]) ++ y :: rest := by simp
        rw [hassoc, List.takeWhile_append_of_pos (by simpa using h y rfl)]
        simp
      rw [headRef, List.head?_cons, Option.map_some, Option.getD_some, ILInstr.ref, prevRef, htake]
      simp

theorem linkBefore_append {what : ILInstr} (hx : ∀ y ∈ before, y.id ≠ x.id) :
    linkBefore x.id what (before ++ x :: rest) = before ++ what :: x :: rest := by
  induction before with
  | nil => exact if_pos rfl
  | cons y before ih =>
      obtain ⟨hy, hbefore⟩ := List.forall_mem_cons.mp hx
      rw [List.cons_append, linkBefore, if_neg hy, ih hbefore, List.cons_append]

theorem linkAfter_append {what : ILInstr} (hx : ∀ y ∈ before, y.id ≠ x.id) :
    linkAfter x.id what (before ++ x :: rest) = before ++ x :: what :: rest := by
  induction before with
  | nil => exact if_pos rfl
  | cons y before ih =>
      obtain ⟨hy, hbefore⟩ := List.forall_mem_cons.mp hx
      rw [List.cons_append, linkAfter, if_neg hy, ih hbefore, List.cons_append]

end Places

section Insertions

variable {r : ILRewriter} {before rest : List ILInstr} {x : ILInstr}

/-- The node has another number than those before it. -/
theorem NumberedApart.ne_of_append (h : NumberedApart r) (hil : r.il = before ++ x :: rest) :
    ∀ y ∈ before, y.id ≠ x.id := by
  have hnodup := h.nodup
  rw [hil, List.map_append, List.nodup_append] at hnodup
  intro y hy
  exact hnodup.2.2 _ (List.mem_map_of_mem hy) _ (List.mem_map_of_mem List.mem_cons_self)

/-- The node with the next number is linked. -/
theorem NumberedApart.link {r' : ILRewriter} {what : ILInstr} (h : NumberedApart r)
    (hid : what.id = r.nInstrs) (hcount : r'.nInstrs = r.nInstrs + 1)
    (hperm : r'.il.Perm (what :: r.il)) : NumberedApart r' := by
  have hnew : NumberedApart { r with nInstrs := r.nInstrs + 1 } :=
    ⟨h.nodup, fun id hid => (h.lt id hid).trans (Nat.lt_succ_self _)⟩
  refine hnew.of_insertion ?_ ?_ hcount (Or.inl hperm)
  · rw [hid]
    exact Nat.lt_succ_self _
  · rw [hid]
    exact fun hmem => Nat.lt_irrefl _ (h.lt _ hmem)

/-- The next node is linked: what is before the place stays before it. -/
theorem NumberedApart.insertNew (h : NumberedApart r) (hil : r.il = before ++ rest)
    (opcode arg : Nat) :
    (r.insertNew (headRef rest) opcode arg).il =
        before ++ ⟨r.nInstrs, opcode, arg, none⟩ :: rest ∧
      NumberedApart (r.insertNew (headRef rest) opcode arg) := by
  have hlinked : (r.insertNew (headRef rest) opcode arg).il =
      before ++ ⟨r.nInstrs, opcode, arg, none⟩ :: rest := by
    cases rest with
    | nil => simp [ILRewriter.insertNew, ILRewriter.insertBefore, ILRewriter.adjustState, headRef,
        hil]
    | cons x rest =>
        simp only [ILRewriter.insertNew, ILRewriter.insertBefore, ILRewriter.adjustState, headRef,
          hil]
        exact linkBefore_append (h.ne_of_append hil)
  refine ⟨hlinked, @NumberedApart.link r _ ⟨r.nInstrs, opcode, arg, none⟩ h rfl rfl ?_⟩
  rw [hlinked, hil]
  exact List.perm_middle

theorem NumberedApart.insertNewAfter (h : NumberedApart r) (hil : r.il = before ++ x :: rest)
    (opcode arg : Nat) :
    (r.insertNewAfter x.ref opcode arg).il =
        before ++ x :: ⟨r.nInstrs, opcode, arg, none⟩ :: rest ∧
      NumberedApart (r.insertNewAfter x.ref opcode arg) := by
  have hlinked : (r.insertNewAfter x.ref opcode arg).il =
      before ++ x :: ⟨r.nInstrs, opcode, arg, none⟩ :: rest := by
    simp only [ILRewriter.insertNewAfter, ILRewriter.insertAfter, ILRewriter.adjustState,
      ILInstr.ref, hil]
    exact linkAfter_append (h.ne_of_append hil)
  refine ⟨hlinked, @NumberedApart.link r _ ⟨r.nInstrs, opcode, arg, none⟩ h rfl rfl ?_⟩
  rw [hlinked, hil]
  exact (List.Perm.append_left before (List.Perm.swap _ x rest)).trans List.perm_middle

theorem NumberedApart.setNop (h : NumberedApart r) (hil : r.il = before ++ x :: rest) :
    (r.setNop x).il = before ++ { x with opcode := CEE_NOP } :: rest ∧
      NumberedApart (r.setNop x) := by
  have hids : (r.setNop x).il.map ILInstr.id = r.il.map ILInstr.id := by
    rw [ILRewriter.setNop, List.map_map]
    apply List.map_congr_left
    intro y _
    simp only [Function.comp_apply]
    split_ifs <;> rfl
  have hne : ∀ y ∈ before, y.id ≠ x.id := h.ne_of_append hil
  have hne' : ∀ y ∈ rest, y.id ≠ x.id := by
    have hnodup := h.nodup
    rw [hil, List.map_append, List.map_cons, List.nodup_append, List.nodup_cons] at hnodup
    intro y hy heq
    apply hnodup.2.1.1
    rw [← heq]
    exact List.mem_map_of_mem hy
  have hkept : ∀ l : List ILInstr, (∀ y ∈ l, y.id ≠ x.id) →
      l.map (fun y => if y.id = x.id then { y with opcode := CEE_NOP } else y) = l := by
    intro l hl
    refine Eq.trans (List.map_congr_left fun y hy => ?_) (List.map_id l)
    exact if_neg (hl y hy)
  refine ⟨?_, ?_, ?_⟩
  · simp only [ILRewriter.setNop, hil, List.map_append, List.map_cons, if_true]
    rw [hkept before hne, hkept rest hne']
  · rw [hids]
    exact h.nodup
  · rw [hids]
    exact h.lt

end Insertions

section Sites

variable (queries : ReplacementQueries) (replacement : MethodReplacement) (found : CallMatch)

/-- The boxes in front of the call of the wrapper. -/
def boxNodes (id : Nat) (operands : List BoxOperand) : List ILInstr :=
  operands.mapIdx fun k operand =>
    ⟨id + k, CEE_BOX, (boxToken queries operand).toNat, none⟩

/-- The call of the wrapper with what is before and behind it; `id` is the number of the call. -/
def wrapperNodes (id : Nat) (x : ILInstr) : List ILInstr :=
  [⟨id + 1, (int32Fields x.opcode).1, (int32Fields x.opcode).2, none⟩,
    ⟨id + 2, (int32Fields (tokenInt32 found.methodDefMdToken)).1,
      (int32Fields (tokenInt32 found.methodDefMdToken)).2, none⟩,
    ⟨id + 3, CEE_LDC_I8, queries.moduleVersionIdPtr.toNat, none⟩,
    ⟨id, CEE_CALL, found.wrapperMethodRef.toNat, none⟩] ++
  (unboxToken queries replacement found.target).toList.map fun token =>
    ⟨id + 4, CEE_UNBOX_ANY, token.toNat, none⟩

/-- What is boxed in front of the call of the wrapper. -/
def boxedOperands (target : FunctionInfo) : List BoxOperand :=
  (boxes queries.metadata target.signature).getD []

/-- The nodes in place of a call: the numbers of the new ones begin with `id`. -/
def siteNodes (id : Nat) (x : ILInstr) : List ILInstr :=
  let operands := boxedOperands queries found.target
  { x with opcode := CEE_NOP } :: (boxNodes queries id operands ++
    wrapperNodes queries replacement found (id + operands.length) x)

variable {r : ILRewriter} {before rest : List ILInstr} {x : ILInstr}

theorem boxNodes_cons (id : Nat) (operand : BoxOperand) (operands : List BoxOperand) :
    boxNodes queries id (operand :: operands) =
      ⟨id, CEE_BOX, (boxToken queries operand).toNat, none⟩ ::
        boxNodes queries (id + 1) operands := by
  rw [boxNodes, List.mapIdx_cons, Nat.add_zero, boxNodes]
  congr 2
  funext k operand
  congr 1
  omega

theorem NumberedApart.foldl_box (h : NumberedApart r) (hil : r.il = before ++ rest)
    (operands : List BoxOperand) :
    let boxed := operands.foldl
      (fun r operand => r.box (headRef rest) (boxToken queries operand).toNat) r
    boxed.il = before ++ boxNodes queries r.nInstrs operands ++ rest ∧ NumberedApart boxed ∧
      boxed.nInstrs = r.nInstrs + operands.length ∧ boxed.eh = r.eh := by
  induction operands generalizing r before with
  | nil => exact ⟨by simpa [boxNodes] using hil, h, rfl, rfl⟩
  | cons operand operands ih =>
      obtain ⟨hfirst, hapart⟩ : (r.box (headRef rest) (boxToken queries operand).toNat).il =
            before ++ ⟨r.nInstrs, CEE_BOX, (boxToken queries operand).toNat, none⟩ :: rest ∧
          NumberedApart (r.box (headRef rest) (boxToken queries operand).toNat) :=
        h.insertNew hil CEE_BOX (boxToken queries operand).toNat
      have hsplit : (r.box (headRef rest) (boxToken queries operand).toNat).il =
          (before ++ [⟨r.nInstrs, CEE_BOX, (boxToken queries operand).toNat, none⟩]) ++ rest := by
        rw [hfirst, List.append_assoc, List.singleton_append]
      obtain ⟨hil', hapart', hcount, heh⟩ := ih hapart hsplit
      refine ⟨?_, hapart', ?_, heh⟩
      · rw [List.foldl_cons, hil', boxNodes_cons, List.append_assoc, List.append_assoc,
          List.append_assoc]
        rfl
      · rw [List.foldl_cons, hcount, List.length_cons]
        simp only [ILRewriter.box, ILRewriter.insertNew]
        omega

/-- The node that is linked before the cursor is the one before it. -/
theorem NumberedApart.prevRef_insertNew (h : NumberedApart r) (hil : r.il = before ++ x :: rest) :
    prevRef r.il (headRef rest) = x.ref := by
  rw [hil]
  apply prevRef_append
  intro y hy
  cases rest with
  | nil => cases hy
  | cons z rest =>
      obtain rfl := Option.some.inj hy
      have hsplit : r.il = (before ++ [x]) ++ z :: rest := by simp [hil]
      exact h.ne_of_append hsplit

theorem NumberedApart.callWrapper (h : NumberedApart r) (hil : r.il = before ++ rest)
    (x : ILInstr) :
    let called := callWrapper queries replacement found x (headRef rest) r
    called.il = before ++ wrapperNodes queries replacement found r.nInstrs x ++ rest ∧
      NumberedApart called ∧ r.nInstrs ≤ called.nInstrs ∧ called.eh = r.eh := by
  obtain ⟨hcall, hapart⟩ :
      (r.callMember (headRef rest) found.wrapperMethodRef.toNat false).il =
          before ++ ⟨r.nInstrs, CEE_CALL, found.wrapperMethodRef.toNat, none⟩ :: rest ∧
        NumberedApart (r.callMember (headRef rest) found.wrapperMethodRef.toNat false) :=
    h.insertNew hil CEE_CALL found.wrapperMethodRef.toNat
  have hprev := hapart.prevRef_insertNew hcall
  obtain ⟨hopcode, hapart⟩ := hapart.insertNew hcall (int32Fields x.opcode).1
    (int32Fields x.opcode).2
  rw [List.append_cons] at hopcode
  obtain ⟨htoken, hapart⟩ := hapart.insertNew hopcode
    (int32Fields (tokenInt32 found.methodDefMdToken)).1
    (int32Fields (tokenInt32 found.methodDefMdToken)).2
  rw [List.append_cons] at htoken
  obtain ⟨hmvid, hapart⟩ := hapart.insertNew htoken CEE_LDC_I8
    queries.moduleVersionIdPtr.toNat
  rw [List.append_cons] at hmvid
  rw [Il.callWrapper, hprev, wrapperNodes]
  cases unboxToken queries replacement found.target with
  | none =>
      refine ⟨?_, hapart, ?_, rfl⟩
      · refine hmvid.trans ?_
        simp [ILRewriter.insertNew, ILRewriter.callMember]
      · exact Nat.le_add_right r.nInstrs 4
  | some token =>
      obtain ⟨hunbox, hapart⟩ := hapart.insertNewAfter hmvid CEE_UNBOX_ANY token.toNat
      refine ⟨hunbox.trans ?_, hapart, ?_, rfl⟩
      · simp [ILRewriter.insertNew, ILRewriter.callMember]
      · exact Nat.le_add_right r.nInstrs 5

/-- The modification takes place where the call is, and leaves the cursor behind it. -/
theorem NumberedApart.replaceCall {replaced : InstrRef × ILRewriter} (h : NumberedApart r)
    (hil : r.il = before ++ x :: rest)
    (hreplaced : replaceCall queries replacement found x r = some replaced) :
    replaced.1 = headRef rest ∧
      replaced.2.il = before ++ siteNodes queries replacement found r.nInstrs x ++ rest ∧
      NumberedApart replaced.2 ∧ r.nInstrs ≤ replaced.2.nInstrs ∧ replaced.2.eh = r.eh := by
  have hne := h.ne_of_append hil
  obtain ⟨hnop, hapart⟩ := h.setNop hil
  have hbehind : nextRef (r.setNop x).il x.ref = headRef rest := by
    rw [hnop]
    exact @nextRef_append before rest { x with opcode := CEE_NOP } hne
  rw [List.append_cons] at hnop
  rw [Il.replaceCall, hbehind] at hreplaced
  obtain ⟨operands, hoperands, rfl⟩ := Option.map_eq_some_iff.mp hreplaced
  have hboxed : boxedOperands queries found.target = operands := by
    rw [boxedOperands, hoperands]
    rfl
  obtain ⟨hboxes, hapart, hcount, heh⟩ := hapart.foldl_box queries hnop operands
  obtain ⟨hil', hapart, hcount', heh'⟩ :=
    hapart.callWrapper queries replacement found hboxes x
  refine ⟨rfl, hil'.trans ?_, hapart, ?_, heh'.trans heh⟩
  · rw [hcount, siteNodes, hboxed]
    simp [ILRewriter.setNop]
  · have hle : r.nInstrs ≤ r.nInstrs + operands.length := Nat.le_add_right _ _
    exact (hle.trans (Nat.le_of_eq hcount.symm)).trans hcount'

end Sites

end SignalFxTracing.Il
