import SignalFxTracing.Il.Import
import SignalFxTracing.Il.StackDepth

/-!
# The bound of the stack in the exported header

`AdjustState` adds what an instruction pushes whenever a node is linked, also
when the node is only imported. `Export` stores the sum in 16 bits.
-/

namespace SignalFxTracing.Il

/-- The ways in which a profiler changes an imported body. -/
inductive Edit
  | insertBefore (place : InstrRef) (what : ILInstr)
  | insertAfter (place : InstrRef) (what : ILInstr)
  /-- `pInstr->m_opcode = CEE_NOP`. -/
  | makeNop (id : Nat)

namespace Edit

/-- The amount by which an edit raises the bound of the stack. -/
def pushes : Edit → Nat
  | insertBefore _ what => what.pushes
  | insertAfter _ what => what.pushes
  | makeNop _ => 0

def apply (r : ILRewriter) : Edit → ILRewriter
  | insertBefore place what => { r.insertBefore place what with nInstrs := r.nInstrs + 1 }
  | insertAfter place what => { r.insertAfter place what with nInstrs := r.nInstrs + 1 }
  | makeNop id =>
      { r with il := r.il.map fun x => if x.id = id then { x with opcode := CEE_NOP } else x }

/-- The rewriter after successive edits. -/
def run (r : ILRewriter) (edits : List Edit) : ILRewriter := edits.foldl apply r

end Edit

/-- The field `MaxStack` of the fat header that `Export` writes. -/
def ILRewriter.exportedMaxStack (r : ILRewriter) : UInt16 := r.maxStack.toUInt16

/-- The imported bound and what all imported and inserted instructions push. -/
def accumulated (m : IlMethod) (imported : ILRewriter) (edits : List Edit) : Nat :=
  m.getMaxStack.toNat + (imported.il.map ILInstr.pushes).sum + (edits.map Edit.pushes).sum

section Sums

theorem sum_linkBefore_le (id : Nat) (what : ILInstr) (il : List ILInstr) :
    ((linkBefore id what il).map ILInstr.pushes).sum ≤
      (il.map ILInstr.pushes).sum + what.pushes := by
  induction il with
  | nil => simp [linkBefore]
  | cons x rest ih =>
      unfold linkBefore
      split
      · simp only [List.map_cons, List.sum_cons]
        omega
      · simp only [List.map_cons, List.sum_cons]
        omega

theorem sum_linkAfter_le (id : Nat) (what : ILInstr) (il : List ILInstr) :
    ((linkAfter id what il).map ILInstr.pushes).sum ≤
      (il.map ILInstr.pushes).sum + what.pushes := by
  induction il with
  | nil => simp [linkAfter]
  | cons x rest ih =>
      unfold linkAfter
      split
      · simp only [List.map_cons, List.sum_cons]
        omega
      · simp only [List.map_cons, List.sum_cons]
        omega

theorem rgnStackPushes_nop : rgnStackPushes CEE_NOP = 0 := rfl

theorem sum_makeNop_le (id : Nat) (il : List ILInstr) :
    ((il.map fun x => if x.id = id then { x with opcode := CEE_NOP } else x).map
      ILInstr.pushes).sum ≤ (il.map ILInstr.pushes).sum := by
  induction il with
  | nil => simp
  | cons x rest ih =>
      simp only [List.map_cons, List.sum_cons]
      split
      · simp only [ILInstr.pushes, rgnStackPushes_nop] at ih ⊢
        omega
      · omega

/-- The instructions of an edited list push no more than has been added up. -/
theorem sum_apply_le (r : ILRewriter) (edit : Edit) :
    ((edit.apply r).il.map ILInstr.pushes).sum ≤
      (r.il.map ILInstr.pushes).sum + edit.pushes := by
  cases edit with
  | insertBefore place what =>
      cases place with
      | sentinel =>
          simp [Edit.apply, ILRewriter.insertBefore, ILRewriter.adjustState, Edit.pushes]
      | instr id => exact sum_linkBefore_le id what r.il
  | insertAfter place what =>
      cases place with
      | sentinel =>
          simp only [Edit.apply, ILRewriter.insertAfter, ILRewriter.adjustState, Edit.pushes,
            List.map_cons, List.sum_cons]
          omega
      | instr id => exact sum_linkAfter_le id what r.il
  | makeNop id => exact sum_makeNop_le id r.il

theorem sum_run_le (r : ILRewriter) (edits : List Edit) :
    ((Edit.run r edits).il.map ILInstr.pushes).sum ≤
      (r.il.map ILInstr.pushes).sum + (edits.map Edit.pushes).sum := by
  induction edits generalizing r with
  | nil => simp [Edit.run]
  | cons edit rest ih =>
      have hstep := sum_apply_le r edit
      have hrest := ih (edit.apply r)
      simp only [Edit.run, List.foldl_cons, List.map_cons, List.sum_cons] at hrest ⊢
      omega

end Sums

section Accumulation

/-- The bound has grown by `n`, modulo `2^32`. -/
theorem maxStack_apply (r : ILRewriter) (edit : Edit) :
    (edit.apply r).maxStack = r.maxStack + UInt32.ofNat edit.pushes := by
  cases edit with
  | insertBefore place what => rfl
  | insertAfter place what => rfl
  | makeNop id => simp [Edit.apply, Edit.pushes]

theorem maxStack_run (r : ILRewriter) (edits : List Edit) :
    (Edit.run r edits).maxStack = r.maxStack + UInt32.ofNat (edits.map Edit.pushes).sum := by
  induction edits generalizing r with
  | nil => simp [Edit.run]
  | cons edit rest ih =>
      have hrest := ih (edit.apply r)
      simp only [Edit.run, List.foldl_cons, List.map_cons, List.sum_cons] at hrest ⊢
      rw [hrest, maxStack_apply, UInt32.ofNat_add, UInt32.add_assoc]

theorem eh_run (r : ILRewriter) (edits : List Edit) : (Edit.run r edits).eh = r.eh := by
  induction edits generalizing r with
  | nil => rfl
  | cons edit rest ih =>
      have hrest := ih (edit.apply r)
      simp only [Edit.run, List.foldl_cons] at hrest ⊢
      rw [hrest]
      cases edit <;> rfl

end Accumulation

section Sufficient

variable {m : IlMethod} {r : ILRewriter} {sig : Signatures}

/-- The field is the accumulated bound modulo `2^16`. -/
theorem exportedMaxStack_toNat (h : importMethod m = some r) (edits : List Edit) :
    (Edit.run r edits).exportedMaxStack.toNat = accumulated m r edits % 2 ^ 16 := by
  obtain ⟨il, table, eh, _, _, rfl⟩ := importMethod_eq_some_iff.mp h
  rw [ILRewriter.exportedMaxStack, maxStack_run, UInt32.toNat_toUInt16, UInt32.toNat_add,
    UInt32.toNat_add]
  simp only [UInt32.toNat_ofNat', accumulated]
  omega

/-- Every way into an edited body starts with no more values than the bound of
the imported body. -/
theorem startsAtMost_run (h : importMethod m = some r) {bound : Nat}
    (hdepth : DepthAtMost sig r.il r.eh bound) (edits : List Edit) :
    StartsAtMost (Edit.run r edits).il (Edit.run r edits).eh bound := by
  rw [eh_run]
  have himported : ∀ c ∈ r.eh, ∀ ref, (ref = c.handlerBegin ∨ c.classOrFilter = .filter ref) →
      ∀ x, nodeAt (Edit.run r edits).il ref = some x → ∃ y, nodeAt r.il ref = some y := by
    intro c hc ref href x hx
    rcases starts_of_importMethod h hc href with rfl | ⟨y, hy, rfl⟩
    · cases hx
    · have hfound : (r.il.find? fun z => z.id = y.id).isSome :=
        List.find?_isSome.mpr ⟨y, hy, by simp⟩
      exact Option.isSome_iff_exists.mp hfound
  constructor
  · intro c hc x hx
    obtain ⟨y, hy⟩ := himported c hc _ (.inl rfl) x hx
    exact (hdepth y _ (.handler hc hy)).1
  · intro c hc ref hfilter x hx
    obtain ⟨y, hy⟩ := himported c hc ref (.inr hfilter) x hx
    exact (hdepth y _ (.filter hc hfilter hy)).1

/-- The accumulated bound suffices for every valid edited body. -/
theorem depthAtMost_accumulated (h : importMethod m = some r) (edits : List Edit)
    (hdepth : DepthAtMost sig r.il r.eh m.getMaxStack.toNat)
    (hconsistent : Consistent sig (Edit.run r edits).il (Edit.run r edits).eh) :
    DepthAtMost sig (Edit.run r edits).il (Edit.run r edits).eh (accumulated m r edits) := by
  have hpushes := depthAtMost_pushes hconsistent (startsAtMost_run h hdepth edits)
  have hsum := sum_run_le r edits
  intro x depth hx
  obtain ⟨hbefore, hafter⟩ := hpushes x depth hx
  unfold accumulated
  exact ⟨by omega, by omega⟩

/-- The exported field bounds the depth of every valid edited body, and is the
accumulated bound itself, exactly while that bound fits into 16 bits. -/
theorem maxStack_sufficient_iff (h : importMethod m = some r) (edits : List Edit)
    (hdepth : DepthAtMost sig r.il r.eh m.getMaxStack.toNat)
    (hconsistent : Consistent sig (Edit.run r edits).il (Edit.run r edits).eh) :
    (DepthAtMost sig (Edit.run r edits).il (Edit.run r edits).eh
        (Edit.run r edits).exportedMaxStack.toNat ∧
      (Edit.run r edits).exportedMaxStack.toNat = accumulated m r edits) ↔
      accumulated m r edits < 2 ^ 16 := by
  rw [exportedMaxStack_toNat h]
  constructor
  · rintro ⟨_, hexact⟩
    rw [← hexact]
    exact Nat.mod_lt _ (by decide)
  · intro hfits
    rw [Nat.mod_eq_of_lt hfits]
    exact ⟨depthAtMost_accumulated h edits hdepth hconsistent, rfl⟩

end Sufficient

section Throwing

/-- `ldnull` and `throw`. -/
def ldnullThrow (maxStack : UInt16) : IlMethod where
  header := .fat 3 maxStack 0
  code := [0x14, 0x7A]
  eh := .none
  code_lt := by decide

/-- The body as `Import` leaves it. -/
def ldnullThrowImported (maxStack : UInt16) : ILRewriter where
  tkLocalVarSig := 0
  maxStack := maxStack.toUInt32 + 1
  flags := 0
  il := [⟨0, 0x14, 0, none⟩, ⟨1, 0x7A, 0, none⟩]
  eh := []
  nInstrs := 2

theorem importMethod_ldnullThrow (maxStack : UInt16) :
    importMethod (ldnullThrow maxStack) = some (ldnullThrowImported maxStack) := by
  have himport : importIL [0x14, 0x7A] =
      some ([⟨0, 0x14, 0, none⟩, ⟨1, 0x7A, 0, none⟩],
        [(0, .instr 0), (1, .instr 1), (2, .sentinel)]) := by decide
  have hpushes : ([⟨0, 0x14, 0, none⟩, ⟨1, 0x7A, 0, none⟩].map ILInstr.pushes).sum = 1 := by decide
  have hflags : (ldnullThrow maxStack).getFlags &&& corILMethodInitLocals = 0 :=
    (by decide : (3 : UInt16).toUInt32 &&& corILMethodInitLocals = 0)
  refine importMethod_eq_some_iff.mpr ⟨_, _, [], himport, rfl, ?_⟩
  simp only [hpushes, importHeader, hflags]
  rfl

/-- Nothing is called, so no signature matters. -/
def noSignatures : Signatures where
  pops _ := 0
  returns _ := false

theorem closed_ldnullThrow (maxStack : UInt16) :
    Closed noSignatures (ldnullThrowImported maxStack).il []
      [(⟨0, 0x14, 0, none⟩, 0), (⟨1, 0x7A, 0, none⟩, 1)] := by
  change Closed noSignatures [⟨0, 0x14, 0, none⟩, ⟨1, 0x7A, 0, none⟩] [] _
  decide

/-- A push and a pop before the `throw`. -/
def insertLdnullPop : List Edit :=
  [.insertBefore (.instr 1) ⟨2, 0x14, 0, none⟩, .insertAfter (.instr 2) ⟨3, 0x26, 0, none⟩]

theorem maxStack_sufficient_ldnullThrow :
    (DepthAtMost noSignatures
        [⟨0, 0x14, 0, none⟩, ⟨2, 0x14, 0, none⟩, ⟨3, 0x26, 0, none⟩, ⟨1, 0x7A, 0, none⟩] [] 10 ∧
      (Edit.run (ldnullThrowImported 8) insertLdnullPop).exportedMaxStack.toNat = 10) := by
  have hclosed : Closed noSignatures (Edit.run (ldnullThrowImported 8) insertLdnullPop).il []
      [(⟨0, 0x14, 0, none⟩, 0), (⟨2, 0x14, 0, none⟩, 1), (⟨3, 0x26, 0, none⟩, 2),
        (⟨1, 0x7A, 0, none⟩, 1)] := by decide
  exact (maxStack_sufficient_iff (importMethod_ldnullThrow 8) insertLdnullPop
    ((closed_ldnullThrow 8).depthAtMost (by decide)) (hclosed.consistent (by decide))).mpr
    (by decide)

/-- With the largest bound in its header the exported bound of this body is zero. -/
theorem maxStack_insufficient :
    ¬ ∀ (m : IlMethod) (r : ILRewriter) (edits : List Edit) (sig : Signatures),
      importMethod m = some r → DepthAtMost sig r.il r.eh m.getMaxStack.toNat →
      Consistent sig (Edit.run r edits).il (Edit.run r edits).eh →
      DepthAtMost sig (Edit.run r edits).il (Edit.run r edits).eh
          (Edit.run r edits).exportedMaxStack.toNat ∧
        (Edit.run r edits).exportedMaxStack.toNat = accumulated m r edits := by
  intro hclaim
  have hclosed := closed_ldnullThrow 65535
  obtain ⟨hdepth, _⟩ := hclaim _ _ [] noSignatures (importMethod_ldnullThrow 65535)
    (hclosed.depthAtMost (by decide)) (hclosed.consistent (by decide))
  have hafter := (hdepth ⟨0, 0x14, 0, none⟩ 0 (.entry (by decide))).2
  revert hafter
  decide

end Throwing

end SignalFxTracing.Il
