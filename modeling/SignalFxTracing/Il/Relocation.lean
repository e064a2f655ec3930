import SignalFxTracing.Il.ExportBody
import SignalFxTracing.Il.Insertions

/-!
# The same program at other offsets

A body is exported with the instructions of another one at new offsets. A map of
the offsets at which instructions start takes every target and every place of a
clause along.
-/

namespace SignalFxTracing.Il

section Relations

variable (φ : Nat → Nat)

/-- The operand with its offsets in the other body. -/
def Operand.relocate : Operand → Operand
  | .value v => .value v
  | .target offset => .target (φ offset)
  | .targets offsets => .targets (offsets.map φ)

/-- The same instruction at its new offset; a short branch may have become long. -/
structure Relocated (entry entry' : Nat × Instruction) : Prop where
  offset : entry'.1 = φ entry.1
  opcode : entry'.2.opcode = entry.2.opcode ∨
    isLongForm entry.2.opcode entry'.2.opcode = true
  operand : entry'.2.operand = entry.2.operand.relocate φ

/-- The clause has the same flags, its regions start and its try block ends at the same
instructions, and it catches the same class or filters with the same instructions. -/
structure SameStarts (c c' : FatClause) : Prop where
  flags : c'.flags = c.flags
  tryBegin : c'.tryOffset.toNat = φ c.tryOffset.toNat
  tryEnd : (c'.tryOffset + c'.tryLength).toNat = φ (c.tryOffset + c.tryLength).toNat
  handlerBegin : c'.handlerOffset.toNat = φ c.handlerOffset.toNat
  classToken : c.flags &&& corILExceptionClauseFilter = 0 →
    c'.classTokenOrFilterOffset = c.classTokenOrFilterOffset
  filter : c.flags &&& corILExceptionClauseFilter ≠ 0 →
    c'.classTokenOrFilterOffset.toNat = φ c.classTokenOrFilterOffset.toNat

/-- The handler also ends at the same instruction. -/
structure SameRegions (c c' : FatClause) : Prop extends SameStarts φ c c' where
  handlerEnd : (c'.handlerOffset + c'.handlerLength).toNat =
    φ (c.handlerOffset + c.handlerLength).toNat

variable (m m' : IlMethod)

/-- The instructions of `m` are found in `m'`, in their order, among others. -/
structure ContainsProgram (P P' : List (Nat × Instruction)) : Prop where
  decodes : decode m.code = some P ∧ decode m'.code = some P'
  order : StrictMonoOn φ {offset | IsStart m P offset}
  end_ : φ m.code.length = m'.code.length
  instructions : List.Forall₂ (Relocated φ) P
    (P'.filter fun entry => entry.1 ∈ P.map fun entry => φ entry.1)
  clauses : List.Forall₂ (SameStarts φ) m.eh.clauses m'.eh.clauses

/-- Both bodies have the same program. -/
structure SameProgram (P P' : List (Nat × Instruction)) : Prop extends
    ContainsProgram φ m m' P P' where
  all : List.Forall₂ (Relocated φ) P P'
  regions : List.Forall₂ (SameRegions φ) m.eh.clauses m'.eh.clauses

end Relations

section Widening

variable {il il' : List ILInstr} {φ : Nat → Nat} {oldOffset newOffset : InstrRef → Nat}
  {x y : ILInstr}

theorem supported_longForm {opcode : Nat} (h : opCodeFlags opcode = .branchTarget 1) :
    supported (longForm opcode) = true ∧ longForm opcode ≠ CEE_PREFIX1 ∧
      longForm opcode ≠ CEE_SWITCH := by
  have hne : opcode ≠ CEE_SWITCH_ARG := by
    rintro rfl
    cases h
  have hall : ∀ opcode < CEE_COUNT, opCodeFlags opcode = .branchTarget 1 →
      supported (longForm opcode) = true ∧ longForm opcode ≠ CEE_PREFIX1 ∧
        longForm opcode ≠ CEE_SWITCH := by decide +kernel
  exact hall opcode (lt_of_branchTarget h hne) h

theorem not_isSwitchArg_of_isShort (h : x.isShort = true) : x.isSwitchArg = false := by
  have hflags := ILInstr.opCodeFlags_of_isShort h
  rw [ILInstr.isSwitchArg, beq_eq_false_iff_ne]
  intro hopcode
  rw [hopcode] at hflags
  cases hflags

/-- A long branch stands where the short one has been. -/
theorem isSwitchArg_of_widened (h : y = x ∨ x.isShort = true ∧ y = x.widen) :
    y.isSwitchArg = x.isSwitchArg := by
  obtain rfl | ⟨hshort, rfl⟩ := h
  · rfl
  · rw [not_isSwitchArg_of_isShort hshort]
    exact isSwitchArg_of_supported
      (supported_longForm (ILInstr.opCodeFlags_of_isShort hshort)).1

theorem Widened.encodable (h : Widened il il') (hil : ∀ x ∈ il, x.Encodable) :
    ∀ y ∈ il', y.Encodable := by
  intro y hy
  obtain ⟨x, hx, rfl | ⟨hshort, rfl⟩⟩ := h.exists_of_mem hy
  · exact hil _ hx
  · have hlong := supported_longForm (ILInstr.opCodeFlags_of_isShort hshort)
    exact Or.inr ⟨hlong.1, hlong.2.1⟩

theorem Widened.tabled {n : Nat} (h : Widened il il') (hil : Tabled n il) : Tabled n il' := by
  induction h generalizing n with
  | nil => cases n with
    | zero => exact hil
    | succ n => cases hil
  | @cons x y il il' hxy _ ih =>
      have harg := isSwitchArg_of_widened hxy
      cases n with
      | succ n => exact ⟨harg.trans hil.1, ih hil.2⟩
      | zero =>
          refine ⟨harg.trans hil.1, ?_⟩
          obtain rfl | ⟨hshort, rfl⟩ := hxy
          · exact ih hil.2
          · have hflags := ILInstr.opCodeFlags_of_isShort hshort
            have hswitch : x.opcode ≠ CEE_SWITCH := by
              intro hopcode
              rw [hopcode] at hflags
              cases hflags
            have hrest := ih hil.2
            rw [if_neg hswitch] at hrest
            have hlong : x.widen.opcode ≠ CEE_SWITCH := (supported_longForm hflags).2.2
            rw [if_neg hlong]
            exact hrest

/-- Nodes that have been inserted among others can also be inserted before branches become long. -/
theorem Interleaved.exists_widened {il'' : List ILInstr} (h : Interleaved il il')
    (hwidened : Widened il' il'') : ∃ il₀, Widened il il₀ ∧ Interleaved il₀ il'' := by
  induction h generalizing il'' with
  | nil =>
      obtain rfl := List.forall₂_nil_left_iff.mp hwidened
      exact ⟨[], .nil, .nil⟩
  | kept _ ih =>
      obtain ⟨y, rest, hy, hrest, rfl⟩ := List.forall₂_cons_left_iff.mp hwidened
      obtain ⟨il₀, hil₀, hinterleaved⟩ := ih hrest
      exact ⟨y :: il₀, .cons hy hil₀, .kept hinterleaved⟩
  | inserted hfirst _ ih =>
      obtain ⟨y, rest, -, hrest, rfl⟩ := List.forall₂_cons_left_iff.mp hwidened
      obtain ⟨il₀, hil₀, hinterleaved⟩ := ih hrest
      refine ⟨il₀, hil₀, .inserted ?_ hinterleaved⟩
      intro z hz
      cases hil₀ with
      | nil => cases hz
      | cons hxy _ =>
          obtain rfl := Option.some.inj hz
          rw [isSwitchArg_of_widened hxy]
          exact hfirst _ rfl

theorem targetOf_of_widened {offsetOf : InstrRef → Nat}
    (h : y = x ∨ x.isShort = true ∧ y = x.widen) :
    targetOf offsetOf y = targetOf offsetOf x := by
  obtain rfl | ⟨-, rfl⟩ := h
  · rfl
  · rfl

theorem isBranch_of_isSwitchArg (h : x.isSwitchArg = true) : x.isBranch = true := by
  rw [ILInstr.isBranch, eq_of_beq h]
  rfl

/-- The entries in front go to the new offsets of their targets. -/
theorem Widened.map_targetOf_takeWhile (h : Widened il il')
    (htargets : ∀ x ∈ il, x.isBranch = true → targetOf newOffset x = φ (targetOf oldOffset x)) :
    (il'.takeWhile ILInstr.isSwitchArg).map (targetOf newOffset) =
      ((il.takeWhile ILInstr.isSwitchArg).map (targetOf oldOffset)).map φ := by
  induction h with
  | nil => rfl
  | @cons x y il il' hxy _ ih =>
      obtain ⟨hx, htargets⟩ := List.forall_mem_cons.mp htargets
      have harg := isSwitchArg_of_widened hxy
      by_cases hswitch : x.isSwitchArg = true
      · rw [List.takeWhile_cons_of_pos hswitch, List.takeWhile_cons_of_pos (harg.trans hswitch),
          List.map_cons, List.map_cons, List.map_cons, ih htargets, targetOf_of_widened hxy,
          hx (isBranch_of_isSwitchArg hswitch)]
      · rw [List.takeWhile_cons_of_neg hswitch, List.takeWhile_cons_of_neg (by rwa [harg])]
        rfl

/-- The instructions at their new offsets. -/
theorem Widened.relocated_programOf (h : Widened il il')
    (hstarts : ∀ x ∈ il, x.isSwitchArg = false → newOffset x.ref = φ (oldOffset x.ref))
    (htargets : ∀ x ∈ il, x.isBranch = true → targetOf newOffset x = φ (targetOf oldOffset x)) :
    List.Forall₂ (Relocated φ) (programOf oldOffset il) (programOf newOffset il') := by
  induction h with
  | nil => exact .nil
  | @cons x y il il' hxy hrest ih =>
      obtain ⟨hx, hstarts⟩ := List.forall_mem_cons.mp hstarts
      obtain ⟨hxtarget, hrestTargets⟩ := List.forall_mem_cons.mp htargets
      have harg := isSwitchArg_of_widened hxy
      rw [programOf, programOf, harg]
      by_cases hswitch : x.isSwitchArg = true
      · rw [if_pos hswitch, if_pos hswitch]
        exact ih hstarts hrestTargets
      · rw [if_neg hswitch, if_neg hswitch]
        refine .cons ?_ (ih hstarts hrestTargets)
        rw [Bool.not_eq_true] at hswitch
        obtain rfl | ⟨hshort, rfl⟩ := hxy
        · refine ⟨hx hswitch, Or.inl rfl, ?_⟩
          dsimp only
          rw [operandOf, operandOf]
          cases hflags : opCodeFlags y.opcode with
          | operand size => rfl
          | branchTarget size =>
              have hbranch : y.isBranch = true := by rw [ILInstr.isBranch, hflags]
              dsimp only [Operand.relocate]
              rw [hxtarget hbranch]
          | switch =>
              dsimp only [Operand.relocate]
              rw [Widened.map_targetOf_takeWhile hrest hrestTargets]
        · have hflags := ILInstr.opCodeFlags_of_isShort hshort
          have hlong : opCodeFlags x.widen.opcode = .branchTarget 4 := opCodeFlags_longForm hflags
          refine ⟨hx hswitch, Or.inr (isLongForm_longForm hflags), ?_⟩
          dsimp only
          rw [operandOf, operandOf, hflags, hlong]
          dsimp only [Operand.relocate]
          rw [← hxtarget (ILInstr.isBranch_of_isShort hshort)]
          rfl

end Widening

end SignalFxTracing.Il
