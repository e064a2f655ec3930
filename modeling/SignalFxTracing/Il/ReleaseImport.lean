import SignalFxTracing.Il.Import

/-!
# Import without assertions (`ILRewriter::Import`)

When assertions are compiled out, an offset that is no instruction resolves to
a null reference. A branch and most places of a clause keep it; from the end of
a handler the previous node is taken at once.

## Implementation notes

A body lies with its header in an image of less than `2^32` bytes, so that no
sum of an offset and the size of an operand overflows.
-/

namespace SignalFxTracing.Il

open Lib.MapOption

inductive NullableClassOrFilter
  | classToken (token : UInt32)
  | filter (begin_ : Option InstrRef)

/-- A clause whose places may be null. -/
structure NullableClause where
  flags : UInt32
  tryBegin : Option InstrRef
  tryEnd : Option InstrRef
  handlerBegin : Option InstrRef
  handlerEnd : InstrRef
  classOrFilter : NullableClassOrFilter

/-- How `Import` ends; of a success the clauses are apart. -/
inductive ImportResult
  | failure
  | nullDereference
  | success (r : ILRewriter) (eh : List NullableClause)

section Import

/-- The loop that resolves the targets. -/
def resolveOrNull (table : OffsetToInstr) (x : ILInstr) : ILInstr :=
  if x.isBranch then { x with target := table.get x.arg } else x

/-- `ImportEH` of one clause; `none` when the end of the handler is null. -/
def importClauseOrNull (il : List ILInstr) (table : OffsetToInstr) (c : FatClause) :
    Option NullableClause :=
  (table.get (c.handlerOffset + c.handlerLength).toNat).map fun handlerNext =>
    { flags := c.flags
      tryBegin := table.get c.tryOffset.toNat
      tryEnd := table.get (c.tryOffset + c.tryLength).toNat
      handlerBegin := table.get c.handlerOffset.toNat
      handlerEnd := prevRef il handlerNext
      classOrFilter :=
        if c.flags &&& corILExceptionClauseFilter = 0 then
          .classToken c.classTokenOrFilterOffset
        else .filter (table.get c.classTokenOrFilterOffset.toNat) }

/-- `Import`. -/
def importRelease (m : IlMethod) : ImportResult :=
  match decode m.code with
  | none => .failure
  | some instructions =>
      let linked := linkNodes 0 instructions
      let table := offsetToInstr m.code.length linked
      let il := (linked.flatMap Prod.snd).map (resolveOrNull table)
      match m.eh.clauses.mapM (importClauseOrNull il table) with
      | none => .nullDereference
      | some eh =>
          let r := il.foldl (fun r x => r.insertBefore .sentinel x) (importHeader m)
          .success { r with nInstrs := il.length } eh

end Import

section Resolved

/-- The reference is to a node of the list or to its end. -/
def IsPlace (il : List ILInstr) (ref : Option InstrRef) : Prop :=
  ref = some .sentinel ∨ ∃ x ∈ il, ref = some x.ref

/-- All the places that `Export` goes to. -/
structure NullableClause.IsResolved (il : List ILInstr) (c : NullableClause) : Prop where
  tryBegin : IsPlace il c.tryBegin
  tryEnd : IsPlace il c.tryEnd
  handlerBegin : IsPlace il c.handlerBegin
  handlerEnd : IsPlace il (some c.handlerEnd)
  filter : ∀ begin_, c.classOrFilter = .filter begin_ → IsPlace il begin_

def ImportResult.IsResolved : ImportResult → Prop
  | .failure => True
  | .nullDereference => False
  | .success r eh =>
      (∀ x ∈ r.il, x.isBranch = true → IsPlace r.il x.target) ∧
        ∀ c ∈ eh, c.IsResolved r.il

/-- The loop over the bytes ends, with a failure or with everything resolved. -/
def ImportsSafely (m : IlMethod) : Prop :=
  (∀ more, decodeFrom (m.code.length + more) 0 m.code = decode m.code) ∧
    (importRelease m).IsResolved

end Resolved

section Offsets

/-- The offsets that control may go to. -/
def Instruction.offsets (i : Instruction) : List Nat :=
  match i.operand with
  | .value _ => []
  | .target offset => [offset]
  | .targets offsets => offsets

/-- The offsets of the places of a clause. -/
def FatClause.offsets (c : FatClause) : List Nat :=
  [c.tryOffset.toNat, (c.tryOffset + c.tryLength).toNat, c.handlerOffset.toNat,
    (c.handlerOffset + c.handlerLength).toNat] ++
  if c.flags &&& corILExceptionClauseFilter = 0 then []
  else [c.classTokenOrFilterOffset.toNat]

/-- An instruction starts at the offset, or the code ends there. -/
def IsStart (m : IlMethod) (instructions : List (Nat × Instruction)) (offset : Nat) : Prop :=
  offset ∈ instructions.map Prod.fst ∨ offset = m.code.length

/-- All offsets in the body denote instructions or its end. -/
def OffsetsAreStarts (m : IlMethod) : Prop :=
  ∀ instructions, decode m.code = some instructions →
    (∀ entry ∈ instructions, ∀ offset ∈ entry.2.offsets, IsStart m instructions offset) ∧
      ∀ c ∈ m.eh.clauses, ∀ offset ∈ c.offsets, IsStart m instructions offset

variable {m : IlMethod} {instructions : List (Nat × Instruction)}

theorem fst_linkNodes (id : Nat) (instructions : List (Nat × Instruction)) :
    (linkNodes id instructions).map Prod.fst = instructions.map Prod.fst := by
  induction instructions generalizing id with
  | nil => rfl
  | cons entry rest ih =>
      obtain ⟨offset, i⟩ := entry
      rw [linkNodes, List.map_cons, List.map_cons, ih]

theorem get_isSome_iff (id offset : Nat) :
    ((offsetToInstr m.code.length (linkNodes id instructions)).get offset).isSome ↔
      IsStart m instructions offset := by
  have hlookup : ∀ table : OffsetToInstr, (table.get offset).isSome ↔
      offset ∈ table.map Prod.fst := by
    intro table
    rw [OffsetToInstr.get]
    induction table with
    | nil => simp
    | cons entry rest ih =>
        obtain ⟨start, ref⟩ := entry
        by_cases h : offset = start
        · simp [h]
        · have hne : (offset == start) = false := beq_eq_false_iff_ne.mpr h
          rw [List.lookup_cons, hne]
          simp [h, ih]
  rw [hlookup, offsetToInstr, IsStart, ← fst_linkNodes id]
  simp [Function.comp_def]

/-- The branches among the nodes of an instruction go to its offsets. -/
theorem forall_branch_nodesOf_iff {id : Nat} {i : Instruction} (h : i.WellTyped)
    {p : Nat → Prop} :
    (∀ x ∈ nodesOf id i, x.isBranch = true → p x.arg) ↔ ∀ offset ∈ i.offsets, p offset := by
  obtain ⟨opcode, operand⟩ := i
  rw [Instruction.WellTyped] at h
  cases hflags : opCodeFlags opcode with
  | operand size =>
      cases operand with
      | value v => simp [nodesOf, Instruction.offsets, ILInstr.isBranch, hflags]
      | target offset => simp [hflags] at h
      | targets offsets => simp [hflags] at h
  | branchTarget size =>
      cases operand with
      | value v => simp [hflags] at h
      | target offset => simp [nodesOf, Instruction.offsets, ILInstr.isBranch, hflags]
      | targets offsets => simp [hflags] at h
  | switch =>
      cases operand with
      | value v => simp [hflags] at h
      | target offset => simp [hflags] at h
      | targets offsets =>
          have hswitch : ILInstr.isBranch ⟨id, opcode, offsets.length, none⟩ = false := by
            simp [ILInstr.isBranch, hflags]
          simp only [nodesOf, Instruction.offsets, List.forall_mem_cons, hswitch,
            Bool.false_eq_true, false_implies, true_and]
          constructor
          · intro h offset hoffset
            obtain ⟨k, hk, rfl⟩ := List.mem_iff_getElem.mp hoffset
            exact h _ (List.mem_mapIdx.mpr ⟨k, hk, rfl⟩) rfl
          · intro h x hx _
            obtain ⟨k, hk, rfl⟩ := List.mem_mapIdx.mp hx
            exact h _ (List.getElem_mem hk)

theorem forall_branch_linkNodes_iff {id : Nat}
    (h : ∀ entry ∈ instructions, entry.2.WellTyped) {p : Nat → Prop} :
    (∀ x ∈ (linkNodes id instructions).flatMap Prod.snd, x.isBranch = true → p x.arg) ↔
      ∀ entry ∈ instructions, ∀ offset ∈ entry.2.offsets, p offset := by
  induction instructions generalizing id with
  | nil => simp [linkNodes]
  | cons entry rest ih =>
      obtain ⟨offset, i⟩ := entry
      obtain ⟨hfirst, hrest⟩ := List.forall_mem_cons.mp h
      rw [linkNodes, List.flatMap_cons, List.forall_mem_append, List.forall_mem_cons,
        forall_branch_nodesOf_iff hfirst, ih hrest]

end Offsets

section Places

theorem isPlace_prevRef (il : List ILInstr) (ref : InstrRef) :
    IsPlace il (some (prevRef il ref)) := by
  have hlast : ∀ l : List ILInstr, (∀ x ∈ l, x ∈ il) →
      IsPlace il (some ((l.getLast?.map ILInstr.ref).getD .sentinel)) := by
    intro l hl
    cases hlast : l.getLast? with
    | none => exact Or.inl rfl
    | some x => exact Or.inr ⟨x, hl x (List.mem_of_getLast? hlast), rfl⟩
  cases ref with
  | sentinel => exact hlast il fun _ hx => hx
  | instr id => exact hlast _ fun _ hx => (List.takeWhile_prefix _).subset hx

variable {codeSize id offset : Nat} {instructions : List (Nat × Instruction)}

/-- The nodes of a table are those of the list. -/
theorem isPlace_get_iff :
    IsPlace
      (((linkNodes id instructions).flatMap Prod.snd).map
        (resolveOrNull (offsetToInstr codeSize (linkNodes id instructions))))
      ((offsetToInstr codeSize (linkNodes id instructions)).get offset) ↔
      ((offsetToInstr codeSize (linkNodes id instructions)).get offset).isSome := by
  constructor
  · rintro (h | ⟨x, -, h⟩)
    · rw [h]
      rfl
    · rw [h]
      rfl
  · intro hsome
    obtain ⟨ref, hget⟩ := Option.isSome_iff_exists.mp hsome
    rw [hget]
    rcases mem_of_get hget with rfl | ⟨x, hx, rfl⟩
    · exact Or.inl rfl
    · refine Or.inr ⟨_, List.mem_map_of_mem hx, ?_⟩
      rw [resolveOrNull]
      split_ifs <;> rfl

theorem forall_offsets_iff {c : FatClause} {p : Nat → Prop} :
    (∀ offset ∈ c.offsets, p offset) ↔
      p c.tryOffset.toNat ∧ p (c.tryOffset + c.tryLength).toNat ∧ p c.handlerOffset.toNat ∧
        p (c.handlerOffset + c.handlerLength).toNat ∧
        (¬ c.flags &&& corILExceptionClauseFilter = 0 → p c.classTokenOrFilterOffset.toNat) := by
  rw [FatClause.offsets]
  split_ifs with hflags
  · simp only [List.append_nil, List.forall_mem_cons, List.not_mem_nil, false_implies,
      implies_true, and_true, hflags, not_true]
  · simp only [List.cons_append, List.nil_append, List.forall_mem_cons, List.not_mem_nil,
      false_implies, implies_true, and_true, hflags, not_false_eq_true, true_implies]

theorem exists_importClauseOrNull_iff {c : FatClause} {table : OffsetToInstr}
    {il : List ILInstr} (hplace : ∀ offset, IsPlace il (table.get offset) ↔
      (table.get offset).isSome) :
    (∃ c', importClauseOrNull il table c = some c' ∧ c'.IsResolved il) ↔
      ∀ offset ∈ c.offsets, (table.get offset).isSome := by
  simp only [forall_offsets_iff, ← hplace]
  constructor
  · rintro ⟨c', hc', htryBegin, htryEnd, hhandlerBegin, -, hfilter⟩
    obtain ⟨handlerNext, hnext, rfl⟩ := Option.map_eq_some_iff.mp hc'
    refine ⟨htryBegin, htryEnd, hhandlerBegin, ?_, fun hflags => hfilter _ (if_neg hflags)⟩
    rw [hplace, hnext]
    rfl
  · rintro ⟨htryBegin, htryEnd, hhandlerBegin, hhandlerEnd, hfilter⟩
    obtain ⟨handlerNext, hnext⟩ := Option.isSome_iff_exists.mp ((hplace _).mp hhandlerEnd)
    refine ⟨_, congrArg (Option.map _) hnext, htryBegin, htryEnd, hhandlerBegin,
      isPlace_prevRef il handlerNext, ?_⟩
    intro begin_ hbegin
    dsimp only at hbegin
    split_ifs at hbegin with hflags
    obtain rfl := NullableClassOrFilter.filter.inj hbegin
    exact hfilter hflags

end Places

section Safety

variable {m : IlMethod}

theorem importRelease_isResolved_iff {instructions : List (Nat × Instruction)}
    (hdecode : decode m.code = some instructions) :
    (importRelease m).IsResolved ↔
      (∀ entry ∈ instructions, ∀ offset ∈ entry.2.offsets, IsStart m instructions offset) ∧
        ∀ c ∈ m.eh.clauses, ∀ offset ∈ c.offsets, IsStart m instructions offset := by
  let table := offsetToInstr m.code.length (linkNodes 0 instructions)
  let il := ((linkNodes 0 instructions).flatMap Prod.snd).map (resolveOrNull table)
  have hplace : ∀ offset, IsPlace il (table.get offset) ↔ (table.get offset).isSome :=
    fun _ => isPlace_get_iff
  have hstart : ∀ offset, (table.get offset).isSome ↔ IsStart m instructions offset :=
    get_isSome_iff 0
  have hresult : (importRelease m).IsResolved ↔
      (∀ x ∈ il, x.isBranch = true → IsPlace il x.target) ∧
        ∃ eh, m.eh.clauses.mapM (importClauseOrNull il table) = some eh ∧
          ∀ c ∈ eh, c.IsResolved il := by
    rw [importRelease, hdecode]
    change ImportResult.IsResolved (match m.eh.clauses.mapM (importClauseOrNull il table) with
      | none => _
      | some eh => _) ↔ _
    cases m.eh.clauses.mapM (importClauseOrNull il table) with
    | none => simp [ImportResult.IsResolved]
    | some eh => simp [ImportResult.IsResolved, foldl_insertBefore, importHeader, il, table]
  have hbranches : (∀ x ∈ il, x.isBranch = true → IsPlace il x.target) ↔
      ∀ entry ∈ instructions, ∀ offset ∈ entry.2.offsets, IsStart m instructions offset := by
    rw [← @forall_branch_linkNodes_iff _ 0 (decodeFrom_wellTyped hdecode), List.forall_mem_map]
    apply forall₂_congr
    intro x _
    rw [resolveOrNull]
    split_ifs with hbranch
    · exact imp_congr Iff.rfl ((hplace x.arg).trans (hstart x.arg))
    · exact iff_of_true (fun h => absurd h hbranch) fun h => absurd h hbranch
  rw [hresult, hbranches, exists_mapM_forall_iff]
  simp only [exists_importClauseOrNull_iff hplace, hstart]

theorem importsSafely_iff (m : IlMethod) : ImportsSafely m ↔ OffsetsAreStarts m := by
  have hends : ∀ more, decodeFrom (m.code.length + more) 0 m.code = decode m.code :=
    fun more => decodeFrom_fuel (Nat.le_add_right _ _)
  rw [ImportsSafely, and_iff_right hends, OffsetsAreStarts]
  cases hdecode : decode m.code with
  | none => simp [importRelease, hdecode, ImportResult.IsResolved]
  | some instructions => simp [importRelease_isResolved_iff hdecode]

/-- `br.s` to behind the end of the body. -/
def branchBehindEnd : IlMethod where
  header := .tiny
  code := [0x2B, 0x05]
  eh := .none
  code_lt := by decide

theorem not_importsSafely : ¬ ImportsSafely branchBehindEnd := by
  rintro ⟨-, hresolved⟩
  have hdecode : decode branchBehindEnd.code = some [(0, ⟨CEE_BR_S, .target 7⟩)] := by
    decide +kernel
  have himport : importRelease branchBehindEnd =
      .success
        { importHeader branchBehindEnd with il := [⟨0, CEE_BR_S, 7, none⟩], nInstrs := 1 } [] := by
    rw [importRelease, hdecode]
    rfl
  rw [himport] at hresolved
  rcases hresolved.1 ⟨0, CEE_BR_S, 7, none⟩ List.mem_cons_self rfl with hnull | ⟨x, -, hnull⟩
  · cases hnull
  · cases hnull

end Safety

end SignalFxTracing.Il
