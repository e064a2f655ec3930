import SignalFxTracing.Il.Format
import SignalFxTracing.Il.Instr
import SignalFxTracing.Lib.MapOption

/-!
# Import (`ILRewriter::Import`, with `corhlpr.cpp`)

The loop of `ImportIL` reads an instruction, links a node for it and one for
each entry of a switch table. Then the offsets of the targets are resolved to
nodes. An offset that is no instruction fails an assertion and is no result.

## Implementation notes

`IlMethod` is a method body as `COR_ILMETHOD_DECODER` reads it. Its bit fields
have types of at least their width.
-/

namespace SignalFxTracing.Il

open Lib.MapOption

/-- A clause in the fat form. -/
structure FatClause where
  flags : UInt32
  tryOffset : UInt32
  tryLength : UInt32
  handlerOffset : UInt32
  handlerLength : UInt32
  /-- The class token or the offset of the filter. -/
  classTokenOrFilterOffset : UInt32
  deriving DecidableEq

/-- A clause in the small form. -/
structure SmallClause where
  flags : UInt16
  tryOffset : UInt16
  tryLength : UInt8
  handlerOffset : UInt16
  handlerLength : UInt8
  classTokenOrFilterOffset : UInt32

inductive EHSection
  | none
  | small (clauses : List SmallClause)
  | fat (clauses : List FatClause)

inductive IlHeader
  | tiny
  | fat (flags : UInt16) (maxStack : UInt16) (localVarSigTok : UInt32)

structure IlMethod where
  header : IlHeader
  code : List UInt8
  eh : EHSection
  /-- The size of the code is a number of 32 bits. -/
  code_lt : code.length < 2 ^ 32

/-- `CorILMethod_InitLocals`. -/
def corILMethodInitLocals : UInt32 := 0x10

/-- `COR_ILEXCEPTION_CLAUSE_FILTER`. -/
def corILExceptionClauseFilter : UInt32 := 1

namespace IlMethod

variable (m : IlMethod)

def getMaxStack : UInt32 :=
  match m.header with
  | .tiny => 8
  | .fat _ maxStack _ => maxStack.toUInt32

def getLocalVarSigTok : UInt32 :=
  match m.header with
  | .tiny => 0
  | .fat _ _ localVarSigTok => localVarSigTok

/-- `GetFlags`; the tiny format is a flag of its own. -/
def getFlags : UInt32 :=
  match m.header with
  | .tiny => 2
  | .fat flags _ _ => flags.toUInt32

end IlMethod

/-- `SectEH_EHClause` of a small clause. -/
def SmallClause.toFat (c : SmallClause) : FatClause where
  flags := c.flags.toUInt32
  tryOffset := c.tryOffset.toUInt32
  tryLength := c.tryLength.toUInt32
  handlerOffset := c.handlerOffset.toUInt32
  handlerLength := c.handlerLength.toUInt32
  classTokenOrFilterOffset := c.classTokenOrFilterOffset

/-- All clauses in the fat form. -/
def EHSection.clauses : EHSection → List FatClause
  | none => []
  | small clauses => clauses.map SmallClause.toFat
  | fat clauses => clauses

/-- The nodes of an instruction, numbered from `id`. Targets are still offsets. -/
def nodesOf (id : Nat) (i : Instruction) : List ILInstr :=
  match i.operand with
  | .value v => [⟨id, i.opcode, v, none⟩]
  | .target offset => [⟨id, i.opcode, offset, none⟩]
  | .targets offsets =>
      ⟨id, i.opcode, offsets.length, none⟩ ::
        offsets.mapIdx fun k offset => ⟨id + 1 + k, CEE_SWITCH_ARG, offset, none⟩

/-- The nodes of successive instructions, each with the offset of its instruction. -/
def linkNodes : Nat → List (Nat × Instruction) → List (Nat × List ILInstr)
  | _, [] => []
  | id, (offset, i) :: rest =>
      (offset, nodesOf id i) :: linkNodes (id + (nodesOf id i).length) rest

/-- `m_pOffsetToInstr`: the first node of each instruction, by its offset. -/
abbrev OffsetToInstr := List (Nat × InstrRef)

def offsetToInstr (codeSize : Nat) (linked : List (Nat × List ILInstr)) : OffsetToInstr :=
  (linked.map fun entry => (entry.1, (entry.2.head?.map ILInstr.ref).getD .sentinel)) ++
    [(codeSize, .sentinel)]

/-- `GetInstrFromOffset`. -/
def OffsetToInstr.get (table : OffsetToInstr) (offset : Nat) : Option InstrRef :=
  table.lookup offset

/-- The loop that resolves the targets of control flow instructions. -/
def resolveTarget (table : OffsetToInstr) (x : ILInstr) : Option ILInstr :=
  if x.isBranch then (table.get x.arg).map fun target => { x with target := some target }
  else some x

/-- `ImportIL`: the nodes and the table of their offsets. -/
def importIL (code : List UInt8) : Option (List ILInstr × OffsetToInstr) := do
  let instructions ← decode code
  let linked := linkNodes 0 instructions
  let table := offsetToInstr code.length linked
  let il ← (linked.flatMap Prod.snd).mapM (resolveTarget table)
  return (il, table)

/-- The class token, or the node of the filter, of a clause. -/
def importClassOrFilter (table : OffsetToInstr) (c : FatClause) : Option ClassOrFilter :=
  if c.flags &&& corILExceptionClauseFilter = 0 then
    some (.classToken c.classTokenOrFilterOffset)
  else (table.get c.classTokenOrFilterOffset.toNat).map .filter

/-- `ImportEH` of one clause. -/
def importClause (il : List ILInstr) (table : OffsetToInstr) (c : FatClause) :
    Option EHClause := do
  let tryBegin ← table.get c.tryOffset.toNat
  let tryEnd ← table.get (c.tryOffset + c.tryLength).toNat
  let handlerBegin ← table.get c.handlerOffset.toNat
  let handlerNext ← table.get (c.handlerOffset + c.handlerLength).toNat
  let classOrFilter ← importClassOrFilter table c
  return {
    flags := c.flags, tryBegin, tryEnd, handlerBegin, handlerEnd := prevRef il handlerNext,
    classOrFilter }

/-- The rewriter after the header has been read. -/
def importHeader (m : IlMethod) : ILRewriter where
  tkLocalVarSig := m.getLocalVarSigTok
  maxStack := m.getMaxStack
  flags := m.getFlags &&& corILMethodInitLocals
  il := []
  eh := []
  nInstrs := 0

/-- `Import`. Every node is linked by `InsertBefore` of the sentinel. -/
def importMethod (m : IlMethod) : Option ILRewriter := do
  let (il, table) ← importIL m.code
  let eh ← m.eh.clauses.mapM (importClause il table)
  let r := il.foldl (fun r x => r.insertBefore .sentinel x) (importHeader m)
  return { r with eh, nInstrs := il.length }

section Inversion

variable {m : IlMethod} {r : ILRewriter} {table : OffsetToInstr}

/-- Linking every node behind the last one. -/
theorem foldl_insertBefore (il : List ILInstr) (r : ILRewriter) :
    il.foldl (fun r x => r.insertBefore .sentinel x) r =
      { r with
        il := r.il ++ il
        maxStack := r.maxStack + UInt32.ofNat (il.map ILInstr.pushes).sum } := by
  induction il generalizing r with
  | nil => simp
  | cons x rest ih =>
      rw [List.foldl_cons, ih]
      simp only [ILRewriter.insertBefore, ILRewriter.adjustState, List.append_assoc,
        List.singleton_append, List.map_cons, List.sum_cons, UInt32.ofNat_add, UInt32.add_assoc]

/-- What `importIL` and `importEH` give, with the nodes linked. -/
theorem importMethod_eq_some_iff :
    importMethod m = some r ↔
      ∃ il table eh, importIL m.code = some (il, table) ∧
        m.eh.clauses.mapM (importClause il table) = some eh ∧
        r = { importHeader m with
          il, eh, nInstrs := il.length
          maxStack := m.getMaxStack + UInt32.ofNat (il.map ILInstr.pushes).sum } := by
  simp only [importMethod, bind, Option.bind_eq_some_iff, pure, Option.some.injEq, Prod.exists,
    foldl_insertBefore]
  constructor
  · rintro ⟨il, table, hil, eh, heh, rfl⟩
    exact ⟨il, table, eh, hil, heh, rfl⟩
  · rintro ⟨il, table, eh, hil, heh, rfl⟩
    exact ⟨il, table, hil, eh, heh, rfl⟩

/-- The resolved nodes, and their instructions with the offsets. -/
theorem importIL_eq_some_iff {code : List UInt8} {il : List ILInstr} :
    importIL code = some (il, table) ↔
      ∃ instructions, decode code = some instructions ∧
        table = offsetToInstr code.length (linkNodes 0 instructions) ∧
        ((linkNodes 0 instructions).flatMap Prod.snd).mapM (resolveTarget table) = some il := by
  simp only [importIL, bind, Option.bind_eq_some_iff, pure, Option.some.injEq, Prod.mk.injEq]
  constructor
  · rintro ⟨instructions, hdecode, il, hil, rfl, rfl⟩
    exact ⟨instructions, hdecode, rfl, hil⟩
  · rintro ⟨instructions, hdecode, rfl, hil⟩
    exact ⟨instructions, hdecode, il, hil, rfl, rfl⟩

theorem resolveTarget_keeps {x y : ILInstr} (h : resolveTarget table x = some y) :
    y.id = x.id ∧ y.opcode = x.opcode ∧ y.arg = x.arg := by
  unfold resolveTarget at h
  split at h
  · obtain ⟨target, _, rfl⟩ := Option.map_eq_some_iff.mp h
    exact ⟨rfl, rfl, rfl⟩
  · cases h
    exact ⟨rfl, rfl, rfl⟩

/-- An offset of the table denotes the end of the code or a linked node. -/
theorem mem_of_get {codeSize offset : Nat} {linked : List (Nat × List ILInstr)} {ref : InstrRef}
    (hget : (offsetToInstr codeSize linked).get offset = some ref) :
    ref = .sentinel ∨ ∃ x ∈ linked.flatMap Prod.snd, ref = x.ref := by
  obtain ⟨before, after, hsplit, _⟩ := List.lookup_eq_some_iff.mp hget
  have hmem : (offset, ref) ∈ offsetToInstr codeSize linked := by
    simp [hsplit]
  simp only [offsetToInstr, List.mem_append, List.mem_map, List.mem_singleton,
    Prod.mk.injEq] at hmem
  rcases hmem with ⟨entry, hentry, _, rfl⟩ | ⟨_, rfl⟩
  · cases hnodes : entry.2 with
    | nil => exact .inl rfl
    | cons x rest =>
        have hx : x ∈ entry.2 := hnodes ▸ List.mem_cons_self
        exact .inr ⟨x, List.mem_flatMap.mpr ⟨entry, hentry, hx⟩, rfl⟩
  · exact .inl rfl

/-- An offset denotes the end of the code or an imported node. -/
theorem get_of_importIL {code : List UInt8} {il : List ILInstr} {offset : Nat} {ref : InstrRef}
    (h : importIL code = some (il, table)) (hget : table.get offset = some ref) :
    ref = .sentinel ∨ ∃ x ∈ il, ref = x.ref := by
  obtain ⟨instructions, _, rfl, hil⟩ := importIL_eq_some_iff.mp h
  rcases mem_of_get hget with rfl | ⟨x, hx, rfl⟩
  · exact .inl rfl
  · have hids := map_of_mapM hil fun _ _ hxy => (resolveTarget_keeps hxy).1
    have hid : x.id ∈ il.map ILInstr.id := hids ▸ List.mem_map_of_mem hx
    obtain ⟨y, hy, hyid⟩ := List.mem_map.mp hid
    exact .inr ⟨y, hy, congrArg InstrRef.instr hyid.symm⟩

/-- Handlers and filters start at imported nodes, or at the end of the code. -/
theorem starts_of_importMethod (h : importMethod m = some r) {c : EHClause} (hc : c ∈ r.eh)
    {ref : InstrRef} (href : ref = c.handlerBegin ∨ c.classOrFilter = .filter ref) :
    ref = .sentinel ∨ ∃ x ∈ r.il, ref = x.ref := by
  obtain ⟨il, table, eh, hil, heh, rfl⟩ := importMethod_eq_some_iff.mp h
  obtain ⟨c', _, hclause⟩ := exists_of_mem_mapM heh hc
  simp only [importClause, bind, Option.bind_eq_some_iff, pure, Option.some.injEq] at hclause
  obtain ⟨_, _, _, _, handlerBegin, hbegin, _, _, classOrFilter, hfilter, rfl⟩ := hclause
  rcases href with rfl | href
  · exact get_of_importIL hil hbegin
  · dsimp only at href
    subst href
    unfold importClassOrFilter at hfilter
    split at hfilter
    · cases hfilter
    · obtain ⟨ref', hget, heq⟩ := Option.map_eq_some_iff.mp hfilter
      cases heq
      exact get_of_importIL hil hget

end Inversion

end SignalFxTracing.Il
