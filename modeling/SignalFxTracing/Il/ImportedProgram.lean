import SignalFxTracing.Il.Program

/-!
# The program of an imported body

The nodes that `ImportIL` links stand for the instructions that it reads, when
each reference is taken back to the offset that it was resolved from.
-/

namespace SignalFxTracing.Il

open Lib.LittleEndian Lib.MapOption

/-- An instruction as it is read from bytes. -/
structure Instruction.IsRead (i : Instruction) : Prop where
  supported : supported i.opcode = true
  single : i.opcode ≠ CEE_PREFIX1
  wellTyped : i.WellTyped
  value : ∀ size v, opCodeFlags i.opcode = .operand size → i.operand = .value v → v < 256 ^ size

section Read

variable {offset opcode : Nat} {bytes rest : List UInt8} {i : Instruction}

theorem fetchOpcode_ne (h : fetchOpcode bytes = some (opcode, rest)) : opcode ≠ CEE_PREFIX1 := by
  cases bytes with
  | nil => cases h
  | cons b after =>
      by_cases hlead : b.toNat = CEE_PREFIX1
      · simp only [fetchOpcode, if_pos hlead] at h
        cases after with
        | nil => cases h
        | cons c after =>
            simp only [Option.ite_none_right_eq_some, Option.some.injEq, Prod.mk.injEq] at h
            obtain ⟨-, rfl, -⟩ := h
            rw [CEE_PREFIX1]
            omega
      · simp only [fetchOpcode, if_neg hlead, Option.ite_none_right_eq_some, Option.some.injEq,
          Prod.mk.injEq] at h
        obtain ⟨-, rfl, -⟩ := h
        exact hlead

theorem isRead_of_fetch (h : fetch offset bytes = some (i, rest)) : i.IsRead := by
  obtain ⟨middle, start, hopcode, hoperand⟩ := fetch_eq_some h
  refine ⟨(fetchOpcode_length hopcode).2, fetchOpcode_ne hopcode,
    fetchOperand_wellTyped hoperand, ?_⟩
  intro size v hflags hvalue
  simp only [fetchOperand, hflags, bind, Option.bind_eq_some_iff, pure, Option.some.injEq,
    Prod.mk.injEq, Prod.exists] at hoperand
  obtain ⟨w, _, hread, heq, -⟩ := hoperand
  rw [hvalue] at heq
  obtain rfl := Operand.value.inj heq
  exact read_lt hread

/-- The instructions of a body lie one behind the other. -/
theorem pairwise_decodeFrom {fuel : Nat} {instructions : List (Nat × Instruction)}
    (h : decodeFrom fuel offset bytes = some instructions) :
    (instructions.map Prod.fst ++ [offset + bytes.length]).Pairwise (· < ·) ∧
      ∀ start ∈ instructions.map Prod.fst ++ [offset + bytes.length], offset ≤ start := by
  induction fuel generalizing offset bytes instructions with
  | zero =>
      cases bytes with
      | nil =>
          obtain rfl := Option.some.inj h
          simp
      | cons b rest => cases h
  | succ fuel ih =>
      cases bytes with
      | nil =>
          obtain rfl := Option.some.inj h
          simp
      | cons b rest =>
          simp only [decodeFrom, bind, Option.bind_eq_some_iff, pure, Option.some.injEq,
            Prod.exists] at h
          obtain ⟨i, after, hfetch, others, hothers, rfl⟩ := h
          have hlength := fetch_length hfetch
          obtain ⟨hpairwise, hle⟩ := ih hothers
          have hend : offset + ((b :: rest).length - after.length) + after.length =
              offset + (b :: rest).length := by omega
          rw [hend] at hpairwise hle
          rw [List.map_cons, List.cons_append, List.pairwise_cons, List.forall_mem_cons]
          refine ⟨⟨fun start hstart => ?_, hpairwise⟩, Nat.le_refl _, fun start hstart => ?_⟩
          · have hstart := hle start hstart
            omega
          · have hstart := hle start hstart
            omega

end Read

/-- The offset that a reference was resolved from. -/
def OffsetToInstr.offsetOf (table : OffsetToInstr) (ref : InstrRef) : Nat :=
  ((table.find? fun entry => entry.2 = ref).map Prod.fst).getD 0

section Tables

variable {table : OffsetToInstr} {offset : Nat} {ref : InstrRef}

theorem OffsetToInstr.offsetOf_of_mem (hnodup : (table.map Prod.snd).Nodup)
    (h : (offset, ref) ∈ table) : table.offsetOf ref = offset := by
  induction table with
  | nil => cases h
  | cons entry rest ih =>
      rw [List.map_cons, List.nodup_cons] at hnodup
      rw [offsetOf, List.find?_cons]
      obtain rfl | hrest := List.mem_cons.mp h
      · rw [decide_eq_true rfl]
        rfl
      · have hne : entry.2 ≠ ref := by
          intro heq
          apply hnodup.1
          rw [heq]
          exact List.mem_map_of_mem (f := Prod.snd) hrest
        rw [decide_eq_false hne]
        exact ih hnodup.2 hrest

theorem OffsetToInstr.mem_of_get_eq_some (h : table.get offset = some ref) :
    (offset, ref) ∈ table := by
  obtain ⟨before, after, rfl, -⟩ := List.lookup_eq_some_iff.mp h
  exact List.mem_append_right before List.mem_cons_self

theorem OffsetToInstr.get_of_mem (hnodup : (table.map Prod.fst).Nodup)
    (h : (offset, ref) ∈ table) : table.get offset = some ref := by
  obtain ⟨before, after, rfl⟩ := List.append_of_mem h
  rw [List.map_append, List.nodup_append] at hnodup
  refine List.lookup_eq_some_iff.mpr ⟨before, after, rfl, fun entry hentry => ?_⟩
  have hne := hnodup.2.2 _ (List.mem_map_of_mem hentry) _ (List.mem_map_of_mem List.mem_cons_self)
  exact bne_iff_ne.mpr (Ne.symm hne)

theorem nodesOf_eq_cons (id : Nat) (i : Instruction) : ∃ rest,
    nodesOf id i = ⟨id, i.opcode, ((nodesOf id i).head?.map ILInstr.arg).getD 0, none⟩ :: rest := by
  rw [nodesOf]
  cases i.operand with
  | value v => exact ⟨[], rfl⟩
  | target offset => exact ⟨[], rfl⟩
  | targets offsets => exact ⟨_, rfl⟩

/-- The references of the table are first nodes of instructions. -/
theorem map_head_sublist (id : Nat) (instructions : List (Nat × Instruction)) :
    ((linkNodes id instructions).map fun entry =>
        (entry.2.head?.map ILInstr.ref).getD .sentinel).Sublist
      (((linkNodes id instructions).flatMap Prod.snd).map ILInstr.ref) := by
  induction instructions generalizing id with
  | nil => exact List.Sublist.refl _
  | cons entry rest ih =>
      obtain ⟨offset, i⟩ := entry
      obtain ⟨others, hnodes⟩ := nodesOf_eq_cons id i
      rw [linkNodes, List.map_cons, List.flatMap_cons, List.map_append]
      dsimp only
      rw [hnodes, List.head?_cons, Option.map_some, Option.getD_some, List.map_cons,
        List.cons_append]
      exact ((ih _).trans (List.sublist_append_right _ _)).cons_cons _

theorem nodup_offsetToInstr (codeSize : Nat) (instructions : List (Nat × Instruction)) :
    ((offsetToInstr codeSize (linkNodes 0 instructions)).map Prod.snd).Nodup := by
  have hids : (((linkNodes 0 instructions).flatMap Prod.snd).map ILInstr.id).Nodup := by
    rw [ids_linkNodes]
    exact List.nodup_range'
  have hrefs : (((linkNodes 0 instructions).flatMap Prod.snd).map ILInstr.ref).Nodup := by
    have hmap := hids.map (fun a b hab => InstrRef.instr.inj hab : Function.Injective InstrRef.instr)
    rw [List.map_map] at hmap
    exact hmap
  have hsub := map_head_sublist 0 instructions
  rw [offsetToInstr, List.map_append, List.map_map, List.nodup_append]
  refine ⟨hsub.nodup hrefs, List.nodup_singleton _, ?_⟩
  intro a ha b hb
  obtain rfl := List.mem_singleton.mp hb
  obtain ⟨x, -, rfl⟩ := List.mem_map.mp (hsub.subset ha)
  intro heq
  cases heq

end Tables

section Programs

variable {table : OffsetToInstr} {offsetOf : InstrRef → Nat}

theorem Tabled.append {args rest : List ILInstr} (hargs : ∀ x ∈ args, x.isSwitchArg = true)
    (hrest : Tabled 0 rest) : Tabled args.length (args ++ rest) := by
  induction args with
  | nil => exact hrest
  | cons x args ih =>
      obtain ⟨hx, hargs⟩ := List.forall_mem_cons.mp hargs
      exact ⟨hx, ih hargs⟩

theorem isSwitchArg_of_supported {x : ILInstr} (h : supported x.opcode = true) :
    x.isSwitchArg = false := by
  rw [ILInstr.isSwitchArg, beq_eq_false_iff_ne]
  intro hopcode
  rw [hopcode] at h
  cases h

/-- A branch is resolved to the node of its offset. -/
theorem resolveTarget_of_isBranch (hget : ∀ offset ref, table.get offset = some ref →
    offsetOf ref = offset) {x y : ILInstr} (hbranch : x.isBranch = true)
    (h : resolveTarget table x = some y) :
    y.opcode = x.opcode ∧ y.id = x.id ∧ targetOf offsetOf y = x.arg := by
  rw [resolveTarget, if_pos hbranch] at h
  obtain ⟨ref, href, rfl⟩ := Option.map_eq_some_iff.mp h
  exact ⟨rfl, rfl, hget _ _ href⟩

theorem resolveTarget_of_not_isBranch {x y : ILInstr} (hbranch : x.isBranch = false)
    (h : resolveTarget table x = some y) : y = x := by
  rw [resolveTarget, if_neg (Bool.eq_false_iff.mp hbranch)] at h
  exact (Option.some.inj h).symm

/-- The entries of a table are resolved to the nodes of their offsets. -/
theorem resolveTarget_switchArgs (hget : ∀ offset ref, table.get offset = some ref →
    offsetOf ref = offset) {nodes args : List ILInstr}
    (hnodes : ∀ x ∈ nodes, x.isSwitchArg = true)
    (h : List.Forall₂ (fun x y => resolveTarget table x = some y) nodes args) :
    (∀ y ∈ args, y.isSwitchArg = true) ∧ args.map (targetOf offsetOf) = nodes.map ILInstr.arg := by
  induction h with
  | nil => exact ⟨fun y hy => absurd hy List.not_mem_nil, rfl⟩
  | @cons x y nodes args hxy _ ih =>
      obtain ⟨hx, hnodes⟩ := List.forall_mem_cons.mp hnodes
      have hbranch : x.isBranch = true := by
        rw [ILInstr.isBranch, eq_of_beq hx]
        rfl
      obtain ⟨hopcode, -, htarget⟩ := resolveTarget_of_isBranch hget hbranch hxy
      obtain ⟨hargs, hmap⟩ := ih hnodes
      refine ⟨List.forall_mem_cons.mpr ⟨?_, hargs⟩, ?_⟩
      · rw [ILInstr.isSwitchArg, hopcode]
        exact hx
      · rw [List.map_cons, List.map_cons, htarget, hmap]

/-- The resolved nodes of an instruction, in front of others. -/
theorem programOf_nodesOf (hget : ∀ offset ref, table.get offset = some ref →
    offsetOf ref = offset) {id offset : Nat} {i : Instruction} (hread : i.IsRead)
    {nodes rest : List ILInstr}
    (hnodes : List.Forall₂ (fun x y => resolveTarget table x = some y) (nodesOf id i) nodes)
    (hstart : offsetOf (.instr id) = offset) (hrest : Tabled 0 rest) :
    programOf offsetOf (nodes ++ rest) = (offset, i) :: programOf offsetOf rest ∧
      Tabled 0 (nodes ++ rest) ∧
      ∀ x ∈ nodes, x.Encodable ∧ (x.isSwitchArg = false → x.ref = .instr id) := by
  have hwellTyped := hread.wellTyped
  obtain ⟨opcode, operand⟩ := i
  have hopcode : supported opcode = true := hread.supported
  rw [Instruction.WellTyped] at hwellTyped
  rw [nodesOf] at hnodes
  cases hflags : opCodeFlags opcode with
  | operand size =>
      have hne : opcode ≠ CEE_SWITCH := by
        rintro rfl
        cases hflags
      cases operand with
      | target offset => simp [hflags] at hwellTyped
      | targets offsets => simp [hflags] at hwellTyped
      | value v =>
          have hv : v < 256 ^ size := hread.value size v hflags rfl
          obtain ⟨y, tail, hy, htail, rfl⟩ := List.forall₂_cons_left_iff.mp hnodes
          obtain rfl := List.forall₂_nil_left_iff.mp htail
          obtain rfl := resolveTarget_of_not_isBranch (by simp [ILInstr.isBranch, hflags]) hy
          have harg := @isSwitchArg_of_supported ⟨id, opcode, v, none⟩ hopcode
          refine ⟨?_, ⟨harg, ?_⟩, ?_⟩
          · rw [List.singleton_append, programOf, harg, if_neg Bool.false_ne_true, operandOf,
              hflags, ILInstr.ref, hstart]
            dsimp only
            rw [Nat.mod_eq_of_lt hv]
          · rw [if_neg hne]
            exact hrest
          · exact List.forall_mem_singleton.mpr ⟨Or.inr ⟨hopcode, hread.single⟩, fun _ => rfl⟩
  | branchTarget size =>
      have hne : opcode ≠ CEE_SWITCH := by
        rintro rfl
        cases hflags
      cases operand with
      | value v => simp [hflags] at hwellTyped
      | targets offsets => simp [hflags] at hwellTyped
      | target destination =>
          obtain ⟨y, tail, hy, htail, rfl⟩ := List.forall₂_cons_left_iff.mp hnodes
          obtain rfl := List.forall₂_nil_left_iff.mp htail
          obtain ⟨hyopcode, hid, htarget⟩ :=
            resolveTarget_of_isBranch hget (by simp [ILInstr.isBranch, hflags]) hy
          dsimp only at hyopcode hid htarget
          have hsupported : supported y.opcode = true := by rw [hyopcode]; exact hopcode
          have harg := isSwitchArg_of_supported hsupported
          refine ⟨?_, ⟨harg, ?_⟩, ?_⟩
          · rw [List.singleton_append, programOf, harg, if_neg Bool.false_ne_true, operandOf,
              hyopcode, hflags, ILInstr.ref, hid, hstart]
            dsimp only
            rw [htarget]
          · rw [hyopcode, if_neg hne]
            exact hrest
          · refine List.forall_mem_singleton.mpr ⟨Or.inr ⟨hsupported, ?_⟩, fun _ => ?_⟩
            · rw [hyopcode]
              exact hread.single
            · rw [ILInstr.ref, hid]
  | switch =>
      cases operand with
      | value v => simp [hflags] at hwellTyped
      | target offset => simp [hflags] at hwellTyped
      | targets offsets =>
          obtain ⟨y, args, hy, hargs, rfl⟩ := List.forall₂_cons_left_iff.mp hnodes
          obtain rfl := resolveTarget_of_not_isBranch (by simp [ILInstr.isBranch, hflags]) hy
          have harg := @isSwitchArg_of_supported ⟨id, opcode, offsets.length, none⟩ hopcode
          obtain ⟨hswitchArgs, hmap⟩ := resolveTarget_switchArgs hget (fun x hx => by
            obtain ⟨k, hk, rfl⟩ := List.mem_mapIdx.mp hx
            rfl) hargs
          have hlength : args.length = offsets.length := by
            rw [← hargs.length_eq, List.length_mapIdx]
          have htargets : args.map (targetOf offsetOf) = offsets := by
            rw [hmap]
            apply List.ext_getElem
            · simp
            · intro k hk hk'
              simp
          refine ⟨?_, ⟨harg, ?_⟩, ?_⟩
          · rw [List.cons_append, programOf, harg, if_neg Bool.false_ne_true,
              programOf_append_of_switchArgs hswitchArgs, operandOf, hflags,
              hrest.takeWhile_append hswitchArgs, htargets, ILInstr.ref, hstart]
          · rw [if_pos (opcode_of_switch hflags), ← hlength]
            exact Tabled.append hswitchArgs hrest
          · refine List.forall_mem_cons.mpr
              ⟨⟨Or.inr ⟨hopcode, hread.single⟩, fun _ => rfl⟩, fun x hx => ?_⟩
            refine ⟨Or.inl (hswitchArgs x hx), fun hnot => ?_⟩
            rw [hswitchArgs x hx] at hnot
            cases hnot

theorem exists_of_forall₂_append {α β : Type*} {R : α → β → Prop} {l₁ l₂ : List α} {l : List β}
    (h : List.Forall₂ R (l₁ ++ l₂) l) :
    ∃ l₁' l₂', List.Forall₂ R l₁ l₁' ∧ List.Forall₂ R l₂ l₂' ∧ l = l₁' ++ l₂' := by
  induction l₁ generalizing l with
  | nil => exact ⟨[], l, .nil, h, rfl⟩
  | cons x l₁ ih =>
      obtain ⟨y, rest, hxy, hrest, rfl⟩ := List.forall₂_cons_left_iff.mp h
      obtain ⟨l₁', l₂', h₁, h₂, rfl⟩ := ih hrest
      exact ⟨y :: l₁', l₂', .cons hxy h₁, h₂, rfl⟩

/-- The resolved nodes of the instructions stand for them. -/
theorem programOf_linkNodes (hget : ∀ offset ref, table.get offset = some ref →
    offsetOf ref = offset) {id : Nat} {instructions : List (Nat × Instruction)}
    {il : List ILInstr} (hread : ∀ entry ∈ instructions, entry.2.IsRead)
    (hstart : ∀ entry ∈ linkNodes id instructions,
      offsetOf ((entry.2.head?.map ILInstr.ref).getD .sentinel) = entry.1)
    (hil : List.Forall₂ (fun x y => resolveTarget table x = some y)
      ((linkNodes id instructions).flatMap Prod.snd) il) :
    programOf offsetOf il = instructions ∧ Tabled 0 il ∧
      ∀ x ∈ il, x.Encodable ∧ (x.isSwitchArg = false → ∃ entry ∈ linkNodes id instructions,
        (entry.2.head?.map ILInstr.ref).getD .sentinel = x.ref) := by
  induction instructions generalizing id il with
  | nil =>
      obtain rfl := List.forall₂_nil_left_iff.mp hil
      exact ⟨rfl, rfl, fun x hx => absurd hx List.not_mem_nil⟩
  | cons entry instructions ih =>
      obtain ⟨offset, i⟩ := entry
      obtain ⟨hi, hread⟩ := List.forall_mem_cons.mp hread
      obtain ⟨hfirst, hstart⟩ := List.forall_mem_cons.mp hstart
      rw [linkNodes, List.flatMap_cons] at hil
      obtain ⟨nodes, rest, hnodes, hrest, rfl⟩ := exists_of_forall₂_append hil
      obtain ⟨hprogram, htabled, hnode⟩ := ih hread hstart hrest
      obtain ⟨others, hcons⟩ := nodesOf_eq_cons id i
      dsimp only at hfirst
      rw [hcons] at hfirst
      obtain ⟨hfirstProgram, hfirstTabled, hfirstNode⟩ :=
        programOf_nodesOf hget hi hnodes hfirst htabled
      rw [hprogram] at hfirstProgram
      refine ⟨hfirstProgram, hfirstTabled, List.forall_mem_append.mpr ⟨?_, ?_⟩⟩
      · intro x hx
        obtain ⟨hencodable, href⟩ := hfirstNode x hx
        refine ⟨hencodable, fun hnot => ⟨_, List.mem_cons_self, ?_⟩⟩
        dsimp only
        rw [hcons, href hnot]
        rfl
      · intro x hx
        obtain ⟨hencodable, href⟩ := hnode x hx
        refine ⟨hencodable, fun hnot => ?_⟩
        obtain ⟨entry, hentry, heq⟩ := href hnot
        exact ⟨entry, List.mem_cons_of_mem _ hentry, heq⟩

/-- What is known of an imported body: its nodes stand for the instructions of the code, and the
table resolves the offsets of their first nodes. -/
structure ImportsProgram (m : IlMethod) (il : List ILInstr) (table : OffsetToInstr)
    (instructions : List (Nat × Instruction)) : Prop where
  decodes : decode m.code = some instructions
  program : programOf table.offsetOf il = instructions
  starts : ∀ offset, (table.get offset).isSome ↔ IsStart m instructions offset
  nodes : ∀ x ∈ il, x.isSwitchArg = false → table.get (table.offsetOf x.ref) = some x.ref
  targets : ∀ x ∈ il, x.isBranch = true → ∃ ref, x.target = some ref ∧
    table.get (table.offsetOf ref) = some ref
  sentinel : table.get m.code.length = some .sentinel
  tabled : Tabled 0 il
  encodable : ∀ x ∈ il, x.Encodable

theorem importsProgram_of_importIL {m : IlMethod} {il : List ILInstr}
    (h : importIL m.code = some (il, table)) : ∃ instructions,
      ImportsProgram m il table instructions := by
  obtain ⟨instructions, hdecode, rfl, hil⟩ := importIL_eq_some_iff.mp h
  let table := offsetToInstr m.code.length (linkNodes 0 instructions)
  have hnodup : (table.map Prod.snd).Nodup := nodup_offsetToInstr m.code.length instructions
  have hkeys : (table.map Prod.fst).Nodup := by
    have heq : table.map Prod.fst = instructions.map Prod.fst ++ [0 + m.code.length] := by
      rw [Nat.zero_add, ← fst_linkNodes 0]
      simp [table, offsetToInstr, Function.comp_def]
    rw [heq]
    exact (pairwise_decodeFrom hdecode).1.imp Nat.ne_of_lt
  have hread : ∀ entry ∈ instructions, entry.2.IsRead :=
    decodeFrom_forall (fun _ _ _ _ hfetch => isRead_of_fetch hfetch) hdecode
  have hget : ∀ offset ref, table.get offset = some ref → table.offsetOf ref = offset :=
    fun offset ref hget => OffsetToInstr.offsetOf_of_mem hnodup
      (OffsetToInstr.mem_of_get_eq_some hget)
  have hmem : ∀ offset ref, (offset, ref) ∈ table → table.get offset = some ref :=
    fun offset ref hmem => OffsetToInstr.get_of_mem hkeys hmem
  have hentry : ∀ entry ∈ linkNodes 0 instructions,
      (entry.1, (entry.2.head?.map ILInstr.ref).getD .sentinel) ∈ table :=
    fun entry hentry => List.mem_append_left _ (List.mem_map_of_mem
      (f := fun entry : Nat × List ILInstr =>
        (entry.1, (entry.2.head?.map ILInstr.ref).getD .sentinel)) hentry)
  obtain ⟨hprogram, htabled, hnode⟩ := programOf_linkNodes hget hread
    (fun entry hlinked => OffsetToInstr.offsetOf_of_mem hnodup (hentry entry hlinked))
    (mapM_eq_some_iff.mp hil)
  refine ⟨instructions, hdecode, hprogram, fun offset => get_isSome_iff 0 offset, ?_, ?_, ?_,
    htabled, fun x hx => (hnode x hx).1⟩
  · intro x hx hnot
    obtain ⟨entry, hlinked, href⟩ := (hnode x hx).2 hnot
    have hplace := hmem _ _ (hentry entry hlinked)
    rw [href] at hplace
    rw [hget _ _ hplace]
    exact hplace
  · intro x hx hbranch
    obtain ⟨y, -, hy⟩ := exists_of_mem_mapM hil hx
    have hyx := resolveTarget_keeps hy
    rw [resolveTarget] at hy
    split_ifs at hy with hybranch
    · obtain ⟨ref, href, rfl⟩ := Option.map_eq_some_iff.mp hy
      refine ⟨ref, rfl, ?_⟩
      rw [hget _ _ href]
      exact href
    · obtain rfl := Option.some.inj hy
      exact absurd hbranch hybranch
  · exact hmem _ _ (List.mem_append_right _ (List.mem_singleton.mpr rfl))

end Programs

end SignalFxTracing.Il
