import SignalFxTracing.Il.RoundTrip

/-!
# The bytes of an unedited body

An instruction has one encoding at an offset. When no node has been inserted,
each of them is placed where it has been read, so all short branches fit, and
the first pass writes the code that has been imported.
-/

namespace SignalFxTracing.Il

open Lib Lib.LittleEndian Lib.MapOption

/-- The bytes of an instruction that starts at an offset. -/
inductive Encodes (offset : Nat) : Instruction → List UInt8 → Prop
  | value {opcode size v : Nat} (hflags : opCodeFlags opcode = .operand size) :
      Encodes offset ⟨opcode, .value v⟩ (opcodeBytes opcode ++ toLE size v)
  | target {opcode size v : Nat} (hflags : opCodeFlags opcode = .branchTarget size) :
      Encodes offset
        ⟨opcode, .target (relative size (offset + (opcodeBytes opcode).length + size) v)⟩
        (opcodeBytes opcode ++ toLE size v)
  | switch {opcode : Nat} {values : List Nat} (hflags : opCodeFlags opcode = .switch) :
      Encodes offset
        ⟨opcode, .targets (values.map
          (relative 4 (offset + (opcodeBytes opcode).length + 4 + 4 * values.length)))⟩
        (opcodeBytes opcode ++ (toLE 4 values.length ++ values.flatMap (toLE 4)))

/-- The bytes of instructions one behind the other. -/
inductive EncodesAll : Nat → List (Nat × Instruction) → List UInt8 → Prop
  | nil {offset : Nat} : EncodesAll offset [] []
  | cons {offset : Nat} {i : Instruction} {front bytes : List UInt8}
      {rest : List (Nat × Instruction)} (hi : supported i.opcode = true)
      (hfront : Encodes offset i front) (hrest : EncodesAll (offset + front.length) rest bytes) :
      EncodesAll offset ((offset, i) :: rest) (front ++ bytes)

section Reading

variable {offset opcode : Nat} {bytes rest : List UInt8} {i : Instruction}

theorem eq_of_fetchOpcode (h : fetchOpcode bytes = some (opcode, rest)) :
    bytes = opcodeBytes opcode ++ rest := by
  cases bytes with
  | nil => cases h
  | cons b after =>
      by_cases hlead : b.toNat = CEE_PREFIX1
      · simp only [fetchOpcode, if_pos hlead] at h
        cases after with
        | nil => cases h
        | cons c after =>
            simp only [Option.ite_none_right_eq_some, Option.some.injEq, Prod.mk.injEq] at h
            obtain ⟨-, rfl, rfl⟩ := h
            have hb : UInt8.ofNat CEE_PREFIX1 = b := by rw [← hlead, UInt8.ofNat_toNat]
            have hc : UInt8.ofNat (0x100 + c.toNat) = c := by
              apply UInt8.toNat_inj.mp
              have := c.toNat_lt
              rw [UInt8.toNat_ofNat']
              omega
            rw [opcodeBytes, if_pos (Nat.le_add_right _ _), hb, hc]
            rfl
      · simp only [fetchOpcode, if_neg hlead, Option.ite_none_right_eq_some, Option.some.injEq,
          Prod.mk.injEq] at h
        obtain ⟨-, rfl, rfl⟩ := h
        have hlt := b.toNat_lt
        rw [opcodeBytes, if_neg (by omega), UInt8.ofNat_toNat]
        rfl

theorem eq_of_readTable {n : Nat} {values : List Nat}
    (h : readTable n bytes = some (values, rest)) :
    bytes = values.flatMap (toLE 4) ++ rest := by
  induction n generalizing bytes values with
  | zero =>
      cases h
      rfl
  | succ n ih =>
      simp only [readTable, bind, Option.bind_eq_some_iff, pure, Option.some.injEq,
        Prod.mk.injEq, Prod.exists] at h
      obtain ⟨v, middle, hread, values, rest', htable, rfl, rfl⟩ := h
      rw [eq_of_read hread, ih htable, List.flatMap_cons, List.append_assoc]

/-- An instruction is read from its own bytes only. -/
theorem encodes_of_fetch (h : fetch offset bytes = some (i, rest)) :
    ∃ front, bytes = front ++ rest ∧ Encodes offset i front := by
  simp only [fetch, bind, Option.bind_eq_some_iff, pure, Option.some.injEq, Prod.mk.injEq,
    Prod.exists] at h
  obtain ⟨opcode, middle, hopcode, operand, rest, hoperand, rfl, rfl⟩ := h
  obtain rfl := eq_of_fetchOpcode hopcode
  have hstart : (opcodeBytes opcode ++ middle).length - middle.length =
      (opcodeBytes opcode).length := by
    rw [List.length_append, Nat.add_sub_cancel]
  rw [hstart] at hoperand
  cases hflags : opCodeFlags opcode with
  | operand size =>
      simp only [fetchOperand, hflags, bind, Option.bind_eq_some_iff, pure, Option.some.injEq,
        Prod.mk.injEq, Prod.exists] at hoperand
      obtain ⟨v, _, hread, rfl, rfl⟩ := hoperand
      exact ⟨_, by rw [eq_of_read hread, List.append_assoc], .value hflags⟩
  | branchTarget size =>
      simp only [fetchOperand, hflags, bind, Option.bind_eq_some_iff, pure, Option.some.injEq,
        Prod.mk.injEq, Prod.exists] at hoperand
      obtain ⟨v, _, hread, rfl, rfl⟩ := hoperand
      exact ⟨_, by rw [eq_of_read hread, List.append_assoc], .target hflags⟩
  | switch =>
      simp only [fetchOperand, hflags, bind, Option.bind_eq_some_iff, pure, Option.some.injEq,
        Prod.mk.injEq, Prod.exists] at hoperand
      obtain ⟨n, _, hread, values, _, htable, rfl, rfl⟩ := hoperand
      obtain ⟨hlength, -⟩ := readTable_length htable
      subst hlength
      refine ⟨_, ?_, .switch hflags⟩
      rw [eq_of_read hread, eq_of_readTable htable, List.append_assoc, List.append_assoc]

theorem encodesAll_of_decodeFrom {fuel : Nat} {instructions : List (Nat × Instruction)}
    (h : decodeFrom fuel offset bytes = some instructions) :
    EncodesAll offset instructions bytes := by
  induction fuel generalizing offset bytes instructions with
  | zero =>
      cases bytes with
      | nil =>
          obtain rfl := Option.some.inj h
          exact .nil
      | cons b rest => cases h
  | succ fuel ih =>
      cases bytes with
      | nil =>
          obtain rfl := Option.some.inj h
          exact .nil
      | cons b rest =>
          simp only [decodeFrom, bind, Option.bind_eq_some_iff, pure, Option.some.injEq,
            Prod.exists] at h
          obtain ⟨i, after, hfetch, others, hothers, rfl⟩ := h
          have hi := (isRead_of_fetch hfetch).supported
          obtain ⟨front, hbytes, hfront⟩ := encodes_of_fetch hfetch
          have hlength : (b :: rest).length - after.length = front.length := by
            rw [hbytes, List.length_append, Nat.add_sub_cancel]
          rw [hlength] at hothers
          rw [hbytes]
          exact .cons hi hfront (ih hothers)

end Reading

section Displacements

variable {target next : UInt32} {v : Nat}

/-- The displacement to the target that has been read is the number that has been read. -/
theorem toLE_sub_of_relative {size : Nat} (hsize : size = 1 ∨ size = 4)
    (h : target.toNat = relative size next.toNat v) :
    toLE size (target - next).toNat = toLE size v := by
  have htarget := target.toNat_lt
  have hnext := next.toNat_lt
  apply toLE_congr
  rw [relative] at h
  rw [UInt32.toNat_sub]
  rcases hsize with rfl | rfl
  · rw [signed, Int.bmod_def] at h
    split_ifs at h <;> omega
  · rw [signed, Int.bmod_def] at h
    split_ifs at h <;> omega

/-- The displacement of a short branch that has been read is that of the long one. -/
theorem signed_sub_of_relative (h : target.toNat = relative 1 next.toNat v) :
    signed 1 (target - next).toNat = signed 4 (target - next).toNat := by
  have htarget := target.toNat_lt
  have hnext := next.toNat_lt
  have hv := signed_one_bounds v
  rw [relative] at h
  rw [signed_sub, signed, UInt32.toNat_sub, Int.bmod_def, Int.bmod_def]
  split_ifs <;> omega

end Displacements

section Nodes

variable {offsetOf : InstrRef → UInt32} {table : OffsetToInstr} {id offset : Nat} {i : Instruction}
  {front : List UInt8} {nodes rest il : List ILInstr}

theorem size_congr {x y : ILInstr} (h : y.opcode = x.opcode) : y.size = x.size := by
  rw [ILInstr.size, ILInstr.size, ILInstr.encodedOpcode, ILInstr.encodedOpcode,
    ILInstr.operandSize, ILInstr.operandSize, h]

/-- Resolved nodes have the sizes of the nodes that they have been made of. -/
theorem totalSize_resolved
    (h : List.Forall₂ (fun x y => resolveTarget table x = some y) nodes il) :
    totalSize il = totalSize nodes := by
  induction h with
  | nil => rfl
  | cons hxy _ ih =>
      rw [totalSize_cons, totalSize_cons, ih, size_congr (resolveTarget_keeps hxy).2.1]

theorem size_of_flags {opcode size arg : Nat} {target : Option InstrRef}
    (hi : supported opcode = true)
    (hflags : opCodeFlags opcode = .operand size ∨ opCodeFlags opcode = .branchTarget size) :
    (ILInstr.mk id opcode arg target).size = (opcodeBytes opcode).length + size := by
  rw [ILInstr.size, ILInstr.operandSize, encodedOpcode_of_supported hi]
  rcases hflags with hflags | hflags
  · rw [hflags]
  · rw [hflags]

/-- The nodes of an instruction are as long as its bytes. -/
theorem totalSize_nodesOf (hi : supported i.opcode = true) (h : Encodes offset i front) :
    totalSize (nodesOf id i) = front.length := by
  cases h with
  | value hflags =>
      rw [nodesOf, totalSize_cons, size_of_flags hi (Or.inl hflags), List.length_append,
        toLE_length]
      rfl
  | target hflags =>
      rw [nodesOf, totalSize_cons, size_of_flags hi (Or.inr hflags), List.length_append,
        toLE_length]
      rfl
  | @switch opcode values hflags =>
      have hargs : ∀ x ∈ ((values.map (relative 4 (offset + (opcodeBytes opcode).length + 4 +
          4 * values.length))).mapIdx fun k offset =>
            (⟨id + 1 + k, CEE_SWITCH_ARG, offset, none⟩ : ILInstr)), x.isSwitchArg = true := by
        intro x hx
        obtain ⟨k, hk, rfl⟩ := List.mem_mapIdx.mp hx
        rfl
      have hbytes : (values.flatMap (toLE 4)).length = 4 * values.length := by
        simp [List.length_flatMap, Nat.mul_comm]
      have hsize : (⟨id, opcode, values.length, none⟩ : ILInstr).size =
          (opcodeBytes opcode).length + 4 := by
        rw [ILInstr.size, ILInstr.operandSize, encodedOpcode_of_supported hi, hflags]
      rw [nodesOf, totalSize_cons, totalSize_switchArgs hargs, List.length_mapIdx, List.length_map,
        hsize, List.length_append, List.length_append, toLE_length, hbytes]
      omega

/-- The first node of each instruction is placed where the instruction has been read. -/
theorem offsetOf_linkNodes {instructions : List (Nat × Instruction)} {bytes : List UInt8}
    (h : EncodesAll offset instructions bytes)
    (hil : List.Forall₂ (fun x y => resolveTarget table x = some y)
      ((linkNodes id instructions).flatMap Prod.snd) il)
    (hplaced : Placed offsetOf offset il) :
    (∀ entry ∈ linkNodes id instructions,
      (offsetOf ((entry.2.head?.map ILInstr.ref).getD .sentinel)).toNat = entry.1) ∧
      (offsetOf .sentinel).toNat = offset + bytes.length := by
  induction h generalizing id il with
  | nil =>
      obtain rfl := List.forall₂_nil_left_iff.mp hil
      exact ⟨fun entry hentry => absurd hentry List.not_mem_nil, hplaced⟩
  | @cons offset i front bytes instructions hi hfront _ ih =>
      rw [linkNodes, List.flatMap_cons] at hil
      obtain ⟨nodes, rest, hnodes, hrest, rfl⟩ := exists_of_forall₂_append hil
      have hsize := (totalSize_resolved hnodes).trans (totalSize_nodesOf hi hfront)
      have hbehind := hplaced.of_append
      rw [hsize] at hbehind
      obtain ⟨hentries, hend⟩ := ih hrest hbehind
      rw [linkNodes, List.forall_mem_cons, List.length_append, ← Nat.add_assoc]
      refine ⟨⟨?_, hentries⟩, hend⟩
      obtain ⟨others, hcons⟩ := nodesOf_eq_cons id i
      dsimp only
      rw [hcons] at hnodes
      obtain ⟨y, others', hy, -, rfl⟩ := List.forall₂_cons_left_iff.mp hnodes
      have href : y.ref = .instr id := congrArg InstrRef.instr (resolveTarget_keeps hy).1
      have hfirst := hplaced.1
      rw [href] at hfirst
      rw [hcons]
      exact hfirst

theorem AllFit.append_of_not_isShort (h : ∀ x ∈ nodes, x.isShort = false)
    (hrest : AllFit offsetOf rest) : AllFit offsetOf (nodes ++ rest) := by
  induction nodes with
  | nil => exact hrest
  | cons x nodes ih =>
      obtain ⟨hx, hnodes⟩ := List.forall_mem_cons.mp h
      refine ⟨fun hshort => ?_, ih hnodes⟩
      rw [hx] at hshort
      cases hshort

theorem isSome_target_of_resolveTarget {x y : ILInstr} (hbranch : x.isBranch = true)
    (h : resolveTarget table x = some y) : y.target.isSome = true := by
  rw [resolveTarget, if_pos hbranch] at h
  obtain ⟨target, -, rfl⟩ := Option.map_eq_some_iff.mp h
  rfl

theorem forall_resolved (h : List.Forall₂ (fun x y => resolveTarget table x = some y) nodes il)
    (hbranch : ∀ x ∈ nodes, x.isBranch = true) : ∀ y ∈ il, y.target.isSome = true := by
  induction h with
  | nil => exact fun y hy => absurd hy List.not_mem_nil
  | cons hxy _ ih =>
      obtain ⟨hx, hnodes⟩ := List.forall_mem_cons.mp hbranch
      exact List.forall_mem_cons.mpr ⟨isSome_target_of_resolveTarget hx hxy, ih hnodes⟩

/-- What is written for the nodes of an instruction at the offset at which it has been read. -/
structure WritesAs (offsetOf : InstrRef → UInt32) (nodes rest : List ILInstr)
    (front : List UInt8) : Prop where
  code : ∀ switchBase, ∃ after, codeBytes offsetOf switchBase (nodes ++ rest) =
    front ++ codeBytes offsetOf after rest
  fits : AllFit offsetOf rest → AllFit offsetOf (nodes ++ rest)

theorem writesAs_value {opcode size v : Nat} (hi : supported opcode = true)
    (hflags : opCodeFlags opcode = .operand size) :
    WritesAs offsetOf [⟨id, opcode, v, none⟩] rest (opcodeBytes opcode ++ toLE size v) := by
  have hbranch : (⟨id, opcode, v, none⟩ : ILInstr).isBranch = false := by
    rw [ILInstr.isBranch, hflags]
  constructor
  case code =>
    intro switchBase
    apply Exists.intro
    rw [List.singleton_append, codeBytes, ILInstr.encodedBytes,
      ILInstr.branchBytes_of_not_isBranch _ _ _ hbranch, ILInstr.fixedBytes,
      encodedOpcode_of_supported hi, hflags, List.append_nil]
  case fits =>
    intro hrest
    refine ⟨fun hshort => ?_, hrest⟩
    rw [ILInstr.isBranch_of_isShort hshort] at hbranch
    cases hbranch

theorem writesAs_target {opcode size v : Nat} (hget : ∀ offset ref,
      table.get offset = some ref → (offsetOf ref).toNat = offset)
    (hi : supported opcode = true) (hflags : opCodeFlags opcode = .branchTarget size) {y : ILInstr}
    (hy : resolveTarget table ⟨id, opcode,
      relative size (offset + (opcodeBytes opcode).length + size) v, none⟩ = some y)
    (hplaced : Placed offsetOf offset (y :: rest)) :
    WritesAs offsetOf [y] rest (opcodeBytes opcode ++ toLE size v) := by
  obtain ⟨hid, hopcode, harg⟩ := resolveTarget_keeps hy
  have hbranch : (⟨id, opcode, relative size (offset + (opcodeBytes opcode).length + size) v,
      none⟩ : ILInstr).isBranch = true := by
    rw [ILInstr.isBranch, hflags]
  rw [resolveTarget, if_pos hbranch] at hy
  obtain ⟨target, htarget, rfl⟩ := Option.map_eq_some_iff.mp hy
  have hsize := @size_of_flags id opcode size
    (relative size (offset + (opcodeBytes opcode).length + size) v) (some target) hi
    (Or.inr hflags)
  have hnext : (offsetOf (firstRef rest)).toNat =
      offset + (opcodeBytes opcode).length + size := by
    rw [hplaced.2.firstRef]
    dsimp only
    rw [hsize, Nat.add_assoc]
  have hread : (offsetOf target).toNat = relative size (offsetOf (firstRef rest)).toNat v := by
    rw [hnext]
    exact hget _ _ htarget
  have hne : opcode ≠ CEE_SWITCH_ARG := by
    rintro rfl
    cases hi
  constructor
  case code =>
    intro switchBase
    apply Exists.intro
    rw [List.singleton_append, codeBytes, ILInstr.encodedBytes, ILInstr.fixedBytes,
      ILInstr.branchBytes, ILInstr.displacement, encodedOpcode_of_supported hi]
    dsimp only
    rw [hflags, if_neg hne, Option.map_some, Option.getD_some]
    dsimp only
    rw [toLE_sub_of_relative (branchTarget_size hflags) hread, List.append_nil]
  case fits =>
    intro hrest
    refine ⟨fun hshort ref href => ?_, hrest⟩
    obtain rfl : size = 1 := by
      have hone := ILInstr.opCodeFlags_of_isShort hshort
      rw [hflags] at hone
      exact OpCodeFlags.branchTarget.inj hone
    obtain rfl := Option.some.inj href
    exact signed_sub_of_relative hread

theorem writesAs_switch {opcode : Nat} {values : List Nat} (hget : ∀ offset ref,
      table.get offset = some ref → (offsetOf ref).toNat = offset)
    (hi : supported opcode = true) (hflags : opCodeFlags opcode = .switch)
    (hnodes : List.Forall₂ (fun x y => resolveTarget table x = some y)
      (nodesOf id ⟨opcode, .targets (values.map
        (relative 4 (offset + (opcodeBytes opcode).length + 4 + 4 * values.length)))⟩) nodes)
    (hplaced : Placed offsetOf offset (nodes ++ rest))
    (hbound : offset + (opcodeBytes opcode).length + 4 + 4 * values.length < 2 ^ 32) :
    WritesAs offsetOf nodes rest
      (opcodeBytes opcode ++ (toLE 4 values.length ++ values.flatMap (toLE 4))) := by
  obtain rfl := opcode_of_switch hflags
  obtain ⟨y, args, hy, hargs, rfl⟩ := List.forall₂_cons_left_iff.mp hnodes
  obtain rfl := resolveTarget_of_not_isBranch rfl hy
  have hentries : ∀ x ∈ ((values.map (relative 4 (offset + (opcodeBytes CEE_SWITCH).length + 4 +
      4 * values.length))).mapIdx fun k offset =>
        (⟨id + 1 + k, CEE_SWITCH_ARG, offset, none⟩ : ILInstr)), x.isSwitchArg = true := by
    intro x hx
    obtain ⟨k, hk, rfl⟩ := List.mem_mapIdx.mp hx
    rfl
  obtain ⟨hswitchArgs, hmap⟩ := resolveTarget_switchArgs hget hentries hargs
  have htargets : args.map (targetOf fun ref => (offsetOf ref).toNat) =
      values.map (relative 4 (offset + (opcodeBytes CEE_SWITCH).length + 4 +
        4 * values.length)) := by
    rw [hmap]
    apply List.ext_getElem
    · simp
    · intro k hk hk'
      simp
  have hsome : ∀ x ∈ args, x.isSwitchArg = true ∧ x.target.isSome = true := by
    intro x hx
    refine ⟨hswitchArgs x hx, forall_resolved hargs (fun z hz => ?_) x hx⟩
    exact isBranch_of_isSwitchArg (hentries z hz)
  constructor
  case code =>
    intro switchBase
    apply Exists.intro
    let base := (⟨id, CEE_SWITCH, values.length, none⟩ : ILInstr).switchBaseAfter offsetOf
      switchBase
    have hbase : base.toNat = offset + (opcodeBytes CEE_SWITCH).length + 4 + 4 * values.length := by
      have hone : (1 : UInt32).toNat = 1 := rfl
      have hfour : (4 : UInt32).toNat = 4 := rfl
      have hopcode : (opcodeBytes CEE_SWITCH).length = 1 := rfl
      have hplace := hplaced.1
      simp only [List.length_map] at hplace
      rw [hopcode] at hbound ⊢
      simp only [base, ILInstr.switchBaseAfter, if_true]
      rw [UInt32.toNat_add, UInt32.toNat_add, UInt32.toNat_mul, UInt32.toNat_add,
        UInt32.toNat_ofNat', hone, hfour, hplace]
      omega
    have hvalues : (args.map fun x => offsetOf (x.target.getD .sentinel) - base).flatMap
        (fun v => toLE 4 v.toNat) = values.flatMap (toLE 4) := by
      calc (args.map fun x => offsetOf (x.target.getD .sentinel) - base).flatMap
            (fun v => toLE 4 v.toNat)
          = (args.map (targetOf fun ref => (offsetOf ref).toNat)).flatMap
              fun target => toLE 4 (UInt32.ofNat target - base).toNat := by
            simp only [List.flatMap_map, targetOf, UInt32.ofNat_toNat]
        _ = values.flatMap (toLE 4) := by
            rw [htargets, List.flatMap_map]
            apply List.flatMap_congr
            intro v _
            apply toLE_sub_of_relative (Or.inr rfl)
            rw [hbase, UInt32.toNat_ofNat']
            apply Nat.mod_eq_of_lt
            rw [relative]
            omega
    rw [List.cons_append, codeBytes, List.length_map, codeBytes_switchArgs hsome, hvalues,
      ILInstr.encodedBytes, ILInstr.branchBytes_of_not_isBranch _ _ _ rfl, List.append_nil,
      ILInstr.fixedBytes, encodedOpcode_of_supported hi, hflags, ← List.append_assoc]
    dsimp only
    rw [List.append_assoc (opcodeBytes CEE_SWITCH)]
  case fits =>
    intro hrest
    apply AllFit.append_of_not_isShort _ hrest
    refine List.forall_mem_cons.mpr ⟨rfl, fun x hx => ?_⟩
    rw [ILInstr.isShort, eq_of_beq (hswitchArgs x hx)]
    rfl

/-- The nodes of successive instructions are written as they have been read. -/
theorem codeBytes_linkNodes {instructions : List (Nat × Instruction)} {bytes : List UInt8}
    (hget : ∀ offset ref, table.get offset = some ref → (offsetOf ref).toNat = offset)
    (h : EncodesAll offset instructions bytes)
    (hil : List.Forall₂ (fun x y => resolveTarget table x = some y)
      ((linkNodes id instructions).flatMap Prod.snd) il)
    (hplaced : Placed offsetOf offset il) (hbound : offset + bytes.length < 2 ^ 32) :
    (∀ switchBase, codeBytes offsetOf switchBase il = bytes) ∧ AllFit offsetOf il := by
  induction h generalizing id il with
  | nil =>
      obtain rfl := List.forall₂_nil_left_iff.mp hil
      exact ⟨fun _ => rfl, trivial⟩
  | @cons offset i front bytes instructions hi hfront _ ih =>
      rw [linkNodes, List.flatMap_cons] at hil
      obtain ⟨nodes, rest, hnodes, hrest, rfl⟩ := exists_of_forall₂_append hil
      have hsize := (totalSize_resolved hnodes).trans (totalSize_nodesOf hi hfront)
      have hbehind := hplaced.of_append
      rw [hsize] at hbehind
      rw [List.length_append, ← Nat.add_assoc] at hbound
      obtain ⟨hcode, hfits⟩ := ih hrest hbehind hbound
      have hwrites : WritesAs offsetOf nodes rest front := by
        cases hfront with
        | value hflags =>
            obtain ⟨y, tail, hy, htail, rfl⟩ := List.forall₂_cons_left_iff.mp hnodes
            obtain rfl := List.forall₂_nil_left_iff.mp htail
            obtain rfl := resolveTarget_of_not_isBranch (by simp [ILInstr.isBranch, hflags]) hy
            exact writesAs_value hi hflags
        | target hflags =>
            obtain ⟨y, tail, hy, htail, rfl⟩ := List.forall₂_cons_left_iff.mp hnodes
            obtain rfl := List.forall₂_nil_left_iff.mp htail
            exact writesAs_target hget hi hflags hy hplaced
        | @switch opcode values hflags =>
            have hbytes : (values.flatMap (toLE 4)).length = 4 * values.length := by
              simp [List.length_flatMap, Nat.mul_comm]
            rw [List.length_append, List.length_append, toLE_length, hbytes] at hbound
            exact writesAs_switch hget hi hflags hnodes hplaced (by omega)
      refine ⟨fun switchBase => ?_, hwrites.fits hfits⟩
      obtain ⟨after, hwritten⟩ := hwrites.code switchBase
      rw [hwritten, hcode]

end Nodes

section Unedited

variable {m : IlMethod} {r : ILRewriter} {il : List ILInstr} {table : OffsetToInstr}
  {offsetOf : InstrRef → UInt32}

/-- Placed one behind the other, the imported nodes are where their instructions have been, and
are written as they have been read. -/
theorem codeBytes_of_importIL (hil : importIL m.code = some (il, table))
    (hplaced : Placed offsetOf 0 il) :
    (∀ offset ref, table.get offset = some ref → (offsetOf ref).toNat = offset) ∧
      codeBytes offsetOf 0 il = m.code ∧ AllFit offsetOf il := by
  obtain ⟨instructions, hdecode, rfl, hnodes⟩ := importIL_eq_some_iff.mp hil
  have hencodes := encodesAll_of_decodeFrom hdecode
  have hresolved := mapM_eq_some_iff.mp hnodes
  obtain ⟨hentries, hend⟩ := offsetOf_linkNodes hencodes hresolved hplaced
  have hget : ∀ offset ref,
      (offsetToInstr m.code.length (linkNodes 0 instructions)).get offset = some ref →
        (offsetOf ref).toNat = offset := by
    intro offset ref hget
    have hmem := OffsetToInstr.mem_of_get_eq_some hget
    simp only [offsetToInstr, List.mem_append, List.mem_map, List.mem_singleton,
      Prod.mk.injEq] at hmem
    rcases hmem with ⟨entry, hentry, rfl, rfl⟩ | ⟨rfl, rfl⟩
    · exact hentries entry hentry
    · rw [hend, Nat.zero_add]
  have hbound : 0 + m.code.length < 2 ^ 32 := by
    rw [Nat.zero_add]
    exact m.code_lt
  obtain ⟨hcode, hfits⟩ := codeBytes_linkNodes hget hencodes hresolved hplaced hbound
  exact ⟨hget, hcode 0, hfits⟩

/-- When all short branches fit, no other pass follows. -/
theorem Encoder.Ready.pass_of_allFit {e : Encoder} (h : e.Ready) (hfits : AllFit e.offsets e.il) :
    ∃ e', e.pass = some (false, e') ∧ e'.il = e.il ∧ e'.Encoded := by
  obtain ⟨again, e', hpass, houtcome⟩ := h.exists_pass
  have hagain : again = false := by
    have hemitted := h.emitted
    by_cases hany : e.il.any ILInstr.isBranch = true
    · obtain ⟨il', s', hresolve, hspec⟩ :=
        exists_resolveAll ⟨0, e.emitAll.out, false⟩ hemitted.placed h.targets
      rw [offsets] at hresolve
      rw [pass, hemitted.branch, if_pos hany, hresolve] at hpass
      rw [← (Prod.mk.inj (Option.some.inj hpass)).1]
      exact (hspec.fits hfits).2
    · rw [pass, hemitted.branch, if_neg hany] at hpass
      exact (Prod.mk.inj (Option.some.inj hpass)).1.symm
  subst hagain
  obtain ⟨hil, hencoded⟩ := houtcome.encoded rfl
  exact ⟨e', hpass, hil, hencoded⟩

/-- A clause whose places are where they have been is the imported one. -/
theorem eq_of_sameRegions {φ : Nat → Nat} {c c' : FatClause} (h : SameRegions φ c c')
    (hφ : ∀ offset ∈ c.offsets, φ offset = offset) : c' = c := by
  have htryBegin : c'.tryOffset = c.tryOffset := by
    apply UInt32.toNat_inj.mp
    rw [h.tryBegin, hφ _ (by simp [FatClause.offsets])]
  have htryEnd : c'.tryOffset + c'.tryLength = c.tryOffset + c.tryLength := by
    apply UInt32.toNat_inj.mp
    rw [h.tryEnd, hφ _ (by simp [FatClause.offsets])]
  have hhandlerBegin : c'.handlerOffset = c.handlerOffset := by
    apply UInt32.toNat_inj.mp
    rw [h.handlerBegin, hφ _ (by simp [FatClause.offsets])]
  have hhandlerEnd : c'.handlerOffset + c'.handlerLength = c.handlerOffset + c.handlerLength := by
    apply UInt32.toNat_inj.mp
    rw [h.handlerEnd, hφ _ (by simp [FatClause.offsets])]
  have hcatch : c'.classTokenOrFilterOffset = c.classTokenOrFilterOffset := by
    by_cases hflags : c.flags &&& corILExceptionClauseFilter = 0
    · exact h.classToken hflags
    · apply UInt32.toNat_inj.mp
      rw [h.filter hflags, hφ _ (by simp [FatClause.offsets, hflags])]
  rw [htryBegin, UInt32.add_right_inj] at htryEnd
  rw [hhandlerBegin, UInt32.add_right_inj] at hhandlerEnd
  obtain ⟨flags, tryOffset, tryLength, handlerOffset, handlerLength, class_⟩ := c
  obtain ⟨flags', tryOffset', tryLength', handlerOffset', handlerLength', class_'⟩ := c'
  simp only [FatClause.mk.injEq]
  exact ⟨h.flags, htryBegin, htryEnd, hhandlerBegin, hhandlerEnd, hcatch⟩

theorem isSome_get_of_importClause {c : FatClause} {clause : EHClause}
    (h : importClause il table c = some clause) :
    ∀ offset ∈ c.offsets, (table.get offset).isSome = true := by
  simp only [importClause, bind, Option.bind_eq_some_iff, pure, Option.some.injEq] at h
  obtain ⟨tryBegin, htryBegin, tryEnd, htryEnd, handlerBegin, hhandlerBegin, handlerNext, hnext,
    classOrFilter, hfilter, rfl⟩ := h
  simp only [FatClause.offsets, List.forall_mem_append, List.forall_mem_cons, htryBegin, htryEnd,
    hhandlerBegin, hnext, Option.isSome_some]
  refine ⟨⟨trivial, trivial, trivial, trivial, fun _ hnil => absurd hnil List.not_mem_nil⟩, ?_⟩
  rw [importClassOrFilter] at hfilter
  split_ifs at hfilter ⊢ with hflags
  · exact fun _ hnil => absurd hnil List.not_mem_nil
  · obtain ⟨begin_, hget, -⟩ := Option.map_eq_some_iff.mp hfilter
    rw [List.forall_mem_singleton, hget]
    rfl

/-- A body that is imported and exported again without edits takes one pass and has the same code,
byte for byte, and the same clauses. -/
theorem export_unedited (h : importMethod m = some r) (hsection : m.eh.Fits)
    (hcount : 10 * r.nInstrs < 2 ^ 32) {start : Encoder} (hstart : r.Starts start) :
    ∃ e, start.pass = some (false, e) ∧ (r.exportBody e).code = m.code ∧
      (r.exportBody e).eh.clauses = m.eh.clauses := by
  obtain ⟨table, P, hil, -, heh, hwhole⟩ := wholeInstructions_of_importMethod h
  have hready := Encoder.ready_of_starts (Edited.imported h).numberedApart hwhole.targets hcount
    hstart
  have hplaced := hready.emitted.placed
  have hfits : AllFit start.offsets start.il := by
    rw [hstart.1] at hplaced ⊢
    exact (codeBytes_of_importIL hil hplaced).2.2
  obtain ⟨e, hpass, heil, hencoded⟩ := hready.pass_of_allFit hfits
  rw [hstart.1] at heil
  have hplacedNew := hencoded.placed
  rw [heil] at hplacedNew
  obtain ⟨hget, hcode, -⟩ := codeBytes_of_importIL hil hplacedNew
  refine ⟨e, hpass, ?_, ?_⟩
  · rw [ILRewriter.exportBody]
    dsimp only
    rw [hencoded.codeSize_toNat, hencoded.code, heil, hcode]
  · have hnodup := (Edited.imported h).numberedApart.nodup_ref
    have hsame : List.Forall₂ (fun c c' => c' = c) m.eh.clauses (r.exportBody e).eh.clauses := by
      apply forall₂_exportClause _ heh hsection rfl
      intro c clause hclause
      refine eq_of_sameRegions (Encoder.sameRegions_exportClause hclause (by rw [heil]) hnodup
        fun _ _ hget => get_of_importIL hil hget) ?_
      intro offset hoffset
      obtain ⟨ref, href⟩ :=
        Option.isSome_iff_exists.mp (isSome_get_of_importClause hclause offset hoffset)
      rw [Encoder.relocation_of_get href, hget _ _ href]
    exact (List.forall₂_eq_eq_eq ▸ hsame.imp fun _ _ heq => heq.symm :
      m.eh.clauses = (r.exportBody e).eh.clauses).symm

theorem export_unedited_branchAndReturn :
    ∃ e, branchAndReturnImported.firstPass.pass = some (false, e) ∧
      (branchAndReturnImported.exportBody e).code = branchAndReturn.code ∧
      (branchAndReturnImported.exportBody e).eh.clauses = branchAndReturn.eh.clauses :=
  export_unedited importMethod_branchAndReturn trivial (by decide) ⟨rfl, rfl⟩

end Unedited

end SignalFxTracing.Il
