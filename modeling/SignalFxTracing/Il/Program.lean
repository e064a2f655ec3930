import SignalFxTracing.Il.BranchDistances

/-!
# The program of a list of nodes

The instructions that the nodes of a list stand for, with the offsets that they
have been given. A switch and the entries of its table are one instruction. The
bytes that are written for a list decode to its program.
-/

namespace SignalFxTracing.Il

open Lib Lib.LittleEndian

/-- An entry of the table of a switch. -/
def ILInstr.isSwitchArg (x : ILInstr) : Bool := x.opcode == CEE_SWITCH_ARG

/-- Behind so many entries of a table that are still to come, each switch is directly followed by
the entries of its table, and there are no others. -/
def Tabled : Nat → List ILInstr → Prop
  | n, [] => n = 0
  | 0, x :: rest =>
      x.isSwitchArg = false ∧ Tabled (if x.opcode = CEE_SWITCH then x.arg else 0) rest
  | n + 1, x :: rest => x.isSwitchArg = true ∧ Tabled n rest

/-- The node has an opcode that can be read back. -/
def ILInstr.Encodable (x : ILInstr) : Prop :=
  x.isSwitchArg = true ∨ supported x.opcode = true ∧ x.opcode ≠ CEE_PREFIX1

section Programs

variable (offsetOf : InstrRef → Nat)

/-- Where a node refers to. -/
def targetOf (x : ILInstr) : Nat := offsetOf (x.target.getD .sentinel)

/-- The operand of a node in front of the rest of the list. -/
def operandOf (x : ILInstr) (rest : List ILInstr) : Operand :=
  match opCodeFlags x.opcode with
  | .operand size => .value (x.arg % 256 ^ size)
  | .branchTarget _ => .target (targetOf offsetOf x)
  | .switch => .targets ((rest.takeWhile ILInstr.isSwitchArg).map (targetOf offsetOf))

/-- The instructions of a list. -/
def programOf : List ILInstr → List (Nat × Instruction)
  | [] => []
  | x :: rest =>
      if x.isSwitchArg then programOf rest
      else (offsetOf x.ref, ⟨x.opcode, operandOf offsetOf x rest⟩) :: programOf rest

variable {offsetOf}

theorem programOf_append_of_switchArgs {args rest : List ILInstr}
    (h : ∀ x ∈ args, x.isSwitchArg = true) :
    programOf offsetOf (args ++ rest) = programOf offsetOf rest := by
  induction args with
  | nil => rfl
  | cons x args ih =>
      obtain ⟨hx, hargs⟩ := List.forall_mem_cons.mp h
      rw [List.cons_append, programOf, if_pos hx, ih hargs]

/-- The entries that are still to come stand in front. -/
theorem Tabled.exists_append {n : Nat} {il : List ILInstr} (h : Tabled n il) :
    ∃ args rest, il = args ++ rest ∧ args.length = n ∧ (∀ x ∈ args, x.isSwitchArg = true) ∧
      Tabled 0 rest := by
  induction n generalizing il with
  | zero => exact ⟨[], il, rfl, rfl, fun x hx => absurd hx List.not_mem_nil, h⟩
  | succ n ih =>
      cases il with
      | nil => cases h
      | cons x rest =>
          obtain ⟨hx, hrest⟩ := h
          obtain ⟨args, rest', rfl, hlength, hargs, hrest'⟩ := ih hrest
          refine ⟨x :: args, rest', rfl, congrArg Nat.succ hlength, ?_, hrest'⟩
          exact List.forall_mem_cons.mpr ⟨hx, hargs⟩

theorem Tabled.takeWhile_eq_nil {il : List ILInstr} (h : Tabled 0 il) :
    il.takeWhile ILInstr.isSwitchArg = [] := by
  cases il with
  | nil => rfl
  | cons x rest => exact List.takeWhile_cons_of_neg (Bool.eq_false_iff.mp h.1)

theorem Tabled.takeWhile_append {args rest : List ILInstr}
    (hargs : ∀ x ∈ args, x.isSwitchArg = true) (h : Tabled 0 rest) :
    (args ++ rest).takeWhile ILInstr.isSwitchArg = args := by
  rw [List.takeWhile_append_of_pos hargs, h.takeWhile_eq_nil, List.append_nil]

end Programs

section Reading

variable {bytes : List UInt8} {offset : Nat}

/-- An opcode and its operand are read one after the other. -/
theorem fetch_opcodeBytes {opcode : Nat} {operand : Operand} {rest after : List UInt8}
    (hsupported : supported opcode = true) (hne : opcode ≠ CEE_PREFIX1)
    (h : fetchOperand (offset + (opcodeBytes opcode).length) opcode rest =
      some (operand, after)) :
    fetch offset (opcodeBytes opcode ++ rest) = some (⟨opcode, operand⟩, after) := by
  have hlength : (opcodeBytes opcode ++ rest).length - rest.length =
      (opcodeBytes opcode).length := by
    rw [List.length_append, Nat.add_sub_cancel]
  rw [fetch, fetchOpcode_opcodeBytes hsupported hne, Option.bind_eq_bind, Option.bind_some]
  dsimp only
  rw [hlength, h]
  rfl

/-- Numbers of four bytes are read back. -/
theorem readTable_toLE (values : List UInt32) (rest : List UInt8) :
    readTable values.length (values.flatMap (fun v => toLE 4 v.toNat) ++ rest) =
      some (values.map UInt32.toNat, rest) := by
  induction values with
  | nil => rfl
  | cons v values ih =>
      have hv : v.toNat % 256 ^ 4 = v.toNat := Nat.mod_eq_of_lt v.toNat_lt
      rw [List.flatMap_cons, List.append_assoc, List.length_cons, readTable, read_toLE, hv,
        Option.bind_eq_bind, Option.bind_some]
      dsimp only
      rw [ih]
      rfl

/-- The distance to a target, from where it is counted, leads back to it. -/
theorem relative_sub (target next : UInt32) :
    relative 4 next.toNat (target - next).toNat = target.toNat := by
  have htarget := target.toNat_lt
  have hnext := next.toNat_lt
  rw [relative, signed_sub, Int.bmod_def]
  split_ifs <;> omega

end Reading

section Nodes

variable {offsetOf : InstrRef → UInt32} {x : ILInstr} {switchBase : UInt32}

theorem opcode_of_switch {opcode : Nat} (h : opCodeFlags opcode = .switch) :
    opcode = CEE_SWITCH := by
  have hall : ∀ opcode < CEE_COUNT, opCodeFlags opcode = .switch → opcode = CEE_SWITCH := by
    decide +kernel
  rcases ILInstr.opcode_cases opcode with hlt | harg | hflags
  · exact hall opcode hlt h
  · rw [harg] at h
    cases h
  · rw [hflags] at h
    cases h

theorem encodedOpcode_of_supported (h : supported x.opcode = true) :
    x.encodedOpcode = opcodeBytes x.opcode := by
  rw [supported, Bool.and_eq_true] at h
  rw [ILInstr.encodedOpcode, if_pos (of_decide_eq_true h.2)]

/-- The target of a branch is read back from the displacement that is written for it. -/
theorem relative_displacement {size : Nat} {target next : InstrRef}
    (hflags : opCodeFlags x.opcode = .branchTarget size) (htarget : x.target = some target)
    (hfits : x.Fits offsetOf next) :
    relative size (offsetOf next).toNat
        ((offsetOf target - offsetOf next).toNat % 256 ^ size) = (offsetOf target).toNat := by
  have hlong : signed size (offsetOf target - offsetOf next).toNat =
      signed 4 (offsetOf target - offsetOf next).toNat := by
    rcases branchTarget_size hflags with rfl | rfl
    · exact hfits (by rw [ILInstr.isShort, hflags]; rfl) target htarget
    · rfl
  rw [relative, signed_mod, hlong]
  exact relative_sub _ _

/-- The bytes of an instruction without a table are read back. -/
theorem fetch_encodedBytes {next : InstrRef} {after : List UInt8} (rest : List ILInstr)
    (hencodable : x.Encodable) (harg : x.isSwitchArg = false) (hswitch : x.opcode ≠ CEE_SWITCH)
    (htarget : x.isBranch = true → x.target.isSome = true) (hfits : x.Fits offsetOf next)
    (hnext : (offsetOf next).toNat = (offsetOf x.ref).toNat + x.size) :
    fetch (offsetOf x.ref).toNat (x.encodedBytes offsetOf switchBase next ++ after) =
      some (⟨x.opcode, operandOf (fun ref => (offsetOf ref).toNat) x rest⟩, after) := by
  obtain ⟨hsupported, hne⟩ := hencodable.resolve_left (Bool.eq_false_iff.mp harg)
  have hopcode := encodedOpcode_of_supported hsupported
  rw [ILInstr.encodedBytes, ILInstr.fixedBytes, ILInstr.branchBytes, hopcode, operandOf]
  rw [ILInstr.size, hopcode, ILInstr.operandSize] at hnext
  cases hflags : opCodeFlags x.opcode with
  | operand size =>
      dsimp only
      rw [List.append_nil, List.append_assoc]
      apply fetch_opcodeBytes hsupported hne
      rw [fetchOperand, hflags]
      dsimp only
      rw [read_toLE]
      rfl
  | branchTarget size =>
      rw [hflags] at hnext
      dsimp only at hnext
      have hbranch : x.isBranch = true := by rw [ILInstr.isBranch, hflags]
      obtain ⟨target, htarget⟩ := Option.isSome_iff_exists.mp (htarget hbranch)
      have hopcodeArg : x.opcode ≠ CEE_SWITCH_ARG := by
        rw [ILInstr.isSwitchArg, beq_eq_false_iff_ne] at harg
        exact harg
      dsimp only
      rw [List.append_nil, List.append_assoc]
      apply fetch_opcodeBytes hsupported hne
      rw [fetchOperand, hflags]
      dsimp only
      rw [read_toLE, Option.bind_eq_bind, Option.bind_some, ILInstr.displacement, htarget,
        Option.map_some, Option.getD_some, if_neg hopcodeArg, Nat.add_assoc, ← hnext,
        relative_displacement hflags htarget hfits, targetOf, htarget]
      rfl
  | switch => exact absurd (opcode_of_switch hflags) hswitch

/-- The table of a switch: each entry counts from the end of the switch. -/
theorem codeBytes_switchArgs {args rest : List ILInstr}
    (hargs : ∀ x ∈ args, x.isSwitchArg = true ∧ x.target.isSome = true) :
    codeBytes offsetOf switchBase (args ++ rest) =
      (args.map fun x => offsetOf (x.target.getD .sentinel) - switchBase).flatMap
        (fun v => toLE 4 v.toNat) ++ codeBytes offsetOf switchBase rest := by
  induction args with
  | nil => rfl
  | cons x args ih =>
      obtain ⟨⟨hx, htarget⟩, hargs⟩ := List.forall_mem_cons.mp hargs
      obtain ⟨target, htarget⟩ := Option.isSome_iff_exists.mp htarget
      have hopcode : x.opcode = CEE_SWITCH_ARG := eq_of_beq hx
      have hbase : x.switchBaseAfter offsetOf switchBase = switchBase := by
        rw [ILInstr.switchBaseAfter, hopcode]
        rfl
      have hbytes : ∀ next, x.encodedBytes offsetOf switchBase next =
          toLE 4 (offsetOf target - switchBase).toNat := by
        intro next
        rw [ILInstr.encodedBytes, ILInstr.fixedBytes, ILInstr.encodedOpcode, ILInstr.branchBytes,
          ILInstr.displacement, hopcode, htarget]
        rfl
      rw [List.cons_append, codeBytes, hbytes, hbase, ih hargs, List.map_cons, List.flatMap_cons,
        htarget, Option.getD_some, List.append_assoc]

end Nodes

section Decoding

variable {offsetOf : InstrRef → UInt32} {il args rest : List ILInstr} {base : Nat}

theorem Placed.of_append (h : Placed offsetOf base (args ++ rest)) :
    Placed offsetOf (base + totalSize args) rest := by
  induction args generalizing base with
  | nil => exact h
  | cons x args ih =>
      rw [totalSize_cons, ← Nat.add_assoc]
      exact ih h.2

theorem AllFit.of_append (h : AllFit offsetOf (args ++ rest)) : AllFit offsetOf rest := by
  induction args with
  | nil => exact h
  | cons x args ih => exact ih h.2

theorem totalSize_append (args rest : List ILInstr) :
    totalSize (args ++ rest) = totalSize args + totalSize rest := by
  rw [totalSize, List.map_append, List.sum_append, totalSize, totalSize]

theorem totalSize_switchArgs (h : ∀ x ∈ args, x.isSwitchArg = true) :
    totalSize args = 4 * args.length := by
  induction args with
  | nil => rfl
  | cons x args ih =>
      obtain ⟨hx, hargs⟩ := List.forall_mem_cons.mp h
      have hsize : x.size = 4 := by
        rw [ILInstr.size, ILInstr.operandSize, ILInstr.encodedOpcode, eq_of_beq hx]
        rfl
      rw [totalSize_cons, hsize, ih hargs, List.length_cons]
      omega

/-- A switch is read back with its table. -/
theorem fetch_switch {x : ILInstr} {switchBase : UInt32} {next : InstrRef}
    (hswitch : x.opcode = CEE_SWITCH) (hlength : args.length = x.arg)
    (hargs : ∀ y ∈ args, y.isSwitchArg = true ∧ y.target.isSome = true) (hrest : Tabled 0 rest)
    (hbound : (offsetOf x.ref).toNat + 5 + 4 * x.arg < 2 ^ 32) :
    fetch (offsetOf x.ref).toNat (x.encodedBytes offsetOf switchBase next ++
        codeBytes offsetOf (x.switchBaseAfter offsetOf switchBase) (args ++ rest)) =
      some (⟨x.opcode, operandOf (fun ref => (offsetOf ref).toNat) x (args ++ rest)⟩,
        codeBytes offsetOf (x.switchBaseAfter offsetOf switchBase) rest) := by
  have hbytes : x.encodedBytes offsetOf switchBase next =
      opcodeBytes CEE_SWITCH ++ toLE 4 x.arg := by
    rw [ILInstr.encodedBytes, ILInstr.fixedBytes, ILInstr.encodedOpcode, ILInstr.branchBytes,
      hswitch]
    exact List.append_nil _
  have hbase : (x.switchBaseAfter offsetOf switchBase).toNat =
      (offsetOf x.ref).toNat + 1 + 4 + 4 * x.arg := by
    have hone : (1 : UInt32).toNat = 1 := rfl
    have hfour : (4 : UInt32).toNat = 4 := rfl
    rw [ILInstr.switchBaseAfter, if_pos hswitch, UInt32.toNat_add, UInt32.toNat_add,
      UInt32.toNat_mul, UInt32.toNat_add, UInt32.toNat_ofNat', hone, hfour]
    omega
  have hcount : x.arg % 256 ^ 4 = x.arg := Nat.mod_eq_of_lt (by omega)
  have hoperand : operandOf (fun ref => (offsetOf ref).toNat) x (args ++ rest) =
      .targets (args.map (targetOf fun ref => (offsetOf ref).toNat)) := by
    rw [operandOf, hswitch, hrest.takeWhile_append fun y hy => (hargs y hy).1]
    rfl
  let values := args.map fun y =>
    offsetOf (y.target.getD .sentinel) - x.switchBaseAfter offsetOf switchBase
  have hvalues : values.length = x.arg := by rw [List.length_map, hlength]
  rw [hbytes, hoperand, hswitch, List.append_assoc, codeBytes_switchArgs hargs]
  apply fetch_opcodeBytes (by decide) (by decide)
  have hflags : opCodeFlags CEE_SWITCH = .switch := rfl
  rw [fetchOperand, hflags]
  dsimp only
  rw [read_toLE, hcount, Option.bind_eq_bind, Option.bind_some]
  dsimp only
  have htable := readTable_toLE values
    (codeBytes offsetOf (x.switchBaseAfter offsetOf switchBase) rest)
  rw [hvalues] at htable
  rw [htable, Option.bind_eq_bind, Option.bind_some]
  dsimp only
  have hstart : (offsetOf x.ref).toNat + (opcodeBytes CEE_SWITCH).length + 4 + 4 * x.arg =
      (x.switchBaseAfter offsetOf switchBase).toNat := hbase.symm
  have htargets : (values.map UInt32.toNat).map
      (relative 4 (x.switchBaseAfter offsetOf switchBase).toNat) =
        args.map (targetOf fun ref => (offsetOf ref).toNat) := by
    simp only [values, List.map_map]
    apply List.map_congr_left
    intro y _
    rw [Function.comp_apply, Function.comp_apply, relative_sub, targetOf]
  rw [hstart, htargets]
  rfl

/-- The bytes of a list decode to its program. -/
theorem decodeFrom_codeBytes {switchBase : UInt32} (hplaced : Placed offsetOf base il)
    (hfits : AllFit offsetOf il) (htabled : Tabled 0 il) (hencodable : ∀ x ∈ il, x.Encodable)
    (htargets : ∀ x ∈ il, x.isBranch = true → x.target.isSome = true)
    (hbound : base + totalSize il < 2 ^ 32) :
    decodeFrom (codeBytes offsetOf switchBase il).length base (codeBytes offsetOf switchBase il) =
      some (programOf (fun ref => (offsetOf ref).toNat) il) := by
  induction hlength : il.length using Nat.strong_induction_on generalizing il base switchBase with
  | _ n ih =>
      cases il with
      | nil => rfl
      | cons x rest =>
          obtain ⟨harg, hrest⟩ := htabled
          obtain ⟨hx, hencodable⟩ := List.forall_mem_cons.mp hencodable
          obtain ⟨hxtarget, htargets⟩ := List.forall_mem_cons.mp htargets
          rw [totalSize_cons] at hbound
          rw [codeBytes, programOf, if_neg (Bool.eq_false_iff.mp harg)]
          by_cases hswitch : x.opcode = CEE_SWITCH
          · rw [if_pos hswitch] at hrest
            obtain ⟨args, rest, rfl, hcount, hargs, hrest⟩ := hrest.exists_append
            have hsize : x.size = 5 := by
              rw [ILInstr.size, ILInstr.operandSize, ILInstr.encodedOpcode, hswitch]
              rfl
            have hargsTarget : ∀ y ∈ args, y.isSwitchArg = true ∧ y.target.isSome = true := by
              intro y hy
              refine ⟨hargs y hy, htargets y (List.mem_append_left _ hy) ?_⟩
              rw [ILInstr.isBranch, eq_of_beq (hargs y hy)]
              rfl
            have htotal := totalSize_switchArgs hargs
            rw [totalSize_append, htotal, hcount] at hbound
            have hplace := hplaced.1
            have hfetch := @fetch_switch offsetOf args rest x switchBase
              (firstRef (args ++ rest)) hswitch hcount hargsTarget hrest (by omega)
            rw [hplace] at hfetch ⊢
            have hafter := hplaced.2.of_append
            rw [htotal, hcount, hsize] at hafter
            rw [decodeFrom_cons hfetch, programOf_append_of_switchArgs hargs]
            have hlengths : base + ((x.encodedBytes offsetOf switchBase (firstRef (args ++ rest)) ++
                codeBytes offsetOf (x.switchBaseAfter offsetOf switchBase) (args ++ rest)).length -
                (codeBytes offsetOf (x.switchBaseAfter offsetOf switchBase) rest).length) =
                base + 5 + 4 * x.arg := by
              have htable : ∀ values : List UInt32,
                  (values.flatMap fun v => toLE 4 v.toNat).length = 4 * values.length := by
                intro values
                simp [List.length_flatMap, Nat.mul_comm]
              rw [codeBytes_switchArgs hargsTarget, List.length_append, List.length_append, htable,
                List.length_map, hcount, x.length_encodedBytes, hsize]
              omega
            have hshorter : rest.length < n := by
              rw [← hlength, List.length_cons, List.length_append]
              omega
            rw [hlengths, ih rest.length hshorter hafter hfits.2.of_append hrest
              (fun y hy => hencodable y (List.mem_append_right _ hy))
              (fun y hy => htargets y (List.mem_append_right _ hy)) (by omega) rfl]
            rfl
          · rw [if_neg hswitch] at hrest
            have hnext : (offsetOf (firstRef rest)).toNat = (offsetOf x.ref).toNat + x.size := by
              rw [hplaced.2.firstRef, hplaced.1]
            have hfetch := @fetch_encodedBytes offsetOf x switchBase (firstRef rest)
              (codeBytes offsetOf (x.switchBaseAfter offsetOf switchBase) rest) rest hx harg hswitch
              hxtarget hfits.1 hnext
            rw [hplaced.1] at hfetch ⊢
            rw [decodeFrom_cons hfetch, List.length_append, x.length_encodedBytes,
              Nat.add_sub_cancel, ih rest.length (by rw [← hlength]; exact Nat.lt_succ_self _)
                hplaced.2 hfits.2 hrest hencodable htargets (by omega) rfl]
            rfl

end Decoding

end SignalFxTracing.Il
