import SignalFxTracing.Il.OpCode
import SignalFxTracing.Lib.LittleEndian

/-!
# The instructions of a method body

The bytes of a body are read one instruction after the other. Targets are
offsets into the code, in arithmetic modulo `2^32`.
-/

namespace SignalFxTracing.Il

open Lib.LittleEndian

inductive Operand
  | value (v : Nat)
  | target (offset : Nat)
  | targets (offsets : List Nat)
  deriving DecidableEq

structure Instruction where
  opcode : Nat
  operand : Operand
  deriving DecidableEq

/-- An opcode that `opcode.def` lists and that is no unsupported prefix. -/
def supported (opcode : Nat) : Bool :=
  !(CEE_PREFIX7 ≤ opcode && opcode ≤ CEE_PREFIX2) && opcode < CEE_COUNT

/-- The opcode at the front, in one or two bytes. -/
def fetchOpcode : List UInt8 → Option (Nat × List UInt8)
  | [] => none
  | b :: rest =>
      if b.toNat = CEE_PREFIX1 then
        match rest with
        | [] => none
        | c :: rest =>
            if supported (0x100 + c.toNat) then some (0x100 + c.toNat, rest) else none
      else if supported b.toNat then some (b.toNat, rest)
      else none

/-- The offset that lies `v`, read as a signed number, behind `base`. -/
def relative (size base v : Nat) : Nat := ((base + signed size v) % 2 ^ 32).toNat

/-- Successive numbers of four bytes. -/
def readTable : Nat → List UInt8 → Option (List Nat × List UInt8)
  | 0, bytes => some ([], bytes)
  | n + 1, bytes => do
      let (v, bytes) ← read 4 bytes
      let (values, bytes) ← readTable n bytes
      return (v :: values, bytes)

/-- The operand of an opcode that ends at `start`. -/
def fetchOperand (start : Nat) (opcode : Nat) (bytes : List UInt8) :
    Option (Operand × List UInt8) :=
  match opCodeFlags opcode with
  | .operand size => do
      let (v, bytes) ← read size bytes
      return (.value v, bytes)
  | .branchTarget size => do
      let (v, bytes) ← read size bytes
      return (.target (relative size (start + size) v), bytes)
  | .switch => do
      let (nTargets, bytes) ← read 4 bytes
      let (values, bytes) ← readTable nTargets bytes
      return (.targets (values.map (relative 4 (start + 4 + 4 * nTargets))), bytes)

/-- The instruction at the front, which starts at `offset`. -/
def fetch (offset : Nat) (bytes : List UInt8) : Option (Instruction × List UInt8) := do
  let (opcode, rest) ← fetchOpcode bytes
  let (operand, rest) ← fetchOperand (offset + (bytes.length - rest.length)) opcode rest
  return (⟨opcode, operand⟩, rest)

/-- At most `fuel` instructions, with the offsets at which they start. -/
def decodeFrom : Nat → Nat → List UInt8 → Option (List (Nat × Instruction))
  | _, _, [] => some []
  | 0, _, _ :: _ => none
  | fuel + 1, offset, b :: rest => do
      let (instruction, after) ← fetch offset (b :: rest)
      let instructions ←
        decodeFrom fuel (offset + ((b :: rest).length - after.length)) after
      return (offset, instruction) :: instructions

/-- The instructions of a body. No instruction is empty, so the fuel suffices. -/
def decode (code : List UInt8) : Option (List (Nat × Instruction)) :=
  decodeFrom code.length 0 code

section Encoding

variable {opcode : Nat}

/-- The bytes of an opcode, in the order in which they are read. -/
def opcodeBytes (opcode : Nat) : List UInt8 :=
  if 0x100 ≤ opcode then [UInt8.ofNat CEE_PREFIX1, UInt8.ofNat opcode] else [UInt8.ofNat opcode]

theorem fetchOpcode_opcodeBytes (hsupported : supported opcode = true)
    (hne : opcode ≠ CEE_PREFIX1) (rest : List UInt8) :
    fetchOpcode (opcodeBytes opcode ++ rest) = some (opcode, rest) := by
  have hlt : opcode < CEE_COUNT := by
    rw [supported, Bool.and_eq_true] at hsupported
    exact of_decide_eq_true hsupported.2
  rw [CEE_COUNT] at hlt
  by_cases htwo : 0x100 ≤ opcode
  · have hbyte : 0x100 + (UInt8.ofNat opcode).toNat = opcode := by
      rw [UInt8.toNat_ofNat']
      omega
    have hlead : (UInt8.ofNat CEE_PREFIX1).toNat = CEE_PREFIX1 := rfl
    rw [opcodeBytes, if_pos htwo]
    simp only [List.cons_append, List.nil_append, fetchOpcode]
    rw [if_pos hlead, hbyte, if_pos hsupported]
  · have hbyte : (UInt8.ofNat opcode).toNat = opcode := by
      rw [UInt8.toNat_ofNat']
      omega
    rw [opcodeBytes, if_neg htwo]
    simp only [List.cons_append, List.nil_append, fetchOpcode]
    rw [hbyte, if_neg hne, if_pos hsupported]

/-- An opcode and its operand are read back, and what follows them is left. -/
theorem fetch_operand {size : Nat} (hsupported : supported opcode = true)
    (hne : opcode ≠ CEE_PREFIX1) (hflags : opCodeFlags opcode = .operand size)
    (offset v : Nat) (rest : List UInt8) :
    fetch offset (opcodeBytes opcode ++ toLE size v ++ rest) =
      some (⟨opcode, .value (v % 256 ^ size)⟩, rest) := by
  rw [fetch, List.append_assoc, fetchOpcode_opcodeBytes hsupported hne, Option.bind_eq_bind,
    Option.bind_some]
  dsimp only
  rw [fetchOperand, hflags]
  dsimp only
  rw [read_toLE]
  rfl

end Encoding

section Lengths

variable {bytes rest : List UInt8}

theorem fetchOpcode_length {opcode : Nat} (h : fetchOpcode bytes = some (opcode, rest)) :
    rest.length < bytes.length ∧ supported opcode = true := by
  cases bytes with
  | nil => cases h
  | cons b after =>
      by_cases hprefix : b.toNat = CEE_PREFIX1
      · simp only [fetchOpcode, if_pos hprefix] at h
        cases after with
        | nil => cases h
        | cons c after =>
            simp only [Option.ite_none_right_eq_some, Option.some.injEq, Prod.mk.injEq] at h
            obtain ⟨hsupported, rfl, rfl⟩ := h
            exact ⟨by simp only [List.length_cons]; omega, hsupported⟩
      · simp only [fetchOpcode, if_neg hprefix, Option.ite_none_right_eq_some, Option.some.injEq,
          Prod.mk.injEq] at h
        obtain ⟨hsupported, rfl, rfl⟩ := h
        exact ⟨by simp, hsupported⟩

theorem readTable_length {n : Nat} {values : List Nat}
    (h : readTable n bytes = some (values, rest)) :
    values.length = n ∧ bytes.length = 4 * n + rest.length := by
  induction n generalizing bytes values with
  | zero =>
      cases h
      simp
  | succ n ih =>
      simp only [readTable, bind, Option.bind_eq_some_iff, pure, Option.some.injEq,
        Prod.mk.injEq, Prod.exists] at h
      obtain ⟨v, middle, hread, values', rest', htable, rfl, rfl⟩ := h
      obtain ⟨hlength, hbytes⟩ := ih htable
      have := read_length hread
      exact ⟨by rw [List.length_cons, hlength], by omega⟩

theorem fetchOperand_length {start opcode : Nat} {operand : Operand}
    (h : fetchOperand start opcode bytes = some (operand, rest)) :
    rest.length ≤ bytes.length := by
  unfold fetchOperand at h
  split at h
  · simp only [bind, Option.bind_eq_some_iff, pure, Option.some.injEq, Prod.mk.injEq,
      Prod.exists] at h
    obtain ⟨v, middle, hread, rfl, rfl⟩ := h
    have := read_length hread
    omega
  · simp only [bind, Option.bind_eq_some_iff, pure, Option.some.injEq, Prod.mk.injEq,
      Prod.exists] at h
    obtain ⟨v, middle, hread, rfl, rfl⟩ := h
    have := read_length hread
    omega
  · simp only [bind, Option.bind_eq_some_iff, pure, Option.some.injEq, Prod.mk.injEq,
      Prod.exists] at h
    obtain ⟨n, middle, hread, values, rest', htable, rfl, rfl⟩ := h
    have := read_length hread
    have := (readTable_length htable).2
    omega

/-- No instruction is empty. -/
theorem fetch_length {offset : Nat} {instruction : Instruction}
    (h : fetch offset bytes = some (instruction, rest)) : rest.length < bytes.length := by
  simp only [fetch, bind, Option.bind_eq_some_iff, pure, Option.some.injEq, Prod.mk.injEq,
    Prod.exists] at h
  obtain ⟨opcode, middle, hopcode, operand, rest', hoperand, rfl, rfl⟩ := h
  have := (fetchOpcode_length hopcode).1
  have := fetchOperand_length hoperand
  omega

end Lengths

/-- More fuel than bytes changes nothing. -/
theorem decodeFrom_fuel {fuel offset : Nat} {bytes : List UInt8} (h : bytes.length ≤ fuel) :
    decodeFrom fuel offset bytes = decodeFrom bytes.length offset bytes := by
  induction fuel using Nat.strong_induction_on generalizing offset bytes with
  | _ fuel ih =>
      cases bytes with
      | nil => cases fuel <;> rfl
      | cons b rest =>
          cases fuel with
          | zero => simp at h
          | succ fuel =>
              simp only [List.length_cons, Nat.add_le_add_iff_right] at h
              simp only [decodeFrom, List.length_cons]
              refine Option.bind_congr fun ⟨instruction, after⟩ hfetch => ?_
              have hafter := fetch_length hfetch
              simp only [List.length_cons] at hafter
              dsimp only
              rw [ih fuel (Nat.lt_succ_self _) (by omega),
                ih rest.length (by omega) (by omega)]

/-- The first instruction of a body and the rest. -/
theorem decodeFrom_cons {offset : Nat} {bytes after : List UInt8} {instruction : Instruction}
    (h : fetch offset bytes = some (instruction, after)) :
    decodeFrom bytes.length offset bytes =
      (decodeFrom after.length (offset + (bytes.length - after.length)) after).map
        ((offset, instruction) :: ·) := by
  cases bytes with
  | nil => cases h
  | cons b rest =>
      have hafter := fetch_length h
      simp only [List.length_cons] at hafter
      simp only [List.length_cons, decodeFrom, h, Option.bind_some, bind, pure]
      rw [decodeFrom_fuel (by omega : after.length ≤ rest.length)]
      cases decodeFrom after.length _ after <;> rfl

section Operands

/-- The kind of operand that the opcode has. -/
def Instruction.WellTyped (i : Instruction) : Prop :=
  match opCodeFlags i.opcode, i.operand with
  | .operand _, .value _ => True
  | .branchTarget _, .target _ => True
  | .switch, .targets _ => True
  | _, _ => False

theorem fetchOperand_wellTyped {start opcode : Nat} {operand : Operand} {bytes rest : List UInt8}
    (h : fetchOperand start opcode bytes = some (operand, rest)) :
    Instruction.WellTyped ⟨opcode, operand⟩ := by
  rw [Instruction.WellTyped]
  cases hflags : opCodeFlags opcode with
  | operand size =>
      simp only [fetchOperand, hflags, bind, Option.bind_eq_some_iff, pure, Option.some.injEq,
        Prod.mk.injEq, Prod.exists] at h
      obtain ⟨v, _, -, rfl, -⟩ := h
      trivial
  | branchTarget size =>
      simp only [fetchOperand, hflags, bind, Option.bind_eq_some_iff, pure, Option.some.injEq,
        Prod.mk.injEq, Prod.exists] at h
      obtain ⟨v, _, -, rfl, -⟩ := h
      trivial
  | switch =>
      simp only [fetchOperand, hflags, bind, Option.bind_eq_some_iff, pure, Option.some.injEq,
        Prod.mk.injEq, Prod.exists] at h
      obtain ⟨n, _, -, values, _, -, rfl, -⟩ := h
      trivial

/-- What holds of an instruction that is read holds of those of a body. -/
theorem decodeFrom_forall {p : Instruction → Prop} {fuel offset : Nat} {bytes : List UInt8}
    {instructions : List (Nat × Instruction)}
    (hfetch : ∀ offset bytes i rest, fetch offset bytes = some (i, rest) → p i)
    (h : decodeFrom fuel offset bytes = some instructions) :
    ∀ entry ∈ instructions, p entry.2 := by
  induction fuel generalizing offset bytes instructions with
  | zero =>
      cases bytes with
      | nil =>
          obtain rfl := Option.some.inj h
          simp
      | cons b rest => cases h
  | succ fuel ih =>
      cases bytes with
      | nil =>
          obtain rfl := Option.some.inj h
          simp
      | cons b rest =>
          simp only [decodeFrom, bind, Option.bind_eq_some_iff, pure, Option.some.injEq,
            Prod.exists] at h
          obtain ⟨instruction, after, hfirst, others, hothers, rfl⟩ := h
          exact List.forall_mem_cons.mpr ⟨hfetch _ _ _ _ hfirst, ih hothers⟩

/-- An instruction is read as an opcode and an operand of its kind. -/
theorem fetch_eq_some {offset : Nat} {bytes rest : List UInt8} {i : Instruction}
    (h : fetch offset bytes = some (i, rest)) : ∃ middle start,
      fetchOpcode bytes = some (i.opcode, middle) ∧
        fetchOperand start i.opcode middle = some (i.operand, rest) := by
  simp only [fetch, bind, Option.bind_eq_some_iff, pure, Option.some.injEq, Prod.mk.injEq,
    Prod.exists] at h
  obtain ⟨opcode, middle, hopcode, operand, _, hoperand, rfl, rfl⟩ := h
  exact ⟨middle, _, hopcode, hoperand⟩

theorem decodeFrom_wellTyped {fuel offset : Nat} {bytes : List UInt8}
    {instructions : List (Nat × Instruction)}
    (h : decodeFrom fuel offset bytes = some instructions) :
    ∀ entry ∈ instructions, entry.2.WellTyped := by
  refine decodeFrom_forall (fun offset bytes i rest hfetch => ?_) h
  obtain ⟨middle, start, -, hoperand⟩ := fetch_eq_some hfetch
  exact fetchOperand_wellTyped hoperand

end Operands

end SignalFxTracing.Il
