import SignalFxTracing.Il.Effect

/-!
# Constants, arguments and locals of a proxy (`ILHelpersExtensions.cs`)

The bytes that the helpers of duck typing give to the generator. `Emit` writes
four bytes behind an opcode that has an argument, also behind one that reads
only one of them; the other three are then read as instructions.
-/

namespace SignalFxTracing.DuckTyping

open Il Lib.LittleEndian

namespace OpCodes

def ldarg_0 : Nat := 0x02

def ldarg_1 : Nat := 0x03

def ldarg_2 : Nat := 0x04

def ldarg_3 : Nat := 0x05

def ldloc_0 : Nat := 0x06

def ldloc_1 : Nat := 0x07

def ldloc_2 : Nat := 0x08

def ldloc_3 : Nat := 0x09

def stloc_0 : Nat := 0x0A

def stloc_1 : Nat := 0x0B

def stloc_2 : Nat := 0x0C

def stloc_3 : Nat := 0x0D

def ldarg_S : Nat := 0x0E

def ldloc_S : Nat := 0x11

def stloc_S : Nat := 0x13

def ldc_I4_M1 : Nat := 0x15

def ldc_I4_0 : Nat := 0x16

def ldc_I4_1 : Nat := 0x17

def ldc_I4_2 : Nat := 0x18

def ldc_I4_3 : Nat := 0x19

def ldc_I4_4 : Nat := 0x1A

def ldc_I4_5 : Nat := 0x1B

def ldc_I4_6 : Nat := 0x1C

def ldc_I4_7 : Nat := 0x1D

def ldc_I4_8 : Nat := 0x1E

def ldc_I4_S : Nat := 0x1F

def ldc_I4 : Nat := 0x20

end OpCodes

/-- `Emit(opcode)`. -/
def emit (opcode : Nat) : List UInt8 := opcodeBytes opcode

/-- `Emit(opcode, arg)` of an `int`. -/
def emitInt (opcode : Nat) (arg : Int32) : List UInt8 :=
  opcodeBytes opcode ++ toLE 4 arg.toUInt32.toNat

/-- The switch over an index: four opcodes that hold it, and one with an argument. -/
def emitIndexed (opcode0 opcode1 opcode2 opcode3 opcodeS : Nat) (index : Int32) : List UInt8 :=
  if index = 0 then emit opcode0
  else if index = 1 then emit opcode1
  else if index = 2 then emit opcode2
  else if index = 3 then emit opcode3
  else emitInt opcodeS index

def writeLoadArgument (index : Int32) (isStatic : Bool) : List UInt8 :=
  emitIndexed OpCodes.ldarg_0 OpCodes.ldarg_1 OpCodes.ldarg_2 OpCodes.ldarg_3 OpCodes.ldarg_S
    (if isStatic then index else index + 1)

def writeLoadLocal (index : Int32) : List UInt8 :=
  emitIndexed OpCodes.ldloc_0 OpCodes.ldloc_1 OpCodes.ldloc_2 OpCodes.ldloc_3 OpCodes.ldloc_S
    index

def writeStoreLocal (index : Int32) : List UInt8 :=
  emitIndexed OpCodes.stloc_0 OpCodes.stloc_1 OpCodes.stloc_2 OpCodes.stloc_3 OpCodes.stloc_S
    index

def writeInt (value : Int32) : List UInt8 :=
  if -1 ≤ value ∧ value ≤ 8 then
    if value = -1 then emit OpCodes.ldc_I4_M1
    else if value = 0 then emit OpCodes.ldc_I4_0
    else if value = 1 then emit OpCodes.ldc_I4_1
    else if value = 2 then emit OpCodes.ldc_I4_2
    else if value = 3 then emit OpCodes.ldc_I4_3
    else if value = 4 then emit OpCodes.ldc_I4_4
    else if value = 5 then emit OpCodes.ldc_I4_5
    else if value = 6 then emit OpCodes.ldc_I4_6
    else if value = 7 then emit OpCodes.ldc_I4_7
    else emit OpCodes.ldc_I4_8
  else if -128 ≤ value ∧ value ≤ 127 then emitInt OpCodes.ldc_I4_S value
  else emitInt OpCodes.ldc_I4 value

/-- What a proxy has written; its indices go from 0 to 65535. -/
inductive Write
  | int (value : Int32)
  | loadArgument (index : UInt16) (isStatic : Bool)
  | loadLocal (index : UInt16)
  | storeLocal (index : UInt16)

namespace Write

def bytes : Write → List UInt8
  | int value => writeInt value
  | loadArgument index isStatic => writeLoadArgument (Int32.ofNat index.toNat) isStatic
  | loadLocal index => writeLoadLocal (Int32.ofNat index.toNat)
  | storeLocal index => writeStoreLocal (Int32.ofNat index.toNat)

/-- What the helper is called for. The instance is the first argument of a method that is not
static. -/
def effect : Write → Effect
  | int value => .pushInt32 value
  | loadArgument index isStatic => .loadArgument (index.toNat + if isStatic then 0 else 1)
  | loadLocal index => .loadLocal index.toNat
  | storeLocal index => .storeLocal index.toNat

/-- The argument fits in the operand of the opcode, and the three bytes behind it are nops. -/
def FitsShortForm : Write → Prop
  | int value => ¬ (-128 ≤ value ∧ value < -1)
  | loadArgument index isStatic => index.toNat + (if isStatic then 0 else 1) < 256
  | loadLocal index => index.toNat < 256
  | storeLocal index => index.toNat < 256

end Write

section Indices

variable {opcode0 opcode1 opcode2 opcode3 opcodeS : Nat} {kind : Nat → Effect}

/-- An opcode with an operand of one byte: the operand is the low byte of the argument, and the
other three are code. -/
theorem effectsFrom_emitInt {opcode : Nat} (hsupported : supported opcode = true)
    (hne : opcode ≠ CEE_PREFIX1) (hflags : opCodeFlags opcode = .operand 1) (arg : Int32) :
    ∃ offset, effectsFrom 0 (emitInt opcode arg) =
      (Instruction.effects? ⟨opcode, .value (arg.toUInt32.toNat % 256)⟩).bind fun effects =>
        (effectsFrom offset (toLE 3 (arg.toUInt32.toNat / 256))).map (effects ++ ·) := by
  have hbytes : emitInt opcode arg = opcodeBytes opcode ++ toLE 1 arg.toUInt32.toNat ++
      toLE 3 (arg.toUInt32.toNat / 256) := by
    rw [emitInt, List.append_assoc]
    rfl
  rw [hbytes]
  exact effectsFrom_operand hsupported hne hflags 0 _ _

theorem toUInt32_ofNat_toNat {index : Nat} (h : index < 2 ^ 31) :
    (Int32.ofNat index).toUInt32.toNat = index := by
  rw [Int32.toUInt32_ofNat', UInt32.toNat_ofNat']
  exact Nat.mod_eq_of_lt (by omega)

theorem ofNat_ne {index other : Nat} (h : index < 2 ^ 31) (hother : other < 2 ^ 31)
    (hne : index ≠ other) : Int32.ofNat index ≠ Int32.ofNat other := by
  intro heq
  apply hne
  rw [← toUInt32_ofNat_toNat h, heq, toUInt32_ofNat_toNat hother]

theorem effectsFrom_surplus_zero (offset : Nat) : effectsFrom offset (toLE 3 0) = some [] :=
  effectsFrom_nops offset 3

/-- An index is loaded or stored as such exactly when it fits in one byte. -/
theorem performs_emitIndexed_iff (h0 : Performs (emit opcode0) (kind 0))
    (h1 : Performs (emit opcode1) (kind 1)) (h2 : Performs (emit opcode2) (kind 2))
    (h3 : Performs (emit opcode3) (kind 3)) (hsupported : supported opcodeS = true)
    (hne : opcodeS ≠ CEE_PREFIX1) (hflags : opCodeFlags opcodeS = .operand 1)
    (heffect : ∀ index, Instruction.effects? ⟨opcodeS, .value index⟩ = some [kind index])
    (hkind : Function.Injective kind) {index : Nat} (hindex : index < 2 ^ 31) :
    Performs (emitIndexed opcode0 opcode1 opcode2 opcode3 opcodeS (Int32.ofNat index))
        (kind index) ↔ index < 256 := by
  rw [emitIndexed]
  by_cases hsmall : index < 4
  · apply iff_of_true _ (by omega)
    obtain rfl | rfl | rfl | rfl : index = 0 ∨ index = 1 ∨ index = 2 ∨ index = 3 := by omega
    · exact h0
    · exact h1
    · exact h2
    · exact h3
  · have hne0 : Int32.ofNat index ≠ 0 := @ofNat_ne index 0 hindex (by decide) (by omega)
    have hne1 : Int32.ofNat index ≠ 1 := @ofNat_ne index 1 hindex (by decide) (by omega)
    have hne2 : Int32.ofNat index ≠ 2 := @ofNat_ne index 2 hindex (by decide) (by omega)
    have hne3 : Int32.ofNat index ≠ 3 := @ofNat_ne index 3 hindex (by decide) (by omega)
    obtain ⟨offset, heq⟩ := effectsFrom_emitInt hsupported hne hflags (Int32.ofNat index)
    rw [if_neg hne0, if_neg hne1, if_neg hne2, if_neg hne3, Performs, heq,
      toUInt32_ofNat_toNat hindex, heffect,
      Option.bind_some]
    constructor
    · intro h
      obtain ⟨rest, -, hrest⟩ := Option.map_eq_some_iff.mp h
      have hlow := hkind (List.cons.inj hrest).1
      omega
    · intro h
      rw [Nat.mod_eq_of_lt h, Nat.div_eq_of_lt h, effectsFrom_surplus_zero]
      rfl

theorem performs_writeLoadArgument_iff (index : UInt16) (isStatic : Bool) :
    Performs (writeLoadArgument (Int32.ofNat index.toNat) isStatic)
        (.loadArgument (index.toNat + if isStatic then 0 else 1)) ↔
      index.toNat + (if isStatic then 0 else 1) < 256 := by
  have hlt := index.toNat_lt
  have hindex : (if isStatic then Int32.ofNat index.toNat else Int32.ofNat index.toNat + 1) =
      Int32.ofNat (index.toNat + if isStatic then 0 else 1) := by
    cases isStatic with
    | false => exact (Int32.ofNat_add _ _).symm
    | true => rfl
  rw [writeLoadArgument, hindex]
  apply performs_emitIndexed_iff (by decide) (by decide) (by decide) (by decide) (by decide)
    (by decide) (by decide) (fun _ => rfl) (fun _ _ => Effect.loadArgument.inj)
  split_ifs <;> omega

theorem performs_writeLoadLocal_iff (index : UInt16) :
    Performs (writeLoadLocal (Int32.ofNat index.toNat)) (.loadLocal index.toNat) ↔
      index.toNat < 256 := by
  have hlt := index.toNat_lt
  apply performs_emitIndexed_iff (by decide) (by decide) (by decide) (by decide) (by decide)
    (by decide) (by decide) (fun _ => rfl) (fun _ _ => Effect.loadLocal.inj)
  omega

theorem performs_writeStoreLocal_iff (index : UInt16) :
    Performs (writeStoreLocal (Int32.ofNat index.toNat)) (.storeLocal index.toNat) ↔
      index.toNat < 256 := by
  have hlt := index.toNat_lt
  apply performs_emitIndexed_iff (by decide) (by decide) (by decide) (by decide) (by decide)
    (by decide) (by decide) (fun _ => rfl) (fun _ _ => Effect.storeLocal.inj)
  omega

end Indices

section Constants

variable {value : Int32}

theorem signed_toUInt32 (value : Int32) : signed 4 value.toUInt32.toNat = value.toInt :=
  (BitVec.toInt_eq_toNat_bmod value.toBitVec).symm

/-- The bytes of a number are those of its two's complement. -/
theorem toUInt32_toNat_eq (value : Int32) :
    (value.toUInt32.toNat : Int) = if 0 ≤ value.toInt then value.toInt else value.toInt + 2 ^ 32 := by
  have hsigned := signed_toUInt32 value
  have hlt := value.toUInt32.toNat_lt
  rw [signed, Int.bmod] at hsigned
  split_ifs at hsigned ⊢ <;> omega

theorem performs_writeInt_small (h : -1 ≤ value ∧ value ≤ 8) :
    Performs (writeInt value) (.pushInt32 value) := by
  rw [Int32.le_iff_toInt_le, Int32.le_iff_toInt_le] at h
  have hvalue : value.toInt = -1 ∨ value.toInt = 0 ∨ value.toInt = 1 ∨ value.toInt = 2 ∨
      value.toInt = 3 ∨ value.toInt = 4 ∨ value.toInt = 5 ∨ value.toInt = 6 ∨ value.toInt = 7 ∨
      value.toInt = 8 := by
    have hlow : (-1 : Int32).toInt = -1 := rfl
    have hhigh : (8 : Int32).toInt = 8 := rfl
    omega
  rw [← Int32.ofInt_toInt value]
  rcases hvalue with h | h | h | h | h | h | h | h | h | h <;> rw [h] <;> decide

/-- The operand of the short form is the low byte, read as a signed number. -/
theorem effects_ldc_I4_S (h : -128 ≤ value.toInt ∧ value.toInt ≤ 127) :
    Instruction.effects? ⟨OpCodes.ldc_I4_S, .value (value.toUInt32.toNat % 256)⟩ =
      some [.pushInt32 value] := by
  have hlow : signed 1 (value.toUInt32.toNat % 256) = value.toInt := by
    have hvalue := toUInt32_toNat_eq value
    rw [signed, Int.bmod]
    split_ifs at hvalue ⊢ <;> omega
  have heffects : ∀ v, Instruction.effects? ⟨OpCodes.ldc_I4_S, .value v⟩ =
      some [.pushInt32 (Int32.ofInt (signed 1 v))] := fun _ => rfl
  rw [heffects, hlow, Int32.ofInt_toInt]

/-- A negative number leaves three bytes `0xFF` behind the operand, which are no instructions. -/
theorem performs_emitInt_ldc_I4_S_iff (h : -128 ≤ value.toInt ∧ value.toInt ≤ 127) :
    Performs (emitInt OpCodes.ldc_I4_S value) (.pushInt32 value) ↔ 0 ≤ value.toInt := by
  obtain ⟨offset, heq⟩ := @effectsFrom_emitInt OpCodes.ldc_I4_S (by decide) (by decide) rfl value
  have hvalue := toUInt32_toNat_eq value
  rw [Performs, heq, effects_ldc_I4_S h, Option.bind_some]
  by_cases hsign : 0 ≤ value.toInt
  · have hsurplus : value.toUInt32.toNat / 256 = 0 := by
      rw [if_pos hsign] at hvalue
      omega
    rw [hsurplus, effectsFrom_surplus_zero]
    exact iff_of_true rfl hsign
  · have hsurplus : value.toUInt32.toNat / 256 = 0xFFFFFF := by
      rw [if_neg hsign] at hvalue
      omega
    have hnone : effectsFrom offset (toLE 3 0xFFFFFF) = none := by
      have hfetch : fetch offset (toLE 3 0xFFFFFF) = some (⟨0xFF, .value 0⟩, [0xFF, 0xFF]) := rfl
      rw [effectsFrom_of_fetch hfetch]
      rfl
    rw [hsurplus, hnone]
    exact iff_of_false (by simp) hsign

theorem performs_emitInt_ldc_I4 (value : Int32) :
    Performs (emitInt OpCodes.ldc_I4 value) (.pushInt32 value) := by
  obtain ⟨offset, heq⟩ := @effectsFrom_operand OpCodes.ldc_I4 4 (by decide) (by decide) rfl 0
    value.toUInt32.toNat []
  have hlt : value.toUInt32.toNat < 256 ^ 4 := value.toUInt32.toNat_lt
  have heffects : ∀ v, Instruction.effects? ⟨OpCodes.ldc_I4, .value v⟩ =
      some [.pushInt32 (Int32.ofInt (signed 4 v))] := fun _ => rfl
  rw [Performs, emitInt, ← List.append_nil (opcodeBytes _ ++ _), heq, Nat.mod_eq_of_lt hlt,
    heffects, signed_toUInt32, Int32.ofInt_toInt]
  rfl

theorem performs_writeInt_iff (value : Int32) :
    Performs (writeInt value) (.pushInt32 value) ↔ ¬ (-128 ≤ value ∧ value < -1) := by
  by_cases hsmall : -1 ≤ value ∧ value ≤ 8
  · exact iff_of_true (performs_writeInt_small hsmall) fun h => Int32.not_lt.mpr hsmall.1 h.2
  · have hrange : (-128 ≤ value ∧ value ≤ 127) ↔ (-128 ≤ value.toInt ∧ value.toInt ≤ 127) := by
      rw [Int32.le_iff_toInt_le, Int32.le_iff_toInt_le]
      rfl
    have hnegative : (-128 ≤ value ∧ value < -1) ↔ (-128 ≤ value.toInt ∧ value.toInt < -1) := by
      rw [Int32.le_iff_toInt_le, Int32.lt_iff_toInt_lt]
      rfl
    have hlarge : ¬(-1 ≤ value.toInt ∧ value.toInt ≤ 8) := by
      rw [Int32.le_iff_toInt_le, Int32.le_iff_toInt_le] at hsmall
      exact hsmall
    rw [writeInt, if_neg hsmall, hnegative]
    by_cases hshort : -128 ≤ value ∧ value ≤ 127
    · rw [if_pos hshort, performs_emitInt_ldc_I4_S_iff (hrange.mp hshort)]
      rw [hrange] at hshort
      omega
    · rw [if_neg hshort]
      rw [hrange] at hshort
      exact iff_of_true (performs_emitInt_ldc_I4 value) (by omega)

end Constants

namespace Write

/-- A helper emits the effect it is called for exactly when no byte behind a short operand is
anything but a nop. -/
theorem performs_iff_fitsShortForm (w : Write) : Performs w.bytes w.effect ↔ w.FitsShortForm := by
  cases w with
  | int value => exact performs_writeInt_iff value
  | loadArgument index isStatic => exact performs_writeLoadArgument_iff index isStatic
  | loadLocal index => exact performs_writeLoadLocal_iff index
  | storeLocal index => exact performs_writeStoreLocal_iff index

/-- The constant -2 is not pushed as such. -/
theorem not_performs : ¬∀ w : Write, Performs w.bytes w.effect := by
  intro h
  exact absurd (h (.int (-2))) (by decide)

end Write

end SignalFxTracing.DuckTyping
