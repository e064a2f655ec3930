import SignalFxTracing.Il.Format

/-!
# Constants, arguments and locals

What the instructions do that push a constant of 32 bits, load an argument, or
load or store a local. Code that consists of them and of nops has the effects
of these one after another.
-/

namespace SignalFxTracing.Il

open Lib.LittleEndian

inductive Effect
  | pushInt32 (value : Int32)
  | loadArgument (index : Nat)
  | loadLocal (index : Nat)
  | storeLocal (index : Nat)
  deriving DecidableEq

/-- The arguments and the locals of a call, and its operand stack. -/
structure Frame (V : Type*) where
  arguments : List V
  locals : List V
  stack : List V

namespace Effect

variable {V : Type*}

/-- The frame behind an effect; `none` where there is no such argument or local or no value to
store. -/
def run (ofInt32 : Int32 → V) (frame : Frame V) : Effect → Option (Frame V)
  | pushInt32 value => some { frame with stack := ofInt32 value :: frame.stack }
  | loadArgument index =>
      (frame.arguments[index]?).map fun v => { frame with stack := v :: frame.stack }
  | loadLocal index =>
      (frame.locals[index]?).map fun v => { frame with stack := v :: frame.stack }
  | storeLocal index =>
      match frame.stack with
      | [] => none
      | v :: stack =>
          if index < frame.locals.length then
            some { frame with locals := frame.locals.set index v, stack := stack }
          else none

def runAll (ofInt32 : Int32 → V) (frame : Frame V) (effects : List Effect) : Option (Frame V) :=
  effects.foldlM (run ofInt32) frame

end Effect

/-- A nop has no effect; `none` for the instructions that are neither nops nor of the kinds of
`Effect`. -/
def Instruction.effects? (i : Instruction) : Option (List Effect) :=
  match i.opcode, i.operand with
  | 0x00, _ => some []
  | 0x02, _ => some [.loadArgument 0]
  | 0x03, _ => some [.loadArgument 1]
  | 0x04, _ => some [.loadArgument 2]
  | 0x05, _ => some [.loadArgument 3]
  | 0x06, _ => some [.loadLocal 0]
  | 0x07, _ => some [.loadLocal 1]
  | 0x08, _ => some [.loadLocal 2]
  | 0x09, _ => some [.loadLocal 3]
  | 0x0A, _ => some [.storeLocal 0]
  | 0x0B, _ => some [.storeLocal 1]
  | 0x0C, _ => some [.storeLocal 2]
  | 0x0D, _ => some [.storeLocal 3]
  | 0x0E, .value index => some [.loadArgument index]
  | 0x11, .value index => some [.loadLocal index]
  | 0x13, .value index => some [.storeLocal index]
  | 0x15, _ => some [.pushInt32 (-1)]
  | 0x16, _ => some [.pushInt32 0]
  | 0x17, _ => some [.pushInt32 1]
  | 0x18, _ => some [.pushInt32 2]
  | 0x19, _ => some [.pushInt32 3]
  | 0x1A, _ => some [.pushInt32 4]
  | 0x1B, _ => some [.pushInt32 5]
  | 0x1C, _ => some [.pushInt32 6]
  | 0x1D, _ => some [.pushInt32 7]
  | 0x1E, _ => some [.pushInt32 8]
  | 0x1F, .value v => some [.pushInt32 (Int32.ofInt (signed 1 v))]
  | 0x20, .value v => some [.pushInt32 (Int32.ofInt (signed 4 v))]
  | 0x109, .value index => some [.loadArgument index]
  | 0x10C, .value index => some [.loadLocal index]
  | 0x10E, .value index => some [.storeLocal index]
  | _, _ => none

/-- The effects of the code at an offset, where it has no other instructions. -/
def effectsFrom (offset : Nat) (code : List UInt8) : Option (List Effect) := do
  let instructions ← decodeFrom code.length offset code
  let effects ← instructions.mapM fun p => p.2.effects?
  return effects.flatten

/-- The code consists of nops and of one instruction with the effect. -/
def Performs (code : List UInt8) (effect : Effect) : Prop := effectsFrom 0 code = some [effect]

instance (code : List UInt8) (effect : Effect) : Decidable (Performs code effect) :=
  inferInstanceAs (Decidable (_ = _))

theorem effectsFrom_of_fetch {offset : Nat} {code after : List UInt8} {i : Instruction}
    (h : fetch offset code = some (i, after)) :
    effectsFrom offset code =
      i.effects?.bind fun effects =>
        (effectsFrom (offset + (code.length - after.length)) after).map (effects ++ ·) := by
  simp only [effectsFrom, bind, pure]
  rw [decodeFrom_cons h]
  cases decodeFrom after.length (offset + (code.length - after.length)) after with
  | none => cases i.effects? <;> rfl
  | some instructions =>
      rw [Option.map_some, Option.bind_some, List.mapM_cons]
      cases i.effects? with
      | none => rfl
      | some effects =>
          cases hrest : instructions.mapM (fun p => p.2.effects?) with
          | none => simp [hrest]
          | some rest => simp [hrest]

/-- An instruction with an operand and the code behind it. -/
theorem effectsFrom_operand {opcode size : Nat} (hsupported : supported opcode = true)
    (hne : opcode ≠ CEE_PREFIX1) (hflags : opCodeFlags opcode = .operand size)
    (offset v : Nat) (rest : List UInt8) :
    ∃ offset', effectsFrom offset (opcodeBytes opcode ++ toLE size v ++ rest) =
      (Instruction.effects? ⟨opcode, .value (v % 256 ^ size)⟩).bind fun effects =>
        (effectsFrom offset' rest).map (effects ++ ·) :=
  ⟨_, effectsFrom_of_fetch (fetch_operand hsupported hne hflags offset v rest)⟩

theorem effectsFrom_nops (offset n : Nat) :
    effectsFrom offset (List.replicate n 0) = some [] := by
  induction n generalizing offset with
  | zero => rfl
  | succ n ih =>
      obtain ⟨offset', heq⟩ :=
        @effectsFrom_operand CEE_NOP 0 rfl (by decide) rfl offset 0 (List.replicate n 0)
      have hbytes : List.replicate (n + 1) (0 : UInt8) =
          opcodeBytes CEE_NOP ++ toLE 0 0 ++ List.replicate n 0 := rfl
      rw [hbytes, heq, ih]
      rfl

section Execution

variable {V : Type*} (ofInt32 : Int32 → V)
  (other : Frame V → Instruction → Option (Frame V))

/-- One instruction; `other` says what the instructions of other kinds do. -/
def Instruction.step (frame : Frame V) (i : Instruction) : Option (Frame V) :=
  match i.effects? with
  | some effects => Effect.runAll ofInt32 frame effects
  | none => other frame i

/-- The instructions of a body one after another. -/
def execute (frame : Frame V) (instructions : List (Nat × Instruction)) : Option (Frame V) :=
  instructions.foldlM (fun frame p => p.2.step ofInt32 other frame) frame

theorem execute_of_effects {instructions : List (Nat × Instruction)} {effects : List (List Effect)}
    (h : instructions.mapM (fun p => p.2.effects?) = some effects) (frame : Frame V) :
    execute ofInt32 other frame instructions = Effect.runAll ofInt32 frame effects.flatten := by
  induction instructions generalizing effects frame with
  | nil =>
      obtain rfl := Option.some.inj h
      rfl
  | cons p rest ih =>
      simp only [List.mapM_cons, bind, Option.bind_eq_some_iff, pure, Option.some.injEq] at h
      obtain ⟨first, hfirst, others, hothers, rfl⟩ := h
      rw [execute, List.foldlM_cons, Instruction.step, hfirst, List.flatten_cons, Effect.runAll,
        List.foldlM_append]
      apply Option.bind_congr
      intro next _
      exact ih hothers next

end Execution

end SignalFxTracing.Il
