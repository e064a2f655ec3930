import SignalFxTracing.Lib.Buffer
import SignalFxTracing.Il.Format
import SignalFxTracing.Il.Instr

/-!
# The encoding loop (`ILRewriter::Export`)

A pass writes all instructions, which gives each of them its offset, and then
resolves the targets. A short branch that does not reach its target becomes a
long one, and the pass is made again.

## Implementation notes

Indices into the buffer are numbers of 32 bits. A write of several bytes starts
at such an index and does not wrap. `m_offset` is a field of its own, a function
of the node.
-/

namespace SignalFxTracing.Il

open Lib Lib.LittleEndian

/-- The state of the loop over all instructions. -/
structure Emission where
  offset : UInt32
  offsetOf : InstrRef → UInt32
  out : Buffer
  fBranch : Bool

namespace Emission

variable (s : Emission)

/-- `m_pOutputBuffer[offset++] = b`. -/
def putByte (b : UInt8) : Emission :=
  { s with out := s.out.write s.offset.toNat [b], offset := s.offset + 1 }

/-- The lead byte and the low byte of an opcode; the entries of a switch have none. -/
def putOpcode (opcode : Nat) : Emission :=
  if opcode < CEE_COUNT then
    let s := if 0x100 ≤ opcode then s.putByte (UInt8.ofNat CEE_PREFIX1) else s
    s.putByte (UInt8.ofNat opcode)
  else s

/-- An operand that does not depend on a target. -/
def putOperand (bytes : List UInt8) : Emission :=
  { s with
    out := s.out.write s.offset.toNat bytes
    offset := s.offset + UInt32.ofNat bytes.length }

/-- The code of one instruction; the place of a displacement is left out. -/
def emit (x : ILInstr) : Emission :=
  let s := { s with offsetOf := Function.update s.offsetOf x.ref s.offset }
  let s := s.putOpcode x.opcode
  match opCodeFlags x.opcode with
  | .operand size => s.putOperand (toLE size x.arg)
  | .branchTarget size => { s with fBranch := true, offset := s.offset + UInt32.ofNat size }
  | .switch => s.putOperand (toLE 4 x.arg)

end Emission

/-- The state of the loop over the control flow instructions. -/
structure Resolution where
  switchBase : UInt32
  out : Buffer
  fTryAgain : Bool

/-- The long form of a short branch. -/
def longForm (opcode : Nat) : Nat :=
  if opcode = CEE_LEAVE_S then CEE_LEAVE else opcode - CEE_BR_S + CEE_BR

/-- The first node of a list, or its end. -/
def firstRef (il : List ILInstr) : InstrRef := (il.head?.map ILInstr.ref).getD .sentinel

namespace Resolution

variable (offsetOf : InstrRef → UInt32)

/-- The displacement of a branch, or the branch in its long form. -/
def resolveBranch (s : Resolution) (x : ILInstr) (target next : InstrRef) (size : Nat) :
    ILInstr × Resolution :=
  let delta := offsetOf target - offsetOf next
  if size = 1 ∧ signed 1 delta.toNat ≠ signed 4 delta.toNat then
    ({ x with opcode := longForm x.opcode }, { s with fTryAgain := true })
  else
    (x, { s with
      out := s.out.write (offsetOf next - UInt32.ofNat size).toNat (toLE size delta.toNat) })

/-- One turn of the loop; `none` when a null target is dereferenced. -/
def resolve (s : Resolution) (x : ILInstr) (next : InstrRef) : Option (ILInstr × Resolution) :=
  if x.opcode = CEE_SWITCH then
    some (x, { s with
      switchBase := offsetOf x.ref + 1 + 4 * (UInt32.ofNat x.arg + 1) })
  else if x.opcode = CEE_SWITCH_ARG then
    x.target.map fun target =>
      (x, { s with
        out := s.out.write (offsetOf x.ref).toNat
          (toLE 4 (offsetOf target - s.switchBase).toNat) })
  else
    match opCodeFlags x.opcode with
    | .branchTarget size =>
        x.target.map fun target => s.resolveBranch offsetOf x target next size
    | _ => some (x, s)

/-- The instructions one after another. -/
def resolveAll (s : Resolution) : List ILInstr → Option (List ILInstr × Resolution)
  | [] => some ([], s)
  | x :: rest => do
      let (y, s) ← s.resolve offsetOf x (firstRef rest)
      let (others, s) ← s.resolveAll rest
      return (y :: others, s)

end Resolution

/-- What a pass changes: the opcodes, the offsets and the output buffer. -/
structure Encoder where
  il : List ILInstr
  offsetOf : InstrRef → UInt32
  out : Buffer

namespace Encoder

variable (e : Encoder)

/-- The loop over all instructions. -/
def emitAll : Emission := e.il.foldl Emission.emit ⟨0, e.offsetOf, e.out, false⟩

/-- A pass, and whether another one follows. -/
def pass : Option (Bool × Encoder) :=
  let s := e.emitAll
  let offsetOf := Function.update s.offsetOf .sentinel s.offset
  if s.fBranch then do
    let (il, resolution) ← Resolution.resolveAll offsetOf ⟨0, s.out, false⟩ e.il
    return (resolution.fTryAgain, ⟨il, offsetOf, resolution.out⟩)
  else some (false, ⟨e.il, offsetOf, s.out⟩)

/-- At most so many passes. -/
def encode : Nat → Encoder → Option Encoder
  | 0, _ => none
  | turns + 1, e => do
      let (again, e) ← e.pass
      if again then encode turns e else return e

end Encoder

/-- `maxSize`, the size of the output buffer. -/
def ILRewriter.maxSize (r : ILRewriter) : UInt32 := UInt32.ofNat r.nInstrs * 10

end SignalFxTracing.Il
