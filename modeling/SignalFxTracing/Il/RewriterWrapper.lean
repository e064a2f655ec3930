import SignalFxTracing.Il.Instr

/-!
# Inserting instructions (`il_rewriter_wrapper.cpp`)
-/

namespace SignalFxTracing.Il

/-- The opcode and the operand that load a number: it is in the opcode, or the operand has one
byte or four. -/
def int32Fields (value : Int) : Nat × Nat :=
  if 0 ≤ value ∧ value ≤ 8 then (CEE_LDC_I4_0 + value.toNat, 0)
  else if -128 ≤ value ∧ value ≤ 127 then (CEE_LDC_I4_S, (value % 2 ^ 8).toNat)
  else (CEE_LDC_I4, (value % 2 ^ 32).toNat)

namespace ILRewriter

/-- `NewILInstr` with its fields, linked before a node. -/
def insertNew (place : InstrRef) (opcode arg : Nat) (r : ILRewriter) : ILRewriter :=
  { r.insertBefore place ⟨r.nInstrs, opcode, arg, none⟩ with nInstrs := r.nInstrs + 1 }

/-- `NewILInstr` with its fields, linked after a node. -/
def insertNewAfter (place : InstrRef) (opcode arg : Nat) (r : ILRewriter) : ILRewriter :=
  { r.insertAfter place ⟨r.nInstrs, opcode, arg, none⟩ with nInstrs := r.nInstrs + 1 }

/-- `LoadInt64`. -/
def loadInt64 (place : InstrRef) (value : UInt64) (r : ILRewriter) : ILRewriter :=
  r.insertNew place CEE_LDC_I8 value.toNat

/-- `LoadInt32`. -/
def loadInt32 (place : InstrRef) (value : Int) (r : ILRewriter) : ILRewriter :=
  r.insertNew place (int32Fields value).1 (int32Fields value).2

/-- `Box`. -/
def box (place : InstrRef) (typeRef : Nat) (r : ILRewriter) : ILRewriter :=
  r.insertNew place CEE_BOX typeRef

/-- `UnboxAnyAfter`. -/
def unboxAnyAfter (place : InstrRef) (typeRef : Nat) (r : ILRewriter) : ILRewriter :=
  r.insertNewAfter place CEE_UNBOX_ANY typeRef

/-- `CallMember`. -/
def callMember (place : InstrRef) (memberRef : Nat) (isVirtual : Bool) (r : ILRewriter) :
    ILRewriter :=
  r.insertNew place (if isVirtual then CEE_CALLVIRT else CEE_CALL) memberRef

end ILRewriter

end SignalFxTracing.Il
