import SignalFxTracing.Il.OpCode

/-!
# Instructions and their list (`il_rewriter.h`, `il_rewriter.cpp`)

The nodes of the doubly linked list are told apart by the number that
`NewILInstr` gives them. The list is the list of its nodes; its head `m_IL`
is the sentinel before the first and after the last of them.

## Implementation notes

The union of a node is its number `arg`, whose narrower fields are its low
bytes, and its reference `target`; no field is read after another one has been
written. A reference that is null is `none`.
-/

namespace SignalFxTracing.Il

/-- Reference to the head of the list or to a node. -/
inductive InstrRef
  | sentinel
  | instr (id : Nat)
  deriving DecidableEq

structure ILInstr where
  id : Nat
  opcode : Nat
  arg : Nat
  target : Option InstrRef
  deriving DecidableEq

/-- The union of a clause: a filter has no class. -/
inductive ClassOrFilter
  | classToken (token : UInt32)
  | filter (begin_ : InstrRef)
  deriving DecidableEq

structure EHClause where
  flags : UInt32
  tryBegin : InstrRef
  tryEnd : InstrRef
  handlerBegin : InstrRef
  /-- The last instruction inside the handler. -/
  handlerEnd : InstrRef
  classOrFilter : ClassOrFilter
  deriving DecidableEq

structure ILRewriter where
  tkLocalVarSig : UInt32
  maxStack : UInt32
  flags : UInt32
  il : List ILInstr
  eh : List EHClause
  nInstrs : Nat

namespace ILInstr

/-- A call of a method by its token. -/
def isCall (x : ILInstr) : Bool := x.opcode == CEE_CALL || x.opcode == CEE_CALLVIRT

/-- Whether the operand is a branch target. -/
def isBranch (x : ILInstr) : Bool :=
  match opCodeFlags x.opcode with
  | .branchTarget _ => true
  | _ => false

/-- The amount by which linking the node raises the bound of the stack. -/
def pushes (x : ILInstr) : Nat := rgnStackPushes x.opcode

def ref (x : ILInstr) : InstrRef := .instr x.id

end ILInstr

/-- Put `what` before the node with this number. -/
def linkBefore (id : Nat) (what : ILInstr) : List ILInstr → List ILInstr
  | [] => []
  | x :: rest => if x.id = id then what :: x :: rest else x :: linkBefore id what rest

/-- Put `what` after the node with this number. -/
def linkAfter (id : Nat) (what : ILInstr) : List ILInstr → List ILInstr
  | [] => []
  | x :: rest => if x.id = id then x :: what :: rest else x :: linkAfter id what rest

/-- `m_pNext`. -/
def nextRef (il : List ILInstr) : InstrRef → InstrRef
  | .sentinel => (il.head?.map ILInstr.ref).getD .sentinel
  | .instr id => (((il.dropWhile fun x => x.id ≠ id).drop 1).head?.map ILInstr.ref).getD .sentinel

/-- `m_pPrev`. -/
def prevRef (il : List ILInstr) : InstrRef → InstrRef
  | .sentinel => (il.getLast?.map ILInstr.ref).getD .sentinel
  | .instr id => ((il.takeWhile fun x => x.id ≠ id).getLast?.map ILInstr.ref).getD .sentinel

namespace ILRewriter

/-- `AdjustState`. -/
def adjustState (newInstr : ILInstr) (r : ILRewriter) : ILRewriter :=
  { r with maxStack := r.maxStack + UInt32.ofNat newInstr.pushes }

/-- `InsertBefore`; before the sentinel is at the end. -/
def insertBefore (place : InstrRef) (what : ILInstr) (r : ILRewriter) : ILRewriter :=
  adjustState what
    { r with il :=
        match place with
        | .sentinel => r.il ++ [what]
        | .instr id => linkBefore id what r.il }

/-- `InsertAfter`; after the sentinel is at the front. -/
def insertAfter (place : InstrRef) (what : ILInstr) (r : ILRewriter) : ILRewriter :=
  adjustState what
    { r with il :=
        match place with
        | .sentinel => what :: r.il
        | .instr id => linkAfter id what r.il }

end ILRewriter

end SignalFxTracing.Il
