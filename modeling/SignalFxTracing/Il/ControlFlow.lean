import SignalFxTracing.Il.StackDepth

/-!
# Ways through a method body

The order in which the nodes of a list are executed, with the ways that
exceptions take: from a protected instruction to a handler or filter, and from
the end of one to what comes next.
-/

namespace SignalFxTracing.Il

/-- The end of a finally, fault or filter block. -/
def ILInstr.endsHandler (x : ILInstr) : Bool :=
  x.opcode == CEE_ENDFINALLY || x.opcode == CEE_ENDFILTER

/-- A `leave`, which a finally block may interrupt. -/
def ILInstr.isLeave (x : ILInstr) : Bool := x.opcode == CEE_LEAVE || x.opcode == CEE_LEAVE_S

/-- The place of a node in the list; that of the sentinel is behind all. -/
def position (il : List ILInstr) (ref : InstrRef) : Nat := il.findIdx fun x => x.ref = ref

/-- The node lies in the protected region of the clause. -/
def EHClause.Covers (c : EHClause) (il : List ILInstr) (x : ILInstr) : Prop :=
  position il c.tryBegin ≤ position il x.ref ∧ position il x.ref < position il c.tryEnd

/-- Where a clause may go on: at its handler or its filter. -/
def EHClause.Enters (c : EHClause) (ref : InstrRef) : Prop :=
  ref = c.handlerBegin ∨ c.classOrFilter = .filter ref

/-- Control may go from one node to the other. -/
inductive Follows (il : List ILInstr) (eh : List EHClause) : ILInstr → ILInstr → Prop
  | next {x y : ILInstr} (hfalls : x.fallsThrough = true)
      (h : nodeAt il (nextRef il x.ref) = some y) : Follows il eh x y
  | jump {x y : ILInstr} {ref : InstrRef} (hbranch : x.isBranch = true)
      (htarget : x.target = some ref) (h : nodeAt il ref = some y) : Follows il eh x y
  | raise {x y : ILInstr} {c : EHClause} {ref : InstrRef} (hc : c ∈ eh)
      (hcovers : c.Covers il x ∨ x.endsHandler = true) (henters : c.Enters ref)
      (h : nodeAt il ref = some y) : Follows il eh x y
  | resume {x y z : ILInstr} {ref : InstrRef} (hends : x.endsHandler = true) (hz : z ∈ il)
      (hleave : z.isLeave = true) (htarget : z.target = some ref) (h : nodeAt il ref = some y) :
      Follows il eh x y

/-- The nodes that an invocation has executed so far, in order. -/
structure IsExecution (il : List ILInstr) (eh : List EHClause) (path : List ILInstr) : Prop where
  entry : ∀ x ∈ path.head?, nodeAt il (nextRef il .sentinel) = some x
  follows : path.IsChain (Follows il eh)

section Cons

variable {what : ILInstr} {il : List ILInstr} {ref : InstrRef}

theorem nodeAt_cons_self : nodeAt (what :: il) what.ref = some what := by
  simp [nodeAt, ILInstr.ref]

theorem nodeAt_cons_of_ne (h : ref ≠ what.ref) : nodeAt (what :: il) ref = nodeAt il ref := by
  cases ref with
  | sentinel => rfl
  | instr id =>
      have hne : what.id ≠ id := by
        rintro rfl
        exact h rfl
      simp [nodeAt, hne]

theorem nextRef_cons_self : nextRef (what :: il) what.ref = nextRef il .sentinel := by
  simp [nextRef, ILInstr.ref]

theorem nextRef_cons_of_ne {x : ILInstr} (h : x.ref ≠ what.ref) :
    nextRef (what :: il) x.ref = nextRef il x.ref := by
  have hne : what.id ≠ x.id := by
    intro hid
    exact h (congrArg InstrRef.instr hid.symm)
  simp [nextRef, ILInstr.ref, hne]

theorem position_cons_self : position (what :: il) what.ref = 0 := by
  simp [position, List.findIdx_cons]

theorem position_cons_of_ne (h : ref ≠ what.ref) :
    position (what :: il) ref = position il ref + 1 := by
  simp [position, List.findIdx_cons, h.symm]

end Cons

end SignalFxTracing.Il
