import SignalFxTracing.Il.Instr
import SignalFxTracing.Lib.Potential

/-!
# The depth of the operand stack

The depths at which control can reach the nodes of a list. The entries of a
switch table stand behind their switch, so control passes through them until
one is chosen. What a call pops and pushes depends on signatures.
-/

namespace SignalFxTracing.Il

open Lib.Potential

/-- The signatures behind the tokens: what a call, `newobj` or `ret` pops, and
whether a call returns a value. -/
structure Signatures where
  pops : ILInstr → Nat
  returns : ILInstr → Bool

/-- `COR_ILEXCEPTION_CLAUSE_FINALLY` and `COR_ILEXCEPTION_CLAUSE_FAULT`. -/
def corILExceptionClauseFinallyOrFault : UInt32 := 6

/-- Finally and fault handlers start on an empty stack, the others with the exception. -/
def EHClause.handlerDepth (c : EHClause) : Nat :=
  if c.flags &&& corILExceptionClauseFinallyOrFault = 0 then 1 else 0

namespace ILInstr

variable (sig : Signatures) (x : ILInstr)

/-- What the instruction pops. -/
def popped : Nat :=
  match opdefs[x.opcode]? with
  | some opdef => opdef.pop.getD (sig.pops x)
  | none => 0

/-- What the instruction pushes. -/
def pushed : Nat :=
  match opdefs[x.opcode]? with
  | some opdef => opdef.push.getD (if sig.returns x then 1 else 0)
  | none => 0

/-- Control can go on to the next instruction. -/
def fallsThrough : Bool :=
  match opdefs[x.opcode]? with
  | some opdef =>
      opdef.flow ≠ .branch ∧ opdef.flow ≠ .ret ∧ opdef.flow ≠ .throwing ∧ x.opcode ≠ CEE_JMP
  | none => true

/-- The depth behind the instruction. -/
def depthAfter (depth : Nat) : Nat := depth - x.popped sig + x.pushed sig

/-- The depth at the target of the instruction; leaving a block empties the stack. -/
def depthAtTarget (depth : Nat) : Nat :=
  if x.opcode = CEE_LEAVE ∨ x.opcode = CEE_LEAVE_S then 0 else depth - x.popped sig

theorem pushed_le_pushes : x.pushed sig ≤ x.pushes := by
  unfold pushed pushes rgnStackPushes
  cases opdefs[x.opcode]? with
  | none => exact Nat.le_refl 0
  | some opdef =>
      dsimp only
      cases opdef.push with
      | none =>
          simp only [Option.getD_none]
          split <;> omega
      | some n => exact Nat.le_refl n

end ILInstr

/-- The node that a reference denotes. -/
def nodeAt (il : List ILInstr) : InstrRef → Option ILInstr
  | .sentinel => none
  | .instr id => il.find? fun x => x.id = id

theorem mem_of_nodeAt {il : List ILInstr} {ref : InstrRef} {x : ILInstr}
    (h : nodeAt il ref = some x) : x ∈ il ∧ x.ref = ref := by
  cases ref with
  | sentinel => cases h
  | instr id =>
      refine ⟨List.mem_of_find?_eq_some h, ?_⟩
      have hid := List.find?_some h
      rw [ILInstr.ref, of_decide_eq_true hid]

/-- Control reaches `x` with this depth of the stack. -/
inductive Reaches (sig : Signatures) (il : List ILInstr) (eh : List EHClause) :
    ILInstr → Nat → Prop
  | entry {x : ILInstr} (h : nodeAt il (nextRef il .sentinel) = some x) : Reaches sig il eh x 0
  | handler {x : ILInstr} {c : EHClause} (hc : c ∈ eh) (h : nodeAt il c.handlerBegin = some x) :
      Reaches sig il eh x c.handlerDepth
  | filter {x : ILInstr} {c : EHClause} {ref : InstrRef} (hc : c ∈ eh)
      (hfilter : c.classOrFilter = .filter ref) (h : nodeAt il ref = some x) :
      Reaches sig il eh x 1
  | next {x y : ILInstr} {depth : Nat} (hx : Reaches sig il eh x depth)
      (hfalls : x.fallsThrough = true) (h : nodeAt il (nextRef il x.ref) = some y) :
      Reaches sig il eh y (x.depthAfter sig depth)
  | jump {x y : ILInstr} {ref : InstrRef} {depth : Nat} (hx : Reaches sig il eh x depth)
      (hbranch : x.isBranch = true) (htarget : x.target = some ref)
      (h : nodeAt il ref = some y) : Reaches sig il eh y (x.depthAtTarget sig depth)

/-- The stack holds at most `bound` values, before and after every instruction
that control reaches. -/
def DepthAtMost (sig : Signatures) (il : List ILInstr) (eh : List EHClause) (bound : Nat) :
    Prop :=
  ∀ x depth, Reaches sig il eh x depth → depth ≤ bound ∧ x.depthAfter sig depth ≤ bound

/-- The depth at an instruction does not depend on the way to it, as every
valid body has it. -/
def Consistent (sig : Signatures) (il : List ILInstr) (eh : List EHClause) : Prop :=
  ∀ x depth depth', Reaches sig il eh x depth → Reaches sig il eh x depth' → depth = depth'

section Bound

variable {sig : Signatures} {il : List ILInstr} {eh : List EHClause} {start : Nat}

theorem Reaches.mem {x : ILInstr} {depth : Nat} (h : Reaches sig il eh x depth) : x ∈ il := by
  cases h with
  | entry h => exact (mem_of_nodeAt h).1
  | handler _ h => exact (mem_of_nodeAt h).1
  | filter _ _ h => exact (mem_of_nodeAt h).1
  | next _ _ h => exact (mem_of_nodeAt h).1
  | jump _ _ _ h => exact (mem_of_nodeAt h).1

/-- Every way into the body starts with at most `start` values. -/
structure StartsAtMost (il : List ILInstr) (eh : List EHClause) (start : Nat) : Prop where
  handler : ∀ c ∈ eh, ∀ x, nodeAt il c.handlerBegin = some x → c.handlerDepth ≤ start
  filter : ∀ c ∈ eh, ∀ ref, c.classOrFilter = .filter ref → ∀ x, nodeAt il ref = some x →
    1 ≤ start

/-- Every reached node ends a way without repetition whose pushes bound its depth. -/
theorem Reaches.exists_bounded {potential : ILInstr → Nat}
    (hpotential : ∀ {x depth}, Reaches sig il eh x depth → potential x = depth)
    (hstart : StartsAtMost il eh start) {x : ILInstr} {depth : Nat}
    (h : Reaches sig il eh x depth) :
    ∃ t, (x :: t).Nodup ∧ x :: t ⊆ il ∧ Bounded ILInstr.pushes potential start (x :: t) := by
  have hbegin : ∀ {y : ILInstr} {d : Nat}, Reaches sig il eh y d → d ≤ start →
      ∃ t, (y :: t).Nodup ∧ y :: t ⊆ il ∧ Bounded ILInstr.pushes potential start (y :: t) := by
    intro y d hy hd
    refine ⟨[], by simp, by simpa using hy.mem, ?_⟩
    refine Bounded.cons (fun z t hsuffix => ?_) (by simpa [hpotential hy] using hd)
    simp at hsuffix
  induction h with
  | entry h => exact hbegin (.entry h) (Nat.zero_le _)
  | handler hc h => exact hbegin (.handler hc h) (hstart.handler _ hc _ h)
  | filter hc hfilter h => exact hbegin (.filter hc hfilter h) (hstart.filter _ hc _ hfilter _ h)
  | @next x y depth hx hfalls h ih =>
      obtain ⟨t, hnodup, hmem, hbounded⟩ := ih
      have hy := Reaches.next hx hfalls h
      refine exists_bounded_step hnodup hmem hbounded hy.mem ?_
      rw [hpotential hy, hpotential hx, ILInstr.depthAfter]
      have := x.pushed_le_pushes sig
      omega
  | @jump x y ref depth hx hbranch htarget h ih =>
      obtain ⟨t, hnodup, hmem, hbounded⟩ := ih
      have hy := Reaches.jump hx hbranch htarget h
      refine exists_bounded_step hnodup hmem hbounded hy.mem ?_
      rw [hpotential hy, hpotential hx, ILInstr.depthAtTarget]
      split <;> omega

/-- A valid body never holds more values than it starts with and all of its
instructions push, each counted once. -/
theorem depthAtMost_pushes (hconsistent : Consistent sig il eh)
    (hstart : StartsAtMost il eh start) :
    DepthAtMost sig il eh (start + (il.map ILInstr.pushes).sum) := by
  classical
  intro x depth hx
  let potential : ILInstr → Nat := fun y =>
    if h : ∃ d, Reaches sig il eh y d then h.choose else 0
  have hpotential : ∀ {y d}, Reaches sig il eh y d → potential y = d := by
    intro y d hy
    have hexists : ∃ d, Reaches sig il eh y d := ⟨d, hy⟩
    simp only [potential, dif_pos hexists]
    exact hconsistent y _ _ hexists.choose_spec hy
  obtain ⟨t, hnodup, hmem, hbounded⟩ := hx.exists_bounded hpotential hstart
  have hle := add_weight_le hnodup hmem hbounded
  rw [hpotential hx] at hle
  have := x.pushed_le_pushes sig
  unfold ILInstr.depthAfter
  omega

end Bound

section Closed

variable (sig : Signatures) (il : List ILInstr) (eh : List EHClause)

/-- The nodes at which control starts, with their depths. -/
def starts : List (InstrRef × Nat) :=
  (nextRef il .sentinel, 0) ::
    eh.flatMap fun c =>
      (c.handlerBegin, c.handlerDepth) ::
        match c.classOrFilter with
        | .classToken _ => []
        | .filter ref => [(ref, 1)]

/-- The nodes to which control goes from a node, with their depths. -/
def successors (x : ILInstr) (depth : Nat) : List (InstrRef × Nat) :=
  (if x.fallsThrough then [(nextRef il x.ref, x.depthAfter sig depth)] else []) ++
    if x.isBranch then
      match x.target with
      | some ref => [(ref, x.depthAtTarget sig depth)]
      | none => []
    else []

/-- Control that starts in a table of nodes and depths stays in it. -/
def Closed (table : List (ILInstr × Nat)) : Prop :=
  ∀ entry ∈ starts il eh ++ table.flatMap fun (x, depth) => successors sig il x depth,
    ∀ x ∈ nodeAt il entry.1, (x, entry.2) ∈ table

instance (table : List (ILInstr × Nat)) : Decidable (Closed sig il eh table) :=
  inferInstanceAs (Decidable (∀ entry ∈ _, _))

variable {sig il eh} {table : List (ILInstr × Nat)}

/-- A closed table holds everything that control reaches. -/
theorem Closed.mem (hclosed : Closed sig il eh table) {x : ILInstr} {depth : Nat}
    (h : Reaches sig il eh x depth) : (x, depth) ∈ table := by
  induction h with
  | entry h =>
      exact hclosed (nextRef il .sentinel, 0) (List.mem_append_left _ List.mem_cons_self) _ h
  | @handler x c hc h =>
      refine hclosed (c.handlerBegin, c.handlerDepth) ?_ _ h
      exact List.mem_append_left _ (List.mem_cons_of_mem _
        (List.mem_flatMap.mpr ⟨c, hc, List.mem_cons_self⟩))
  | @filter x c ref hc hfilter h =>
      refine hclosed (ref, 1) ?_ _ h
      exact List.mem_append_left _ (List.mem_cons_of_mem _
        (List.mem_flatMap.mpr ⟨c, hc, by simp [hfilter]⟩))
  | @next x y depth _ hfalls h ih =>
      refine hclosed (nextRef il x.ref, x.depthAfter sig depth) ?_ _ h
      exact List.mem_append_right _ (List.mem_flatMap.mpr ⟨_, ih, by simp [successors, hfalls]⟩)
  | @jump x y ref depth _ hbranch htarget h ih =>
      refine hclosed (ref, x.depthAtTarget sig depth) ?_ _ h
      exact List.mem_append_right _
        (List.mem_flatMap.mpr ⟨_, ih, by simp [successors, hbranch, htarget]⟩)

theorem Closed.depthAtMost (hclosed : Closed sig il eh table) {bound : Nat}
    (hbound : ∀ entry ∈ table, entry.2 ≤ bound ∧ entry.1.depthAfter sig entry.2 ≤ bound) :
    DepthAtMost sig il eh bound :=
  fun _ _ h => hbound _ (hclosed.mem h)

theorem Closed.consistent (hclosed : Closed sig il eh table)
    (hunique : ∀ a ∈ table, ∀ b ∈ table, a.1 = b.1 → a.2 = b.2) : Consistent sig il eh :=
  fun _ _ _ h h' => hunique _ (hclosed.mem h) _ (hclosed.mem h') rfl

end Closed

end SignalFxTracing.Il
