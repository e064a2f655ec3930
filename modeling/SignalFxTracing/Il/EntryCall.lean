import Mathlib.Data.List.Chain
import SignalFxTracing.Il.ControlFlow
import SignalFxTracing.Il.Import
import SignalFxTracing.Il.RewriterWrapper

/-!
# A call at the entry of a body

A call that is linked before the first imported node is executed first and
only once, since nothing in the body refers to it; behind it, the body is
executed as before.
-/

namespace SignalFxTracing.Il

open Lib.MapOption

/-- Nothing in the body refers to the node. -/
structure Unreferenced (what : ILInstr) (il : List ILInstr) (eh : List EHClause) : Prop where
  ids : ∀ x ∈ il, x.ref ≠ what.ref
  targets : ∀ x ∈ il, ∀ ref, x.target = some ref → ref ≠ what.ref
  tryBegin : ∀ c ∈ eh, c.tryBegin ≠ what.ref
  tryEnd : ∀ c ∈ eh, c.tryEnd ≠ what.ref
  enters : ∀ c ∈ eh, ∀ ref, c.Enters ref → ref ≠ what.ref

section Entry

variable {what : ILInstr} {il : List ILInstr} {eh : List EHClause}

theorem nextRef_eq (il : List ILInstr) (ref : InstrRef) :
    nextRef il ref = .sentinel ∨ ∃ x ∈ il, nextRef il ref = x.ref := by
  have hhead : ∀ l : List ILInstr, l ⊆ il →
      (l.head?.map ILInstr.ref).getD .sentinel = .sentinel ∨
        ∃ x ∈ il, (l.head?.map ILInstr.ref).getD .sentinel = x.ref := by
    intro l hl
    cases l with
    | nil => exact Or.inl rfl
    | cons x rest => exact Or.inr ⟨x, hl List.mem_cons_self, rfl⟩
  cases ref with
  | sentinel => exact hhead il (List.Subset.refl il)
  | instr id =>
      apply hhead
      exact ((List.drop_sublist 1 _).trans (List.dropWhile_sublist _)).subset

theorem Unreferenced.nextRef_ne (h : Unreferenced what il eh) (ref : InstrRef) :
    nextRef il ref ≠ what.ref := by
  obtain hsentinel | ⟨x, hx, hnext⟩ := nextRef_eq il ref
  · rw [hsentinel]
    simp [ILInstr.ref]
  · rw [hnext]
    exact h.ids x hx

theorem Follows.mem {x y : ILInstr} (h : Follows il eh x y) : y ∈ il := by
  cases h with
  | next _ h => exact (mem_of_nodeAt h).1
  | jump _ _ h => exact (mem_of_nodeAt h).1
  | raise _ _ _ h => exact (mem_of_nodeAt h).1
  | resume _ _ _ _ h => exact (mem_of_nodeAt h).1

theorem Unreferenced.covers_iff (h : Unreferenced what il eh) {x : ILInstr} (hx : x ∈ il)
    {c : EHClause} (hc : c ∈ eh) : c.Covers (what :: il) x ↔ c.Covers il x := by
  rw [EHClause.Covers, EHClause.Covers, position_cons_of_ne (h.ids x hx),
    position_cons_of_ne (h.tryBegin c hc), position_cons_of_ne (h.tryEnd c hc)]
  omega

/-- A node that no clause begins with, in front of all others, is not protected. -/
theorem Unreferenced.not_covers (h : Unreferenced what il eh) {c : EHClause} (hc : c ∈ eh) :
    ¬ c.Covers (what :: il) what := by
  rintro ⟨hbegin, -⟩
  rw [position_cons_self, position_cons_of_ne (h.tryBegin c hc)] at hbegin
  omega

variable (hcall : what.opcode = CEE_CALL)
include hcall

theorem call_isLeave : what.isLeave = false := by
  rw [ILInstr.isLeave, hcall]
  rfl

theorem call_endsHandler : what.endsHandler = false := by
  rw [ILInstr.endsHandler, hcall]
  rfl

theorem call_isBranch : what.isBranch = false := by
  rw [ILInstr.isBranch, hcall]
  rfl

theorem call_fallsThrough : what.fallsThrough = true := by
  rw [ILInstr.fallsThrough, hcall]
  rfl

/-- Behind the call, control goes as it went without it. -/
theorem Unreferenced.follows_iff (h : Unreferenced what il eh) {x y : ILInstr} (hx : x ∈ il) :
    Follows (what :: il) eh x y ↔ Follows il eh x y := by
  have hnext : nodeAt (what :: il) (nextRef (what :: il) x.ref) = nodeAt il (nextRef il x.ref) := by
    rw [nextRef_cons_of_ne (h.ids x hx), nodeAt_cons_of_ne (h.nextRef_ne x.ref)]
  constructor
  · intro hfollows
    cases hfollows with
    | next hfalls hy => exact .next hfalls (hnext ▸ hy)
    | jump hbranch htarget hy =>
        rw [nodeAt_cons_of_ne (h.targets x hx _ htarget)] at hy
        exact .jump hbranch htarget hy
    | raise hc hcovers henters hy =>
        rw [h.covers_iff hx hc] at hcovers
        rw [nodeAt_cons_of_ne (h.enters _ hc _ henters)] at hy
        exact .raise hc hcovers henters hy
    | resume hends hz hleave htarget hy =>
        obtain rfl | hz := List.mem_cons.mp hz
        · rw [call_isLeave hcall] at hleave
          cases hleave
        · rw [nodeAt_cons_of_ne (h.targets _ hz _ htarget)] at hy
          exact .resume hends hz hleave htarget hy
  · intro hfollows
    cases hfollows with
    | next hfalls hy => exact .next hfalls (hnext.symm ▸ hy)
    | jump hbranch htarget hy =>
        rw [← nodeAt_cons_of_ne (h.targets x hx _ htarget)] at hy
        exact .jump hbranch htarget hy
    | raise hc hcovers henters hy =>
        rw [← h.covers_iff hx hc] at hcovers
        rw [← nodeAt_cons_of_ne (h.enters _ hc _ henters)] at hy
        exact .raise hc hcovers henters hy
    | resume hends hz hleave htarget hy =>
        rw [← nodeAt_cons_of_ne (h.targets _ hz _ htarget)] at hy
        exact .resume hends (List.mem_cons_of_mem _ hz) hleave htarget hy

/-- From the call, control goes to the first node of the body and nowhere else. -/
theorem Unreferenced.follows_call_iff (h : Unreferenced what il eh) {y : ILInstr} :
    Follows (what :: il) eh what y ↔ nodeAt il (nextRef il .sentinel) = some y := by
  have hnext : nodeAt (what :: il) (nextRef (what :: il) what.ref) =
      nodeAt il (nextRef il .sentinel) := by
    rw [nextRef_cons_self, nodeAt_cons_of_ne (h.nextRef_ne .sentinel)]
  rw [← hnext]
  constructor
  · intro hfollows
    cases hfollows with
    | next _ hy => exact hy
    | jump hbranch _ _ =>
        rw [call_isBranch hcall] at hbranch
        cases hbranch
    | raise hc hcovers _ _ =>
        obtain hcovers | hends := hcovers
        · exact absurd hcovers (h.not_covers hc)
        · rw [call_endsHandler hcall] at hends
          cases hends
    | resume hends _ _ _ _ =>
        rw [call_endsHandler hcall] at hends
        cases hends
  · exact .next (call_fallsThrough hcall)

theorem Unreferenced.isChain_iff (h : Unreferenced what il eh) {path : List ILInstr}
    (hhead : ∀ x ∈ path.head?, x ∈ il) :
    path.IsChain (Follows (what :: il) eh) ↔ path.IsChain (Follows il eh) := by
  induction path with
  | nil => simp
  | cons x rest ih =>
      have hx := hhead x rfl
      cases rest with
      | nil => simp
      | cons y rest =>
          rw [List.isChain_cons_cons, List.isChain_cons_cons, h.follows_iff hcall hx]
          apply and_congr_right
          intro hfollows
          apply ih
          rintro z ⟨rfl⟩
          exact hfollows.mem

/-- Executions of the body with the call are the call, once, and an execution of the body. -/
theorem Unreferenced.isExecution_iff (h : Unreferenced what il eh) {path : List ILInstr} :
    IsExecution (what :: il) eh path ↔
      path = [] ∨ ∃ rest, path = what :: rest ∧ IsExecution il eh rest := by
  have hentry : nodeAt (what :: il) (nextRef (what :: il) .sentinel) = some what :=
    nodeAt_cons_self
  cases path with
  | nil => exact iff_of_true ⟨by simp, by simp⟩ (Or.inl rfl)
  | cons x rest =>
      constructor
      · rintro ⟨hfirst, hchain⟩
        obtain rfl := Option.some.inj (hentry.symm.trans (hfirst x rfl))
        obtain ⟨hbehind, hrest⟩ := List.isChain_cons.mp hchain
        have hstart : ∀ y ∈ rest.head?, nodeAt il (nextRef il .sentinel) = some y := by
          intro y hy
          exact (h.follows_call_iff hcall).mp (hbehind y hy)
        refine Or.inr ⟨rest, rfl, hstart, ?_⟩
        exact (h.isChain_iff hcall fun y hy => (mem_of_nodeAt (hstart y hy)).1).mp hrest
      · rintro (hnil | ⟨rest, hpath, hstart, hchain⟩)
        · cases hnil
        · obtain ⟨rfl, rfl⟩ := List.cons_eq_cons.mp hpath
          refine ⟨?_, List.isChain_cons.mpr ⟨?_, ?_⟩⟩
          · rintro y ⟨rfl⟩
            exact hentry
          · intro y hy
            exact (h.follows_call_iff hcall).mpr (hstart y hy)
          · exact (h.isChain_iff hcall fun y hy => (mem_of_nodeAt (hstart y hy)).1).mpr hchain

end Entry

section Imported

variable {m : IlMethod} {r : ILRewriter} {what : ILInstr}

theorem ids_nodesOf (id : Nat) (i : Instruction) :
    (nodesOf id i).map ILInstr.id = List.range' id (nodesOf id i).length := by
  rw [nodesOf]
  cases i.operand with
  | value v => rfl
  | target offset => rfl
  | targets offsets =>
      rw [List.map_cons, List.length_cons, List.range'_succ]
      congr 1
      apply List.ext_getElem
      · simp
      · intro k hk hk'
        simp

/-- The nodes are numbered in their order. -/
theorem ids_linkNodes (id : Nat) (instructions : List (Nat × Instruction)) :
    ((linkNodes id instructions).flatMap Prod.snd).map ILInstr.id =
      List.range' id ((linkNodes id instructions).flatMap Prod.snd).length := by
  induction instructions generalizing id with
  | nil => rfl
  | cons entry rest ih =>
      obtain ⟨offset, i⟩ := entry
      rw [linkNodes, List.flatMap_cons, List.map_append, List.length_append, ids_nodesOf, ih,
        ← List.range'_append_1]

theorem nodesOf_target {id : Nat} {i : Instruction} {x : ILInstr} (hx : x ∈ nodesOf id i) :
    x.target = none := by
  rw [nodesOf] at hx
  cases hoperand : i.operand with
  | value v =>
      rw [hoperand] at hx
      obtain rfl := List.mem_singleton.mp hx
      rfl
  | target offset =>
      rw [hoperand] at hx
      obtain rfl := List.mem_singleton.mp hx
      rfl
  | targets offsets =>
      rw [hoperand] at hx
      obtain rfl | hentry := List.mem_cons.mp hx
      · rfl
      · obtain ⟨k, -, rfl⟩ := List.mem_mapIdx.mp hentry
        rfl

theorem linkNodes_target {id : Nat} {instructions : List (Nat × Instruction)} {x : ILInstr}
    (hx : x ∈ (linkNodes id instructions).flatMap Prod.snd) : x.target = none := by
  induction instructions generalizing id with
  | nil => cases hx
  | cons entry rest ih =>
      obtain ⟨offset, i⟩ := entry
      rw [linkNodes, List.flatMap_cons] at hx
      obtain hfirst | hrest := List.mem_append.mp hx
      · exact nodesOf_target hfirst
      · exact ih hrest

theorem id_lt_of_importMethod (h : importMethod m = some r) {x : ILInstr} (hx : x ∈ r.il) :
    x.id < r.nInstrs := by
  obtain ⟨il, table, eh, hil, -, rfl⟩ := importMethod_eq_some_iff.mp h
  obtain ⟨instructions, -, -, hnodes⟩ := importIL_eq_some_iff.mp hil
  have hids := map_of_mapM hnodes fun _ _ hxy => (resolveTarget_keeps hxy).1
  have hmem : x.id ∈ il.map ILInstr.id := List.mem_map_of_mem hx
  rw [hids, ids_linkNodes, ← List.length_map ILInstr.id, ← hids, List.mem_range'_1] at hmem
  simpa using hmem.2

/-- A branch goes to the end of the code or to an imported node. -/
theorem target_of_importMethod (h : importMethod m = some r) {x : ILInstr} (hx : x ∈ r.il)
    {ref : InstrRef} (htarget : x.target = some ref) :
    ref = .sentinel ∨ ∃ y ∈ r.il, ref = y.ref := by
  obtain ⟨il, table, eh, hil, -, rfl⟩ := importMethod_eq_some_iff.mp h
  obtain ⟨instructions, -, -, hnodes⟩ := importIL_eq_some_iff.mp hil
  obtain ⟨linked, hlinked, hresolve⟩ := exists_of_mem_mapM hnodes hx
  rw [resolveTarget] at hresolve
  split_ifs at hresolve
  · obtain ⟨found, hget, rfl⟩ := Option.map_eq_some_iff.mp hresolve
    obtain rfl := Option.some.inj htarget
    exact get_of_importIL hil hget
  · obtain rfl := Option.some.inj hresolve
    rw [linkNodes_target hlinked] at htarget
    cases htarget

/-- A protected region begins and ends at imported nodes, or at the end of the code. -/
theorem try_of_importMethod (h : importMethod m = some r) {c : EHClause} (hc : c ∈ r.eh)
    {ref : InstrRef} (href : ref = c.tryBegin ∨ ref = c.tryEnd) :
    ref = .sentinel ∨ ∃ x ∈ r.il, ref = x.ref := by
  obtain ⟨il, table, eh, hil, heh, rfl⟩ := importMethod_eq_some_iff.mp h
  obtain ⟨c', -, hclause⟩ := exists_of_mem_mapM heh hc
  simp only [importClause, bind, Option.bind_eq_some_iff, pure, Option.some.injEq] at hclause
  obtain ⟨tryBegin, hbegin, tryEnd, hend, _, _, _, _, _, _, rfl⟩ := hclause
  obtain rfl | rfl := href
  · exact get_of_importIL hil hbegin
  · exact get_of_importIL hil hend

/-- A node with the next number is referred to by nothing that has been imported. -/
theorem unreferenced_of_importMethod (h : importMethod m = some r) (hid : what.id = r.nInstrs) :
    Unreferenced what r.il r.eh := by
  have hnode : ∀ x ∈ r.il, x.ref ≠ what.ref := by
    intro x hx href
    have hlt := id_lt_of_importMethod h hx
    have heq : x.id = what.id := InstrRef.instr.inj href
    omega
  have himported : ∀ ref, (ref = .sentinel ∨ ∃ x ∈ r.il, ref = x.ref) → ref ≠ what.ref := by
    rintro ref (rfl | ⟨x, hx, rfl⟩)
    · simp [ILInstr.ref]
    · exact hnode x hx
  constructor
  · exact hnode
  · intro x hx ref htarget
    exact himported ref (target_of_importMethod h hx htarget)
  · intro c hc
    exact himported _ (try_of_importMethod h hc (Or.inl rfl))
  · intro c hc
    exact himported _ (try_of_importMethod h hc (Or.inr rfl))
  · intro c hc ref henters
    exact himported ref (starts_of_importMethod h hc henters)

theorem linkBefore_first (il : List ILInstr) (x what : ILInstr) :
    linkBefore x.id what (x :: il) = what :: x :: il := if_pos rfl

theorem insertBefore_first (r : ILRewriter) (what : ILInstr) :
    (r.insertBefore (nextRef r.il .sentinel) what).il = what :: r.il := by
  cases hil : r.il with
  | nil => simp [ILRewriter.insertBefore, ILRewriter.adjustState, nextRef, hil]
  | cons x rest =>
      simp only [ILRewriter.insertBefore, ILRewriter.adjustState, hil]
      exact linkBefore_first rest x what

end Imported

end SignalFxTracing.Il
