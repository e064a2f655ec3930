import Mathlib.Data.List.Chain
import SignalFxTracing.Il.Instr

/-!
# Prefixes of instructions

A prefix has to stand in front of an instruction that it allows, with nothing
but other prefixes in between. When some instructions of a body are expanded to
sequences that begin with a NOP, that is kept exactly if none of them follows a
prefix.
-/

namespace SignalFxTracing.Il

section Names

def CEE_CALLI : Nat := 0x29

def CEE_LDIND_I1 : Nat := 0x46

def CEE_STIND_R8 : Nat := 0x57

def CEE_LDOBJ : Nat := 0x71

def CEE_LDFLD : Nat := 0x7B

def CEE_STFLD : Nat := 0x7D

def CEE_LDSFLD : Nat := 0x7E

def CEE_STSFLD : Nat := 0x80

def CEE_STOBJ : Nat := 0x81

def CEE_LDELEMA : Nat := 0x8F

def CEE_STIND_I : Nat := 0xDF

def CEE_CPBLK : Nat := 0x117

def CEE_INITBLK : Nat := 0x118

end Names

namespace ILInstr

/-- The instruction is a prefix. -/
def prefixes (x : ILInstr) : Bool :=
  [CEE_UNALIGNED, CEE_VOLATILE, CEE_TAILCALL, CEE_CONSTRAINED, CEE_READONLY].contains x.opcode

/-- Access through an address. -/
def accessesAddress (x : ILInstr) : Bool :=
  CEE_LDIND_I1 ≤ x.opcode && x.opcode ≤ CEE_STIND_R8 ||
    [CEE_STIND_I, CEE_LDOBJ, CEE_STOBJ, CEE_LDFLD, CEE_STFLD, CEE_CPBLK, CEE_INITBLK].contains
      x.opcode

/-- The instructions that a prefix may be applied to. -/
def prefixAllows (x y : ILInstr) : Bool :=
  if x.opcode = CEE_UNALIGNED then y.accessesAddress
  else if x.opcode = CEE_VOLATILE then
    y.accessesAddress || [CEE_LDSFLD, CEE_STSFLD].contains y.opcode
  else if x.opcode = CEE_TAILCALL then
    [CEE_CALL, CEE_CALLI, CEE_CALLVIRT].contains y.opcode
  else if x.opcode = CEE_CONSTRAINED then [CEE_CALLVIRT].contains y.opcode
  else [CEE_LDELEMA, CEE_CALL].contains y.opcode

/-- No prefix may be applied to a NOP. -/
theorem prefixAllows_nop {x y : ILInstr} (h : y.opcode = CEE_NOP) : x.prefixAllows y = false := by
  have haccess : y.accessesAddress = false := by
    rw [accessesAddress, h]
    decide
  rw [prefixAllows, haccess, h]
  split_ifs <;> decide

end ILInstr

/-- The instruction that prefixes at the front are applied to. -/
def prefixed (il : List ILInstr) : Option ILInstr := (il.dropWhile ILInstr.prefixes).head?

/-- Every prefix stands in front of an instruction that it allows. -/
def PrefixesLegal : List ILInstr → Prop
  | [] => True
  | x :: rest =>
      (x.prefixes = true → ∃ y ∈ prefixed rest, x.prefixAllows y = true) ∧ PrefixesLegal rest

section Expansion

/-- The instruction stands as it was, or is no prefix and expanded to a sequence without prefixes
that begins with a NOP. -/
def KeptOrExpanded (place : ILInstr → List ILInstr) (x : ILInstr) : Prop :=
  place x = [x] ∨ x.prefixes = false ∧ (∀ z ∈ place x, z.prefixes = false) ∧
    ∃ nop ∈ (place x).head?, nop.opcode = CEE_NOP

variable {place : ILInstr → List ILInstr} {il : List ILInstr} {x : ILInstr}

theorem prefixesLegal_append {piece : List ILInstr} (h : ∀ z ∈ piece, z.prefixes = false) :
    PrefixesLegal (piece ++ il) ↔ PrefixesLegal il := by
  induction piece with
  | nil => exact Iff.rfl
  | cons z piece ih =>
      obtain ⟨hz, hpiece⟩ := List.forall_mem_cons.mp h
      rw [List.cons_append, PrefixesLegal, ih hpiece, hz]
      simp

/-- What prefixes are applied to stays where nothing behind them is expanded. -/
theorem prefixed_flatMap (hhead : ∀ y ∈ il.head?, place y = [y])
    (hchain : il.IsChain fun y x => y.prefixes = true → place x = [x]) :
    prefixed (il.flatMap place) = prefixed il := by
  induction il with
  | nil => rfl
  | cons x rest ih =>
      obtain ⟨hnext, hrest⟩ := List.isChain_cons.mp hchain
      rw [List.flatMap_cons, hhead x rfl, List.singleton_append, prefixed, prefixed,
        List.dropWhile_cons, List.dropWhile_cons]
      by_cases hx : x.prefixes = true
      · rw [if_pos hx, if_pos hx]
        exact ih (fun y hy => hnext y hy hx) hrest
      · rw [if_neg hx, if_neg hx, List.head?_cons, List.head?_cons]

/-- The prefixes are legal behind the expansion exactly if none stands in front of an instruction
that is expanded. -/
theorem prefixesLegal_flatMap_iff (hlegal : PrefixesLegal il)
    (hplace : ∀ x ∈ il, KeptOrExpanded place x) :
    PrefixesLegal (il.flatMap place) ↔
      il.IsChain fun y x => y.prefixes = true → place x = [x] := by
  induction il with
  | nil => exact iff_of_true trivial .nil
  | cons x rest ih =>
      obtain ⟨hallowed, hlegal⟩ := hlegal
      obtain ⟨hx, hrest⟩ := List.forall_mem_cons.mp hplace
      have ih := ih hlegal hrest
      rw [List.flatMap_cons, List.isChain_cons]
      by_cases hprefixes : x.prefixes = true
      · have hkept : place x = [x] := by
          obtain hkept | ⟨hnot, -⟩ := hx
          · exact hkept
          · rw [hprefixes] at hnot
            cases hnot
        rw [hkept, List.singleton_append, PrefixesLegal, ih]
        constructor
        · rintro ⟨hallowed', hchain⟩
          refine ⟨fun y hy _ => ?_, hchain⟩
          obtain ⟨z, hz, hallows⟩ := hallowed' hprefixes
          obtain ⟨rest, rfl⟩ := List.head?_eq_some_iff.mp hy
          obtain hkept | ⟨-, hpiece, nop, hnop, hopcode⟩ := hrest y List.mem_cons_self
          · exact hkept
          · -- the prefix would be applied to the NOP
            obtain ⟨piece, heq⟩ := List.head?_eq_some_iff.mp hnop
            rw [prefixed, List.flatMap_cons, heq, List.cons_append, List.dropWhile_cons,
              if_neg (Bool.eq_false_iff.mp (hpiece nop (heq ▸ List.mem_cons_self))),
              List.head?_cons] at hz
            obtain rfl := Option.some.inj hz
            rw [ILInstr.prefixAllows_nop hopcode] at hallows
            cases hallows
        · rintro ⟨hnext, hchain⟩
          refine ⟨fun _ => ?_, hchain⟩
          rw [prefixed_flatMap (fun y hy => hnext y hy hprefixes) hchain]
          exact hallowed hprefixes
      · have hpiece : ∀ z ∈ place x, z.prefixes = false := by
          obtain hkept | ⟨-, hpiece, -⟩ := hx
          · rw [hkept]
            simpa using hprefixes
          · exact hpiece
        rw [prefixesLegal_append hpiece, ih]
        exact ⟨fun hchain => ⟨fun y _ h => absurd h hprefixes, hchain⟩, And.right⟩

end Expansion

end SignalFxTracing.Il
