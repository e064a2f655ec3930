import SignalFxTracing.Il.Layout
import Mathlib.Data.List.Forall2

/-!
# Resolving the targets of encoded instructions

Over a list that has been placed, a turn of the loop writes a displacement into
the bytes of its own instruction, or turns a short branch into its long form.
-/

namespace SignalFxTracing.Il

open Lib Lib.LittleEndian

section LongForms

/-- The same branch with a target of four bytes, by the lines of `opcode.def`. -/
def isLongForm (short long : Nat) : Bool :=
  match opdefs[short]?, opdefs[long]? with
  | some short, some long =>
      short.name == long.name ++ ".s" && short.args == .shortInlineBrTarget &&
        long.args == .inlineBrTarget && short.pop == long.pop && short.push == long.push &&
        short.flow == long.flow
  | _, _ => false

theorem lt_of_branchTarget {opcode size : Nat} (h : opCodeFlags opcode = .branchTarget size)
    (hne : opcode ≠ CEE_SWITCH_ARG) : opcode < CEE_COUNT := by
  rcases ILInstr.opcode_cases opcode with hlt | harg | hflags
  · exact hlt
  · exact absurd harg hne
  · rw [hflags] at h
    cases h

theorem isLongForm_longForm {opcode : Nat} (h : opCodeFlags opcode = .branchTarget 1) :
    isLongForm opcode (longForm opcode) = true := by
  have hne : opcode ≠ CEE_SWITCH_ARG := by
    rintro rfl
    cases h
  have hall : ∀ opcode < CEE_COUNT, opCodeFlags opcode = .branchTarget 1 →
      isLongForm opcode (longForm opcode) = true := by decide +kernel
  exact hall opcode (lt_of_branchTarget h hne) h

theorem opCodeFlags_longForm {opcode : Nat} (h : opCodeFlags opcode = .branchTarget 1) :
    opCodeFlags (longForm opcode) = .branchTarget 4 := by
  have hne : opcode ≠ CEE_SWITCH_ARG := by
    rintro rfl
    cases h
  have hall : ∀ opcode < CEE_COUNT, opCodeFlags opcode = .branchTarget 1 →
      opCodeFlags (longForm opcode) = .branchTarget 4 := by decide +kernel
  exact hall opcode (lt_of_branchTarget h hne) h

end LongForms

namespace ILInstr

variable (offsetOf : InstrRef → UInt32) (switchBase : UInt32) (x : ILInstr) (next : InstrRef)

/-- A branch with a target of one byte. -/
def isShort : Bool := opCodeFlags x.opcode == .branchTarget 1

/-- The branch in its long form. -/
def widen : ILInstr := { x with opcode := longForm x.opcode }

/-- The displacement of a short branch is that of the long one. -/
def Fits : Prop :=
  x.isShort = true → ∀ target, x.target = some target →
    signed 1 (offsetOf target - offsetOf next).toNat =
      signed 4 (offsetOf target - offsetOf next).toNat

/-- From the end of the instruction to the target, or from the end of the whole switch. -/
def displacement : UInt32 :=
  (x.target.map fun target =>
    offsetOf target - if x.opcode = CEE_SWITCH_ARG then switchBase else offsetOf next).getD 0

def branchBytes : List UInt8 :=
  match opCodeFlags x.opcode with
  | .branchTarget size => toLE size (x.displacement offsetOf switchBase next).toNat
  | _ => []

/-- The bytes of the instruction at its place. -/
def encodedBytes : List UInt8 := x.fixedBytes ++ x.branchBytes offsetOf switchBase next

/-- The end of the last switch behind the instruction. -/
def switchBaseAfter : UInt32 :=
  if x.opcode = CEE_SWITCH then offsetOf x.ref + 1 + 4 * (UInt32.ofNat x.arg + 1) else switchBase

theorem length_encodedBytes : (x.encodedBytes offsetOf switchBase next).length = x.size := by
  rw [encodedBytes, fixedBytes, branchBytes, size, operandSize, List.length_append,
    List.length_append]
  cases opCodeFlags x.opcode <;> simp

theorem branchBytes_of_not_isBranch {x : ILInstr} (h : x.isBranch = false) :
    x.branchBytes offsetOf switchBase next = [] := by
  rw [isBranch] at h
  rw [branchBytes]
  cases hflags : opCodeFlags x.opcode with
  | branchTarget size => simp [hflags] at h
  | operand size => rfl
  | switch => rfl

theorem opCodeFlags_of_isShort {x : ILInstr} (h : x.isShort = true) :
    opCodeFlags x.opcode = .branchTarget 1 := eq_of_beq h

theorem isBranch_of_isShort {x : ILInstr} (h : x.isShort = true) : x.isBranch = true := by
  rw [isBranch, opCodeFlags_of_isShort h]

theorem widen_isShort {x : ILInstr} (h : x.isShort = true) : x.widen.isShort = false := by
  rw [isShort, widen, opCodeFlags_longForm (opCodeFlags_of_isShort h)]
  rfl

end ILInstr

namespace Resolution

variable {offsetOf : InstrRef → UInt32} {s : Resolution} {x : ILInstr} {next : InstrRef}
  {base : Nat}

theorem toNat_sub_size {size : Nat} (hflags : opCodeFlags x.opcode = .branchTarget size)
    (hnext : (offsetOf next).toNat = base + x.size) :
    (offsetOf next - UInt32.ofNat size).toNat = base + x.fixedBytes.length := by
  have hsize : x.size = x.fixedBytes.length + size := by
    rw [ILInstr.size, ILInstr.operandSize, ILInstr.fixedBytes, hflags, List.append_nil]
  have hle := x.size_le
  have hlt := (offsetOf next).toNat_lt
  have hofNat : (UInt32.ofNat size).toNat = size := by
    rw [UInt32.toNat_ofNat']
    omega
  rw [UInt32.toNat_sub_of_le _ _ (UInt32.le_iff_toNat_le.mpr (by omega)), hofNat]
  omega

/-- A displacement that fits is written behind the opcode. -/
theorem resolve_of_fits (hplace : (offsetOf x.ref).toNat = base)
    (hnext : (offsetOf next).toNat = base + x.size)
    (htarget : x.isBranch = true → x.target.isSome = true) (hfits : x.Fits offsetOf next) :
    s.resolve offsetOf x next =
      some (x, {
        switchBase := x.switchBaseAfter offsetOf s.switchBase
        out := s.out.write (base + x.fixedBytes.length) (x.branchBytes offsetOf s.switchBase next)
        fTryAgain := s.fTryAgain }) := by
  rw [resolve, ILInstr.switchBaseAfter]
  by_cases hswitch : x.opcode = CEE_SWITCH
  · have hbranch : x.isBranch = false := by
      rw [ILInstr.isBranch, hswitch]
      rfl
    rw [if_pos hswitch, if_pos hswitch, ILInstr.branchBytes_of_not_isBranch _ _ _ hbranch,
      Buffer.write_nil]
  · rw [if_neg hswitch, if_neg hswitch]
    cases hflags : opCodeFlags x.opcode with
    | branchTarget size =>
        have hbranch : x.isBranch = true := by rw [ILInstr.isBranch, hflags]
        obtain ⟨target, htarget⟩ := Option.isSome_iff_exists.mp (htarget hbranch)
        by_cases harg : x.opcode = CEE_SWITCH_ARG
        · have hsize : size = 4 := by
            rw [harg] at hflags
            exact (OpCodeFlags.branchTarget.inj hflags).symm
          have hfixed : x.fixedBytes = [] := by
            rw [ILInstr.fixedBytes, hflags, ILInstr.encodedOpcode, harg]
            rfl
          rw [if_pos harg, htarget, ILInstr.branchBytes, hflags, ILInstr.displacement, htarget,
            if_pos harg, hfixed, hplace, hsize]
          rfl
        · have hdelta : ¬(size = 1 ∧ signed 1 (offsetOf target - offsetOf next).toNat ≠
              signed 4 (offsetOf target - offsetOf next).toNat) := by
            rintro ⟨rfl, hne⟩
            exact hne (hfits (by rw [ILInstr.isShort, hflags]; rfl) target htarget)
          rw [if_neg harg, htarget, ILInstr.branchBytes, hflags, ILInstr.displacement, htarget]
          dsimp only [Option.map_some, Option.getD_some]
          rw [resolveBranch, if_neg hdelta, if_neg harg, toNat_sub_size hflags hnext]
    | operand size =>
        have harg : x.opcode ≠ CEE_SWITCH_ARG := by
          intro harg
          rw [harg] at hflags
          cases hflags
        rw [if_neg harg, ILInstr.branchBytes, hflags, Buffer.write_nil]
    | switch =>
        have harg : x.opcode ≠ CEE_SWITCH_ARG := by
          intro harg
          rw [harg] at hflags
          cases hflags
        rw [if_neg harg, ILInstr.branchBytes, hflags, Buffer.write_nil]

/-- A short branch that does not reach its target becomes long. -/
theorem resolve_of_not_fits (hfits : ¬ x.Fits offsetOf next) :
    x.isShort = true ∧
      s.resolve offsetOf x next = some (x.widen, { s with fTryAgain := true }) := by
  simp only [ILInstr.Fits, Classical.not_imp, not_forall] at hfits
  obtain ⟨hshort, target, htarget, hne⟩ := hfits
  have hflags := ILInstr.opCodeFlags_of_isShort hshort
  have hswitch : x.opcode ≠ CEE_SWITCH := by
    intro h
    rw [h] at hflags
    cases hflags
  have harg : x.opcode ≠ CEE_SWITCH_ARG := by
    intro h
    rw [h] at hflags
    cases hflags
  refine ⟨hshort, ?_⟩
  rw [resolve, if_neg hswitch, if_neg harg, hflags, htarget]
  dsimp only [Option.map_some]
  rw [resolveBranch, if_pos ⟨rfl, hne⟩]
  rfl

end Resolution

section Lists

variable (offsetOf : InstrRef → UInt32)

/-- Each short branch reaches its target. -/
def AllFit : List ILInstr → Prop
  | [] => True
  | x :: rest => x.Fits offsetOf (firstRef rest) ∧ AllFit rest

/-- The bytes of a list, from the end of the last switch before it. -/
def codeBytes : UInt32 → List ILInstr → List UInt8
  | _, [] => []
  | switchBase, x :: rest =>
      x.encodedBytes offsetOf switchBase (firstRef rest) ++
        codeBytes (x.switchBaseAfter offsetOf switchBase) rest

def shortBranches (il : List ILInstr) : Nat := il.countP ILInstr.isShort

/-- Some short branches have become long, and nothing else has changed. -/
def Widened (il il' : List ILInstr) : Prop :=
  List.Forall₂ (fun x y => y = x ∨ x.isShort = true ∧ y = x.widen) il il'

variable {offsetOf}

theorem Widened.refl (il : List ILInstr) : Widened il il :=
  List.forall₂_same.mpr fun _ _ => .inl rfl

theorem Widened.shortBranches_le {il il' : List ILInstr} (h : Widened il il') :
    shortBranches il' ≤ shortBranches il := by
  induction h with
  | nil => exact le_rfl
  | @cons x y rest rest' hxy _ ih =>
      rw [shortBranches, shortBranches, List.countP_cons, List.countP_cons]
      rw [shortBranches, shortBranches] at ih
      rcases hxy with rfl | ⟨hshort, rfl⟩
      · omega
      · rw [ILInstr.widen_isShort hshort, hshort]
        simp only [Bool.false_eq_true, if_false, if_true]
        omega

/-- What a run of the second loop over a placed list does. -/
structure Resolves (offsetOf : InstrRef → UInt32) (base : Nat) (s : Resolution)
    (il il' : List ILInstr) (s' : Resolution) : Prop where
  widened : Widened il il'
  fits : AllFit offsetOf il → il' = il ∧ s'.fTryAgain = s.fTryAgain
  again : ¬AllFit offsetOf il →
    s'.fTryAgain = true ∧ shortBranches il' < shortBranches il
  keeps : s.fTryAgain = true → s'.fTryAgain = true
  written : ∀ bound, s.out.written ≤ bound → base + totalSize il ≤ bound →
    s'.out.written ≤ bound
  frame : ∀ start n, start + n ≤ base ∨ base + totalSize il ≤ start →
    s'.out.slice start n = s.out.slice start n
  holds : AllFit offsetOf il → HoldsFixed s.out base il →
    s'.out.slice base (totalSize il) = codeBytes offsetOf s.switchBase il

theorem length_branchBytes_le (x : ILInstr) (switchBase : UInt32) (next : InstrRef) :
    x.fixedBytes.length + (x.branchBytes offsetOf switchBase next).length = x.size := by
  rw [← x.length_encodedBytes offsetOf switchBase next, ILInstr.encodedBytes, List.length_append]

/-- One more instruction in front, whose displacement fits. -/
theorem Resolves.cons_of_fits {base : Nat} {s s' : Resolution} {x : ILInstr}
    {rest rest' : List ILInstr} (hfits : x.Fits offsetOf (firstRef rest))
    (h : Resolves offsetOf (base + x.size)
      { switchBase := x.switchBaseAfter offsetOf s.switchBase
        out := s.out.write (base + x.fixedBytes.length)
          (x.branchBytes offsetOf s.switchBase (firstRef rest))
        fTryAgain := s.fTryAgain } rest rest' s') :
    Resolves offsetOf base s (x :: rest) (x :: rest') s' := by
  have hlength := @length_branchBytes_le offsetOf x s.switchBase (firstRef rest)
  constructor
  case widened => exact .cons (.inl rfl) h.widened
  case fits =>
    intro hall
    obtain ⟨rfl, hagain⟩ := h.fits hall.2
    exact ⟨rfl, hagain⟩
  case again =>
    intro hall
    obtain ⟨hagain, hcount⟩ := h.again fun hrest => hall ⟨hfits, hrest⟩
    refine ⟨hagain, ?_⟩
    rw [shortBranches] at hcount ⊢
    rw [shortBranches, List.countP_cons, List.countP_cons]
    exact Nat.add_lt_add_right hcount _
  case keeps => exact h.keeps
  case written =>
    intro bound hs hbound
    rw [totalSize_cons] at hbound
    apply h.written bound _ (by omega)
    exact Buffer.written_write_le _ _ _ hs (by omega)
  case frame =>
    intro start n hn
    rw [totalSize_cons] at hn
    rw [h.frame start n (by omega)]
    exact Buffer.slice_write_of_disjoint _ _ _ (by omega)
  case holds =>
    intro hall hfixed
    have hrest : HoldsFixed (s.out.write (base + x.fixedBytes.length)
        (x.branchBytes offsetOf s.switchBase (firstRef rest))) (base + x.size) rest := by
      apply hfixed.2.congr
      intro start n hstart
      exact Buffer.slice_write_of_disjoint _ _ _ (.inr (by omega))
    have hself : s'.out.slice base x.size =
        x.encodedBytes offsetOf s.switchBase (firstRef rest) := by
      rw [h.frame base x.size (.inl le_rfl), ILInstr.encodedBytes, ← hlength, Buffer.slice_add,
        Buffer.slice_write_self, Buffer.slice_write_of_disjoint _ _ _ (.inl le_rfl), hfixed.1]
    rw [totalSize_cons, Buffer.slice_add, hself, h.holds hall.2 hrest, codeBytes]

/-- One more instruction in front, which becomes long. -/
theorem Resolves.cons_of_not_fits {base : Nat} {s s' : Resolution} {x : ILInstr}
    {rest rest' : List ILInstr} (hfits : ¬ x.Fits offsetOf (firstRef rest))
    (hshort : x.isShort = true)
    (h : Resolves offsetOf (base + x.size) { s with fTryAgain := true } rest rest' s') :
    Resolves offsetOf base s (x :: rest) (x.widen :: rest') s' := by
  constructor
  case widened => exact .cons (.inr ⟨hshort, rfl⟩) h.widened
  case fits => exact fun hall => absurd hall.1 hfits
  case again =>
    intro _
    refine ⟨h.keeps rfl, ?_⟩
    have hcount := h.widened.shortBranches_le
    rw [shortBranches, shortBranches] at hcount
    rw [shortBranches, shortBranches, List.countP_cons, List.countP_cons, hshort,
      ILInstr.widen_isShort hshort]
    simp only [Bool.false_eq_true, if_false, if_true]
    omega
  case keeps => exact fun _ => h.keeps rfl
  case written =>
    intro bound hs hbound
    rw [totalSize_cons] at hbound
    exact h.written bound hs (by omega)
  case frame =>
    intro start n hn
    rw [totalSize_cons] at hn
    exact h.frame start n (by omega)
  case holds => exact fun hall => absurd hall.1 hfits

/-- The second loop ends, whatever it does to the list. -/
theorem exists_resolveAll {il : List ILInstr} {base : Nat} (s : Resolution)
    (hplaced : Placed offsetOf base il)
    (htargets : ∀ x ∈ il, x.isBranch = true → x.target.isSome = true) :
    ∃ il' s', s.resolveAll offsetOf il = some (il', s') ∧ Resolves offsetOf base s il il' s' := by
  induction il generalizing base s with
  | nil =>
      refine ⟨[], s, rfl, ?_⟩
      exact {
        widened := .nil
        fits := fun _ => ⟨rfl, rfl⟩
        again := fun h => absurd trivial h
        keeps := id
        written := fun _ h _ => h
        frame := fun _ _ _ => rfl
        holds := fun _ _ => by simp [totalSize, codeBytes, Buffer.slice] }
  | cons x rest ih =>
      rw [List.forall_mem_cons] at htargets
      by_cases hfits : x.Fits offsetOf (firstRef rest)
      · have hres := Resolution.resolve_of_fits (s := s) hplaced.1 hplaced.2.firstRef htargets.1
          hfits
        obtain ⟨rest', s', hrest, h⟩ := ih _ hplaced.2 htargets.2
        refine ⟨x :: rest', s', ?_, h.cons_of_fits hfits⟩
        rw [Resolution.resolveAll, hres, Option.bind_eq_bind, Option.bind_some]
        dsimp only
        rw [hrest]
        rfl
      · obtain ⟨hshort, hres⟩ := Resolution.resolve_of_not_fits (s := s) hfits
        obtain ⟨rest', s', hrest, h⟩ := ih _ hplaced.2 htargets.2
        refine ⟨x.widen :: rest', s', ?_, h.cons_of_not_fits hfits hshort⟩
        rw [Resolution.resolveAll, hres, Option.bind_eq_bind, Option.bind_some]
        dsimp only
        rw [hrest]
        rfl

end Lists

end SignalFxTracing.Il
