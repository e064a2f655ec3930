import SignalFxTracing.Il.Encoding
import SignalFxTracing.Il.ReleaseImport

/-!
# The retries of the encoding loop

Every retry leaves fewer short branches than there were, so the loop ends. Behind
the last pass the buffer holds the code of the list, within nine bytes for each
instruction.
-/

namespace SignalFxTracing.Il

open Lib Lib.LittleEndian

section Widening

theorem Widened.trans {il₁ il₂ il₃ : List ILInstr} (h : Widened il₁ il₂) (h' : Widened il₂ il₃) :
    Widened il₁ il₃ := by
  induction h generalizing il₃ with
  | nil => exact h'
  | @cons x y rest rest' hxy _ ih =>
      cases h' with
      | @cons _ z _ rest'' hyz hrest =>
          refine .cons ?_ (ih hrest)
          rcases hxy with rfl | ⟨hshort, rfl⟩
          · exact hyz
          · rcases hyz with rfl | ⟨hlong, _⟩
            · exact .inr ⟨hshort, rfl⟩
            · rw [ILInstr.widen_isShort hshort] at hlong
              cases hlong

theorem Widened.map_ref {il il' : List ILInstr} (h : Widened il il') :
    il'.map ILInstr.ref = il.map ILInstr.ref := by
  induction h with
  | nil => rfl
  | cons hxy _ ih =>
      rw [List.map_cons, List.map_cons, ih]
      rcases hxy with rfl | ⟨_, rfl⟩
      · rfl
      · rfl

theorem Widened.exists_of_mem {il il' : List ILInstr} (h : Widened il il') {y : ILInstr}
    (hy : y ∈ il') : ∃ x ∈ il, y = x ∨ x.isShort = true ∧ y = x.widen := by
  induction h with
  | nil => cases hy
  | cons hxy _ ih =>
      rcases List.mem_cons.mp hy with rfl | hy
      · exact ⟨_, List.mem_cons_self, hxy⟩
      · obtain ⟨x, hx, hxy⟩ := ih hy
        exact ⟨x, List.mem_cons_of_mem _ hx, hxy⟩

end Widening

namespace Encoder

/-- What a pass needs: nodes that are told apart, targets, and offsets that do not wrap. -/
structure Ready (e : Encoder) : Prop where
  nodup : (e.il.map ILInstr.ref).Nodup
  targets : ∀ x ∈ e.il, x.isBranch = true → x.target.isSome = true
  size : 9 * e.il.length < 2 ^ 32

/-- The buffer holds the code of the list, in which every short branch fits. -/
structure Encoded (e : Encoder) : Prop where
  placed : Placed e.offsetOf 0 e.il
  fits : AllFit e.offsetOf e.il
  code : e.out.slice 0 (totalSize e.il) = codeBytes e.offsetOf 0 e.il

/-- What a pass does. -/
structure PassOutcome (e : Encoder) (again : Bool) (e' : Encoder) : Prop where
  widened : Widened e.il e'.il
  fewer : again = true → shortBranches e'.il < shortBranches e.il
  encoded : again = false → e'.il = e.il ∧ e'.Encoded
  written : ∀ bound, e.out.written ≤ bound → 9 * e.il.length ≤ bound → e'.out.written ≤ bound

variable {e e' : Encoder}

theorem Ready.widened (h : e.Ready) (hwidened : Widened e.il e'.il) : e'.Ready := by
  constructor
  case nodup => exact hwidened.map_ref ▸ h.nodup
  case targets =>
    intro y hy hbranch
    obtain ⟨x, hx, rfl | ⟨hshort, rfl⟩⟩ := hwidened.exists_of_mem hy
    · exact h.targets _ hx hbranch
    · exact h.targets x hx (ILInstr.isBranch_of_isShort hshort)
  case size => exact hwidened.length_eq ▸ h.size

theorem allFit_of_not_branch {offsetOf : InstrRef → UInt32} {il : List ILInstr}
    (h : il.any ILInstr.isBranch = false) : AllFit offsetOf il := by
  induction il with
  | nil => trivial
  | cons x rest ih =>
      rw [List.any_cons, Bool.or_eq_false_iff] at h
      refine ⟨fun hshort => ?_, ih h.2⟩
      rw [ILInstr.isBranch_of_isShort hshort] at h
      cases h.1

theorem codeBytes_of_not_branch {offsetOf : InstrRef → UInt32} {out : Buffer} {base : Nat}
    {switchBase : UInt32} {il : List ILInstr} (h : il.any ILInstr.isBranch = false)
    (hfixed : HoldsFixed out base il) :
    out.slice base (totalSize il) = codeBytes offsetOf switchBase il := by
  induction il generalizing base switchBase with
  | nil => simp [totalSize, codeBytes, Buffer.slice]
  | cons x rest ih =>
      rw [List.any_cons, Bool.or_eq_false_iff] at h
      have hlength := @length_branchBytes_le offsetOf x switchBase (firstRef rest)
      rw [ILInstr.branchBytes_of_not_isBranch _ _ _ h.1, List.length_nil, Nat.add_zero] at hlength
      rw [totalSize_cons, Buffer.slice_add, ih h.2 hfixed.2, codeBytes, ILInstr.encodedBytes,
        ILInstr.branchBytes_of_not_isBranch _ _ _ h.1, List.append_nil, ← hfixed.1, hlength]

/-- The offsets that a pass gives to the nodes. -/
def offsets (e : Encoder) : InstrRef → UInt32 :=
  Function.update e.emitAll.offsetOf .sentinel e.emitAll.offset

/-- What the loop over all instructions does. -/
structure Emitted (e : Encoder) : Prop where
  placed : Placed e.offsets 0 e.il
  holds : HoldsFixed e.emitAll.out 0 e.il
  branch : e.emitAll.fBranch = e.il.any ILInstr.isBranch
  written : ∀ bound, e.out.written ≤ bound → 9 * e.il.length ≤ bound →
    e.emitAll.out.written ≤ bound

theorem Ready.emitted (h : e.Ready) : e.Emitted := by
  have htotal := totalSize_le e.il
  have hsize := h.size
  have hzero : (0 : UInt32).toNat = 0 := rfl
  have hwrap : (0 : UInt32).toNat + totalSize e.il < 2 ^ 32 := by omega
  constructor
  case placed => exact Emission.placed_foldl h.nodup hwrap
  case holds => exact Emission.holdsFixed_foldl hwrap
  case branch =>
    rw [emitAll, Emission.fBranch_foldl hwrap]
    exact Bool.false_or _
  case written =>
    intro bound hout hbound
    apply Emission.written_foldl_le hout _ hwrap
    dsimp only
    omega

/-- A pass ends. -/
theorem Ready.exists_pass (h : e.Ready) :
    ∃ again e', e.pass = some (again, e') ∧ PassOutcome e again e' := by
  have hemitted := h.emitted
  have htotal := totalSize_le e.il
  by_cases hany : e.il.any ILInstr.isBranch = true
  · obtain ⟨il', s', hres, hspec⟩ :=
      exists_resolveAll ⟨0, e.emitAll.out, false⟩ hemitted.placed h.targets
    refine ⟨s'.fTryAgain, ⟨il', e.offsets, s'.out⟩, ?_, ?_⟩
    · rw [offsets] at hres
      rw [pass, hemitted.branch, if_pos hany, hres]
      rfl
    · constructor
      case widened => exact hspec.widened
      case fewer =>
        intro hagain
        apply (hspec.again fun hall => ?_).2
        rw [(hspec.fits hall).2] at hagain
        cases hagain
      case encoded =>
        intro hagain
        have hall : AllFit e.offsets e.il := by
          by_contra hall
          rw [(hspec.again hall).1] at hagain
          cases hagain
        obtain ⟨rfl, -⟩ := hspec.fits hall
        exact ⟨rfl, hemitted.placed, hall, hspec.holds hall hemitted.holds⟩
      case written =>
        intro bound hout hbound
        apply hspec.written bound (hemitted.written bound hout hbound)
        omega
  · rw [Bool.not_eq_true] at hany
    refine ⟨false, ⟨e.il, e.offsets, e.emitAll.out⟩, ?_, ?_⟩
    · rw [pass, hemitted.branch, hany]
      rfl
    · constructor
      case widened => exact Widened.refl _
      case fewer => exact fun hagain => nomatch hagain
      case encoded =>
        intro _
        exact ⟨rfl, hemitted.placed, allFit_of_not_branch hany,
          codeBytes_of_not_branch hany hemitted.holds⟩
      case written => exact hemitted.written

/-- One turn more than there are short branches is enough. -/
theorem Ready.exists_encode {turns : Nat} (h : e.Ready) (hturns : shortBranches e.il < turns) :
    ∃ e', encode turns e = some e' ∧ e'.Encoded ∧ Widened e.il e'.il := by
  induction turns generalizing e with
  | zero => omega
  | succ turns ih =>
      obtain ⟨again, e', hpass, hspec⟩ := h.exists_pass
      cases again with
      | false =>
          refine ⟨e', ?_, (hspec.encoded rfl).2, hspec.widened⟩
          rw [encode, hpass]
          rfl
      | true =>
          have hfewer := hspec.fewer rfl
          obtain ⟨e'', hencode, hencoded, hwidened⟩ := ih (h.widened hspec.widened) (by omega)
          refine ⟨e'', ?_, hencoded, hspec.widened.trans hwidened⟩
          rw [encode, hpass, Option.bind_eq_bind, Option.bind_some]
          exact hencode

/-- The states from which a pass starts. -/
inductive Retries (start : Encoder) : Encoder → Prop
  | start : Retries start start
  | retry {e e' : Encoder} : Retries start e → e.pass = some (true, e') → Retries start e'

theorem Retries.keeps {start : Encoder} (h : start.Ready) (hretries : Retries start e) :
    e.Ready ∧ e.il.length = start.il.length ∧
      ∀ bound, start.out.written ≤ bound → 9 * start.il.length ≤ bound →
        e.out.written ≤ bound := by
  induction hretries with
  | start => exact ⟨h, rfl, fun _ hout _ => hout⟩
  | @retry e e' _ hpass ih =>
      obtain ⟨hready, hlength, hwritten⟩ := ih
      obtain ⟨again, e'', hpass', hspec⟩ := hready.exists_pass
      obtain ⟨rfl, rfl⟩ := Prod.mk.inj (Option.some.inj (hpass'.symm.trans hpass))
      refine ⟨hready.widened hspec.widened, ?_, fun bound hout hbound => ?_⟩
      · rw [← hlength]
        exact hspec.widened.length_eq.symm
      · exact hspec.written bound (hwritten bound hout hbound) (by omega)

end Encoder

end SignalFxTracing.Il
