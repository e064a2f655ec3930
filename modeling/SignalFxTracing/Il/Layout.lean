import SignalFxTracing.Il.Export

/-!
# The layout of the encoded instructions

Each instruction has a size that depends on its opcode only. The loop over all
instructions places them one behind the other and writes what does not depend on
the targets.
-/

namespace SignalFxTracing.Il

open Lib Lib.LittleEndian

namespace ILInstr

variable (x : ILInstr)

/-- The bytes of the opcode; an entry of a switch has none. -/
def encodedOpcode : List UInt8 := if x.opcode < CEE_COUNT then opcodeBytes x.opcode else []

def operandSize : Nat :=
  match opCodeFlags x.opcode with
  | .operand size => size
  | .branchTarget size => size
  | .switch => 4

def size : Nat := x.encodedOpcode.length + x.operandSize

/-- The bytes that do not depend on a target. -/
def fixedBytes : List UInt8 :=
  x.encodedOpcode ++
    match opCodeFlags x.opcode with
    | .operand size => toLE size x.arg
    | .branchTarget _ => []
    | .switch => toLE 4 x.arg

theorem opcode_cases (opcode : Nat) :
    opcode < CEE_COUNT ∨ opcode = CEE_SWITCH_ARG ∨ opCodeFlags opcode = .operand 0 := by
  by_cases hlt : opcode < CEE_COUNT
  · exact .inl hlt
  · by_cases harg : opcode = CEE_SWITCH_ARG
    · exact .inr (.inl harg)
    · have hnone : opdefs[opcode]? = none :=
        List.getElem?_eq_none (by rw [opdefs_length]; omega)
      exact .inr (.inr (by rw [opCodeFlags, if_neg harg, hnone]))

/-- The longest instruction has one byte and an operand of eight. -/
theorem size_le : x.size ≤ 9 := by
  have hsize : x.size = (mk 0 x.opcode 0 none).size := rfl
  rw [hsize]
  rcases opcode_cases x.opcode with hlt | harg | hflags
  · have hall : ∀ opcode < CEE_COUNT, (mk 0 opcode 0 none).size ≤ 9 := by decide +kernel
    exact hall x.opcode hlt
  · rw [harg]
    decide
  · have hopcode : (mk 0 x.opcode 0 none).encodedOpcode.length ≤ 2 := by
      rw [encodedOpcode]
      split_ifs
      · rw [opcodeBytes]
        split_ifs <;> simp
      · simp
    rw [size, operandSize, hflags]
    exact hopcode.trans (by decide)

theorem length_fixedBytes_le : x.fixedBytes.length ≤ x.size := by
  rw [fixedBytes, size, operandSize, List.length_append]
  cases opCodeFlags x.opcode <;> simp

end ILInstr

/-- The number of bytes of a list. -/
def totalSize (il : List ILInstr) : Nat := (il.map ILInstr.size).sum

theorem totalSize_cons (x : ILInstr) (rest : List ILInstr) :
    totalSize (x :: rest) = x.size + totalSize rest := by
  rw [totalSize, List.map_cons, List.sum_cons, totalSize]

theorem totalSize_le (il : List ILInstr) : totalSize il ≤ 9 * il.length := by
  induction il with
  | nil => simp [totalSize]
  | cons x rest ih =>
      have hx := x.size_le
      rw [totalSize_cons, List.length_cons]
      omega

/-- The instructions lie one behind the other, and the end behind the last of them. -/
def Placed (offsetOf : InstrRef → UInt32) : Nat → List ILInstr → Prop
  | base, [] => (offsetOf .sentinel).toNat = base
  | base, x :: rest => (offsetOf x.ref).toNat = base ∧ Placed offsetOf (base + x.size) rest

theorem Placed.firstRef {offsetOf : InstrRef → UInt32} {base : Nat} {il : List ILInstr}
    (h : Placed offsetOf base il) : (offsetOf (firstRef il)).toNat = base := by
  cases il with
  | nil => exact h
  | cons x rest => exact h.1

/-- What does not depend on a target stands at its place. -/
def HoldsFixed (out : Buffer) : Nat → List ILInstr → Prop
  | _, [] => True
  | base, x :: rest =>
      out.slice base x.fixedBytes.length = x.fixedBytes ∧ HoldsFixed out (base + x.size) rest

theorem HoldsFixed.congr {out out' : Buffer} {base : Nat} {il : List ILInstr}
    (h : HoldsFixed out base il)
    (hslice : ∀ start n, base ≤ start → out'.slice start n = out.slice start n) :
    HoldsFixed out' base il := by
  induction il generalizing base with
  | nil => trivial
  | cons x rest ih =>
      refine ⟨(hslice base _ le_rfl).trans h.1, ih h.2 fun start n hstart => ?_⟩
      exact hslice start n (by omega)

namespace Emission

variable {s : Emission}

theorem toNat_add_ofNat {offset : UInt32} {n : Nat} (h : offset.toNat + n < 2 ^ 32) :
    (offset + UInt32.ofNat n).toNat = offset.toNat + n := by
  rw [UInt32.toNat_add, UInt32.toNat_ofNat']
  omega

theorem putOpcode_eq (x : ILInstr) (h : s.offset.toNat + x.encodedOpcode.length < 2 ^ 32) :
    s.putOpcode x.opcode =
      { s with
        out := s.out.write s.offset.toNat x.encodedOpcode
        offset := s.offset + UInt32.ofNat x.encodedOpcode.length } := by
  rw [putOpcode]
  rw [ILInstr.encodedOpcode] at h ⊢
  by_cases hlt : x.opcode < CEE_COUNT
  · rw [if_pos hlt] at h
    rw [if_pos hlt, if_pos hlt]
    rw [opcodeBytes] at h ⊢
    by_cases htwo : 0x100 ≤ x.opcode
    · rw [if_pos htwo] at h
      rw [if_pos htwo, if_pos htwo]
      have hnext : (s.offset + 1).toNat = s.offset.toNat + 1 :=
        @toNat_add_ofNat s.offset 1 (by simp only [List.length_cons] at h; omega)
      have hbytes := s.out.write_append s.offset.toNat [UInt8.ofNat CEE_PREFIX1]
        [UInt8.ofNat x.opcode]
      simp only [putByte, hnext]
      simp only [List.length_singleton] at hbytes
      rw [hbytes, UInt32.add_assoc]
      rfl
    · rw [if_neg htwo, if_neg htwo]
      rfl
  · rw [if_neg hlt, if_neg hlt, Buffer.write_nil]
    simp

/-- One turn of the loop. -/
theorem emit_eq (x : ILInstr) (h : s.offset.toNat + x.size < 2 ^ 32) :
    s.emit x =
      { offset := s.offset + UInt32.ofNat x.size
        offsetOf := Function.update s.offsetOf x.ref s.offset
        out := s.out.write s.offset.toNat x.fixedBytes
        fBranch := s.fBranch || x.isBranch } := by
  rw [ILInstr.size] at h
  have hopcode : s.offset.toNat + x.encodedOpcode.length < 2 ^ 32 := by omega
  have hput := @putOpcode_eq
    { s with offsetOf := Function.update s.offsetOf x.ref s.offset } x hopcode
  rw [emit, hput, ILInstr.size, ILInstr.operandSize, ILInstr.fixedBytes,
    ILInstr.isBranch, UInt32.ofNat_add, ← UInt32.add_assoc, ← Buffer.write_append]
  cases opCodeFlags x.opcode with
  | operand size => simp [putOperand, toNat_add_ofNat hopcode]
  | branchTarget size => simp
  | switch => simp [putOperand, toNat_add_ofNat hopcode]

theorem toNat_offset_emit (x : ILInstr) (h : s.offset.toNat + x.size < 2 ^ 32) :
    (s.emit x).offset.toNat = s.offset.toNat + x.size := by
  rw [emit_eq x h]
  exact toNat_add_ofNat h

section Loop

variable {il : List ILInstr}

theorem offsetOf_foldl_of_notMem {ref : InstrRef} (href : ref ∉ il.map ILInstr.ref)
    (h : s.offset.toNat + totalSize il < 2 ^ 32) :
    (il.foldl emit s).offsetOf ref = s.offsetOf ref := by
  induction il generalizing s with
  | nil => rfl
  | cons x rest ih =>
      rw [totalSize_cons] at h
      rw [List.map_cons, List.mem_cons, not_or] at href
      have hx := @toNat_offset_emit s x (by omega)
      rw [List.foldl_cons, ih href.2 (by omega), emit_eq x (by omega)]
      exact Function.update_of_ne href.1 _ _

theorem placed_foldl (hnodup : (il.map ILInstr.ref).Nodup)
    (h : s.offset.toNat + totalSize il < 2 ^ 32) :
    Placed (Function.update (il.foldl emit s).offsetOf .sentinel (il.foldl emit s).offset)
      s.offset.toNat il := by
  induction il generalizing s with
  | nil => simp [Placed]
  | cons x rest ih =>
      rw [List.map_cons, List.nodup_cons] at hnodup
      have hsize := h
      rw [totalSize_cons] at hsize
      have hx := @toNat_offset_emit s x (by omega)
      have hrest := ih hnodup.2 (s := s.emit x) (by omega)
      rw [hx] at hrest
      refine ⟨?_, hrest⟩
      have hne : x.ref ≠ .sentinel := by simp [ILInstr.ref]
      rw [Function.update_of_ne hne, List.foldl_cons,
        offsetOf_foldl_of_notMem hnodup.1 (by omega), emit_eq x (by omega)]
      dsimp only
      rw [Function.update_self]

theorem fBranch_foldl (h : s.offset.toNat + totalSize il < 2 ^ 32) :
    (il.foldl emit s).fBranch = (s.fBranch || il.any ILInstr.isBranch) := by
  induction il generalizing s with
  | nil => simp
  | cons x rest ih =>
      rw [totalSize_cons] at h
      have hx := @toNat_offset_emit s x (by omega)
      rw [List.foldl_cons, ih (by omega), emit_eq x (by omega), List.any_cons, Bool.or_assoc]

theorem written_foldl_le {bound : Nat} (hs : s.out.written ≤ bound)
    (hbound : s.offset.toNat + totalSize il ≤ bound)
    (h : s.offset.toNat + totalSize il < 2 ^ 32) :
    (il.foldl emit s).out.written ≤ bound := by
  induction il generalizing s with
  | nil => exact hs
  | cons x rest ih =>
      rw [totalSize_cons] at h hbound
      have hx := @toNat_offset_emit s x (by omega)
      have hfixed := x.length_fixedBytes_le
      apply ih _ (by omega) (by omega)
      rw [emit_eq x (by omega)]
      exact Buffer.written_write_le _ _ _ hs (by omega)

/-- Nothing before the offset changes. -/
theorem slice_foldl {start n : Nat} (hbefore : start + n ≤ s.offset.toNat)
    (h : s.offset.toNat + totalSize il < 2 ^ 32) :
    (il.foldl emit s).out.slice start n = s.out.slice start n := by
  induction il generalizing s with
  | nil => rfl
  | cons x rest ih =>
      rw [totalSize_cons] at h
      have hx := @toNat_offset_emit s x (by omega)
      rw [List.foldl_cons, ih (by omega) (by omega), emit_eq x (by omega)]
      exact Buffer.slice_write_of_disjoint _ _ _ (.inl hbefore)

theorem holdsFixed_foldl (h : s.offset.toNat + totalSize il < 2 ^ 32) :
    HoldsFixed (il.foldl emit s).out s.offset.toNat il := by
  induction il generalizing s with
  | nil => trivial
  | cons x rest ih =>
      have hsize := h
      rw [totalSize_cons] at hsize
      have hx := @toNat_offset_emit s x (by omega)
      have hfixed := x.length_fixedBytes_le
      constructor
      · rw [List.foldl_cons, slice_foldl (by omega) (by omega), emit_eq x (by omega)]
        exact Buffer.slice_write_self _ _ _
      · rw [← hx]
        exact ih (by omega)

end Loop

end Emission

end SignalFxTracing.Il
