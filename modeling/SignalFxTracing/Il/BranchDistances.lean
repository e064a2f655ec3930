import SignalFxTracing.Il.EditedList
import SignalFxTracing.Il.EncodingLoop

/-!
# The encoding of an edited list

Behind the last pass every branch holds the distance from its end to its target.
The buffer is sized for ten bytes an instruction, in a number of 32 bits.
-/

namespace SignalFxTracing.Il

open Lib Lib.LittleEndian

section Reading

variable {offsetOf : InstrRef → UInt32} {out : Buffer} {x : ILInstr}
  {before after : List ILInstr}

/-- An instruction of a list that has been placed and whose code has been written. -/
theorem slice_of_codeBytes {base : Nat} {switchBase : UInt32}
    (hplaced : Placed offsetOf base (before ++ x :: after))
    (hfits : AllFit offsetOf (before ++ x :: after))
    (hcode : out.slice base (totalSize (before ++ x :: after)) =
      codeBytes offsetOf switchBase (before ++ x :: after)) :
    ∃ switchBase, (offsetOf (firstRef after)).toNat = (offsetOf x.ref).toNat + x.size ∧
      x.Fits offsetOf (firstRef after) ∧
      out.slice (offsetOf x.ref).toNat x.size =
        x.encodedBytes offsetOf switchBase (firstRef after) := by
  induction before generalizing base switchBase with
  | nil =>
      simp only [List.nil_append] at hplaced hfits hcode
      rw [totalSize_cons, Buffer.slice_add, codeBytes] at hcode
      have hself := (List.append_inj hcode (by simp [ILInstr.length_encodedBytes])).1
      refine ⟨switchBase, ?_, hfits.1, ?_⟩
      · rw [hplaced.2.firstRef, hplaced.1]
      · rw [hplaced.1]
        exact hself
  | cons y before ih =>
      simp only [List.cons_append] at hplaced hfits hcode
      rw [totalSize_cons, Buffer.slice_add, codeBytes] at hcode
      have hrest := (List.append_inj hcode (by simp [ILInstr.length_encodedBytes])).2
      exact ih hplaced.2 hfits.2 hrest

theorem Placed.toNat_le {base : Nat} {il : List ILInstr} (h : Placed offsetOf base il)
    {ref : InstrRef} (href : ref = .sentinel ∨ ∃ x ∈ il, ref = x.ref) :
    (offsetOf ref).toNat ≤ base + totalSize il := by
  induction il generalizing base with
  | nil =>
      rcases href with rfl | ⟨x, hx, _⟩
      · exact h.le
      · cases hx
  | cons y rest ih =>
      rw [totalSize_cons]
      have hcases : ref = y.ref ∨ ref = .sentinel ∨ ∃ x ∈ rest, ref = x.ref := by
        rcases href with rfl | ⟨x, hx, rfl⟩
        · exact .inr (.inl rfl)
        · rcases List.mem_cons.mp hx with rfl | hx
          · exact .inl rfl
          · exact .inr (.inr ⟨x, hx, rfl⟩)
      rcases hcases with rfl | hrest
      · rw [h.1]
        omega
      · have hle := ih h.2 hrest
        omega

theorem branchTarget_size {opcode size : Nat} (h : opCodeFlags opcode = .branchTarget size) :
    size = 1 ∨ size = 4 := by
  rw [opCodeFlags] at h
  split_ifs at h
  · exact .inr (OpCodeFlags.branchTarget.inj h).symm
  · split at h
    · next opdef _ =>
        cases hargs : opdef.args <;> rw [hargs] at h <;> cases h
        · exact .inl rfl
        · exact .inr rfl
    · cases h

/-- A difference of offsets, as a signed number. -/
theorem signed_sub (target next : UInt32) :
    signed 4 (target - next).toNat = Int.bmod (target.toNat - next.toNat) (2 ^ 32) := by
  have htarget := target.toNat_lt
  have hnext := next.toNat_lt
  rw [signed, UInt32.toNat_sub, Int.bmod_def, Int.bmod_def]
  split_ifs <;> omega

theorem signed_mod (size v : Nat) : signed size (v % 256 ^ size) = signed size v := by
  rw [signed, signed, Int.natCast_mod, Int.emod_bmod]

theorem signed_one_bounds (v : Nat) : -128 ≤ signed 1 v ∧ signed 1 v ≤ 127 := by
  rw [signed, Int.bmod_def]
  split_ifs <;> omega

/-- A number that is one byte in 32 bits is that byte, unless it is almost `2^32` large. -/
theorem bmod_eq_of_byte {d : Int} (hlow : -(2 ^ 32 - 128) < d) (hhigh : d < 2 ^ 32 - 128)
    (hbyte : -128 ≤ Int.bmod d (2 ^ 32) ∧ Int.bmod d (2 ^ 32) ≤ 127) :
    Int.bmod d (2 ^ 32) = d := by
  rw [Int.bmod_def] at hbyte ⊢
  split_ifs at hbyte ⊢ <;> omega

end Reading

namespace Encoder

variable (e : Encoder)

/-- The number in the last bytes before an instruction. -/
def encodedDisplacement (size : Nat) (next : InstrRef) : Int :=
  signed size (ofLE (e.out.slice ((e.offsetOf next).toNat - size) size))

def distance (next target : InstrRef) : Int :=
  (e.offsetOf target).toNat - (e.offsetOf next).toNat

/-- A short branch holds the distance to its target, and a long one does in 32 bits. -/
def Reaches (next target : InstrRef) (size : Nat) : Prop :=
  (size = 1 → -128 ≤ e.distance next target ∧ e.distance next target ≤ 127 ∧
    e.encodedDisplacement size next = e.distance next target) ∧
  e.encodedDisplacement size next = Int.bmod (e.distance next target) (2 ^ 32)

/-- All nodes have been placed, and all branches reach their targets. -/
structure BranchesReach : Prop where
  placed : Placed e.offsetOf 0 e.il
  reaches : ∀ before x after size, e.il = before ++ x :: after →
    opCodeFlags x.opcode = .branchTarget size → x.opcode ≠ CEE_SWITCH_ARG →
      ∃ target, x.target = some target ∧ e.Reaches (firstRef after) target size

variable {e}

/-- What is read before the next instruction is what has been written. -/
theorem encodedDisplacement_eq {x : ILInstr} {target next : InstrRef} {size : Nat}
    {switchBase : UInt32} (hflags : opCodeFlags x.opcode = .branchTarget size)
    (hne : x.opcode ≠ CEE_SWITCH_ARG) (htarget : x.target = some target)
    (hnext : (e.offsetOf next).toNat = (e.offsetOf x.ref).toNat + x.size)
    (hslice : e.out.slice (e.offsetOf x.ref).toNat x.size =
      x.encodedBytes e.offsetOf switchBase next) :
    e.encodedDisplacement size next = signed size (e.offsetOf target - e.offsetOf next).toNat := by
  have hfixed : x.fixedBytes.length + size = x.size := by
    rw [ILInstr.size, ILInstr.operandSize, ILInstr.fixedBytes, hflags, List.append_nil]
  have hstart : (e.offsetOf next).toNat - size =
      (e.offsetOf x.ref).toNat + x.fixedBytes.length := by omega
  rw [← hfixed, Buffer.slice_add, ILInstr.encodedBytes] at hslice
  have hoperand := (List.append_inj hslice (by simp)).2
  rw [ILInstr.branchBytes, hflags, ILInstr.displacement, htarget, Option.map_some,
    Option.getD_some, if_neg hne] at hoperand
  rw [encodedDisplacement, hstart, hoperand, ofLE_toLE, signed_mod]

theorem Encoded.branchesReach (h : e.Encoded)
    (htargets : ∀ x ∈ e.il, x.isBranch = true → IsPlace e.il x.target)
    (hsize : totalSize e.il + 128 < 2 ^ 32) : e.BranchesReach := by
  refine ⟨h.placed, ?_⟩
  intro before x after size hil hflags hne
  have hplaced := h.placed
  have hfits := h.fits
  have hcode := h.code
  rw [hil] at hplaced hfits hcode
  obtain ⟨switchBase, hnext, hfit, hslice⟩ := slice_of_codeBytes hplaced hfits hcode
  have hx : x ∈ e.il := by
    rw [hil]
    exact List.mem_append_right _ List.mem_cons_self
  obtain ⟨target, htarget, hplace⟩ : ∃ target, x.target = some target ∧
      (target = .sentinel ∨ ∃ y ∈ e.il, target = y.ref) := by
    rcases htargets x hx (by rw [ILInstr.isBranch, hflags]) with heq | ⟨y, hy, heq⟩
    · exact ⟨_, heq, .inl rfl⟩
    · exact ⟨_, heq, .inr ⟨y, hy, rfl⟩⟩
  refine ⟨target, htarget, ?_⟩
  have hlong : signed 4 (e.offsetOf target - e.offsetOf (firstRef after)).toNat =
      Int.bmod (e.distance (firstRef after) target) (2 ^ 32) := signed_sub _ _
  rw [Reaches, encodedDisplacement_eq hflags hne htarget hnext hslice]
  rcases branchTarget_size hflags with rfl | rfl
  · have hshort : x.isShort = true := by rw [ILInstr.isShort, hflags]; rfl
    have hequal := (hfit hshort target htarget).trans hlong
    have hbyte := signed_one_bounds (e.offsetOf target - e.offsetOf (firstRef after)).toNat
    have htargetLe := h.placed.toNat_le hplace
    have hnextLe : (e.offsetOf (firstRef after)).toNat ≤ 0 + totalSize e.il := by
      apply h.placed.toNat_le
      cases after with
      | nil => exact .inl rfl
      | cons y rest => exact .inr ⟨y, by rw [hil]; simp, rfl⟩
    rw [hequal] at hbyte ⊢
    have hexact := bmod_eq_of_byte (by rw [distance]; omega) (by rw [distance]; omega) hbyte
    rw [hexact] at hbyte
    exact ⟨fun _ => ⟨hbyte.1, hbyte.2, hexact⟩, rfl⟩
  · exact ⟨fun h => absurd h (by decide), hlong⟩

end Encoder

section Laws

variable {r : ILRewriter}

/-- Every branch goes to a node of the list or to its end. -/
def TargetsResolved (r : ILRewriter) : Prop :=
  ∀ x ∈ r.il, x.isBranch = true → IsPlace r.il x.target

/-- The first pass of `Export`: nothing has been written to the new buffer. -/
def ILRewriter.Starts (r : ILRewriter) (start : Encoder) : Prop :=
  start.il = r.il ∧ start.out.written = 0

/-- Some short branches have become the long forms of themselves, and nothing else changes. -/
def LongFormsOf (il il' : List ILInstr) : Prop :=
  List.Forall₂ (fun x y => y = x ∨
    isLongForm x.opcode y.opcode = true ∧ y = { x with opcode := y.opcode }) il il'

/-- The loop ends and encodes all branches, each retry makes branches long, and all bytes lie in
the buffer. -/
structure ExportsBranches (r : ILRewriter) : Prop where
  terminates : ∀ start, r.Starts start →
    ∃ e, Encoder.encode (shortBranches r.il + 1) start = some e ∧ e.BranchesReach ∧
      LongFormsOf r.il e.il
  retries : ∀ start e e', r.Starts start → Encoder.Retries start e → e.pass = some (true, e') →
    LongFormsOf e.il e'.il ∧ shortBranches e'.il < shortBranches e.il
  written : ∀ start e again e', r.Starts start → Encoder.Retries start e →
    e.pass = some (again, e') → e'.out.written ≤ 10 * r.nInstrs
  maxSize : r.maxSize.toNat = 10 * r.nInstrs
  buffered : ∀ start e again e', r.Starts start → Encoder.Retries start e →
    e.pass = some (again, e') → e'.out.written ≤ r.maxSize.toNat

theorem Widened.longFormsOf {il il' : List ILInstr} (h : Widened il il') : LongFormsOf il il' := by
  apply h.imp
  rintro x y (rfl | ⟨hshort, rfl⟩)
  · exact .inl rfl
  · exact .inr ⟨isLongForm_longForm (ILInstr.opCodeFlags_of_isShort hshort), rfl⟩

theorem Widened.isPlace_iff {il il' : List ILInstr} (h : Widened il il') (ref : Option InstrRef) :
    IsPlace il' ref ↔ IsPlace il ref := by
  have hmem : ∀ l : List ILInstr, (∃ x ∈ l, ref = some x.ref) ↔
      ∃ place ∈ l.map ILInstr.ref, ref = some place := by simp
  rw [IsPlace, IsPlace, hmem, hmem, h.map_ref]

theorem maxSize_toNat_iff (r : ILRewriter) :
    r.maxSize.toNat = 10 * r.nInstrs ↔ 10 * r.nInstrs < 2 ^ 32 := by
  have hten : (10 : UInt32).toNat = 10 := rfl
  rw [ILRewriter.maxSize, UInt32.toNat_mul, UInt32.toNat_ofNat', hten]
  omega

theorem Encoder.ready_of_starts (h : NumberedApart r) (htargets : TargetsResolved r)
    (hcount : 10 * r.nInstrs < 2 ^ 32) {start : Encoder} (hstart : r.Starts start) :
    start.Ready := by
  have hlength := h.length_le
  constructor
  case nodup =>
    rw [hstart.1]
    exact h.nodup_ref
  case targets =>
    rw [hstart.1]
    intro x hx hbranch
    rcases htargets x hx hbranch with heq | ⟨y, _, heq⟩
    · rw [heq]
      rfl
    · rw [heq]
      rfl
  case size =>
    rw [hstart.1]
    omega

/-- No pass of the loop writes more than ten bytes for each instruction. -/
theorem written_le (h : Edited r) (htargets : TargetsResolved r) (hcount : 10 * r.nInstrs < 2 ^ 32)
    (start e : Encoder) (again : Bool) (e' : Encoder) (hstart : r.Starts start)
    (hretries : Encoder.Retries start e) (hpass : e.pass = some (again, e')) :
    e'.out.written ≤ 10 * r.nInstrs := by
  have hlength := h.numberedApart.length_le
  have hready := Encoder.ready_of_starts h.numberedApart htargets hcount hstart
  obtain ⟨hready', hlength', hwritten⟩ := hretries.keeps hready
  obtain ⟨again', e'', hpass', hspec⟩ := hready'.exists_pass
  obtain ⟨rfl, rfl⟩ := Prod.mk.inj (Option.some.inj (hpass'.symm.trans hpass))
  have hsize : 9 * start.il.length ≤ 10 * r.nInstrs := by
    rw [hstart.1]
    omega
  apply hspec.written
  · apply hwritten _ _ hsize
    rw [hstart.2]
    exact Nat.zero_le _
  · omega

/-- The encoding of an edited list is right exactly when ten bytes for each of its instructions
are a number of 32 bits. -/
theorem exportsBranches_iff (h : Edited r) (htargets : TargetsResolved r) :
    ExportsBranches r ↔ 10 * r.nInstrs < 2 ^ 32 := by
  constructor
  · exact fun hexports => (maxSize_toNat_iff r).mp hexports.maxSize
  · intro hcount
    have hapart := h.numberedApart
    have hlength := hapart.length_le
    constructor
    case terminates =>
      intro start hstart
      have hready := Encoder.ready_of_starts hapart htargets hcount hstart
      obtain ⟨e, hencode, hencoded, hwidened⟩ :=
        hready.exists_encode (by rw [hstart.1]; exact Nat.lt_succ_self _)
      rw [hstart.1] at hwidened
      refine ⟨e, hencode, hencoded.branchesReach ?_ ?_, hwidened.longFormsOf⟩
      · intro y hy hbranch
        rw [hwidened.isPlace_iff]
        obtain ⟨x, hx, rfl | ⟨hshort, rfl⟩⟩ := hwidened.exists_of_mem hy
        · exact htargets _ hx hbranch
        · exact htargets x hx (ILInstr.isBranch_of_isShort hshort)
      · have htotal := totalSize_le e.il
        have heq := hwidened.length_eq
        omega
    case retries =>
      intro start e e' hstart hretries hpass
      have hready := Encoder.ready_of_starts hapart htargets hcount hstart
      obtain ⟨again, e'', hpass', hspec⟩ := (hretries.keeps hready).1.exists_pass
      obtain ⟨rfl, rfl⟩ := Prod.mk.inj (Option.some.inj (hpass'.symm.trans hpass))
      exact ⟨hspec.widened.longFormsOf, hspec.fewer rfl⟩
    case written => exact written_le h htargets hcount
    case maxSize => exact (maxSize_toNat_iff r).mpr hcount
    case buffered =>
      rw [(maxSize_toNat_iff r).mpr hcount]
      exact written_le h htargets hcount

/-- `br.s` over nothing, and `ret`. -/
def branchAndReturn : IlMethod where
  header := .tiny
  code := [0x2B, 0x00, 0x2A]
  eh := .none
  code_lt := by decide

def branchAndReturnImported : ILRewriter where
  tkLocalVarSig := 0
  maxStack := 8
  flags := 0
  il := [⟨0, CEE_BR_S, 2, some (.instr 1)⟩, ⟨1, 0x2A, 0, none⟩]
  eh := []
  nInstrs := 2

theorem importMethod_branchAndReturn :
    importMethod branchAndReturn = some branchAndReturnImported := by
  have hdecode : decode branchAndReturn.code =
      some [(0, ⟨CEE_BR_S, .target 2⟩), (2, ⟨0x2A, .value 0⟩)] := by decide +kernel
  rw [importMethod, importIL, hdecode]
  rfl

theorem exportsBranches_branchAndReturn :
    ExportsBranches branchAndReturnImported ↔ 10 * branchAndReturnImported.nInstrs < 2 ^ 32 := by
  apply exportsBranches_iff (.imported importMethod_branchAndReturn)
  intro x hx hbranch
  rcases List.mem_cons.mp hx with rfl | hx
  · exact .inr ⟨⟨1, 0x2A, 0, none⟩, by simp [branchAndReturnImported], rfl⟩
  · obtain rfl := List.mem_singleton.mp hx
    exact absurd hbranch (by decide)

/-- A list of `n` nops. -/
def nopList (n : Nat) : ILRewriter :=
  { ILRewriter.tiny with
    il := (List.range n).map fun id => ⟨id, CEE_NOP, 0, none⟩
    nInstrs := n }

theorem edited_nopList (n : Nat) : Edited (nopList n) := by
  induction n with
  | zero => exact .tiny
  | succ n ih =>
      have hinsert : Edited (ILRewriter.insertBefore .sentinel ⟨n, CEE_NOP, 0, none⟩
          { nopList n with nInstrs := n + 1 }) := by
        refine .insertBefore .sentinel (.newILInstr ih) (Nat.lt_succ_self n) ?_
        simp [nopList]
      apply hinsert.header
      · simp [nopList, ILRewriter.insertBefore, ILRewriter.adjustState, List.range_succ]
      · rfl

theorem targetsResolved_nopList (n : Nat) : TargetsResolved (nopList n) := by
  intro x hx hbranch
  obtain ⟨id, -, rfl⟩ := List.mem_map.mp hx
  cases hbranch

/-- For 429496730 nops the output buffer has four bytes. -/
theorem not_exportsBranches :
    ¬∀ r : ILRewriter, Edited r → TargetsResolved r → ExportsBranches r := by
  intro h
  have hmaxSize := (h _ (edited_nopList 429496730) (targetsResolved_nopList 429496730)).maxSize
  have hcount : ∀ n, (nopList n).nInstrs = n := fun _ => rfl
  rw [maxSize_toNat_iff, hcount] at hmaxSize
  exact absurd hmaxSize (by decide)

end Laws

end SignalFxTracing.Il
