import SignalFxTracing.Il.Relocation
import SignalFxTracing.Il.RewriterWrapper
import Mathlib.Data.List.TakeWhile
import Mathlib.Data.Set.Monotone

/-!
# Import and export of a body

Export gives a body with the program of the imported one at new offsets. Nodes
that have been inserted in between stand among its instructions.
-/

namespace SignalFxTracing.Il

open Lib Lib.MapOption

section Links

variable {il il' : List ILInstr} {ref : InstrRef}

theorem nextRef_congr (h : il'.map ILInstr.ref = il.map ILInstr.ref) :
    nextRef il' ref = nextRef il ref := by
  cases ref with
  | sentinel =>
      rw [nextRef, nextRef, ← List.head?_map, ← List.head?_map, h]
  | instr id =>
      induction il generalizing il' with
      | nil =>
          rw [List.map_nil, List.map_eq_nil_iff] at h
          rw [h]
      | cons x il ih =>
          obtain ⟨y, il', rfl, hy, hil'⟩ := List.map_eq_cons_iff.mp h
          have hid : y.id = x.id := InstrRef.instr.inj hy
          by_cases hx : x.id = id
          · rw [nextRef_cons_of_id_eq hx, nextRef_cons_of_id_eq (hid.trans hx), firstRef, firstRef,
              ← List.head?_map, ← List.head?_map, hil']
          · rw [nextRef_cons_of_id_ne hx, nextRef_cons_of_id_ne (by rwa [hid]), ih hil']

/-- The node behind the previous one is the node itself. -/
theorem nextRef_prevRef (hnodup : (il.map ILInstr.ref).Nodup)
    (href : ref = .sentinel ∨ ∃ x ∈ il, ref = x.ref) : nextRef il (prevRef il ref) = ref := by
  have hbehind : ∀ before after : List ILInstr, il = before ++ after →
      nextRef il ((before.getLast?.map ILInstr.ref).getD .sentinel) = firstRef after := by
    intro before after hil
    obtain rfl | ⟨front, last, rfl⟩ := List.eq_nil_or_concat' before
    · rw [hil]
      rfl
    · rw [List.getLast?_concat, Option.map_some, Option.getD_some, hil]
      rw [hil, List.append_assoc, List.map_append, List.nodup_append] at hnodup
      have hfront : ∀ x ∈ front, x.id ≠ last.id := by
        intro x hx heq
        refine hnodup.2.2 x.ref (List.mem_map_of_mem hx) last.ref (by simp) ?_
        exact congrArg InstrRef.instr heq
      have hdrop : ((front ++ [last]) ++ after).dropWhile (fun x => x.id ≠ last.id) =
          last :: after := by
        rw [List.append_assoc, List.dropWhile_append_of_pos (by simpa using hfront)]
        exact List.dropWhile_cons_of_neg (by simp)
      rw [ILInstr.ref, nextRef, hdrop]
      rfl
  cases ref with
  | sentinel => exact hbehind il [] (List.append_nil il).symm
  | instr id =>
      obtain ⟨x, hx, heq⟩ := href.resolve_left (fun h => by cases h)
      obtain rfl : id = x.id := InstrRef.instr.inj heq
      have hne : il.dropWhile (fun y => y.id ≠ x.id) ≠ [] := by
        rw [Ne, List.dropWhile_eq_nil_iff]
        intro hall
        exact absurd rfl (of_decide_eq_true (hall x hx))
      have hhead := List.head_dropWhile_not (fun y : ILInstr => decide (y.id ≠ x.id)) hne
      rw [prevRef, hbehind _ _ List.takeWhile_append_dropWhile.symm, firstRef,
        List.head?_eq_some_head hne, Option.map_some, Option.getD_some, ILInstr.ref]
      simpa using hhead

end Links

section Offsets

variable {φ : Nat → Nat}

/-- A map that keeps the order of a list is monotone on it. -/
theorem strictMonoOn_of_pairwise {l : List Nat} (hl : l.Pairwise (· < ·))
    (hmap : (l.map φ).Pairwise (· < ·)) : StrictMonoOn φ {a | a ∈ l} := by
  have hboth : l.Pairwise fun a b => (a < b → φ a < φ b) ∧ (b < a → φ b < φ a) := by
    refine (hl.and (List.pairwise_map.mp hmap)).imp ?_
    rintro a b ⟨hlt, hφ⟩
    exact ⟨fun _ => hφ, fun hgt => absurd hgt (Nat.lt_asymm hlt)⟩
  intro a ha b hb hab
  induction l with
  | nil => cases ha
  | cons x l ih =>
      rw [List.pairwise_cons] at hl hboth
      rw [List.map_cons, List.pairwise_cons] at hmap
      rcases List.mem_cons.mp ha with rfl | ha
      · rcases List.mem_cons.mp hb with rfl | hb
        · exact absurd hab (Nat.lt_irrefl _)
        · exact (hboth.1 b hb).1 hab
      · rcases List.mem_cons.mp hb with rfl | hb
        · exact (hboth.1 a ‹_›).2 hab
        · exact ih hl.2 hmap.2 hboth.2 ha hb

end Offsets

namespace Encoder

variable (e : Encoder)

/-- The offset that a place of the imported body has been given. -/
def relocation (table : OffsetToInstr) (offset : Nat) : Nat :=
  (e.offsetOf ((table.get offset).getD .sentinel)).toNat

/-- The instructions of the list, with their offsets. -/
def program : List (Nat × Instruction) := programOf (fun ref => (e.offsetOf ref).toNat) e.il

variable {e} {m : IlMethod} {il il₀ : List ILInstr} {table : OffsetToInstr}
  {P : List (Nat × Instruction)}

theorem relocation_of_get {offset : Nat} {ref : InstrRef} (h : table.get offset = some ref) :
    e.relocation table offset = (e.offsetOf ref).toNat := by
  rw [relocation, h]
  rfl

theorem Encoded.codeSize_toNat (h : e.Encoded) : e.codeSize.toNat = totalSize e.il := by
  have hplaced := h.placed
  rw [← List.append_nil e.il] at hplaced
  have hend := hplaced.of_append
  rw [Nat.zero_add] at hend
  exact hend

/-- The buffer decodes to the program of the list. -/
theorem Encoded.decode_code (h : e.Encoded) (htabled : Tabled 0 e.il)
    (hencodable : ∀ x ∈ e.il, x.Encodable)
    (htargets : ∀ x ∈ e.il, x.isBranch = true → x.target.isSome = true) :
    decode (e.out.slice 0 e.codeSize.toNat) = some e.program := by
  have hsize := h.codeSize_toNat
  have hlt := e.codeSize.toNat_lt
  have hdecode := @decodeFrom_codeBytes e.offsetOf e.il 0 0 h.placed h.fits htabled hencodable
    htargets (by omega)
  rw [decode, hsize, h.code]
  exact hdecode

/-- The imported instructions, where some branches have become long. -/
theorem relocated_program (himports : ImportsProgram m il table P) (hwidened : Widened il il₀) :
    List.Forall₂ (Relocated (e.relocation table)) P
      (programOf (fun ref => (e.offsetOf ref).toNat) il₀) := by
  rw [← himports.program]
  apply hwidened.relocated_programOf
  · intro x hx harg
    exact (relocation_of_get (himports.nodes x hx harg)).symm
  · intro x hx hbranch
    obtain ⟨ref, htarget, hget⟩ := himports.targets x hx hbranch
    rw [targetOf, targetOf, htarget, Option.getD_some, relocation_of_get hget]

theorem map_fst_of_relocated {φ : Nat → Nat} {P P' : List (Nat × Instruction)}
    (h : List.Forall₂ (Relocated φ) P P') :
    P'.map Prod.fst = P.map fun entry => φ entry.1 := by
  induction h with
  | nil => rfl
  | cons hentry _ ih => rw [List.map_cons, List.map_cons, hentry.offset, ih]

/-- The imported program is found in the code of a list that holds the imported nodes. -/
theorem Encoded.containsProgram {m' : IlMethod} (h : e.Encoded)
    (himports : ImportsProgram m il table P) (hwidened : Widened il il₀)
    (hinterleaved : Interleaved il₀ e.il) (htabled : Tabled 0 e.il)
    (hencodable : ∀ x ∈ e.il, x.Encodable)
    (htargets : ∀ x ∈ e.il, x.isBranch = true → x.target.isSome = true)
    (hcode : m'.code = e.out.slice 0 e.codeSize.toNat)
    (hclauses : List.Forall₂ (SameStarts (e.relocation table)) m.eh.clauses m'.eh.clauses) :
    ContainsProgram (e.relocation table) m m' P e.program := by
  have hdecode := h.decode_code htabled hencodable htargets
  rw [← hcode] at hdecode
  have hrelocated := relocated_program (e := e) himports hwidened
  have hmap := map_fst_of_relocated hrelocated
  have hsublist : (programOf (fun ref => (e.offsetOf ref).toNat) il₀).Sublist e.program :=
    hinterleaved.programOf_sublist (hwidened.tabled himports.tabled) htabled (Or.inl rfl)
  have hnew := (pairwise_decodeFrom hdecode).1
  have hold := (pairwise_decodeFrom himports.decodes).1
  rw [Nat.zero_add] at hnew hold
  have hend : e.relocation table m.code.length = m'.code.length := by
    rw [relocation_of_get himports.sentinel, hcode, Buffer.length_slice, codeSize]
  refine ⟨⟨himports.decodes, hdecode⟩, ?_, hend, ?_, hclauses⟩
  · have hmaps : ((P.map Prod.fst ++ [m.code.length]).map (e.relocation table)).Pairwise
        (· < ·) := by
      have heq : (P.map Prod.fst ++ [m.code.length]).map (e.relocation table) =
          (programOf (fun ref => (e.offsetOf ref).toNat) il₀).map Prod.fst ++
            [m'.code.length] := by
        rw [List.map_append, List.map_map, hmap, List.map_singleton, hend]
        rfl
      rw [heq]
      exact hnew.sublist ((hsublist.map Prod.fst).append (List.Sublist.refl _))
    apply StrictMonoOn.mono (strictMonoOn_of_pairwise hold hmaps)
    rintro offset (hmem | rfl)
    · exact List.mem_append_left _ hmem
    · exact List.mem_append_right _ (List.mem_singleton.mpr rfl)
  · have hnodup : (e.program.map Prod.fst).Nodup :=
      (List.pairwise_append.mp hnew).1.imp Nat.ne_of_lt
    have hfilter := filter_eq_of_sublist hsublist hnodup
    rw [hmap] at hfilter
    rw [hfilter]
    exact hrelocated

section Clauses

variable {c : FatClause} {clause : EHClause}

theorem sub_add_toNat (begin_ end_ : UInt32) : (begin_ + (end_ - begin_)).toNat = end_.toNat := by
  rw [UInt32.add_comm, UInt32.sub_add_cancel]

/-- A clause is exported with the places that it has been imported with. -/
theorem sameStarts_exportClause (h : importClause il table c = some clause) :
    SameStarts (e.relocation table) c (e.exportClause clause) := by
  simp only [importClause, bind, Option.bind_eq_some_iff, pure, Option.some.injEq] at h
  obtain ⟨tryBegin, htryBegin, tryEnd, htryEnd, handlerBegin, hhandlerBegin, _, -,
    classOrFilter, hfilter, rfl⟩ := h
  constructor
  case flags => rfl
  case tryBegin => exact (relocation_of_get htryBegin).symm
  case tryEnd =>
    rw [relocation_of_get htryEnd]
    exact sub_add_toNat _ _
  case handlerBegin => exact (relocation_of_get hhandlerBegin).symm
  case classToken =>
    intro hflags
    rw [importClassOrFilter, if_pos hflags] at hfilter
    obtain rfl := Option.some.inj hfilter
    rfl
  case filter =>
    intro hflags
    rw [importClassOrFilter, if_neg hflags] at hfilter
    obtain ⟨begin_, hget, rfl⟩ := Option.map_eq_some_iff.mp hfilter
    exact (relocation_of_get hget).symm

/-- The handler ends behind the same instruction when the nodes are the imported ones. -/
theorem sameRegions_exportClause (h : importClause il table c = some clause)
    (hrefs : e.il.map ILInstr.ref = il.map ILInstr.ref) (hnodup : (il.map ILInstr.ref).Nodup)
    (hplace : ∀ offset ref, table.get offset = some ref →
      ref = .sentinel ∨ ∃ x ∈ il, ref = x.ref) :
    SameRegions (e.relocation table) c (e.exportClause clause) := by
  refine ⟨sameStarts_exportClause h, ?_⟩
  simp only [importClause, bind, Option.bind_eq_some_iff, pure, Option.some.injEq] at h
  obtain ⟨tryBegin, -, tryEnd, -, handlerBegin, -, handlerNext, hnext, classOrFilter, -, rfl⟩ := h
  have hend : nextRef e.il (prevRef il handlerNext) = handlerNext := by
    rw [nextRef_congr hrefs]
    exact nextRef_prevRef hnodup (hplace _ _ hnext)
  rw [relocation_of_get hnext, exportClause]
  dsimp only
  rw [hend]
  exact sub_add_toNat _ _

end Clauses

end Encoder

/-- The nodes stand for whole instructions, whose branches go to nodes. -/
structure WholeInstructions (r : ILRewriter) : Prop where
  tabled : Tabled 0 r.il
  encodable : ∀ x ∈ r.il, x.Encodable
  targets : TargetsResolved r

section Export

variable {m : IlMethod} {r r' : ILRewriter}

/-- What the loop of `Export` leaves for a list of whole instructions. -/
structure EncodesWhole (r : ILRewriter) (e : Encoder) : Prop where
  encoded : e.Encoded
  widened : Widened r.il e.il
  tabled : Tabled 0 e.il
  encodable : ∀ x ∈ e.il, x.Encodable
  targets : ∀ x ∈ e.il, x.isBranch = true → x.target.isSome = true

theorem WholeInstructions.exists_encode (hwhole : WholeInstructions r) (h : Edited r)
    (hcount : 10 * r.nInstrs < 2 ^ 32) {start : Encoder} (hstart : r.Starts start) :
    ∃ e, Encoder.encode (shortBranches r.il + 1) start = some e ∧ EncodesWhole r e := by
  have hready := Encoder.ready_of_starts h.numberedApart hwhole.targets hcount hstart
  obtain ⟨e, hencode, hencoded, hwidened⟩ :=
    hready.exists_encode (by rw [hstart.1]; exact Nat.lt_succ_self _)
  have htargets := (hready.widened hwidened).targets
  rw [hstart.1] at hwidened
  exact ⟨e, hencode, hencoded, hwidened, hwidened.tabled hwhole.tabled,
    hwidened.encodable hwhole.encodable, htargets⟩

/-- Imported nodes stand for whole instructions. -/
theorem wholeInstructions_of_importMethod (h : importMethod m = some r) :
    ∃ table P, importIL m.code = some (r.il, table) ∧ ImportsProgram m r.il table P ∧
      m.eh.clauses.mapM (importClause r.il table) = some r.eh ∧ WholeInstructions r := by
  obtain ⟨il, table, eh, hil, heh, rfl⟩ := importMethod_eq_some_iff.mp h
  obtain ⟨P, himports⟩ := importsProgram_of_importIL hil
  refine ⟨table, P, hil, himports, heh, himports.tabled, himports.encodable, ?_⟩
  intro x hx hbranch
  obtain ⟨ref, htarget, hget⟩ := himports.targets x hx hbranch
  rcases get_of_importIL hil hget with rfl | ⟨y, hy, rfl⟩
  · exact Or.inl htarget
  · exact Or.inr ⟨y, hy, htarget⟩

/-- The clauses of the exported body, one for each of the imported body. -/
theorem forall₂_exportClause {R : FatClause → FatClause → Prop} {il : List ILInstr}
    {table : OffsetToInstr} {eh : List EHClause} {e : Encoder}
    (hclause : ∀ c clause, importClause il table c = some clause → R c (e.exportClause clause))
    (h : m.eh.clauses.mapM (importClause il table) = some eh) (hsection : m.eh.Fits)
    (heh : r.eh = eh) : List.Forall₂ R m.eh.clauses (r.exportBody e).eh.clauses := by
  have himported := mapM_eq_some_iff.mp h
  have hlength : 24 * (r.eh.map e.exportClause).length < 2 ^ 24 := by
    rw [List.length_map, heh, ← himported.length_eq]
    exact hsection.clauses_length
  have hclauses : (r.exportBody e).eh.clauses = r.eh.map e.exportClause :=
    clauses_exportEH hlength
  rw [hclauses, List.forall₂_map_right_iff, heh]
  exact himported.imp hclause

/-- The imported program is found in the body that is exported behind insertions. -/
theorem EncodesWhole.containsProgram {table : OffsetToInstr} {P : List (Nat × Instruction)}
    {e : Encoder} (he : EncodesWhole r' e) (himports : ImportsProgram m r.il table P)
    (heh : m.eh.clauses.mapM (importClause r.il table) = some r.eh) (hsection : m.eh.Fits)
    (hinserted : InsertedInto r r') :
    ContainsProgram (e.relocation table) m (r'.exportBody e) P e.program := by
  obtain ⟨hinterleaved, hkept⟩ := hinserted.interleaved
  obtain ⟨il₀, hwidened, hinterleaved⟩ := hinterleaved.exists_widened he.widened
  exact he.encoded.containsProgram himports hwidened hinterleaved he.tabled he.encodable
    he.targets rfl
    (forall₂_exportClause (fun _ _ => Encoder.sameStarts_exportClause) heh hsection hkept)

/-- A body that is imported and exported has the same program, and with whole instructions
inserted before its nodes or after them, none of them in front of an entry of a table, the
program is still there. -/
theorem keepsProgram (h : importMethod m = some r) (hsection : m.eh.Fits) :
    (10 * r.nInstrs < 2 ^ 32 → ∀ start, r.Starts start →
      ∃ e, Encoder.encode (shortBranches r.il + 1) start = some e ∧
        ∃ φ P P', SameProgram φ m (r.exportBody e) P P') ∧
    ∀ r', InsertedInto r r' → WholeInstructions r' → 10 * r'.nInstrs < 2 ^ 32 →
      ∀ start, r'.Starts start →
        ∃ e, Encoder.encode (shortBranches r'.il + 1) start = some e ∧
          ∃ φ P P', ContainsProgram φ m (r'.exportBody e) P P' := by
  obtain ⟨table, P, hil, himports, heh, hwhole⟩ := wholeInstructions_of_importMethod h
  constructor
  · intro hcount start hstart
    obtain ⟨e, hencode, he⟩ := hwhole.exists_encode (.imported h) hcount hstart
    refine ⟨e, hencode, e.relocation table, P, e.program,
      he.containsProgram himports heh hsection .refl,
      Encoder.relocated_program himports he.widened, ?_⟩
    have hnodup := (Edited.imported h).numberedApart.nodup_ref
    apply forall₂_exportClause _ heh hsection rfl
    intro c clause hclause
    exact Encoder.sameRegions_exportClause hclause he.widened.map_ref hnodup
      fun _ _ hget => get_of_importIL hil hget
  · intro r' hinserted hwhole' hcount start hstart
    obtain ⟨e, hencode, he⟩ :=
      hwhole'.exists_encode (hinserted.edited (.imported h)) hcount hstart
    exact ⟨e, hencode, e.relocation table, P, e.program,
      he.containsProgram himports heh hsection hinserted⟩

/-- The first pass over a list, with nothing written. -/
def ILRewriter.firstPass (r : ILRewriter) : Encoder := ⟨r.il, fun _ => 0, ⟨fun _ => 0, 0⟩⟩

theorem wholeInstructions_branchNopReturn :
    WholeInstructions (branchAndReturnImported.insertNewAfter (.instr 0) CEE_NOP 0) := by
  have hil : (branchAndReturnImported.insertNewAfter (.instr 0) CEE_NOP 0).il =
      [⟨0, CEE_BR_S, 2, some (.instr 1)⟩, ⟨2, CEE_NOP, 0, none⟩, ⟨1, 0x2A, 0, none⟩] := rfl
  constructor
  · rw [hil]
    simp [Tabled, ILInstr.isSwitchArg, CEE_BR_S, CEE_NOP, CEE_SWITCH, CEE_SWITCH_ARG]
  · rw [hil]
    simp only [List.forall_mem_cons]
    exact ⟨Or.inr (by decide), Or.inr (by decide), Or.inr (by decide),
      fun x hx => absurd hx List.not_mem_nil⟩
  · rw [TargetsResolved, hil]
    simp only [List.forall_mem_cons]
    refine ⟨fun _ => Or.inr ⟨⟨1, 0x2A, 0, none⟩, by simp, rfl⟩, ?_, ?_,
      fun x hx => absurd hx List.not_mem_nil⟩
    · exact fun hbranch => absurd hbranch (by decide)
    · exact fun hbranch => absurd hbranch (by decide)

theorem keepsProgram_branchAndReturn :
    (∃ e, Encoder.encode 2 branchAndReturnImported.firstPass = some e ∧
      ∃ φ P P', SameProgram φ branchAndReturn (branchAndReturnImported.exportBody e) P P') ∧
    ∃ e, Encoder.encode 2
        (branchAndReturnImported.insertNewAfter (.instr 0) CEE_NOP 0).firstPass = some e ∧
      ∃ φ P P', ContainsProgram φ branchAndReturn
        ((branchAndReturnImported.insertNewAfter (.instr 0) CEE_NOP 0).exportBody e) P P' := by
  have hkeeps := keepsProgram importMethod_branchAndReturn trivial
  refine ⟨hkeeps.1 (by decide) _ ⟨rfl, rfl⟩, ?_⟩
  apply hkeeps.2 _ _ wholeInstructions_branchNopReturn (by decide) _ ⟨rfl, rfl⟩
  have hnew : InsertedInto branchAndReturnImported { branchAndReturnImported with nInstrs := 3 } :=
    .newILInstr .refl
  refine hnew.insertAfter (.instr 0) (by decide) (by decide) ?_
  intro y hy href
  rcases List.mem_cons.mp hy with rfl | hy
  · rfl
  · obtain rfl := List.mem_singleton.mp hy
    rfl

/-- `switch` with one entry, which goes to the `ret` behind it. -/
def switchAndReturn : IlMethod where
  header := .tiny
  code := [0x45, 0x01, 0x00, 0x00, 0x00, 0x00, 0x00, 0x00, 0x00, 0x2A]
  eh := .none
  code_lt := by decide

def switchAndReturnImported : ILRewriter where
  tkLocalVarSig := 0
  maxStack := 8
  flags := 0
  il := [⟨0, CEE_SWITCH, 1, none⟩, ⟨1, CEE_SWITCH_ARG, 9, some (.instr 2)⟩, ⟨2, 0x2A, 0, none⟩]
  eh := []
  nInstrs := 3

theorem decode_switchAndReturn : decode switchAndReturn.code =
    some [(0, ⟨CEE_SWITCH, .targets [9]⟩), (9, ⟨0x2A, .value 0⟩)] := by decide +kernel

theorem importMethod_switchAndReturn :
    importMethod switchAndReturn = some switchAndReturnImported := by
  rw [importMethod, importIL, decode_switchAndReturn]
  rfl

/-- With a `nop` behind the `switch` its entry goes out of the code. -/
theorem not_keepsProgram :
    ¬∀ (m : IlMethod) (r : ILRewriter) (place : InstrRef) (e : Encoder),
      importMethod m = some r →
      Encoder.encode (shortBranches (r.insertNewAfter place CEE_NOP 0).il + 1)
        (r.insertNewAfter place CEE_NOP 0).firstPass = some e →
      ∃ φ P P', ContainsProgram φ m ((r.insertNewAfter place CEE_NOP 0).exportBody e) P P' := by
  intro hall
  let r := switchAndReturnImported.insertNewAfter (.instr 0) CEE_NOP 0
  have hcode : (Encoder.encode (shortBranches r.il + 1) r.firstPass).map
      (fun e => decode (r.exportBody e).code) =
      some (some [(0, ⟨CEE_SWITCH, .targets [265]⟩), (9, ⟨CEE_NOP, .value 0⟩),
        (10, ⟨0x2A, .value 0⟩)]) := by decide +kernel
  obtain ⟨e, hencode, hdecode⟩ := Option.map_eq_some_iff.mp hcode
  obtain ⟨φ, P, P', hcontains⟩ := hall _ _ _ e importMethod_switchAndReturn hencode
  obtain ⟨hP, hP'⟩ := hcontains.decodes
  obtain rfl := Option.some.inj (decode_switchAndReturn.symm.trans hP)
  obtain rfl := Option.some.inj (hdecode.symm.trans hP')
  obtain ⟨first, rest, hfirst, hrest, heq⟩ := List.forall₂_cons_left_iff.mp hcontains.instructions
  obtain ⟨second, rest', hsecond, -, rfl⟩ := List.forall₂_cons_left_iff.mp hrest
  have hmem : first ∈ _ ∧ second ∈ _ :=
    ⟨(List.mem_filter.mp (heq ▸ List.mem_cons_self)).1,
      (List.mem_filter.mp (heq ▸ List.mem_cons_of_mem _ List.mem_cons_self)).1⟩
  have htarget : φ 9 = 265 := by
    have hoperand := hfirst.operand
    rcases List.mem_cons.mp hmem.1 with rfl | hmem
    · exact (List.cons.inj (Operand.targets.inj hoperand)).1.symm
    · rcases List.mem_cons.mp hmem with rfl | hmem
      · cases hoperand
      · obtain rfl := List.mem_singleton.mp hmem
        cases hoperand
  have hoffset : second.1 = 265 := hsecond.offset.trans htarget
  have hle : second.1 ≤ 10 := by
    rcases List.mem_cons.mp hmem.2 with rfl | hmem
    · decide
    · rcases List.mem_cons.mp hmem with rfl | hmem
      · decide
      · obtain rfl := List.mem_singleton.mp hmem
        decide
  omega

end Export

end SignalFxTracing.Il
