import SignalFxTracing.Il.UneditedBytes
import Mathlib.Data.Nat.Bitwise

/-!
# The bytes of a method body (`ILRewriter::Export`, `corhlpr.cpp`)

`Export` allocates a block for the header, the code and the clauses and fills it.
`COR_ILMETHOD_DECODER` reads a block in the tiny or the fat format, with small or
fat clauses.

## Implementation notes

A block starts at an address that is a multiple of four. The bytes between the
code and the clauses are not written; they are a parameter. The bits of a byte
are taken by division.
-/

namespace SignalFxTracing.Il

open Lib Lib.LittleEndian

/-- `CorILMethod_Sect_EHTable`. -/
def corILMethodSectEHTable : Nat := 0x1

/-- `CorILMethod_Sect_FatFormat`. -/
def corILMethodSectFatFormat : Nat := 0x40

section Decoder

/-- `COR_ILMETHOD_SECT_EH_CLAUSE_FAT`. -/
def readFatClause (bytes : List UInt8) : Option (FatClause × List UInt8) := do
  let (flags, bytes) ← read 4 bytes
  let (tryOffset, bytes) ← read 4 bytes
  let (tryLength, bytes) ← read 4 bytes
  let (handlerOffset, bytes) ← read 4 bytes
  let (handlerLength, bytes) ← read 4 bytes
  let (classTokenOrFilterOffset, bytes) ← read 4 bytes
  return (⟨.ofNat flags, .ofNat tryOffset, .ofNat tryLength, .ofNat handlerOffset,
    .ofNat handlerLength, .ofNat classTokenOrFilterOffset⟩, bytes)

/-- `COR_ILMETHOD_SECT_EH_CLAUSE_SMALL`. -/
def readSmallClause (bytes : List UInt8) : Option (SmallClause × List UInt8) := do
  let (flags, bytes) ← read 2 bytes
  let (tryOffset, bytes) ← read 2 bytes
  let (tryLength, bytes) ← read 1 bytes
  let (handlerOffset, bytes) ← read 2 bytes
  let (handlerLength, bytes) ← read 1 bytes
  let (classTokenOrFilterOffset, bytes) ← read 4 bytes
  return (⟨.ofNat flags, .ofNat tryOffset, .ofNat tryLength, .ofNat handlerOffset,
    .ofNat handlerLength, .ofNat classTokenOrFilterOffset⟩, bytes)

/-- Successive clauses. -/
def readClauses {Clause : Type} (readClause : List UInt8 → Option (Clause × List UInt8)) :
    Nat → List UInt8 → Option (List Clause)
  | 0, _ => some []
  | n + 1, bytes => do
      let (clause, bytes) ← readClause bytes
      let clauses ← readClauses readClause n bytes
      return clause :: clauses

/-- The first section behind the code, if it has clauses, with `EHCount` of them. -/
def readEH (section_ : List UInt8) : Option EHSection := do
  let (kind, bytes) ← read 1 section_
  if kind % 0x40 ≠ corILMethodSectEHTable then return .none
  else if kind / 0x40 % 2 = 1 then do
    let (dataSize, bytes) ← read 3 bytes
    let clauses ← readClauses readFatClause (dataSize / 24) bytes
    return .fat clauses
  else do
    let (dataSize, bytes) ← read 1 bytes
    let (_, bytes) ← read 2 bytes
    let clauses ← readClauses readSmallClause (dataSize / 12) bytes
    return .small clauses

/-- The next multiple of four. -/
def alignDword (n : Nat) : Nat := (n + 3) / 4 * 4

/-- The code that starts at an offset in the block. -/
def readCode (block : List UInt8) (start : Nat) (codeSize : UInt32) : Option (List UInt8) :=
  let code := (block.drop start).take codeSize.toNat
  if code.length = codeSize.toNat then some code else none

/-- `GetSect`: the section behind the code, when there is one and `Size` is valid. -/
def readSect (block : List UInt8) (size more codeEnd : Nat) : Option EHSection :=
  if 3 ≤ size ∧ more = 1 then readEH (block.drop (alignDword codeEnd)) else some .none

/-- The fields of a fat header behind its first byte; `Size` is in its high bits. -/
def readFat (block bytes : List UInt8) (b : Nat) : Option IlMethod := do
  let (sizeAndFlags, bytes) ← read 1 bytes
  let (maxStack, bytes) ← read 2 bytes
  let (codeSize, bytes) ← read 4 bytes
  let (localVarSigTok, _) ← read 4 bytes
  let start := 4 * (sizeAndFlags / 16)
  let code ← readCode block start (.ofNat codeSize)
  let eh ← readSect block (sizeAndFlags / 16) (b / 8 % 2)
    (start + (UInt32.ofNat codeSize).toNat)
  if h : code.length < 2 ^ 32 then
    return {
      header := .fat (.ofNat (b + 256 * (sizeAndFlags % 16))) (.ofNat maxStack)
        (.ofNat localVarSigTok)
      code, eh, code_lt := h }
  else none

/-- `DecoderInit`. -/
def decodeBlock (block : List UInt8) : Option IlMethod := do
  let (b, bytes) ← read 1 block
  if b % 4 = 2 then do
    let code ← readCode block 1 (.ofNat (b / 4))
    if h : code.length < 2 ^ 32 then return { header := .tiny, code, eh := .none, code_lt := h }
    else none
  else if b % 8 = 3 then readFat block bytes b
  else none

end Decoder

section Writer

/-- `IMAGE_COR_ILMETHOD_SECT_EH_CLAUSE_FAT`. -/
def FatClause.bytes (c : FatClause) : List UInt8 :=
  toLE 4 c.flags.toNat ++ toLE 4 c.tryOffset.toNat ++ toLE 4 c.tryLength.toNat ++
    toLE 4 c.handlerOffset.toNat ++ toLE 4 c.handlerLength.toNat ++
      toLE 4 c.classTokenOrFilterOffset.toNat

/-- The section of the clauses: `Kind`, `DataSize` and the clauses. -/
def ehBytes (clauses : List FatClause) : List UInt8 :=
  if clauses = [] then []
  else
    toLE 1 (corILMethodSectEHTable + corILMethodSectFatFormat) ++
      toLE 3 (4 + 24 * clauses.length) ++ clauses.flatMap FatClause.bytes

/-- `alignedCodeSize`. -/
def alignedCodeSize (codeSize : UInt32) : UInt32 := (codeSize + 3) / 4 * 4

namespace ILRewriter

variable (r : ILRewriter) (e : Encoder)

/-- The fields `Flags` and `Size`, which share two bytes. -/
def flagsAndSize : Nat :=
  (r.flags ||| (if r.eh = [] then 0 else corILMethodMoreSects) ||| corILMethodFatFormat).toNat %
    0x1000 + 0x1000 * 3

/-- `totalSize` of a block with a fat header. -/
def fatTotalSize : UInt32 :=
  12 + alignedCodeSize e.codeSize +
    if r.eh = [] then 0 else 4 + 24 * UInt32.ofNat r.eh.length

/-- The block with a fat header; `padding` has not been written. -/
def fatBlock (padding : List UInt8) : List UInt8 :=
  toLE 2 r.flagsAndSize ++ toLE 2 r.exportedMaxStack.toNat ++ toLE 4 e.codeSize.toNat ++
    toLE 4 r.tkLocalVarSig.toNat ++ e.out.slice 0 e.codeSize.toNat ++ padding ++
      ehBytes (r.eh.map e.exportClause)

/-- The block with a tiny header, unless the code is too long for it. -/
def tinyBlock : Option (List UInt8) :=
  if 64 ≤ e.codeSize then none
  else some (toLE 1 (2 + 4 * e.codeSize.toNat) ++ e.out.slice 0 e.codeSize.toNat)

end ILRewriter

end Writer

section Clauses

variable {rest : List UInt8}

theorem ofNat_mod_toNat (v : UInt32) : UInt32.ofNat (v.toNat % 256 ^ 4) = v := by
  have hmod : v.toNat % 256 ^ 4 = v.toNat := Nat.mod_eq_of_lt v.toNat_lt
  rw [hmod, UInt32.ofNat_toNat]

theorem readFatClause_bytes (c : FatClause) :
    readFatClause (c.bytes ++ rest) = some (c, rest) := by
  simp only [FatClause.bytes, List.append_assoc, readFatClause, read_toLE, Option.bind_eq_bind,
    Option.bind_some, ofNat_mod_toNat]
  rfl

/-- As many clauses are read as are asked for. -/
theorem readClauses_bytes {n : Nat} {clauses : List FatClause} (h : n ≤ clauses.length) :
    readClauses readFatClause n (clauses.flatMap FatClause.bytes) = some (clauses.take n) := by
  induction n generalizing clauses with
  | zero => rfl
  | succ n ih =>
      cases clauses with
      | nil => cases h
      | cons c clauses =>
          rw [List.flatMap_cons, readClauses, readFatClause_bytes, Option.bind_eq_bind,
            Option.bind_some]
          dsimp only
          rw [ih (Nat.le_of_succ_le_succ h)]
          rfl

/-- The section is read as far as its size goes. -/
theorem readEH_ehBytes {clauses : List FatClause} (h : clauses ≠ []) :
    readEH (ehBytes clauses) = some (exportEH clauses) := by
  have hsize : (4 + 24 * clauses.length) % 256 ^ 3 = ehDataSize clauses.length := rfl
  have hcount : ehDataSize clauses.length / 24 ≤ clauses.length := by
    rw [ehDataSize]
    omega
  rw [ehBytes, if_neg h, exportEH, if_neg h, readEH, List.append_assoc, read_toLE,
    Option.bind_eq_bind, Option.bind_some]
  dsimp only
  rw [if_neg (by decide), if_pos (by decide), read_toLE, Option.bind_eq_bind, Option.bind_some]
  dsimp only
  rw [hsize, readClauses_bytes hcount]
  rfl

theorem length_bytes_clauses (clauses : List FatClause) :
    (clauses.flatMap FatClause.bytes).length = 24 * clauses.length := by
  induction clauses with
  | nil => rfl
  | cons c clauses ih =>
      have hc : c.bytes.length = 24 := by simp [FatClause.bytes]
      rw [List.flatMap_cons, List.length_append, hc, ih, List.length_cons]
      omega

theorem readClauses_length {Clause : Type}
    {readClause : List UInt8 → Option (Clause × List UInt8)} {n : Nat} {bytes : List UInt8}
    {clauses : List Clause} (h : readClauses readClause n bytes = some clauses) :
    clauses.length = n := by
  induction n generalizing bytes clauses with
  | zero =>
      cases h
      rfl
  | succ n ih =>
      simp only [readClauses, bind, Option.bind_eq_some_iff, pure, Option.some.injEq,
        Prod.exists] at h
      obtain ⟨c, after, -, others, hothers, rfl⟩ := h
      rw [List.length_cons, ih hothers]

/-- The size of a section has room for all clauses that are read. -/
theorem fits_of_readEH {section_ : List UInt8} {eh : EHSection} (h : readEH section_ = some eh) :
    eh.Fits := by
  simp only [readEH, bind, Option.bind_eq_some_iff, pure, Prod.exists] at h
  obtain ⟨kind, bytes, -, h⟩ := h
  split_ifs at h
  · cases h
    trivial
  · simp only [Option.bind_eq_some_iff, Option.some.injEq, Prod.exists] at h
    obtain ⟨dataSize, after, hread, clauses, hclauses, rfl⟩ := h
    have hlt := read_lt hread
    have hlength := readClauses_length hclauses
    rw [EHSection.Fits, hlength]
    omega
  · simp only [Option.bind_eq_some_iff, Option.some.injEq, Prod.exists] at h
    obtain ⟨dataSize, after, hread, reserved, after', -, clauses, hclauses, rfl⟩ := h
    have hlt := read_lt hread
    have hlength := readClauses_length hclauses
    rw [EHSection.Fits, hlength]
    omega

theorem fits_of_readFat {block bytes : List UInt8} {b : Nat} {m : IlMethod}
    (h : readFat block bytes b = some m) : m.eh.Fits := by
  simp only [readFat, bind, Option.bind_eq_some_iff, pure, Prod.exists] at h
  obtain ⟨size, _, -, maxStack, _, -, codeSize, _, -, tok, _, -, code, -, eh, heh, h⟩ := h
  have hfits : eh.Fits := by
    rw [readSect] at heh
    split at heh
    · exact fits_of_readEH heh
    · cases heh
      trivial
  split at h
  · cases h
    exact hfits
  · cases h

/-- A section that has been read from a block has room for its clauses. -/
theorem fits_of_decodeBlock {block : List UInt8} {m : IlMethod} (h : decodeBlock block = some m) :
    m.eh.Fits := by
  simp only [decodeBlock, bind, Option.bind_eq_some_iff, pure, Prod.exists] at h
  obtain ⟨b, bytes, -, h⟩ := h
  split at h
  · obtain ⟨code, -, h⟩ := Option.bind_eq_some_iff.mp h
    split at h
    · cases h
      trivial
    · cases h
  · split at h
    · exact fits_of_readFat h
    · cases h

end Clauses

section Blocks

variable {r : ILRewriter} {e : Encoder} {padding : List UInt8}

theorem readCode_append {front code rest : List UInt8} {start : Nat} {codeSize : UInt32}
    (hfront : front.length = start) (hcode : code.length = codeSize.toNat) :
    readCode (front ++ (code ++ rest)) start codeSize = some code := by
  have htake : ((front ++ (code ++ rest)).drop start).take codeSize.toNat = code := by
    rw [List.drop_left' hfront, List.take_left' hcode]
  rw [readCode, htake]
  exact if_pos hcode

/-- The padding ends at the next multiple of four. -/
theorem alignDword_of_padding {codeSize : UInt32} (hsize : codeSize.toNat + 3 < 2 ^ 32)
    (hpadding : padding.length = (alignedCodeSize codeSize - codeSize).toNat) :
    alignDword (12 + codeSize.toNat) = 12 + (codeSize.toNat + padding.length) := by
  have haligned : (alignedCodeSize codeSize).toNat = (codeSize.toNat + 3) / 4 * 4 := by
    rw [alignedCodeSize, UInt32.toNat_mul, UInt32.toNat_div, UInt32.toNat_add]
    simp only [UInt32.reduceToNat]
    omega
  rw [hpadding, UInt32.toNat_sub_of_le, haligned, alignDword]
  · omega
  · rw [UInt32.le_iff_toNat_le, haligned]
    omega

/-- The two bytes of the flags and the size. -/
theorem toLE_flagsAndSize (hflags : r.flags = 0 ∨ r.flags = corILMethodInitLocals) :
    ∃ low : Nat, toLE 2 r.flagsAndSize = toLE 1 low ++ toLE 1 0x30 ∧
      low < 256 ∧ low % 8 = 3 ∧ low / 8 % 2 = (if r.eh = [] then 0 else 1) ∧
      UInt16.ofNat low = (r.flags ||| (if r.eh = [] then 0 else corILMethodMoreSects) |||
        corILMethodFatFormat).toUInt16 := by
  by_cases hnil : r.eh = []
  · rcases hflags with hflags | hflags
    · exact ⟨0x3, by simp [ILRewriter.flagsAndSize, hnil, hflags]; decide⟩
    · exact ⟨0x13, by simp [ILRewriter.flagsAndSize, hnil, hflags]; decide⟩
  · rcases hflags with hflags | hflags
    · exact ⟨0xB, by simp [ILRewriter.flagsAndSize, hnil, hflags]; decide⟩
    · exact ⟨0x1B, by simp [ILRewriter.flagsAndSize, hnil, hflags]; decide⟩

/-- The block with a fat header is read as the exported body. -/
theorem decodeBlock_fatBlock (hflags : r.flags = 0 ∨ r.flags = corILMethodInitLocals)
    (hsize : e.codeSize.toNat + 3 < 2 ^ 32)
    (hpadding : padding.length = (alignedCodeSize e.codeSize - e.codeSize).toNat) :
    decodeBlock (r.fatBlock e padding) = some (r.exportBody e) := by
  obtain ⟨low, hlow, hlt, hfat, hmore, hheader⟩ := toLE_flagsAndSize hflags
  have hcodeLength : (e.out.slice 0 e.codeSize.toNat).length = e.codeSize.toNat :=
    Buffer.length_slice _ _ _
  have hblock : r.fatBlock e padding =
      (toLE 1 low ++ toLE 1 0x30 ++ toLE 2 r.exportedMaxStack.toNat ++ toLE 4 e.codeSize.toNat ++
        toLE 4 r.tkLocalVarSig.toNat) ++ (e.out.slice 0 e.codeSize.toNat ++
          (padding ++ ehBytes (r.eh.map e.exportClause))) := by
    simp only [ILRewriter.fatBlock, hlow, List.append_assoc]
  have hcode : readCode (r.fatBlock e padding) 12 e.codeSize =
      some (e.out.slice 0 e.codeSize.toNat) := by
    rw [hblock]
    exact readCode_append (by simp) hcodeLength
  have hdrop : (r.fatBlock e padding).drop (alignDword (12 + e.codeSize.toNat)) =
      ehBytes (r.eh.map e.exportClause) := by
    rw [hblock, alignDword_of_padding hsize hpadding, ← List.append_assoc, ← List.append_assoc]
    apply List.drop_left'
    simp
    omega
  have hsect : readSect (r.fatBlock e padding) 3 (low / 8 % 2) (12 + e.codeSize.toNat) =
      some (exportEH (r.eh.map e.exportClause)) := by
    rw [readSect, hmore, hdrop]
    by_cases hnil : r.eh = []
    · simp [hnil, exportEH]
    · rw [if_neg hnil, if_pos (by decide)]
      exact readEH_ehBytes (by simpa using hnil)
  have hfirst : read 1 (r.fatBlock e padding) = some (low, toLE 1 0x30 ++
      (toLE 2 r.exportedMaxStack.toNat ++ (toLE 4 e.codeSize.toNat ++
        (toLE 4 r.tkLocalVarSig.toNat ++ (e.out.slice 0 e.codeSize.toNat ++
          (padding ++ ehBytes (r.eh.map e.exportClause))))))) := by
    have hmod : low % 256 ^ 1 = low := Nat.mod_eq_of_lt hlt
    rw [hblock]
    simp only [List.append_assoc]
    rw [read_toLE, hmod]
  rw [decodeBlock, hfirst, Option.bind_eq_bind, Option.bind_some]
  dsimp only
  rw [if_neg (by omega), if_pos hfat, readFat]
  simp only [read_toLE, Option.bind_eq_bind, Option.bind_some, ofNat_mod_toNat]
  have hstart : 4 * (0x30 % 256 ^ 1 / 16) = 12 := rfl
  have hwords : 0x30 % 256 ^ 1 / 16 = 3 := rfl
  rw [hstart, hwords, hcode, Option.bind_some, hsect, Option.bind_some]
  have hlt : (e.out.slice 0 e.codeSize.toNat).length < 2 ^ 32 := by
    rw [hcodeLength]
    exact e.codeSize.toNat_lt
  have hflagsRead : UInt16.ofNat (low + 256 * (0x30 % 256 ^ 1 % 16)) =
      (r.flags ||| (if r.eh = [] then 0 else corILMethodMoreSects) |||
        corILMethodFatFormat).toUInt16 := hheader
  have hmaxStack : UInt16.ofNat (r.exportedMaxStack.toNat % 256 ^ 2) = r.exportedMaxStack := by
    have hmod : r.exportedMaxStack.toNat % 256 ^ 2 = r.exportedMaxStack.toNat :=
      Nat.mod_eq_of_lt r.exportedMaxStack.toNat_lt
    rw [hmod, UInt16.ofNat_toNat]
  rw [dif_pos hlt, hflagsRead, hmaxStack, ILRewriter.exportBody]
  rfl

/-- The allocated size is that of the block. -/
theorem fatTotalSize_eq
    (hpadding : padding.length = (alignedCodeSize e.codeSize - e.codeSize).toNat) :
    UInt32.ofNat (r.fatBlock e padding).length = r.fatTotalSize e := by
  have hcodeLength : (e.out.slice 0 e.codeSize.toNat).length = e.codeSize.toNat :=
    Buffer.length_slice _ _ _
  have hclauses : UInt32.ofNat (ehBytes (r.eh.map e.exportClause)).length =
      if r.eh = [] then 0 else 4 + 24 * UInt32.ofNat r.eh.length := by
    by_cases hnil : r.eh = []
    · simp [hnil, ehBytes]
    · have hmap : r.eh.map e.exportClause ≠ [] := by simpa using hnil
      rw [ehBytes, if_neg hmap, if_neg hnil]
      simp only [List.length_append, toLE_length, length_bytes_clauses, List.length_map,
        UInt32.ofNat_add, UInt32.ofNat_mul]
      rfl
  rw [ILRewriter.fatTotalSize, ← hclauses]
  simp only [ILRewriter.fatBlock, List.length_append, toLE_length, hcodeLength, hpadding,
    UInt32.ofNat_add, UInt32.ofNat_toNat]
  have htwelve : UInt32.ofNat 2 + UInt32.ofNat 2 + UInt32.ofNat 4 + UInt32.ofNat 4 = 12 := rfl
  rw [htwelve, UInt32.add_assoc 12, UInt32.add_comm e.codeSize, UInt32.sub_add_cancel]

end Blocks

section Rewritten

variable {block : List UInt8} {m : IlMethod} {r r' : ILRewriter}

theorem flags_of_importMethod (h : importMethod m = some r) :
    r.flags = m.getFlags &&& corILMethodInitLocals ∧ r.tkLocalVarSig = m.getLocalVarSigTok := by
  obtain ⟨table, il, eh, -, -, rfl⟩ := importMethod_eq_some_iff.mp h
  exact ⟨rfl, rfl⟩

theorem and_initLocals (flags : UInt32) :
    flags &&& corILMethodInitLocals = 0 ∨
      flags &&& corILMethodInitLocals = corILMethodInitLocals := by
  have hbit : flags.toNat &&& 16 = (flags.toNat.testBit 4).toNat * 16 :=
    Nat.and_two_pow flags.toNat 4
  simp only [← UInt32.toNat_inj, UInt32.toNat_and, corILMethodInitLocals, UInt32.reduceToNat]
  rw [hbit]
  cases flags.toNat.testBit 4
  · exact Or.inl rfl
  · exact Or.inr rfl

theorem InsertedInto.header (h : InsertedInto r r') :
    r'.flags = r.flags ∧ r'.tkLocalVarSig = r.tkLocalVarSig := by
  induction h with
  | refl => exact ⟨rfl, rfl⟩
  | newILInstr _ ih => exact ih
  | insertBefore place _ _ _ _ ih => exact ih
  | insertAfter place _ _ _ _ ih => exact ih

/-- The flag of the locals is that of the list. -/
theorem getFlags_exportBody {e : Encoder}
    (hflags : r.flags = 0 ∨ r.flags = corILMethodInitLocals) :
    (r.exportBody e).getFlags &&& corILMethodInitLocals = r.flags := by
  rw [IlMethod.getFlags, ILRewriter.exportBody]
  dsimp only
  by_cases hnil : r.eh = []
  · rcases hflags with hflags | hflags <;> rw [if_pos hnil, hflags] <;> rfl
  · rcases hflags with hflags | hflags <;> rw [if_neg hnil, hflags] <;> rfl

/-- A block that is read, rewritten by insertions and written again is read as a body with the
same locals, in which the program of the first one is found, whatever is in the padding. -/
theorem decodeBlock_rewritten (hblock : decodeBlock block = some m) (h : importMethod m = some r)
    (hinserted : InsertedInto r r') (hwhole : WholeInstructions r')
    (hcount : 10 * r'.nInstrs < 2 ^ 32) {start : Encoder} (hstart : r'.Starts start) :
    ∃ e, Encoder.encode (shortBranches r'.il + 1) start = some e ∧
      ∀ padding : List UInt8, padding.length = (alignedCodeSize e.codeSize - e.codeSize).toNat →
        UInt32.ofNat (r'.fatBlock e padding).length = r'.fatTotalSize e ∧
          ∃ m', decodeBlock (r'.fatBlock e padding) = some m' ∧
            m'.getLocalVarSigTok = m.getLocalVarSigTok ∧
            m'.getFlags &&& corILMethodInitLocals = m.getFlags &&& corILMethodInitLocals ∧
            ∃ φ P P', ContainsProgram φ m m' P P' := by
  obtain ⟨table, P, -, himports, heh, -⟩ := wholeInstructions_of_importMethod h
  have hedited := hinserted.edited (.imported h)
  obtain ⟨e, hencode, he⟩ := hwhole.exists_encode hedited hcount hstart
  obtain ⟨hflags, htok⟩ := flags_of_importMethod h
  obtain ⟨hflags', htok'⟩ := hinserted.header
  have hlocals : r'.flags = 0 ∨ r'.flags = corILMethodInitLocals := by
    rw [hflags', hflags]
    exact and_initLocals _
  have hsize : e.codeSize.toNat + 3 < 2 ^ 32 := by
    have hlength := hedited.numberedApart.length_le
    have htotal := totalSize_le e.il
    have heq := he.widened.length_eq
    rw [he.encoded.codeSize_toNat]
    omega
  refine ⟨e, hencode, fun padding hpadding => ⟨fatTotalSize_eq hpadding, r'.exportBody e,
    decodeBlock_fatBlock hlocals hsize hpadding, htok'.trans htok, ?_, e.relocation table, P,
    e.program, he.containsProgram himports heh (fits_of_decodeBlock hblock) hinserted⟩⟩
  rw [getFlags_exportBody hlocals, hflags', hflags]

/-- The `br.s` and the `ret` with a `nop` in between. -/
def branchNopReturn : ILRewriter := branchAndReturnImported.insertNewAfter (.instr 0) CEE_NOP 0

theorem insertedInto_branchNopReturn : InsertedInto branchAndReturnImported branchNopReturn := by
  have hnew : InsertedInto branchAndReturnImported { branchAndReturnImported with nInstrs := 3 } :=
    .newILInstr .refl
  apply hnew.insertAfter (.instr 0) (by decide) (by decide)
  intro y hy href
  rcases List.mem_cons.mp hy with rfl | hy
  · rfl
  · obtain rfl := List.mem_singleton.mp hy
    rfl

theorem decodeBlock_branchAndReturn :
    decodeBlock [0x0E, 0x2B, 0x00, 0x2A] = some branchAndReturn := by
  have hread : LittleEndian.read 1 [0x0E, 0x2B, 0x00, 0x2A] = some (0x0E, [0x2B, 0x00, 0x2A]) := rfl
  rw [decodeBlock, hread, Option.bind_eq_bind, Option.bind_some]
  rfl

theorem decodeBlock_rewritten_branchNopReturn :
    ∃ e, Encoder.encode 2 branchNopReturn.firstPass = some e ∧
      ∀ padding : List UInt8, padding.length = (alignedCodeSize e.codeSize - e.codeSize).toNat →
        UInt32.ofNat (branchNopReturn.fatBlock e padding).length =
            branchNopReturn.fatTotalSize e ∧
          ∃ m', decodeBlock (branchNopReturn.fatBlock e padding) = some m' ∧
            m'.getLocalVarSigTok = branchAndReturn.getLocalVarSigTok ∧
            m'.getFlags &&& corILMethodInitLocals =
              branchAndReturn.getFlags &&& corILMethodInitLocals ∧
            ∃ φ P P', ContainsProgram φ branchAndReturn m' P P' :=
  decodeBlock_rewritten decodeBlock_branchAndReturn importMethod_branchAndReturn
    insertedInto_branchNopReturn wholeInstructions_branchNopReturn (by decide) ⟨rfl, rfl⟩

end Rewritten

end SignalFxTracing.Il
