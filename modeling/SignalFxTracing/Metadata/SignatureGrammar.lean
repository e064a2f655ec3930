import SignalFxTracing.Metadata.Signature
import Mathlib.Data.List.Basic

/-!
# The grammar of signatures (the formats documented in `sig_helpers.cpp`)

A grammar is given by its primitive types and by what may stand between
`FNPTR` and the number of parameters. The documented grammar and the grammar
that the parsers read differ in these two places only.

## Implementation notes

A number may be encoded in more bytes than it needs, and a sentinel may stand
before any parameter. The documented grammar forbids some of these encodings.
-/

namespace SignalFxTracing.Metadata

/-- The encodings of a number in one, two or four bytes. -/
inductive EncodesNumber : Nat → Signature → Prop
  | one {b : UInt8} (h : b.toNat < 0x80) : EncodesNumber b.toNat [b]
  | two {b c : UInt8} (h : 0x80 ≤ b.toNat) (h' : b.toNat < 0xC0) :
      EncodesNumber ((b.toNat - 0x80) * 2 ^ 8 + c.toNat) [b, c]
  | four {b c d e : UInt8} (h : 0xC0 ≤ b.toNat) (h' : b.toNat < 0xE0) :
      EncodesNumber
        ((b.toNat - 0xC0) * 2 ^ 24 + c.toNat * 2 ^ 16 + d.toNat * 2 ^ 8 + e.toNat) [b, c, d, e]

inductive Nonterminal
  | mods
  | type
  | types (n : Nat)
  | numbers (n : Nat)
  | shape
  /-- A return type or a parameter. -/
  | declared (isReturn : Bool)
  | params (n : Nat) (sentinelFound : Bool)
  | method

/-- The places in which two grammars of signatures may differ. -/
structure Grammar where
  isPrimitive : UInt8 → Prop
  /-- The bytes behind `FNPTR`, and the encoded number of parameters behind them. -/
  header : Signature → Signature → Prop

inductive Derives (g : Grammar) : Nonterminal → Signature → Prop
  | noMods : Derives g .mods []
  | mod {b : UInt8} {n : Nat} {token rest : Signature}
      (hb : b = ELEMENT_TYPE_CMOD_OPT ∨ b = ELEMENT_TYPE_CMOD_REQD)
      (htoken : EncodesNumber n token) (hrest : Derives g .mods rest) :
      Derives g .mods (b :: (token ++ rest))
  | primitive {b : UInt8} (hb : g.isPrimitive b) : Derives g .type [b]
  | defOrRef {b : UInt8} {n : Nat} {token : Signature}
      (hb : b = ELEMENT_TYPE_VALUETYPE ∨ b = ELEMENT_TYPE_CLASS)
      (htoken : EncodesNumber n token) : Derives g .type (b :: token)
  | ptr {mods type : Signature} (hmods : Derives g .mods mods) (htype : Derives g .type type) :
      Derives g .type (ELEMENT_TYPE_PTR :: (mods ++ type))
  | ptrVoid {mods : Signature} (hmods : Derives g .mods mods) :
      Derives g .type (ELEMENT_TYPE_PTR :: (mods ++ [ELEMENT_TYPE_VOID]))
  | fnPtr {method : Signature} (hmethod : Derives g .method method) :
      Derives g .type (ELEMENT_TYPE_FNPTR :: method)
  | array {type shape : Signature} (htype : Derives g .type type)
      (hshape : Derives g .shape shape) : Derives g .type (ELEMENT_TYPE_ARRAY :: (type ++ shape))
  | szArray {mods type : Signature} (hmods : Derives g .mods mods)
      (htype : Derives g .type type) : Derives g .type (ELEMENT_TYPE_SZARRAY :: (mods ++ type))
  | genericInst {b : UInt8} {n k : Nat} {token count types : Signature}
      (hb : b = ELEMENT_TYPE_VALUETYPE ∨ b = ELEMENT_TYPE_CLASS)
      (htoken : EncodesNumber k token) (hcount : EncodesNumber n count)
      (htypes : Derives g (.types n) types) :
      Derives g .type (ELEMENT_TYPE_GENERICINST :: b :: (token ++ (count ++ types)))
  | var {b : UInt8} {n : Nat} {number : Signature}
      (hb : b = ELEMENT_TYPE_VAR ∨ b = ELEMENT_TYPE_MVAR) (hnumber : EncodesNumber n number) :
      Derives g .type (b :: number)
  | noTypes : Derives g (.types 0) []
  | types {n : Nat} {type types : Signature} (htype : Derives g .type type)
      (htypes : Derives g (.types n) types) : Derives g (.types (n + 1)) (type ++ types)
  | noNumbers : Derives g (.numbers 0) []
  | numbers {n k : Nat} {number numbers : Signature} (hnumber : EncodesNumber k number)
      (hnumbers : Derives g (.numbers n) numbers) :
      Derives g (.numbers (n + 1)) (number ++ numbers)
  | shape {k n m : Nat} {rank numSizes sizes numLoBounds loBounds : Signature}
      (hrank : EncodesNumber k rank) (hnumSizes : EncodesNumber n numSizes)
      (hsizes : Derives g (.numbers n) sizes) (hnumLoBounds : EncodesNumber m numLoBounds)
      (hloBounds : Derives g (.numbers m) loBounds) :
      Derives g .shape (rank ++ (numSizes ++ (sizes ++ (numLoBounds ++ loBounds))))
  | typedByRef {isReturn : Bool} {mods : Signature} (hmods : Derives g .mods mods) :
      Derives g (.declared isReturn) (mods ++ [ELEMENT_TYPE_TYPEDBYREF])
  | void {mods : Signature} (hmods : Derives g .mods mods) :
      Derives g (.declared true) (mods ++ [ELEMENT_TYPE_VOID])
  | byValue {isReturn : Bool} {mods type : Signature} (hmods : Derives g .mods mods)
      (htype : Derives g .type type) : Derives g (.declared isReturn) (mods ++ type)
  | byRef {isReturn : Bool} {mods type : Signature} (hmods : Derives g .mods mods)
      (htype : Derives g .type type) :
      Derives g (.declared isReturn) (mods ++ ELEMENT_TYPE_BYREF :: type)
  | noParams {sentinelFound : Bool} : Derives g (.params 0 sentinelFound) []
  | params {n : Nat} {sentinelFound : Bool} {param params : Signature}
      (hparam : Derives g (.declared false) param)
      (hparams : Derives g (.params n sentinelFound) params) :
      Derives g (.params (n + 1) sentinelFound) (param ++ params)
  | sentinel {n : Nat} {param params : Signature} (hparam : Derives g (.declared false) param)
      (hparams : Derives g (.params n true) params) :
      Derives g (.params (n + 1) false) (ELEMENT_TYPE_SENTINEL :: (param ++ params))
  | method {n : Nat} {header count ret params : Signature} (hheader : g.header header count)
      (hcount : EncodesNumber n count) (hret : Derives g (.declared true) ret)
      (hparams : Derives g (.params n false) params) :
      Derives g .method (header ++ (count ++ (ret ++ params)))

/-- The primitive types in the comment of `ParseType`. -/
def documentedPrimitives : List UInt8 :=
  [ELEMENT_TYPE_BOOLEAN, ELEMENT_TYPE_CHAR, ELEMENT_TYPE_I1, ELEMENT_TYPE_U1, ELEMENT_TYPE_I2,
    ELEMENT_TYPE_U2, ELEMENT_TYPE_I4, ELEMENT_TYPE_U4, ELEMENT_TYPE_I8, ELEMENT_TYPE_U8,
    ELEMENT_TYPE_R4, ELEMENT_TYPE_R8, ELEMENT_TYPE_I, ELEMENT_TYPE_U, ELEMENT_TYPE_STRING,
    ELEMENT_TYPE_OBJECT]

/-- `DEFAULT`, `VARARG` and `GENERIC`, alone, with `HASTHIS`, and with `EXPLICITTHIS` too. -/
def methodCallConvs : List UInt8 := [0x00, 0x05, 0x10, 0x20, 0x25, 0x30, 0x60, 0x65, 0x70]

/-- The grammar in the comments of `ParseType` and `ParseMethod`. -/
def documented : Grammar where
  isPrimitive b := b ∈ documentedPrimitives
  header header _ := ∃ convention ∈ methodCallConvs,
    if convention &&& callConvGeneric = 0 then header = [convention]
    else ∃ n count, EncodesNumber n count ∧ header = convention :: count

/-- The grammar that the parsers read: the native integers are missing, `VOID`
is a type, and no calling convention but `GENERIC` is read. -/
def implemented : Grammar where
  isPrimitive b := b ∈ primitiveTypes
  header header count :=
    (∃ n generic, EncodesNumber n generic ∧ header = callConvGeneric :: generic) ∨
      (header = [] ∧ count.head? ≠ some callConvGeneric)

section Numbers

theorem forall_byte {p : UInt8 → Prop} (h : ∀ n < 256, p (UInt8.ofNat n)) (b : UInt8) : p b := by
  have hb := h b.toNat b.toNat_lt
  rwa [UInt8.ofNat_toNat] at hb

theorem and_0x80_eq_zero_iff : ∀ b : UInt8, b &&& 0x80 = 0 ↔ b.toNat < 0x80 :=
  forall_byte (by decide +kernel)

theorem and_0xC0_eq_iff :
    ∀ b : UInt8, b &&& 0xC0 = 0x80 ↔ 0x80 ≤ b.toNat ∧ b.toNat < 0xC0 :=
  forall_byte (by decide +kernel)

theorem and_0xE0_eq_iff :
    ∀ b : UInt8, b &&& 0xE0 = 0xC0 ↔ 0xC0 ≤ b.toNat ∧ b.toNat < 0xE0 :=
  forall_byte (by decide +kernel)

theorem toNat_and_0x3F :
    ∀ b : UInt8, 0x80 ≤ b.toNat ∧ b.toNat < 0xC0 → (b &&& 0x3F).toNat = b.toNat - 0x80 :=
  forall_byte (by decide +kernel)

theorem toNat_and_0x1F :
    ∀ b : UInt8, 0xC0 ≤ b.toNat ∧ b.toNat < 0xE0 → (b &&& 0x1F).toNat = b.toNat - 0xC0 :=
  forall_byte (by decide +kernel)

/-- An encoded number is read back, whatever follows it. -/
theorem corSigUncompressData_append {n : Nat} {e : Signature} (h : EncodesNumber n e)
    (tail : Signature) : corSigUncompressData (e ++ tail) = some (n, tail) := by
  cases h with
  | @one b h =>
      have hsmall := (and_0x80_eq_zero_iff b).mpr h
      simp [corSigUncompressData, hsmall]
  | @two b c h h' =>
      have hsmall : ¬ b &&& 0x80 = 0 := fun hb => by
        have := (and_0x80_eq_zero_iff b).mp hb
        omega
      have hmedium := (and_0xC0_eq_iff b).mpr ⟨h, h'⟩
      simp [corSigUncompressData, bigData, hsmall, hmedium, toNat_and_0x3F b ⟨h, h'⟩]
  | @four b c d e h h' =>
      have hsmall : ¬ b &&& 0x80 = 0 := fun hb => by
        have := (and_0x80_eq_zero_iff b).mp hb
        omega
      have hmedium : ¬ b &&& 0xC0 = 0x80 := fun hb => by
        have := (and_0xC0_eq_iff b).mp hb
        omega
      have hlarge := (and_0xE0_eq_iff b).mpr ⟨h, h'⟩
      simp [corSigUncompressData, bigData, hsmall, hmedium, hlarge, toNat_and_0x1F b ⟨h, h'⟩]

/-- What is read as a number is the encoding of that number. -/
theorem encodesNumber_of_read {n : Nat} {sig rest : Signature}
    (h : corSigUncompressData sig = some (n, rest)) :
    ∃ e, sig = e ++ rest ∧ EncodesNumber n e := by
  cases sig with
  | nil => cases h
  | cons b sig =>
      simp only [corSigUncompressData] at h
      split at h
      next hsmall =>
        cases h
        exact ⟨[b], rfl, .one ((and_0x80_eq_zero_iff b).mp hsmall)⟩
      next hsmall =>
        split at h
        next hbig =>
          unfold bigData at h
          split at h
          next hmedium =>
            have hrange := (and_0xC0_eq_iff b).mp hmedium
            cases sig with
            | nil => cases h
            | cons c sig =>
                simp only [Option.some.injEq, Prod.mk.injEq] at h
                obtain ⟨rfl, rfl⟩ := h
                refine ⟨[b, c], rfl, ?_⟩
                rw [toNat_and_0x3F b hrange]
                exact .two hrange.1 hrange.2
          next hmedium =>
            have hlarge := (and_0xE0_eq_iff b).mp (hbig.resolve_left hmedium)
            rcases sig with _ | ⟨c, _ | ⟨d, _ | ⟨e, sig⟩⟩⟩
            · cases h
            · cases h
            · cases h
            · simp only [Option.some.injEq, Prod.mk.injEq] at h
              obtain ⟨rfl, rfl⟩ := h
              refine ⟨[b, c, d, e], rfl, ?_⟩
              rw [toNat_and_0x1F b hlarge]
              exact .four hlarge.1 hlarge.2
        next => cases h

end Numbers

end SignalFxTracing.Metadata
