import Mathlib.Data.Nat.Notation
import Mathlib.Algebra.GroupWithZero.Nat

/-!
# Signatures (`sig_helpers.cpp`, `integration.h`, with `cor.h`)

A parser takes the bytes from its position on and gives those behind what it
has read. Nothing is read behind the end of a signature: there a parser fails
and a test of the next byte is false.
-/

namespace SignalFxTracing.Metadata

abbrev MdToken := UInt32

abbrev Signature := List UInt8

section ElementTypes

def ELEMENT_TYPE_END : UInt8 := 0x00
def ELEMENT_TYPE_VOID : UInt8 := 0x01
def ELEMENT_TYPE_BOOLEAN : UInt8 := 0x02
def ELEMENT_TYPE_CHAR : UInt8 := 0x03
def ELEMENT_TYPE_I1 : UInt8 := 0x04
def ELEMENT_TYPE_U1 : UInt8 := 0x05
def ELEMENT_TYPE_I2 : UInt8 := 0x06
def ELEMENT_TYPE_U2 : UInt8 := 0x07
def ELEMENT_TYPE_I4 : UInt8 := 0x08
def ELEMENT_TYPE_U4 : UInt8 := 0x09
def ELEMENT_TYPE_I8 : UInt8 := 0x0A
def ELEMENT_TYPE_U8 : UInt8 := 0x0B
def ELEMENT_TYPE_R4 : UInt8 := 0x0C
def ELEMENT_TYPE_R8 : UInt8 := 0x0D
def ELEMENT_TYPE_STRING : UInt8 := 0x0E
def ELEMENT_TYPE_PTR : UInt8 := 0x0F
def ELEMENT_TYPE_BYREF : UInt8 := 0x10
def ELEMENT_TYPE_VALUETYPE : UInt8 := 0x11
def ELEMENT_TYPE_CLASS : UInt8 := 0x12
def ELEMENT_TYPE_VAR : UInt8 := 0x13
def ELEMENT_TYPE_ARRAY : UInt8 := 0x14
def ELEMENT_TYPE_GENERICINST : UInt8 := 0x15
def ELEMENT_TYPE_TYPEDBYREF : UInt8 := 0x16
def ELEMENT_TYPE_I : UInt8 := 0x18
def ELEMENT_TYPE_U : UInt8 := 0x19
def ELEMENT_TYPE_FNPTR : UInt8 := 0x1B
def ELEMENT_TYPE_OBJECT : UInt8 := 0x1C
def ELEMENT_TYPE_SZARRAY : UInt8 := 0x1D
def ELEMENT_TYPE_MVAR : UInt8 := 0x1E
def ELEMENT_TYPE_CMOD_REQD : UInt8 := 0x1F
def ELEMENT_TYPE_CMOD_OPT : UInt8 := 0x20
def ELEMENT_TYPE_SENTINEL : UInt8 := 0x41

end ElementTypes

/-- `IMAGE_CEE_CS_CALLCONV_GENERIC`. -/
def callConvGeneric : UInt8 := 0x10

/-- `IMAGE_CEE_CS_CALLCONV_HASTHIS`. -/
def callConvHasThis : UInt8 := 0x20

section Tokens

/-- `TypeFromToken`. -/
def typeFromToken (token : MdToken) : UInt32 := token &&& 0xFF000000

def mdtTypeRef : UInt32 := 0x01000000
def mdtTypeDef : UInt32 := 0x02000000
def mdtMethodDef : UInt32 := 0x06000000
def mdtMemberRef : UInt32 := 0x0A000000
def mdtModuleRef : UInt32 := 0x1A000000
def mdtTypeSpec : UInt32 := 0x1B000000
def mdtMethodSpec : UInt32 := 0x2B000000
def mdtBaseType : UInt32 := 0x72000000
def mdTokenNil : MdToken := 0

/-- The token that a compressed number encodes. -/
def decodeToken (v : Nat) : MdToken :=
  UInt32.ofNat (v / 4) |||
    match v % 4 with
    | 0 => mdtTypeDef
    | 1 => mdtTypeRef
    | 2 => mdtTypeSpec
    | _ => mdtBaseType

end Tokens

/-- The numbers of two and four bytes. -/
def bigData (b : UInt8) (rest : Signature) : Option (Nat × Signature) :=
  if b &&& 0xC0 = 0x80 then
    match rest with
    | c :: rest => some ((b &&& 0x3F).toNat * 2 ^ 8 + c.toNat, rest)
    | _ => none
  else
    match rest with
    | c :: d :: e :: rest =>
        some ((b &&& 0x1F).toNat * 2 ^ 24 + c.toNat * 2 ^ 16 + d.toNat * 2 ^ 8 + e.toNat, rest)
    | _ => none

/-- `CorSigUncompressData` with the number of bytes as its result. -/
def corSigUncompressData : Signature → Option (Nat × Signature)
  | [] => none
  | b :: rest =>
      if b &&& 0x80 = 0 then some (b.toNat, rest)
      else if b &&& 0xC0 = 0x80 ∨ b &&& 0xE0 = 0xC0 then bigData b rest
      else none

/-- `CorSigUncompressData` that moves its argument; it accepts every first byte. -/
def corSigUncompressDataAt : Signature → Option (Nat × Signature)
  | [] => none
  | b :: rest => if b &&& 0x80 = 0 then some (b.toNat, rest) else bigData b rest

/-- `CorSigUncompressToken` with the number of bytes as its result. -/
def corSigUncompressToken (sig : Signature) : Option (MdToken × Signature) :=
  (corSigUncompressData sig).map fun (v, rest) => (decodeToken v, rest)

/-- `CorSigUncompressToken` that moves its argument. -/
def corSigUncompressTokenAt (sig : Signature) : Option (MdToken × Signature) :=
  (corSigUncompressDataAt sig).map fun (v, rest) => (decodeToken v, rest)

section Parsers

abbrev Parser := Signature → Option Signature

/-- `ParseNumber`. -/
def parseNumber (sig : Signature) : Option (Nat × Signature) := corSigUncompressData sig

/-- `ParseTypeDefOrRefEncoded`. -/
def parseTypeDefOrRefEncoded : Parser := fun sig => (corSigUncompressToken sig).map Prod.snd

/-- `ParseOptionalCustomMods`; every round reads at least one byte. -/
def parseOptionalCustomMods : Nat → Parser
  | 0, sig => some sig
  | fuel + 1, sig =>
      match sig with
      | [] => some []
      | b :: rest =>
          if b = ELEMENT_TYPE_CMOD_OPT ∨ b = ELEMENT_TYPE_CMOD_REQD then
            (parseTypeDefOrRefEncoded rest).bind (parseOptionalCustomMods fuel)
          else some (b :: rest)

/-- A test of the next byte, which is read when it holds. -/
def skipByte (b : UInt8) (sig : Signature) : Option Signature :=
  match sig with
  | [] => none
  | c :: rest => if c = b then some rest else none

/-- The same parser `n` times. -/
def repeatParser (parser : Parser) : Nat → Parser
  | 0, sig => some sig
  | n + 1, sig => (parser sig).bind (repeatParser parser n)

/-- `ParseRetType`. -/
def parseRetType (parseType : Parser) : Parser := fun sig => do
  let sig ← parseOptionalCustomMods sig.length sig
  match (skipByte ELEMENT_TYPE_TYPEDBYREF sig).or (skipByte ELEMENT_TYPE_VOID sig) with
  | some rest => some rest
  | none => parseType ((skipByte ELEMENT_TYPE_BYREF sig).getD sig)

/-- `ParseParam`. -/
def parseParam (parseType : Parser) : Parser := fun sig => do
  let sig ← parseOptionalCustomMods sig.length sig
  match skipByte ELEMENT_TYPE_TYPEDBYREF sig with
  | some rest => some rest
  | none => parseType ((skipByte ELEMENT_TYPE_BYREF sig).getD sig)

/-- The parameters of `ParseMethod`, with at most one sentinel before one of them. -/
def parseParams (parseType : Parser) : Nat → Bool → Parser
  | 0, _, sig => some sig
  | n + 1, sentinelFound, sig =>
      match skipByte ELEMENT_TYPE_SENTINEL sig with
      | some rest =>
          if sentinelFound then none
          else (parseParam parseType rest).bind (parseParams parseType n true)
      | none => (parseParam parseType sig).bind (parseParams parseType n sentinelFound)

/-- `ParseMethod`. -/
def parseMethod (parseType : Parser) : Parser := fun sig => do
  let sig ←
    match skipByte callConvGeneric sig with
    | some rest => (parseNumber rest).map Prod.snd
    | none => some sig
  let (paramCount, sig) ← parseNumber sig
  let sig ← parseRetType parseType sig
  parseParams parseType paramCount false sig

/-- `ParseArrayShape`. -/
def parseArrayShape : Parser := fun sig => do
  let (_, sig) ← parseNumber sig
  let (numSizes, sig) ← parseNumber sig
  let sig ← repeatParser (fun sig => (parseNumber sig).map Prod.snd) numSizes sig
  let (numLoBounds, sig) ← parseNumber sig
  repeatParser (fun sig => (parseNumber sig).map Prod.snd) numLoBounds sig

/-- The element types that are a type by themselves in `ParseType`. -/
def primitiveTypes : List UInt8 :=
  [ELEMENT_TYPE_VOID, ELEMENT_TYPE_BOOLEAN, ELEMENT_TYPE_CHAR, ELEMENT_TYPE_I1, ELEMENT_TYPE_U1,
    ELEMENT_TYPE_I2, ELEMENT_TYPE_U2, ELEMENT_TYPE_I4, ELEMENT_TYPE_U4, ELEMENT_TYPE_I8,
    ELEMENT_TYPE_U8, ELEMENT_TYPE_R4, ELEMENT_TYPE_R8, ELEMENT_TYPE_STRING, ELEMENT_TYPE_OBJECT]

/-- `ParseType` of a type that is nested at most `fuel` deep. -/
def parseTypeAt : Nat → Parser
  | 0, _ => none
  | _ + 1, [] => none
  | fuel + 1, b :: sig =>
      if b ∈ primitiveTypes then some sig
      else if b = ELEMENT_TYPE_PTR then do
        let sig ← parseOptionalCustomMods sig.length sig
        match skipByte ELEMENT_TYPE_VOID sig with
        | some rest => some rest
        | none => parseTypeAt fuel sig
      else if b = ELEMENT_TYPE_VALUETYPE ∨ b = ELEMENT_TYPE_CLASS then
        parseTypeDefOrRefEncoded sig
      else if b = ELEMENT_TYPE_FNPTR then parseMethod (parseTypeAt fuel) sig
      else if b = ELEMENT_TYPE_ARRAY then (parseTypeAt fuel sig).bind parseArrayShape
      else if b = ELEMENT_TYPE_SZARRAY then
        (parseOptionalCustomMods sig.length sig).bind (parseTypeAt fuel)
      else if b = ELEMENT_TYPE_GENERICINST then do
        let sig ← (skipByte ELEMENT_TYPE_VALUETYPE sig).or (skipByte ELEMENT_TYPE_CLASS sig)
        let sig ← parseTypeDefOrRefEncoded sig
        let (number, sig) ← parseNumber sig
        repeatParser (parseTypeAt fuel) number sig
      else if b = ELEMENT_TYPE_VAR ∨ b = ELEMENT_TYPE_MVAR then
        (parseNumber sig).map Prod.snd
      else none

/-- `ParseType`. Every level of nesting reads a byte of its own. -/
def parseType : Parser := fun sig => parseTypeAt sig.length sig

end Parsers

structure MethodSignature where
  data : Signature
  deriving DecidableEq

namespace MethodSignature

variable (s : MethodSignature)

def callingConvention : UInt8 := s.data.headD 0

/-- The signature starts with the number of its type parameters. -/
def isGeneric : Bool := s.callingConvention &&& callConvGeneric != 0

def numberOfTypeArguments : Nat :=
  if 1 < s.data.length ∧ s.isGeneric then (s.data.getD 1 0).toNat else 0

def indexOfReturnType : Nat :=
  if 2 < s.data.length ∧ s.isGeneric then 3 else if 1 < s.data.length then 2 else 0

def numberOfArguments : Nat :=
  if 2 < s.data.length ∧ s.isGeneric then (s.data.getD 2 0).toNat
  else if 1 < s.data.length then (s.data.getD 1 0).toNat
  else 0

def returnTypeIsObject : Bool :=
  1 < s.data.length && s.data[s.indexOfReturnType]? == some ELEMENT_TYPE_OBJECT

def isInstanceMethod : Bool := s.callingConvention &&& callConvHasThis != 0

end MethodSignature

end SignalFxTracing.Metadata
