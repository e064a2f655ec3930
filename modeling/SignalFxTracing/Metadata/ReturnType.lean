import SignalFxTracing.Metadata.FunctionInfo
import SignalFxTracing.Metadata.WrapperRefs

/-!
# The type that a result is unboxed to (`ReturnTypeIsValueTypeOrGeneric`, `clr_helpers.cpp`)

A wrapper returns an object. When the caller expects a value, the result is
unboxed to the type behind a token that this function finds or emits.

## Implementation notes

The result is the token when the function returns true, and `none` when it
returns false. The emitting interfaces are parameters; `none` is a failure.
-/

namespace SignalFxTracing.Metadata

open Clr

/-- The methods of `IMetaDataEmit2` and `IMetaDataAssemblyEmit` that give tokens of types. -/
structure MetadataEmit where
  getTokenFromTypeSpec : Signature → Option MdToken
  defineAssemblyRef : AssemblyIdentity → Option MdToken
  defineTypeRefByName : (resolutionScope : MdToken) → Text → Option MdToken

/-- The assembly in `CreateAssemblyRefToMscorlib`. -/
def mscorlib : AssemblyIdentity where
  name := text "mscorlib"
  version := ⟨4, 0, 0, 0⟩
  locale := none
  publicKeyToken := [0xB7, 0x7A, 0x5C, 0x56, 0x19, 0x34, 0xE0, 0x89]

/-- The `managed_type_name` of an element type. -/
def managedTypeName (b : UInt8) : Option Text :=
  if b = ELEMENT_TYPE_VOID then text "System.Void"
  else if b = ELEMENT_TYPE_BOOLEAN then text "System.Boolean"
  else if b = ELEMENT_TYPE_CHAR then text "System.Char"
  else if b = ELEMENT_TYPE_I1 then text "System.SByte"
  else if b = ELEMENT_TYPE_U1 then text "System.Byte"
  else if b = ELEMENT_TYPE_I2 then text "System.Int16"
  else if b = ELEMENT_TYPE_U2 then text "System.UInt16"
  else if b = ELEMENT_TYPE_I4 then text "System.Int32"
  else if b = ELEMENT_TYPE_U4 then text "System.UInt32"
  else if b = ELEMENT_TYPE_I8 then text "System.Int64"
  else if b = ELEMENT_TYPE_U8 then text "System.UInt64"
  else if b = ELEMENT_TYPE_R4 then text "System.Single"
  else if b = ELEMENT_TYPE_R8 then text "System.Double"
  else if b = ELEMENT_TYPE_TYPEDBYREF then text "System.TypedReference"
  else if b = ELEMENT_TYPE_I then text "System.IntPtr"
  else if b = ELEMENT_TYPE_U then text "System.UIntPtr"
  else none

section Tokens

variable (emit : MetadataEmit)

/-- `CreateAssemblyRefToMscorlib`. -/
def createAssemblyRefToMscorlib : Option MdToken := emit.defineAssemblyRef mscorlib

/-- The reference to a type of mscorlib. -/
def mscorlibTypeRef (name : Text) : Option MdToken :=
  (createAssemblyRefToMscorlib emit).bind fun scope => emit.defineTypeRefByName scope name

/-- `ReturnTypeTokenforValueTypeElementType`. -/
def returnTypeTokenforValueTypeElementType (sig : Signature) : Option MdToken :=
  match sig with
  | [] => none
  | b :: rest =>
      if b = ELEMENT_TYPE_VALUETYPE then (corSigUncompressToken rest).map Prod.fst
      else (managedTypeName b).bind (mscorlibTypeRef emit)

/-- The cases of `GENERICINST`, for a return type and for a type argument. -/
def genericInstToken (sig : Signature) : Option MdToken :=
  if sig[1]? ≠ some ELEMENT_TYPE_VALUETYPE then none
  else (parseType sig).bind fun rest =>
    emit.getTokenFromTypeSpec (sig.take (sig.length - rest.length))

/-- The token of a type argument. -/
def argumentToken (sig : Signature) : Option MdToken :=
  match sig with
  | [] => none
  | b :: _ =>
      if b = ELEMENT_TYPE_MVAR ∨ b = ELEMENT_TYPE_VAR then emit.getTokenFromTypeSpec (sig.take 2)
      else if b = ELEMENT_TYPE_GENERICINST then genericInstToken emit sig
      else returnTypeTokenforValueTypeElementType emit sig

end Tokens

/-- The loop over the type arguments, `count` of which are left: the signature from the one with
the number `index` on. -/
def skipArguments : (count index : Nat) → Signature → Option Signature
  | 0, _, _ => none
  | _ + 1, 0, sig => some sig
  | count + 1, index + 1, sig => (parseType sig).bind (skipArguments count index)

section Specs

variable (metadata : MetadataImport)

/-- The signature of the MethodSpec or of the TypeSpec of the method's parent, from the number of
type arguments on. -/
def specArguments (token : MdToken) (genericCount : Nat) : Option Signature :=
  let behindType := fun sig : Signature =>
    (corSigUncompressToken (sig.drop 2)).map Prod.snd
  if typeFromToken token = mdtMemberRef then
    if 0 < genericCount then none
    else (metadata.getMemberRefProps token).bind fun props =>
      (metadata.getTypeSpecFromToken props.parent).bind behindType
  else if typeFromToken token = mdtMethodDef then
    if 0 < genericCount then none
    else (metadata.getMemberProps token).bind fun props =>
      (metadata.getTypeSpecFromToken props.parent).bind behindType
  else if typeFromToken token = mdtMethodSpec then
    (metadata.getMethodSpecProps token).map fun spec => spec.2.drop 1
  else none

/-- The type argument with the number `index`, and what is behind it. -/
def specArgument (token : MdToken) (genericCount index : Nat) : Option Signature :=
  (specArguments metadata token genericCount).bind fun sig =>
    (corSigUncompressData sig).bind fun (count, sig) => skipArguments count index sig

variable (emit : MetadataEmit)

/-- `ReturnTypeIsValueTypeOrGeneric`. -/
def returnTypeIsValueTypeOrGeneric (token : MdToken) (signature : MethodSignature) :
    Option MdToken :=
  let genericCount := signature.numberOfTypeArguments
  let sig := signature.data.drop (if genericCount = 0 then 2 else 3)
  match sig with
  | [] => none
  | b :: rest =>
      if b = ELEMENT_TYPE_VOID then none
      else if b = ELEMENT_TYPE_GENERICINST then genericInstToken emit sig
      else if b = ELEMENT_TYPE_VAR ∨ b = ELEMENT_TYPE_MVAR then
        (corSigUncompressData rest).bind fun (index, _) =>
          (specArgument metadata token genericCount index).bind (argumentToken emit)
      else returnTypeTokenforValueTypeElementType emit sig

end Specs

end SignalFxTracing.Metadata
