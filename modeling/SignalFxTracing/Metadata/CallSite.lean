import SignalFxTracing.Metadata.ReturnType
import SignalFxTracing.Metadata.SignatureReading
import SignalFxTracing.Metadata.TypeTree

/-!
# Types at a call site

The types of the target's signature are over the type parameters of its type
and of the target itself; the arguments for these are over those of the
caller. A call site is a token that the metadata describes.

## Implementation notes

Which tokens and signatures mean one type is left to the runtime. What is
used of it is that an emitted token means the type it was emitted for, and
that bytes which are no type have no meaning.
-/

namespace SignalFxTracing.Metadata

open Clr

/-- The types of return types and of type arguments. -/
abbrev SiteType := TypeTree TypeToken TypeVariable (Derives documented .shape)

namespace SiteType

section Instantiation

variable (typeArgs methodArgs : List SiteType)

mutual

/-- A type with the arguments for its variables in their places. -/
def instantiate : SiteType → SiteType
  | .basic b => .basic b
  | .named name => .named name
  | .var v =>
      ((if v.ofMethod then methodArgs else typeArgs)[v.index.val]?).getD (.var v)
  | .szArray t => .szArray (instantiate t)
  | .array t bounds => .array (instantiate t) bounds
  | .genericInst name arg args => .genericInst name (instantiate arg) (instantiateAll args)

def instantiateAll : List SiteType → List SiteType
  | [] => []
  | t :: ts => instantiate t :: instantiateAll ts

end

end Instantiation

mutual

/-- A native integer is in the type. -/
def hasNative : SiteType → Bool
  | .basic b => b.1 == ELEMENT_TYPE_I || b.1 == ELEMENT_TYPE_U
  | .named _ => false
  | .var _ => false
  | .szArray t => hasNative t
  | .array t _ => hasNative t
  | .genericInst _ arg args => hasNative arg || anyNative args

def anyNative : List SiteType → Bool
  | [] => false
  | t :: ts => hasNative t || anyNative ts

end

mutual

/-- The numbers of arguments in the type can be encoded. -/
def Encodable : SiteType → Prop
  | .basic _ => True
  | .named _ => True
  | .var _ => True
  | .szArray t => Encodable t
  | .array t _ => Encodable t
  | .genericInst _ arg args => args.length + 1 < 2 ^ 29 ∧ Encodable arg ∧ AllEncodable args

def AllEncodable : List SiteType → Prop
  | [] => True
  | t :: ts => Encodable t ∧ AllEncodable ts

end

/-- A value of the type is an object reference. -/
def isObject : SiteType → Bool
  | .basic b => b.1 == ELEMENT_TYPE_STRING || b.1 == ELEMENT_TYPE_OBJECT
  | .named name => !name.isValueType
  | .var _ => false
  | .szArray _ => true
  | .array _ _ => true
  | .genericInst name _ _ => !name.isValueType

def void : SiteType := .basic ⟨ELEMENT_TYPE_VOID, by decide⟩

/-- Nothing has to be unboxed for the type. -/
def NotUnboxed (t : SiteType) : Prop := t.isObject = true ∨ t = void

end SiteType

/-- What tokens and types mean to the runtime. -/
structure TypeMeaning (emit : MetadataEmit) where
  Meaning : Type
  ofType : SiteType → Meaning
  ofToken : MdToken → Meaning
  ofToken_named : ∀ name : TypeToken, name.isValueType = true →
    ofToken name.mdToken = ofType (.named name)
  ofToken_typeRef : ∀ (b : {b // b ∈ basicTypes}) name token, managedTypeName b = some name →
    mscorlibTypeRef emit name = some token → ofToken token = ofType (.basic b)
  ofToken_typeSpec : ∀ (t : SiteType) token,
    emit.getTokenFromTypeSpec t.encode = some token → ofToken token = ofType t
  ofToken_noTypeSpec : ∀ sig token, emit.getTokenFromTypeSpec sig = some token →
    (∀ t : SiteType, t.encode ≠ sig) → ∀ t, ofToken token ≠ ofType t

/-- The target of a call: its signature up to the return type, the parameters behind it, and the
type arguments. -/
structure CallSite where
  token : MdToken
  header : SigHeader
  ret : SiteType
  params : Signature
  typeArgs : List SiteType
  methodArgs : List SiteType

namespace CallSite

def signature (site : CallSite) : MethodSignature :=
  site.header.encode (site.ret.encode ++ site.params)

/-- The return type at the call site. -/
def returnType (site : CallSite) : SiteType :=
  site.ret.instantiate site.typeArgs site.methodArgs

/-- The type arguments in a specification. -/
def encodeArguments (args : List SiteType) : Signature :=
  compress args.length ++ TypeTree.encodeAll args

variable (metadata : MetadataImport)

/-- The parent of a method: a generic type with its arguments, or a type without arguments. -/
def DescribesParent (parent : MdToken) (typeArgs : List SiteType) : Prop :=
  typeArgs = [] ∨ ∃ name : TypeToken, metadata.getTypeSpecFromToken parent =
    some (ELEMENT_TYPE_GENERICINST :: (name.encode ++ encodeArguments typeArgs))

/-- A method of a type with arguments is a MemberRef. -/
def DescribesMember (token : MdToken) (typeArgs : List SiteType) : Prop :=
  (typeFromToken token = mdtMemberRef ∧ ∃ props, metadata.getMemberRefProps token = some props ∧
      DescribesParent metadata props.parent typeArgs) ∨
    (typeFromToken token = mdtMethodDef ∧ typeArgs = [])

/-- The token is that of a method without type parameters, or a MethodSpec of one with them. -/
def Describes (site : CallSite) : Prop :=
  (DescribesMember metadata site.token site.typeArgs ∧ site.header.typeParameters = 0 ∧
      site.methodArgs = []) ∨
    (typeFromToken site.token = mdtMethodSpec ∧ ∃ parent b,
      metadata.getMethodSpecProps site.token =
        some (parent, b :: encodeArguments site.methodArgs) ∧
      DescribesMember metadata parent site.typeArgs)

/-- The site of a call in valid code. -/
structure Valid (site : CallSite) : Prop where
  describes : site.Describes metadata
  /-- The type variables in the return type have arguments. -/
  ret : ∀ v, site.ret = .var v →
    v.index.val < (if v.ofMethod then site.methodArgs else site.typeArgs).length
  ret_encodable : site.ret.Encodable
  args_encodable : ∀ t ∈ site.typeArgs ++ site.methodArgs, t.Encodable
  typeArgs_length : site.typeArgs.length < 2 ^ 29
  methodArgs_length : site.methodArgs.length < 2 ^ 29

end CallSite

end SignalFxTracing.Metadata
