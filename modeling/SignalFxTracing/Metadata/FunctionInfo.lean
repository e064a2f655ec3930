import SignalFxTracing.Clr.Text
import SignalFxTracing.Lib.Follow
import SignalFxTracing.Metadata.Signature

/-!
# Types and methods behind tokens (`clr_helpers.cpp`)

The reading interface of the metadata is a parameter, and its rows may refer to
each other in any way. `GetTypeInfo`, `GetFunctionInfo` and the search for
enclosing types therefore need not end, and the search may read a token that a
failing call has left unset. In these cases there is no result.

## Implementation notes

What has not ended after as many calls as there are tokens never ends.
-/

namespace SignalFxTracing.Metadata

open Clr Lib.Follow

structure MemberProps where
  parent : MdToken
  name : Text
  signature : Signature

/-- The type token in a TypeSpec that `GetTypeInfo` goes on with. Bytes that encode no number are
read as 0. -/
def typeSpecTarget (sig : Signature) : Option MdToken :=
  if sig.length < 3 ∨ sig.headD 0 &&& ELEMENT_TYPE_GENERICINST = 0 then none
  else some (((corSigUncompressToken (sig.drop 2)).map Prod.fst).getD (decodeToken 0))

/-- The methods of `IMetaDataImport2`; `none` is a failure. -/
structure MetadataImport where
  getTypeDefProps : MdToken → Option Text
  getTypeRefProps : MdToken → Option Text
  getTypeSpecFromToken : MdToken → Option Signature
  getMemberRefProps : MdToken → Option MemberProps
  getMemberProps : MdToken → Option MemberProps
  getMethodSpecProps : MdToken → Option (MdToken × Signature)
  /-- The enclosing type. A failure leaves the variable for it unset. -/
  getNestedClassProps : MdToken → Option MdToken

/-- The invalid value has the number 0. -/
structure TypeInfo where
  id : MdToken := mdTokenNil
  name : Text := []
  deriving DecidableEq

structure FunctionInfo where
  id : MdToken := mdTokenNil
  name : Text := []
  type : TypeInfo := {}
  isGeneric : Bool := false
  signature : MethodSignature := ⟨[]⟩
  functionSpecSignature : MethodSignature := ⟨[]⟩
  methodDefId : MdToken := mdTokenNil

def FunctionInfo.isValid (info : FunctionInfo) : Bool := info.id != 0

/-- The number of tokens. -/
def tokenCount : Nat := 2 ^ 32

namespace MetadataImport

/-- Metadata in which nothing is found. -/
def empty : MetadataImport where
  getTypeDefProps _ := none
  getTypeRefProps _ := none
  getTypeSpecFromToken _ := none
  getMemberRefProps _ := none
  getMemberProps _ := none
  getMethodSpecProps _ := none
  getNestedClassProps _ := none

variable (metadata : MetadataImport)

/-- `GetTypeInfo`, if it ends within `fuel` calls. `hr` is never set for a ModuleRef. -/
def getTypeInfoAt : Nat → MdToken → Option TypeInfo
  | 0, _ => none
  | fuel + 1, token =>
      if typeFromToken token = mdtTypeDef then
        some ((metadata.getTypeDefProps token).elim {} fun name => ⟨token, name⟩)
      else if typeFromToken token = mdtTypeRef then
        some ((metadata.getTypeRefProps token).elim {} fun name => ⟨token, name⟩)
      else if typeFromToken token = mdtTypeSpec then
        ((metadata.getTypeSpecFromToken token).bind typeSpecTarget).elim (some {})
          (getTypeInfoAt fuel)
      else if typeFromToken token = mdtMemberRef then
        (metadata.getMemberRefProps token).elim (some {}) fun props =>
          getTypeInfoAt fuel props.parent
      else if typeFromToken token = mdtMethodDef then
        (metadata.getMemberProps token).elim (some {}) fun props =>
          getTypeInfoAt fuel props.parent
      else some {}

/-- `GetTypeInfo`. -/
def getTypeInfo (token : MdToken) : Option TypeInfo := metadata.getTypeInfoAt tokenCount token

/-- `GetFunctionInfo`, if it ends within `fuel` calls of itself. -/
def getFunctionInfoAt : Nat → MdToken → Option FunctionInfo
  | 0, _ => none
  | fuel + 1, token =>
      if typeFromToken token = mdtMemberRef then
        (metadata.getMemberRefProps token).elim (some {}) fun props =>
          (metadata.getTypeInfo props.parent).map fun type =>
            { id := token
              name := props.name
              type := type
              signature := ⟨props.signature⟩ }
      else if typeFromToken token = mdtMethodDef then
        (metadata.getMemberProps token).elim (some {}) fun props =>
          (metadata.getTypeInfo props.parent).map fun type =>
            { id := token
              name := props.name
              type := type
              signature := ⟨props.signature⟩ }
      else if typeFromToken token = mdtMethodSpec then
        (metadata.getMethodSpecProps token).elim (some {}) fun (parent, signature) =>
          (getFunctionInfoAt fuel parent).bind fun genericInfo =>
            (metadata.getTypeInfo parent).map fun type =>
              { id := token
                name := genericInfo.name
                type := type
                isGeneric := true
                signature := genericInfo.signature
                functionSpecSignature := ⟨signature⟩
                methodDefId := genericInfo.id }
      else some {}

/-- `GetFunctionInfo`. -/
def getFunctionInfo (token : MdToken) : Option FunctionInfo :=
  metadata.getFunctionInfoAt tokenCount token

/-- The search for enclosing types in `TryParseSignatureTypes`, over at most `fuel` of them. -/
def ongoingTypeNameAt : Nat → (token : MdToken) → (examined ongoing : Text) → Option Text
  | 0, _, _, _ => none
  | fuel + 1, token, examined, ongoing =>
      if text "." ⊆ examined then some ongoing
      else
        (metadata.getNestedClassProps token).bind fun parent =>
          if parent = mdTokenNil then some ongoing
          else
            (metadata.getTypeInfo parent).bind fun nesting =>
              ongoingTypeNameAt fuel nesting.id nesting.name
                (nesting.name ++ text "+" ++ ongoing)

/-- The name of a class or a value type, behind those of the types that enclose it. -/
def ongoingTypeName (token : MdToken) : Option Text :=
  (metadata.getTypeInfo token).bind fun typeData =>
    metadata.ongoingTypeNameAt tokenCount typeData.id typeData.name typeData.name

/-- What `GetTypeInfo` returns; the invalid type when it does not end. -/
def reportedType (token : MdToken) : TypeInfo := (metadata.getTypeInfo token).getD {}

/-- What `GetFunctionInfo` returns; the invalid method when it does not end. -/
def reportedFunction (token : MdToken) : FunctionInfo := (metadata.getFunctionInfo token).getD {}

/-- The name that the search finds; empty when it has no result. -/
def typeName (token : MdToken) : Text := (metadata.ongoingTypeName token).getD []

section References

theorem code_injective : Function.Injective UInt32.toFin := fun _ _ h => UInt32.toFin_inj.mp h

/-- The token with which `GetTypeInfo` goes on. -/
def next (token : MdToken) : Option MdToken :=
  if typeFromToken token = mdtTypeSpec then
    (metadata.getTypeSpecFromToken token).bind typeSpecTarget
  else if typeFromToken token = mdtMemberRef then
    (metadata.getMemberRefProps token).map MemberProps.parent
  else if typeFromToken token = mdtMethodDef then
    (metadata.getMemberProps token).map MemberProps.parent
  else none

/-- The type with the name of a TypeDef or a TypeRef; the invalid type for other tokens. -/
def named (token : MdToken) : TypeInfo :=
  if typeFromToken token = mdtTypeDef then
    (metadata.getTypeDefProps token).elim {} fun name => ⟨token, name⟩
  else if typeFromToken token = mdtTypeRef then
    (metadata.getTypeRefProps token).elim {} fun name => ⟨token, name⟩
  else {}

theorem named_of_other {token : MdToken} (hdef : typeFromToken token ≠ mdtTypeDef)
    (href : typeFromToken token ≠ mdtTypeRef) : metadata.named token = {} := by
  rw [named, if_neg hdef, if_neg href]

/-- `GetTypeInfo` names the token or goes on with another one. -/
theorem getTypeInfoAt_succ (fuel : Nat) (token : MdToken) :
    metadata.getTypeInfoAt (fuel + 1) token =
      (metadata.next token).elim (some (metadata.named token)) (metadata.getTypeInfoAt fuel) := by
  rw [getTypeInfoAt]
  by_cases hdef : typeFromToken token = mdtTypeDef
  · rw [next, named, hdef]
    rfl
  by_cases href : typeFromToken token = mdtTypeRef
  · rw [next, named, href]
    rfl
  rw [if_neg hdef, if_neg href, metadata.named_of_other hdef href, next]
  split_ifs
  · rfl
  · cases metadata.getMemberRefProps token with
    | none => rfl
    | some props => rfl
  · cases metadata.getMemberProps token with
    | none => rfl
    | some props => rfl
  · rfl

/-- `GetTypeInfo` follows the references and names the last token. -/
theorem getTypeInfoAt_eq_follow (fuel : Nat) (token : MdToken) :
    metadata.getTypeInfoAt fuel token = (follow metadata.next fuel token).map metadata.named := by
  induction fuel generalizing token with
  | zero => rfl
  | succ fuel ih =>
      rw [getTypeInfoAt_succ, follow]
      cases metadata.next token with
      | none => rfl
      | some target => exact ih target

/-- Where the references end, `GetTypeInfo` ends too, and nowhere else. -/
theorem getTypeInfo_eq_some_iff {token : MdToken} {type : TypeInfo} :
    metadata.getTypeInfo token = some type ↔
      ∃ last, EndsIn metadata.next token last ∧ metadata.named last = type := by
  rw [getTypeInfo, getTypeInfoAt_eq_follow, Option.map_eq_some_iff]
  simp only [tokenCount, endsIn_iff_follow code_injective]
  rfl

/-- No number of calls is more than `GetTypeInfo` makes. -/
theorem exists_getTypeInfoAt_iff {token : MdToken} {type : TypeInfo} :
    (∃ fuel, metadata.getTypeInfoAt fuel token = some type) ↔
      metadata.getTypeInfo token = some type := by
  rw [getTypeInfo_eq_some_iff]
  simp only [getTypeInfoAt_eq_follow, Option.map_eq_some_iff, endsIn_iff_exists_follow]
  constructor
  · rintro ⟨fuel, last, hlast, htype⟩
    exact ⟨last, ⟨fuel, hlast⟩, htype⟩
  · rintro ⟨last, ⟨fuel, hlast⟩, htype⟩
    exact ⟨fuel, last, hlast, htype⟩

/-- `GetTypeInfo` is called again for the token with which it goes on. -/
theorem getTypeInfo_of_next {token target : MdToken} (h : metadata.next token = some target) :
    metadata.getTypeInfo token = metadata.getTypeInfo target := by
  ext type
  rw [getTypeInfo_eq_some_iff, getTypeInfo_eq_some_iff]
  simp only [endsIn_iff_of_some h]

end References

section Ends

/-- No number of calls of itself is more than `GetFunctionInfo` makes. -/
theorem exists_getFunctionInfoAt_iff {token : MdToken} {info : FunctionInfo} :
    (∃ fuel, metadata.getFunctionInfoAt fuel token = some info) ↔
      metadata.getFunctionInfo token = some info := by
  let method (token : MdToken) : Option MdToken :=
    if typeFromToken token = mdtMethodSpec then
      (metadata.getMethodSpecProps token).map Prod.fst
    else none
  apply @exists_fuel_iff _ method _ _ _ id (fun _ => rfl) ?_ ?_ _ _ code_injective
  · intro token hnone k k'
    simp only [getFunctionInfoAt]
    split_ifs with _ _ hspec
    · rfl
    · rfl
    · cases hprops : metadata.getMethodSpecProps token with
      | none => rfl
      | some props => simp [method, hspec, hprops] at hnone
    · rfl
  · intro token parent hsome
    have hspec : typeFromToken token = mdtMethodSpec := by
      by_contra hother
      simp [method, hother] at hsome
    obtain ⟨props, hprops, rfl⟩ : ∃ props, metadata.getMethodSpecProps token = some props ∧
        props.1 = parent := by
      simpa [method, hspec] using hsome
    refine ⟨props.1, fun genericInfo => (metadata.getTypeInfo props.1).map fun type =>
      ⟨token, genericInfo.name, type, true, genericInfo.signature, ⟨props.2⟩, genericInfo.id⟩,
      rfl, fun k => ?_⟩
    rw [getFunctionInfoAt, hspec, if_neg (by decide), if_neg (by decide), if_pos rfl, hprops]
    rfl

theorem named_eq_empty_or (token : MdToken) :
    metadata.named token = {} ∨ (metadata.named token).id = token := by
  rw [named]
  split_ifs
  · cases metadata.getTypeDefProps token with
    | none => exact Or.inl rfl
    | some name => exact Or.inr rfl
  · cases metadata.getTypeRefProps token with
    | none => exact Or.inl rfl
    | some name => exact Or.inr rfl
  · exact Or.inl rfl

/-- The type with the number of a named type. -/
theorem named_id (token : MdToken) :
    metadata.named (metadata.named token).id = metadata.named token := by
  rcases metadata.named_eq_empty_or token with hempty | hid
  · rw [hempty]
    exact metadata.named_of_other (by decide) (by decide)
  · rw [hid]

theorem eq_named_of_getTypeInfo {token : MdToken} {type : TypeInfo}
    (h : metadata.getTypeInfo token = some type) : metadata.named type.id = type := by
  obtain ⟨last, -, rfl⟩ := metadata.getTypeInfo_eq_some_iff.mp h
  exact metadata.named_id last

/-- No number of enclosing types is more than the search asks for. -/
theorem exists_ongoingTypeNameAt_iff {token : MdToken} {ongoing name : Text} :
    (∃ fuel, metadata.ongoingTypeNameAt fuel token (metadata.named token).name ongoing =
        some name) ↔
      metadata.ongoingTypeNameAt tokenCount token (metadata.named token).name ongoing =
        some name := by
  let enclosing (token : MdToken) : Option MdToken :=
    if text "." ⊆ (metadata.named token).name then none
    else (metadata.getNestedClassProps token).bind fun parent =>
      if parent = mdTokenNil then none else (metadata.getTypeInfo parent).map TypeInfo.id
  let search (fuel : Nat) (s : MdToken × Text) : Option Text :=
    metadata.ongoingTypeNameAt fuel s.1 (metadata.named s.1).name s.2
  apply @exists_fuel_iff _ enclosing _ _ search Prod.fst (fun _ => rfl) ?_ ?_ _ _ code_injective
    (token, ongoing)
  · intro s hnone k k'
    simp only [search, ongoingTypeNameAt]
    split_ifs with hdot
    · rfl
    · cases hparent : metadata.getNestedClassProps s.1 with
      | none => rfl
      | some parent =>
          simp only [Option.bind_some]
          split_ifs with hnil
          · rfl
          · cases hnesting : metadata.getTypeInfo parent with
            | none => rfl
            | some nesting => simp [enclosing, hdot, hparent, hnil, hnesting] at hnone
  · intro s c hsome
    have hdot : ¬ text "." ⊆ (metadata.named s.1).name := by
      intro hdot
      simp [enclosing, hdot] at hsome
    simp only [enclosing, if_neg hdot, Option.bind_eq_some_iff] at hsome
    obtain ⟨parent, hparent, hid⟩ := hsome
    rw [Option.ite_none_left_eq_some] at hid
    obtain ⟨hnil, hid⟩ := hid
    obtain ⟨nesting, hnesting, rfl⟩ := Option.map_eq_some_iff.mp hid
    refine ⟨(nesting.id, nesting.name ++ text "+" ++ s.2), some, rfl, fun k => ?_⟩
    simp only [search, ongoingTypeNameAt, if_neg hdot, hparent, Option.bind_some, if_neg hnil,
      hnesting, metadata.eq_named_of_getTypeInfo hnesting, Option.bind_fun_some]

end Ends

end MetadataImport

end SignalFxTracing.Metadata
