import SignalFxTracing.Lib.ExceptRules
import SignalFxTracing.Metadata.FunctionInfo

/-!
# The names of the types of a signature (`TryParseSignatureTypes`, `clr_helpers.cpp`)

One loop reads the signature from its return type on. The numbers of type
arguments that are still to come are on a stack, one for each generic type
that is open, and the suffixes of arrays wait for the next name.

## Implementation notes

The loop works on the bytes behind its index. A token that cannot be read has
the length `-1`, which moves the index behind the end. Where the search for the
name of a token has no result the function has none either.
-/

namespace SignalFxTracing.Metadata

open Clr

/-- The names that `TryParseSignatureTypes` gives the element types that stand for themselves. -/
def elementTypeName (b : UInt8) : Option Text :=
  if b = ELEMENT_TYPE_VOID then text "System.Void"
  else if b = ELEMENT_TYPE_BOOLEAN then text "System.Boolean"
  else if b = ELEMENT_TYPE_CHAR then text "System.Char16"
  else if b = ELEMENT_TYPE_I1 then text "System.SByte"
  else if b = ELEMENT_TYPE_U1 then text "System.Byte"
  else if b = ELEMENT_TYPE_I2 then text "System.Int16"
  else if b = ELEMENT_TYPE_U2 then text "System.UInt16"
  else if b = ELEMENT_TYPE_I4 then text "System.Int32"
  else if b = ELEMENT_TYPE_U4 then text "System.UInt32"
  else if b = ELEMENT_TYPE_I8 then text "System.Int64"
  else if b = ELEMENT_TYPE_U8 then text "System.UInt64"
  else if b = ELEMENT_TYPE_R4 then text "System.Single"
  else if b = ELEMENT_TYPE_R8 then text "System.Double"
  else if b = ELEMENT_TYPE_STRING then text "System.String"
  else if b = ELEMENT_TYPE_OBJECT then text "System.Object"
  else none

section Stoi

def isDigit (c : UInt16) : Bool := 0x30 ≤ c && c ≤ 0x39

/-- The digits at the start of a text, as a number. -/
def digitsValue (s : Text) : Option Nat :=
  let digits := s.takeWhile isDigit
  if digits = [] then none
  else some (digits.foldl (fun n c => 10 * n + (c.toNat - 0x30)) 0)

/-- `std::stoi`; `none` is an exception. -/
def stoi (s : Text) : Option Int :=
  let s := s.dropWhile isNumberWhite
  let (negative, s) :=
    match s with
    | c :: rest => if c = 0x2D then (true, rest) else if c = 0x2B then (false, rest) else (false, s)
    | [] => (false, s)
  (digitsValue s).bind fun n =>
    let value : Int := if negative then -n else n
    if -2 ^ 31 ≤ value ∧ value < 2 ^ 31 then some value else none

/-- The text behind the last tick, or all of it when there is none. -/
def behindTick (name : Text) : Text := (name.reverse.takeWhile (· ≠ 0x60)).reverse

/-- The number of type arguments that the name of a generic type tells. -/
def genericArity (name : Text) : Option Int := stoi (behindTick name)

end Stoi

/-- Why there are no names. -/
inductive ParseStop
  /-- The function returns false. -/
  | refused
  /-- The function does not return, or what it does is undefined. -/
  | stuck
  deriving DecidableEq

/-- A value that the loop needs. -/
def ParseStop.unless {α : Type} (stop : ParseStop) : Option α → Except ParseStop α
  | some a => .ok a
  | none => .error stop

/-- The variables of `TryParseSignatureTypes`. -/
structure TypeNamesState where
  /-- The elements of `type_names` that have been assigned. -/
  typeNames : List Text := []
  genericArgStack : List Int := []
  appendToType : Text := []
  currentTypeName : Text := []

namespace TypeNamesState

def appendName (s : TypeNamesState) (name : Text) : TypeNamesState :=
  { s with currentTypeName := s.currentTypeName ++ name }

def appendSuffix (s : TypeNamesState) (suffix : Text) : TypeNamesState :=
  { s with appendToType := s.appendToType ++ suffix }

end TypeNamesState

/-- The comma behind an argument that another one follows. -/
def argumentComma : List Int → Text
  | top :: _ => if 0 < top then text ", " else []
  | [] => []

/-- An argument of the innermost open generic type is there. -/
def decrementTop : List Int → List Int
  | top :: rest => (top - 1) :: rest
  | [] => []

/-- The loop that unwinds the generic types with no arguments left. -/
def unwindGenerics : Text → List Int → Text × List Int
  | name, [] => (name, [])
  | name, top :: rest =>
      if top = 0 then unwindGenerics (name ++ text ">" ++ argumentComma rest) rest
      else (name, top :: rest)

/-- The part of the loop's body behind the switch, with its early return of false. -/
def TypeNamesState.finishName (expected : Nat) (s : TypeNamesState) :
    Except ParseStop TypeNamesState :=
  let name := s.currentTypeName ++ s.appendToType
  let stack := decrementTop s.genericArgStack
  let (name, stack) := unwindGenerics (name ++ argumentComma stack) stack
  if stack ≠ [] then
    .ok { s with currentTypeName := name, appendToType := [], genericArgStack := stack }
  else if expected ≤ s.typeNames.length then .error .refused
  else .ok { typeNames := s.typeNames ++ [name] }

section Loop

variable (metadata : MetadataImport)

/-- The token of `RetrieveTypeForSignature` and the bytes behind it. -/
def retrieveToken (rest : Signature) : MdToken × Signature :=
  (corSigUncompressToken rest).getD (mdTokenNil, [])

/-- One round of the loop: the state and the bytes that are left. -/
def typeNamesStep (expected : Nat) (b : UInt8) (rest : Signature) (s : TypeNamesState) :
    Except ParseStop (TypeNamesState × Signature) :=
  match elementTypeName b with
  | some name => ((s.appendName name).finishName expected).map fun s => (s, rest)
  | none =>
      if b = ELEMENT_TYPE_VALUETYPE ∨ b = ELEMENT_TYPE_CLASS then
        let (token, rest) := retrieveToken rest
        (ParseStop.stuck.unless (metadata.ongoingTypeName token)).bind fun name =>
          ((s.appendName name).finishName expected).map fun s => (s, rest)
      else if b = ELEMENT_TYPE_SZARRAY then
        let more := (rest.takeWhile (· = ELEMENT_TYPE_SZARRAY)).length
        .ok (s.appendSuffix ((List.replicate (more + 1) (text "[]")).flatten), rest.drop more)
      else if b = ELEMENT_TYPE_MVAR ∨ b = ELEMENT_TYPE_VAR then
        -- the length is that of the element type itself, read as a token
        ((s.appendName (text "T")).finishName expected).map fun s => (s, rest.drop 1)
      else if b = ELEMENT_TYPE_GENERICINST then
        let (token, rest) := retrieveToken (rest.drop 1)
        (ParseStop.stuck.unless (metadata.getTypeInfo token)).bind fun typeData =>
          (ParseStop.refused.unless (genericArity typeData.name)).map fun arity =>
            ({ s.appendName (typeData.name ++ text "<") with
                genericArgStack := arity :: decrementTop s.genericArgStack },
              rest.drop 1)
      else if b = ELEMENT_TYPE_BYREF then
        ((s.appendName (text "ref")).finishName expected).map fun s => (s, rest)
      else if b = ELEMENT_TYPE_END then .ok (s, rest)
      else
        ((s.appendName (text (toString b.toNat))).finishName expected).map fun s => (s, rest)

/-- The loop; every round reads at least one byte. -/
def typeNamesLoop (expected : Nat) :
    Nat → Signature → TypeNamesState → Except ParseStop TypeNamesState
  | _, [], s => .ok s
  | 0, _ :: _, s => .ok s
  | fuel + 1, b :: rest, s =>
      (typeNamesStep metadata expected b rest s).bind fun (s, rest) =>
        typeNamesLoop expected fuel rest s

/-- `TryParseSignatureTypes`: the names when it returns true. -/
def tryParseSignatureTypes (signature : MethodSignature) : Except ParseStop (List Text) :=
  let start := if 0 < signature.numberOfTypeArguments then 3 else 2
  let expected := signature.numberOfArguments + 1
  let types := signature.data.drop start
  (typeNamesLoop metadata expected types.length types {}).map fun s =>
    s.typeNames ++ List.replicate (expected - s.typeNames.length) []

end Loop

end SignalFxTracing.Metadata
