import SignalFxTracing.Lib.FirstError
import SignalFxTracing.Metadata.AssemblyReferences

/-!
# Loading integrations (`integration_loader.cpp`)

A file holds a JSON array of integrations. A field of the wrong type raises an
exception, which ends the loop over the array; the integrations before it are
kept.

## Implementation notes

The JSON library reads a number that is not negative and has no fraction as
unsigned. A cast keeps the low bits of an integer; what it makes of another
number is a parameter, as is the platform's way to read an assembly reference.
Names and texts are UTF-16; hexadecimal digits are the same in UTF-8.
-/

namespace SignalFxTracing.Metadata

open Clr

inductive Json
  | null
  | boolean (value : Bool)
  | unsigned (value : UInt64)
  | integer (value : Int64)
  | float (bits : UInt64)
  | string (value : Text)
  | array (elements : List Json)
  | object (members : List (Text × Json))

/-- The exceptions of the library: the type that a value should have had. -/
inductive TypeError
  | mustBeString
  | mustBeNumber
  | mustBeArray
  deriving DecidableEq

/-- `ToWSTRING`: a text ends at its first null character. -/
def toWSTRING (s : Text) : Text := s.takeWhile (· ≠ 0)

section Values

/-- `value(key, "")`. -/
def stringValue (members : List (Text × Json)) (key : Text) : Except TypeError Text :=
  match members.lookup key with
  | none => .ok []
  | some (.string s) => .ok s
  | some _ => .error .mustBeString

/-- `get<USHORT>()`. -/
def getUShort (castFloat : UInt64 → UInt16) : Json → Except TypeError UInt16
  | .unsigned n => .ok n.toUInt16
  | .integer n => .ok n.toUInt64.toUInt16
  | .float bits => .ok (castFloat bits)
  | .boolean b => .ok (if b then 1 else 0)
  | _ => .error .mustBeNumber

/-- A part of a version, which has a default. -/
def versionPart (castFloat : UInt64 → UInt16) (members : List (Text × Json)) (key : Text)
    (default : UInt16) : Except TypeError UInt16 :=
  match members.lookup key with
  | none => .ok default
  | some value => getUShort castFloat value

/-- `get<std::vector<std::string>>()`. -/
def getStrings : Json → Except TypeError (List Text)
  | .array elements => elements.mapM fun
      | .string s => .ok s
      | _ => .error .mustBeString
  | _ => .error .mustBeArray

/-- The texts of `signature_types`, if it is there. -/
def signatureTypesOf (members : List (Text × Json)) : Except TypeError (List Text) :=
  match members.lookup (text "signature_types") with
  | none => .ok []
  | some value => getStrings value

end Values

/-- The loop over the characters of a hexadecimal text: `flip` says that a digit is waiting. -/
def hexBytes : (flip : Bool) → (prev : UInt8) → Text → Signature
  | _, _, [] => []
  | flip, prev, c :: s =>
      match Lib.Hex.digitValue c with
      | none => hexBytes flip prev s
      | some b =>
          if flip then ((prev <<< 4) + UInt8.ofNat b) :: hexBytes false (UInt8.ofNat b) s
          else hexBytes true (UInt8.ofNat b) s

/-- The bytes of a signature, from an array of numbers or a hexadecimal text. -/
def signatureFromJson : Json → Signature
  | .array elements => elements.filterMap fun
      | .unsigned n => some n.toUInt8
      | _ => none
  | .string s => hexBytes false 0 s
  | _ => []

section Loader

variable (castFloat : UInt64 → UInt16) (parse : Text → AssemblyReference)

/-- `MethodReference()`. -/
def emptyReference : MethodReference where
  assembly := ⟨[], {}, [], Vector.replicate 8 0⟩
  typeName := []
  methodName := []

/-- The fields that exist in the target only: the versions and the types of the signature. -/
def targetFields (members : List (Text × Json)) :
    Except TypeError (Version × Version × List Text) := do
  let minMajor ← versionPart castFloat members (text "minimum_major") 0
  let minMinor ← versionPart castFloat members (text "minimum_minor") 0
  let minPatch ← versionPart castFloat members (text "minimum_patch") 0
  let maxMajor ← versionPart castFloat members (text "maximum_major") 0xFFFF
  let maxMinor ← versionPart castFloat members (text "maximum_minor") 0xFFFF
  let maxPatch ← versionPart castFloat members (text "maximum_patch") 0xFFFF
  let signatureTypes ← signatureTypesOf members
  pure (⟨minMajor, minMinor, minPatch, 0⟩, ⟨maxMajor, maxMinor, maxPatch, 0xFFFF⟩,
    signatureTypes.map toWSTRING)

/-- `MethodReferenceFromJson`. -/
def methodReferenceFromJson (src : Json) (isTargetMethod isWrapperMethod : Bool) :
    Except TypeError MethodReference :=
  match src with
  | .object members => do
      let assembly ← stringValue members (text "assembly")
      let type ← stringValue members (text "type")
      let method ← stringValue members (text "method")
      let rawSignature := (members.lookup (text "signature")).getD (.array [])
      let (minVersion, maxVersion, signatureTypes) ←
        (if isTargetMethod then targetFields castFloat members
        else pure (⟨0, 0, 0, 0⟩, ⟨0xFFFF, 0xFFFF, 0xFFFF, 0xFFFF⟩, []))
      let action ←
        (if !isTargetMethod && isWrapperMethod then stringValue members (text "action")
        else pure [])
      pure
        { assembly := parse (toWSTRING assembly)
          typeName := toWSTRING type
          methodName := toWSTRING method
          action := toWSTRING action
          methodSignature := signatureFromJson rawSignature
          minVersion := minVersion
          maxVersion := maxVersion
          signatureTypes := signatureTypes }
  | _ => pure emptyReference

/-- `MethodReplacementFromJson`; `none` when the second component is false. -/
def methodReplacementFromJson : Json → Except TypeError (Option MethodReplacement)
  | .object members => do
      let member := fun key => (members.lookup (text key)).getD (.object [])
      let caller ← methodReferenceFromJson castFloat parse (member "caller") false false
      let target ← methodReferenceFromJson castFloat parse (member "target") true false
      let wrapper ← methodReferenceFromJson castFloat parse (member "wrapper") false true
      pure (some ⟨caller, target, wrapper⟩)
  | _ => pure none

/-- The loop over `method_replacements`, if it is an array. -/
def replacementsFromJson (members : List (Text × Json)) :
    Except TypeError (List (Option MethodReplacement)) :=
  match (members.lookup (text "method_replacements")).getD (.array []) with
  | .array elements => elements.mapM (methodReplacementFromJson castFloat parse)
  | _ => .ok []

/-- `IntegrationFromJson`; `none` when the second component is false. -/
def integrationFromJson : Json → Except TypeError (Option Integration)
  | .object members => do
      let name ← stringValue members (text "name")
      if toWSTRING name = [] then pure none
      else
        let replacements ← replacementsFromJson castFloat parse members
        pure (some ⟨toWSTRING name, replacements.filterMap id⟩)
  | _ => pure none

/-- What a range loop over a value goes through. -/
def Json.elements : Json → List Json
  | .array elements => elements
  | .object members => members.map Prod.snd
  | .null => []
  | value => [value]

/-- `LoadIntegrationsFromStream`, for the value that the stream was parsed to, if it could be. -/
def loadIntegrationsFromStream (parsed : Option Json) : List Integration :=
  parsed.elim [] fun j =>
    Lib.FirstError.collect (integrationFromJson castFloat parse) j.elements

end Loader

end SignalFxTracing.Metadata
