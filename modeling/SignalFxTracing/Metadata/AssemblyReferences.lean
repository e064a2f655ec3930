import SignalFxTracing.Lib.Captures
import SignalFxTracing.Metadata.Integration
import SignalFxTracing.Metadata.SignatureTypes

/-!
# The text of an assembly reference (`integration.cpp`, `integration.h`)

On Windows each part is searched for in the text. Elsewhere the pattern of the
part has to match the text as a whole.

## Implementation notes

The other platforms match the UTF-8 text, which ends at the first null
character. The patterns know characters below 0x80 only, so that it makes no
difference to match the code units. A number that does not fit its variable is
the greatest one to a stream; to RE2 the match fails there, and the variables
from it on keep their zeros.
-/

namespace SignalFxTracing.Metadata

open Clr Lib.Captures

section Patterns

def isAlphanumeric (c : UInt16) : Bool :=
  (0x61 ≤ c && c ≤ 0x7A) || (0x41 ≤ c && c ≤ 0x5A) || (0x30 ≤ c && c ≤ 0x39)

def isHexDigit (c : UInt16) : Bool := (Lib.Hex.digitValue c).isSome

/-- `Version=([0-9]+)\\.([0-9]+)\\.([0-9]+)\\.([0-9]+)`. -/
def versionPattern : List (Piece UInt16) :=
  [.word (text "Version="), .group 1 none isDigit, .word (text "."), .group 1 none isDigit,
    .word (text "."), .group 1 none isDigit, .word (text "."), .group 1 none isDigit]

/-- `Culture=([a-zA-Z0-9]+)`. -/
def culturePattern : List (Piece UInt16) :=
  [.word (text "Culture="), .group 1 none isAlphanumeric]

/-- `PublicKeyToken=([a-fA-F0-9]{16})`. -/
def keyPattern : List (Piece UInt16) :=
  [.word (text "PublicKeyToken="), .group 16 (some 16) isHexDigit]

end Patterns

/-- The number that digits denote. -/
def decimalValue (digits : Text) : Nat := digits.foldl (fun n c => 10 * n + (c.toNat - 0x30)) 0

/-- `GetNameFromAssemblyReferenceString`. -/
def getNameFromAssemblyReferenceString (str : Text) : Text :=
  let name := str.takeWhile (· ≠ 0x2C)
  -- all before the last space
  if 0x20 ∈ name then ((name.reverse.dropWhile (· ≠ 0x20)).drop 1).reverse else name

/-- The bytes of two digits each. -/
def publicKeyOfDigits (digits : Text) : PublicKey :=
  Vector.ofFn fun i =>
    UInt8.ofNat ((Lib.Hex.ofHex ((digits.drop (i * 2)).take 2)).getD 0)

namespace Windows

/-- A stream reads an `unsigned short`. -/
def readPart (digits : Text) : UInt16 := UInt16.ofNat (min (decimalValue digits) 0xFFFF)

/-- `GetVersionFromAssemblyReferenceString`. -/
def getVersionFromAssemblyReferenceString (str : Text) : Version :=
  match search versionPattern str with
  | some [major, minor, build, revision] =>
      ⟨readPart major, readPart minor, readPart build, readPart revision⟩
  | _ => {}

/-- `GetLocaleFromAssemblyReferenceString`. -/
def getLocaleFromAssemblyReferenceString (str : Text) : Text :=
  match search culturePattern str with
  | some [locale] => locale
  | _ => text "neutral"

/-- `GetPublicKeyFromAssemblyReferenceString`. -/
def getPublicKeyFromAssemblyReferenceString (str : Text) : PublicKey :=
  match search keyPattern str with
  | some [digits] => publicKeyOfDigits digits
  | _ => Vector.replicate 8 0

/-- `AssemblyReference(str)`. -/
def parse (str : Text) : AssemblyReference where
  name := getNameFromAssemblyReferenceString str
  version := getVersionFromAssemblyReferenceString str
  locale := getLocaleFromAssemblyReferenceString str
  publicKey := getPublicKeyFromAssemblyReferenceString str

end Windows

namespace Re2

/-- What `ToString` converts. -/
def beforeNull (str : Text) : Text := str.takeWhile (· ≠ 0)

/-- The variables of `FullMatch` behind the match: from the first number on that does not fit they
keep their zeros. -/
def readParts (groups : List Text) (index : Nat) : UInt16 :=
  UInt16.ofNat (((groups.map decimalValue).takeWhile (· < 2 ^ 16)).getD index 0)

/-- `GetVersionFromAssemblyReferenceString`. -/
def getVersionFromAssemblyReferenceString (str : Text) : Version :=
  match fullMatch versionPattern (beforeNull str) with
  | some groups => ⟨readParts groups 0, readParts groups 1, readParts groups 2, readParts groups 3⟩
  | none => {}

/-- `GetLocaleFromAssemblyReferenceString`. -/
def getLocaleFromAssemblyReferenceString (str : Text) : Text :=
  match fullMatch culturePattern (beforeNull str) with
  | some [locale] => locale
  | _ => text "neutral"

/-- `GetPublicKeyFromAssemblyReferenceString`. -/
def getPublicKeyFromAssemblyReferenceString (str : Text) : PublicKey :=
  match fullMatch keyPattern (beforeNull str) with
  | some [digits] => publicKeyOfDigits digits
  | _ => Vector.replicate 8 0

/-- `AssemblyReference(str)`. -/
def parse (str : Text) : AssemblyReference where
  name := getNameFromAssemblyReferenceString str
  version := getVersionFromAssemblyReferenceString str
  locale := getLocaleFromAssemblyReferenceString str
  publicKey := getPublicKeyFromAssemblyReferenceString str

end Re2

/-- `PublicKey::str`: the stream is one of `char`. -/
def PublicKey.str (key : PublicKey) : Text :=
  (key.toList.map fun b => Lib.Hex.toHex 2 b.toNat).flatten

/-- `AssemblyReference::str`. -/
def AssemblyReference.str (platform : Platform) (r : AssemblyReference) : Text :=
  r.name ++ text ", Version=" ++ r.version.str platform ++ text ", Culture=" ++ r.locale ++
    text ", PublicKeyToken=" ++ r.publicKey.str

end SignalFxTracing.Metadata
