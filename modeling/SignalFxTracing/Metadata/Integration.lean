import SignalFxTracing.Clr.Text
import SignalFxTracing.Metadata.Signature

/-!
# Method replacements (`integration.h`)

The description of a call that is to be replaced and of the wrapper that is
called in its place.
-/

namespace SignalFxTracing.Metadata

open Clr

/-- `PublicKey`: the token of an assembly's key. -/
abbrev PublicKey := Vector UInt8 8

structure Version where
  major : UInt16 := 0
  minor : UInt16 := 0
  build : UInt16 := 0
  revision : UInt16 := 0
  deriving DecidableEq, Repr

namespace Version

/-- A stream writes an `unsigned short` as a decimal number. -/
def part (n : UInt16) : Text := text (toString n.toNat)

/-- `str`. Elsewhere than on Windows the stream of `char16_t` has no facet for numbers: it fails at
the first one and writes nothing from there on. -/
def str (platform : Platform) (v : Version) : Text :=
  match platform with
  | .windows =>
      part v.major ++ text "." ++ part v.minor ++ text "." ++ part v.build ++ text "." ++
        part v.revision
  | .other => []

/-- `operator<`: the revision is left out. -/
def less (v w : Version) : Bool :=
  v.major < w.major || (v.major == w.major && v.minor < w.minor) ||
    (v.major == w.major && v.minor == w.minor && v.build < w.build)

/-- `operator>`: the revision is left out. -/
def greater (v w : Version) : Bool :=
  v.major > w.major || (v.major == w.major && v.minor > w.minor) ||
    (v.major == w.major && v.minor == w.minor && v.build > w.build)

/-- `Version(USHRT_MAX, USHRT_MAX, USHRT_MAX, USHRT_MAX)`. -/
def max : Version := ⟨0xFFFF, 0xFFFF, 0xFFFF, 0xFFFF⟩

end Version

structure AssemblyReference where
  name : Text
  version : Version := {}
  locale : Text := text "neutral"
  publicKey : PublicKey := Vector.replicate 8 0
  deriving DecidableEq

structure MethodReference where
  assembly : AssemblyReference
  typeName : Text
  methodName : Text
  action : Text := []
  methodSignature : Signature := []
  minVersion : Version := {}
  maxVersion : Version := Version.max
  signatureTypes : List Text := []
  deriving DecidableEq

namespace MethodReference

/-- `get_type_cache_key`. -/
def getTypeCacheKey (platform : Platform) (r : MethodReference) : Text :=
  text "[" ++ r.assembly.name ++ text "]" ++ r.typeName ++ text "_vMin_" ++
    r.minVersion.str platform ++ text "_vMax_" ++ r.maxVersion.str platform

/-- `get_method_cache_key`. -/
def getMethodCacheKey (platform : Platform) (r : MethodReference) : Text :=
  text "[" ++ r.assembly.name ++ text "]" ++ r.typeName ++ text "." ++ r.methodName ++
    text "_vMin_" ++ r.minVersion.str platform ++ text "_vMax_" ++ r.maxVersion.str platform

end MethodReference

structure MethodReplacement where
  callerMethod : MethodReference
  targetMethod : MethodReference
  wrapperMethod : MethodReference
  deriving DecidableEq

structure Integration where
  integrationName : Text
  methodReplacements : List MethodReplacement

structure IntegrationMethod where
  integrationName : Text
  replacement : MethodReplacement
  deriving DecidableEq

end SignalFxTracing.Metadata
