import SignalFxTracing.Lib.ExceptRules
import SignalFxTracing.Metadata.IntegrationErrors
import SignalFxTracing.Metadata.TypeTree

/-!
# The signatures of wrapper methods (`GenerateIntegrationDefinitions.cs`, `integration.h`)

The tool that writes the definitions gives a signature as text, two digits a
byte. The loader reads it back, and readers at fixed offsets take the numbers
and the return type from the bytes.

## Implementation notes

The types of reflection and their encoding by `SignatureHelper` are parameters.
-/

namespace SignalFxTracing.Metadata

open Clr

section Generator

/-- `MethodReplacementActionType`. -/
inductive MethodReplacementActionType
  | replaceTargetMethod
  | insertFirst
  deriving DecidableEq

/-- The fields of the attribute that `GetMethodSignature` looks at. -/
structure InterceptMethodAttribute where
  methodReplacementAction : MethodReplacementActionType
  callerAssembly : Option Text
  callerType : Option Text
  callerMethod : Option Text

/-- A method as reflection describes it. -/
structure MethodInfo (T : Type) where
  hasThis : Bool
  varArgs : Bool
  /-- The number of its own type parameters. -/
  genericArguments : Nat
  returnType : T
  parameters : List T

/-- The types that the tool names. -/
structure TypeOf (T : Type) where
  int : T
  long : T
  void : T
  object : T

/-- The requirements of `GetMethodSignature` that a method may not meet. -/
inductive Requirement
  | lastParameters
  | callerDefined
  | zeroParameters
  | voidReturnType
  deriving DecidableEq

variable {T : Type} (typeOf : TypeOf T) (encode : T → Signature)

/-- The first byte that `SignatureHelper` writes. -/
def MethodInfo.convention (method : MethodInfo T) : UInt8 :=
  (if method.varArgs then 0x05 else 0x00) ||| (if method.hasThis then callConvHasThis else 0x00)

/-- `SignatureHelper.GetMethodSigHelper`, `AddArguments` and `GetSignature`. -/
def getSignature (method : MethodInfo T) : Signature :=
  method.convention ::
    (compress method.parameters.length ++
      (encode method.returnType ++ (method.parameters.map encode).flatten))

/-- The first byte says that the method is generic, the new second one how many type parameters
it has. -/
def insertGenericCount (genericArguments : Nat) : Signature → Signature
  | [] => []
  | b :: rest => (b ||| callConvGeneric) :: UInt8.ofNat genericArguments :: rest

/-- `signatureBytes`. -/
def signatureBytes (method : MethodInfo T) : Signature :=
  if method.genericArguments ≠ 0 then
    insertGenericCount method.genericArguments (getSignature encode method)
  else getSignature encode method

/-- An upper-case digit. -/
def digitX (n : Nat) : UInt16 := UInt16.ofNat (if n < 10 then 0x30 + n else 0x37 + n)

/-- `b.ToString("X2")`. -/
def toX2 (b : UInt8) : Text := [digitX (b.toNat / 16), digitX (b.toNat % 16)]

/-- The bytes joined by spaces. -/
def signatureText (bytes : Signature) : Text := (text " ").intercalate (bytes.map toX2)

variable [DecidableEq T]

/-- The requirements of a method that replaces another, or is inserted into one. -/
def requirements (intercept : InterceptMethodAttribute) (method : MethodInfo T) :
    Except Requirement Unit :=
  match intercept.methodReplacementAction with
  | .replaceTargetMethod =>
      if method.parameters.drop (method.parameters.length - 3) =
          [typeOf.int, typeOf.int, typeOf.long] then .ok ()
      else .error .lastParameters
  | .insertFirst =>
      if intercept.callerAssembly = none ∨ intercept.callerType = none ∨
          intercept.callerMethod = none then .error .callerDefined
      else if method.parameters ≠ [] then .error .zeroParameters
      else if method.returnType ≠ typeOf.void then .error .voidReturnType
      else .ok ()

/-- `GetMethodSignature`. -/
def getMethodSignature (intercept : InterceptMethodAttribute) (method : MethodInfo T) :
    Except Requirement Text := do
  requirements typeOf intercept method
  pure (signatureText (signatureBytes encode method))

end Generator

/-- `MethodSignature::str`. Elsewhere than on Windows the stream of `char16_t` has no facet for its
fill character: `std::setfill` raises `std::bad_cast` at the first byte. -/
def MethodSignature.str (platform : Platform) (s : MethodSignature) : Option Text :=
  match platform, s.data with
  | .windows, data => some (data.map fun b => Lib.Hex.toHex 2 b.toNat).flatten
  | .other, [] => some []
  | .other, _ :: _ => none

/-- A reference with this signature is loaded with these bytes, unless another of its fields has a
type that its reader does not know. -/
def LoadsAs (signature : Json) (bytes : Signature) : Prop :=
  ∀ castFloat parse members isTargetMethod isWrapperMethod,
    members.lookup (text "signature") = some signature →
    ¬ RaisesReference isTargetMethod isWrapperMethod (.object members) →
    ∃ r, methodReferenceFromJson castFloat parse (.object members) isTargetMethod
        isWrapperMethod = .ok r ∧ r.methodSignature = bytes

/-- The text that `str` gives is loaded as the bytes. -/
def LoadsPrinted (platform : Platform) (bytes : Signature) : Prop :=
  ∃ s, MethodSignature.str platform ⟨bytes⟩ = some s ∧ LoadsAs (.string s) bytes

section Digits

theorem digitValue_digitX {n : Nat} (h : n < 16) : Lib.Hex.digitValue (digitX n) = some n := by
  interval_cases n <;> rfl

theorem byte_of_digits (b : UInt8) :
    (UInt8.ofNat (b.toNat / 16) <<< 4) + UInt8.ofNat (b.toNat % 16) = b := by
  have hb := b.toNat_lt
  have hofNat : ∀ {n}, n < 2 ^ 8 → (UInt8.ofNat n).toNat = n := UInt8.toNat_ofNat_of_lt'
  apply UInt8.toNat_inj.mp
  rw [UInt8.toNat_add, UInt8.toNat_shiftLeft, hofNat (by omega), hofNat (by omega),
    Nat.shiftLeft_eq]
  change (b.toNat / 16 * 2 ^ 4 % 2 ^ 8 + b.toNat % 16) % 2 ^ 8 = b.toNat
  omega

/-- Two digits are a byte, wherever the reader starts. -/
theorem hexBytes_pair {b : UInt8} {c d : UInt16}
    (hc : Lib.Hex.digitValue c = some (b.toNat / 16))
    (hd : Lib.Hex.digitValue d = some (b.toNat % 16)) (prev : UInt8) (s : Text) :
    hexBytes false prev (c :: d :: s) = b :: hexBytes false (UInt8.ofNat (b.toNat % 16)) s := by
  simp only [hexBytes, hc, hd, if_true, byte_of_digits, Bool.false_eq_true, if_false]

theorem hexBytes_toX2 (prev b : UInt8) (s : Text) :
    hexBytes false prev (toX2 b ++ s) =
      b :: hexBytes false (UInt8.ofNat (b.toNat % 16)) s := by
  have hb := b.toNat_lt
  exact hexBytes_pair (digitValue_digitX (by omega)) (digitValue_digitX (by omega)) prev s

theorem hexBytes_toHex (prev b : UInt8) (s : Text) :
    hexBytes false prev (Lib.Hex.toHex 2 b.toNat ++ s) =
      b :: hexBytes false (UInt8.ofNat (b.toNat % 16)) s := by
  have hb := b.toNat_lt
  have hhigh : b.toNat / 16 % 16 = b.toNat / 16 := by omega
  have hdigit : ∀ {n}, n < 16 → Lib.Hex.digitValue (Lib.Hex.digit n) = some n :=
    fun h => Lib.Hex.digitValue_digit h
  apply hexBytes_pair
  · rw [hhigh]
    exact hdigit (by omega)
  · exact hdigit (by omega)

theorem signatureText_cons_cons (b c : UInt8) (rest : Signature) :
    signatureText (b :: c :: rest) = toX2 b ++ 0x20 :: signatureText (c :: rest) := by
  simp [signatureText, List.intercalate, show text " " = [0x20] from rfl]

theorem hexBytes_signatureText (prev : UInt8) (bytes : Signature) :
    hexBytes false prev (signatureText bytes) = bytes := by
  induction bytes generalizing prev with
  | nil => rfl
  | cons b rest ih =>
      cases rest with
      | nil =>
          have htext : signatureText [b] = toX2 b ++ [] := by
            simp [signatureText, List.intercalate]
          rw [htext, hexBytes_toX2]
          rfl
      | cons c rest =>
          rw [signatureText_cons_cons, hexBytes_toX2]
          -- the space is no digit
          exact congrArg (b :: ·) (ih _)

theorem hexBytes_flatten (prev : UInt8) (bytes : Signature) :
    hexBytes false prev (bytes.map fun b => Lib.Hex.toHex 2 b.toNat).flatten = bytes := by
  induction bytes generalizing prev with
  | nil => rfl
  | cons b rest ih =>
      rw [List.map_cons, List.flatten_cons, hexBytes_toHex, ih]

theorem signatureFromJson_numbers (bytes : Signature) :
    signatureFromJson (.array (bytes.map fun b => .unsigned b.toUInt64)) = bytes := by
  rw [signatureFromJson, List.filterMap_map]
  simp

end Digits

theorem loadsAs_signatureFromJson (signature : Json) :
    LoadsAs signature (signatureFromJson signature) := by
  intro castFloat parse members isTargetMethod isWrapperMethod hsignature hreads
  rw [← @fails_methodReferenceFromJson_iff castFloat parse] at hreads
  obtain ⟨r, hload⟩ := Lib.FirstError.exists_ok_of_not_fails hreads
  refine ⟨r, hload, ?_⟩
  simp only [methodReferenceFromJson, hsignature, Option.getD_some,
    Lib.ExceptRules.bind_eq_ok_iff] at hload
  obtain ⟨_, -, _, -, _, -, _, -, _, -, hr⟩ := hload
  obtain rfl := Except.ok.inj hr
  rfl

/-- Only the wide streams of Windows print the bytes of a signature. -/
theorem loadsPrinted_iff (platform : Platform) (bytes : Signature) :
    LoadsPrinted platform bytes ↔ platform = .windows ∨ bytes = [] := by
  cases platform with
  | windows =>
      refine iff_of_true ⟨_, rfl, ?_⟩ (Or.inl rfl)
      have hload := loadsAs_signatureFromJson
        (.string (bytes.map fun b => Lib.Hex.toHex 2 b.toNat).flatten)
      rwa [signatureFromJson, hexBytes_flatten] at hload
  | other =>
      cases bytes with
      | nil => exact iff_of_true ⟨[], rfl, loadsAs_signatureFromJson (.string [])⟩ (Or.inr rfl)
      | cons b rest =>
          apply iff_of_false
          · rintro ⟨s, hs, -⟩
            cases hs
          · simp

section Readers

variable {T : Type} {typeOf : TypeOf T} {encode : T → Signature}

/-- The numbers and the return type that the readers find are those of the method. -/
structure Describes (typeOf : TypeOf T) (encode : T → Signature) (s : MethodSignature)
    (method : MethodInfo T) : Prop where
  typeArguments : s.numberOfTypeArguments = method.genericArguments
  arguments : s.numberOfArguments = method.parameters.length
  returnsObject : s.returnTypeIsObject = true ↔ method.returnType = typeOf.object
  /-- The encoding of the return type starts at its index. -/
  returnType : s.data.drop s.indexOfReturnType =
    encode method.returnType ++ (method.parameters.map encode).flatten

theorem MethodInfo.convention_not_generic (method : MethodInfo T) :
    method.convention &&& callConvGeneric = 0 := by
  rw [convention]
  cases method.varArgs <;> cases method.hasThis <;> rfl

theorem MethodInfo.convention_generic (method : MethodInfo T) :
    (method.convention ||| callConvGeneric) &&& callConvGeneric ≠ 0 := by
  rw [convention]
  cases method.varArgs <;> cases method.hasThis <;> decide

/-- What stands before the types of the generated signature. -/
def headerOf (method : MethodInfo T) : SigHeader where
  convention :=
    if 0 < method.genericArguments then method.convention ||| callConvGeneric
    else method.convention
  typeParameters := method.genericArguments
  convention_generic := by
    split_ifs with hgeneric
    · exact iff_of_true method.convention_generic hgeneric
    · exact iff_of_false (not_not.mpr method.convention_not_generic) hgeneric
  parameters := method.parameters.length

theorem signatureBytes_eq_encode (method : MethodInfo T) (h : method.genericArguments < 0x80) :
    MethodSignature.mk (signatureBytes encode method) =
      (headerOf method).encode
        (encode method.returnType ++ (method.parameters.map encode).flatten) := by
  rw [SigHeader.encode, signatureBytes, headerOf]
  by_cases hgeneric : 0 < method.genericArguments
  · simp only [if_pos hgeneric, if_pos (Nat.pos_iff_ne_zero.mp hgeneric), compress_of_lt h]
    rfl
  · simp only [if_neg hgeneric, if_neg (mt Nat.pos_iff_ne_zero.mpr hgeneric)]
    rfl

theorem returnTypeIsObject_iff_of_drop {s : MethodSignature} {type rest : Signature}
    (htypes : s.data.drop s.indexOfReturnType = type ++ rest) (hne : type ≠ [])
    (hindex : 1 < s.indexOfReturnType) :
    s.returnTypeIsObject = true ↔ type.head? = some ELEMENT_TYPE_OBJECT := by
  have hlength : 1 < s.data.length := by
    by_contra hshort
    rw [List.drop_eq_nil_of_le (by omega)] at htypes
    exact hne (List.append_eq_nil_iff.mp htypes.symm).1
  have hhead : s.data[s.indexOfReturnType]? = type.head? := by
    rw [← List.head?_drop, htypes, List.head?_append_of_ne_nil _ hne]
  rw [MethodSignature.returnTypeIsObject, hhead, Bool.and_eq_true, decide_eq_true_iff,
    beq_iff_eq]
  exact and_iff_right hlength

theorem describes_signatureBytes
    (hobject : ∀ t, (encode t).head? = some ELEMENT_TYPE_OBJECT ↔ t = typeOf.object)
    (hne : ∀ t, encode t ≠ []) (method : MethodInfo T) (hgeneric : method.genericArguments < 0x80)
    (hparameters : method.parameters.length < 0x80) :
    Describes typeOf encode ⟨signatureBytes encode method⟩ method := by
  have hshort : (headerOf method).IsShort := ⟨hgeneric, hparameters⟩
  obtain ⟨htypeArguments, harguments, htypes⟩ :=
    hshort.read (encode method.returnType ++ (method.parameters.map encode).flatten)
  have hindex := hshort.indexOfReturnType
    (encode method.returnType ++ (method.parameters.map encode).flatten)
  rw [← hindex] at htypes
  rw [signatureBytes_eq_encode method hgeneric]
  refine ⟨htypeArguments, harguments, ?_, htypes⟩
  rw [returnTypeIsObject_iff_of_drop htypes (hne _) (by rw [hindex]; split_ifs <;> decide), hobject]

end Readers

section Codec

variable {T : Type} [DecidableEq T] {typeOf : TypeOf T} {encode : T → Signature}

theorem eq_signatureText_of_getMethodSignature {intercept : InterceptMethodAttribute}
    {method : MethodInfo T} {s : Text}
    (h : getMethodSignature typeOf encode intercept method = .ok s) :
    s = signatureText (signatureBytes encode method) := by
  obtain ⟨_, -, hs⟩ := Lib.ExceptRules.bind_eq_ok_iff.mp h
  exact (Except.ok.inj hs).symm

/-- What the tool writes and the numbers of a signature are loaded as its bytes, and what `str` prints
is where it prints anything; the readers find what the method has. -/
theorem signatures_loadsAs_describes
    (hobject : ∀ t, (encode t).head? = some ELEMENT_TYPE_OBJECT ↔ t = typeOf.object)
    (hne : ∀ t, encode t ≠ []) (platform : Platform) :
    (∀ bytes : Signature,
      LoadsAs (.string (signatureText bytes)) bytes ∧
        (LoadsPrinted platform bytes ↔ platform = .windows ∨ bytes = []) ∧
        LoadsAs (.array (bytes.map fun b => .unsigned b.toUInt64)) bytes) ∧
      ∀ method : MethodInfo T,
        (∀ intercept s, getMethodSignature typeOf encode intercept method = .ok s →
          LoadsAs (.string s) (signatureBytes encode method)) ∧
        (method.genericArguments < 128 → method.parameters.length < 128 →
          Describes typeOf encode ⟨signatureBytes encode method⟩ method) := by
  constructor
  · intro bytes
    refine ⟨?_, loadsPrinted_iff platform bytes, ?_⟩
    · have hload := loadsAs_signatureFromJson (.string (signatureText bytes))
      rwa [signatureFromJson, hexBytes_signatureText] at hload
    · have hload :=
        loadsAs_signatureFromJson (.array (bytes.map fun b => .unsigned b.toUInt64))
      rwa [signatureFromJson_numbers] at hload
  · intro method
    refine ⟨?_, describes_signatureBytes hobject hne method⟩
    intro intercept s hs
    have hload := loadsAs_signatureFromJson (.string s)
    rwa [signatureFromJson, eq_signatureText_of_getMethodSignature hs,
      hexBytes_signatureText, ← eq_signatureText_of_getMethodSignature hs] at hload

/-- Types that are one byte each; a method with two type parameters and an object to return. -/
theorem describes_generic_wrapper :
    Describes ⟨ELEMENT_TYPE_I4, ELEMENT_TYPE_I8, ELEMENT_TYPE_VOID, ELEMENT_TYPE_OBJECT⟩
      (fun b => [b])
      ⟨[0x10, 2, 3, ELEMENT_TYPE_OBJECT, ELEMENT_TYPE_I4, ELEMENT_TYPE_I4, ELEMENT_TYPE_I8]⟩
      ⟨false, false, 2, ELEMENT_TYPE_OBJECT,
        [ELEMENT_TYPE_I4, ELEMENT_TYPE_I4, ELEMENT_TYPE_I8]⟩ := by
  have hcodec := @signatures_loadsAs_describes UInt8 _
    ⟨ELEMENT_TYPE_I4, ELEMENT_TYPE_I8, ELEMENT_TYPE_VOID, ELEMENT_TYPE_OBJECT⟩ (fun b => [b])
    (by simp) (by simp) .windows
  exact (hcodec.2 ⟨false, false, 2, ELEMENT_TYPE_OBJECT,
    [ELEMENT_TYPE_I4, ELEMENT_TYPE_I4, ELEMENT_TYPE_I8]⟩).2 (by decide) (by decide)

/-- The stream of another platform prints no byte. -/
theorem not_loadsPrinted : ¬ LoadsPrinted .other [0x00] := by
  rintro ⟨s, hs, -⟩
  cases hs

end Codec

end SignalFxTracing.Metadata
