import SignalFxTracing.Metadata.SignatureGrammar

/-!
# Signatures as trees of types

The types of a signature, over any names and type variables and with the
bounds of arrays that a format allows. With tokens and numbered variables they
have bytes; with the full names of the types, and one variable, they are what
a name should tell.

## Implementation notes

Numbers are compressed to their shortest encoding, the only one that the
format allows.
-/

namespace SignalFxTracing.Metadata

/-- `void`, the primitive types, `string` and `object`. -/
def basicTypes : List UInt8 := primitiveTypes ++ [ELEMENT_TYPE_I, ELEMENT_TYPE_U]

/-- The basic types are checked one by one. -/
theorem forall_basicTypes {p : UInt8 → Prop} [DecidablePred p]
    (h : (basicTypes.all fun b => decide (p b)) = true) : ∀ b ∈ basicTypes, p b := by
  simpa using h

theorem mem_basicTypes_i4 : ELEMENT_TYPE_I4 ∈ basicTypes := by decide

/-- Without the flag there are no type parameters. -/
theorem default_not_generic : (0 : UInt8) &&& callConvGeneric ≠ 0 ↔ 0 < 0 := by decide

theorem hasThis_not_generic : (0x20 : UInt8) &&& callConvGeneric ≠ 0 ↔ 0 < 0 := by decide

inductive TypeTree (Name Variable : Type) (IsBounds : Signature → Prop)
  | basic (b : {b // b ∈ basicTypes})
  | named (name : Name)
  | var (v : Variable)
  | szArray (element : TypeTree Name Variable IsBounds)
  | array (element : TypeTree Name Variable IsBounds) (bounds : {e // IsBounds e})
  | genericInst (name : Name) (arg : TypeTree Name Variable IsBounds)
      (args : List (TypeTree Name Variable IsBounds))

namespace TypeTree

variable {Name Variable Name' Variable' : Type} {IsBounds : Signature → Prop}

/-- Induction over a type and its arguments. -/
theorem induct {P : TypeTree Name Variable IsBounds → Prop} (hbasic : ∀ b, P (basic b))
    (hnamed : ∀ name, P (named name)) (hvar : ∀ v, P (var v))
    (hszArray : ∀ t, P t → P (szArray t)) (harray : ∀ t bounds, P t → P (array t bounds))
    (hgenericInst : ∀ name arg args, P arg → (∀ t ∈ args, P t) →
      P (genericInst name arg args)) : ∀ t, P t :=
  @TypeTree.rec Name Variable IsBounds P (fun ts => ∀ t ∈ ts, P t) hbasic hnamed hvar hszArray
    harray (fun name arg args => hgenericInst name arg args)
    (fun _ h => absurd h List.not_mem_nil)
    (fun _ _ ht hts _ hmem => (List.mem_cons.mp hmem).elim (fun h => h ▸ ht) (hts _))

section Map

variable (f : Name → Name') (g : Variable → Variable')

mutual

/-- The same type over other names and variables. -/
def map : TypeTree Name Variable IsBounds → TypeTree Name' Variable' IsBounds
  | basic b => basic b
  | named name => named (f name)
  | var v => var (g v)
  | szArray t => szArray (map t)
  | array t bounds => array (map t) bounds
  | genericInst name arg args => genericInst (f name) (map arg) (mapAll args)

def mapAll : List (TypeTree Name Variable IsBounds) → List (TypeTree Name' Variable' IsBounds)
  | [] => []
  | t :: ts => map t :: mapAll ts

end

end Map

end TypeTree

/-- A number in one, two or four bytes. -/
def compress (n : Nat) : Signature :=
  if n < 0x80 then [UInt8.ofNat n]
  else if n < 0x4000 then [UInt8.ofNat (0x80 + n / 2 ^ 8), UInt8.ofNat (n % 2 ^ 8)]
  else
    [UInt8.ofNat (0xC0 + n / 2 ^ 24), UInt8.ofNat (n / 2 ^ 16 % 2 ^ 8),
      UInt8.ofNat (n / 2 ^ 8 % 2 ^ 8), UInt8.ofNat (n % 2 ^ 8)]

theorem encodesNumber_compress {n : Nat} (h : n < 2 ^ 29) : EncodesNumber n (compress n) := by
  have hbyte : ∀ {k : Nat}, k < 2 ^ 8 → (UInt8.ofNat k).toNat = k :=
    UInt8.toNat_ofNat_of_lt'
  rw [compress]
  split_ifs with hone htwo
  · have hb := hbyte (k := n) (by omega)
    have hencodes := EncodesNumber.one (b := UInt8.ofNat n) (by omega)
    rwa [hb] at hencodes
  · have hb := hbyte (k := 0x80 + n / 2 ^ 8) (by omega)
    have hc := hbyte (k := n % 2 ^ 8) (by omega)
    have hencodes := EncodesNumber.two (b := UInt8.ofNat (0x80 + n / 2 ^ 8))
      (c := UInt8.ofNat (n % 2 ^ 8)) (by omega) (by omega)
    rw [hb, hc] at hencodes
    convert hencodes using 1
    omega
  · have hb := hbyte (k := 0xC0 + n / 2 ^ 24) (by omega)
    have hc := hbyte (k := n / 2 ^ 16 % 2 ^ 8) (by omega)
    have hd := hbyte (k := n / 2 ^ 8 % 2 ^ 8) (by omega)
    have he := hbyte (k := n % 2 ^ 8) (by omega)
    have hencodes := EncodesNumber.four (b := UInt8.ofNat (0xC0 + n / 2 ^ 24))
      (c := UInt8.ofNat (n / 2 ^ 16 % 2 ^ 8)) (d := UInt8.ofNat (n / 2 ^ 8 % 2 ^ 8))
      (e := UInt8.ofNat (n % 2 ^ 8)) (by omega) (by omega)
    rw [hb, hc, hd, he] at hencodes
    convert hencodes using 1
    omega

theorem compress_of_lt {n : Nat} (h : n < 0x80) : compress n = [UInt8.ofNat n] :=
  if_pos h

/-- A class or a value type, with its encoded token. -/
structure TypeToken where
  isValueType : Bool
  token : Fin (2 ^ 26)

namespace TypeToken

def mdToken (t : TypeToken) : MdToken := decodeToken t.token

def code (t : TypeToken) : UInt8 :=
  if t.isValueType then ELEMENT_TYPE_VALUETYPE else ELEMENT_TYPE_CLASS

def encode (t : TypeToken) : Signature := t.code :: compress t.token

theorem code_cases (t : TypeToken) :
    t.code = ELEMENT_TYPE_VALUETYPE ∨ t.code = ELEMENT_TYPE_CLASS := by
  rw [code]
  split_ifs
  · exact Or.inl rfl
  · exact Or.inr rfl

end TypeToken

/-- A type parameter of the method or of its type. -/
structure TypeVariable where
  ofMethod : Bool
  index : Fin (2 ^ 16)

namespace TypeVariable

def code (v : TypeVariable) : UInt8 :=
  if v.ofMethod then ELEMENT_TYPE_MVAR else ELEMENT_TYPE_VAR

def encode (v : TypeVariable) : Signature := v.code :: compress v.index

theorem code_cases (v : TypeVariable) :
    v.code = ELEMENT_TYPE_VAR ∨ v.code = ELEMENT_TYPE_MVAR := by
  rw [code]
  split_ifs
  · exact Or.inr rfl
  · exact Or.inl rfl

end TypeVariable

namespace TypeTree

variable {IsBounds : Signature → Prop}

mutual

def encode : TypeTree TypeToken TypeVariable IsBounds → Signature
  | basic b => [b.1]
  | named name => name.encode
  | var v => v.encode
  | szArray t => ELEMENT_TYPE_SZARRAY :: encode t
  | array t bounds => ELEMENT_TYPE_ARRAY :: (encode t ++ bounds.1)
  | genericInst name arg args =>
      ELEMENT_TYPE_GENERICINST ::
        (name.encode ++ (compress (args.length + 1) ++ (encode arg ++ encodeAll args)))

def encodeAll : List (TypeTree TypeToken TypeVariable IsBounds) → Signature
  | [] => []
  | t :: ts => encode t ++ encodeAll ts

end

end TypeTree

/-- What stands before the types of a method signature. There are type parameters when the
calling convention says so. -/
structure SigHeader where
  convention : UInt8
  typeParameters : Nat
  convention_generic : convention &&& callConvGeneric ≠ 0 ↔ 0 < typeParameters
  parameters : Nat

namespace SigHeader

variable (header : SigHeader)

def encode (types : Signature) : MethodSignature :=
  ⟨header.convention :: ((if 0 < header.typeParameters then compress header.typeParameters else []) ++
    (compress header.parameters ++ types))⟩

/-- One byte is enough for each of the two numbers. -/
def IsShort : Prop := header.typeParameters < 0x80 ∧ header.parameters < 0x80

instance : Decidable header.IsShort :=
  inferInstanceAs (Decidable (header.typeParameters < 0x80 ∧ header.parameters < 0x80))

variable {header}

/-- A short header is read as it is written. -/
theorem IsShort.read (h : header.IsShort) (types : Signature) :
    (header.encode types).numberOfTypeArguments = header.typeParameters ∧
      (header.encode types).numberOfArguments = header.parameters ∧
      (header.encode types).data.drop (if 0 < header.typeParameters then 3 else 2) = types := by
  have hbyte : ∀ {k : Nat}, k < 0x80 → (UInt8.ofNat k).toNat = k := fun hk =>
    UInt8.toNat_ofNat_of_lt' (Nat.lt_trans hk (by decide))
  rw [encode, compress_of_lt h.2]
  by_cases hgeneric : 0 < header.typeParameters
  · have hconvention := header.convention_generic.mpr hgeneric
    rw [if_pos hgeneric, if_pos hgeneric, compress_of_lt h.1]
    simp [MethodSignature.numberOfTypeArguments, MethodSignature.numberOfArguments,
      MethodSignature.isGeneric, MethodSignature.callingConvention, hconvention, hbyte h.1,
      hbyte h.2]
  · have hconvention : header.convention &&& callConvGeneric = 0 := by
      by_contra hne
      exact hgeneric (header.convention_generic.mp hne)
    have hzero : header.typeParameters = 0 := by omega
    rw [if_neg hgeneric, if_neg hgeneric]
    simp [MethodSignature.numberOfTypeArguments, MethodSignature.numberOfArguments,
      MethodSignature.isGeneric, MethodSignature.callingConvention, hconvention, hzero,
      hbyte h.2]

theorem IsShort.indexOfReturnType (h : header.IsShort) (types : Signature) :
    (header.encode types).indexOfReturnType = if 0 < header.typeParameters then 3 else 2 := by
  rw [encode, compress_of_lt h.2]
  by_cases hgeneric : 0 < header.typeParameters
  · have hconvention := header.convention_generic.mpr hgeneric
    rw [if_pos hgeneric, if_pos hgeneric, compress_of_lt h.1]
    simp [MethodSignature.indexOfReturnType, MethodSignature.isGeneric,
      MethodSignature.callingConvention, hconvention]
  · have hconvention : header.convention &&& callConvGeneric = 0 :=
      not_not.mp (mt header.convention_generic.mp hgeneric)
    rw [if_neg hgeneric, if_neg hgeneric]
    simp [MethodSignature.indexOfReturnType, MethodSignature.isGeneric,
      MethodSignature.callingConvention, hconvention]

end SigHeader

end SignalFxTracing.Metadata
