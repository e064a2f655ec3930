import SignalFxTracing.Metadata.FunctionInfo
import SignalFxTracing.Metadata.Integration
import SignalFxTracing.Metadata.SignatureTypes
import SignalFxTracing.Metadata.SkippedTypes
import SignalFxTracing.Metadata.TypeTree

/-!
# Boxing the last argument (`CorProfiler::ProcessReplacementCalls`, `cor_profiler.cpp`)

Wrappers take some value types as objects. Where the last parameter of a target
is one of these types, the argument is boxed before the wrapper is called. The
last parameter is found by skipping as many types as there are parameters, from
the return type on.

## Implementation notes

The operand of a box is a type token of the signature, or the token that
`GetTokenFromTypeSpec` gives for bytes of it. There are no operands where
`GetTypeInfo` does not end for the type at the position.
-/

namespace SignalFxTracing.Metadata

open Clr

inductive BoxOperand
  | token (token : MdToken)
  | typeSpec (sig : Signature)
  deriving DecidableEq

section Boxes

variable (metadata : MetadataImport)

def cancellationToken : Text := text "System.Threading.CancellationToken"

def timeSpan : Text := text "System.TimeSpan"

def readOnlyMemory : Text := text "System.ReadOnlyMemory`1"

/-- The second of the two tests, for `System.ReadOnlyMemory<T>`. -/
def boxReadOnlyMemory (sig : Signature) : Option (List BoxOperand) :=
  match sig with
  | b :: c :: rest =>
      if b = ELEMENT_TYPE_GENERICINST ∧ c = ELEMENT_TYPE_VALUETYPE then
        (corSigUncompressTokenAt rest).elim (some []) fun (token, _) =>
          (metadata.getTypeInfo token).map fun type =>
            if type.name = readOnlyMemory then
              (parseType sig).elim [] fun behind =>
                [.typeSpec (sig.take (sig.length - behind.length))]
            else []
      else some []
  | _ => some []

/-- The boxes for the type at a position. The first test moves the position. -/
def boxesAt (sig : Signature) : Option (List BoxOperand) :=
  match sig with
  | [] => some []
  | b :: rest =>
      if b = ELEMENT_TYPE_VALUETYPE then
        (corSigUncompressTokenAt rest).elim (some []) fun (token, behind) =>
          (metadata.getTypeInfo token).bind fun type =>
            (boxReadOnlyMemory metadata behind).map fun more =>
              (if type.name = cancellationToken ∨ type.name = timeSpan then [.token token]
                else []) ++ more
      else boxReadOnlyMemory metadata sig

/-- The position behind as many types as there are parameters. -/
def reached (signature : MethodSignature) : Option Signature :=
  repeatParser parseType signature.numberOfArguments
    (signature.data.drop signature.indexOfReturnType)

/-- The boxes that are inserted before the call of the wrapper, in their order. -/
def boxes (signature : MethodSignature) : Option (List BoxOperand) :=
  (reached signature).elim (some []) (boxesAt metadata)

/-- A call is one that the replacement is for: the tests before the IL is modified. The numbers
of arguments do not wrap around. -/
def isTarget (replacement : MethodReplacement) (target : FunctionInfo) : Bool :=
  let wrapperSignature : MethodSignature := ⟨replacement.wrapperMethod.methodSignature⟩
  let expectedSig := replacement.targetMethod.signatureTypes
  target.isValid && replacement.targetMethod.typeName == target.type.name &&
    replacement.targetMethod.methodName == target.name &&
    6 ≤ replacement.wrapperMethod.methodSignature.length &&
    wrapperSignature.numberOfArguments ==
      target.signature.numberOfArguments + 3 +
        (if target.signature.isInstanceMethod then 1 else 0) &&
    (!target.isGeneric ||
      target.signature.numberOfTypeArguments == wrapperSignature.numberOfTypeArguments) &&
    match tryParseSignatureTypes metadata target.signature with
    | .error _ => false
    | .ok actualSig =>
        actualSig.length == expectedSig.length &&
          (List.zip expectedSig actualSig).all fun (expected, actual) =>
            expected == text "_" || expected == actual

end Boxes

section Boxed

variable (metadata : MetadataImport)

/-- What may stand before the type of a parameter: custom modifiers, behind the sentinel or not. -/
def Precedes (before : Signature) : Prop :=
  ∃ mods, Derives documented .mods mods ∧
    (before = mods ∨ before = ELEMENT_TYPE_SENTINEL :: mods)

/-- The parameter has one of the types that wrappers take as objects. -/
inductive Boxed : Signature → BoxOperand → Prop
  | valueType {before encoded : Signature} {k : Nat} : Precedes before → EncodesNumber k encoded →
      (metadata.reportedType (decodeToken k)).name = cancellationToken ∨
        (metadata.reportedType (decodeToken k)).name = timeSpan →
      Boxed (before ++ ELEMENT_TYPE_VALUETYPE :: encoded) (.token (decodeToken k))
  | readOnlyMemory {before encoded rest : Signature} {k : Nat} : Precedes before →
      EncodesNumber k encoded → (metadata.reportedType (decodeToken k)).name = readOnlyMemory →
      Derives documented .type
        (ELEMENT_TYPE_GENERICINST :: ELEMENT_TYPE_VALUETYPE :: (encoded ++ rest)) →
      Boxed (before ++ ELEMENT_TYPE_GENERICINST :: ELEMENT_TYPE_VALUETYPE :: (encoded ++ rest))
        (.typeSpec (ELEMENT_TYPE_GENERICINST :: ELEMENT_TYPE_VALUETYPE :: (encoded ++ rest)))

variable {metadata}

theorem Precedes.eq_nil_or {before : Signature} (h : Precedes before) :
    before = [] ∨ ∃ b rest, before = b :: rest ∧ b ∉ typeBytes := by
  obtain ⟨mods, hmods, rfl | rfl⟩ := h
  · cases hmods with
    | noMods => exact Or.inl rfl
    | mod hb _ _ =>
        refine Or.inr ⟨_, _, rfl, ?_⟩
        rcases hb with rfl | rfl
        · decide
        · decide
  · exact Or.inr ⟨_, _, rfl, by decide⟩

theorem precedes_nil : Precedes [] :=
  ⟨[], .noMods, Or.inl rfl⟩

theorem boxReadOnlyMemory_of_ne {b : UInt8} (hb : b ≠ ELEMENT_TYPE_GENERICINST)
    (rest : Signature) : boxReadOnlyMemory metadata (b :: rest) = some [] := by
  cases rest with
  | nil => rfl
  | cons c rest => exact if_neg fun h => hb h.1

/-- Nothing is boxed for another type. -/
theorem boxesAt_of_ne {b : UInt8} (hvalueType : b ≠ ELEMENT_TYPE_VALUETYPE)
    (hgeneric : b ≠ ELEMENT_TYPE_GENERICINST) (rest : Signature) :
    boxesAt metadata (b :: rest) = some [] := by
  rw [boxesAt, if_neg hvalueType, boxReadOnlyMemory_of_ne hgeneric]

/-- Both ways to read a number agree on what encodes one. -/
theorem corSigUncompressDataAt_of_read {sig : Signature} {r : Nat × Signature}
    (h : corSigUncompressData sig = some r) : corSigUncompressDataAt sig = some r := by
  cases sig with
  | nil => cases h
  | cons b rest =>
      rw [corSigUncompressData] at h
      rw [corSigUncompressDataAt]
      split_ifs at h ⊢
      · exact h
      · exact h

theorem corSigUncompressTokenAt_append {k : Nat} {encoded : Signature}
    (h : EncodesNumber k encoded) (tail : Signature) :
    corSigUncompressTokenAt (encoded ++ tail) = some (decodeToken k, tail) := by
  rw [corSigUncompressTokenAt, corSigUncompressDataAt_of_read (corSigUncompressData_append h tail)]
  rfl

theorem boxesAt_valueType {k : Nat} {encoded : Signature} (h : EncodesNumber k encoded) :
    boxesAt metadata (ELEMENT_TYPE_VALUETYPE :: encoded) =
      (metadata.getTypeInfo (decodeToken k)).map fun type =>
        if type.name = cancellationToken ∨ type.name = timeSpan then [.token (decodeToken k)]
        else [] := by
  have hread := corSigUncompressTokenAt_append h []
  rw [List.append_nil] at hread
  rw [boxesAt, if_pos rfl, hread, Option.elim_some]
  dsimp only
  cases metadata.getTypeInfo (decodeToken k) with
  | none => rfl
  | some type =>
      simp only [Option.bind_some, Option.map_some, boxReadOnlyMemory, List.append_nil]

theorem boxesAt_readOnlyMemory {k : Nat} {encoded : Signature} (h : EncodesNumber k encoded)
    (rest : Signature) :
    boxesAt metadata (ELEMENT_TYPE_GENERICINST :: ELEMENT_TYPE_VALUETYPE :: (encoded ++ rest)) =
      (metadata.getTypeInfo (decodeToken k)).map fun type =>
        if type.name = readOnlyMemory then
          (parseType
            (ELEMENT_TYPE_GENERICINST :: ELEMENT_TYPE_VALUETYPE :: (encoded ++ rest))).elim []
              fun behind => [.typeSpec
                ((ELEMENT_TYPE_GENERICINST :: ELEMENT_TYPE_VALUETYPE :: (encoded ++ rest)).take
                  ((ELEMENT_TYPE_GENERICINST :: ELEMENT_TYPE_VALUETYPE ::
                    (encoded ++ rest)).length - behind.length))]
        else [] := by
  rw [boxesAt, if_neg (by decide), boxReadOnlyMemory, if_pos ⟨rfl, rfl⟩,
    corSigUncompressTokenAt_append h]
  rfl

theorem parseType_refused {b : UInt8} (hb : b ∉ typeBytes) (rest : Signature) :
    parseType (b :: rest) = none :=
  parseTypeAt_refused hb _ _

theorem ne_of_refused {b : UInt8} (hb : b ∉ typeBytes) :
    b ≠ ELEMENT_TYPE_VALUETYPE ∧ b ≠ ELEMENT_TYPE_GENERICINST := by
  constructor
  · rintro rfl
    revert hb
    decide
  · rintro rfl
    revert hb
    decide

theorem boxesAt_refused {b : UInt8} (hb : b ∉ typeBytes) (rest : Signature) :
    boxesAt metadata (b :: rest) = some [] :=
  boxesAt_of_ne (ne_of_refused hb).1 (ne_of_refused hb).2 rest

/-- A name is found for every type to be boxed. -/
theorem exists_getTypeInfo {token : MdToken} {name : Text}
    (h : (metadata.reportedType token).name = name) (hname : name ≠ []) :
    ∃ type, metadata.getTypeInfo token = some type ∧ type.name = name := by
  rw [MetadataImport.reportedType] at h
  cases htype : metadata.getTypeInfo token with
  | none =>
      rw [htype] at h
      exact absurd h.symm hname
  | some type =>
      rw [htype] at h
      exact ⟨type, rfl, h⟩

theorem exists_getTypeInfo_of_or {token : MdToken}
    (h : (metadata.reportedType token).name = cancellationToken ∨
      (metadata.reportedType token).name = timeSpan) :
    ∃ type, metadata.getTypeInfo token = some type ∧
      (type.name = cancellationToken ∨ type.name = timeSpan) := by
  rcases h with hname | hname
  · obtain ⟨type, htype, hname⟩ := exists_getTypeInfo hname (by decide)
    exact ⟨type, htype, Or.inl hname⟩
  · obtain ⟨type, htype, hname⟩ := exists_getTypeInfo hname (by decide)
    exact ⟨type, htype, Or.inr hname⟩

/-- What is boxed for a type to be boxed: nothing where the type cannot be skipped, and as much of
it as is skipped. -/
theorem boxesAt_of_boxed {e : Signature} {operand : BoxOperand} (h : Boxed metadata e operand) :
    boxesAt metadata e = some ((parseType e).elim [] fun behind =>
      [if behind = [] then operand else .typeSpec (e.take (e.length - behind.length))]) := by
  cases h with
  | @valueType before encoded k hbefore hencodes hname =>
      rcases hbefore.eq_nil_or with rfl | ⟨b, rest, rfl, hb⟩
      · have hderives : Derives implemented .type (ELEMENT_TYPE_VALUETYPE :: encoded) :=
          .defOrRef (Or.inl rfl) hencodes
        have hskip := parserAt_length_append hderives nofun []
        simp only [parserAt, List.append_nil] at hskip
        obtain ⟨type, htype, hname⟩ := exists_getTypeInfo_of_or hname
        rw [List.nil_append, boxesAt_valueType hencodes, htype, Option.map_some, if_pos hname,
          parseType, hskip]
        rfl
      · rw [List.cons_append, boxesAt_refused hb, parseType_refused hb]
        rfl
  | @readOnlyMemory before encoded rest k hbefore hencodes hname _ =>
      rcases hbefore.eq_nil_or with rfl | ⟨b, rest, rfl, hb⟩
      · obtain ⟨type, htype, hname⟩ := exists_getTypeInfo hname (by decide)
        rw [List.nil_append, boxesAt_readOnlyMemory hencodes, htype, Option.map_some,
          if_pos hname]
        generalize ELEMENT_TYPE_GENERICINST :: ELEMENT_TYPE_VALUETYPE :: (encoded ++ rest) = sig
        congr 2
        funext behind
        by_cases hbehind : behind = []
        · rw [if_pos hbehind, hbehind, List.length_nil, Nat.sub_zero, List.take_length]
        · rw [if_neg hbehind]
      · rw [List.cons_append, boxesAt_refused hb, parseType_refused hb]
        rfl

/-- The bytes start with a value type, or an instance of one, of the number. -/
inductive ReadsNumber : Signature → Nat → Prop
  | valueType {encoded rest : Signature} {k : Nat} : EncodesNumber k encoded →
      ReadsNumber (ELEMENT_TYPE_VALUETYPE :: (encoded ++ rest)) k
  | genericInst {encoded rest : Signature} {k : Nat} : EncodesNumber k encoded →
      ReadsNumber (ELEMENT_TYPE_GENERICINST :: ELEMENT_TYPE_VALUETYPE :: (encoded ++ rest)) k

variable (metadata) in
/-- `GetTypeInfo` ends for the value type with which the bytes start. -/
def Answers (e : Signature) : Prop :=
  ∀ k, ReadsNumber e k → (metadata.getTypeInfo (decodeToken k)).isSome

theorem answers_of_ne {b : UInt8} (hvalueType : b ≠ ELEMENT_TYPE_VALUETYPE)
    (hgeneric : b ≠ ELEMENT_TYPE_GENERICINST) (rest : Signature) :
    Answers metadata (b :: rest) := by
  intro k hk
  cases hk with
  | valueType => exact absurd rfl hvalueType
  | genericInst => exact absurd rfl hgeneric

theorem answers_refused {b : UInt8} (hb : b ∉ typeBytes) (rest : Signature) :
    Answers metadata (b :: rest) :=
  answers_of_ne (ne_of_refused hb).1 (ne_of_refused hb).2 rest

/-- Behind another byte nothing is asked and nothing is boxed. -/
theorem boxesAt_iff_of_ne {b : UInt8} (hvalueType : b ≠ ELEMENT_TYPE_VALUETYPE)
    (hgeneric : b ≠ ELEMENT_TYPE_GENERICINST) (rest : Signature) :
    boxesAt metadata (b :: rest) = some [] ↔ Answers metadata (b :: rest) :=
  iff_of_true (boxesAt_of_ne hvalueType hgeneric rest) (answers_of_ne hvalueType hgeneric rest)

/-- One number starts the bytes. -/
theorem EncodesNumber.eq_of_append {k k' : Nat} {encoded encoded' rest rest' : Signature}
    (h : EncodesNumber k encoded) (h' : EncodesNumber k' encoded')
    (heq : encoded ++ rest = encoded' ++ rest') : k = k' := by
  have hread := corSigUncompressData_append h rest
  rw [heq, corSigUncompressData_append h' rest'] at hread
  exact (Prod.mk.inj (Option.some.inj hread)).1.symm

theorem ReadsNumber.unique {e : Signature} {k k' : Nat} (h : ReadsNumber e k)
    (h' : ReadsNumber e k') : k = k' := by
  generalize he : e = e' at h'
  cases h with
  | valueType hencodes =>
      cases h' with
      | valueType hencodes' => exact hencodes.eq_of_append hencodes' (List.cons.inj he).2
      | genericInst => cases he
  | genericInst hencodes =>
      cases h' with
      | valueType => cases he
      | genericInst hencodes' =>
          exact hencodes.eq_of_append hencodes' (List.cons.inj (List.cons.inj he).2).2

theorem ReadsNumber.answersAt_iff {e : Signature} {k : Nat} (h : ReadsNumber e k) :
    Answers metadata e ↔ (metadata.getTypeInfo (decodeToken k)).isSome := by
  constructor
  · exact fun hanswers => hanswers k h
  · intro hsome k' h'
    rwa [← h.unique h']

/-- Another kind of instance has no such number. -/
theorem answers_genericInst_class (rest : Signature) :
    Answers metadata (ELEMENT_TYPE_GENERICINST :: ELEMENT_TYPE_CLASS :: rest) := by
  intro k hk
  cases hk

theorem boxesAt_valueType_of_not_boxed {k : Nat} {token : Signature} (h : EncodesNumber k token)
    (hboxed : ∀ operand, ¬ Boxed metadata (ELEMENT_TYPE_VALUETYPE :: token) operand) :
    boxesAt metadata (ELEMENT_TYPE_VALUETYPE :: token) = some [] ↔
      Answers metadata (ELEMENT_TYPE_VALUETYPE :: token) := by
  have hreads : ReadsNumber (ELEMENT_TYPE_VALUETYPE :: token) k := by
    have happend := @ReadsNumber.valueType token [] k h
    rwa [List.append_nil] at happend
  rw [hreads.answersAt_iff, boxesAt_valueType h]
  cases htype : metadata.getTypeInfo (decodeToken k) with
  | none => simp
  | some type =>
      have hnot : ¬ (type.name = cancellationToken ∨ type.name = timeSpan) := by
        intro hname
        refine hboxed _ (.valueType precedes_nil h ?_)
        rw [MetadataImport.reportedType, htype]
        exact hname
      rw [Option.map_some, if_neg hnot]
      simp

theorem boxesAt_genericInst_of_not_boxed {k : Nat} {token rest : Signature}
    (h : EncodesNumber k token)
    (htype : Derives documented .type
      (ELEMENT_TYPE_GENERICINST :: ELEMENT_TYPE_VALUETYPE :: (token ++ rest)))
    (hboxed : ∀ operand, ¬ Boxed metadata
      (ELEMENT_TYPE_GENERICINST :: ELEMENT_TYPE_VALUETYPE :: (token ++ rest)) operand) :
    boxesAt metadata (ELEMENT_TYPE_GENERICINST :: ELEMENT_TYPE_VALUETYPE :: (token ++ rest)) =
        some [] ↔
      Answers metadata
        (ELEMENT_TYPE_GENERICINST :: ELEMENT_TYPE_VALUETYPE :: (token ++ rest)) := by
  rw [(ReadsNumber.genericInst h).answersAt_iff, boxesAt_readOnlyMemory h]
  cases hinfo : metadata.getTypeInfo (decodeToken k) with
  | none => simp
  | some type =>
      have hnot : type.name ≠ readOnlyMemory := by
        intro hname
        refine hboxed _ (.readOnlyMemory precedes_nil h ?_ htype)
        rw [MetadataImport.reportedType, hinfo]
        exact hname
      rw [Option.map_some, if_neg hnot]
      simp

theorem boxesAt_type_of_not_boxed {e : Signature} (h : Derives documented .type e)
    (hboxed : ∀ operand, ¬ Boxed metadata e operand) :
    boxesAt metadata e = some [] ↔ Answers metadata e := by
  cases h with
  | @primitive b hb =>
      have hb : b ∈ documentedPrimitives := hb
      apply boxesAt_iff_of_ne
      · rintro rfl
        revert hb
        decide
      · rintro rfl
        revert hb
        decide
  | defOrRef hb htoken =>
      rcases hb with rfl | rfl
      · exact boxesAt_valueType_of_not_boxed htoken hboxed
      · exact boxesAt_iff_of_ne (by decide) (by decide) _
  | ptr _ _ => exact boxesAt_iff_of_ne (by decide) (by decide) _
  | ptrVoid _ => exact boxesAt_iff_of_ne (by decide) (by decide) _
  | fnPtr _ => exact boxesAt_iff_of_ne (by decide) (by decide) _
  | array _ _ => exact boxesAt_iff_of_ne (by decide) (by decide) _
  | szArray _ _ => exact boxesAt_iff_of_ne (by decide) (by decide) _
  | genericInst hb htoken hcount htypes =>
      rcases hb with rfl | rfl
      · exact boxesAt_genericInst_of_not_boxed htoken
          (.genericInst (Or.inl rfl) htoken hcount htypes) hboxed
      · refine iff_of_true ?_ (answers_genericInst_class _)
        rw [boxesAt, if_neg (by decide), boxReadOnlyMemory, if_neg]
        rintro ⟨-, hclass⟩
        revert hclass
        decide
  | var hb _ =>
      rcases hb with rfl | rfl
      · exact boxesAt_iff_of_ne (by decide) (by decide) _
      · exact boxesAt_iff_of_ne (by decide) (by decide) _

/-- For a parameter that is not to be boxed nothing is boxed at its position. -/
theorem boxesAt_of_not_boxed {isReturn : Bool} {e : Signature}
    (h : IsDeclared documented isReturn e) (hboxed : ∀ operand, ¬ Boxed metadata e operand) :
    boxesAt metadata e = some [] ↔ Answers metadata e := by
  have hrefused : ∀ {b : UInt8} {rest : Signature}, b ∉ typeBytes →
      (boxesAt metadata (b :: rest) = some [] ↔ Answers metadata (b :: rest)) :=
    fun hb => boxesAt_iff_of_ne (ne_of_refused hb).1 (ne_of_refused hb).2 _
  obtain ⟨declared, hdeclared, rfl | rfl⟩ := h
  · have hmods : ∀ {mods rest : Signature}, Derives documented .mods mods →
        ((∀ operand, ¬ Boxed metadata rest operand) →
          (boxesAt metadata rest = some [] ↔ Answers metadata rest)) →
        (∀ operand, ¬ Boxed metadata (mods ++ rest) operand) →
        (boxesAt metadata (mods ++ rest) = some [] ↔ Answers metadata (mods ++ rest)) := by
      intro mods rest hmods hrest hboxed
      cases hmods with
      | noMods => exact hrest hboxed
      | mod hb _ _ =>
          rcases hb with rfl | rfl
          · exact hrefused (by decide)
          · exact hrefused (by decide)
    cases hdeclared with
    | typedByRef h => exact hmods h (fun _ => hrefused (by decide)) hboxed
    | void h => exact hmods h (fun _ => boxesAt_iff_of_ne (by decide) (by decide) _) hboxed
    | byRef h _ => exact hmods h (fun _ => hrefused (by decide)) hboxed
    | byValue h htype =>
        exact hmods h (fun hboxed => boxesAt_type_of_not_boxed htype hboxed) hboxed
  · exact hrefused (by decide)

/-- A type to be boxed has a name. -/
theorem Boxed.answers {e : Signature} {operand : BoxOperand} (h : Boxed metadata e operand) :
    Answers metadata e := by
  cases h with
  | @valueType before encoded k hbefore hencodes hname =>
      rcases hbefore.eq_nil_or with rfl | ⟨b, rest, rfl, hb⟩
      · have hreads := @ReadsNumber.valueType encoded [] k hencodes
        rw [List.append_nil] at hreads
        rw [List.nil_append, hreads.answersAt_iff, Option.isSome_iff_exists]
        obtain ⟨type, htype, -⟩ := exists_getTypeInfo_of_or hname
        exact ⟨type, htype⟩
      · exact answers_refused hb _
  | @readOnlyMemory before encoded rest k hbefore hencodes hname _ =>
      rcases hbefore.eq_nil_or with rfl | ⟨b, rest, rfl, hb⟩
      · obtain ⟨type, htype, -⟩ := exists_getTypeInfo hname (by decide)
        rw [List.nil_append, (ReadsNumber.genericInst hencodes).answersAt_iff,
          Option.isSome_iff_exists]
        exact ⟨type, htype⟩
      · exact answers_refused hb _

/-- In each type to be boxed the number of the type is read behind the code of a value type. -/
theorem Boxed.exists_read {e : Signature} {operand : BoxOperand} (h : Boxed metadata e operand) :
    ∃ before rest token behind type, e = before ++ ELEMENT_TYPE_VALUETYPE :: rest ∧
      (∀ tail, corSigUncompressTokenAt (rest ++ tail) = some (token, behind ++ tail)) ∧
      metadata.getTypeInfo token = some type ∧
      (type.name = cancellationToken ∨ type.name = timeSpan ∨
        type.name = Metadata.readOnlyMemory) := by
  cases h with
  | @valueType before encoded k hbefore hencodes hname =>
      have hread : ∀ tail, corSigUncompressTokenAt (encoded ++ tail) =
          some (decodeToken k, [] ++ tail) := corSigUncompressTokenAt_append hencodes
      obtain ⟨type, htype, hname⟩ := exists_getTypeInfo_of_or hname
      exact ⟨before, encoded, decodeToken k, [], type, rfl, hread, htype,
        or_assoc.mp (Or.inl hname)⟩
  | @readOnlyMemory before encoded rest k hbefore hencodes hname _ =>
      obtain ⟨type, htype, hname⟩ := exists_getTypeInfo hname (by decide)
      refine ⟨before ++ [ELEMENT_TYPE_GENERICINST], encoded ++ rest, decodeToken k, rest, type, ?_,
        fun tail => ?_, htype, Or.inr (Or.inr hname)⟩
      · simp
      · rw [List.append_assoc]
        exact corSigUncompressTokenAt_append hencodes (rest ++ tail)

/-- What is behind a number is a part of the bytes. -/
theorem exists_eq_append_of_read {sig behind : Signature} {token : MdToken}
    (h : corSigUncompressTokenAt sig = some (token, behind)) : ∃ e, sig = e ++ behind := by
  obtain ⟨⟨n, rest⟩, hread, hpair⟩ := Option.map_eq_some_iff.mp h
  obtain rfl : rest = behind := congrArg Prod.snd hpair
  have hbig : ∀ {b : UInt8} {sig : Signature}, bigData b sig = some (n, rest) →
      ∃ e, sig = e ++ rest := by
    intro b sig hbig
    unfold bigData at hbig
    split at hbig
    next =>
      split at hbig
      next c sig =>
        cases hbig
        exact ⟨[c], rfl⟩
      next => cases hbig
    next =>
      split at hbig
      next c d e sig =>
        cases hbig
        exact ⟨[c, d, e], rfl⟩
      next => cases hbig
  cases sig with
  | nil => cases hread
  | cons b sig =>
      rw [corSigUncompressDataAt] at hread
      split_ifs at hread
      · obtain ⟨-, rfl⟩ := Prod.mk.inj (Option.some.inj hread)
        exact ⟨[b], rfl⟩
      · obtain ⟨e, rfl⟩ := hbig hread
        exact ⟨b :: e, rfl⟩

end Boxed

/-- The signature of a target, of any convention and with any numbers of type parameters and of
parameters. -/
structure TargetSignature where
  header : SigHeader
  ret : Signature
  params : List Signature
  ret_declared : Derives documented (.declared true) ret
  params_declared : ∀ e ∈ params, IsDeclared documented false e
  length_params : params.length = header.parameters

namespace TargetSignature

variable (target : TargetSignature)

def signature : MethodSignature := target.header.encode (target.ret ++ target.params.flatten)

/-- The last parameter, if there is one. -/
def last : Option Signature := target.params.getLast?

variable (metadata : MetadataImport)

/-- There is one box, for exactly the type of the last parameter, or there is none and the last
parameter has no type to be boxed. -/
def BoxesLast : Prop :=
  (∃ e operand, target.last = some e ∧ Boxed metadata e operand ∧
      boxes metadata target.signature = some [operand]) ∨
    (∀ e operand, target.last = some e → ¬ Boxed metadata e operand) ∧
      boxes metadata target.signature = some []

section Plain

/-- Each number of the header is one byte, and no type but one that `ParseType` derives holds a
function pointer. -/
def IsPlain : Prop :=
  target.header.IsShort ∧
    (Derives implemented .type target.ret ∨ Derives pointerless (.declared true) target.ret) ∧
    ∀ e ∈ target.params, Derives implemented .type e ∨ IsDeclared pointerless false e

/-- `ParseType` skips all the types when the last is to be boxed, and it refuses a return type to
be boxed when there is no parameter. -/
def SkipsTypes : Prop :=
  (∀ e operand, target.last = some e → Boxed metadata e operand →
      ∀ t ∈ target.ret :: target.params, Derives implemented .type t) ∧
    (target.params = [] → ∀ operand, Boxed metadata target.ret operand →
      ¬ Derives implemented .type target.ret)

/-- `GetTypeInfo` ends for the value type at the position of the last parameter, when it is
reached, or of the return type, when there is no parameter. -/
def AnswersLast : Prop :=
  (∀ t ∈ (target.ret :: target.params).dropLast, Derives implemented .type t) →
    Answers metadata ((target.ret :: target.params).getLast (List.cons_ne_nil _ _))

/-- Nowhere in the signature a value type to be boxed is read behind its code, and the search for
its name ends. -/
def NamesNone : Prop :=
  ∀ before rest token behind,
    target.signature.data = before ++ ELEMENT_TYPE_VALUETYPE :: rest →
      corSigUncompressTokenAt rest = some (token, behind) →
      ∃ type, metadata.getTypeInfo token = some type ∧ type.name ≠ cancellationToken ∧
        type.name ≠ timeSpan ∧ type.name ≠ readOnlyMemory

variable {target metadata}

theorem last_declared {e : Signature} (h : target.last = some e) :
    IsDeclared documented false e :=
  target.params_declared e (List.mem_of_getLast? h)

theorem reached_of_short (h : target.header.IsShort) :
    reached target.signature =
      repeatParser parseType target.params.length (target.ret ++ target.params.flatten) := by
  obtain ⟨-, hcount, htypes⟩ := h.read (target.ret ++ target.params.flatten)
  rw [reached, signature, hcount, ← target.length_params, h.indexOfReturnType, htypes]

theorem parseType_eq_nil_iff {e : Signature} :
    parseType e = some [] ↔ Derives implemented .type e := by
  rw [parseType, parseTypeAt_eq_some_iff (Nat.le_refl _)]
  simp

/-- Every type of a plain signature is skipped or refused. -/
theorem IsPlain.implemented_or_refused (h : target.IsPlain) {t : Signature}
    (ht : t ∈ target.ret :: target.params) :
    Derives implemented .type t ∨ ∀ tail, parseType (t ++ tail) = none := by
  rcases List.mem_cons.mp ht with rfl | ht
  · rcases h.2.1 with himplemented | hpointerless
    · exact Or.inl himplemented
    · exact IsDeclared.implemented_or_refused ⟨_, hpointerless, Or.inl rfl⟩
  · rcases h.2.2 t ht with himplemented | hpointerless
    · exact Or.inl himplemented
    · exact hpointerless.implemented_or_refused

theorem IsPlain.parseType_eq (h : target.IsPlain) {t : Signature}
    (ht : t ∈ target.ret :: target.params) :
    parseType t = some [] ∧ Derives implemented .type t ∨
      parseType t = none ∧ ¬ Derives implemented .type t := by
  by_cases himplemented : Derives implemented .type t
  · exact Or.inl ⟨parseType_eq_nil_iff.mpr himplemented, himplemented⟩
  · have hrefused := (h.implemented_or_refused ht).resolve_left himplemented []
    rw [List.append_nil] at hrefused
    exact Or.inr ⟨hrefused, himplemented⟩

open Classical in
/-- The last parameter is reached when all the types before it are skipped. -/
theorem reached_of_plain (h : target.IsPlain) {before : List Signature} {e : Signature}
    (hparams : target.params = before ++ [e]) :
    reached target.signature =
      if ∀ t ∈ target.ret :: before, Derives implemented .type t then some e else none := by
  have hskips : ∀ t ∈ target.ret :: before,
      Derives implemented .type t ∨ ∀ tail, parseType (t ++ tail) = none := by
    intro t ht
    apply h.implemented_or_refused
    rw [hparams, ← List.cons_append]
    exact List.mem_append_left _ ht
  have hrepeat := repeatParser_parseType hskips e
  rw [reached_of_short h.1, hparams, ← hrepeat]
  simp

theorem reached_of_plain_nil (h : target.IsPlain) (hparams : target.params = []) :
    reached target.signature = some target.ret := by
  rw [reached_of_short h.1, hparams]
  simp [repeatParser]

/-- What is boxed for a type of a plain signature that is to be boxed. -/
theorem IsPlain.boxesAt_of_boxed (h : target.IsPlain) {t : Signature} {operand : BoxOperand}
    (ht : t ∈ target.ret :: target.params) (hboxed : Boxed metadata t operand) :
    boxesAt metadata t = some [operand] ∧ Derives implemented .type t ∨
      boxesAt metadata t = some [] ∧ ¬ Derives implemented .type t := by
  rw [Metadata.boxesAt_of_boxed hboxed]
  rcases h.parseType_eq ht with ⟨hparse, hderives⟩ | ⟨hparse, hnot⟩
  · rw [hparse]
    exact Or.inl ⟨rfl, hderives⟩
  · rw [hparse]
    exact Or.inr ⟨rfl, hnot⟩

/-- Without a parameter, the boxes are those at the return type. -/
theorem boxesLast_iff_of_nil (h : target.IsPlain) (hparams : target.params = []) :
    target.BoxesLast metadata ↔ target.SkipsTypes metadata ∧ target.AnswersLast metadata := by
  have hlast : target.last = none := by
    rw [last, hparams]
    rfl
  have hanswers : target.AnswersLast metadata ↔ Answers metadata target.ret := by
    simp [AnswersLast, hparams]
  have hboxes : boxes metadata target.signature = boxesAt metadata target.ret := by
    rw [boxes, reached_of_plain_nil h hparams]
    rfl
  have hproperty : target.BoxesLast metadata ↔ boxesAt metadata target.ret = some [] := by
    rw [BoxesLast, hlast, hboxes]
    simp
  have hskips : target.SkipsTypes metadata ↔ ∀ operand, Boxed metadata target.ret operand →
      ¬ Derives implemented .type target.ret := by
    simp [SkipsTypes, hlast, hparams]
  rw [hproperty, hskips, hanswers]
  by_cases hboxed : ∃ operand, Boxed metadata target.ret operand
  · obtain ⟨operand, hboxed⟩ := hboxed
    rcases h.boxesAt_of_boxed List.mem_cons_self hboxed with ⟨hbox, hderives⟩ | ⟨hbox, hnot⟩
    · rw [hbox]
      refine iff_of_false (by simp) ?_
      rintro ⟨hnot, -⟩
      exact hnot operand hboxed hderives
    · exact iff_of_true hbox ⟨fun _ _ => hnot, hboxed.answers⟩
  · rw [boxesAt_of_not_boxed ⟨_, target.ret_declared, Or.inl rfl⟩ (not_exists.mp hboxed)]
    constructor
    · exact fun hanswers => ⟨fun operand hret => absurd ⟨operand, hret⟩ hboxed, hanswers⟩
    · exact fun h => h.2

theorem answersLast_iff_of_concat {before : List Signature} {e : Signature}
    (hparams : target.params = before ++ [e]) :
    target.AnswersLast metadata ↔
      ((∀ t ∈ target.ret :: before, Derives implemented .type t) → Answers metadata e) := by
  have hdrop : (target.ret :: target.params).dropLast = target.ret :: before := by
    rw [hparams, ← List.cons_append, List.dropLast_concat]
  simp only [AnswersLast, hdrop]
  simp [hparams]

theorem skipsTypes_iff_of_concat {before : List Signature} {e : Signature}
    (hparams : target.params = before ++ [e]) :
    target.SkipsTypes metadata ↔ ∀ operand, Boxed metadata e operand →
      (∀ t ∈ target.ret :: before, Derives implemented .type t) ∧
        Derives implemented .type e := by
  have hall : (∀ t ∈ target.ret :: target.params, Derives implemented .type t) ↔
      (∀ t ∈ target.ret :: before, Derives implemented .type t) ∧
        Derives implemented .type e := by
    rw [hparams, ← List.cons_append, List.forall_mem_append, List.forall_mem_singleton]
  rw [SkipsTypes, last, hparams, List.getLast?_concat]
  constructor
  · intro hskips operand hboxed
    rw [hparams] at hall
    exact hall.mp (hskips.1 e operand rfl hboxed)
  · intro hskips
    rw [hparams] at hall
    refine ⟨?_, fun hnil => absurd hnil (List.concat_ne_nil _ _)⟩
    rintro _ operand ⟨⟩ hboxed
    exact hall.mpr (hskips operand hboxed)

/-- With parameters, the boxes are those at the last one, when it is reached. -/
theorem boxesLast_iff_of_concat (h : target.IsPlain) {before : List Signature} {e : Signature}
    (hparams : target.params = before ++ [e]) :
    target.BoxesLast metadata ↔ target.SkipsTypes metadata ∧ target.AnswersLast metadata := by
  have hlast : target.last = some e := by
    rw [last, hparams, List.getLast?_concat]
  have hmem : e ∈ target.ret :: target.params := by
    rw [hparams]
    simp
  have hdeclared := last_declared hlast
  have hboxes := reached_of_plain h hparams
  have hnotBoxed : (∀ e' operand, some e = some e' → ¬ Boxed metadata e' operand) ↔
      ∀ operand, ¬ Boxed metadata e operand := by
    constructor
    · exact fun hnone operand => hnone e operand rfl
    · rintro hnone _ operand ⟨⟩
      exact hnone operand
  rw [skipsTypes_iff_of_concat hparams, answersLast_iff_of_concat hparams]
  by_cases hbefore : ∀ t ∈ target.ret :: before, Derives implemented .type t
  · rw [if_pos hbefore] at hboxes
    have hproperty : target.BoxesLast metadata ↔
        (∃ operand, Boxed metadata e operand ∧ boxesAt metadata e = some [operand]) ∨
          (∀ operand, ¬ Boxed metadata e operand) ∧ boxesAt metadata e = some [] := by
      rw [BoxesLast, hlast, boxes, hboxes, hnotBoxed]
      simp
    rw [hproperty]
    by_cases hboxed : ∃ operand, Boxed metadata e operand
    · obtain ⟨operand, hboxed⟩ := hboxed
      rcases h.boxesAt_of_boxed hmem hboxed with ⟨hbox, hderives⟩ | ⟨hbox, hnot⟩
      · exact iff_of_true (Or.inl ⟨operand, hboxed, hbox⟩)
          ⟨fun _ _ => ⟨hbefore, hderives⟩, fun _ => hboxed.answers⟩
      · rw [hbox]
        refine iff_of_false ?_ fun hskips => hnot (hskips.1 operand hboxed).2
        rintro (⟨_, _, hone⟩ | ⟨hnone, -⟩)
        · cases hone
        · exact hnone operand hboxed
    · have hnone := not_exists.mp hboxed
      have hnil := boxesAt_of_not_boxed hdeclared hnone
      constructor
      · rintro (⟨operand, hboxed, -⟩ | ⟨-, hbox⟩)
        · exact absurd hboxed (hnone operand)
        · exact ⟨fun operand hboxed => absurd hboxed (hnone operand), fun _ => hnil.mp hbox⟩
      · rintro ⟨-, hanswers⟩
        exact Or.inr ⟨hnone, hnil.mpr (hanswers hbefore)⟩
  · rw [if_neg hbefore] at hboxes
    have hproperty : target.BoxesLast metadata ↔ ∀ operand, ¬ Boxed metadata e operand := by
      rw [BoxesLast, hlast, boxes, hboxes, hnotBoxed]
      simp
    rw [hproperty]
    constructor
    · intro hnone
      exact ⟨fun operand hboxed => absurd hboxed (hnone operand),
        fun himplemented => absurd himplemented hbefore⟩
    · intro hskips operand hboxed
      exact hbefore (hskips.1 operand hboxed).1

/-- In a plain signature the last argument is boxed as it has to be exactly when the types from
the return type to the last parameter are ones that `ParseType` knows or the last parameter is
not to be boxed. -/
theorem boxesLast_iff_of_plain (h : target.IsPlain) :
    target.BoxesLast metadata ↔ target.SkipsTypes metadata ∧ target.AnswersLast metadata := by
  rcases List.eq_nil_or_concat' target.params with hparams | ⟨before, e, hparams⟩
  · exact boxesLast_iff_of_nil h hparams
  · exact boxesLast_iff_of_concat h hparams

/-- The position is one in the bytes of the signature. -/
theorem exists_eq_append_of_reached {sig : Signature} (h : reached target.signature = some sig) :
    ∃ before, target.signature.data = before ++ sig := by
  have hrepeat : ∀ (n : Nat) (sig rest : Signature), repeatParser parseType n sig = some rest →
      ∃ e, sig = e ++ rest := by
    intro n
    induction n with
    | zero =>
        intro sig rest hread
        exact ⟨[], Option.some.inj hread⟩
    | succ n ih =>
        intro sig rest hread
        obtain ⟨middle, hfirst, hmore⟩ := Option.bind_eq_some_iff.mp hread
        obtain ⟨e, rfl, -⟩ := (parseTypeAt_eq_some_iff (Nat.le_refl _)).mp hfirst
        obtain ⟨e', rfl⟩ := ih middle rest hmore
        exact ⟨e ++ e', (List.append_assoc _ _ _).symm⟩
  obtain ⟨e, he⟩ := hrepeat _ _ _ h
  refine ⟨target.signature.data.take target.signature.indexOfReturnType ++ e, ?_⟩
  rw [List.append_assoc, ← he, List.take_append_drop]

/-- At no position a box is inserted when no type to be boxed is read in the bytes. -/
theorem boxesAt_of_namesNone (h : target.NamesNone metadata) {before sig : Signature}
    (hsig : target.signature.data = before ++ sig) : boxesAt metadata sig = some [] := by
  have hmemory : ∀ before sig, target.signature.data = before ++ sig →
      boxReadOnlyMemory metadata sig = some [] := by
    intro before sig hsig
    match sig, hsig with
    | [], _ => rfl
    | [_], _ => rfl
    | b :: c :: rest, hsig =>
        rw [boxReadOnlyMemory]
        split_ifs with hcodes
        · cases hread : corSigUncompressTokenAt rest with
          | none => rfl
          | some read =>
              have hdata : target.signature.data =
                  (before ++ [b]) ++ ELEMENT_TYPE_VALUETYPE :: rest := by
                rw [hsig, hcodes.2]
                simp
              obtain ⟨type, htype, -, -, hname⟩ := h _ rest read.1 read.2 hdata hread
              rw [Option.elim_some]
              simp only [htype, Option.map_some, if_neg hname]
        · rfl
  cases sig with
  | nil => rfl
  | cons b rest =>
      rw [boxesAt]
      split_ifs with hcode
      · cases hread : corSigUncompressTokenAt rest with
        | none => rfl
        | some read =>
            rw [hcode] at hsig
            obtain ⟨type, htype, htoken, hspan, -⟩ := h _ rest read.1 read.2 hsig hread
            obtain ⟨e, he⟩ := exists_eq_append_of_read hread
            have hbehind := hmemory (before ++ ELEMENT_TYPE_VALUETYPE :: e) read.2 (by
              rw [hsig, he]
              simp)
            rw [Option.elim_some]
            simp only [htype, Option.bind_some, hbehind, Option.map_some, htoken, hspan, or_self,
              if_false, List.append_nil]
      · exact hmemory before (b :: rest) hsig

/-- Wherever `ParseType` stops, nothing is boxed when no type to be boxed is read in the bytes. -/
theorem boxesLast_of_namesNone (h : target.NamesNone metadata) : target.BoxesLast metadata := by
  refine Or.inr ⟨fun e operand hlast hboxed => ?_, ?_⟩
  · obtain ⟨before, rest, token, behind, type, rfl, hread, htype, hname⟩ := hboxed.exists_read
    obtain ⟨front, back, hparams⟩ := List.append_of_mem (List.mem_of_getLast? hlast)
    obtain ⟨header, hheader⟩ : ∃ header, target.signature.data =
        header ++ (target.ret ++ target.params.flatten) := by
      refine ⟨target.header.convention :: ((if 0 < target.header.typeParameters then
        compress target.header.typeParameters else []) ++ compress target.header.parameters), ?_⟩
      rw [signature, SigHeader.encode]
      simp
    have hdata : target.signature.data =
        (header ++ target.ret ++ front.flatten ++ before) ++
          ELEMENT_TYPE_VALUETYPE :: (rest ++ back.flatten) := by
      rw [hheader, hparams]
      simp
    obtain ⟨type', htype', htoken, hspan, hmemory⟩ := h _ _ _ _ hdata (hread _)
    rw [htype] at htype'
    obtain rfl := Option.some.inj htype'
    rcases hname with hname | hname | hname
    · exact htoken hname
    · exact hspan hname
    · exact hmemory hname
  · rw [boxes]
    cases hreached : reached target.signature with
    | none => rfl
    | some sig =>
        obtain ⟨before, hsig⟩ := exists_eq_append_of_reached hreached
        exact boxesAt_of_namesNone h hsig

end Plain

/-- In a plain signature the last argument is boxed as it has to be exactly when the types from
the return type to the last parameter are ones that `ParseType` knows or the last parameter is
not to be boxed; in any signature it is when no type to be boxed is read in its bytes. -/
theorem boxesLast_iff {target : TargetSignature} {metadata : MetadataImport} :
    (target.IsPlain → (target.BoxesLast metadata ↔
      target.SkipsTypes metadata ∧ target.AnswersLast metadata)) ∧
      (target.NamesNone metadata → target.BoxesLast metadata) :=
  ⟨boxesLast_iff_of_plain, boxesLast_of_namesNone⟩

section NoParameter

/-- A module that refers to `CancellationToken`. -/
def tokenMetadata : MetadataImport :=
  { MetadataImport.empty with
    getTypeRefProps token := if token = 0x01000001 then some cancellationToken else none }

/-- The type of a value of `CancellationToken`. -/
def tokenType : Signature := [ELEMENT_TYPE_VALUETYPE, 0x05]

theorem encodesNumber_token : EncodesNumber 5 [0x05] :=
  @EncodesNumber.one 0x05 (by decide)

theorem tokenType_declared (isReturn : Bool) : Derives documented (.declared isReturn) tokenType :=
  .byValue .noMods (.defOrRef (Or.inl rfl) encodesNumber_token)

theorem boxed_tokenType : Boxed tokenMetadata tokenType (.token 0x01000001) :=
  .valueType precedes_nil encodesNumber_token (Or.inl (by decide))

/-- `CancellationToken Get()`, of an instance. -/
def getToken : TargetSignature where
  header := ⟨0x20, 0, by decide, 0⟩
  ret := tokenType
  params := []
  ret_declared := tokenType_declared true
  params_declared := nofun
  length_params := rfl

/-- `void Wait(IntPtr, CancellationToken)`, without an instance. -/
def waitNative : TargetSignature where
  header := ⟨0x00, 0, by decide, 2⟩
  ret := [ELEMENT_TYPE_VOID]
  params := [[ELEMENT_TYPE_I], tokenType]
  ret_declared := .void .noMods
  params_declared e he := by
    have hnative : ELEMENT_TYPE_I ∈ documentedPrimitives := by decide
    rcases List.mem_cons.mp he with rfl | he
    · exact ⟨[ELEMENT_TYPE_I], .byValue .noMods (.primitive hnative), Or.inl rfl⟩
    · obtain rfl := List.mem_singleton.mp he
      exact ⟨tokenType, tokenType_declared false, Or.inl rfl⟩
  length_params := rfl

/-- The replacement of a method of `Source` by a wrapper with the signature. -/
def sourceReplacement (name : Text) (signatureTypes : List Text) (wrapper : Signature) :
    MethodReplacement where
  callerMethod := { assembly := { name := [] }, typeName := [], methodName := [] }
  targetMethod :=
    { assembly := { name := [] }
      typeName := text "Source"
      methodName := name
      signatureTypes := signatureTypes }
  wrapperMethod :=
    { assembly := { name := [] }
      typeName := text "Wrapper"
      methodName := name
      action := text "ReplaceTargetMethod"
      methodSignature := wrapper }

/-- A method of `Source` with the signature. -/
def sourceMethod (name : Text) (signature : MethodSignature) : FunctionInfo where
  id := 0x0A000001
  name := name
  type := ⟨0x01000002, text "Source"⟩
  signature := signature

/-- The object on which `Get` is called is boxed as a `CancellationToken`, and the token that is
passed behind a native integer is not. -/
theorem not_boxesLast :
    (isTarget tokenMetadata
        (sourceReplacement (text "Get") [cancellationToken]
          [0x00, 4, ELEMENT_TYPE_OBJECT, ELEMENT_TYPE_OBJECT, ELEMENT_TYPE_I4, ELEMENT_TYPE_I4,
            ELEMENT_TYPE_I8])
        (sourceMethod (text "Get") getToken.signature) = true ∧
      boxes tokenMetadata getToken.signature = some [.token 0x01000001] ∧
      ¬ getToken.BoxesLast tokenMetadata) ∧
    isTarget tokenMetadata
        (sourceReplacement (text "Wait") [text "System.Void", text "_", cancellationToken]
          [0x00, 5, ELEMENT_TYPE_VOID, ELEMENT_TYPE_OBJECT, ELEMENT_TYPE_OBJECT, ELEMENT_TYPE_I4,
            ELEMENT_TYPE_I4, ELEMENT_TYPE_I8])
        (sourceMethod (text "Wait") waitNative.signature) = true ∧
      boxes tokenMetadata waitNative.signature = some [] ∧
      ¬ waitNative.BoxesLast tokenMetadata := by
  have hget : boxes tokenMetadata getToken.signature = some [.token 0x01000001] := by
    decide +kernel
  have hwait : boxes tokenMetadata waitNative.signature = some [] := by decide +kernel
  refine ⟨⟨by decide +kernel, hget, ?_⟩, by decide +kernel, hwait, ?_⟩
  · rintro (⟨e, _, hlast, -⟩ | ⟨-, hboxes⟩)
    · cases hlast
    · rw [hget] at hboxes
      cases hboxes
  · rintro (⟨_, _, _, _, hboxes⟩ | ⟨hnone, -⟩)
    · rw [hwait] at hboxes
      cases hboxes
    · exact hnone tokenType _ rfl boxed_tokenType

/-- `void Wait(CancellationToken)`, without an instance. -/
def waitToken : TargetSignature where
  header := ⟨0x00, 0, by decide, 1⟩
  ret := [ELEMENT_TYPE_VOID]
  params := [tokenType]
  ret_declared := .void .noMods
  params_declared e he := by
    obtain rfl := List.mem_singleton.mp he
    exact ⟨tokenType, tokenType_declared false, Or.inl rfl⟩
  length_params := rfl

theorem implemented_waitToken :
    ∀ t ∈ waitToken.ret :: waitToken.params, Derives implemented .type t := by
  have hvoid : ELEMENT_TYPE_VOID ∈ primitiveTypes := by decide
  intro t ht
  rcases List.mem_cons.mp ht with rfl | ht
  · exact .primitive hvoid
  · obtain rfl := List.mem_singleton.mp ht
    exact .defOrRef (Or.inl rfl) encodesNumber_token

/-- The token is boxed when every type is known. -/
theorem boxesLast_waitToken :
    waitToken.IsPlain ∧ waitToken.SkipsTypes tokenMetadata ∧
      waitToken.AnswersLast tokenMetadata ∧ waitToken.BoxesLast tokenMetadata := by
  have hplain : waitToken.IsPlain :=
    ⟨by decide, Or.inl (implemented_waitToken _ List.mem_cons_self),
      fun e he => Or.inl (implemented_waitToken e (List.mem_cons_of_mem _ he))⟩
  have hskips : waitToken.SkipsTypes tokenMetadata :=
    ⟨fun _ _ _ _ => implemented_waitToken, fun hnil => by cases hnil⟩
  have hanswers : waitToken.AnswersLast tokenMetadata := fun _ => boxed_tokenType.answers
  exact ⟨hplain, hskips, hanswers, (boxesLast_iff.1 hplain).mpr ⟨hskips, hanswers⟩⟩

end NoParameter

end TargetSignature

end SignalFxTracing.Metadata
