import SignalFxTracing.Metadata.TypeReading

/-!
# When a result is unboxed to the type that the caller expects

A token is found for the return type itself, or for the argument that is
picked for its variable. It is the right one when that argument means the same
as the one at the call site.

## Implementation notes

Through a MethodSpec the arguments are those of the method, also for the
variables of its type. A generic value type is emitted as it stands in the
target's signature, with the target's variables.
-/

namespace SignalFxTracing.Metadata

open Clr

section Emitted

variable (emit : MetadataEmit)

/-- The interfaces can give a token for the type. -/
def Emits : SiteType → Prop
  | .basic b => ∃ name, managedTypeName b = some name ∧ (mscorlibTypeRef emit name).isSome
  | .named name => name.isValueType = true
  | .var v => (emit.getTokenFromTypeSpec ((TypeVariable.encode v).take 2)).isSome
  | .szArray _ => False
  | .array _ _ => False
  | .genericInst name arg args =>
      name.isValueType = true ∧ SiteType.hasNative (.genericInst name arg args) = false ∧
        (emit.getTokenFromTypeSpec (TypeTree.encode (.genericInst name arg args))).isSome

/-- Two bytes are enough for a variable. -/
def ShortVariable (t : SiteType) : Prop := ∀ v, t = .var v → v.index.val < 0x80

/-- The token for a type. -/
def tokenFor : SiteType → Option MdToken
  | .basic b => (managedTypeName b).bind (mscorlibTypeRef emit)
  | .named name => if name.isValueType then some name.mdToken else none
  | .var v => emit.getTokenFromTypeSpec ((TypeVariable.encode v).take 2)
  | .szArray _ => none
  | .array _ _ => none
  | .genericInst name arg args =>
      if name.isValueType ∧ SiteType.hasNative (.genericInst name arg args) = false then
        emit.getTokenFromTypeSpec (TypeTree.encode (.genericInst name arg args))
      else none

theorem tokenFor_isSome {t : SiteType} : (tokenFor emit t).isSome ↔ Emits emit t := by
  cases t with
  | basic b =>
      rw [tokenFor, Emits]
      cases managedTypeName b with
      | none => simp
      | some name => simp
  | named name => simp [tokenFor, Emits]
  | var v => exact Iff.rfl
  | szArray t => simp [tokenFor, Emits]
  | array t bounds => simp [tokenFor, Emits]
  | genericInst name arg args =>
      rw [tokenFor, Emits]
      split_ifs with h
      · simp [h.1, h.2]
      · simp only [Option.isSome_none, Bool.false_eq_true, false_iff]
        exact fun hemits => h ⟨hemits.1, hemits.2.1⟩

/-- A generic type, read from its first byte on. -/
theorem genericInstToken_encode {name : TypeToken} {arg : SiteType} {args : List SiteType}
    (h : SiteType.Encodable (.genericInst name arg args)) (tail : Signature) :
    genericInstToken emit (TypeTree.encode (.genericInst name arg args) ++ tail) =
      tokenFor emit (.genericInst name arg args) := by
  have hcode : (TypeTree.encode (.genericInst name arg args) ++ tail)[1]? = some name.code := rfl
  have hlength : (TypeTree.encode (.genericInst name arg args) ++ tail).length - tail.length =
      (TypeTree.encode (.genericInst name arg args)).length := by simp
  rw [genericInstToken, hcode, parseType_encode h tail, tokenFor, TypeToken.code]
  cases name.isValueType with
  | false => rfl
  | true =>
      cases SiteType.hasNative (.genericInst name arg args) with
      | true => rfl
      | false =>
          rw [if_pos rfl, if_neg (not_not_intro rfl), if_neg Bool.false_ne_true,
            Option.bind_some, hlength, List.take_left, if_pos ⟨rfl, rfl⟩]

/-- What is read of a type that is no variable and not generic. -/
theorem elementTypeToken_encode {t : SiteType} (hvar : ∀ v, t ≠ .var v)
    (hgeneric : ∀ name arg args, t ≠ .genericInst name arg args) (tail : Signature) :
    returnTypeTokenforValueTypeElementType emit (t.encode ++ tail) = tokenFor emit t := by
  cases t with
  | basic b =>
      have hbasic : ∀ b ∈ basicTypes, b ≠ ELEMENT_TYPE_VALUETYPE := forall_basicTypes (by decide)
      exact if_neg (hbasic b b.2)
  | named name =>
      have hencodes := encodesNumber_compress (Nat.lt_trans name.token.isLt (by decide))
      rw [TypeTree.encode, TypeToken.encode, List.cons_append, tokenFor, TypeToken.code]
      cases name.isValueType with
      | false => rfl
      | true =>
          rw [if_pos rfl, returnTypeTokenforValueTypeElementType, if_pos rfl,
            corSigUncompressToken, corSigUncompressData_append hencodes]
          rfl
  | var v => exact absurd rfl (hvar v)
  | szArray t => rfl
  | array t bounds => rfl
  | genericInst name arg args => exact absurd rfl (hgeneric name arg args)

/-- What is read of a type argument. -/
theorem argumentToken_encode {t : SiteType} (h : t.Encodable) (tail : Signature) :
    argumentToken emit (t.encode ++ tail) = tokenFor emit t := by
  cases t with
  | basic b =>
      have hbasic : ∀ b ∈ basicTypes, ¬(b = ELEMENT_TYPE_MVAR ∨ b = ELEMENT_TYPE_VAR) ∧
          b ≠ ELEMENT_TYPE_GENERICINST := forall_basicTypes (by decide)
      rw [← elementTypeToken_encode emit (by simp) (by simp) tail]
      exact (if_neg (hbasic b b.2).1).trans (if_neg (hbasic b b.2).2)
  | named name =>
      rw [← elementTypeToken_encode emit (by simp) (by simp) tail]
      rw [TypeTree.encode, TypeToken.encode, List.cons_append, argumentToken]
      rcases name.code_cases with hcode | hcode
      all_goals
        rw [hcode, if_neg (by decide), if_neg (by decide)]
  | var v =>
      have htake : ∀ (n : Nat) (b : UInt8) (tail : Signature),
          (b :: compress n ++ tail).take 2 = (b :: compress n).take 2 := by
        intro n b tail
        rw [compress]
        split_ifs
        all_goals rfl
      rw [tokenFor, TypeTree.encode, TypeVariable.encode, ← htake _ _ tail, List.cons_append,
        argumentToken, if_pos v.code_cases.symm]
  | szArray t => rfl
  | array t bounds => rfl
  | genericInst name arg args => exact genericInstToken_encode emit h tail

end Emitted

section Meanings

/-- A number of more than one byte starts with a byte that is not a number. -/
theorem take_compress {n : Nat} (h : 0x80 ≤ n) (hn : n < 2 ^ 29) :
    ∃ b : UInt8, (compress n).take 1 = [b] ∧ 0x80 ≤ b.toNat := by
  have hbyte : ∀ {k : Nat}, 0x80 ≤ k → k < 2 ^ 8 → 0x80 ≤ (UInt8.ofNat k).toNat :=
    fun hk hlt => by rwa [UInt8.toNat_ofNat_of_lt' hlt]
  rw [compress, if_neg (by omega)]
  split_ifs
  · exact ⟨_, rfl, hbyte (by omega) (by omega)⟩
  · exact ⟨_, rfl, hbyte (by omega) (by omega)⟩

theorem compress_ne_singleton {n : Nat} {b : UInt8} (hb : 0x80 ≤ b.toNat) :
    compress n ≠ [b] := by
  intro h
  by_cases hn : n < 0x80
  · rw [compress_of_lt hn] at h
    obtain rfl := List.singleton_inj.mp h
    rw [UInt8.toNat_ofNat_of_lt' (Nat.lt_trans hn (by decide))] at hb
    omega
  · rw [compress, if_neg hn] at h
    split_ifs at h
    all_goals cases h

/-- The first two bytes of a variable with a longer number are no type. -/
theorem encode_ne_take {v : TypeVariable} (h : 0x80 ≤ v.index.val) (t : SiteType) :
    t.encode ≠ v.encode.take 2 := by
  obtain ⟨b, htake, hb⟩ := take_compress h (Nat.lt_trans v.index.isLt (by decide))
  rw [TypeVariable.encode, List.take_succ_cons, htake]
  intro ht
  have hcode : v.code ≠ ELEMENT_TYPE_VALUETYPE ∧ v.code ≠ ELEMENT_TYPE_CLASS ∧
      v.code ≠ ELEMENT_TYPE_SZARRAY ∧ v.code ≠ ELEMENT_TYPE_ARRAY ∧
        v.code ≠ ELEMENT_TYPE_GENERICINST := by
    rcases v.code_cases with hcode | hcode
    all_goals
      rw [hcode]
      decide
  cases t with
  | basic b => exact List.cons_ne_nil _ _ (List.cons.inj ht).2.symm
  | named name =>
      have hhead := (List.cons.inj ht).1
      rcases name.code_cases with hname | hname
      · exact hcode.1 (hhead.symm.trans hname)
      · exact hcode.2.1 (hhead.symm.trans hname)
  | var w => exact compress_ne_singleton hb (List.cons.inj ht).2
  | szArray t => exact hcode.2.2.1 (List.cons.inj ht).1.symm
  | array t bounds => exact hcode.2.2.2.1 (List.cons.inj ht).1.symm
  | genericInst name arg args => exact hcode.2.2.2.2 (List.cons.inj ht).1.symm

variable {emit : MetadataEmit} (meaning : TypeMeaning emit)

/-- A token of a short variable or of another type means that type, and no other type than one
with its meaning. -/
theorem ofToken_tokenFor {t u : SiteType} {token : MdToken} (h : tokenFor emit t = some token) :
    meaning.ofToken token = meaning.ofType u ↔
      ShortVariable t ∧ meaning.ofType t = meaning.ofType u := by
  have hof : ShortVariable t → meaning.ofToken token = meaning.ofType t →
      (meaning.ofToken token = meaning.ofType u ↔
        ShortVariable t ∧ meaning.ofType t = meaning.ofType u) := by
    intro hshort htoken
    rw [htoken]
    exact (and_iff_right hshort).symm
  cases t with
  | basic b =>
      obtain ⟨name, hname, htoken⟩ := Option.bind_eq_some_iff.mp h
      exact hof (by simp [ShortVariable]) (meaning.ofToken_typeRef b name token hname htoken)
  | named name =>
      rw [tokenFor] at h
      split_ifs at h with hvalue
      obtain rfl := Option.some.inj h
      exact hof (by simp [ShortVariable]) (meaning.ofToken_named name hvalue)
  | var v =>
      rw [tokenFor] at h
      by_cases hshort : v.index.val < 0x80
      · have hbytes : v.encode.take 2 = TypeTree.encode (.var v : SiteType) := by
          rw [TypeTree.encode, TypeVariable.encode, compress_of_lt hshort]
          rfl
        rw [hbytes] at h
        refine hof ?_ (meaning.ofToken_typeSpec _ token h)
        intro w hw
        cases hw
        exact hshort
      · have hlong := encode_ne_take (v := v) (by omega)
        constructor
        · exact fun hmeans => absurd hmeans (meaning.ofToken_noTypeSpec _ token h hlong u)
        · exact fun hmeans => absurd (hmeans.1 v rfl) hshort
  | szArray t => cases h
  | array t bounds => cases h
  | genericInst name arg args =>
      rw [tokenFor] at h
      split_ifs at h
      exact hof (by simp [ShortVariable]) (meaning.ofToken_typeSpec _ token h)

end Meanings

section Sites

variable (metadata : MetadataImport) {emit : MetadataEmit} (meaning : TypeMeaning emit)

namespace CallSite

variable (site : CallSite)

/-- The result is unboxed to the return type, or nothing has to be unboxed. -/
def Unboxed : Prop :=
  match returnTypeIsValueTypeOrGeneric metadata emit site.token site.signature with
  | some token => meaning.ofToken token = meaning.ofType site.returnType
  | none => site.returnType.NotUnboxed

/-- The arguments among which one is picked for a variable. -/
def pickedArgs : List SiteType :=
  if typeFromToken site.token = mdtMethodSpec then site.methodArgs else site.typeArgs

/-- The type for which a token is wanted: the return type or an argument for it. -/
def picked : Option SiteType :=
  match site.ret with
  | .var v =>
      if SiteType.anyNative (site.pickedArgs.take v.index) then none
      else site.pickedArgs[v.index.val]?
  | t => some t

/-- A token can be had and means the return type, or none can and none is needed. -/
def PicksReturnType : Prop :=
  (∃ t, site.picked = some t ∧ Emits emit t ∧ ShortVariable t ∧
      meaning.ofType t = meaning.ofType site.returnType) ∨
    (∀ t, site.picked = some t → ¬Emits emit t) ∧ site.returnType.NotUnboxed

end CallSite

/-- The token of the argument with the number `index`, from the number of arguments on. -/
theorem encodeArguments_bind {args : List SiteType} (h : ∀ t ∈ args, t.Encodable)
    (hlength : args.length < 2 ^ 29) (index : Nat) :
    ((corSigUncompressData (CallSite.encodeArguments args)).bind fun (count, sig) =>
        skipArguments count index sig).bind (argumentToken emit) =
      (if SiteType.anyNative (args.take index) then none else args[index]?).bind
        (tokenFor emit) := by
  rw [CallSite.encodeArguments, corSigUncompressData_append (encodesNumber_compress hlength),
    Option.bind_some]
  dsimp only
  rw [skipArguments_encodeAll h]
  cases SiteType.anyNative (args.take index) with
  | true => simp
  | false =>
      by_cases hindex : args.length ≤ index
      · simp [hindex]
      · have hlt : index < args.length := by omega
        have hencodable := h _ (List.getElem_mem hlt)
        simp only [hindex, Bool.false_eq_true, or_self, if_false, Option.bind_some]
        rw [List.drop_eq_getElem_cons hlt, TypeTree.encodeAll,
          argumentToken_encode emit hencodable, List.getElem?_eq_getElem hlt, Option.bind_some]

/-- The arguments behind the type in the TypeSpec of a parent. -/
theorem behindType_eq (name : TypeToken) (tail : Signature) :
    (corSigUncompressToken ((ELEMENT_TYPE_GENERICINST :: (name.encode ++ tail)).drop 2)).map
      Prod.snd = some tail := by
  have hencodes := encodesNumber_compress (Nat.lt_trans name.token.isLt (by decide))
  have hdrop : (ELEMENT_TYPE_GENERICINST :: (name.encode ++ tail)).drop 2 =
      compress name.token ++ tail := rfl
  rw [hdrop, corSigUncompressToken, corSigUncompressData_append hencodes]
  rfl

/-- The arguments that are found for a variable. -/
theorem specArguments_eq {site : CallSite} (h : site.Valid metadata) {v : TypeVariable}
    (hv : site.ret = .var v) :
    specArguments metadata site.token site.header.typeParameters =
      some (CallSite.encodeArguments site.pickedArgs) := by
  have hindex := h.ret v hv
  rcases h.describes with ⟨hmember, hparameters, hmethod⟩ | ⟨htoken, parent, b, hspec, -⟩
  · have hargs : site.typeArgs ≠ [] := by
      rintro hnil
      rw [hnil, hmethod, ite_self] at hindex
      exact Nat.not_lt_zero _ hindex
    rcases hmember with ⟨htoken, props, hprops, hparent⟩ | ⟨-, hnil⟩
    · obtain ⟨name, hspec⟩ := hparent.resolve_left hargs
      have hpicked : site.pickedArgs = site.typeArgs := by
        rw [CallSite.pickedArgs, htoken, if_neg (by decide)]
      rw [specArguments, if_pos htoken, hparameters, if_neg (Nat.lt_irrefl 0), hprops,
        Option.bind_some, hspec, Option.bind_some, hpicked]
      exact behindType_eq name _
    · exact absurd hnil hargs
  · have hpicked : site.pickedArgs = site.methodArgs := by
      rw [CallSite.pickedArgs, if_pos htoken]
    rw [specArguments, htoken, if_neg (by decide), if_neg (by decide), if_pos rfl, hspec, hpicked]
    rfl

theorem CallSite.Valid.pickedArgs {site : CallSite} (h : site.Valid metadata) :
    (∀ t ∈ site.pickedArgs, t.Encodable) ∧ site.pickedArgs.length < 2 ^ 29 := by
  rw [CallSite.pickedArgs]
  split_ifs
  · exact ⟨fun t ht => h.args_encodable t (List.mem_append_right _ ht), h.methodArgs_length⟩
  · exact ⟨fun t ht => h.args_encodable t (List.mem_append_left _ ht), h.typeArgs_length⟩

/-- The branch of a return type that is a variable. -/
theorem specArgument_bind {site : CallSite} (h : site.Valid metadata) {v : TypeVariable}
    (hv : site.ret = .var v) :
    (specArgument metadata site.token site.header.typeParameters v.index).bind
        (argumentToken emit) = site.picked.bind (tokenFor emit) := by
  have hargs := h.pickedArgs metadata
  rw [specArgument, specArguments_eq metadata h hv, Option.bind_some,
    encodeArguments_bind hargs.1 hargs.2, CallSite.picked, hv]

/-- The bytes from the return type on, and what is done with them. -/
theorem returnTypeIsValueTypeOrGeneric_read {site : CallSite} (hshort : site.header.IsShort)
    {b : UInt8} {rest : Signature} (hret : site.ret.encode = b :: rest) :
    returnTypeIsValueTypeOrGeneric metadata emit site.token site.signature =
      if b = ELEMENT_TYPE_VOID then none
      else if b = ELEMENT_TYPE_GENERICINST then
        genericInstToken emit (site.ret.encode ++ site.params)
      else if b = ELEMENT_TYPE_VAR ∨ b = ELEMENT_TYPE_MVAR then
        (corSigUncompressData (rest ++ site.params)).bind fun (index, _) =>
          (specArgument metadata site.token site.header.typeParameters index).bind
            (argumentToken emit)
      else returnTypeTokenforValueTypeElementType emit (site.ret.encode ++ site.params) := by
  obtain ⟨hparameters, -, htypes⟩ := hshort.read (site.ret.encode ++ site.params)
  have hstart : (if site.header.typeParameters = 0 then 2 else 3) =
      if 0 < site.header.typeParameters then 3 else 2 := by
    split_ifs <;> omega
  rw [returnTypeIsValueTypeOrGeneric, CallSite.signature, hparameters, hstart, htypes, hret]
  rfl

/-- But for `void` the result is the token for the type that is picked. -/
theorem returnTypeIsValueTypeOrGeneric_eq {site : CallSite} (h : site.Valid metadata)
    (hshort : site.header.IsShort) (hvoid : site.ret ≠ SiteType.void) :
    returnTypeIsValueTypeOrGeneric metadata emit site.token site.signature =
      site.picked.bind (tokenFor emit) := by
  have hbranch := fun {b rest} (hret : site.ret.encode = b :: rest) =>
    (returnTypeIsValueTypeOrGeneric_read metadata hshort hret :
      returnTypeIsValueTypeOrGeneric metadata emit _ _ = _)
  have hencodable := h.ret_encodable
  cases hret : site.ret with
  | basic b =>
      have hbasic : ∀ b ∈ basicTypes, b ≠ ELEMENT_TYPE_VOID → b ≠ ELEMENT_TYPE_GENERICINST ∧
          ¬(b = ELEMENT_TYPE_VAR ∨ b = ELEMENT_TYPE_MVAR) := forall_basicTypes (by decide)
      have hne : b.1 ≠ ELEMENT_TYPE_VOID := by
        intro hb
        rw [hret, SiteType.void] at hvoid
        exact hvoid (congrArg TypeTree.basic (Subtype.ext hb))
      obtain ⟨hgeneric, hvar⟩ := hbasic b b.2 hne
      rw [hbranch (by rw [hret]; rfl), if_neg hne, if_neg hgeneric, if_neg hvar, hret,
        elementTypeToken_encode emit (by simp) (by simp), CallSite.picked, hret]
      rfl
  | named name =>
      rw [hbranch (by rw [hret]; rfl), CallSite.picked, hret,
        elementTypeToken_encode emit (by simp) (by simp)]
      rcases name.code_cases with hcode | hcode
      all_goals
        rw [hcode, if_neg (by decide), if_neg (by decide), if_neg (by decide)]
        rfl
  | var v =>
      have hencodes := encodesNumber_compress (Nat.lt_trans v.index.isLt (by decide))
      rw [hbranch (by rw [hret]; rfl), corSigUncompressData_append hencodes, Option.bind_some]
      dsimp only
      rw [specArgument_bind metadata h hret]
      rcases v.code_cases with hcode | hcode
      all_goals
        rw [hcode, if_neg (by decide), if_neg (by decide), if_pos (by decide)]
  | szArray t =>
      rw [hbranch (by rw [hret]; rfl), CallSite.picked, hret]
      rfl
  | array t bounds =>
      rw [hbranch (by rw [hret]; rfl), CallSite.picked, hret]
      rfl
  | genericInst name arg args =>
      rw [hret] at hencodable
      rw [hbranch (by rw [hret]; rfl), CallSite.picked, hret, if_neg (by decide), if_pos rfl,
        genericInstToken_encode emit hencodable]
      rfl

theorem returnTypeIsValueTypeOrGeneric_void {site : CallSite} (hshort : site.header.IsShort)
    (hvoid : site.ret = SiteType.void) :
    returnTypeIsValueTypeOrGeneric metadata emit site.token site.signature = none := by
  rw [returnTypeIsValueTypeOrGeneric_read metadata hshort (by rw [hvoid]; rfl)]
  exact if_pos rfl

/-- A result is unboxed as the caller expects exactly when the token that is picked means the
return type, or none is needed. -/
theorem unboxed_iff {site : CallSite} (h : site.Valid metadata) (hshort : site.header.IsShort) :
    site.Unboxed metadata meaning ↔ site.PicksReturnType meaning := by
  by_cases hvoid : site.ret = SiteType.void
  · have hreturn : site.returnType = SiteType.void := by
      rw [CallSite.returnType, hvoid]
      rfl
    have hpicked : site.picked = some SiteType.void := by
      rw [CallSite.picked, hvoid]
      rfl
    rw [CallSite.Unboxed, returnTypeIsValueTypeOrGeneric_void metadata hshort hvoid]
    refine iff_of_true (Or.inr hreturn) ?_
    by_cases hemits : Emits emit SiteType.void
    · refine Or.inl ⟨_, hpicked, hemits, ?_, by rw [hreturn]⟩
      intro v hv
      cases hv
    · refine Or.inr ⟨?_, Or.inr hreturn⟩
      intro t ht
      rwa [← Option.some.inj (hpicked.symm.trans ht)]
  · rw [CallSite.Unboxed, returnTypeIsValueTypeOrGeneric_eq metadata h hshort hvoid,
      CallSite.PicksReturnType]
    cases site.picked with
    | none => simp
    | some t =>
        have hemits := tokenFor_isSome emit (t := t)
        rw [Option.bind_some]
        cases htoken : tokenFor emit t with
        | none =>
            rw [htoken] at hemits
            have hnot : ¬Emits emit t := fun h => Bool.false_ne_true (hemits.mpr h)
            simp [hnot]
        | some token =>
            rw [htoken] at hemits
            have hpicks : Emits emit t := hemits.mp rfl
            simp [hpicks, ofToken_tokenFor meaning htoken]

end Sites

section GenericClass

/-- A generic class with an argument, `C<int>`; its method `Get`, and its generic method `Convert`
with the argument `string`. Both return the class's type parameter. -/
def classMetadata : MetadataImport where
  getTypeDefProps _ := none
  getTypeRefProps _ := none
  getTypeSpecFromToken t :=
    if t = 0x1B000001 then
      some [ELEMENT_TYPE_GENERICINST, ELEMENT_TYPE_CLASS, 4, 1, ELEMENT_TYPE_I4]
    else none
  getMemberRefProps t :=
    if t = 0x0A000001 then some ⟨0x1B000001, text "Convert", [0x30, 1, 0, ELEMENT_TYPE_VAR, 0]⟩
    else if t = 0x0A000002 then some ⟨0x1B000001, text "Get", [0x20, 0, ELEMENT_TYPE_VAR, 0]⟩
    else none
  getMemberProps _ := none
  getMethodSpecProps t :=
    if t = 0x2B000001 then some (0x0A000001, [0x0A, 1, ELEMENT_TYPE_STRING]) else none
  getNestedClassProps _ := none

/-- Interfaces that have emitted a reference to `System.Int32`. -/
def intEmit : MetadataEmit where
  getTokenFromTypeSpec _ := none
  defineAssemblyRef _ := some 0x23000001
  defineTypeRefByName _ name := if name = text "System.Int32" then some 0x01000001 else none

def intTokenMeaning (token : MdToken) : MdToken ⊕ Signature :=
  if token = 0x01000001 then .inr [ELEMENT_TYPE_I4] else .inl token

/-- Types mean what they are written as, tokens themselves, but for the reference to `int`. -/
def intMeaning : TypeMeaning intEmit where
  Meaning := MdToken ⊕ Signature
  ofType
    | .named name => intTokenMeaning name.mdToken
    | t => .inr t.encode
  ofToken := intTokenMeaning
  ofToken_named _ _ := rfl
  ofToken_typeRef b name token hname htoken := by
    have hint : ∀ b ∈ basicTypes, managedTypeName b = some (text "System.Int32") →
        b = ELEMENT_TYPE_I4 := forall_basicTypes (by decide)
    have hdefine : (if name = text "System.Int32" then some 0x01000001 else none) =
        some token := htoken
    split_ifs at hdefine with hsystem
    · obtain rfl := Option.some.inj hdefine
      rw [hsystem] at hname
      have hb := hint b b.2 hname
      simp [intTokenMeaning, TypeTree.encode, hb]
  ofToken_typeSpec := nofun
  ofToken_noTypeSpec := nofun

def siteInt : SiteType := .basic ⟨ELEMENT_TYPE_I4, mem_basicTypes_i4⟩

def siteString : SiteType := .basic ⟨ELEMENT_TYPE_STRING, by decide⟩

/-- A call of `C<int>.Get`. -/
def getSite : CallSite where
  token := 0x0A000002
  header := ⟨0x20, 0, hasThis_not_generic, 0⟩
  ret := .var ⟨false, 0⟩
  params := []
  typeArgs := [siteInt]
  methodArgs := []

/-- A call of `C<int>.Convert<string>`. -/
def convertSite : CallSite where
  token := 0x2B000001
  header := ⟨0x30, 1, by decide, 0⟩
  ret := .var ⟨false, 0⟩
  params := []
  typeArgs := [siteInt]
  methodArgs := [siteString]

theorem getSite_valid : getSite.Valid classMetadata where
  describes := by
    refine Or.inl ⟨Or.inl ⟨by decide, _, rfl, Or.inr ⟨⟨false, 4⟩, ?_⟩⟩, rfl, rfl⟩
    decide +kernel
  ret v hv := by
    cases hv
    decide
  ret_encodable := trivial
  args_encodable t ht := by
    obtain rfl := List.mem_singleton.mp ht
    trivial
  typeArgs_length := by decide
  methodArgs_length := by decide

theorem convertSite_valid : convertSite.Valid classMetadata where
  describes := by
    refine Or.inr ⟨by decide, 0x0A000001, 0x0A, by decide +kernel,
      Or.inl ⟨by decide, _, rfl, Or.inr ⟨⟨false, 4⟩, ?_⟩⟩⟩
    decide +kernel
  ret v hv := by
    cases hv
    decide
  ret_encodable := trivial
  args_encodable t ht := by
    rcases List.mem_cons.mp ht with rfl | ht
    · trivial
    · obtain rfl := List.mem_singleton.mp ht
      trivial
  typeArgs_length := by decide
  methodArgs_length := by decide

theorem unboxed_getSite : getSite.Unboxed classMetadata intMeaning :=
  (unboxed_iff classMetadata intMeaning getSite_valid (by decide)).mpr
    (Or.inl ⟨siteInt, rfl, ⟨_, rfl, by decide⟩, by simp [ShortVariable, siteInt], rfl⟩)

theorem not_unboxed_convertSite :
    convertSite.Valid classMetadata ∧ ¬convertSite.Unboxed classMetadata intMeaning := by
  have hfalse : returnTypeIsValueTypeOrGeneric classMetadata intEmit convertSite.token
      convertSite.signature = none := by decide +kernel
  refine ⟨convertSite_valid, fun h => ?_⟩
  rw [CallSite.Unboxed, hfalse] at h
  rcases h with hobject | hvoid
  · cases hobject
  · cases hvoid

end GenericClass

end SignalFxTracing.Metadata
