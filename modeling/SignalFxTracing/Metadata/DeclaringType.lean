import SignalFxTracing.Metadata.FunctionInfo
import SignalFxTracing.Metadata.SignatureGrammar

/-!
# The type that declares a called method (`GetTypeInfo`, `GetFunctionInfo`)

`GetTypeInfo` takes the third byte of a TypeSpec for the start of a token whenever
one bit of `GENERICINST` is set in the first byte, and every code with which a
TypeSpec starts has such a bit. What is found for arrays, pointers and type
variables is told by the number that the third byte starts and by the row with
that number.
-/

namespace SignalFxTracing.Metadata

open Clr Lib.Follow

/-- The codes of the TypeSpecs that name no type: pointers, arrays and type variables. -/
def unnamedCodes : List UInt8 :=
  [ELEMENT_TYPE_PTR, ELEMENT_TYPE_FNPTR, ELEMENT_TYPE_ARRAY, ELEMENT_TYPE_SZARRAY,
    ELEMENT_TYPE_VAR, ELEMENT_TYPE_MVAR]

/-- The token that is encoded from the third byte on. -/
def thirdToken (sig : Signature) : MdToken :=
  ((corSigUncompressToken (sig.drop 2)).map Prod.fst).getD (decodeToken 0)

namespace MetadataImport

variable (metadata : MetadataImport)

/-- A type that is defined in the module or that it refers to. -/
inductive IsNamed : MdToken → Text → Prop
  | typeDef {token : MdToken} {name : Text} : typeFromToken token = mdtTypeDef →
      metadata.getTypeDefProps token = some name → IsNamed token name
  | typeRef {token : MdToken} {name : Text} : typeFromToken token = mdtTypeRef →
      metadata.getTypeRefProps token = some name → IsNamed token name

/-- The TypeSpec has a signature, which is that of a type. -/
def IsTypeSpec (token : MdToken) (sig : Signature) : Prop :=
  typeFromToken token = mdtTypeSpec ∧ metadata.getTypeSpecFromToken token = some sig ∧
    Derives documented .type sig

/-- The type that declares the methods of a parent: for an instantiation its generic type, and
none for arrays, pointers and type variables. -/
inductive Declares : MdToken → TypeInfo → Prop
  | named {token : MdToken} {name : Text} : metadata.IsNamed token name →
      Declares token ⟨token, name⟩
  | genericInst {token : MdToken} {b : UInt8} {k : Nat} {encoded rest : Signature} {name : Text} :
      metadata.IsTypeSpec token (ELEMENT_TYPE_GENERICINST :: b :: (encoded ++ rest)) →
      EncodesNumber k encoded → metadata.IsNamed (decodeToken k) name →
      Declares token ⟨decodeToken k, name⟩
  | unnamed {token : MdToken} {code : UInt8} {rest : Signature} :
      metadata.IsTypeSpec token (code :: rest) → code ∈ unnamedCodes → Declares token {}

/-- The parent of a MethodDef or a MemberRef. -/
def IsMember (token parent : MdToken) : Prop :=
  (typeFromToken token = mdtMemberRef ∧ ∃ props, metadata.getMemberRefProps token = some props ∧
      props.parent = parent) ∨
    (typeFromToken token = mdtMethodDef ∧ ∃ props, metadata.getMemberProps token = some props ∧
      props.parent = parent)

/-- The parent of the method that a call token means. -/
def IsCall (token parent : MdToken) : Prop :=
  metadata.IsMember token parent ∨
    (typeFromToken token = mdtMethodSpec ∧ ∃ method sig,
      metadata.getMethodSpecProps token = some (method, sig) ∧ metadata.IsMember method parent)

/-- `GetFunctionInfo` ends and reports the type. -/
def Reports (token : MdToken) (type : TypeInfo) : Prop :=
  ∃ info, metadata.getFunctionInfo token = some info ∧ info.type = type

/-- The number that the third byte of a signature starts, or 0 where it starts none. -/
inductive ThirdNumber : Signature → Nat → Prop
  | encoded {b c : UInt8} {encoded behind : Signature} {n : Nat} : EncodesNumber n encoded →
      ThirdNumber (b :: c :: (encoded ++ behind)) n
  | nothing {b c : UInt8} {rest : Signature} : rest ≠ [] →
      (∀ n encoded behind, EncodesNumber n encoded → rest ≠ encoded ++ behind) →
      ThirdNumber (b :: c :: rest) 0

/-- No name is read from a row on: it is that of a type without a name, of a TypeSpec without a
signature, or of a TypeSpec that is too short or starts with a code of another bit; and for the
parent of a method, or the number that the third byte of a TypeSpec starts, it is the same. -/
inductive NamesNothing : MdToken → Prop
  | row {token : MdToken} : typeFromToken token ≠ mdtTypeSpec →
      (∀ parent, ¬ metadata.IsMember token parent) → (∀ name, ¬ metadata.IsNamed token name) →
      NamesNothing token
  | member {token parent : MdToken} : metadata.IsMember token parent → NamesNothing parent →
      NamesNothing token
  | noSignature {token : MdToken} : typeFromToken token = mdtTypeSpec →
      metadata.getTypeSpecFromToken token = none → NamesNothing token
  | short {token : MdToken} {sig : Signature} : typeFromToken token = mdtTypeSpec →
      metadata.getTypeSpecFromToken token = some sig → sig.length < 3 → NamesNothing token
  | otherBits {token : MdToken} {b : UInt8} {rest : Signature} :
      typeFromToken token = mdtTypeSpec →
      metadata.getTypeSpecFromToken token = some (b :: rest) →
      b &&& ELEMENT_TYPE_GENERICINST = 0 → NamesNothing token
  | third {token : MdToken} {sig : Signature} {n : Nat} : typeFromToken token = mdtTypeSpec →
      metadata.getTypeSpecFromToken token = some sig → ThirdNumber sig n →
      NamesNothing (decodeToken n) → NamesNothing token

/-- A TypeSpec of no generic instantiation has less than three bytes, or the number that its third
byte starts is that of a row from which no name is read. -/
def ReadsNoName (parent : MdToken) : Prop :=
  ∀ sig, metadata.IsTypeSpec parent sig → sig.head? ≠ some ELEMENT_TYPE_GENERICINST →
    sig.length < 3 ∨ ∃ n, ThirdNumber sig n ∧ metadata.NamesNothing (decodeToken n)

variable {metadata} {token parent last : MdToken} {type : TypeInfo} {name : Text} {sig : Signature}

theorem IsNamed.named_eq (h : metadata.IsNamed token name) :
    metadata.named token = ⟨token, name⟩ := by
  cases h with
  | typeDef hkind hprops =>
      rw [named, hkind, if_pos rfl, hprops]
      rfl
  | typeRef hkind hprops =>
      rw [named, hkind, if_neg (by decide), if_pos rfl, hprops]
      rfl

theorem IsNamed.endsIn_iff (h : metadata.IsNamed token name) :
    EndsIn metadata.next token last ↔ last = token := by
  apply endsIn_iff_of_none
  cases h with
  | typeDef hkind =>
      rw [next, hkind]
      rfl
  | typeRef hkind =>
      rw [next, hkind]
      rfl

/-- The invalid type is reported for a token without a name. -/
theorem named_eq_empty_iff : metadata.named token = {} ↔ ∀ name, ¬ metadata.IsNamed token name := by
  constructor
  · intro h name hname
    have hid := congrArg TypeInfo.id (hname.named_eq.symm.trans h)
    have hzero : token = 0 := hid
    cases hname with
    | typeDef hkind =>
        rw [hzero] at hkind
        revert hkind
        decide
    | typeRef hkind =>
        rw [hzero] at hkind
        revert hkind
        decide
  · intro h
    rw [named]
    split_ifs with hdef href
    · cases hprops : metadata.getTypeDefProps token with
      | none => rfl
      | some name => exact absurd (.typeDef hdef hprops) (h name)
    · cases hprops : metadata.getTypeRefProps token with
      | none => rfl
      | some name => exact absurd (.typeRef href hprops) (h name)
    · rfl

theorem next_of_typeSpec (hkind : typeFromToken token = mdtTypeSpec)
    (hsig : metadata.getTypeSpecFromToken token = some sig) :
    metadata.next token = typeSpecTarget sig := by
  rw [next, if_pos hkind, hsig, Option.bind_some]

theorem IsTypeSpec.next_eq (h : metadata.IsTypeSpec token sig) :
    metadata.next token = typeSpecTarget sig := by
  obtain ⟨hkind, hsig, -⟩ := h
  exact next_of_typeSpec hkind hsig

theorem IsMember.next_eq (h : metadata.IsMember token parent) :
    metadata.next token = some parent := by
  rcases h with ⟨hkind, props, hprops, rfl⟩ | ⟨hkind, props, hprops, rfl⟩
  · rw [next, hkind, if_neg (by decide), if_pos rfl, hprops]
    rfl
  · rw [next, hkind, if_neg (by decide), if_neg (by decide), if_pos rfl, hprops]
    rfl

/-- The bit that is tested is set in every code. -/
theorem typeSpecTarget_of_unnamed {code : UInt8} {rest : Signature} (h : code ∈ unnamedCodes) :
    typeSpecTarget (code :: rest) =
      if (code :: rest).length < 3 then none else some (thirdToken (code :: rest)) := by
  have hbit : code &&& ELEMENT_TYPE_GENERICINST ≠ 0 := by
    simp only [unnamedCodes, List.mem_cons, List.not_mem_nil, or_false] at h
    rcases h with rfl | rfl | rfl | rfl | rfl | rfl <;> decide
  rw [typeSpecTarget]
  split_ifs with hor hlength hlength
  · rfl
  · exact absurd (hor.resolve_left hlength) hbit
  · exact absurd (Or.inl hlength) hor
  · rfl

theorem typeSpecTarget_genericInst {b : UInt8} {k : Nat} {encoded : Signature}
    (h : EncodesNumber k encoded) (rest : Signature) :
    typeSpecTarget (ELEMENT_TYPE_GENERICINST :: b :: (encoded ++ rest)) = some (decodeToken k) := by
  have hlength : ¬ (ELEMENT_TYPE_GENERICINST :: b :: (encoded ++ rest)).length < 3 := by
    cases h <;> simp
  rw [typeSpecTarget, if_neg]
  · rw [List.drop_succ_cons, List.drop_succ_cons, List.drop_zero, corSigUncompressToken,
      corSigUncompressData_append h]
    rfl
  · rintro (hshort | hbit)
    · exact hlength hshort
    · have hset : ELEMENT_TYPE_GENERICINST &&& ELEMENT_TYPE_GENERICINST ≠ 0 := by decide
      exact hset hbit

/-- From three bytes on there is one such number, and it is the one that is read. -/
theorem exists_thirdNumber (h : 3 ≤ sig.length) :
    ∃ n, ThirdNumber sig n ∧ thirdToken sig = decodeToken n := by
  obtain ⟨b, c, rest, hrest, rfl⟩ : ∃ b c rest, rest ≠ [] ∧ sig = b :: c :: rest := by
    match sig, h with
    | b :: c :: d :: rest, _ => exact ⟨b, c, d :: rest, List.cons_ne_nil _ _, rfl⟩
  cases hread : corSigUncompressData rest with
  | some read =>
      obtain ⟨encoded, rfl, hencodes⟩ := encodesNumber_of_read hread
      refine ⟨read.1, .encoded hencodes, ?_⟩
      rw [thirdToken, List.drop_succ_cons, List.drop_succ_cons, List.drop_zero,
        corSigUncompressToken, hread]
      rfl
  | none =>
      refine ⟨0, .nothing hrest ?_, ?_⟩
      · rintro n encoded behind hencodes rfl
        rw [corSigUncompressData_append hencodes] at hread
        cases hread
      · rw [thirdToken, List.drop_succ_cons, List.drop_succ_cons, List.drop_zero,
          corSigUncompressToken, hread]
        rfl

theorem ThirdNumber.thirdToken_eq {n : Nat} (h : ThirdNumber sig n) :
    thirdToken sig = decodeToken n ∧ 3 ≤ sig.length := by
  cases h with
  | @encoded b c encoded behind n hencodes =>
      constructor
      · rw [thirdToken, List.drop_succ_cons, List.drop_succ_cons, List.drop_zero,
          corSigUncompressToken, corSigUncompressData_append hencodes]
        rfl
      · cases hencodes <;> simp
  | @nothing b c rest hne hnothing =>
      constructor
      · rw [thirdToken, List.drop_succ_cons, List.drop_succ_cons, List.drop_zero,
          corSigUncompressToken]
        cases hread : corSigUncompressData rest with
        | none => rfl
        | some read =>
            obtain ⟨encoded, heq, hencodes⟩ := encodesNumber_of_read hread
            exact absurd heq (hnothing _ _ _ hencodes)
      · have hlength := List.length_pos_of_ne_nil hne
        simp only [List.length_cons]
        omega

theorem typeSpecTarget_eq_some_iff {target : MdToken} :
    typeSpecTarget sig = some target ↔
      3 ≤ sig.length ∧ sig.headD 0 &&& ELEMENT_TYPE_GENERICINST ≠ 0 ∧ thirdToken sig = target := by
  rw [typeSpecTarget, Option.ite_none_left_eq_some, not_or, Nat.not_lt, and_assoc,
    Option.some.injEq]
  rfl

theorem not_isNamed_of_typeSpec (hkind : typeFromToken token = mdtTypeSpec) :
    ∀ name, ¬ metadata.IsNamed token name := by
  intro name hname
  cases hname with
  | typeDef hdef =>
      rw [hdef] at hkind
      revert hkind
      decide
  | typeRef href =>
      rw [href] at hkind
      revert hkind
      decide

/-- A row that is neither that of a TypeSpec nor that of a method has no reference. -/
theorem next_of_row (hspec : typeFromToken token ≠ mdtTypeSpec)
    (hmember : ∀ parent, ¬ metadata.IsMember token parent) : metadata.next token = none := by
  rw [next, if_neg hspec]
  split_ifs with href hdef
  · rw [Option.map_eq_none_iff]
    by_contra hne
    obtain ⟨props, hprops⟩ := Option.ne_none_iff_exists'.mp hne
    exact hmember props.parent (Or.inl ⟨href, props, hprops, rfl⟩)
  · rw [Option.map_eq_none_iff]
    by_contra hne
    obtain ⟨props, hprops⟩ := Option.ne_none_iff_exists'.mp hne
    exact hmember props.parent (Or.inr ⟨hdef, props, hprops, rfl⟩)
  · rfl

/-- Every reference leads from a method to its parent or from a TypeSpec to its third number. -/
theorem isMember_or_of_next {target : MdToken} (h : metadata.next token = some target) :
    metadata.IsMember token target ∨
      (typeFromToken token = mdtTypeSpec ∧ ∃ sig, metadata.getTypeSpecFromToken token = some sig ∧
        typeSpecTarget sig = some target) := by
  rw [next] at h
  split_ifs at h with hspec href hdef
  · obtain ⟨sig, hsig, htarget⟩ := Option.bind_eq_some_iff.mp h
    exact Or.inr ⟨hspec, sig, hsig, htarget⟩
  · obtain ⟨props, hprops, hparent⟩ := Option.map_eq_some_iff.mp h
    exact Or.inl (Or.inl ⟨href, props, hprops, hparent⟩)
  · obtain ⟨props, hprops, hparent⟩ := Option.map_eq_some_iff.mp h
    exact Or.inl (Or.inr ⟨hdef, props, hprops, hparent⟩)

/-- A TypeSpec from which no reference leads. -/
theorem namesNothing_of_next_eq_none (hkind : typeFromToken token = mdtTypeSpec)
    (hnext : metadata.next token = none) : metadata.NamesNothing token := by
  cases hsig : metadata.getTypeSpecFromToken token with
  | none => exact .noSignature hkind hsig
  | some sig =>
      rw [next_of_typeSpec hkind hsig, typeSpecTarget] at hnext
      split_ifs at hnext with hor
      rcases hor with hshort | hbits
      · exact .short hkind hsig hshort
      · cases sig with
        | nil => exact .short hkind hsig (by decide)
        | cons b rest => exact .otherBits hkind hsig hbits

/-- At a TypeSpec that leads no further no name is found. -/
theorem exists_last_of_next_eq_none (hkind : typeFromToken token = mdtTypeSpec)
    (hnext : metadata.next token = none) :
    ∃ last, EndsIn metadata.next token last ∧ ∀ name, ¬ metadata.IsNamed last name :=
  ⟨token, (endsIn_iff_of_none hnext).mpr rfl, not_isNamed_of_typeSpec hkind⟩

/-- The references from the row end in one without a name. -/
theorem namesNothing_iff :
    metadata.NamesNothing token ↔
      ∃ last, EndsIn metadata.next token last ∧ ∀ name, ¬ metadata.IsNamed last name := by
  constructor
  · intro h
    induction h with
    | @row token hspec hmember hname =>
        exact ⟨token, (endsIn_iff_of_none (next_of_row hspec hmember)).mpr rfl, hname⟩
    | member h _ ih =>
        obtain ⟨last, hlast, hname⟩ := ih
        exact ⟨last, (endsIn_iff_of_some h.next_eq).mpr hlast, hname⟩
    | @noSignature token hkind hsig =>
        apply exists_last_of_next_eq_none hkind
        rw [next, if_pos hkind, hsig, Option.bind_none]
    | @short token sig hkind hsig hshort =>
        apply exists_last_of_next_eq_none hkind
        rw [next_of_typeSpec hkind hsig, typeSpecTarget, if_pos (Or.inl hshort)]
    | @otherBits token b rest hkind hsig hbits =>
        have hhead : (b :: rest).headD 0 &&& ELEMENT_TYPE_GENERICINST = 0 := hbits
        apply exists_last_of_next_eq_none hkind
        rw [next_of_typeSpec hkind hsig, typeSpecTarget, if_pos (Or.inr hhead)]
    | @third token sig n hkind hsig hthird _ ih =>
        obtain ⟨hthirdToken, hlength⟩ := hthird.thirdToken_eq
        by_cases hbits : sig.headD 0 &&& ELEMENT_TYPE_GENERICINST = 0
        · apply exists_last_of_next_eq_none hkind
          rw [next_of_typeSpec hkind hsig, typeSpecTarget, if_pos (Or.inr hbits)]
        · obtain ⟨last, hlast, hname⟩ := ih
          have hnext : metadata.next token = some (decodeToken n) := by
            rw [next_of_typeSpec hkind hsig]
            exact typeSpecTarget_eq_some_iff.mpr ⟨hlength, hbits, hthirdToken⟩
          exact ⟨last, (endsIn_iff_of_some hnext).mpr hlast, hname⟩
  · rintro ⟨last, ⟨hchain, hlast⟩, hname⟩
    induction hchain using Relation.ReflTransGen.head_induction_on with
    | refl =>
        by_cases hkind : typeFromToken last = mdtTypeSpec
        · exact namesNothing_of_next_eq_none hkind hlast
        · refine .row hkind (fun parent hmember => ?_) hname
          rw [hmember.next_eq] at hlast
          cases hlast
    | @head token target hstep _ ih =>
        rcases isMember_or_of_next hstep with hmember | ⟨hkind, sig, hsig, htarget⟩
        · exact .member hmember ih
        · obtain ⟨hlength, -, hthird⟩ := typeSpecTarget_eq_some_iff.mp htarget
          obtain ⟨n, hn, heq⟩ := exists_thirdNumber hlength
          refine .third hkind hsig hn ?_
          rw [← heq, hthird]
          exact ih

/-- For a member `GetFunctionInfo` asks `GetTypeInfo` for the parent. -/
theorem IsMember.getFunctionInfoAt_eq (h : metadata.IsMember token parent) :
    ∃ makes : TypeInfo → FunctionInfo, (∀ type, (makes type).type = type) ∧
      ∀ fuel, metadata.getFunctionInfoAt (fuel + 1) token =
        (metadata.getTypeInfo parent).map makes := by
  rcases h with ⟨hkind, props, hprops, rfl⟩ | ⟨hkind, props, hprops, rfl⟩
  · refine ⟨fun type => ⟨token, props.name, type, false, ⟨props.signature⟩, ⟨[]⟩, 0⟩,
      fun type => rfl, fun fuel => ?_⟩
    rw [getFunctionInfoAt, if_pos hkind, hprops]
    rfl
  · refine ⟨fun type => ⟨token, props.name, type, false, ⟨props.signature⟩, ⟨[]⟩, 0⟩,
      fun type => rfl, fun fuel => ?_⟩
    rw [getFunctionInfoAt, hkind, if_neg (by decide), if_pos rfl, hprops]
    rfl

theorem IsMember.reports_iff_getTypeInfo (h : metadata.IsMember token parent) :
    metadata.Reports token type ↔ metadata.getTypeInfo parent = some type := by
  obtain ⟨makes, hmakes, hinfo⟩ := h.getFunctionInfoAt_eq
  simp only [Reports, ← exists_getFunctionInfoAt_iff]
  constructor
  · rintro ⟨info, ⟨fuel, hfuel⟩, rfl⟩
    cases fuel with
    | zero => cases hfuel
    | succ fuel =>
        rw [hinfo] at hfuel
        obtain ⟨type, htype, rfl⟩ := Option.map_eq_some_iff.mp hfuel
        rw [htype, hmakes]
  · intro htype
    refine ⟨makes type, ⟨1, ?_⟩, hmakes type⟩
    rw [hinfo, htype]
    rfl

/-- For an instance of a generic method `GetFunctionInfo` asks for the method first. -/
theorem getFunctionInfoAt_methodSpec {method : MdToken} {sig : Signature}
    (hkind : typeFromToken token = mdtMethodSpec)
    (hprops : metadata.getMethodSpecProps token = some (method, sig))
    (hmember : metadata.IsMember method parent) :
    metadata.getFunctionInfoAt 1 token = none ∧
      ∃ makes : TypeInfo → FunctionInfo, (∀ type, (makes type).type = type) ∧
        ∀ fuel, metadata.getFunctionInfoAt (fuel + 2) token =
          (metadata.getTypeInfo parent).map makes := by
  obtain ⟨makes, -, hmethod⟩ := hmember.getFunctionInfoAt_eq
  have hnext := metadata.getTypeInfo_of_next hmember.next_eq
  constructor
  · rw [getFunctionInfoAt, hkind, if_neg (by decide), if_neg (by decide), if_pos rfl, hprops]
    rfl
  · refine ⟨fun type => ⟨token, (makes type).name, type, true, (makes type).signature, ⟨sig⟩,
      (makes type).id⟩, fun type => rfl, fun fuel => ?_⟩
    rw [getFunctionInfoAt, hkind, if_neg (by decide), if_neg (by decide), if_pos rfl, hprops,
      Option.elim_some]
    dsimp only
    rw [hmethod, hnext]
    cases metadata.getTypeInfo parent with
    | none => rfl
    | some type => rfl

/-- What is reported for a call is what `GetTypeInfo` gives for the parent. -/
theorem IsCall.reports_iff_getTypeInfo (h : metadata.IsCall token parent) :
    metadata.Reports token type ↔ metadata.getTypeInfo parent = some type := by
  rcases h with hmember | ⟨hkind, method, sig, hprops, hmember⟩
  · exact hmember.reports_iff_getTypeInfo
  obtain ⟨hone, makes, hmakes, hinfo⟩ := getFunctionInfoAt_methodSpec hkind hprops hmember
  simp only [Reports, ← exists_getFunctionInfoAt_iff]
  constructor
  · rintro ⟨info, ⟨fuel, hfuel⟩, rfl⟩
    cases fuel with
    | zero => cases hfuel
    | succ fuel =>
        cases fuel with
        | zero =>
            rw [hone] at hfuel
            cases hfuel
        | succ fuel =>
            rw [hinfo] at hfuel
            obtain ⟨type, htype, rfl⟩ := Option.map_eq_some_iff.mp hfuel
            rw [htype, hmakes]
  · intro htype
    refine ⟨makes type, ⟨2, ?_⟩, hmakes type⟩
    rw [hinfo, htype]
    rfl

/-- `GetFunctionInfo` reports the type with the name in which the references of the parent end. -/
theorem reports_iff (h : metadata.IsCall token parent) :
    metadata.Reports token type ↔
      ∃ last, EndsIn metadata.next parent last ∧ metadata.named last = type := by
  rw [h.reports_iff_getTypeInfo, getTypeInfo_eq_some_iff]

/-- For one call one type is reported. -/
theorem Reports.unique {type' : TypeInfo} (hcall : metadata.IsCall token parent)
    (h : metadata.Reports token type) (h' : metadata.Reports token type') : type = type' := by
  obtain ⟨last, hlast, rfl⟩ := (reports_iff hcall).mp h
  obtain ⟨last', hlast', rfl⟩ := (reports_iff hcall).mp h'
  rw [hlast.unique hlast']

theorem IsNamed.not_isTypeSpec (h : metadata.IsNamed token name) :
    ¬ metadata.IsTypeSpec token sig := by
  rintro ⟨hkind, -⟩
  exact not_isNamed_of_typeSpec hkind name h

/-- A TypeSpec has one signature. -/
theorem IsTypeSpec.unique {sig' : Signature} (h : metadata.IsTypeSpec token sig)
    (h' : metadata.IsTypeSpec token sig') : sig = sig' := by
  have hsome := h.2.1.symm.trans h'.2.1
  exact Option.some.inj hsome

/-- A call of `Get` on an array of `IDbCommand`, which has two dimensions. -/
def arrayCall : MetadataImport where
  getTypeDefProps _ := none
  getTypeRefProps token := if token = 0x01000001 then some (text "System.Data.IDbCommand") else none
  getTypeSpecFromToken token :=
    if token = 0x1B000001 then
      some [ELEMENT_TYPE_ARRAY, ELEMENT_TYPE_CLASS, 0x05, 0x02, 0x00, 0x02, 0x00, 0x00]
    else none
  getMemberRefProps token :=
    if token = 0x0A000001 then
      some ⟨0x1B000001, text "Get",
        [0x20, 0x02, ELEMENT_TYPE_CLASS, 0x05, ELEMENT_TYPE_I4, ELEMENT_TYPE_I4]⟩
    else none
  getMemberProps _ := none
  getMethodSpecProps _ := none
  getNestedClassProps _ := none

theorem isCall_arrayCall : arrayCall.IsCall 0x0A000001 0x1B000001 :=
  Or.inl (Or.inl ⟨rfl, _, rfl, rfl⟩)

theorem isNamed_arrayCall : arrayCall.IsNamed 0x01000001 (text "System.Data.IDbCommand") :=
  .typeRef rfl rfl

theorem declares_arrayCall : arrayCall.Declares 0x1B000001 {} := by
  have hzero : EncodesNumber 0 [0x00] := @EncodesNumber.one 0x00 (by decide)
  have htwo : EncodesNumber 2 [0x02] := @EncodesNumber.one 0x02 (by decide)
  have helement : Derives documented .type [ELEMENT_TYPE_CLASS, 0x05] :=
    .defOrRef (Or.inr rfl) (@EncodesNumber.one 0x05 (by decide))
  have hbounds : Derives documented (.numbers 2) ([0x00] ++ ([0x00] ++ [])) :=
    .numbers hzero (.numbers hzero .noNumbers)
  have harray : Derives documented .type
      [ELEMENT_TYPE_ARRAY, ELEMENT_TYPE_CLASS, 0x05, 0x02, 0x00, 0x02, 0x00, 0x00] :=
    .array helement (.shape htwo hzero .noNumbers htwo hbounds)
  have hcode : ELEMENT_TYPE_ARRAY ∈ unnamedCodes := by decide
  exact .unnamed ⟨rfl, rfl, harray⟩ hcode

theorem reports_arrayCall :
    arrayCall.Reports 0x0A000001 ⟨0x01000001, text "System.Data.IDbCommand"⟩ := by
  apply (reports_iff isCall_arrayCall).mpr
  have hnext : arrayCall.next 0x1B000001 = some 0x01000001 := rfl
  have hends := isNamed_arrayCall.endsIn_iff.mpr rfl
  exact ⟨0x01000001, (endsIn_iff_of_some hnext).mpr hends, isNamed_arrayCall.named_eq⟩

theorem not_reports_arrayCall : ¬ arrayCall.Reports 0x0A000001 {} := by
  intro hinvalid
  have hid := congrArg TypeInfo.id (reports_arrayCall.unique isCall_arrayCall hinvalid)
  revert hid
  decide

/-- A call of `Get` on an array of `short`, which has two dimensions. The number 2 of its third byte
is that of a TypeSpec without a signature. -/
def shortArrayCall : MetadataImport :=
  { MetadataImport.empty with
    getTypeSpecFromToken := fun token =>
      if token = 0x1B000001 then
        some [ELEMENT_TYPE_ARRAY, ELEMENT_TYPE_I2, 0x02, 0x00, 0x02, 0x00, 0x00]
      else none
    getMemberRefProps := fun token =>
      if token = 0x0A000001 then
        some ⟨0x1B000001, text "Get",
          [0x20, 0x02, ELEMENT_TYPE_I2, ELEMENT_TYPE_I4, ELEMENT_TYPE_I4]⟩
      else none }

theorem declares_shortArrayCall : shortArrayCall.Declares 0x1B000001 {} := by
  have hzero : EncodesNumber 0 [0x00] := @EncodesNumber.one 0x00 (by decide)
  have htwo : EncodesNumber 2 [0x02] := @EncodesNumber.one 0x02 (by decide)
  have hbounds : Derives documented (.numbers 2) ([0x00] ++ ([0x00] ++ [])) :=
    .numbers hzero (.numbers hzero .noNumbers)
  have helement : ELEMENT_TYPE_I2 ∈ documentedPrimitives := by decide
  have harray : Derives documented .type
      [ELEMENT_TYPE_ARRAY, ELEMENT_TYPE_I2, 0x02, 0x00, 0x02, 0x00, 0x00] :=
    .array (.primitive helement) (.shape htwo hzero .noNumbers htwo hbounds)
  have hcode : ELEMENT_TYPE_ARRAY ∈ unnamedCodes := by decide
  exact .unnamed ⟨rfl, rfl, harray⟩ hcode

theorem readsNoName_shortArrayCall : shortArrayCall.ReadsNoName 0x1B000001 := by
  rintro sig ⟨-, hsig, -⟩ -
  obtain rfl := Option.some.inj hsig
  have htwo : EncodesNumber 2 [0x02] := @EncodesNumber.one 0x02 (by decide)
  exact Or.inr ⟨2, .encoded htwo, .noSignature rfl rfl⟩

end MetadataImport

end SignalFxTracing.Metadata
