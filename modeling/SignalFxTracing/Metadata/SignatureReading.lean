import SignalFxTracing.Metadata.SignatureGrammar

/-!
# What the parsers of signatures skip

The parsers skip exactly the derivations of the implemented grammar, whatever
follows them. A documented encoding is skipped exactly when it is one of these.
-/

namespace SignalFxTracing.Metadata

/-- The parser of a nonterminal whose types are nested at most `fuel` deep. -/
def parserAt (fuel : Nat) : Nonterminal → Parser
  | .mods => parseOptionalCustomMods fuel
  | .type => parseTypeAt fuel
  | .types n => repeatParser (parseTypeAt fuel) n
  | .numbers n => repeatParser (fun sig => (parseNumber sig).map Prod.snd) n
  | .shape => parseArrayShape
  | .declared true => parseRetType (parseTypeAt fuel)
  | .declared false => parseParam (parseTypeAt fuel)
  | .params n sentinelFound => parseParams (parseTypeAt fuel) n sentinelFound
  | .method => parseMethod (parseTypeAt fuel)

/-- No custom modifier starts here. -/
def NotMod (sig : Signature) : Prop :=
  ∀ b ∈ sig.head?, b ≠ ELEMENT_TYPE_CMOD_OPT ∧ b ≠ ELEMENT_TYPE_CMOD_REQD

/-- The bytes with which a type may start. -/
def typeBytes : List UInt8 :=
  primitiveTypes ++
    [ELEMENT_TYPE_VALUETYPE, ELEMENT_TYPE_CLASS, ELEMENT_TYPE_PTR, ELEMENT_TYPE_FNPTR,
      ELEMENT_TYPE_ARRAY, ELEMENT_TYPE_SZARRAY, ELEMENT_TYPE_GENERICINST, ELEMENT_TYPE_VAR,
      ELEMENT_TYPE_MVAR]

section Opening

theorem exists_cons_of_type {e : Signature} (h : Derives implemented .type e) :
    ∃ b rest, e = b :: rest ∧ b ∈ typeBytes := by
  cases h with
  | primitive hb => exact ⟨_, _, rfl, List.mem_append_left _ hb⟩
  | defOrRef hb _ => exact ⟨_, _, rfl, by rcases hb with rfl | rfl <;> decide⟩
  | ptr _ _ => exact ⟨_, _, rfl, by decide⟩
  | ptrVoid _ => exact ⟨_, _, rfl, by decide⟩
  | fnPtr _ => exact ⟨_, _, rfl, by decide⟩
  | array _ _ => exact ⟨_, _, rfl, by decide⟩
  | szArray _ _ => exact ⟨_, _, rfl, by decide⟩
  | genericInst _ _ _ _ => exact ⟨_, _, rfl, by decide⟩
  | var hb _ => exact ⟨_, _, rfl, by rcases hb with rfl | rfl <;> decide⟩

theorem ne_of_mem_typeBytes {b c : UInt8} (hb : b ∈ typeBytes) (hc : c ∉ typeBytes) : b ≠ c :=
  fun h => hc (h ▸ hb)

/-- A type does not start with a byte of another kind, whatever follows it. -/
theorem skipByte_of_type {e : Signature} (h : Derives implemented .type e) {c : UInt8}
    (hc : c ∉ typeBytes) (tail : Signature) : skipByte c (e ++ tail) = none := by
  obtain ⟨b, rest, rfl, hb⟩ := exists_cons_of_type h
  exact if_neg (ne_of_mem_typeBytes hb hc)

theorem notMod_of_type {e : Signature} (h : Derives implemented .type e) (tail : Signature) :
    NotMod (e ++ tail) := by
  obtain ⟨b, rest, rfl, hb⟩ := exists_cons_of_type h
  intro c hc
  cases hc
  exact ⟨ne_of_mem_typeBytes hb (by decide), ne_of_mem_typeBytes hb (by decide)⟩

theorem notMod_cons {b : UInt8} (h : b ≠ ELEMENT_TYPE_CMOD_OPT ∧ b ≠ ELEMENT_TYPE_CMOD_REQD)
    (rest : Signature) : NotMod (b :: rest) := by
  intro c hc
  cases hc
  exact h

/-- The only type that starts with `VOID` is `VOID`. -/
theorem eq_nil_of_void {rest : Signature}
    (h : Derives implemented .type (ELEMENT_TYPE_VOID :: rest)) : rest = [] := by
  generalize he : ELEMENT_TYPE_VOID :: rest = e at h
  cases h with
  | primitive hb => exact (List.cons.inj he).2
  | defOrRef hb _ =>
      obtain ⟨rfl, _⟩ := List.cons.inj he
      exact absurd hb (by decide)
  | ptr _ _ => exact absurd (List.cons.inj he).1 (by decide)
  | ptrVoid _ => exact absurd (List.cons.inj he).1 (by decide)
  | fnPtr _ => exact absurd (List.cons.inj he).1 (by decide)
  | array _ _ => exact absurd (List.cons.inj he).1 (by decide)
  | szArray _ _ => exact absurd (List.cons.inj he).1 (by decide)
  | genericInst _ _ _ _ => exact absurd (List.cons.inj he).1 (by decide)
  | var hb _ =>
      obtain ⟨rfl, _⟩ := List.cons.inj he
      exact absurd hb (by decide)

/-- No parameter starts with a sentinel. -/
theorem skipByte_sentinel_of_declared {isReturn : Bool} {e : Signature}
    (h : Derives implemented (.declared isReturn) e) (tail : Signature) :
    skipByte ELEMENT_TYPE_SENTINEL (e ++ tail) = none := by
  have hbehind : ∀ {mods rest : Signature}, Derives implemented .mods mods →
      skipByte ELEMENT_TYPE_SENTINEL rest = none →
      skipByte ELEMENT_TYPE_SENTINEL (mods ++ rest) = none := by
    intro mods rest hmods hrest
    cases hmods with
    | noMods => exact hrest
    | mod hb _ _ => rcases hb with rfl | rfl <;> rfl
  cases h with
  | typedByRef hmods =>
      rw [List.append_assoc]
      exact hbehind hmods rfl
  | void hmods =>
      rw [List.append_assoc]
      exact hbehind hmods rfl
  | byValue hmods htype =>
      rw [List.append_assoc]
      exact hbehind hmods (skipByte_of_type htype (by decide) tail)
  | byRef hmods _ =>
      rw [List.append_assoc]
      exact hbehind hmods rfl

end Opening

section Complete

theorem parseNumber_append {n : Nat} {e : Signature} (h : EncodesNumber n e)
    (tail : Signature) : parseNumber (e ++ tail) = some (n, tail) :=
  corSigUncompressData_append h tail

theorem parseTypeDefOrRefEncoded_append {n : Nat} {e : Signature} (h : EncodesNumber n e)
    (tail : Signature) : parseTypeDefOrRefEncoded (e ++ tail) = some tail := by
  simp [parseTypeDefOrRefEncoded, corSigUncompressToken, corSigUncompressData_append h]

theorem parseOptionalCustomMods_of_notMod {sig : Signature} (h : NotMod sig) (fuel : Nat) :
    parseOptionalCustomMods fuel sig = some sig := by
  cases fuel with
  | zero => rfl
  | succ fuel =>
      cases sig with
      | nil => rfl
      | cons b rest =>
          obtain ⟨hopt, hreqd⟩ := h b rfl
          simp [parseOptionalCustomMods, hopt, hreqd]

/-- The two parsers of declared types, behind the custom modifiers. -/
theorem parserAt_declared {fuel : Nat} {isReturn : Bool} {sig rest : Signature}
    (hmods : parseOptionalCustomMods sig.length sig = some rest) :
    parserAt fuel (.declared isReturn) sig =
      match (skipByte ELEMENT_TYPE_TYPEDBYREF rest).or
        (if isReturn then skipByte ELEMENT_TYPE_VOID rest else none) with
      | some rest => some rest
      | none => parseTypeAt fuel ((skipByte ELEMENT_TYPE_BYREF rest).getD rest) := by
  cases isReturn with
  | true =>
      simp only [parserAt, parseRetType, hmods, if_true]
      rfl
  | false =>
      simp only [parserAt, parseParam, hmods, Bool.false_eq_true, if_false, Option.or_none]
      rfl

/-! The branches of `ParseType`. -/

section Branches

variable (fuel : Nat) (sig : Signature)

theorem parseTypeAt_primitive {b : UInt8} (hb : b ∈ primitiveTypes) :
    parseTypeAt (fuel + 1) (b :: sig) = some sig := if_pos hb

theorem parseTypeAt_ptr :
    parseTypeAt (fuel + 1) (ELEMENT_TYPE_PTR :: sig) =
      (parseOptionalCustomMods sig.length sig).bind fun sig =>
        match skipByte ELEMENT_TYPE_VOID sig with
        | some rest => some rest
        | none => parseTypeAt fuel sig := rfl

theorem parseTypeAt_defOrRef {b : UInt8}
    (hb : b = ELEMENT_TYPE_VALUETYPE ∨ b = ELEMENT_TYPE_CLASS) :
    parseTypeAt (fuel + 1) (b :: sig) = parseTypeDefOrRefEncoded sig := by
  rcases hb with rfl | rfl <;> rfl

theorem parseTypeAt_fnPtr :
    parseTypeAt (fuel + 1) (ELEMENT_TYPE_FNPTR :: sig) = parseMethod (parseTypeAt fuel) sig := rfl

theorem parseTypeAt_array :
    parseTypeAt (fuel + 1) (ELEMENT_TYPE_ARRAY :: sig) =
      (parseTypeAt fuel sig).bind parseArrayShape := rfl

theorem parseTypeAt_szArray :
    parseTypeAt (fuel + 1) (ELEMENT_TYPE_SZARRAY :: sig) =
      (parseOptionalCustomMods sig.length sig).bind (parseTypeAt fuel) := rfl

theorem parseTypeAt_genericInst {b : UInt8}
    (hb : b = ELEMENT_TYPE_VALUETYPE ∨ b = ELEMENT_TYPE_CLASS) :
    parseTypeAt (fuel + 1) (ELEMENT_TYPE_GENERICINST :: b :: sig) =
      (parseTypeDefOrRefEncoded sig).bind fun sig =>
        (parseNumber sig).bind fun (number, sig) =>
          repeatParser (parseTypeAt fuel) number sig := by
  rcases hb with rfl | rfl <;> rfl

theorem parseTypeAt_var {b : UInt8} (hb : b = ELEMENT_TYPE_VAR ∨ b = ELEMENT_TYPE_MVAR) :
    parseTypeAt (fuel + 1) (b :: sig) = (parseNumber sig).map Prod.snd := by
  rcases hb with rfl | rfl <;> rfl

end Branches

theorem exists_fuel {fuel n : Nat} (h : n + 1 ≤ fuel) : ∃ k, fuel = k + 1 ∧ n ≤ k :=
  ⟨fuel - 1, by omega, by omega⟩

theorem length_le_append {a b : Signature} : a.length ≤ (a ++ b).length := by
  rw [List.length_append]
  omega

/-- Every derivation is skipped, whatever follows it. -/
theorem Derives.parserAt_append {nt : Nonterminal} {e : Signature}
    (h : Derives implemented nt e) :
    ∀ fuel, e.length ≤ fuel → ∀ tail, (nt = .mods → NotMod tail) →
      parserAt fuel nt (e ++ tail) = some tail := by
  induction h with
  | noMods =>
      intro fuel _ tail htail
      exact parseOptionalCustomMods_of_notMod (htail rfl) fuel
  | @mod b n token rest hb htoken _ ih =>
      intro fuel hfuel tail htail
      simp only [List.length_cons, List.length_append] at hfuel
      obtain ⟨fuel, rfl, hfuel⟩ := exists_fuel hfuel
      have hrest := ih fuel (by omega) tail htail
      simp only [parserAt] at hrest
      simp [parserAt, parseOptionalCustomMods, hb, parseTypeDefOrRefEncoded_append htoken, hrest]
  | @primitive b hb =>
      intro fuel hfuel tail _
      obtain ⟨fuel, rfl, _⟩ := exists_fuel hfuel
      exact parseTypeAt_primitive fuel tail hb
  | @defOrRef b n token hb htoken =>
      intro fuel hfuel tail _
      obtain ⟨fuel, rfl, _⟩ := exists_fuel hfuel
      change parseTypeAt (fuel + 1) (b :: (token ++ tail)) = _
      rw [parseTypeAt_defOrRef fuel _ hb, parseTypeDefOrRefEncoded_append htoken]
  | @ptr mods type _ htype ihMods ihType =>
      intro fuel hfuel tail _
      simp only [List.length_cons, List.length_append] at hfuel
      obtain ⟨fuel, rfl, hfuel⟩ := exists_fuel hfuel
      change parseTypeAt (fuel + 1) (ELEMENT_TYPE_PTR :: ((mods ++ type) ++ tail)) = _
      have hmods := ihMods (mods ++ (type ++ tail)).length length_le_append (type ++ tail)
        fun _ => notMod_of_type htype tail
      have htypes := ihType fuel (by omega) tail nofun
      simp only [parserAt] at hmods htypes
      rw [parseTypeAt_ptr, List.append_assoc, hmods, Option.bind_some]
      cases hvoid : skipByte ELEMENT_TYPE_VOID (type ++ tail) with
      | none => exact htypes
      | some rest =>
          obtain ⟨b, rest', rfl, _⟩ := exists_cons_of_type htype
          simp only [skipByte, List.cons_append, Option.ite_none_right_eq_some,
            Option.some.injEq] at hvoid
          obtain ⟨rfl, rfl⟩ := hvoid
          rw [eq_nil_of_void htype, List.nil_append]
  | @ptrVoid mods _ ihMods =>
      intro fuel hfuel tail _
      obtain ⟨fuel, rfl, _⟩ := exists_fuel hfuel
      change parseTypeAt (fuel + 1)
        (ELEMENT_TYPE_PTR :: ((mods ++ [ELEMENT_TYPE_VOID]) ++ tail)) = _
      have hmods := ihMods (mods ++ ([ELEMENT_TYPE_VOID] ++ tail)).length length_le_append
        ([ELEMENT_TYPE_VOID] ++ tail) fun _ => notMod_cons (by decide) tail
      simp only [parserAt] at hmods
      rw [parseTypeAt_ptr, List.append_assoc, hmods]
      rfl
  | @fnPtr method _ ih =>
      intro fuel hfuel tail _
      obtain ⟨fuel, rfl, hfuel⟩ := exists_fuel hfuel
      change parseTypeAt (fuel + 1) (ELEMENT_TYPE_FNPTR :: (method ++ tail)) = _
      rw [parseTypeAt_fnPtr]
      exact ih fuel (Nat.le_of_succ_le_succ hfuel) tail nofun
  | @array type shape _ _ ihType ihShape =>
      intro fuel hfuel tail _
      simp only [List.length_cons, List.length_append] at hfuel
      obtain ⟨fuel, rfl, hfuel⟩ := exists_fuel hfuel
      change parseTypeAt (fuel + 1) (ELEMENT_TYPE_ARRAY :: ((type ++ shape) ++ tail)) = _
      have htype := ihType fuel (by omega) (shape ++ tail) nofun
      have hshape := ihShape fuel (by omega) tail nofun
      simp only [parserAt] at htype hshape
      rw [parseTypeAt_array, List.append_assoc, htype, Option.bind_some, hshape]
  | @szArray mods type _ htype ihMods ihType =>
      intro fuel hfuel tail _
      simp only [List.length_cons, List.length_append] at hfuel
      obtain ⟨fuel, rfl, hfuel⟩ := exists_fuel hfuel
      change parseTypeAt (fuel + 1) (ELEMENT_TYPE_SZARRAY :: ((mods ++ type) ++ tail)) = _
      have hmods := ihMods (mods ++ (type ++ tail)).length length_le_append (type ++ tail)
        fun _ => notMod_of_type htype tail
      have htypes := ihType fuel (by omega) tail nofun
      simp only [parserAt] at hmods htypes
      rw [parseTypeAt_szArray, List.append_assoc, hmods, Option.bind_some, htypes]
  | @genericInst b n k token count types hb htoken hcount _ ih =>
      intro fuel hfuel tail _
      simp only [List.length_cons, List.length_append] at hfuel
      obtain ⟨fuel, rfl, hfuel⟩ := exists_fuel hfuel
      change parseTypeAt (fuel + 1)
        (ELEMENT_TYPE_GENERICINST :: b :: ((token ++ (count ++ types)) ++ tail)) = _
      have htypes := ih fuel (by omega) tail nofun
      simp only [parserAt] at htypes
      rw [parseTypeAt_genericInst fuel _ hb]
      simp only [List.append_assoc, parseTypeDefOrRefEncoded_append htoken,
        parseNumber_append hcount, Option.bind_some, htypes]
  | @var b n number hb hnumber =>
      intro fuel hfuel tail _
      obtain ⟨fuel, rfl, _⟩ := exists_fuel hfuel
      change parseTypeAt (fuel + 1) (b :: (number ++ tail)) = _
      rw [parseTypeAt_var fuel _ hb, parseNumber_append hnumber, Option.map_some]
  | noTypes => exact fun _ _ _ _ => rfl
  | @types n type types _ _ ihType ihTypes =>
      intro fuel hfuel tail _
      simp only [List.length_append] at hfuel
      have htype := ihType fuel (by omega) (types ++ tail) nofun
      have htypes := ihTypes fuel (by omega) tail nofun
      simp only [parserAt] at htype htypes
      simp only [parserAt, repeatParser, List.append_assoc, htype, Option.bind_some, htypes]
  | noNumbers => exact fun _ _ _ _ => rfl
  | @numbers n k number numbers hnumber _ ih =>
      intro fuel hfuel tail _
      simp only [List.length_append] at hfuel
      have hnumbers := ih fuel (by omega) tail nofun
      simp only [parserAt] at hnumbers
      simp only [parserAt, repeatParser, List.append_assoc, parseNumber_append hnumber,
        Option.map_some, Option.bind_some, hnumbers]
  | @shape k n m rank numSizes sizes numLoBounds loBounds hrank hnumSizes _ hnumLoBounds _
      ihSizes ihLoBounds =>
      intro fuel hfuel tail _
      simp only [List.length_append] at hfuel
      have hsizes := ihSizes fuel (by omega) (numLoBounds ++ (loBounds ++ tail)) nofun
      have hloBounds := ihLoBounds fuel (by omega) tail nofun
      simp only [parserAt] at hsizes hloBounds
      simp only [parserAt, parseArrayShape, List.append_assoc, parseNumber_append hrank,
        parseNumber_append hnumSizes, parseNumber_append hnumLoBounds, bind, Option.bind_some,
        hsizes, hloBounds]
  | @typedByRef isReturn mods _ ihMods =>
      intro fuel _ tail _
      rw [List.append_assoc]
      have hmods := ihMods (mods ++ ([ELEMENT_TYPE_TYPEDBYREF] ++ tail)).length length_le_append
        ([ELEMENT_TYPE_TYPEDBYREF] ++ tail) fun _ => notMod_cons (by decide) tail
      rw [parserAt_declared hmods]
      rfl
  | @void mods _ ihMods =>
      intro fuel _ tail _
      rw [List.append_assoc]
      have hmods := ihMods (mods ++ ([ELEMENT_TYPE_VOID] ++ tail)).length length_le_append
        ([ELEMENT_TYPE_VOID] ++ tail) fun _ => notMod_cons (by decide) tail
      rw [parserAt_declared hmods]
      rfl
  | @byValue isReturn mods type _ htype ihMods ihType =>
      intro fuel hfuel tail _
      simp only [List.length_append] at hfuel
      rw [List.append_assoc]
      have hmods := ihMods (mods ++ (type ++ tail)).length length_le_append (type ++ tail)
        fun _ => notMod_of_type htype tail
      have htypes := ihType fuel (by omega) tail nofun
      simp only [parserAt] at htypes
      rw [parserAt_declared hmods, skipByte_of_type htype (by decide) tail, Option.none_or]
      cases hvoid : if isReturn then skipByte ELEMENT_TYPE_VOID (type ++ tail) else none with
      | none =>
          dsimp only
          rw [skipByte_of_type htype (by decide) tail, Option.getD_none, htypes]
      | some rest =>
          obtain ⟨b, rest', rfl, _⟩ := exists_cons_of_type htype
          simp only [skipByte, List.cons_append, Option.ite_none_right_eq_some,
            Option.some.injEq] at hvoid
          obtain ⟨_, rfl, rfl⟩ := hvoid
          dsimp only
          rw [eq_nil_of_void htype, List.nil_append]
  | @byRef isReturn mods type _ htype ihMods ihType =>
      intro fuel hfuel tail _
      simp only [List.length_append, List.length_cons] at hfuel
      rw [List.append_assoc, List.cons_append]
      have hmods := ihMods (mods ++ ELEMENT_TYPE_BYREF :: (type ++ tail)).length length_le_append
        (ELEMENT_TYPE_BYREF :: (type ++ tail)) fun _ => notMod_cons (by decide) _
      have htypes := ihType fuel (by omega) tail nofun
      simp only [parserAt] at htypes
      rw [parserAt_declared hmods]
      cases isReturn with
      | true => exact htypes
      | false => exact htypes
  | noParams => exact fun _ _ _ _ => rfl
  | @params n sentinelFound param params hparam _ ihParam ihParams =>
      intro fuel hfuel tail _
      simp only [List.length_append] at hfuel
      have hfirst := ihParam fuel (by omega) (params ++ tail) nofun
      have hrest := ihParams fuel (by omega) tail nofun
      simp only [parserAt] at hfirst hrest
      simp only [parserAt, parseParams, List.append_assoc,
        skipByte_sentinel_of_declared hparam, hfirst, Option.bind_some, hrest]
  | @sentinel n param params _ _ ihParam ihParams =>
      intro fuel hfuel tail _
      simp only [List.length_append, List.length_cons] at hfuel
      have hfirst := ihParam fuel (by omega) (params ++ tail) nofun
      have hrest := ihParams fuel (by omega) tail nofun
      simp only [parserAt] at hfirst hrest
      change (parseParam (parseTypeAt fuel) ((param ++ params) ++ tail)).bind _ = _
      rw [List.append_assoc, hfirst, Option.bind_some, hrest]
  | @method n header count ret params hheader hcount _ _ ihRet ihParams =>
      intro fuel hfuel tail _
      simp only [List.length_append] at hfuel
      have hret := ihRet fuel (by omega) (params ++ tail) nofun
      have hparams := ihParams fuel (by omega) tail nofun
      simp only [parserAt] at hret hparams
      simp only [parserAt, List.append_assoc]
      rcases hheader with ⟨k, generic, hgeneric, rfl⟩ | ⟨rfl, hhead⟩
      · have hskip : skipByte callConvGeneric
            (callConvGeneric :: generic ++ (count ++ (ret ++ (params ++ tail)))) =
              some (generic ++ (count ++ (ret ++ (params ++ tail)))) := rfl
        simp only [parseMethod, hskip, parseNumber_append hgeneric, parseNumber_append hcount,
          Option.map_some, bind, Option.bind_some, hret, hparams]
      · have hskip : skipByte callConvGeneric (count ++ (ret ++ (params ++ tail))) = none := by
          cases hcount with
          | one _ => exact if_neg fun hb => hhead (congrArg some hb)
          | two _ _ => exact if_neg fun hb => hhead (congrArg some hb)
          | four _ _ => exact if_neg fun hb => hhead (congrArg some hb)
        simp only [List.nil_append, parseMethod, hskip, parseNumber_append hcount, bind,
          Option.bind_some, hret, hparams]

end Complete

section Sound

/-- Whatever the parser skips is a derivation. -/
def Sound (parser : Parser) (nt : Nonterminal) : Prop :=
  ∀ sig rest, parser sig = some rest → ∃ e, sig = e ++ rest ∧ Derives implemented nt e

theorem exists_number {n : Nat} {sig rest : Signature} (h : parseNumber sig = some (n, rest)) :
    ∃ e, sig = e ++ rest ∧ EncodesNumber n e := encodesNumber_of_read h

theorem exists_token {sig rest : Signature} (h : parseTypeDefOrRefEncoded sig = some rest) :
    ∃ n e, sig = e ++ rest ∧ EncodesNumber n e := by
  simp only [parseTypeDefOrRefEncoded, corSigUncompressToken, Option.map_map,
    Option.map_eq_some_iff] at h
  obtain ⟨⟨n, rest'⟩, hread, rfl⟩ := h
  exact ⟨n, encodesNumber_of_read hread⟩

theorem skipByte_eq_some {b : UInt8} {sig rest : Signature} (h : skipByte b sig = some rest) :
    sig = b :: rest := by
  cases sig with
  | nil => cases h
  | cons c sig =>
      simp only [skipByte, Option.ite_none_right_eq_some, Option.some.injEq] at h
      rw [h.1, h.2]

theorem sound_mods (fuel : Nat) : Sound (parseOptionalCustomMods fuel) .mods := by
  induction fuel with
  | zero =>
      intro sig rest h
      cases h
      exact ⟨[], rfl, .noMods⟩
  | succ fuel ih =>
      intro sig rest h
      cases sig with
      | nil =>
          cases h
          exact ⟨[], rfl, .noMods⟩
      | cons b sig =>
          simp only [parseOptionalCustomMods] at h
          split at h
          next hb =>
            obtain ⟨middle, htoken, hrest⟩ := Option.bind_eq_some_iff.mp h
            obtain ⟨n, token, rfl, hn⟩ := exists_token htoken
            obtain ⟨e, rfl, he⟩ := ih _ _ hrest
            exact ⟨b :: (token ++ e), by simp, .mod hb hn he⟩
          next =>
            cases h
            exact ⟨[], rfl, .noMods⟩

theorem sound_numbers (n : Nat) :
    Sound (repeatParser (fun sig => (parseNumber sig).map Prod.snd) n) (.numbers n) := by
  induction n with
  | zero =>
      intro sig rest h
      cases h
      exact ⟨[], rfl, .noNumbers⟩
  | succ n ih =>
      intro sig rest h
      obtain ⟨middle, hnumber, hrest⟩ := Option.bind_eq_some_iff.mp h
      obtain ⟨⟨k, middle'⟩, hread, rfl⟩ := Option.map_eq_some_iff.mp hnumber
      obtain ⟨number, rfl, hk⟩ := exists_number hread
      obtain ⟨e, rfl, he⟩ := ih _ _ hrest
      exact ⟨number ++ e, by simp, .numbers hk he⟩

theorem sound_shape : Sound parseArrayShape .shape := by
  intro sig rest h
  simp only [parseArrayShape, bind, Option.bind_eq_some_iff, Prod.exists] at h
  obtain ⟨k, s₁, hrank, n, s₂, hnumSizes, s₃, hsizes, m, s₄, hnumLoBounds, hloBounds⟩ := h
  obtain ⟨rank, rfl, hk⟩ := exists_number hrank
  obtain ⟨numSizes, rfl, hn⟩ := exists_number hnumSizes
  obtain ⟨sizes, rfl, hs⟩ := sound_numbers n _ _ hsizes
  obtain ⟨numLoBounds, rfl, hm⟩ := exists_number hnumLoBounds
  obtain ⟨loBounds, rfl, hl⟩ := sound_numbers m _ _ hloBounds
  exact ⟨rank ++ (numSizes ++ (sizes ++ (numLoBounds ++ loBounds))), by simp,
    .shape hk hn hs hm hl⟩

variable {type : Parser} (htype : Sound type .type)

include htype

theorem sound_types (n : Nat) : Sound (repeatParser type n) (.types n) := by
  induction n with
  | zero =>
      intro sig rest h
      cases h
      exact ⟨[], rfl, .noTypes⟩
  | succ n ih =>
      intro sig rest h
      obtain ⟨middle, hfirst, hrest⟩ := Option.bind_eq_some_iff.mp h
      obtain ⟨first, rfl, hf⟩ := htype _ _ hfirst
      obtain ⟨e, rfl, he⟩ := ih _ _ hrest
      exact ⟨first ++ e, by simp, .types hf he⟩

/-- A type or a reference to one, behind custom modifiers. -/
theorem sound_byValueOrRef {isReturn : Bool} {mods sig rest : Signature}
    (hmods : Derives implemented .mods mods)
    (h : type ((skipByte ELEMENT_TYPE_BYREF sig).getD sig) = some rest) :
    ∃ e, mods ++ sig = e ++ rest ∧ Derives implemented (.declared isReturn) e := by
  obtain ⟨e, he, hderives⟩ := htype _ _ h
  cases hbyRef : skipByte ELEMENT_TYPE_BYREF sig with
  | none =>
      rw [hbyRef, Option.getD_none] at he
      subst he
      exact ⟨mods ++ e, by simp, .byValue hmods hderives⟩
  | some behind =>
      rw [hbyRef, Option.getD_some] at he
      subst he
      rw [skipByte_eq_some hbyRef]
      exact ⟨mods ++ ELEMENT_TYPE_BYREF :: e, by simp, .byRef hmods hderives⟩

theorem sound_retType : Sound (parseRetType type) (.declared true) := by
  intro sig rest h
  simp only [parseRetType, bind, Option.bind_eq_some_iff] at h
  obtain ⟨middle, hmods, h⟩ := h
  obtain ⟨mods, rfl, hm⟩ := sound_mods _ _ _ hmods
  split at h
  next rest' hskip =>
    cases h
    rcases Option.or_eq_some_iff.mp hskip with hskip | ⟨_, hskip⟩
    · rw [skipByte_eq_some hskip]
      exact ⟨mods ++ [ELEMENT_TYPE_TYPEDBYREF], by simp, .typedByRef hm⟩
    · rw [skipByte_eq_some hskip]
      exact ⟨mods ++ [ELEMENT_TYPE_VOID], by simp, .void hm⟩
  next => exact sound_byValueOrRef htype hm h

theorem sound_param : Sound (parseParam type) (.declared false) := by
  intro sig rest h
  simp only [parseParam, bind, Option.bind_eq_some_iff] at h
  obtain ⟨middle, hmods, h⟩ := h
  obtain ⟨mods, rfl, hm⟩ := sound_mods _ _ _ hmods
  split at h
  next rest' hskip =>
    cases h
    rw [skipByte_eq_some hskip]
    exact ⟨mods ++ [ELEMENT_TYPE_TYPEDBYREF], by simp, .typedByRef hm⟩
  next => exact sound_byValueOrRef htype hm h

theorem sound_params (n : Nat) (sentinelFound : Bool) :
    Sound (parseParams type n sentinelFound) (.params n sentinelFound) := by
  induction n generalizing sentinelFound with
  | zero =>
      intro sig rest h
      cases h
      exact ⟨[], rfl, .noParams⟩
  | succ n ih =>
      intro sig rest h
      simp only [parseParams] at h
      split at h
      next behind hskip =>
        split at h
        next => cases h
        next hfound =>
          obtain rfl : sentinelFound = false := by simpa using hfound
          obtain ⟨middle, hfirst, hrest⟩ := Option.bind_eq_some_iff.mp h
          obtain ⟨param, rfl, hp⟩ := sound_param htype _ _ hfirst
          obtain ⟨e, rfl, he⟩ := ih true _ _ hrest
          rw [skipByte_eq_some hskip]
          exact ⟨ELEMENT_TYPE_SENTINEL :: (param ++ e), by simp, .sentinel hp he⟩
      next =>
        obtain ⟨middle, hfirst, hrest⟩ := Option.bind_eq_some_iff.mp h
        obtain ⟨param, rfl, hp⟩ := sound_param htype _ _ hfirst
        obtain ⟨e, rfl, he⟩ := ih sentinelFound _ _ hrest
        exact ⟨param ++ e, by simp, .params hp he⟩

theorem sound_method : Sound (parseMethod type) .method := by
  intro sig rest h
  unfold parseMethod at h
  cases hskip : skipByte callConvGeneric sig with
  | some behind =>
      simp only [hskip, bind, Option.bind_eq_some_iff, Option.map_eq_some_iff,
        Prod.exists] at h
      obtain ⟨s₁, ⟨k, _, hgeneric, rfl⟩, n, s₂, hcount, s₃, hret, hparams⟩ := h
      obtain ⟨generic, rfl, hk⟩ := exists_number hgeneric
      obtain ⟨count, rfl, hn⟩ := exists_number hcount
      obtain ⟨ret, rfl, hr⟩ := sound_retType htype _ _ hret
      obtain ⟨params, rfl, hp⟩ := sound_params htype n false _ _ hparams
      rw [skipByte_eq_some hskip]
      exact ⟨(callConvGeneric :: generic) ++ (count ++ (ret ++ params)), by simp,
        .method (.inl ⟨k, generic, hk, rfl⟩) hn hr hp⟩
  | none =>
      simp only [hskip, bind, Option.bind_some, Option.bind_eq_some_iff, Prod.exists] at h
      obtain ⟨n, s₂, hcount, s₃, hret, hparams⟩ := h
      obtain ⟨count, rfl, hn⟩ := exists_number hcount
      obtain ⟨ret, rfl, hr⟩ := sound_retType htype _ _ hret
      obtain ⟨params, rfl, hp⟩ := sound_params htype n false _ _ hparams
      have hhead : count.head? ≠ some callConvGeneric := by
        intro hhead
        obtain ⟨behind, rfl⟩ : ∃ behind, count = callConvGeneric :: behind := by
          cases count with
          | nil => cases hhead
          | cons b behind =>
              cases hhead
              exact ⟨behind, rfl⟩
        cases hskip
      exact ⟨[] ++ (count ++ (ret ++ params)), by simp, .method (.inr ⟨rfl, hhead⟩) hn hr hp⟩

omit htype

theorem sound_type (fuel : Nat) : Sound (parseTypeAt fuel) .type := by
  induction fuel with
  | zero =>
      intro sig rest h
      cases h
  | succ fuel ih =>
      intro sig rest h
      cases sig with
      | nil => cases h
      | cons b sig =>
          simp only [parseTypeAt] at h
          split at h
          next hb =>
            cases h
            exact ⟨[b], rfl, .primitive hb⟩
          split at h
          next _ hb =>
            subst hb
            simp only [bind, Option.bind_eq_some_iff] at h
            obtain ⟨middle, hmods, h⟩ := h
            obtain ⟨mods, rfl, hm⟩ := sound_mods _ _ _ hmods
            split at h
            next behind hskip =>
              cases h
              rw [skipByte_eq_some hskip]
              exact ⟨ELEMENT_TYPE_PTR :: (mods ++ [ELEMENT_TYPE_VOID]), by simp, .ptrVoid hm⟩
            next =>
              obtain ⟨type, rfl, ht⟩ := ih _ _ h
              exact ⟨ELEMENT_TYPE_PTR :: (mods ++ type), by simp, .ptr hm ht⟩
          split at h
          next _ _ hb =>
            obtain ⟨n, token, rfl, hn⟩ := exists_token h
            exact ⟨b :: token, rfl, .defOrRef hb hn⟩
          split at h
          next _ _ _ hb =>
            subst hb
            obtain ⟨method, rfl, hm⟩ := sound_method ih _ _ h
            exact ⟨ELEMENT_TYPE_FNPTR :: method, rfl, .fnPtr hm⟩
          split at h
          next _ _ _ _ hb =>
            subst hb
            obtain ⟨middle, htype, hshape⟩ := Option.bind_eq_some_iff.mp h
            obtain ⟨type, rfl, ht⟩ := ih _ _ htype
            obtain ⟨shape, rfl, hs⟩ := sound_shape _ _ hshape
            exact ⟨ELEMENT_TYPE_ARRAY :: (type ++ shape), by simp, .array ht hs⟩
          split at h
          next _ _ _ _ _ hb =>
            subst hb
            obtain ⟨middle, hmods, htype⟩ := Option.bind_eq_some_iff.mp h
            obtain ⟨mods, rfl, hm⟩ := sound_mods _ _ _ hmods
            obtain ⟨type, rfl, ht⟩ := ih _ _ htype
            exact ⟨ELEMENT_TYPE_SZARRAY :: (mods ++ type), by simp, .szArray hm ht⟩
          split at h
          next _ _ _ _ _ _ hb =>
            subst hb
            simp only [bind, Option.bind_eq_some_iff, Prod.exists] at h
            obtain ⟨s₁, hkind, s₂, htoken, n, s₃, hcount, htypes⟩ := h
            obtain ⟨c, rfl, hc⟩ : ∃ c, sig = c :: s₁ ∧
                (c = ELEMENT_TYPE_VALUETYPE ∨ c = ELEMENT_TYPE_CLASS) := by
              rcases Option.or_eq_some_iff.mp hkind with hkind | ⟨_, hkind⟩
              · exact ⟨_, skipByte_eq_some hkind, .inl rfl⟩
              · exact ⟨_, skipByte_eq_some hkind, .inr rfl⟩
            obtain ⟨k, token, rfl, hk⟩ := exists_token htoken
            obtain ⟨count, rfl, hn⟩ := exists_number hcount
            obtain ⟨types, rfl, hts⟩ := sound_types ih n _ _ htypes
            exact ⟨ELEMENT_TYPE_GENERICINST :: c :: (token ++ (count ++ types)), by simp,
              .genericInst hc hk hn hts⟩
          split at h
          next _ _ _ _ _ _ _ hb =>
            obtain ⟨⟨n, rest'⟩, hread, rfl⟩ := Option.map_eq_some_iff.mp h
            obtain ⟨number, rfl, hn⟩ := exists_number hread
            exact ⟨b :: number, rfl, .var hb hn⟩
          cases h

end Sound

section Exact

/-- With enough fuel the parser of types skips exactly the derived types. -/
theorem parseTypeAt_eq_some_iff {fuel : Nat} {sig rest : Signature} (hfuel : sig.length ≤ fuel) :
    parseTypeAt fuel sig = some rest ↔ ∃ e, sig = e ++ rest ∧ Derives implemented .type e := by
  constructor
  · intro h
    exact sound_type fuel sig rest h
  · rintro ⟨e, rfl, he⟩
    rw [List.length_append] at hfuel
    exact he.parserAt_append fuel (by omega) rest nofun

/-- More fuel than bytes changes nothing. -/
theorem parseTypeAt_of_le {fuel : Nat} {sig : Signature} (hfuel : sig.length ≤ fuel) :
    parseTypeAt fuel sig = parseType sig := by
  apply Option.ext
  intro rest
  unfold parseType
  rw [parseTypeAt_eq_some_iff hfuel, parseTypeAt_eq_some_iff (Nat.le_refl _)]

theorem sound_parseType : Sound parseType .type :=
  fun sig rest h => sound_type sig.length sig rest h

/-- Behind the custom modifiers there are no more bytes than before them. -/
theorem parseType_behind_mods {sig middle : Signature}
    (h : parseOptionalCustomMods sig.length sig = some middle) :
    parseType ((skipByte ELEMENT_TYPE_BYREF middle).getD middle) =
      parseTypeAt sig.length ((skipByte ELEMENT_TYPE_BYREF middle).getD middle) := by
  obtain ⟨mods, rfl, _⟩ := sound_mods _ _ _ h
  refine (parseTypeAt_of_le ?_).symm
  rw [List.length_append]
  cases hskip : skipByte ELEMENT_TYPE_BYREF middle with
  | none => exact Nat.le_add_left _ _
  | some rest =>
      have hlength := congrArg List.length (skipByte_eq_some hskip)
      simp only [List.length_cons] at hlength
      rw [Option.getD_some]
      omega

theorem parseRetType_parseType (sig : Signature) :
    parseRetType parseType sig = parserAt sig.length (.declared true) sig := by
  refine Option.bind_congr fun middle hmods => ?_
  rw [parseType_behind_mods hmods]

theorem parseParam_parseType (sig : Signature) :
    parseParam parseType sig = parserAt sig.length (.declared false) sig := by
  refine Option.bind_congr fun middle hmods => ?_
  rw [parseType_behind_mods hmods]

/-- A parser that is sound and skips every derivation skips an encoding exactly
when it is a derivation. -/
theorem Sound.exact_iff {parser : Parser} {nt : Nonterminal} (hsound : Sound parser nt)
    (hcomplete : ∀ e, Derives implemented nt e → ∀ tail, parser (e ++ tail) = some tail)
    (e : Signature) : (∀ tail, parser (e ++ tail) = some tail) ↔ Derives implemented nt e := by
  constructor
  · intro h
    obtain ⟨e', he, hderives⟩ := hsound _ _ (h [])
    rwa [List.append_cancel_right he]
  · intro h
    exact hcomplete e h

theorem parserAt_length_append {nt : Nonterminal} {e : Signature} (h : Derives implemented nt e)
    (hnt : nt ≠ .mods) (tail : Signature) :
    parserAt (e ++ tail).length nt (e ++ tail) = some tail :=
  h.parserAt_append _ length_le_append tail fun hmods => absurd hmods hnt

/-- A documented encoding of a type, a return type or a parameter is skipped
exactly, whatever follows it, when the implemented grammar derives it too. -/
theorem parse_exact_iff (e : Signature) :
    (Derives documented .type e →
      ((∀ tail, parseType (e ++ tail) = some tail) ↔ Derives implemented .type e)) ∧
    (Derives documented (.declared true) e →
      ((∀ tail, parseRetType parseType (e ++ tail) = some tail) ↔
        Derives implemented (.declared true) e)) ∧
    (Derives documented (.declared false) e →
      ((∀ tail, parseParam parseType (e ++ tail) = some tail) ↔
        Derives implemented (.declared false) e)) := by
  refine ⟨fun _ => ?_, fun _ => ?_, fun _ => ?_⟩
  · exact sound_parseType.exact_iff (fun _ h tail => parserAt_length_append h nofun tail) e
  · refine (sound_retType sound_parseType).exact_iff (fun _ h tail => ?_) e
    rw [parseRetType_parseType]
    exact parserAt_length_append h nofun tail
  · refine (sound_param sound_parseType).exact_iff (fun _ h tail => ?_) e
    rw [parseParam_parseType]
    exact parserAt_length_append h nofun tail

/-- `List<int>[]`, as a type and as the type of a parameter. -/
theorem parse_exact_listOfInt :
    (∀ tail, parseType ([0x1D, 0x15, 0x12, 0x81, 0x05, 0x01, 0x08] ++ tail) = some tail) ∧
      ∀ tail, parseParam parseType ([0x1D, 0x15, 0x12, 0x81, 0x05, 0x01, 0x08] ++ tail) =
        some tail := by
  have hderives : ∀ g : Grammar, g.isPrimitive 0x08 →
      Derives g .type [0x1D, 0x15, 0x12, 0x81, 0x05, 0x01, 0x08] := by
    intro g hint
    have htoken : EncodesNumber _ [0x81, 0x05] := .two (by decide) (by decide)
    have hcount : EncodesNumber _ [0x01] := .one (by decide)
    exact .szArray .noMods
      (.genericInst (.inr rfl) htoken hcount (.types (.primitive hint) .noTypes))
  have hdocumented := hderives documented (by simp only [documented]; decide)
  have himplemented := hderives implemented (by simp only [implemented]; decide)
  obtain ⟨htype, _, hparam⟩ := parse_exact_iff [0x1D, 0x15, 0x12, 0x81, 0x05, 0x01, 0x08]
  exact ⟨(htype hdocumented).mpr himplemented,
    (hparam (.byValue .noMods hdocumented)).mpr (.byValue .noMods himplemented)⟩

/-- The native integer is documented and refused. -/
theorem parse_not_exact :
    ¬ ∀ e, Derives documented .type e → ∀ tail, parseType (e ++ tail) = some tail := by
  intro hclaim
  have hnative := hclaim [ELEMENT_TYPE_I] (.primitive (by simp only [documented]; decide)) []
  revert hnative
  decide

/-- So is a pointer to a method without parameters and result. -/
example : parseType [ELEMENT_TYPE_FNPTR, 0x00, 0x00, ELEMENT_TYPE_VOID] = none := by decide

end Exact

end SignalFxTracing.Metadata
