import SignalFxTracing.Metadata.SignatureReading

/-!
# Skipping the types of a signature

Without function pointers a documented type is skipped exactly or refused. So
is a return type or a parameter that `ParseType` is given: custom modifiers,
references and the sentinel of a vararg call are refused.
-/

namespace SignalFxTracing.Metadata

/-- The documented grammar without function pointers. -/
def pointerless : Grammar where
  isPrimitive := documented.isPrimitive
  header _ _ := False

theorem typeByte_of_pointerless {e : Signature} (h : Derives pointerless .type e) :
    ∃ b rest, e = b :: rest ∧ b ∈ ELEMENT_TYPE_I :: ELEMENT_TYPE_U :: typeBytes := by
  cases h with
  | primitive hb =>
      refine ⟨_, _, rfl, ?_⟩
      have hall : (documentedPrimitives.all
          (· ∈ ELEMENT_TYPE_I :: ELEMENT_TYPE_U :: typeBytes)) = true := by decide
      exact of_decide_eq_true (List.all_eq_true.mp hall _ hb)
  | defOrRef hb _ => exact ⟨_, _, rfl, by rcases hb with rfl | rfl <;> decide⟩
  | ptr _ _ => exact ⟨_, _, rfl, by decide⟩
  | ptrVoid _ => exact ⟨_, _, rfl, by decide⟩
  | fnPtr _ => exact ⟨_, _, rfl, by decide⟩
  | array _ _ => exact ⟨_, _, rfl, by decide⟩
  | szArray _ _ => exact ⟨_, _, rfl, by decide⟩
  | genericInst _ _ _ _ => exact ⟨_, _, rfl, by decide⟩
  | var hb _ => exact ⟨_, _, rfl, by rcases hb with rfl | rfl <;> decide⟩

theorem notMod_of_pointerless {e : Signature} (h : Derives pointerless .type e)
    (tail : Signature) : NotMod (e ++ tail) := by
  obtain ⟨b, rest, rfl, hb⟩ := typeByte_of_pointerless h
  intro c hc
  cases hc
  constructor
  · rintro rfl
    revert hb
    decide
  · rintro rfl
    revert hb
    decide

theorem skipByte_void_of_pointerless {e : Signature} (h : Derives pointerless .type e)
    (tail : Signature) : skipByte ELEMENT_TYPE_VOID (e ++ tail) = none := by
  have hne : ∀ b ∈ ELEMENT_TYPE_VALUETYPE :: ELEMENT_TYPE_CLASS :: ELEMENT_TYPE_VAR ::
      ELEMENT_TYPE_MVAR :: documentedPrimitives, b ≠ ELEMENT_TYPE_VOID := by
    rintro _ hb rfl
    revert hb
    decide
  have hskip : ∀ {b : UInt8} {rest : Signature}, b ≠ ELEMENT_TYPE_VOID →
      skipByte ELEMENT_TYPE_VOID (b :: rest) = none := fun hb => if_neg hb
  cases h with
  | primitive hb =>
      apply hskip
      apply hne
      simp only [List.mem_cons]
      exact Or.inr (Or.inr (Or.inr (Or.inr hb)))
  | defOrRef hb _ => exact hskip (by rcases hb with rfl | rfl <;> decide)
  | ptr _ _ => rfl
  | ptrVoid _ => rfl
  | fnPtr _ => rfl
  | array _ _ => rfl
  | szArray _ _ => rfl
  | genericInst _ _ _ _ => rfl
  | var hb _ => exact hskip (by rcases hb with rfl | rfl <;> decide)

theorem parseTypeAt_refused {b : UInt8} (hb : b ∉ typeBytes) (fuel : Nat) (rest : Signature) :
    parseTypeAt fuel (b :: rest) = none := by
  cases fuel with
  | zero => rfl
  | succ fuel =>
      simp only [typeBytes, List.mem_append, List.mem_cons, List.not_mem_nil, or_false,
        not_or] at hb
      obtain ⟨hprimitive, hvalueType, hclass, hptr, hfnPtr, harray, hszArray, hgeneric, hvar,
        hmvar⟩ := hb
      simp [parseTypeAt, hprimitive, hvalueType, hclass, hptr, hfnPtr, harray, hszArray,
        hgeneric, hvar, hmvar]

/-- With enough fuel the parser refuses the encoding, whatever follows it. -/
def Refused (parserAt : Nat → Parser) (e : Signature) : Prop :=
  ∀ fuel tail, (e ++ tail).length ≤ fuel → parserAt fuel (e ++ tail) = none

/-- What becomes of a derivation without function pointers in the implemented grammar. -/
def Outcome : Nonterminal → Signature → Prop
  | .type, e => Derives implemented .type e ∨ Refused parseTypeAt e
  | .types n, e =>
      Derives implemented (.types n) e ∨ Refused (fun fuel => repeatParser (parseTypeAt fuel) n) e
  | .mods, e => Derives implemented .mods e
  | .numbers n, e => Derives implemented (.numbers n) e
  | .shape, e => Derives implemented .shape e
  | _, _ => True

theorem Derives.outcome {nt : Nonterminal} {e : Signature} (h : Derives pointerless nt e) :
    Outcome nt e := by
  induction h with
  | noMods => exact .noMods
  | mod hb htoken _ ih => exact .mod hb htoken ih
  | @primitive b hb =>
      by_cases hprimitive : b ∈ primitiveTypes
      · exact Or.inl (.primitive hprimitive)
      · refine Or.inr fun fuel tail _ => parseTypeAt_refused ?_ fuel tail
        have hall : (documentedPrimitives.all
            fun b => b ∈ primitiveTypes || b ∉ typeBytes) = true := by decide
        have hcases := List.all_eq_true.mp hall b hb
        simpa [hprimitive] using hcases
  | defOrRef hb htoken => exact Or.inl (.defOrRef hb htoken)
  | @ptr mods type _ htype ihMods ihType =>
      refine ihType.imp (.ptr ihMods) fun hrefused fuel tail hfuel => ?_
      simp only [List.cons_append, List.length_cons, List.length_append] at hfuel
      obtain ⟨fuel, rfl, hfuel⟩ := exists_fuel hfuel
      have hmods := ihMods.parserAt_append (mods ++ (type ++ tail)).length length_le_append
        (type ++ tail) fun _ => notMod_of_pointerless htype tail
      simp only [parserAt] at hmods
      rw [List.cons_append, List.append_assoc, parseTypeAt_ptr, hmods, Option.bind_some,
        skipByte_void_of_pointerless htype]
      exact hrefused fuel tail (by simp only [List.length_append]; omega)
  | ptrVoid _ ihMods => exact Or.inl (.ptrVoid ihMods)
  | fnPtr hmethod =>
      cases hmethod with
      | method hheader => exact hheader.elim
  | @array type shape _ _ ihType ihShape =>
      rcases ihType with htype | hrefused
      · exact Or.inl (.array htype ihShape)
      · refine Or.inr fun fuel tail hfuel => ?_
        simp only [List.cons_append, List.length_cons, List.length_append] at hfuel
        obtain ⟨fuel, rfl, hfuel⟩ := exists_fuel hfuel
        rw [List.cons_append, List.append_assoc, parseTypeAt_array,
          hrefused fuel _ (by simp only [List.length_append]; omega)]
        rfl
  | @szArray mods type _ htype ihMods ihType =>
      refine ihType.imp (.szArray ihMods) fun hrefused fuel tail hfuel => ?_
      simp only [List.cons_append, List.length_cons, List.length_append] at hfuel
      obtain ⟨fuel, rfl, hfuel⟩ := exists_fuel hfuel
      have hmods := ihMods.parserAt_append (mods ++ (type ++ tail)).length length_le_append
        (type ++ tail) fun _ => notMod_of_pointerless htype tail
      simp only [parserAt] at hmods
      rw [List.cons_append, List.append_assoc, parseTypeAt_szArray, hmods, Option.bind_some]
      exact hrefused fuel tail (by simp only [List.length_append]; omega)
  | @genericInst b n k token count types hb htoken hcount _ ih =>
      refine ih.imp (.genericInst hb htoken hcount) fun hrefused fuel tail hfuel => ?_
      simp only [List.cons_append, List.length_cons, List.length_append] at hfuel
      obtain ⟨fuel, rfl, hfuel⟩ := exists_fuel hfuel
      rw [List.cons_append, List.cons_append, List.append_assoc, List.append_assoc,
        parseTypeAt_genericInst _ _ hb, parseTypeDefOrRefEncoded_append htoken, Option.bind_some,
        parseNumber_append hcount, Option.bind_some]
      exact hrefused fuel tail (by simp only [List.length_append]; omega)
  | var hb hnumber => exact Or.inl (.var hb hnumber)
  | noTypes => exact Or.inl .noTypes
  | @types n type types _ _ ihType ihTypes =>
      have hrepeat : ∀ fuel tail, repeatParser (parseTypeAt fuel) (n + 1) (type ++ types ++ tail) =
          (parseTypeAt fuel (type ++ (types ++ tail))).bind
            (repeatParser (parseTypeAt fuel) n) := by
        intro fuel tail
        rw [List.append_assoc]
        rfl
      rcases ihType with htype | hrefused
      · refine ihTypes.imp (.types htype) fun hrefused fuel tail hfuel => ?_
        simp only [List.length_append] at hfuel
        have hskip := htype.parserAt_append fuel (by omega) (types ++ tail)
          (fun h => by cases h)
        simp only [parserAt] at hskip
        dsimp only
        rw [hrepeat, hskip, Option.bind_some]
        exact hrefused fuel tail (by simp only [List.length_append]; omega)
      · refine Or.inr fun fuel tail hfuel => ?_
        simp only [List.length_append] at hfuel
        dsimp only
        rw [hrepeat, hrefused fuel _ (by simp only [List.length_append]; omega)]
        rfl
  | noNumbers => exact .noNumbers
  | numbers hnumber _ ih => exact .numbers hnumber ih
  | shape hrank hnumSizes _ hnumLoBounds _ ihSizes ihLoBounds =>
      exact .shape hrank hnumSizes ihSizes hnumLoBounds ihLoBounds
  | typedByRef _ _ => trivial
  | void _ _ => trivial
  | byValue _ _ _ _ => trivial
  | byRef _ _ _ _ => trivial
  | noParams => trivial
  | params _ _ _ _ => trivial
  | sentinel _ _ _ _ => trivial
  | method _ _ _ _ _ _ => trivial

/-- A return type or a parameter, with the sentinel of a vararg call or without. -/
def IsDeclared (g : Grammar) (isReturn : Bool) (e : Signature) : Prop :=
  ∃ declared, Derives g (.declared isReturn) declared ∧
    (e = declared ∨ e = ELEMENT_TYPE_SENTINEL :: declared)

/-- `ParseType` skips a return type or a parameter exactly, or it refuses it. -/
theorem IsDeclared.implemented_or_refused {isReturn : Bool} {e : Signature}
    (h : IsDeclared pointerless isReturn e) :
    Derives implemented .type e ∨ ∀ tail, parseType (e ++ tail) = none := by
  have hrefused : ∀ {b : UInt8} {rest : Signature}, b ∉ typeBytes → ∀ tail,
      parseType (b :: rest ++ tail) = none := fun hb _ => parseTypeAt_refused hb _ _
  obtain ⟨declared, hdeclared, rfl | rfl⟩ := h
  · have hmods : ∀ {mods rest : Signature}, Derives pointerless .mods mods →
        (Derives implemented .type rest ∨ ∀ tail, parseType (rest ++ tail) = none) →
        Derives implemented .type (mods ++ rest) ∨
          ∀ tail, parseType (mods ++ rest ++ tail) = none := by
      intro mods rest hmods hrest
      cases hmods with
      | noMods => exact hrest
      | mod hb _ _ =>
          refine Or.inr ?_
          rcases hb with rfl | rfl
          · exact hrefused (by decide)
          · exact hrefused (by decide)
    cases hdeclared with
    | typedByRef h => exact hmods h (Or.inr (hrefused (by decide)))
    | void h =>
        have hvoid : ELEMENT_TYPE_VOID ∈ primitiveTypes := by decide
        exact hmods h (Or.inl (.primitive hvoid))
    | byValue h htype =>
        exact hmods h (htype.outcome.imp_right fun hnone tail => hnone _ tail (Nat.le_refl _))
    | byRef h _ => exact hmods h (Or.inr (hrefused (by decide)))
  · exact Or.inr (hrefused (by decide))

open Classical in
/-- From types on that are skipped or refused, `ParseType` reaches what is behind them when it
skips them all. -/
theorem repeatParser_parseType {types : List Signature}
    (h : ∀ e ∈ types, Derives implemented .type e ∨ ∀ tail, parseType (e ++ tail) = none)
    (behind : Signature) :
    repeatParser parseType types.length (types.flatten ++ behind) =
      if ∀ e ∈ types, Derives implemented .type e then some behind else none := by
  have hskips : ∀ {e tail : Signature}, Derives implemented .type e →
      parseType (e ++ tail) = some tail := by
    intro e tail himplemented
    have hskip := parserAt_length_append himplemented (fun h => by cases h) tail
    simp only [parserAt] at hskip
    exact hskip
  induction types with
  | nil => simp [repeatParser]
  | cons e types ih =>
      have hbehind := ih fun e' he' => h e' (List.mem_cons_of_mem e he')
      rw [List.length_cons, repeatParser, List.flatten_cons, List.append_assoc]
      rcases h e List.mem_cons_self with himplemented | hrefused
      · rw [hskips himplemented, Option.bind_some, hbehind]
        simp [himplemented]
      · have hnot : ¬ Derives implemented .type e := by
          intro himplemented
          have hnone := hrefused []
          rw [hskips himplemented] at hnone
          cases hnone
        rw [hrefused]
        simp [hnot]

end SignalFxTracing.Metadata
