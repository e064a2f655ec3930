import SignalFxTracing.Metadata.CallSite

/-!
# `ParseType` on the types of a call site

A type is skipped exactly when no native integer is in it. The loop over the
type arguments then reaches an argument when none is in those before it.
-/

namespace SignalFxTracing.Metadata

section Shapes

variable {g g' : Grammar}

/-- The bounds of arrays are the same in every grammar. -/
theorem Derives.numbers_of {n : Nat} {e : Signature} (h : Derives g (.numbers n) e) :
    Derives g' (.numbers n) e := by
  induction n generalizing e with
  | zero =>
      cases h
      exact .noNumbers
  | succ n ih =>
      cases h with
      | numbers hnumber hnumbers => exact .numbers hnumber (ih hnumbers)

theorem Derives.shape_of {e : Signature} (h : Derives g .shape e) : Derives g' .shape e := by
  cases h with
  | shape hrank hnumSizes hsizes hnumLoBounds hloBounds =>
      exact .shape hrank hnumSizes hsizes.numbers_of hnumLoBounds hloBounds.numbers_of

theorem parseArrayShape_append {e : Signature} (h : Derives documented .shape e)
    (tail : Signature) : parseArrayShape (e ++ tail) = some tail := by
  have himplemented : Derives implemented .shape e := h.shape_of
  exact himplemented.parserAt_append e.length (Nat.le_refl _) tail nofun

end Shapes

section Types

theorem encode_notMod (t : SiteType) (tail : Signature) : NotMod (t.encode ++ tail) := by
  cases t with
  | basic b =>
      have hbasic : ∀ b ∈ basicTypes, b ≠ ELEMENT_TYPE_CMOD_OPT ∧ b ≠ ELEMENT_TYPE_CMOD_REQD :=
        forall_basicTypes (by decide)
      exact notMod_cons (hbasic b b.2) _
  | named name =>
      rw [TypeTree.encode, TypeToken.encode]
      rcases name.code_cases with hcode | hcode
      all_goals exact notMod_cons (by rw [hcode]; decide) _
  | var v =>
      rw [TypeTree.encode, TypeVariable.encode]
      rcases v.code_cases with hcode | hcode
      all_goals exact notMod_cons (by rw [hcode]; decide) _
  | szArray t => exact notMod_cons (by decide) _
  | array t bounds => exact notMod_cons (by decide) _
  | genericInst name arg args => exact notMod_cons (by decide) _

theorem allEncodable_iff {ts : List SiteType} :
    SiteType.AllEncodable ts ↔ ∀ t ∈ ts, t.Encodable := by
  induction ts with
  | nil => simp [SiteType.AllEncodable]
  | cons t ts ih => simp [SiteType.AllEncodable, ih]

/-- The parser skips the type unless a native integer is in it. -/
def Skips (t : SiteType) : Prop :=
  ∀ fuel tail, (t.encode ++ tail).length ≤ fuel →
    parseTypeAt fuel (t.encode ++ tail) = if t.hasNative then none else some tail

theorem repeatParser_encodeAll {ts : List SiteType} (h : ∀ t ∈ ts, Skips t) {fuel : Nat}
    {tail : Signature} (hfuel : (TypeTree.encodeAll ts ++ tail).length ≤ fuel) :
    repeatParser (parseTypeAt fuel) ts.length (TypeTree.encodeAll ts ++ tail) =
      if SiteType.anyNative ts then none else some tail := by
  induction ts with
  | nil => rfl
  | cons t ts ih =>
      rw [List.forall_mem_cons] at h
      rw [TypeTree.encodeAll, List.append_assoc] at hfuel ⊢
      rw [List.length_cons, repeatParser, h.1 fuel _ hfuel, SiteType.anyNative]
      rw [List.length_append] at hfuel
      cases t.hasNative with
      | true => rfl
      | false =>
          rw [if_neg Bool.false_ne_true, Option.bind_some, ih h.2 (by omega)]
          rfl

theorem skips_of_encodable {t : SiteType} : t.Encodable → Skips t := by
  induction t using TypeTree.induct with
  | hbasic b =>
      intro _ fuel tail hfuel
      obtain ⟨fuel, rfl, -⟩ := exists_fuel hfuel
      have hbasic : ∀ b ∈ basicTypes, b ∈ primitiveTypes ∧
          (b == ELEMENT_TYPE_I || b == ELEMENT_TYPE_U) = false ∨
            b = ELEMENT_TYPE_I ∨ b = ELEMENT_TYPE_U := forall_basicTypes (by decide)
      obtain ⟨b, hb⟩ := b
      rcases hbasic b hb with ⟨hprimitive, hnative⟩ | rfl | rfl
      · rw [SiteType.hasNative, if_neg (by simp [hnative])]
        exact parseTypeAt_primitive _ _ hprimitive
      · rfl
      · rfl
  | hnamed name =>
      intro _ fuel tail hfuel
      obtain ⟨fuel, rfl, -⟩ := exists_fuel hfuel
      have hencodes := encodesNumber_compress (Nat.lt_trans name.token.isLt (by decide))
      rw [TypeTree.encode, TypeToken.encode, List.cons_append,
        parseTypeAt_defOrRef _ _ name.code_cases, parseTypeDefOrRefEncoded_append hencodes]
      rfl
  | hvar v =>
      intro _ fuel tail hfuel
      obtain ⟨fuel, rfl, -⟩ := exists_fuel hfuel
      have hencodes := encodesNumber_compress (Nat.lt_trans v.index.isLt (by decide))
      rw [TypeTree.encode, TypeVariable.encode, List.cons_append,
        parseTypeAt_var _ _ v.code_cases, parseNumber_append hencodes]
      rfl
  | hszArray t ih =>
      intro h fuel tail hfuel
      obtain ⟨fuel, rfl, hshort⟩ := exists_fuel hfuel
      rw [TypeTree.encode, List.cons_append, parseTypeAt_szArray,
        parseOptionalCustomMods_of_notMod (encode_notMod t tail), Option.bind_some,
        ih h fuel tail hshort]
      rfl
  | harray t bounds ih =>
      intro h fuel tail hfuel
      obtain ⟨fuel, rfl, hshort⟩ := exists_fuel hfuel
      rw [List.append_eq, List.append_assoc] at hshort
      rw [TypeTree.encode, List.cons_append, List.append_assoc, parseTypeAt_array,
        ih h fuel _ hshort, SiteType.hasNative]
      cases SiteType.hasNative t with
      | true => rfl
      | false => exact parseArrayShape_append bounds.2 tail
  | hgenericInst name arg args iharg ihargs =>
      intro h fuel tail hfuel
      obtain ⟨fuel, rfl, hshort⟩ := exists_fuel hfuel
      rw [SiteType.Encodable] at h
      have htoken := encodesNumber_compress (Nat.lt_trans name.token.isLt (by decide))
      have hcount := encodesNumber_compress h.1
      have hskips : ∀ t ∈ arg :: args, Skips t := by
        rw [List.forall_mem_cons]
        exact ⟨iharg h.2.1, fun t ht => ihargs t ht (allEncodable_iff.mp h.2.2 t ht)⟩
      rw [List.append_eq] at hshort
      have hall : (TypeTree.encodeAll (arg :: args) ++ tail).length ≤ fuel := by
        rw [TypeTree.encodeAll]
        simp only [List.length_append] at hshort ⊢
        omega
      rw [TypeTree.encode, List.cons_append, TypeToken.encode, List.cons_append, List.cons_append,
        parseTypeAt_genericInst _ _ name.code_cases, List.append_assoc, List.append_assoc,
        parseTypeDefOrRefEncoded_append htoken, Option.bind_some, parseNumber_append hcount,
        Option.bind_some]
      exact repeatParser_encodeAll hskips hall

/-- The parser skips a type exactly when no native integer is in it. -/
theorem parseType_encode {t : SiteType} (h : t.Encodable) (tail : Signature) :
    parseType (t.encode ++ tail) = if t.hasNative then none else some tail :=
  skips_of_encodable h _ tail (Nat.le_refl _)

/-- The loop reaches an argument when no native integer is in those before it. -/
theorem skipArguments_encodeAll {args : List SiteType} (h : ∀ t ∈ args, t.Encodable)
    (index : Nat) :
    skipArguments args.length index (TypeTree.encodeAll args) =
      if SiteType.anyNative (args.take index) ∨ args.length ≤ index then none
      else some (TypeTree.encodeAll (args.drop index)) := by
  induction args generalizing index with
  | nil => simp [skipArguments]
  | cons t args ih =>
      rw [List.forall_mem_cons] at h
      cases index with
      | zero => simp [skipArguments, SiteType.anyNative]
      | succ index =>
          rw [List.length_cons, skipArguments, TypeTree.encodeAll, parseType_encode h.1]
          rw [List.take_succ_cons, SiteType.anyNative, List.drop_succ_cons]
          cases t.hasNative with
          | true => simp
          | false =>
              rw [if_neg Bool.false_ne_true, Option.bind_some, ih h.2]
              simp

end Types

end SignalFxTracing.Metadata
