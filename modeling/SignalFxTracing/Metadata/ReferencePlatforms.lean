import SignalFxTracing.Metadata.ReferenceRoundTrip

/-!
# Assembly references on different platforms

The two ways to read a text agree on a part when the text is that part as a
whole and its numbers fit, or when the part that Windows finds in it has the
values of a missing one.
-/

namespace SignalFxTracing.Metadata

open Clr Lib.Captures

section Null

/-- A text is what is before its first null character, alone or with the rest behind it. -/
theorem eq_beforeNull_or (s : Text) :
    s = Re2.beforeNull s ∨ ∃ rest, s = Re2.beforeNull s ++ 0 :: rest := by
  induction s with
  | nil => exact Or.inl rfl
  | cons c s ih =>
      by_cases hc : c = 0
      · refine Or.inr ⟨s, ?_⟩
        rw [hc]
        rfl
      · have hcons : Re2.beforeNull (c :: s) = c :: Re2.beforeNull s :=
          List.takeWhile_cons_of_pos (decide_eq_true hc)
        rw [hcons]
        rcases ih with hs | ⟨rest, hs⟩
        · exact Or.inl (congrArg (c :: ·) hs)
        · exact Or.inr ⟨rest, congrArg (c :: ·) hs⟩

/-- A part that is the whole text before the null character is the first one that is found. -/
theorem search_of_fullMatch {pieces : List (Piece UInt16)} {s : Text} {groups : List Text}
    (hdefinite : Definite pieces) (hnull : ∀ piece ∈ pieces, piece.Excludes 0)
    (h : fullMatch pieces (Re2.beforeNull s) = some groups) : search pieces s = some groups := by
  have hfound := search_of_matches hdefinite ((fullMatch_eq_some_iff hdefinite).mp h)
  rcases eq_beforeNull_or s with hs | ⟨rest, hs⟩
  · rw [hs]
    exact hfound
  · rw [hs, search_append hnull, hfound]
    rfl

/-- A text with an element that no part holds is no part as a whole. -/
theorem fullMatch_eq_none {pieces : List (Piece UInt16)} {s : Text} {c : UInt16}
    (hdefinite : Definite pieces) (h : ∀ piece ∈ pieces, piece.Excludes c) (hc : c ∈ s) :
    fullMatch pieces s = none := by
  rw [Option.eq_none_iff_forall_ne_some]
  intro groups hfull
  exact notMem_of_matches ((fullMatch_eq_some_iff hdefinite).mp hfull) h hc

theorem comma_mem_beforeNull_str {r : AssemblyReference} (h : 0 ∉ r.name) :
    0x2C ∈ Re2.beforeNull (r.str .other) := by
  have hpos : ∀ c ∈ r.name, decide (c ≠ 0) = true := by
    intro c hc
    refine decide_eq_true ?_
    rintro rfl
    exact h hc
  rw [str_eq, Re2.beforeNull, List.takeWhile_append_of_pos hpos, List.takeWhile_cons_of_pos rfl]
  exact List.mem_append_right _ List.mem_cons_self

theorem beforeNull_str {r : AssemblyReference} (h : 0 ∈ r.name) :
    Re2.beforeNull (r.str .other) = Re2.beforeNull r.name := by
  obtain ⟨u, v, hname⟩ := List.append_of_mem h
  rw [str_eq, hname, List.append_assoc, List.cons_append, Re2.beforeNull, Re2.beforeNull,
    takeWhile_append_cons_of_neg (by decide), takeWhile_append_cons_of_neg (by decide)]

end Null

section Re2

namespace Re2

/-- The version in the variables behind a match. -/
def versionOf (groups : List Text) : Version :=
  ⟨readParts groups 0, readParts groups 1, readParts groups 2, readParts groups 3⟩

/-- The name has no space, and the other parts are missing, or the name starts with a text before a
null character that is one of them as a whole. -/
def ReadsBack (r : AssemblyReference) : Prop :=
  0x20 ∉ r.name ∧
    if 0 ∈ r.name then
      (fullMatch versionPattern (beforeNull r.name)).elim {} versionOf = r.version ∧
        ((fullMatch culturePattern (beforeNull r.name)).elim (text "neutral") List.flatten =
          r.locale) ∧
        ((fullMatch keyPattern (beforeNull r.name)).elim (Vector.replicate 8 0) fun groups =>
          publicKeyOfDigits groups.flatten) = r.publicKey
    else r.version = {} ∧ r.locale = text "neutral" ∧ r.publicKey = Vector.replicate 8 0

theorem getVersion_eq (s : Text) :
    getVersionFromAssemblyReferenceString s =
      (fullMatch versionPattern (beforeNull s)).elim {} versionOf := by
  rw [getVersionFromAssemblyReferenceString]
  cases fullMatch versionPattern (beforeNull s) with
  | none => rfl
  | some groups => rfl

theorem getLocale_eq (s : Text) :
    getLocaleFromAssemblyReferenceString s =
      (fullMatch culturePattern (beforeNull s)).elim (text "neutral") List.flatten := by
  rw [getLocaleFromAssemblyReferenceString]
  cases hfull : fullMatch culturePattern (beforeNull s) with
  | none => rfl
  | some groups =>
      have hmatches := (fullMatch_eq_some_iff definite_patterns.2.1).mp hfull
      obtain ⟨locale, rfl⟩ := eq_of_length_one (length_of_matches hmatches)
      exact (List.append_nil locale).symm

theorem getPublicKey_eq (s : Text) :
    getPublicKeyFromAssemblyReferenceString s =
      (fullMatch keyPattern (beforeNull s)).elim (Vector.replicate 8 0) fun groups =>
        publicKeyOfDigits groups.flatten := by
  rw [getPublicKeyFromAssemblyReferenceString]
  cases hfull : fullMatch keyPattern (beforeNull s) with
  | none => rfl
  | some groups =>
      have hmatches := (fullMatch_eq_some_iff definite_patterns.2.2).mp hfull
      obtain ⟨digits, rfl⟩ := eq_of_length_one (length_of_matches hmatches)
      exact congrArg publicKeyOfDigits (List.append_nil digits).symm

/-- Elsewhere only references without parts behind the name are read back, but for names with a
null character. -/
theorem parse_str_eq_iff {r : AssemblyReference} (h : Printable r) :
    parse (r.str .other) = r ↔ ReadsBack r := by
  have hparts : parse (r.str .other) = r ↔
      getNameFromAssemblyReferenceString (r.str .other) = r.name ∧
        getVersionFromAssemblyReferenceString (r.str .other) = r.version ∧
        getLocaleFromAssemblyReferenceString (r.str .other) = r.locale ∧
        getPublicKeyFromAssemblyReferenceString (r.str .other) = r.publicKey :=
    AssemblyReference.mk.injEq .. ▸ Iff.rfl
  rw [hparts, getName_str_eq_iff .other h, ReadsBack, getVersion_eq, getLocale_eq, getPublicKey_eq]
  split_ifs with hnull
  · rw [beforeNull_str hnull]
  · have hcomma := comma_mem_beforeNull_str hnull
    obtain ⟨hversion, hculture, hkey⟩ := excludes_patterns (Or.inl rfl)
    rw [fullMatch_eq_none definite_patterns.1 hversion hcomma,
      fullMatch_eq_none definite_patterns.2.1 hculture hcomma,
      fullMatch_eq_none definite_patterns.2.2 hkey hcomma]
    simp only [Option.elim_none, eq_comm]

end Re2

end Re2

section Agreement

/-- The parts that both ways find in a text have the same values. -/
structure Agree (s : Text) : Prop where
  /-- The numbers of a version that is the whole text fit, and those of another one are zeros. -/
  version : (∀ groups, fullMatch versionPattern (Re2.beforeNull s) = some groups →
      ∀ g ∈ groups, decimalValue g < 2 ^ 16) ∧
    (fullMatch versionPattern (Re2.beforeNull s) = none →
      ∀ groups, search versionPattern s = some groups → ∀ g ∈ groups, decimalValue g = 0)
  culture : fullMatch culturePattern (Re2.beforeNull s) = none →
    ∀ groups, search culturePattern s = some groups → groups = [text "neutral"]
  key : fullMatch keyPattern (Re2.beforeNull s) = none →
    ∀ groups, search keyPattern s = some groups → ∀ g ∈ groups, ∀ c ∈ g, c = 0x30

variable {s : Text}

theorem readPart_eq_zero_iff (digits : Text) :
    Windows.readPart digits = 0 ↔ decimalValue digits = 0 := by
  have hlt : min (decimalValue digits) 0xFFFF < 2 ^ 16 := by omega
  rw [← UInt16.toNat_inj, Windows.readPart, UInt16.toNat_ofNat_of_lt' hlt]
  change min (decimalValue digits) 0xFFFF = 0 ↔ _
  omega

/-- A stream and RE2 read the same version exactly when all numbers fit. -/
theorem readParts_eq_iff (major minor build revision : Text) :
    (⟨Windows.readPart major, Windows.readPart minor, Windows.readPart build,
        Windows.readPart revision⟩ : Version) = Re2.versionOf [major, minor, build, revision] ↔
      ∀ g ∈ [major, minor, build, revision], decimalValue g < 2 ^ 16 := by
  constructor
  · intro heq
    obtain ⟨hmajor, hminor, hbuild, hrevision⟩ := (Version.mk.injEq ..).mp heq
    -- behind numbers that fit, one that does not would have been read as zero
    have hfits : ∀ {digits : Text} {before behind : List Text},
        (∀ g ∈ before, decimalValue g < 2 ^ 16) →
        Windows.readPart digits = Re2.readParts (before ++ digits :: behind) before.length →
        decimalValue digits < 2 ^ 16 := by
      intro digits before behind hbefore hread
      by_contra hlarge
      have hall : ∀ n ∈ before.map decimalValue, decide (n < 2 ^ 16) = true := by
        intro n hn
        obtain ⟨g, hg, rfl⟩ := List.mem_map.mp hn
        exact decide_eq_true (hbefore g hg)
      have hzero : Re2.readParts (before ++ digits :: behind) before.length = 0 := by
        rw [Re2.readParts, List.map_append, List.map_cons, List.takeWhile_append_of_pos hall,
          List.takeWhile_cons_of_neg (by simpa using hlarge)]
        simp
      have hvalue := (readPart_eq_zero_iff digits).mp (hread.trans hzero)
      omega
    have hfirst := @hfits major [] _ nofun hmajor
    have hsecond := @hfits minor [major] _ (List.forall_mem_cons.mpr ⟨hfirst, nofun⟩) hminor
    have hthird := @hfits build [major, minor] _
      (List.forall_mem_cons.mpr ⟨hfirst, List.forall_mem_cons.mpr ⟨hsecond, nofun⟩⟩) hbuild
    have hfourth := @hfits revision [major, minor, build] _
      (List.forall_mem_cons.mpr ⟨hfirst, List.forall_mem_cons.mpr
        ⟨hsecond, List.forall_mem_cons.mpr ⟨hthird, nofun⟩⟩⟩) hrevision
    simp only [List.forall_mem_cons]
    exact ⟨hfirst, hsecond, hthird, hfourth, nofun⟩
  · intro hfits
    have hall : ∀ n ∈ [major, minor, build, revision].map decimalValue,
        decide (n < 2 ^ 16) = true := by
      intro n hn
      obtain ⟨g, hg, rfl⟩ := List.mem_map.mp hn
      exact decide_eq_true (hfits g hg)
    have hread : ∀ digits ∈ [major, minor, build, revision],
        Windows.readPart digits = UInt16.ofNat (decimalValue digits) := by
      intro digits hdigits
      have hlt := hfits digits hdigits
      rw [Windows.readPart, Nat.min_eq_left (by omega)]
    rw [hread major (by simp), hread minor (by simp), hread build (by simp),
      hread revision (by simp), Re2.versionOf]
    simp only [Re2.readParts, List.takeWhile_eq_self_iff.mpr hall]
    rfl

theorem version_agrees_iff :
    Windows.getVersionFromAssemblyReferenceString s =
        Re2.getVersionFromAssemblyReferenceString s ↔
      (∀ groups, fullMatch versionPattern (Re2.beforeNull s) = some groups →
          ∀ g ∈ groups, decimalValue g < 2 ^ 16) ∧
        (fullMatch versionPattern (Re2.beforeNull s) = none →
          ∀ groups, search versionPattern s = some groups → ∀ g ∈ groups, decimalValue g = 0) := by
  obtain ⟨hnull, -, -⟩ := excludes_patterns (Or.inr rfl)
  rw [Re2.getVersion_eq, Windows.getVersionFromAssemblyReferenceString]
  cases hfull : fullMatch versionPattern (Re2.beforeNull s) with
  | some groups =>
      have hmatches := (fullMatch_eq_some_iff definite_patterns.1).mp hfull
      obtain ⟨major, minor, build, revision, rfl⟩ :=
        eq_of_length_version (length_of_matches hmatches)
      rw [search_of_fullMatch definite_patterns.1 hnull hfull]
      simp only [Option.elim_some, readParts_eq_iff, Option.some.injEq, forall_eq', reduceCtorEq,
        false_implies, and_true]
  | none =>
      cases hsearch : search versionPattern s with
      | none => simp
      | some groups =>
          obtain ⟨major, minor, build, revision, rfl⟩ :=
            eq_of_length_version (length_of_search hsearch)
          simp [readPart_eq_zero_iff]

theorem culture_agrees_iff :
    Windows.getLocaleFromAssemblyReferenceString s =
        Re2.getLocaleFromAssemblyReferenceString s ↔
      (fullMatch culturePattern (Re2.beforeNull s) = none →
        ∀ groups, search culturePattern s = some groups → groups = [text "neutral"]) := by
  obtain ⟨-, hnull, -⟩ := excludes_patterns (Or.inr rfl)
  rw [Re2.getLocaleFromAssemblyReferenceString, Windows.getLocaleFromAssemblyReferenceString]
  cases hfull : fullMatch culturePattern (Re2.beforeNull s) with
  | some groups =>
      rw [search_of_fullMatch definite_patterns.2.1 hnull hfull]
      simp
  | none =>
      cases hsearch : search culturePattern s with
      | none => simp
      | some groups =>
          obtain ⟨locale, rfl⟩ := eq_of_length_one (length_of_search hsearch)
          simp

/-- A byte is zero exactly when its digits are. -/
theorem byteOfDigits_eq_zero_iff {digits : Text} (hlength : digits.length ≤ 2)
    (h : ∀ c ∈ digits, isHexDigit c = true) :
    UInt8.ofNat ((Lib.Hex.ofHex digits).getD 0) = 0 ↔ ∀ c ∈ digits, c = 0x30 := by
  obtain ⟨v, hv⟩ := Option.isSome_iff_exists.mp (Lib.Hex.ofHexFrom_isSome.mpr h)
  have hread : Lib.Hex.ofHex digits = some v := hv
  have hlt : v < 2 ^ 8 := by
    have hbound := Lib.Hex.ofHexFrom_lt hv
    have hpow : 16 ^ digits.length ≤ 16 ^ 2 := Nat.pow_le_pow_right (by decide) hlength
    omega
  have hzero : UInt8.ofNat v = 0 ↔ v = 0 := by
    rw [← UInt8.toNat_inj, UInt8.toNat_ofNat_of_lt' hlt]
    rfl
  have hdigits := @Lib.Hex.ofHexFrom_eq_zero 0 digits
  rw [hread, Option.getD_some, hzero]
  constructor
  · rintro rfl
    exact (hdigits.mp hv).2
  · intro hall
    exact Option.some.inj (hv.symm.trans (hdigits.mpr ⟨rfl, hall⟩))

/-- A key is zero exactly when its digits are. -/
theorem publicKeyOfDigits_eq_zero_iff {digits : Text} (hlength : digits.length = 16)
    (h : ∀ c ∈ digits, isHexDigit c = true) :
    publicKeyOfDigits digits = Vector.replicate 8 0 ↔ ∀ c ∈ digits, c = 0x30 := by
  have hbyte : ∀ i, UInt8.ofNat ((Lib.Hex.ofHex ((digits.drop (i * 2)).take 2)).getD 0) = 0 ↔
      ∀ c ∈ (digits.drop (i * 2)).take 2, c = 0x30 := by
    intro i
    apply byteOfDigits_eq_zero_iff (List.length_take_le 2 _)
    intro c hc
    exact h c (List.mem_of_mem_drop (List.mem_of_mem_take hc))
  constructor
  · intro hkey c hc
    obtain ⟨j, hj, rfl⟩ := List.getElem_of_mem hc
    have hi : j / 2 < 8 := by omega
    have hzero := congrArg (fun key : PublicKey => key[j / 2]) hkey
    rw [publicKeyOfDigits, Vector.getElem_ofFn, Vector.getElem_replicate] at hzero
    apply (hbyte (j / 2)).mp hzero
    rw [List.mem_take_iff_getElem]
    refine ⟨j - j / 2 * 2, ?_, ?_⟩
    · rw [List.length_drop]
      omega
    · rw [List.getElem_drop]
      congr 1
      omega
  · intro hall
    apply Vector.ext
    intro i hi
    rw [publicKeyOfDigits, Vector.getElem_ofFn, Vector.getElem_replicate]
    apply (hbyte i).mpr
    intro c hc
    exact hall c (List.mem_of_mem_drop (List.mem_of_mem_take hc))

theorem digits_of_search {digits : Text} (h : search keyPattern s = some [digits]) :
    digits.length = 16 ∧ ∀ c ∈ digits, isHexDigit c = true := by
  obtain ⟨u, -, hmatches⟩ := exists_matches_of_search h
  rw [keyPattern] at hmatches
  cases hmatches with
  | word hmatches =>
      cases hmatches with
      | group hleast hmost haccepts _ => exact ⟨Nat.le_antisymm (hmost 16 rfl) hleast, haccepts⟩

theorem key_agrees_iff :
    Windows.getPublicKeyFromAssemblyReferenceString s =
        Re2.getPublicKeyFromAssemblyReferenceString s ↔
      (fullMatch keyPattern (Re2.beforeNull s) = none →
        ∀ groups, search keyPattern s = some groups → ∀ g ∈ groups, ∀ c ∈ g, c = 0x30) := by
  obtain ⟨-, -, hnull⟩ := excludes_patterns (Or.inr rfl)
  rw [Re2.getPublicKeyFromAssemblyReferenceString,
    Windows.getPublicKeyFromAssemblyReferenceString]
  cases hfull : fullMatch keyPattern (Re2.beforeNull s) with
  | some groups =>
      rw [search_of_fullMatch definite_patterns.2.2 hnull hfull]
      simp
  | none =>
      cases hsearch : search keyPattern s with
      | none => simp
      | some groups =>
          obtain ⟨digits, rfl⟩ := eq_of_length_one (length_of_search hsearch)
          obtain ⟨hlength, hdigits⟩ := digits_of_search hsearch
          simp [publicKeyOfDigits_eq_zero_iff hlength hdigits]

theorem parse_eq_iff : Windows.parse s = Re2.parse s ↔ Agree s := by
  have hparts : Windows.parse s = Re2.parse s ↔
      getNameFromAssemblyReferenceString s = getNameFromAssemblyReferenceString s ∧
        Windows.getVersionFromAssemblyReferenceString s =
          Re2.getVersionFromAssemblyReferenceString s ∧
        Windows.getLocaleFromAssemblyReferenceString s =
          Re2.getLocaleFromAssemblyReferenceString s ∧
        Windows.getPublicKeyFromAssemblyReferenceString s =
          Re2.getPublicKeyFromAssemblyReferenceString s :=
    AssemblyReference.mk.injEq .. ▸ Iff.rfl
  rw [hparts, version_agrees_iff, culture_agrees_iff, key_agrees_iff]
  constructor
  · rintro ⟨-, hversion, hculture, hkey⟩
    exact ⟨hversion, hculture, hkey⟩
  · rintro ⟨hversion, hculture, hkey⟩
    exact ⟨rfl, hversion, hculture, hkey⟩

end Agreement

/-- A reference is read back, and both ways to read a text agree, exactly when no part is taken for
another one and, but on Windows, no part stands behind the name. -/
theorem references_iff {r : AssemblyReference} (h : Printable r) (s : Text) :
    (Windows.parse (r.str .windows) = r ↔ ReadsBack r) ∧
      (Re2.parse (r.str .other) = r ↔ Re2.ReadsBack r) ∧
      (Windows.parse s = Re2.parse s ↔ Agree s) :=
  ⟨Windows.parse_str_eq_iff h, Re2.parse_str_eq_iff h, parse_eq_iff⟩

section SomeAssembly

def someAssembly : AssemblyReference where
  name := text "Some.Assembly"
  version := ⟨1, 2, 3, 4⟩
  locale := text "notneutral"
  publicKey := ⟨#[0x01, 0x23, 0x45, 0x67, 0x89, 0xAB, 0xCD, 0xEF], rfl⟩

/-- The same with a space in the name. -/
def spacedAssembly : AssemblyReference where
  name := text "Some Assembly"
  version := ⟨1, 2, 3, 4⟩
  locale := text "notneutral"
  publicKey := ⟨#[0x01, 0x23, 0x45, 0x67, 0x89, 0xAB, 0xCD, 0xEF], rfl⟩

theorem printable_someAssembly : Printable someAssembly where
  comma_notMem := by decide
  head?_ne := by decide
  getLast?_ne := by decide
  locale_alphanumeric := by
    have hall : someAssembly.locale.all isAlphanumeric = true := by decide
    exact List.all_eq_true.mp hall

theorem printable_spacedAssembly : Printable spacedAssembly where
  comma_notMem := by decide
  head?_ne := by decide
  getLast?_ne := by decide
  locale_alphanumeric := by
    have hall : spacedAssembly.locale.all isAlphanumeric = true := by decide
    exact List.all_eq_true.mp hall

theorem readsBack_someAssembly : ReadsBack someAssembly := by
  apply (references_iff printable_someAssembly []).1.mp
  decide +kernel

/-- But on Windows the parts behind the name are lost, and a space ends the name. -/
theorem not_references :
    (Printable someAssembly ∧ Re2.parse (someAssembly.str .other) ≠ someAssembly ∧
      Windows.parse (someAssembly.str .windows) ≠ Re2.parse (someAssembly.str .windows)) ∧
    Printable spacedAssembly ∧ Windows.parse (spacedAssembly.str .windows) ≠ spacedAssembly := by
  refine ⟨⟨printable_someAssembly, ?_, ?_⟩, printable_spacedAssembly, ?_⟩
  · decide +kernel
  · decide +kernel
  · decide +kernel

end SomeAssembly

end SignalFxTracing.Metadata
