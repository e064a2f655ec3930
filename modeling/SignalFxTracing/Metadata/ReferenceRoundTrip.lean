import SignalFxTracing.Metadata.AssemblyReferences

/-!
# Reading assembly references back

On Windows a text that `AssemblyReference::str` has written is read back unless
the name holds a space or a text that looks like one of the other parts.
Elsewhere no part is found in such a text.
-/

namespace SignalFxTracing.Metadata

open Clr Lib.Captures

section Digits

theorem part_eq (n : UInt16) :
    Version.part n = (Nat.toDigits 10 n.toNat).map fun c => c.toNat.toUInt16 := by
  rw [Version.part, text, Nat.toString_eq_repr, Nat.toList_repr]

theorem toNat_toUInt16 {c : Char} (h : c.isDigit = true) : c.toNat.toUInt16.toNat = c.toNat := by
  have hle : c.toNat ≤ 57 := by
    simp only [Char.isDigit, Bool.and_eq_true, decide_eq_true_eq] at h
    exact UInt32.le_iff_toNat_le.mp h.2
  exact UInt16.toNat_ofNat_of_lt' (Nat.lt_of_le_of_lt hle (by decide))

theorem isDigit_of_mem_part {n c : UInt16} (h : c ∈ Version.part n) : isDigit c = true := by
  rw [part_eq] at h
  obtain ⟨d, hd, rfl⟩ := List.mem_map.mp h
  have hdigit := Nat.isDigit_of_mem_toDigits (by decide) (by decide) hd
  have hvalue := toNat_toUInt16 hdigit
  simp only [Char.isDigit, Bool.and_eq_true, decide_eq_true_eq] at hdigit
  have hlow := UInt32.le_iff_toNat_le.mp hdigit.1
  have hhigh := UInt32.le_iff_toNat_le.mp hdigit.2
  simp only [isDigit, Bool.and_eq_true, decide_eq_true_eq, UInt16.le_iff_toNat_le, hvalue]
  exact ⟨hlow, hhigh⟩

theorem length_part_pos (n : UInt16) : 1 ≤ (Version.part n).length := by
  rw [part_eq, List.length_map]
  exact Nat.length_toDigits_pos

/-- A written number denotes itself. -/
theorem decimalValue_part (n : UInt16) : decimalValue (Version.part n) = n.toNat := by
  have hfold : ∀ {l : List Char}, (∀ c ∈ l, c.isDigit = true) → ∀ init,
      (l.map fun c => c.toNat.toUInt16).foldl (fun n c => 10 * n + (c.toNat - 0x30)) init =
        Nat.ofDigitChars 10 l init := by
    intro l hl
    induction l with
    | nil => exact fun _ => rfl
    | cons c l ih =>
        intro init
        rw [List.map_cons, List.foldl_cons, Nat.ofDigitChars_cons,
          ih fun d hd => hl d (List.mem_cons_of_mem c hd), toNat_toUInt16 (hl c List.mem_cons_self)]
        rfl
  have hdigits : ∀ c ∈ Nat.toDigits 10 n.toNat, c.isDigit = true := fun c hc =>
    Nat.isDigit_of_mem_toDigits (by decide) (by decide) hc
  rw [decimalValue, part_eq, hfold hdigits, Nat.ofDigitChars_ten_toDigits]

theorem readPart_part (n : UInt16) : Windows.readPart (Version.part n) = n := by
  have hle : n.toNat ≤ 0xFFFF := Nat.le_of_lt_succ n.toNat_lt
  rw [Windows.readPart, decimalValue_part, Nat.min_eq_left hle, UInt16.ofNat_toNat]

end Digits

section Keys

theorem length_str (key : PublicKey) : key.str.length = 16 := by
  have hlength : ∀ bytes : List UInt8,
      (bytes.map fun b => Lib.Hex.toHex 2 b.toNat).flatten.length = 2 * bytes.length := by
    intro bytes
    induction bytes with
    | nil => rfl
    | cons b bytes ih =>
        rw [List.map_cons, List.flatten_cons, List.length_append, ih, Lib.Hex.toHex_length,
          List.length_cons]
        omega
  rw [PublicKey.str, hlength, Vector.length_toList]

theorem isHexDigit_of_mem_str {key : PublicKey} {c : UInt16} (h : c ∈ key.str) :
    isHexDigit c = true := by
  obtain ⟨digits, hdigits, hc⟩ := List.mem_flatten.mp h
  obtain ⟨b, -, rfl⟩ := List.mem_map.mp hdigits
  have hread := Lib.Hex.ofHex_toHex (Nat.lt_of_lt_of_eq b.toNat_lt (by decide : 2 ^ 8 = 16 ^ 2))
  exact Lib.Hex.forall_isSome_of_ofHex hread c hc

/-- The digits of one byte. -/
theorem take_drop_flatten (bytes : List UInt8) {i : Nat} (h : i < bytes.length) :
    (((bytes.map fun b => Lib.Hex.toHex 2 b.toNat).flatten.drop (i * 2)).take 2) =
      Lib.Hex.toHex 2 bytes[i].toNat := by
  induction bytes generalizing i with
  | nil => exact absurd h (Nat.not_lt_zero i)
  | cons b bytes ih =>
      have hlength := Lib.Hex.toHex_length 2 b.toNat
      rw [List.map_cons, List.flatten_cons]
      cases i with
      | zero =>
          rw [Nat.zero_mul, List.drop_zero, List.take_append_of_le_length (Nat.le_of_eq hlength.symm),
            List.take_of_length_le (Nat.le_of_eq hlength), List.getElem_cons_zero]
      | succ i =>
          have hdrop : (i + 1) * 2 = (Lib.Hex.toHex 2 b.toNat).length + i * 2 := by omega
          rw [hdrop, List.drop_length_add_append, ih (Nat.lt_of_succ_lt_succ h), List.getElem_cons_succ]

/-- A written key denotes itself. -/
theorem publicKeyOfDigits_str (key : PublicKey) : publicKeyOfDigits key.str = key := by
  apply Vector.ext
  intro i hi
  have hlt : i < key.toList.length := by rwa [Vector.length_toList]
  have hread := Lib.Hex.ofHex_toHex
    (Nat.lt_of_lt_of_eq key[i].toNat_lt (by decide : 2 ^ 8 = 16 ^ 2))
  rw [publicKeyOfDigits, Vector.getElem_ofFn, PublicKey.str, take_drop_flatten _ hlt,
    Vector.getElem_toList, hread, Option.getD_some, UInt8.ofNat_toNat]

end Keys

section Names

/-- The name is found in front of the first comma, when there is no space in it. -/
theorem getName_eq_iff {name rest : Text} (h : 0x2C ∉ name) :
    getNameFromAssemblyReferenceString (name ++ 0x2C :: rest) = name ↔ 0x20 ∉ name := by
  have htake : (name ++ 0x2C :: rest).takeWhile (· ≠ 0x2C) = name := by
    rw [takeWhile_append_cons_of_neg (by decide), List.takeWhile_eq_self_iff]
    rintro c hc
    refine decide_eq_true ?_
    rintro rfl
    exact h hc
  rw [getNameFromAssemblyReferenceString, htake]
  by_cases hspace : 0x20 ∈ name
  · refine iff_of_false ?_ (not_not.mpr hspace)
    rw [if_pos hspace]
    intro heq
    have hlength := congrArg List.length heq
    have hle := (List.dropWhile_suffix (l := name.reverse) (· ≠ 0x20)).length_le
    have hpos : 0 < name.length := List.length_pos_of_mem hspace
    simp only [List.length_reverse, List.length_drop] at hlength hle
    omega
  · refine iff_of_true ?_ hspace
    rw [if_neg hspace]

end Names

section Found

/-- A reference with the parts that assemblies have. -/
structure Printable (r : AssemblyReference) : Prop where
  comma_notMem : 0x2C ∉ r.name
  head?_ne : r.name.head? ≠ some 0x20
  getLast?_ne : r.name.getLast? ≠ some 0x20
  locale_alphanumeric : ∀ c ∈ r.locale, isAlphanumeric c = true

variable (platform : Platform)

theorem str_eq (r : AssemblyReference) :
    r.str platform = r.name ++ 0x2C :: ((text " Version=" ++ r.version.str platform) ++ 0x2C ::
      ((text " Culture=" ++ r.locale) ++ 0x2C ::
        (text " PublicKeyToken=" ++ r.publicKey.str))) := by
  have hversion : text ", Version=" = 0x2C :: text " Version=" := by decide
  have hculture : text ", Culture=" = 0x2C :: text " Culture=" := by decide
  have hkey : text ", PublicKeyToken=" = 0x2C :: text " PublicKeyToken=" := by decide
  rw [AssemblyReference.str, hversion, hculture, hkey]
  simp only [List.append_assoc, List.cons_append]

/-- A search looks through the parts one after the other. -/
theorem search_str {pieces : List (Piece UInt16)} (h : ∀ piece ∈ pieces, piece.Excludes 0x2C)
    (r : AssemblyReference) :
    search pieces (r.str platform) = (search pieces r.name).or
      ((search pieces (text " Version=" ++ r.version.str platform)).or
        ((search pieces (text " Culture=" ++ r.locale)).or
          (search pieces (text " PublicKeyToken=" ++ r.publicKey.str)))) := by
  rw [str_eq, search_append h, search_append h, search_append h]

/-- No part holds a comma or a null character. -/
theorem excludes_patterns {c : UInt16} (hc : c = 0x2C ∨ c = 0) :
    (∀ piece ∈ versionPattern, piece.Excludes c) ∧ (∀ piece ∈ culturePattern, piece.Excludes c) ∧
      ∀ piece ∈ keyPattern, piece.Excludes c := by
  rcases hc with rfl | rfl
  · decide
  · decide

theorem definite_patterns :
    Definite versionPattern ∧ Definite culturePattern ∧ Definite keyPattern := by
  have hdot : isDigit 0x2E = false := by decide
  have hversion : isDigit 0x2E = false ∧ isDigit 0x2E = false ∧ isDigit 0x2E = false ∧ True :=
    ⟨hdot, hdot, hdot, trivial⟩
  exact ⟨hversion, trivial, trivial⟩

theorem matches_version (v : Version) :
    Matches versionPattern (text "Version=" ++ v.str .windows)
      [Version.part v.major, Version.part v.minor, Version.part v.build,
        Version.part v.revision] := by
  have hgroup : ∀ {n : UInt16} {u : Text} {pieces : List (Piece UInt16)} {groups : List Text},
      Matches pieces u groups →
      Matches (.group 1 none isDigit :: pieces) (Version.part n ++ u) (Version.part n :: groups) :=
    fun hmatches => .group (length_part_pos _) nofun (fun _ => isDigit_of_mem_part) hmatches
  have hall := (hgroup (n := v.major) (.word (w := text ".") (hgroup (n := v.minor)
    (.word (w := text ".") (hgroup (n := v.build) (.word (w := text ".")
      (hgroup (n := v.revision) .nil)))))))
  have hwhole := Matches.word (w := text "Version=") hall
  simpa [versionPattern, Version.str, List.append_assoc] using hwhole

theorem matches_culture {locale : Text} (hne : locale ≠ [])
    (h : ∀ c ∈ locale, isAlphanumeric c = true) :
    Matches culturePattern (text "Culture=" ++ locale) [locale] := by
  have hgroup : Matches [.group 1 none isAlphanumeric] (locale ++ []) [locale] :=
    .group (List.length_pos_of_ne_nil hne) nofun h .nil
  rw [List.append_nil] at hgroup
  exact .word hgroup

theorem matches_key (key : PublicKey) :
    Matches keyPattern (text "PublicKeyToken=" ++ key.str) [key.str] := by
  have hgroup : Matches [.group 16 (some 16) isHexDigit] (key.str ++ []) [key.str] := by
    refine .group (Nat.le_of_eq (length_str key).symm) ?_ (fun _ => isHexDigit_of_mem_str) .nil
    intro bound hbound
    obtain rfl := Option.some.inj hbound
    exact Nat.le_of_eq (length_str key)
  rw [List.append_nil] at hgroup
  exact .word hgroup

/-- In the text of a version there are digits and dots only. -/
theorem mem_version_str {v : Version} {c : UInt16} (h : c ∈ v.str .windows) :
    isDigit c = true ∨ c = 0x2E := by
  simp only [Version.str, List.mem_append] at h
  have hdot : c ∈ text "." → c = 0x2E := List.mem_singleton.mp
  rcases h with ((((((h | h) | h) | h) | h) | h) | h)
  · exact Or.inl (isDigit_of_mem_part h)
  · exact Or.inr (hdot h)
  · exact Or.inl (isDigit_of_mem_part h)
  · exact Or.inr (hdot h)
  · exact Or.inl (isDigit_of_mem_part h)
  · exact Or.inr (hdot h)
  · exact Or.inl (isDigit_of_mem_part h)

theorem search_version_str (r : AssemblyReference) :
    search versionPattern (r.str .windows) = (search versionPattern r.name).or
      (some [Version.part r.version.major, Version.part r.version.minor,
        Version.part r.version.build, Version.part r.version.revision]) := by
  have hsplit : text " Version=" ++ r.version.str .windows =
      [0x20] ++ (text "Version=" ++ r.version.str .windows) := rfl
  have hfound : search versionPattern (text " Version=" ++ r.version.str .windows) =
      search versionPattern (text "Version=" ++ r.version.str .windows) := by
    rw [hsplit, versionPattern, search_append_of_head? (a := 0x56) (by decide) (by decide)]
  rw [search_str .windows (excludes_patterns (Or.inl rfl)).1, hfound,
    search_of_matches definite_patterns.1 (matches_version r.version)]
  rfl

theorem search_culture_str {r : AssemblyReference} (h : Printable r) :
    search culturePattern (r.str .windows) = (search culturePattern r.name).or
      (if r.locale = [] then none else some [r.locale]) := by
  have hversion : search culturePattern (text " Version=" ++ r.version.str .windows) = none := by
    apply search_eq_none_of_notMem (a := 0x43)
    · decide
    · intro hmem
      rcases List.mem_append.mp hmem with hmem | hmem
      · revert hmem
        decide
      · rcases mem_version_str hmem with hmem | hmem
        · revert hmem
          decide
        · revert hmem
          decide
  have hkey : search culturePattern (text " PublicKeyToken=" ++ r.publicKey.str) = none := by
    apply search_eq_none_of_notMem (a := 0x72)
    · decide
    · intro hmem
      rcases List.mem_append.mp hmem with hmem | hmem
      · revert hmem
        decide
      · have hdigit := isHexDigit_of_mem_str hmem
        revert hdigit
        decide
  have hsplit : text " Culture=" ++ r.locale = [0x20] ++ (text "Culture=" ++ r.locale) := rfl
  have hfound : search culturePattern (text " Culture=" ++ r.locale) =
      if r.locale = [] then none else some [r.locale] := by
    rw [hsplit, culturePattern, search_append_of_head? (a := 0x43) (by decide) (by decide)]
    split_ifs with hnil
    · rw [hnil]
      decide
    · exact search_of_matches definite_patterns.2.1 (matches_culture hnil h.locale_alphanumeric)
  rw [search_str .windows (excludes_patterns (Or.inl rfl)).2.1, hversion, hfound, hkey,
    Option.none_or, Option.or_none]

theorem search_key_str {r : AssemblyReference} (h : Printable r) :
    search keyPattern (r.str .windows) =
      (search keyPattern r.name).or (some [r.publicKey.str]) := by
  have hversion : search keyPattern (text " Version=" ++ r.version.str .windows) = none := by
    apply search_eq_none_of_notMem (a := 0x50)
    · decide
    · intro hmem
      rcases List.mem_append.mp hmem with hmem | hmem
      · revert hmem
        decide
      · rcases mem_version_str hmem with hmem | hmem
        · revert hmem
          decide
        · revert hmem
          decide
  have hculture : search keyPattern (text " Culture=" ++ r.locale) = none := by
    rw [keyPattern, search_append_of_head? (a := 0x50) (by decide) (by decide)]
    apply search_eq_none_of_notMem (a := 0x3D)
    · decide
    · intro hmem
      have heq := h.locale_alphanumeric _ hmem
      revert heq
      decide
  have hsplit : text " PublicKeyToken=" ++ r.publicKey.str =
      [0x20] ++ (text "PublicKeyToken=" ++ r.publicKey.str) := rfl
  have hfound : search keyPattern (text " PublicKeyToken=" ++ r.publicKey.str) =
      search keyPattern (text "PublicKeyToken=" ++ r.publicKey.str) := by
    rw [hsplit, keyPattern, search_append_of_head? (a := 0x50) (by decide) (by decide)]
  rw [search_str .windows (excludes_patterns (Or.inl rfl)).2.2, hversion, hculture, hfound,
    search_of_matches definite_patterns.2.2 (matches_key r.publicKey)]
  rfl

end Found

section Windows

/-- The name has no space, and the first text in it that looks like another part has the value of
that part. -/
structure ReadsBack (r : AssemblyReference) : Prop where
  space_notMem : 0x20 ∉ r.name
  locale_ne_nil : r.locale ≠ []
  version : ∀ major minor build revision,
    search versionPattern r.name = some [major, minor, build, revision] →
      (⟨Windows.readPart major, Windows.readPart minor, Windows.readPart build,
        Windows.readPart revision⟩ : Version) = r.version
  culture : ∀ locale, search culturePattern r.name = some [locale] → locale = r.locale
  key : ∀ digits, search keyPattern r.name = some [digits] → publicKeyOfDigits digits = r.publicKey

theorem eq_of_length_version {groups : List Text} (h : groups.length = groupCount versionPattern) :
    ∃ major minor build revision, groups = [major, minor, build, revision] := by
  match groups, h with
  | [major, minor, build, revision], _ => exact ⟨major, minor, build, revision, rfl⟩

theorem eq_of_length_one {groups : List Text} (h : groups.length = 1) : ∃ g, groups = [g] :=
  List.length_eq_one_iff.mp h

theorem locale_ne_nil_of_search {s locale : Text} (h : search culturePattern s = some [locale]) :
    locale ≠ [] := by
  obtain ⟨u, -, hmatches⟩ := exists_matches_of_search h
  rw [culturePattern] at hmatches
  cases hmatches with
  | word hmatches =>
      cases hmatches with
      | group hleast _ _ _ => exact List.ne_nil_of_length_pos hleast

theorem getName_str_eq_iff {r : AssemblyReference} (platform : Platform) (h : Printable r) :
    getNameFromAssemblyReferenceString (r.str platform) = r.name ↔ 0x20 ∉ r.name := by
  rw [str_eq, getName_eq_iff h.comma_notMem]

/-- On Windows exactly the references without a misleading name are read back. -/
theorem Windows.parse_str_eq_iff {r : AssemblyReference} (h : Printable r) :
    Windows.parse (r.str .windows) = r ↔ ReadsBack r := by
  have hversion : Windows.getVersionFromAssemblyReferenceString (r.str .windows) = r.version ↔
      ∀ major minor build revision,
        search versionPattern r.name = some [major, minor, build, revision] →
          (⟨Windows.readPart major, Windows.readPart minor, Windows.readPart build,
            Windows.readPart revision⟩ : Version) = r.version := by
    rw [Windows.getVersionFromAssemblyReferenceString, search_version_str]
    cases hsearch : search versionPattern r.name with
    | none => simp [readPart_part]
    | some groups =>
        obtain ⟨major, minor, build, revision, rfl⟩ :=
          eq_of_length_version (length_of_search hsearch)
        constructor
        · rintro heq _ _ _ _ ⟨⟩
          exact heq
        · intro hall
          exact hall _ _ _ _ rfl
  have hculture : Windows.getLocaleFromAssemblyReferenceString (r.str .windows) = r.locale ↔
      r.locale ≠ [] ∧ ∀ locale, search culturePattern r.name = some [locale] →
        locale = r.locale := by
    rw [Windows.getLocaleFromAssemblyReferenceString, search_culture_str h]
    cases hsearch : search culturePattern r.name with
    | none =>
        by_cases hnil : r.locale = []
        · simp [hnil, text]
        · simp [hnil]
    | some groups =>
        obtain ⟨locale, rfl⟩ := eq_of_length_one (length_of_search hsearch)
        have hne := locale_ne_nil_of_search hsearch
        constructor
        · intro heq
          have hlocale : locale = r.locale := heq
          refine ⟨hlocale ▸ hne, ?_⟩
          rintro _ ⟨⟩
          exact hlocale
        · rintro ⟨-, hall⟩
          exact hall _ rfl
  have hkey : Windows.getPublicKeyFromAssemblyReferenceString (r.str .windows) = r.publicKey ↔
      ∀ digits, search keyPattern r.name = some [digits] →
        publicKeyOfDigits digits = r.publicKey := by
    rw [Windows.getPublicKeyFromAssemblyReferenceString, search_key_str h]
    cases hsearch : search keyPattern r.name with
    | none => simp [publicKeyOfDigits_str]
    | some groups =>
        obtain ⟨digits, rfl⟩ := eq_of_length_one (length_of_search hsearch)
        simp
  have hparts : Windows.parse (r.str .windows) = r ↔
      getNameFromAssemblyReferenceString (r.str .windows) = r.name ∧
        Windows.getVersionFromAssemblyReferenceString (r.str .windows) = r.version ∧
        Windows.getLocaleFromAssemblyReferenceString (r.str .windows) = r.locale ∧
        Windows.getPublicKeyFromAssemblyReferenceString (r.str .windows) = r.publicKey :=
    AssemblyReference.mk.injEq .. ▸ Iff.rfl
  rw [hparts, getName_str_eq_iff .windows h, hversion, hculture, hkey]
  constructor
  · rintro ⟨hspace, hversion, ⟨hne, hculture⟩, hkey⟩
    exact ⟨hspace, hne, hversion, hculture, hkey⟩
  · rintro ⟨hspace, hne, hversion, hculture, hkey⟩
    exact ⟨hspace, hversion, ⟨hne, hculture⟩, hkey⟩

end Windows

end SignalFxTracing.Metadata
