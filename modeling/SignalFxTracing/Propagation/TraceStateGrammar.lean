import SignalFxTracing.Propagation.TraceStateScanner
import Mathlib.Data.List.DropRight
import Mathlib.Data.List.Nodup

/-!
# The grammar of trace states (`W3CSpanContextPropagator.cs`)

The grammar that the comments of `ExtractTraceState` state, with the characters
a vendor may start with as a parameter. The method accepts a vendor that starts
with any character of a key, where the grammar asks for a lower-case letter.
-/

namespace SignalFxTracing.Propagation.W3C

open Clr Lib Lib.Segments

section Grammar

/-- `lcalpha`. -/
def IsLowerLetter (c : UInt16) : Prop := 0x61 ≤ c ∧ c ≤ 0x7A

/-- `DIGIT`. -/
def IsDigit (c : UInt16) : Prop := 0x30 ≤ c ∧ c ≤ 0x39

def IsLowerLetterOrDigit (c : UInt16) : Prop := IsLowerLetter c ∨ IsDigit c

def IsKeyCharacter (c : UInt16) : Prop := IsLowerLetterOrDigit c ∨ c ∈ text "_-*/"

instance : DecidablePred IsLowerLetter := fun c =>
  inferInstanceAs (Decidable (0x61 ≤ c ∧ c ≤ 0x7A))

instance : DecidablePred IsDigit := fun c => inferInstanceAs (Decidable (0x30 ≤ c ∧ c ≤ 0x39))

instance : DecidablePred IsLowerLetterOrDigit := fun c =>
  inferInstanceAs (Decidable (IsLowerLetter c ∨ IsDigit c))

instance : DecidablePred IsKeyCharacter := fun c =>
  inferInstanceAs (Decidable (IsLowerLetterOrDigit c ∨ c ∈ text "_-*/"))

def StartsWith (starts : UInt16 → Prop) (s : Text) : Prop := ∃ c, s.head? = some c ∧ starts c

/-- One to `max` characters of a key, the first one among `starts`. -/
structure IsIdentifier (starts : UInt16 → Prop) (max : Nat) (s : Text) : Prop where
  length_le : s.length ≤ max
  start : StartsWith starts s
  characters : ∀ c ∈ s, IsKeyCharacter c

/-- `key`, in the two formats of the comments. -/
inductive IsKey (vendorStarts : UInt16 → Prop) : Text → Prop
  | plain {key : Text} : IsIdentifier IsLowerLetterOrDigit 256 key → IsKey vendorStarts key
  | ofVendor {tenant vendor : Text} : IsIdentifier IsLowerLetterOrDigit 241 tenant →
      IsIdentifier vendorStarts 14 vendor → IsKey vendorStarts (tenant ++ 0x40 :: vendor)

/-- `value = 0*255(chr) nblk-chr`. -/
structure IsValue (value : Text) : Prop where
  length_pos : 1 ≤ value.length
  length_le : value.length ≤ 256
  characters : ∀ c ∈ value, 0x20 ≤ c ∧ c ≤ 0x7E ∧ c ≠ 0x2C ∧ c ≠ 0x3D
  last : value.getLast? ≠ some 0x20

/-- `list-member = key "=" value`. -/
def IsMember (vendorStarts : UInt16 → Prop) (listMember : Text) : Prop :=
  ∃ key value, listMember = key ++ 0x3D :: value ∧ IsKey vendorStarts key ∧ IsValue value

/-- The part of a member before its first `=`. -/
def keyOf (listMember : Text) : Text := listMember.takeWhile (· != 0x3D)

structure IsTraceState (vendorStarts : UInt16 → Prop) (members : List Text) : Prop where
  length_le : members.length ≤ 32
  keys_nodup : (members.map keyOf).Nodup
  isMember : ∀ listMember ∈ members, IsMember vendorStarts listMember

/-- The members of all header values in order, trimmed and without the blank ones. -/
def membersOf (values : List Text) : List Text :=
  ((values.flatMap (List.splitOn 0x2C)).map trim).filter (· ≠ [])

/-- The members joined when they are a trace state, else null. -/
def Specified (vendorStarts : UInt16 → Prop) (values : List Text) (result : Option Text) : Prop :=
  IsTraceState vendorStarts (membersOf values) ∧
      result = some ([0x2C].intercalate (membersOf values)) ∨
    ¬ IsTraceState vendorStarts (membersOf values) ∧ result = none

/-- Each vendor that a key names starts with a lower-case letter. -/
def VendorsStartWithLetter (members : List Text) : Prop :=
  ∀ listMember ∈ members, ∀ tenant vendor, keyOf listMember = tenant ++ 0x40 :: vendor →
    StartsWith IsLowerLetter vendor

end Grammar

section Characters

theorem isLowerAlphaDigit_iff (c : UInt16) :
    isLowerAlphaDigit c = true ↔ IsLowerLetterOrDigit c := by
  simp only [isLowerAlphaDigit, IsLowerLetterOrDigit, IsLowerLetter, IsDigit, Bool.or_eq_true,
    Bool.and_eq_true, decide_eq_true_eq]
  exact or_comm

theorem isKeyChar_iff (c : UInt16) : isKeyChar c = true ↔ IsKeyCharacter c := by
  have hothers : text "_-*/" = [0x5F, 0x2D, 0x2A, 0x2F] := rfl
  simp only [isKeyChar, IsKeyCharacter, hothers, Bool.or_eq_true, isLowerAlphaDigit_iff,
    beq_iff_eq, List.mem_cons, List.not_mem_nil, or_false, or_assoc]

theorem all_isKeyChar_iff (s : Text) : s.all isKeyChar = true ↔ ∀ c ∈ s, IsKeyCharacter c := by
  simp only [List.all_eq_true, isKeyChar_iff]

theorem not_isKeyCharacter_at : ¬ IsKeyCharacter 0x40 := by decide

theorem not_isKeyCharacter_eq : ¬ IsKeyCharacter 0x3D := by decide

theorem isValueChar_iff (c : UInt16) :
    isValueChar c = true ↔ 0x20 ≤ c ∧ c ≤ 0x7E ∧ c ≠ 0x2C ∧ c ≠ 0x3D := by
  simp only [isValueChar, Bool.and_eq_true, decide_eq_true_eq, bne_iff_ne, ne_eq, and_assoc]

end Characters

section Identifiers

variable {starts : UInt16 → Prop} {max : Nat} {s : Text}

theorem startsWith_cons_iff {c : UInt16} : StartsWith starts (c :: s) ↔ starts c := by
  simp [StartsWith]

theorem isIdentifier_cons_iff {c : UInt16} :
    IsIdentifier starts max (c :: s) ↔
      s.length + 1 ≤ max ∧ starts c ∧ IsKeyCharacter c ∧ ∀ d ∈ s, IsKeyCharacter d := by
  constructor
  · rintro ⟨hlength, hstart, hchars⟩
    exact ⟨hlength, startsWith_cons_iff.mp hstart, List.forall_mem_cons.mp hchars⟩
  · rintro ⟨hlength, hstart, hchars⟩
    exact ⟨hlength, startsWith_cons_iff.mpr hstart, List.forall_mem_cons.mpr hchars⟩

theorem IsIdentifier.length_pos (h : IsIdentifier starts max s) : 0 < s.length := by
  obtain ⟨c, hc, _⟩ := h.start
  exact List.length_pos_of_mem (List.mem_of_head? hc)

theorem IsIdentifier.at_notMem (h : IsIdentifier starts max s) : (0x40 : UInt16) ∉ s :=
  fun hmem => not_isKeyCharacter_at (h.characters _ hmem)

/-- An identifier may start with any character of a key when its first one is named. -/
theorem IsIdentifier.startsWith_key (h : IsIdentifier starts max s) :
    IsIdentifier IsKeyCharacter max s := by
  obtain ⟨c, hc, _⟩ := h.start
  exact ⟨h.length_le, ⟨c, hc, h.characters c (List.mem_of_head? hc)⟩, h.characters⟩

theorem isIdentifier_key_iff :
    IsIdentifier IsKeyCharacter max s ↔
      s.length ≠ 0 ∧ s.length ≤ max ∧ ∀ c ∈ s, IsKeyCharacter c := by
  constructor
  · intro h
    exact ⟨h.length_pos.ne', h.length_le, h.characters⟩
  · rintro ⟨hpos, hlength, hchars⟩
    cases s with
    | nil => exact absurd rfl hpos
    | cons c rest =>
        exact ⟨hlength, startsWith_cons_iff.mpr (hchars c (List.mem_cons_self ..)), hchars⟩

end Identifiers

section Keys

variable {vendorStarts : UInt16 → Prop}

/-- A key without an `@` has the first format. -/
theorem isKey_iff_of_notMem {key : Text} (h : (0x40 : UInt16) ∉ key) :
    IsKey vendorStarts key ↔ IsIdentifier IsLowerLetterOrDigit 256 key := by
  constructor
  · rintro (hplain | ⟨_, _⟩)
    · exact hplain
    · simp at h
  · exact .plain

/-- A key with an `@` has the second format, and its `@` ends the tenant. -/
theorem isKey_append_iff (tenant vendor : Text) :
    IsKey vendorStarts (tenant ++ 0x40 :: vendor) ↔
      IsIdentifier IsLowerLetterOrDigit 241 tenant ∧ IsIdentifier vendorStarts 14 vendor := by
  constructor
  · intro hkey
    generalize hs : tenant ++ 0x40 :: vendor = key at hkey
    cases hkey with
    | plain hplain =>
        have hmem : (0x40 : UInt16) ∈ key := by simp [← hs]
        exact absurd hmem hplain.at_notMem
    | ofVendor htenant hvendor =>
        obtain ⟨rfl, -, rfl⟩ :=
          (List.append_cons_inj_of_notMem htenant.at_notMem hvendor.at_notMem).mp hs.symm
        exact ⟨htenant, hvendor⟩
  · rintro ⟨htenant, hvendor⟩
    exact .ofVendor htenant hvendor

theorem IsKey.eq_notMem {key : Text} (h : IsKey vendorStarts key) : (0x3D : UInt16) ∉ key := by
  have hnot : ∀ {starts max s}, IsIdentifier starts max s → (0x3D : UInt16) ∉ s :=
    fun hs hmem => not_isKeyCharacter_eq (hs.characters _ hmem)
  cases h with
  | plain hplain => exact hnot hplain
  | ofVendor htenant hvendor => simp [hnot htenant, hnot hvendor]

theorem takeWhile_append_cons {before after : Text} {c : UInt16} (h : c ∉ before) :
    (before ++ c :: after).takeWhile (· != c) = before := by
  have hbefore : ∀ d ∈ before, (d != c) = true := by
    intro d hd
    apply bne_iff_ne.mpr
    rintro rfl
    exact h hd
  rw [List.takeWhile_append_of_pos hbefore]
  simp

theorem validateKey_of_notMem (first : UInt16) {rest : Text} (h : (0x40 : UInt16) ∉ rest) :
    validateKey (first :: rest) = true ↔
      rest.length + 1 ≤ 256 ∧ isLowerAlphaDigit first = true ∧ rest.all isKeyChar = true := by
  have hbefore : rest.takeWhile (· != 0x40) = rest := by
    apply List.takeWhile_eq_self_iff.mpr
    intro c hc
    apply bne_iff_ne.mpr
    rintro rfl
    exact h hc
  simp only [validateKey, hbefore, if_true, List.length_cons, traceStateKeyMaxLength,
    Bool.if_false_left, Bool.and_eq_true, Bool.and_true, Bool.not_eq_true',
    decide_eq_false_iff_not, Bool.not_eq_false, gt_iff_lt, not_lt]

theorem validateKey_of_append (first : UInt16) {before vendor : Text}
    (h : (0x40 : UInt16) ∉ before) :
    validateKey (first :: (before ++ 0x40 :: vendor)) = true ↔
      (before.length + 1 ≤ 241 ∧ isLowerAlphaDigit first = true ∧
        before.all isKeyChar = true) ∧
      vendor.length ≠ 0 ∧ vendor.length ≤ 14 ∧ vendor.all isKeyChar = true := by
  have hdrop : (first :: (before ++ 0x40 :: vendor)).drop (before.length + 1 + 1) = vendor := by
    simp
  have hlength : before.length ≠ (before ++ 0x40 :: vendor).length := by simp
  rw [validateKey]
  simp only [takeWhile_append_cons h, hdrop, if_neg hlength, traceStateKeyMaxLength,
    traceStateKeyTenantMaxLength, traceStateKeyVendorMaxLength, Bool.if_false_left,
    Bool.and_eq_true, Bool.not_eq_true', decide_eq_false_iff_not, Bool.not_eq_false,
    gt_iff_lt, not_lt, not_or]
  rw [List.length_cons, List.length_append, List.length_cons]
  constructor
  · rintro ⟨-, hfirst, hchars, htenant, ⟨hpos, hmax⟩, hvendor⟩
    exact ⟨⟨htenant, hfirst, hchars⟩, hpos, hmax, hvendor⟩
  · rintro ⟨⟨htenant, hfirst, hchars⟩, hpos, hmax, hvendor⟩
    exact ⟨by omega, hfirst, hchars, htenant, ⟨hpos, hmax⟩, hvendor⟩

/-- The checks of `ValidateKey` are the grammar of keys whose vendor may start
with any character of a key. -/
theorem validateKey_iff (key : Text) : validateKey key = true ↔ IsKey IsKeyCharacter key := by
  cases key with
  | nil =>
      rw [isKey_iff_of_notMem List.not_mem_nil]
      constructor
      · exact nofun
      · exact fun h => absurd h.length_pos (Nat.lt_irrefl 0)
  | cons first rest =>
      by_cases hat : (0x40 : UInt16) ∈ rest
      · obtain ⟨before, vendor, rfl, hnot⟩ := List.eq_append_cons_of_mem hat
        have hkey : IsKey IsKeyCharacter (first :: (before ++ 0x40 :: vendor)) ↔ _ :=
          isKey_append_iff (first :: before) vendor
        rw [validateKey_of_append first hnot, hkey, isIdentifier_cons_iff, isIdentifier_key_iff,
          isLowerAlphaDigit_iff, all_isKeyChar_iff, all_isKeyChar_iff]
        constructor
        · rintro ⟨⟨htenant, hfirst, hchars⟩, hvendor⟩
          exact ⟨⟨htenant, hfirst, Or.inl hfirst, hchars⟩, hvendor⟩
        · rintro ⟨⟨htenant, hfirst, -, hchars⟩, hvendor⟩
          exact ⟨⟨htenant, hfirst, hchars⟩, hvendor⟩
      · rw [validateKey_of_notMem first hat, isLowerAlphaDigit_iff, all_isKeyChar_iff]
        by_cases hfirst : first = 0x40
        · subst hfirst
          constructor
          · rintro ⟨-, hletter, -⟩
            exact absurd (Or.inl hletter) not_isKeyCharacter_at
          · intro hkey
            have hempty := (isKey_append_iff [] rest).mp hkey
            exact absurd hempty.1.length_pos (Nat.lt_irrefl 0)
        · have hnot : (0x40 : UInt16) ∉ first :: rest := by simp [hat, Ne.symm hfirst]
          rw [isKey_iff_of_notMem hnot, isIdentifier_cons_iff]
          constructor
          · rintro ⟨hlength, hletter, hchars⟩
            exact ⟨hlength, hletter, Or.inl hletter, hchars⟩
          · rintro ⟨hlength, hletter, -, hchars⟩
            exact ⟨hlength, hletter, hchars⟩

/-- With a lower-case letter the vendor of a key is the only thing that matters. -/
theorem isKey_lowerLetter_iff (key : Text) :
    IsKey IsLowerLetter key ↔
      IsKey IsKeyCharacter key ∧
        ∀ tenant vendor, key = tenant ++ 0x40 :: vendor → StartsWith IsLowerLetter vendor := by
  by_cases hat : (0x40 : UInt16) ∈ key
  · obtain ⟨tenant, vendor, rfl⟩ := List.append_of_mem hat
    constructor
    · intro hkey
      obtain ⟨htenant, hvendor⟩ := (isKey_append_iff _ _).mp hkey
      refine ⟨.ofVendor htenant hvendor.startsWith_key, ?_⟩
      intro other rest hother
      obtain ⟨-, -, rfl⟩ :=
        (List.append_cons_inj_of_notMem htenant.at_notMem hvendor.at_notMem).mp hother
      exact hvendor.start
    · rintro ⟨hkey, hstarts⟩
      obtain ⟨htenant, hvendor⟩ := (isKey_append_iff _ _).mp hkey
      exact .ofVendor htenant ⟨hvendor.length_le, hstarts _ _ rfl, hvendor.characters⟩
  · rw [isKey_iff_of_notMem hat, isKey_iff_of_notMem hat, iff_self_and]
    rintro - tenant vendor rfl
    simp at hat

end Keys

section Values

/-- The checks of `ValidateValue` are the grammar of values. -/
theorem validateValue_iff (value : Text) : validateValue value = true ↔ IsValue value := by
  rcases List.eq_nil_or_concat value with rfl | ⟨init, last, rfl⟩
  · constructor
    · exact nofun
    · exact fun h => absurd h.length_pos (Nat.lt_irrefl 0)
  · rw [List.concat_eq_append, validateValue]
    simp only [List.dropLast_concat, List.getLast?_concat, Bool.if_false_left, Bool.and_eq_true,
      Bool.not_eq_true', decide_eq_false_iff_not, List.all_eq_true, isValueChar_iff, bne_iff_ne,
      traceStateValueMaxLength, not_or, gt_iff_lt, not_lt]
    constructor
    · rintro ⟨⟨hpos, hlength⟩, hinit, hlast, hblank⟩
      refine ⟨Nat.pos_of_ne_zero hpos, hlength, ?_, by simpa using hblank⟩
      intro c hc
      rcases List.mem_append.mp hc with hc | hc
      · exact hinit c hc
      · obtain rfl := List.mem_singleton.mp hc
        exact hlast
    · rintro ⟨hpos, hlength, hchars, hblank⟩
      refine ⟨⟨Nat.pos_iff_ne_zero.mp hpos, hlength⟩, fun c hc => hchars c (by simp [hc]),
        hchars last (by simp), by simpa using hblank⟩

theorem IsValue.eq_notMem {value : Text} (h : IsValue value) : (0x3D : UInt16) ∉ value :=
  fun hmem => (h.characters _ hmem).2.2.2 rfl

end Values

section Members

variable {vendorStarts : UInt16 → Prop}

/-- A member is cut at its only `=`. -/
theorem isMember_append_iff {key value : Text} :
    IsMember vendorStarts (key ++ 0x3D :: value) ↔ IsKey vendorStarts key ∧ IsValue value := by
  constructor
  · rintro ⟨otherKey, otherValue, heq, hkey, hvalue⟩
    obtain ⟨rfl, -, rfl⟩ :=
      (List.append_cons_inj_of_notMem hkey.eq_notMem hvalue.eq_notMem).mp heq.symm
    exact ⟨hkey, hvalue⟩
  · rintro ⟨hkey, hvalue⟩
    exact ⟨key, value, rfl, hkey, hvalue⟩

theorem isMember_lowerLetter_iff (listMember : Text) :
    IsMember IsLowerLetter listMember ↔
      IsMember IsKeyCharacter listMember ∧
        ∀ tenant vendor, keyOf listMember = tenant ++ 0x40 :: vendor →
          StartsWith IsLowerLetter vendor := by
  by_cases heq : (0x3D : UInt16) ∈ listMember
  · obtain ⟨key, value, rfl, hnot⟩ := List.eq_append_cons_of_mem heq
    rw [isMember_append_iff, isMember_append_iff, keyOf, takeWhile_append_cons hnot,
      isKey_lowerLetter_iff]
    tauto
  · have hnone : ∀ starts, ¬ IsMember starts listMember := by
      rintro starts ⟨key, value, rfl, -⟩
      simp at heq
    exact iff_of_false (hnone _) fun h => hnone _ h.1

/-- What one member adds, and when it is refused. -/
theorem addListMember_eq_some_iff {acc next : TraceStateResult} {listMember : Text} :
    addListMember acc listMember = some next ↔
      acc.keySet.length < 32 ∧ IsMember IsKeyCharacter listMember ∧
        keyOf listMember ∉ acc.keySet ∧
        next = ⟨keyOf listMember :: acc.keySet, append 0x2C acc.result listMember⟩ := by
  have hwritten : (if acc.result = [] then listMember
      else acc.result ++ text "," ++ listMember) = append 0x2C acc.result listMember := by
    rw [append, List.append_assoc]
    rfl
  by_cases heq : (0x3D : UInt16) ∈ listMember
  · obtain ⟨key, value, rfl, hnot⟩ := List.eq_append_cons_of_mem heq
    have hkey : keyOf (key ++ 0x3D :: value) = key := takeWhile_append_cons hnot
    have hvalue : (key ++ 0x3D :: value).drop (key.length + 1) = value := by simp
    rw [isMember_append_iff, ← validateKey_iff, ← validateValue_iff, hkey, addListMember]
    rw [keyOf] at hkey
    simp only [hkey, hvalue, hwritten]
    split_ifs with hcount hvalidKey hvalidValue hseen
    · exact iff_of_false (fun h => by cases h) fun h => Nat.not_lt.mpr hcount h.1
    · exact iff_of_false (fun h => by cases h) fun h => by simp [h.2.1.1] at hvalidKey
    · exact iff_of_false (fun h => by cases h) fun h => by simp [h.2.1.2] at hvalidValue
    · exact iff_of_false (fun h => by cases h) fun h => h.2.2.1 hseen
    · constructor
      · intro h
        obtain rfl := Option.some.inj h
        exact ⟨Nat.not_le.mp hcount, ⟨by simpa using hvalidKey, by simpa using hvalidValue⟩,
          hseen, rfl⟩
      · rintro ⟨-, -, -, rfl⟩
        rfl
  · rw [addListMember]
    have hnone : ¬ IsMember IsKeyCharacter listMember := by
      rintro ⟨key, value, rfl, -⟩
      simp at heq
    split_ifs with hcount
    · simp [hnone]
    · simp [hnone]

/-- What all members add, and when one of them is refused. -/
theorem foldlM_addListMember_eq_some_iff {members : List Text} (acc : TraceStateResult)
    {last : TraceStateResult} (hcount : acc.keySet.length ≤ 32) (hnodup : acc.keySet.Nodup) :
    members.foldlM addListMember acc = some last ↔
      acc.keySet.length + members.length ≤ 32 ∧
        ((members.map keyOf).reverse ++ acc.keySet).Nodup ∧
        (∀ listMember ∈ members, IsMember IsKeyCharacter listMember) ∧
        last = ⟨(members.map keyOf).reverse ++ acc.keySet,
          members.foldl (append 0x2C) acc.result⟩ := by
  induction members generalizing acc with
  | nil => simp [hcount, hnodup, eq_comm]
  | cons listMember rest ih =>
      rw [List.foldlM_cons, Option.bind_eq_bind, Option.bind_eq_some_iff]
      constructor
      · rintro ⟨next, hnext, hrest⟩
        obtain ⟨hlt, hmember, hkey, rfl⟩ := addListMember_eq_some_iff.mp hnext
        obtain ⟨hcount', hnodup', hmembers, rfl⟩ :=
          (ih ⟨keyOf listMember :: acc.keySet, append 0x2C acc.result listMember⟩ hlt
            (List.nodup_cons.mpr ⟨hkey, hnodup⟩)).mp hrest
        rw [List.length_cons] at hcount'
        refine ⟨?_, ?_, List.forall_mem_cons.mpr ⟨hmember, hmembers⟩, ?_⟩
        · rw [List.length_cons]
          omega
        · simpa using hnodup'
        · simp
      · rintro ⟨hlength, hkeys, hmembers, rfl⟩
        obtain ⟨hmember, hrest⟩ := List.forall_mem_cons.mp hmembers
        rw [List.length_cons] at hlength
        rw [List.map_cons, List.reverse_cons, List.append_assoc, List.singleton_append] at hkeys
        have hnext := (List.nodup_append.mp hkeys).2.1
        have hlt : acc.keySet.length < 32 := by omega
        refine ⟨_, addListMember_eq_some_iff.mpr
          ⟨hlt, hmember, (List.nodup_cons.mp hnext).1, rfl⟩, ?_⟩
        refine (ih ⟨keyOf listMember :: acc.keySet, append 0x2C acc.result listMember⟩ hlt
          hnext).mpr ⟨?_, hkeys, hrest, ?_⟩
        · rw [List.length_cons]
          omega
        · simp

theorem isTraceState_lowerLetter_iff (members : List Text) :
    IsTraceState IsLowerLetter members ↔
      IsTraceState IsKeyCharacter members ∧ VendorsStartWithLetter members := by
  constructor
  · intro h
    have hmembers := fun listMember hmem =>
      (isMember_lowerLetter_iff listMember).mp (h.isMember listMember hmem)
    exact ⟨⟨h.length_le, h.keys_nodup, fun listMember hmem => (hmembers listMember hmem).1⟩,
      fun listMember hmem => (hmembers listMember hmem).2⟩
  · rintro ⟨h, hvendors⟩
    exact ⟨h.length_le, h.keys_nodup, fun listMember hmem =>
      (isMember_lowerLetter_iff listMember).mpr
        ⟨h.isMember listMember hmem, hvendors listMember hmem⟩⟩

end Members

section Trimming

theorem trim_eq (s : Text) : trim s = (s.dropWhile isWhiteSpace).rdropWhile isWhiteSpace := rfl

theorem trim_sublist (s : Text) : (trim s).Sublist s :=
  (List.rdropWhile_prefix _ _).sublist.trans (List.dropWhile_suffix _).sublist

theorem trim_trim (s : Text) : trim (trim s) = trim s := by
  have hstart : (trim s).dropWhile isWhiteSpace = trim s := by
    rw [List.dropWhile_eq_self_iff]
    intro hpos
    have hstarts : trim s <+: s.dropWhile isWhiteSpace := List.rdropWhile_prefix _ _
    rw [hstarts.getElem hpos]
    exact List.dropWhile_get_zero_not isWhiteSpace s (hpos.trans_le hstarts.length_le)
  rw [trim_eq (trim s), hstart, trim_eq s]
  exact List.rdropWhile_idempotent _ _

end Trimming

section Results

theorem membersOf_eq (values : List Text) : membersOf values = values.flatMap listMembers := by
  induction values with
  | nil => rfl
  | cons traceState rest ih =>
      rw [List.flatMap_cons, ← ih, listMembers, Scanner.splitOn_eq, membersOf, membersOf,
        List.flatMap_cons, List.map_append, List.filter_append]

theorem ne_nil_of_mem_membersOf {values : List Text} {listMember : Text}
    (h : listMember ∈ membersOf values) : listMember ≠ [] := by
  simpa using (List.mem_filter.mp h).2

/-- The method returns the joined members exactly when they are a trace state. -/
theorem extractTraceState_eq_some_iff {values : List Text} {result : Text} :
    extractTraceState values = some result ↔
      IsTraceState IsKeyCharacter (membersOf values) ∧
        result = [0x2C].intercalate (membersOf values) := by
  rw [extractTraceState, ← membersOf_eq, Option.map_eq_some_iff,
    ← foldl_append 0x2C fun _ => ne_nil_of_mem_membersOf]
  constructor
  · rintro ⟨last, hlast, rfl⟩
    obtain ⟨hlength, hkeys, hmembers, rfl⟩ :=
      (foldlM_addListMember_eq_some_iff {} (Nat.zero_le _) List.nodup_nil).mp hlast
    refine ⟨⟨?_, ?_, hmembers⟩, rfl⟩
    · simpa using hlength
    · simpa [List.nodup_reverse] using hkeys
  · rintro ⟨h, rfl⟩
    refine ⟨_, (foldlM_addListMember_eq_some_iff {} (Nat.zero_le _) List.nodup_nil).mpr
      ⟨?_, ?_, h.isMember, rfl⟩, rfl⟩
    · simpa using h.length_le
    · simpa [List.nodup_reverse] using h.keys_nodup

/-- The method is the grammar in which a vendor starts with any character of a key. -/
theorem specified_extractTraceState (values : List Text) :
    Specified IsKeyCharacter values (extractTraceState values) := by
  by_cases h : IsTraceState IsKeyCharacter (membersOf values)
  · exact Or.inl ⟨h, extractTraceState_eq_some_iff.mpr ⟨h, rfl⟩⟩
  · right
    refine ⟨h, Option.eq_none_iff_forall_ne_some.mpr fun result hresult => ?_⟩
    exact h (extractTraceState_eq_some_iff.mp hresult).1

/-- It is the stated grammar where no vendor of an accepted value starts otherwise. -/
theorem specified_lowerLetter_iff (values : List Text) :
    Specified IsLowerLetter values (extractTraceState values) ↔
      (IsTraceState IsKeyCharacter (membersOf values) →
        VendorsStartWithLetter (membersOf values)) := by
  rcases specified_extractTraceState values with ⟨h, hresult⟩ | ⟨h, hresult⟩
  · rw [Specified, hresult, isTraceState_lowerLetter_iff]
    simp [h]
  · rw [Specified, hresult, isTraceState_lowerLetter_iff]
    simp [h]

/-- The members of a header value that joins the members of some header values. -/
theorem membersOf_intercalate (values : List Text) :
    membersOf [[0x2C].intercalate (membersOf values)] = membersOf values := by
  have hmembers : ∀ listMember ∈ membersOf values,
      (0x2C : UInt16) ∉ listMember ∧ trim listMember = listMember := by
    intro listMember hmem
    obtain ⟨segment, hsegment, rfl⟩ := List.mem_map.mp (List.mem_filter.mp hmem).1
    obtain ⟨traceState, -, hsplit⟩ := List.mem_flatMap.mp hsegment
    refine ⟨fun hcomma => ?_, trim_trim segment⟩
    exact separator_notMem_of_mem_splitOn hsplit ((trim_sublist segment).subset hcomma)
  have hne : ∀ listMember ∈ membersOf values, decide (listMember ≠ []) = true :=
    fun listMember hmem => decide_eq_true (ne_nil_of_mem_membersOf hmem)
  generalize membersOf values = members at hmembers hne
  rw [membersOf, List.flatMap_singleton]
  by_cases hempty : members = []
  · rw [hempty]
    rfl
  · have hmap : members.map trim = members.map id :=
      List.map_congr_left fun listMember hmem => (hmembers listMember hmem).2
    rw [List.splitOn_intercalate 0x2C (fun l hl => (hmembers l hl).1) hempty, hmap, List.map_id,
      List.filter_eq_self.mpr hne]

/-- A returned value is returned again when it is extracted. -/
theorem extractTraceState_of_result {values : List Text} {result : Text}
    (h : extractTraceState values = some result) : extractTraceState [result] = some result := by
  obtain ⟨hstate, rfl⟩ := extractTraceState_eq_some_iff.mp h
  apply extractTraceState_eq_some_iff.mpr
  rw [membersOf_intercalate]
  exact ⟨hstate, rfl⟩

/-- What the comments promise of `ExtractTraceState` for one list of header values:
its loops end, its result is that of the grammar, and a value that it returns
is returned again. -/
def ImplementsGrammar (vendorStarts : UInt16 → Prop) (values : List Text) : Prop :=
  ∃ result, (∀ turns, (∀ traceState ∈ values, traceState.length ≤ turns) →
      Scanner.extractTraceState turns (some values) = some result) ∧
    Specified vendorStarts values result ∧
    ∀ returned, result = some returned → ∀ turns, returned.length ≤ turns →
      Scanner.extractTraceState turns (some [returned]) = some (some returned)

theorem implementsGrammar_iff_specified {vendorStarts : UInt16 → Prop} (values : List Text) :
    ImplementsGrammar vendorStarts values ↔
      Specified vendorStarts values (extractTraceState values) := by
  constructor
  · rintro ⟨result, hresult, hspecified, -⟩
    obtain ⟨turns, hturns⟩ : ∃ turns, ∀ traceState ∈ values, traceState.length ≤ turns :=
      ⟨values.flatten.length, fun _ hmem => (List.sublist_flatten_of_mem hmem).length_le⟩
    have h := (Scanner.extractTraceState_eq hturns).symm.trans (hresult turns hturns)
    rwa [Option.some.inj h]
  · intro h
    refine ⟨_, fun turns hturns => Scanner.extractTraceState_eq hturns, h, ?_⟩
    intro returned hreturned turns hturns
    rw [Scanner.extractTraceState_eq (List.forall_mem_singleton.mpr hturns),
      extractTraceState_of_result hreturned]

/-- The method implements the grammar of its comments exactly on the header values
in which no accepted vendor starts with something else than a lower-case letter. -/
theorem implementsGrammar_iff (values : List Text) :
    ImplementsGrammar IsLowerLetter values ↔
      (IsTraceState IsKeyCharacter (membersOf values) →
        VendorsStartWithLetter (membersOf values)) :=
  (implementsGrammar_iff_specified values).trans (specified_lowerLetter_iff values)

/-- The vendor of `t@1v` starts with a digit. -/
theorem not_implementsGrammar_digit :
    extractTraceState [text "t@1v=x"] = some (text "t@1v=x") ∧
      ¬ ImplementsGrammar IsLowerLetter [text "t@1v=x"] := by
  have haccepted : extractTraceState [text "t@1v=x"] = some (text "t@1v=x") := by rfl
  refine ⟨haccepted, ?_⟩
  rw [implementsGrammar_iff_specified, specified_lowerLetter_iff]
  intro hvendors
  have hstarts := hvendors (extractTraceState_eq_some_iff.mp haccepted).1
  obtain ⟨c, hc, hletter⟩ := hstarts (text "t@1v=x") (by decide) (text "t") (text "1v") (by decide)
  obtain rfl := Option.some.inj hc
  exact absurd hletter (by decide)

end Results

end SignalFxTracing.Propagation.W3C
