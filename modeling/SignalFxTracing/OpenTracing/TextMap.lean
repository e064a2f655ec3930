import SignalFxTracing.Propagation.Carrier

/-!
# Text maps as header collections (`TextMapHeadersCollection.cs`)

A text map is enumerated in an order, and setting a key replaces the value that
the map has for it. `GetValues` compares the keys without regard to case, while
the map itself may tell cases apart, so that a value under another spelling of
a name stays and may come first.

## Implementation notes

The names that are looked up have ASCII characters only; no other character is
equal to one of these when the case is ignored. Values that are null are left
out, as no text map of a request holds one.
-/

namespace SignalFxTracing.OpenTracing

open Clr Propagation

/-- `char.ToUpperInvariant` of an ASCII character. -/
def toUpperAscii (c : UInt16) : UInt16 := if 0x61 ≤ c ∧ c ≤ 0x7A then c - 0x20 else c

/-- `string.Equals(…, StringComparison.OrdinalIgnoreCase)`. -/
def equalsIgnoreCase (a b : Text) : Bool := a.map toUpperAscii == b.map toUpperAscii

theorem equalsIgnoreCase_iff {a b : Text} :
    equalsIgnoreCase a b = true ↔ a.map toUpperAscii = b.map toUpperAscii := beq_iff_eq

/-- An `ITextMap`: its pairs in the order of enumeration, and the comparer of its keys. -/
structure TextMap where
  ignoresCase : Bool
  pairs : List (Text × Text)

/-- Replace the value of the first key that is the same, or add the key. -/
def setPair (same : Text → Text → Bool) (name value : Text) :
    List (Text × Text) → List (Text × Text)
  | [] => [(name, value)]
  | p :: rest =>
      if same p.1 name then (p.1, value) :: rest else p :: setPair same name value rest

/-- The values under the name, ignoring case. -/
def valuesOf (name : Text) (pairs : List (Text × Text)) : List Text :=
  (pairs.filter fun p => equalsIgnoreCase p.1 name).map Prod.snd

/-- The values under other spellings of the name that come before it. -/
def valuesBefore (same : Text → Text → Bool) (name : Text) (pairs : List (Text × Text)) :
    List Text :=
  valuesOf name (pairs.takeWhile fun p => !same p.1 name)

namespace TextMap

variable (m : TextMap)

/-- The comparer of the keys. -/
def sameKey (a b : Text) : Bool := if m.ignoresCase then equalsIgnoreCase a b else a == b

/-- `ITextMap.Set`. -/
def set (name value : Text) : TextMap :=
  { m with pairs := setPair m.sameKey name value m.pairs }

/-- `GetValues`. -/
def getValues (name : Text) : List Text := valuesOf name m.pairs

/-- The values that are enumerated before the one that is set for a name. -/
def before (name : Text) : List Text := valuesBefore m.sameKey name m.pairs

/-- `InjectToHeadersCollection` and `ExtractFromHeadersCollection`; the sequence is an iterator. -/
def access : CarrierAccess TextMap where
  setter := set
  getter m name := HeaderValues.ofList (m.getValues name)

end TextMap

section Pairs

variable {same : Text → Text → Bool} {name value other : Text} {pairs : List (Text × Text)}

theorem equalsIgnoreCase_of_sameKey {m : TextMap} {a b : Text} (h : m.sameKey a b = true) :
    equalsIgnoreCase a b = true := by
  rw [TextMap.sameKey] at h
  split_ifs at h
  · exact h
  · rw [equalsIgnoreCase_iff, eq_of_beq h]

/-- A key that is one name is no other one. -/
theorem equalsIgnoreCase_eq_false {a : Text} (hne : equalsIgnoreCase name other = false)
    (h : equalsIgnoreCase a name = true) : equalsIgnoreCase a other = false := by
  rw [Bool.eq_false_iff] at hne ⊢
  intro hother
  apply hne
  rw [equalsIgnoreCase_iff] at h hother ⊢
  exact h.symm.trans hother

theorem exists_valuesOf_setPair (hsame : ∀ a, same a name = true → equalsIgnoreCase a name = true) :
    ∃ later, valuesOf name (setPair same name value pairs) =
      valuesBefore same name pairs ++ value :: later := by
  induction pairs with
  | nil =>
      have hself : equalsIgnoreCase name name = true := equalsIgnoreCase_iff.mpr rfl
      exact ⟨[], by simp [valuesOf, valuesBefore, setPair, hself]⟩
  | cons p rest ih =>
      rw [setPair]
      split_ifs with hp
      · refine ⟨valuesOf name rest, ?_⟩
        simp [valuesOf, valuesBefore, hp, hsame p.1 hp]
      · obtain ⟨later, hlater⟩ := ih
        refine ⟨later, ?_⟩
        simp only [valuesOf, valuesBefore] at hlater ⊢
        rw [Bool.not_eq_true] at hp
        rw [List.takeWhile_cons, hp, Bool.not_false, if_pos rfl, List.filter_cons,
          List.filter_cons]
        split_ifs
        · rw [List.map_cons, hlater, List.map_cons, List.cons_append]
        · exact hlater

theorem valuesOf_setPair_of_ne (hsame : ∀ a, same a name = true → equalsIgnoreCase a name = true)
    (hne : equalsIgnoreCase name other = false) :
    valuesOf other (setPair same name value pairs) = valuesOf other pairs := by
  induction pairs with
  | nil => simp [valuesOf, setPair, hne]
  | cons p rest ih =>
      rw [setPair]
      split_ifs with hp
      · simp [valuesOf, equalsIgnoreCase_eq_false hne (hsame p.1 hp)]
      · simp only [valuesOf] at ih ⊢
        rw [List.filter_cons, List.filter_cons]
        split_ifs
        · rw [List.map_cons, ih, List.map_cons]
        · exact ih

theorem valuesBefore_setPair_of_ne
    (hsame : ∀ a b, same a b = true → equalsIgnoreCase a b = true)
    (hne : equalsIgnoreCase name other = false) :
    valuesBefore same other (setPair same name value pairs) = valuesBefore same other pairs := by
  have hother : ∀ a, equalsIgnoreCase a name = true → same a other = false := by
    intro a ha
    rw [Bool.eq_false_iff]
    intro h
    have heq := hsame a other h
    rw [equalsIgnoreCase_eq_false hne ha] at heq
    cases heq
  induction pairs with
  | nil =>
      have hself := hother name (equalsIgnoreCase_iff.mpr rfl)
      simp [valuesBefore, valuesOf, setPair, hself, hne]
  | cons p rest ih =>
      rw [setPair]
      split_ifs with hp
      · have hname := hsame p.1 name hp
        simp [valuesBefore, valuesOf, hother p.1 hname, equalsIgnoreCase_eq_false hne hname]
      · simp only [valuesBefore, valuesOf] at ih ⊢
        rw [List.takeWhile_cons, List.takeWhile_cons]
        split_ifs
        · rw [List.filter_cons, List.filter_cons]
          split_ifs
          · rw [List.map_cons, ih, List.map_cons]
          · exact ih
        · rfl

end Pairs

namespace TextMap

variable {m : TextMap} {name other : Text} {headers : List (Text × Text)}

theorem exists_getValues_set (value : Text) :
    ∃ later, (m.set name value).getValues name = m.before name ++ value :: later :=
  exists_valuesOf_setPair fun _ => equalsIgnoreCase_of_sameKey

theorem getValues_set_of_ne (value : Text) (h : equalsIgnoreCase name other = false) :
    (m.set name value).getValues other = m.getValues other :=
  valuesOf_setPair_of_ne (fun _ => equalsIgnoreCase_of_sameKey) h

theorem before_set_of_ne (value : Text) (h : equalsIgnoreCase name other = false) :
    (m.set name value).before other = m.before other :=
  valuesBefore_setPair_of_ne (fun _ _ => equalsIgnoreCase_of_sameKey) h

/-- Names that no header has keep their values. -/
theorem getValues_setAll_of_ne
    (h : ∀ header ∈ headers, equalsIgnoreCase header.1 other = false) :
    (access.setAll m headers).getValues other = m.getValues other := by
  induction headers generalizing m with
  | nil => rfl
  | cons header rest ih =>
      rw [List.forall_mem_cons] at h
      exact (ih h.2).trans (getValues_set_of_ne header.2 h.1)

/-- A header that is set has its value behind those under other spellings. -/
theorem exists_getValues_setAll {value : Text}
    (hapart : headers.Pairwise fun p q => equalsIgnoreCase p.1 q.1 = false)
    (h : (name, value) ∈ headers) :
    ∃ later, (access.setAll m headers).getValues name = m.before name ++ value :: later := by
  induction headers generalizing m with
  | nil => cases h
  | cons header rest ih =>
      rw [List.pairwise_cons] at hapart
      rcases List.mem_cons.mp h with rfl | h
      · obtain ⟨later, hlater⟩ := @exists_getValues_set m name value
        have hrest : ∀ header ∈ rest, equalsIgnoreCase header.1 name = false := by
          intro header hheader
          have hne := hapart.1 header hheader
          rw [Bool.eq_false_iff] at hne ⊢
          intro heq
          exact hne (equalsIgnoreCase_iff.mpr (equalsIgnoreCase_iff.mp heq).symm)
        refine ⟨later, ?_⟩
        calc
          (access.setAll (m.set name value) rest).getValues name =
              (m.set name value).getValues name := getValues_setAll_of_ne hrest
          _ = m.before name ++ value :: later := hlater
      · obtain ⟨later, hlater⟩ := @ih (m.set header.1 header.2) hapart.2 h
        rw [before_set_of_ne header.2 (hapart.1 _ h)] at hlater
        exact ⟨later, hlater⟩

end TextMap

end SignalFxTracing.OpenTracing
