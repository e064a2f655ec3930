import SignalFxTracing.Metadata.IntegrationJson

/-!
# What one bad definition does to the others

The exception that a field of the wrong type raises ends the loop over the
definitions, while an element that is no object or has no name is passed over.
A definition is loaded in its place exactly when no element before it raises.
-/

namespace SignalFxTracing.Metadata

open Clr Lib.FirstError

namespace Json

def isString : Json → Bool
  | string _ => true
  | _ => false

def isNumber : Json → Bool
  | unsigned _ => true
  | integer _ => true
  | float _ => true
  | _ => false

def isBoolean : Json → Bool
  | boolean _ => true
  | _ => false

/-- An array of values that are all accepted. -/
def isArrayOf (accepts : Json → Bool) : Json → Bool
  | array elements => elements.all accepts
  | _ => false

end Json

section Fields

/-- The member is there and its value is not accepted. -/
def Misread (accepts : Json → Bool) (members : List (Text × Json)) (key : Text) : Prop :=
  ∃ value, members.lookup key = some value ∧ accepts value = false

/-- The types of the fields of a reference. -/
inductive FieldType
  | text
  | number
  | texts

namespace FieldType

/-- The values of the type. -/
def admits : FieldType → Json → Bool
  | text => Json.isString
  | number => Json.isNumber
  | texts => Json.isArrayOf Json.isString

/-- The values that the reader of the type knows: to it a truth value is a number. -/
def reads : FieldType → Json → Bool
  | number => fun value => value.isNumber || value.isBoolean
  | type => type.admits

theorem reads_of_admits {type : FieldType} {value : Json} (h : type.admits value = true) :
    type.reads value = true := by
  cases type with
  | number =>
      rw [reads, Bool.or_eq_true]
      exact Or.inl h
  | text => exact h
  | texts => exact h

end FieldType

/-- The fields of a reference that are read. -/
def referenceFields (isTargetMethod isWrapperMethod : Bool) : List (Text × FieldType) :=
  [(text "assembly", .text), (text "type", .text), (text "method", .text)] ++
  if isTargetMethod then
    [(text "minimum_major", .number), (text "minimum_minor", .number),
      (text "minimum_patch", .number), (text "maximum_major", .number),
      (text "maximum_minor", .number), (text "maximum_patch", .number),
      (text "signature_types", .texts)]
  else if isWrapperMethod then [(text "action", .text)]
  else []

end Fields

section Raises

/-- A field of the reference has a type that its reader does not know. -/
def RaisesReference (isTargetMethod isWrapperMethod : Bool) : Json → Prop
  | .object members =>
      ∃ field ∈ referenceFields isTargetMethod isWrapperMethod,
        Misread field.2.reads members field.1
  | _ => False

/-- The reference that a replacement has under a key. -/
def referenceAt (members : List (Text × Json)) (key : String) : Json :=
  (members.lookup (text key)).getD (.object [])

def RaisesReplacement : Json → Prop
  | .object members =>
      RaisesReference false false (referenceAt members "caller") ∨
        RaisesReference true false (referenceAt members "target") ∨
        RaisesReference false true (referenceAt members "wrapper")
  | _ => False

/-- The element is an object with a name that is not empty. -/
def Json.IsNamed : Json → Prop
  | .object members => ∃ name, members.lookup (text "name") = some (.string name) ∧
      toWSTRING name ≠ []
  | _ => False

/-- The replacements of a definition. -/
def Json.replacements : Json → List Json
  | .object members =>
      match members.lookup (text "method_replacements") with
      | some (.array elements) => elements
      | _ => []
  | _ => []

/-- The name is no text, or a field of a replacement has a type that its reader does not know. -/
def Raises (element : Json) : Prop :=
  (∃ members, element = .object members ∧ Misread Json.isString members (text "name")) ∨
    (element.IsNamed ∧ ∃ replacement ∈ element.replacements, RaisesReplacement replacement)

end Raises

section WellTyped

/-- All fields that are there have the type that they should have. -/
def WellTypedReference (isTargetMethod isWrapperMethod : Bool) : Json → Prop
  | .object members =>
      (∀ field ∈ referenceFields isTargetMethod isWrapperMethod,
        ¬ Misread field.2.admits members field.1) ∧
        ¬ Misread (fun value => value.isString || Json.isArrayOf Json.isNumber value) members
          (text "signature")
  | _ => False

def WellTypedReplacement : Json → Prop
  | .object members =>
      WellTypedReference false false (referenceAt members "caller") ∧
        WellTypedReference true false (referenceAt members "target") ∧
        WellTypedReference false true (referenceAt members "wrapper")
  | _ => False

/-- An object with a name that is not empty and well-typed fields only. -/
def IsGood (element : Json) : Prop :=
  element.IsNamed ∧
    (∀ members, element = .object members →
      ¬ Misread (Json.isArrayOf fun _ => true) members (text "method_replacements")) ∧
    ∀ replacement ∈ element.replacements, WellTypedReplacement replacement

theorem not_raisesReference_of_wellTyped {isTargetMethod isWrapperMethod : Bool} {src : Json}
    (h : WellTypedReference isTargetMethod isWrapperMethod src) :
    ¬ RaisesReference isTargetMethod isWrapperMethod src := by
  cases src with
  | object members =>
      rintro ⟨field, hfield, value, hvalue, hrefused⟩
      apply h.1 field hfield
      refine ⟨value, hvalue, Bool.eq_false_iff.mpr fun hadmits => ?_⟩
      rw [FieldType.reads_of_admits hadmits] at hrefused
      cases hrefused
  | _ => exact id

theorem not_raises_of_isGood {element : Json} (h : IsGood element) : ¬ Raises element := by
  obtain ⟨hnamed, -, hreplacements⟩ := h
  rintro (⟨members, rfl, value, hvalue, hrefused⟩ | ⟨-, replacement, hmem, hraises⟩)
  · obtain ⟨name, hname, -⟩ := hnamed
    rw [hname, Option.some.injEq] at hvalue
    subst hvalue
    cases hrefused
  · have hwell := hreplacements replacement hmem
    cases replacement with
    | object members =>
        obtain ⟨hcaller, htarget, hwrapper⟩ := hwell
        rcases hraises with hraises | hraises | hraises
        · exact not_raisesReference_of_wellTyped hcaller hraises
        · exact not_raisesReference_of_wellTyped htarget hraises
        · exact not_raisesReference_of_wellTyped hwrapper hraises
    | _ => exact hwell

end WellTyped

section Readers

variable {castFloat : UInt64 → UInt16} {members : List (Text × Json)} {key : Text}

theorem fails_stringValue_iff :
    Fails (stringValue members key) ↔ Misread FieldType.text.reads members key := by
  rw [stringValue, Misread]
  cases members.lookup key with
  | none => simp [not_fails_ok]
  | some value => cases value <;> simp [not_fails_ok, fails_error, FieldType.reads,
      FieldType.admits, Json.isString]

theorem fails_versionPart_iff {default : UInt16} :
    Fails (versionPart castFloat members key default) ↔
      Misread FieldType.number.reads members key := by
  rw [versionPart, Misread]
  cases members.lookup key with
  | none => simp [not_fails_ok]
  | some value => cases value <;> simp [getUShort, not_fails_ok, fails_error, FieldType.reads,
      Json.isNumber, Json.isBoolean]

theorem fails_getStrings_iff {value : Json} :
    Fails (getStrings value) ↔ FieldType.texts.reads value = false := by
  cases value with
  | array elements =>
      rw [getStrings, fails_mapM_iff, FieldType.reads, FieldType.admits, Json.isArrayOf,
        List.all_eq_false]
      · apply exists_congr
        intro element
        apply and_congr_right
        intro _
        cases element <;> simp [not_fails_ok, fails_error, Json.isString]
      · simp
  | _ => exact iff_of_true (fails_error _) rfl

theorem fails_signatureTypesOf_iff :
    Fails (signatureTypesOf members) ↔
      Misread FieldType.texts.reads members (text "signature_types") := by
  rw [signatureTypesOf, Misread]
  cases members.lookup (text "signature_types") with
  | none => simp [not_fails_ok]
  | some value => simp [fails_getStrings_iff]

theorem fails_targetFields_iff :
    Fails (targetFields castFloat members) ↔
      ∃ field ∈ (referenceFields true false).drop 3, Misread field.2.reads members field.1 := by
  rw [targetFields]
  refine (fails_bind_iff fun _ => fails_bind_iff fun _ => fails_bind_iff fun _ =>
    fails_bind_iff fun _ => fails_bind_iff fun _ => fails_bind_iff fun _ =>
      fails_bind_iff fun _ => iff_false_intro (not_fails_pure _)).trans ?_
  simp [fails_versionPart_iff, fails_signatureTypesOf_iff, referenceFields]

end Readers

section Loader

variable {castFloat : UInt64 → UInt16} {parse : Text → AssemblyReference}

theorem fails_methodReferenceFromJson_iff {src : Json} {isTargetMethod isWrapperMethod : Bool} :
    Fails (methodReferenceFromJson castFloat parse src isTargetMethod isWrapperMethod) ↔
      RaisesReference isTargetMethod isWrapperMethod src := by
  cases src with
  | object members =>
      rw [methodReferenceFromJson, RaisesReference]
      refine (fails_bind_iff fun _ => fails_bind_iff fun _ => fails_bind_iff fun _ =>
        fails_bind_iff fun _ => fails_bind_iff fun _ =>
          iff_false_intro (not_fails_pure _)).trans ?_
      simp only [fails_stringValue_iff]
      cases isTargetMethod with
      | true =>
          rw [if_pos rfl, fails_targetFields_iff, if_neg (by simp)]
          simp [referenceFields, not_fails_pure]
      | false =>
          cases isWrapperMethod with
          | true => simp [referenceFields, not_fails_pure, fails_stringValue_iff]
          | false => simp [referenceFields, not_fails_pure]
  | _ => exact iff_of_false (not_fails_pure _) id

theorem fails_methodReplacementFromJson_iff {src : Json} :
    Fails (methodReplacementFromJson castFloat parse src) ↔ RaisesReplacement src := by
  cases src with
  | object members =>
      rw [methodReplacementFromJson]
      refine (fails_bind_iff fun _ => fails_bind_iff fun _ => fails_bind_iff fun _ =>
        iff_false_intro (not_fails_pure _)).trans ?_
      simp only [fails_methodReferenceFromJson_iff, or_false]
      rfl
  | _ => exact iff_of_false (not_fails_pure _) id

theorem fails_replacementsFromJson_iff {members : List (Text × Json)} :
    Fails (replacementsFromJson castFloat parse members) ↔
      ∃ replacement ∈ (Json.object members).replacements, RaisesReplacement replacement := by
  rw [replacementsFromJson, Json.replacements]
  cases members.lookup (text "method_replacements") with
  | none => simp [not_fails_pure]
  | some value =>
      cases value with
      | array elements => simp [fails_mapM_iff, fails_methodReplacementFromJson_iff]
      | _ => simp [not_fails_ok]

/-- A definition with a name is read to its end, unless one of its replacements raises. -/
theorem integrationFromJson_of_named {members : List (Text × Json)} {name : Text}
    (hname : members.lookup (text "name") = some (.string name)) (hne : toWSTRING name ≠ []) :
    integrationFromJson castFloat parse (.object members) =
      replacementsFromJson castFloat parse members >>= fun replacements =>
        pure (some ⟨toWSTRING name, replacements.filterMap id⟩) := by
  rw [integrationFromJson, stringValue, hname]
  exact if_neg hne

theorem fails_integrationFromJson_of_named_iff {members : List (Text × Json)}
    (hnamed : (Json.object members).IsNamed) :
    Fails (integrationFromJson castFloat parse (.object members)) ↔
      ∃ replacement ∈ (Json.object members).replacements, RaisesReplacement replacement := by
  obtain ⟨name, hname, hne⟩ := hnamed
  rw [integrationFromJson_of_named hname hne,
    fails_bind_iff fun _ => iff_false_intro (not_fails_pure _), or_false,
    fails_replacementsFromJson_iff]

/-- Of a definition without a name only the name is read. -/
theorem fails_integrationFromJson_of_not_named_iff {members : List (Text × Json)}
    (hnamed : ¬ (Json.object members).IsNamed) :
    Fails (integrationFromJson castFloat parse (.object members)) ↔
      Misread Json.isString members (text "name") := by
  rw [integrationFromJson, Misread, stringValue]
  cases hname : members.lookup (text "name") with
  | none => exact iff_of_false (not_fails_pure _) (by simp)
  | some value =>
      cases value with
      | string name =>
          have hempty : toWSTRING name = [] := by
            by_contra hne
            exact hnamed ⟨name, hname, hne⟩
          apply iff_of_false
          · change ¬ Fails (if toWSTRING name = [] then pure none else _)
            rw [if_pos hempty]
            exact not_fails_pure _
          · simp [Json.isString]
      | _ => exact iff_of_true (fails_error _) ⟨_, rfl, rfl⟩

theorem fails_integrationFromJson_iff {element : Json} :
    Fails (integrationFromJson castFloat parse element) ↔ Raises element := by
  cases element with
  | object members =>
      by_cases hnamed : (Json.object members).IsNamed
      · have hread : ¬ Misread Json.isString members (text "name") := by
          rintro ⟨value, hvalue, hrefused⟩
          obtain ⟨name, hname, -⟩ := hnamed
          rw [hname, Option.some.injEq] at hvalue
          subst hvalue
          cases hrefused
        rw [fails_integrationFromJson_of_named_iff hnamed, Raises]
        simp [hnamed, hread]
      · rw [fails_integrationFromJson_of_not_named_iff hnamed, Raises]
        simp [hnamed]
  | _ => exact iff_of_false (not_fails_pure _) (by simp [Raises, Json.IsNamed])

theorem exists_integration_of_isGood {element : Json} (h : IsGood element) :
    ∃ i, integrationFromJson castFloat parse element = .ok (some i) := by
  have hread : ¬ Fails (integrationFromJson castFloat parse element) := by
    rw [fails_integrationFromJson_iff]
    exact not_raises_of_isGood h
  cases element with
  | object members =>
      obtain ⟨⟨name, hname, hne⟩, -⟩ := h
      rw [integrationFromJson_of_named hname hne] at hread ⊢
      cases hreplacements : replacementsFromJson castFloat parse members with
      | error e =>
          rw [hreplacements] at hread
          exact absurd (fails_error e) hread
      | ok replacements => exact ⟨_, rfl⟩
  | _ => exact h.1.elim

end Loader

section Homomorphism

variable (castFloat : UInt64 → UInt16) (parse : Text → AssemblyReference)

/-- The integrations of an array of definitions. -/
def loadArray (elements : List Json) : List Integration :=
  loadIntegrationsFromStream castFloat parse (some (.array elements))

/-- Each good definition gives, in its place, what it gives alone. -/
def LoadsEach (elements : List Json) : Prop :=
  ∀ before element behind, elements = before ++ element :: behind → IsGood element →
    ∃ i, loadArray castFloat parse [element] = [i] ∧
      loadArray castFloat parse elements =
        loadArray castFloat parse before ++ i :: loadArray castFloat parse behind

theorem loadsEach_iff (elements : List Json) :
    LoadsEach castFloat parse elements ↔
      ∀ before element behind, elements = before ++ element :: behind → IsGood element →
        ∀ earlier ∈ before, ¬ Raises earlier := by
  apply forall₃_congr
  intro before element behind
  apply forall₂_congr
  rintro rfl hgood
  obtain ⟨i, hi⟩ := @exists_integration_of_isGood castFloat parse _ hgood
  have halone : loadArray castFloat parse [element] = [i] := by
    change collect _ [element] = [i]
    rw [collect, hi]
    rfl
  simp only [halone, List.cons.injEq, and_true, exists_eq_left',
    ← @fails_integrationFromJson_iff castFloat parse]
  exact collect_middle_iff hi

end Homomorphism

/-- A name that is a number turns off the definition behind it. -/
theorem not_loadsEach :
    ¬ LoadsEach (fun _ => 0) Windows.parse
      [.object [(text "name", .unsigned 5)], .object [(text "name", .string (text "A"))]] := by
  intro h
  have hgood : IsGood (.object [(text "name", .string (text "A"))]) := by
    refine ⟨⟨text "A", rfl, by decide⟩, ?_, ?_⟩
    · rintro members hmembers ⟨value, hvalue, -⟩
      obtain rfl := Json.object.inj hmembers
      cases hvalue
    · intro replacement hmem
      cases hmem
  obtain ⟨i, -, hload⟩ := h [.object [(text "name", .unsigned 5)]] _ [] rfl hgood
  change [] = [] ++ i :: _ at hload
  cases hload

end SignalFxTracing.Metadata
