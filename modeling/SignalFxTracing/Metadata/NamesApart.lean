import Mathlib.Data.List.Nodup
import SignalFxTracing.Metadata.SignatureNames
import Mathlib.Data.List.Forall2
import Mathlib.Logic.Function.Iterate

/-!
# One name for each type, and different names for different types

The names of a signature select the methods that are instrumented. They do
when each is the name of its type alone, and when the name tells the type up
to its type variables, the choice between `CLASS` and `VALUETYPE`, and tokens
of one full name.

## Implementation notes

The rules of `Confused` are what a name leaves open: the array that a pair of
brackets belongs to, the types around a generic type, and whether a token has
the name of another kind of type.
-/

namespace SignalFxTracing.Metadata

open Clr Lib

variable (metadata : MetadataImport)

/-- A type up to what its name does not have to tell. -/
def TypeTree.shape (t : SigType) : TypeTree Text Unit fun _ => False :=
  t.map (fun name => metadata.typeName name.mdToken) fun _ => ()

/-- The function returns false, or the names are those of the types alone, in order, and none is
empty. -/
def NamesEach (m : SigMethod) : Prop :=
  tryParseSignatureTypes metadata m.encode = .error .refused ∨
    ∃ names, tryParseSignatureTypes metadata m.encode = .ok names ∧
      List.Forall₂
        (fun t name => tryParseSignatureTypes metadata (SigMethod.ofType t).encode = .ok [name])
        m.types names ∧ [] ∉ names

/-- Two types with one name have one shape. -/
def NamedApart (t u : SigType) : Prop :=
  ∀ name, tryParseSignatureTypes metadata (SigMethod.ofType t).encode = .ok [name] →
    tryParseSignatureTypes metadata (SigMethod.ofType u).encode = .ok [name] →
      t.shape metadata = u.shape metadata

/-- No type of a signature is a token for which the metadata has no name. -/
def EachNamed (m : SigMethod) : Prop :=
  ∀ name, .named name ∈ m.types → metadata.typeName name.mdToken ≠ []

/-- Types that differ only in what is lost in a name. -/
inductive Confused : SigType → SigType → Prop
  | refl (t : SigType) : Confused t t
  | symm {t u : SigType} (h : Confused t u) : Confused u t
  | trans {t u v : SigType} (h : Confused t u) (h' : Confused u v) : Confused t v
  | szArray {t u : SigType} (h : Confused t u) : Confused (.szArray t) (.szArray u)
  | arg {name : TypeToken} {t u : SigType} {args : List SigType} (h : Confused t u) :
      Confused (.genericInst name t args) (.genericInst name u args)
  | args {name : TypeToken} {arg t u : SigType} {before behind : List SigType}
      (h : Confused t u) :
      Confused (.genericInst name arg (before ++ t :: behind))
        (.genericInst name arg (before ++ u :: behind))
  /-- The brackets of an array of a generic type go to the first argument. -/
  | arrayOfGeneric (name : TypeToken) (arg : SigType) (args : List SigType) :
      Confused (.szArray (.genericInst name arg args)) (.genericInst name (.szArray arg) args)
  /-- A generic type is named without the types that enclose it. -/
  | openName {name name' : TypeToken} (arg : SigType) (args : List SigType)
      (h : (metadata.reportedType name.mdToken).name = (metadata.reportedType name'.mdToken).name) :
      Confused (.genericInst name arg args) (.genericInst name' arg args)
  | var (v v' : TypeVariable) : Confused (.var v) (.var v')
  | named {name name' : TypeToken}
      (h : metadata.typeName name.mdToken = metadata.typeName name'.mdToken) :
      Confused (.named name) (.named name')
  | namedBasic {name : TypeToken} {b : {b // b ∈ basicTypes}}
      (h : metadata.typeName name.mdToken = basicName b) :
      Confused (.named name) (.basic b)
  | namedVar {name : TypeToken} (v : TypeVariable)
      (h : metadata.typeName name.mdToken = text "T") :
      Confused (.named name) (.var v)

section Trees

theorem TypeTree.codeTreeAll_append (ts us : List SigType) :
    codeTreeAll metadata (ts ++ us) = codeTreeAll metadata ts ++ codeTreeAll metadata us := by
  induction ts with
  | nil => rfl
  | cons t ts ih => simp only [List.cons_append, codeTreeAll, ih]

/-- Each rule keeps the tree, whatever arrays are around the types. -/
theorem Confused.codeTree_eq {t u : SigType} (h : Confused metadata t u) (pending : Nat) :
    t.codeTree metadata pending = u.codeTree metadata pending := by
  induction h generalizing pending with
  | refl => rfl
  | symm _ ih => exact (ih pending).symm
  | trans _ _ ih ih' => exact (ih pending).trans (ih' pending)
  | szArray _ ih => exact ih (pending + 1)
  | arg _ ih => simp only [TypeTree.codeTree, ih pending]
  | args _ ih =>
      simp only [TypeTree.codeTree, TypeTree.codeTreeAll_append, TypeTree.codeTreeAll, ih 0]
  | arrayOfGeneric => rfl
  | openName _ _ h => simp only [TypeTree.codeTree, h]
  | var => rfl
  | named h => simp only [TypeTree.codeTree, h]
  | namedBasic h => simp only [TypeTree.codeTree, h]
  | namedVar _ h => simp only [TypeTree.codeTree, h]

/-- Arrays around a type. -/
def arrays (n : Nat) (t : SigType) : SigType := TypeTree.szArray^[n] t

theorem arrays_szArray (n : Nat) (t : SigType) : arrays n (.szArray t) = arrays (n + 1) t := rfl

theorem Confused.arrays {t u : SigType} (h : Confused metadata t u) (n : Nat) :
    Confused metadata (arrays n t) (arrays n u) := by
  induction n generalizing t u with
  | zero => exact h
  | succ n ih => exact ih h.szArray

/-- The brackets of any number of arrays move to the first argument. -/
theorem confused_arrays_genericInst (n : Nat) (name : TypeToken) (arg : SigType)
    (args : List SigType) :
    Confused metadata (arrays n (.genericInst name arg args))
      (.genericInst name (arrays n arg) args) := by
  induction n generalizing arg with
  | zero => exact .refl _
  | succ n ih => exact ((Confused.arrayOfGeneric name arg args).arrays metadata n).trans (ih _)

/-- Other arguments behind the first, one after another. -/
theorem confused_args {name : TypeToken} {arg : SigType} (before : List SigType)
    {args args' : List SigType}
    (h : ∀ t ∈ args, ∀ u, t.codeTree metadata 0 = u.codeTree metadata 0 → Confused metadata t u)
    (hargs : TypeTree.codeTreeAll metadata args = TypeTree.codeTreeAll metadata args') :
    Confused metadata (.genericInst name arg (before ++ args))
      (.genericInst name arg (before ++ args')) := by
  induction args generalizing before args' with
  | nil =>
      cases args' with
      | nil => exact .refl _
      | cons u args' => cases hargs
  | cons t args ih =>
      cases args' with
      | nil => cases hargs
      | cons u args' =>
          obtain ⟨htree, htrees⟩ := List.cons.inj hargs
          have htail := ih (before ++ [u])
            (fun t ht => h t (List.mem_cons_of_mem _ ht)) htrees
          rw [List.append_assoc, List.append_assoc] at htail
          exact (Confused.args (h t List.mem_cons_self u htree)).trans htail

/-- A leaf has the tree of another type only by its name. -/
theorem confused_leaf {t : SigType} {name : Text} {n : Nat}
    (hleaf : ∀ u : SigType, ∀ m, u.codeTree metadata m = .leaf name m →
      (∀ v, u ≠ .szArray v) → Confused metadata t u) {u : SigType} {m : Nat}
    (h : u.codeTree metadata m = .leaf name n) :
    Confused metadata (arrays n t) (arrays m u) := by
  induction u using TypeTree.induct generalizing m with
  | hbasic b =>
      obtain ⟨rfl, rfl⟩ := NameTree.leaf.inj h
      exact (hleaf _ m rfl fun _ hszArray => by cases hszArray).arrays metadata m
  | hnamed name =>
      obtain ⟨rfl, rfl⟩ := NameTree.leaf.inj h
      exact (hleaf _ m rfl fun _ hszArray => by cases hszArray).arrays metadata m
  | hvar v =>
      obtain ⟨rfl, rfl⟩ := NameTree.leaf.inj h
      exact (hleaf _ m rfl fun _ hszArray => by cases hszArray).arrays metadata m
  | harray _ bounds => exact bounds.2.elim
  | hszArray u ih =>
      rw [arrays_szArray]
      exact ih h
  | hgenericInst name arg args => cases h

theorem confused_of_codeTree_eq {t u : SigType} {n m : Nat}
    (h : t.codeTree metadata n = u.codeTree metadata m) :
    Confused metadata (arrays n t) (arrays m u) := by
  have hbasics : ∀ b ∈ basicTypes, ∀ b' ∈ basicTypes, basicName b = basicName b' → b = b' := by
    have hnodup : (basicTypes.map basicName).Nodup := by decide
    intro b hb b' hb' heq
    exact List.inj_on_of_nodup_map hnodup hb hb' heq
  have hvars : ∀ b ∈ basicTypes, basicName b ≠ text "T" := forall_basicTypes (by decide)
  induction t using TypeTree.induct generalizing u n m with
  | hbasic b =>
      refine confused_leaf metadata (fun u m hu hszArray => ?_) h.symm
      cases u with
      | basic b' =>
          have hb := hbasics b'.1 b'.2 b.1 b.2 (NameTree.leaf.inj hu).1
          rw [Subtype.ext hb]
          exact .refl _
      | named name => exact (Confused.namedBasic (NameTree.leaf.inj hu).1).symm
      | var v => exact absurd (NameTree.leaf.inj hu).1.symm (hvars b.1 b.2)
      | szArray u => exact absurd rfl (hszArray u)
      | array u bounds => exact bounds.2.elim
      | genericInst name arg args => cases hu
  | hnamed name =>
      refine confused_leaf metadata (fun u m hu hszArray => ?_) h.symm
      cases u with
      | basic b => exact .namedBasic (NameTree.leaf.inj hu).1.symm
      | named name' => exact .named (NameTree.leaf.inj hu).1.symm
      | var v => exact .namedVar v (NameTree.leaf.inj hu).1.symm
      | szArray u => exact absurd rfl (hszArray u)
      | array u bounds => exact bounds.2.elim
      | genericInst name arg args => cases hu
  | hvar v =>
      refine confused_leaf metadata (fun u m hu hszArray => ?_) h.symm
      cases u with
      | basic b => exact absurd (NameTree.leaf.inj hu).1 (hvars b.1 b.2)
      | named name => exact (Confused.namedVar v (NameTree.leaf.inj hu).1).symm
      | var v' => exact .var v v'
      | szArray u => exact absurd rfl (hszArray u)
      | array u bounds => exact bounds.2.elim
      | genericInst name arg args => cases hu
  | harray _ bounds => exact bounds.2.elim
  | hszArray t ih =>
      rw [arrays_szArray]
      exact ih h
  | hgenericInst name arg args iharg ihargs =>
      induction u using TypeTree.induct generalizing m with
      | hbasic b => cases h
      | hnamed name => cases h
      | hvar v => cases h
      | harray _ bounds => exact bounds.2.elim
      | hszArray u ih =>
          rw [arrays_szArray]
          exact ih h
      | hgenericInst name' arg' args' =>
          obtain ⟨hname, harg, hargs⟩ := NameTree.node.inj h
          refine (confused_arrays_genericInst metadata n name arg args).trans ?_
          refine Confused.trans ?_ (confused_arrays_genericInst metadata m name' arg' args').symm
          refine (Confused.openName _ _ hname).trans ?_
          refine (Confused.arg (iharg harg)).trans ?_
          exact confused_args metadata [] (fun t ht u => ihargs t ht) hargs

/-- Two types have one tree when only what is lost in a name tells them apart. -/
theorem codeTree_eq_iff {t u : SigType} :
    t.codeTree metadata 0 = u.codeTree metadata 0 ↔ Confused metadata t u := by
  constructor
  · exact fun h => confused_of_codeTree_eq metadata h
  · exact fun h => h.codeTree_eq metadata 0

end Trees

section Plain

namespace TypeTree

mutual

/-- The names in a type can be told from the brackets and commas around them. -/
def PlainNames : SigType → Prop
  | basic _ => True
  | named name =>
      NameTree.plainFrom 0 false (metadata.typeName name.mdToken) = true
  | var _ => True
  | szArray t => PlainNames t
  | array _ bounds => (not_bounds bounds).elim
  | genericInst name arg args =>
      NameTree.plainFrom 0 false (metadata.reportedType name.mdToken).name = true ∧
        NameTree.endsInDigit false (metadata.reportedType name.mdToken).name = true ∧
        PlainNames arg ∧ AllPlainNames args

def AllPlainNames : List SigType → Prop
  | [] => True
  | t :: ts => PlainNames t ∧ AllPlainNames ts

end

theorem allPlain_codeTreeAll {ts : List SigType} (h : AllPlainNames metadata ts)
    (ih : ∀ t ∈ ts, PlainNames metadata t → (t.codeTree metadata 0).Plain) :
    NameTree.AllPlain (codeTreeAll metadata ts) := by
  induction ts with
  | nil => trivial
  | cons t ts ihts =>
      rw [List.forall_mem_cons] at ih
      exact ⟨ih.1 h.1, ihts h.2 ih.2⟩

theorem plain_codeTree {t : SigType} (h : t.PlainNames metadata) (pending : Nat) :
    (t.codeTree metadata pending).Plain := by
  induction t using TypeTree.induct generalizing pending with
  | hbasic b =>
      have hplain : ∀ b ∈ basicTypes, NameTree.plainFrom 0 false (basicName b) = true :=
        forall_basicTypes (by decide)
      exact hplain b.1 b.2
  | hnamed name => exact h
  | hvar v =>
      have hplain : NameTree.plainFrom 0 false (text "T") = true := by decide
      exact hplain
  | harray _ bounds => exact bounds.2.elim
  | hszArray t ih => exact ih h (pending + 1)
  | hgenericInst name arg args iharg ihargs =>
      rw [PlainNames] at h
      obtain ⟨hname, hdigit, harg, hargs⟩ := h
      exact ⟨hname, hdigit, iharg harg pending,
        allPlain_codeTreeAll metadata hargs fun t ht hplain => ihargs t ht hplain 0⟩

end TypeTree

end Plain

section Names

theorem codeTree_eq_nil {t : SigType} {pending : Nat}
    (h : (t.codeTree metadata pending).render = []) :
    ∃ name, t = .named name ∧ metadata.typeName name.mdToken = [] := by
  induction t using TypeTree.induct generalizing pending with
  | hbasic b =>
      have hnames : ∀ b ∈ basicTypes, basicName b ≠ [] := forall_basicTypes (by decide)
      exact absurd (List.append_eq_nil_iff.mp h).1 (hnames b b.2)
  | hnamed name => exact ⟨name, rfl, (List.append_eq_nil_iff.mp h).1⟩
  | hvar v => exact absurd (List.append_eq_nil_iff.mp h).1 (by decide)
  | harray _ bounds => exact bounds.2.elim
  | hszArray t ih =>
      obtain ⟨name, rfl, hname⟩ := ih h
      have hsquares := (List.append_eq_nil_iff.mp h).2
      exact absurd hsquares (by simp [NameTree.squares, List.replicate_succ])
  | hgenericInst name arg args =>
      exact absurd (List.append_eq_nil_iff.mp h).2 (List.cons_ne_nil _ _)

/-- Only a token without a name has an empty name. -/
theorem eachNamed_iff {m : SigMethod} :
    EachNamed metadata m ↔ [] ∉ m.types.map (TypeTree.codeName metadata) := by
  constructor
  · intro h hmem
    obtain ⟨t, ht, hname⟩ := List.mem_map.mp hmem
    obtain ⟨name, rfl, hempty⟩ := codeTree_eq_nil metadata hname
    exact h name ht hempty
  · intro h name ht hempty
    refine h (List.mem_map.mpr ⟨.named name, ht, ?_⟩)
    simp [TypeTree.codeName, TypeTree.codeTree, NameTree.render, hempty, NameTree.squares]

/-- The types of a signature that is read completely get their names alone as well. -/
theorem forall₂_codeName {ts : List SigType} (h : ∀ t ∈ ts, t.reading metadata = .complete) :
    List.Forall₂
      (fun t name => tryParseSignatureTypes metadata (SigMethod.ofType t).encode = .ok [name])
      ts (ts.map (TypeTree.codeName metadata)) := by
  rw [List.forall₂_map_right_iff, List.forall₂_same]
  intro t ht
  exact tryParseSignatureTypes_ofType_complete metadata (h t ht)

theorem namesEach_iff {m : SigMethod} (h : m.reading metadata ≠ .lost) :
    NamesEach metadata m ↔
      m.reading metadata = .failed ∨ m.reading metadata = .complete ∧ EachNamed metadata m := by
  rw [NamesEach]
  cases hreading : m.reading metadata with
  | lost => exact absurd hreading h
  | failed =>
      have hstop : m.reading metadata = ParseStop.refused.reading := hreading
      exact iff_of_true (Or.inl (tryParseSignatureTypes_of_stop metadata hstop)) (Or.inl rfl)
  | undefined =>
      have hstop : m.reading metadata = ParseStop.stuck.reading := hreading
      rw [tryParseSignatureTypes_of_stop metadata hstop]
      simp
  | complete =>
      have hparse := tryParseSignatureTypes_of_complete metadata hreading
      have htypes : ∀ t ∈ m.types, t.reading metadata = .complete := by
        rw [SigMethod.reading] at hreading
        split_ifs at hreading
        exact (TypeTree.readingAll_eq_complete metadata).mp hreading
      rw [eachNamed_iff, hparse]
      constructor
      · rintro (hrefused | ⟨names, hnames, -, hempty⟩)
        · cases hrefused
        · obtain rfl := Except.ok.inj hnames
          exact Or.inr ⟨rfl, hempty⟩
      · rintro (hfailed | ⟨-, hnamed⟩)
        · cases hfailed
        · exact Or.inr ⟨_, rfl, forall₂_codeName metadata htypes, hnamed⟩

/-- The loop stops at a type that is neither lost nor read completely. -/
theorem exists_stop {t : SigType} (hlost : t.reading metadata ≠ .lost)
    (hcomplete : t.reading metadata ≠ .complete) :
    ∃ stop : ParseStop, t.reading metadata = stop.reading := by
  cases hreading : t.reading metadata with
  | complete => exact absurd hreading hcomplete
  | failed => exact ⟨.refused, rfl⟩
  | undefined => exact ⟨.stuck, rfl⟩
  | lost => exact absurd hreading hlost

theorem namedApart_iff {t u : SigType} (ht : t.reading metadata ≠ .lost)
    (hu : u.reading metadata ≠ .lost) (htPlain : t.PlainNames metadata)
    (huPlain : u.PlainNames metadata) :
    NamedApart metadata t u ↔
      t.reading metadata ≠ .complete ∨ u.reading metadata ≠ .complete ∨
        (Confused metadata t u → t.shape metadata = u.shape metadata) := by
  by_cases htreading : t.reading metadata = .complete
  swap
  · obtain ⟨stop, hstop⟩ := exists_stop metadata ht htreading
    refine iff_of_true (fun name htname => ?_) (Or.inl htreading)
    rw [tryParseSignatureTypes_ofType_stop metadata hstop] at htname
    cases htname
  by_cases hureading : u.reading metadata = .complete
  swap
  · obtain ⟨stop, hstop⟩ := exists_stop metadata hu hureading
    refine iff_of_true (fun name _ huname => ?_) (Or.inr (Or.inl hureading))
    rw [tryParseSignatureTypes_ofType_stop metadata hstop] at huname
    cases huname
  have htree : t.codeName metadata = u.codeName metadata ↔ Confused metadata t u := by
    rw [← codeTree_eq_iff]
    constructor
    · exact NameTree.render_injective (TypeTree.plain_codeTree metadata htPlain 0)
        (TypeTree.plain_codeTree metadata huPlain 0)
    · exact fun h => congrArg NameTree.render h
  rw [← htree, NamedApart, tryParseSignatureTypes_ofType_complete metadata htreading,
    tryParseSignatureTypes_ofType_complete metadata hureading]
  constructor
  · intro h
    refine Or.inr (Or.inr fun hname => h (t.codeName metadata) rfl ?_)
    rw [hname]
  · rintro (hstops | hstops | h) name htname huname
    · exact absurd htreading hstops
    · exact absurd hureading hstops
    · obtain rfl := List.singleton_inj.mp (Except.ok.inj htname)
      exact h (List.singleton_inj.mp (Except.ok.inj huname)).symm

/-- A signature gets one name for each of its types, and two types get different names, exactly
when every search for a name has a result, each token alone has a name and the types differ in
more than what is lost in a name. -/
theorem signatureNames_iff {m : SigMethod} {t u : SigType} (hm : m.reading metadata ≠ .lost)
    (ht : t.reading metadata ≠ .lost) (hu : u.reading metadata ≠ .lost)
    (htPlain : t.PlainNames metadata) (huPlain : u.PlainNames metadata) :
    NamesEach metadata m ∧ NamedApart metadata t u ↔
      (m.reading metadata = .failed ∨ m.reading metadata = .complete ∧ EachNamed metadata m) ∧
        (t.reading metadata ≠ .complete ∨ u.reading metadata ≠ .complete ∨
          (Confused metadata t u → t.shape metadata = u.shape metadata)) := by
  rw [namesEach_iff metadata hm, namedApart_iff metadata ht hu htPlain huPlain]

end Names

section Lists

/-- Metadata in which every type reference is to `List`. -/
def listMetadata : MetadataImport :=
  { MetadataImport.empty with
    getTypeRefProps _ := some (text "System.Collections.Generic.List`1") }

def int32 : SigType := .basic ⟨ELEMENT_TYPE_I4, mem_basicTypes_i4⟩

def listOf (t : SigType) : SigType := .genericInst ⟨false, 5⟩ t []

def arrayOfLists : SigType := .szArray (listOf int32)

def listOfArrays : SigType := listOf (.szArray int32)

/-- A method that takes an array of lists and returns a list of arrays. -/
def listMethod : SigMethod where
  convention := 0
  typeParameters := 0
  convention_generic := default_not_generic
  ret := listOfArrays
  params := [arrayOfLists]

theorem signatureNames_listMethod :
    NamesEach listMetadata listMethod ∧ NamedApart listMetadata listOfArrays int32 := by
  have hplain : listOfArrays.PlainNames listMetadata :=
    ⟨by decide +kernel, by decide +kernel, trivial, trivial⟩
  have hnamed : EachNamed listMetadata listMethod := by
    simp [EachNamed, listMethod, SigMethod.types, listOfArrays, arrayOfLists, listOf]
  have happart : ¬ Confused listMetadata listOfArrays int32 := by
    intro h
    cases h.codeTree_eq listMetadata 0
  exact (signatureNames_iff listMetadata (m := listMethod) (t := listOfArrays) (u := int32)
    (by decide +kernel) (by decide +kernel) (by decide +kernel) hplain trivial).mpr
      ⟨Or.inr ⟨by decide +kernel, hnamed⟩, Or.inr (Or.inr fun h => absurd h happart)⟩

theorem not_namedApart_lists :
    ¬ (NamesEach listMetadata listMethod ∧
      NamedApart listMetadata arrayOfLists listOfArrays) := by
  rintro ⟨-, h⟩
  have hshape := h (text "System.Collections.Generic.List`1<System.Int32[]>")
    (by decide +kernel) (by decide +kernel)
  cases hshape

end Lists

end SignalFxTracing.Metadata
