import SignalFxTracing.OpenTracing.TextMap
import SignalFxTracing.Propagation.B3RoundTrip
import SignalFxTracing.Propagation.W3CPassThrough
import Mathlib.Data.List.AList

/-!
# Headers in a dictionary (`DictionaryHeadersCollection.cs`)

The collection holds a list of values under each name. Its dictionary compares
names through a key, for which `StringComparer.OrdinalIgnoreCase` takes the
name in upper case. The delegates of the collection do for a propagator what it
assumes exactly where the keys tell the names of its headers apart.
-/

namespace SignalFxTracing.Propagation

open Clr

/-- A collection whose dictionary compares names through `key`. -/
structure DictionaryHeadersCollection (key : Text → Text) where
  headers : AList fun _ : Text => List Text

namespace DictionaryHeadersCollection

variable {key : Text → Text}

def create : DictionaryHeadersCollection key := ⟨∅⟩

/-- `GetValues`. -/
def getValues (collection : DictionaryHeadersCollection key) (name : Text) : HeaderValues :=
  match collection.headers.lookup (key name) with
  | some values => HeaderValues.ofList values
  | none => HeaderValues.sharedEmpty

/-- `Remove`. -/
def remove (collection : DictionaryHeadersCollection key) (name : Text) :
    DictionaryHeadersCollection key :=
  ⟨collection.headers.erase (key name)⟩

/-- `Set`. -/
def set (collection : DictionaryHeadersCollection key) (name value : Text) :
    DictionaryHeadersCollection key :=
  ⟨(collection.remove name).headers.insert (key name) [value]⟩

/-- `Add`. -/
def add (collection : DictionaryHeadersCollection key) (name : Text) (values : List Text) :
    DictionaryHeadersCollection key :=
  ⟨collection.headers.insert (key name)
    ((collection.headers.lookup (key name)).getD [] ++ values)⟩

/-- The delegates of the collection. -/
def access : CarrierAccess (DictionaryHeadersCollection key) where
  setter := set
  getter := getValues

theorem getValues_set (collection : DictionaryHeadersCollection key) (name value other : Text) :
    (collection.set name value).getValues other =
      if key other = key name then HeaderValues.ofList [value] else collection.getValues other := by
  rw [getValues, set]
  split_ifs with hkey
  · rw [hkey, AList.lookup_insert]
  · rw [AList.lookup_insert_ne hkey, remove, AList.lookup_erase_ne hkey]
    rfl

theorem values_getValues_add (collection : DictionaryHeadersCollection key) (name : Text)
    (values : List Text) (other : Text) :
    ((collection.add name values).getValues other).values =
      if key other = key name then (collection.getValues other).values ++ values
      else (collection.getValues other).values := by
  rw [getValues, add]
  split_ifs with hkey
  · rw [hkey, AList.lookup_insert, getValues, hkey]
    cases collection.headers.lookup (key name) with
    | none => rfl
    | some held => rfl
  · rw [AList.lookup_insert_ne hkey]
    rfl

/-- The collection keeps headers apart exactly when its dictionary does. -/
theorem access_lawful_iff {names : List Text} :
    (@access key).Lawful names ↔
      ∀ name ∈ names, ∀ other ∈ names, key other = key name → other = name := by
  constructor
  · intro law name hname other hother hkey
    by_contra hne
    have hkept := law.getter_setter_ne create name hname [] other hother hne
    have hset : (@access key).getter (access.setter create name []) other =
        HeaderValues.ofList [[]] := (getValues_set create name [] other).trans (if_pos hkey)
    rw [hset] at hkept
    exact absurd (congrArg HeaderValues.values hkept) (List.cons_ne_nil _ _)
  · intro h
    constructor
    · intro collection name _ value
      change (getValues (set collection name value) name).values = [value]
      rw [getValues_set, if_pos rfl]
      rfl
    · intro collection name hname value other hother hne
      exact (getValues_set collection name value other).trans
        (if_neg fun hkey => hne (h name hname other hother hkey))

/-- Headers whose names have different keys are kept apart. -/
theorem access_lawful {names : List Text} (h : (names.map key).Nodup) :
    (@access key).Lawful names :=
  access_lawful_iff.mpr fun _ hname _ hother hkey =>
    List.inj_on_of_nodup_map h hother hname hkey

end DictionaryHeadersCollection

/-- The key of a name whose case is ignored. -/
def ignoredCase (name : Text) : Text := name.map OpenTracing.toUpperAscii

/-- A collection that ignores case keeps the headers of each propagator apart. -/
theorem dictionaryAccess_lawful :
    (@DictionaryHeadersCollection.access ignoredCase).Lawful B3.b3Headers ∧
      (@DictionaryHeadersCollection.access ignoredCase).Lawful W3C.w3cHeaders :=
  ⟨DictionaryHeadersCollection.access_lawful (by decide),
    DictionaryHeadersCollection.access_lawful (by decide)⟩

end SignalFxTracing.Propagation
