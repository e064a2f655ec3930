import Mathlib.Data.List.Induction
import Mathlib.Data.Set.Basic
import Mathlib.Logic.Function.Basic

/-!
# Caches behind a key

A cache stores what was made for an item under the key of the item. Whether
it serves an item depends on what the key tells about the item: two items
with one key share their entry.
-/

namespace SignalFxTracing.Lib

/-- A table with at most one value for each key. -/
abbrev KeyedCache (Key Value : Type*) := Key → Option Value

namespace KeyedCache

variable {Key Value Item : Type*}

def empty : KeyedCache Key Value := fun _ => none

section Store

variable [DecidableEq Key]

/-- The value of the key, in place of an earlier one. -/
def store (cache : KeyedCache Key Value) (key : Key) (value : Value) : KeyedCache Key Value :=
  Function.update cache key (some value)

@[simp] theorem store_self (cache : KeyedCache Key Value) (key : Key) (value : Value) :
    cache.store key value key = some value :=
  Function.update_self ..

theorem store_of_ne (cache : KeyedCache Key Value) {key other : Key} (value : Value)
    (h : other ≠ key) : cache.store key value other = cache other :=
  Function.update_of_ne h ..

end Store

section Made

variable (keyOf : Item → Key) (requested : Set Item) (made : Item → Value → Prop)

/-- Every entry was made for some requested item with its key. -/
def MadeFor (cache : KeyedCache Key Value) : Prop :=
  ∀ key value, cache key = some value →
    ∃ item ∈ requested, keyOf item = key ∧ made item value

variable {keyOf requested made} {cache : KeyedCache Key Value}

theorem madeFor_empty : MadeFor keyOf requested made empty := by
  intro key value h
  cases h

theorem MadeFor.mono {later : Item → Value → Prop} (h : MadeFor keyOf requested made cache)
    (hlater : ∀ item value, made item value → later item value) :
    MadeFor keyOf requested later cache := by
  intro key value hvalue
  obtain ⟨item, hitem, hkey, hmade⟩ := h key value hvalue
  exact ⟨item, hitem, hkey, hlater item value hmade⟩

theorem MadeFor.store [DecidableEq Key] (h : MadeFor keyOf requested made cache) {item : Item}
    {value : Value} (hitem : item ∈ requested) (hmade : made item value) :
    MadeFor keyOf requested made (cache.store (keyOf item) value) := by
  intro key value' hvalue
  by_cases hkey : key = keyOf item
  · subst hkey
    obtain rfl : value = value' := by simpa using hvalue
    exact ⟨item, hitem, rfl, hmade⟩
  · apply h key value'
    rwa [store_of_ne _ _ hkey] at hvalue

/-- Where the key settles what is made, an entry found for an item was made for it. -/
theorem MadeFor.lookup (h : MadeFor keyOf requested made cache)
    (hkey : ∀ a ∈ requested, ∀ b ∈ requested, keyOf a = keyOf b →
      ∀ value, made a value → made b value)
    {item : Item} {value : Value} (hitem : item ∈ requested)
    (hvalue : cache (keyOf item) = some value) : made item value := by
  obtain ⟨other, hother, hsame, hmade⟩ := h _ value hvalue
  exact hkey other hother item hitem hsame value hmade

end Made

section GetOrAdd

variable [DecidableEq Key] {Error : Type*} (keyOf : Item → Except Error Key)
  (create : Item → Except Error Value)

/-- The entry of the item, made when there is none. What fails leaves no entry. -/
def getOrAdd (cache : KeyedCache Key Value) (item : Item) :
    Except Error Value × KeyedCache Key Value :=
  match keyOf item with
  | .error e => (.error e, cache)
  | .ok key =>
      match cache key with
      | some value => (.ok value, cache)
      | none =>
          match create item with
          | .ok value => (.ok value, cache.store key value)
          | .error e => (.error e, cache)

/-- The cache behind requests for the items, one after another. -/
def after (items : List Item) : KeyedCache Key Value :=
  items.foldl (fun cache item => (cache.getOrAdd keyOf create item).2) empty

/-- The item has the key and can be made. -/
def canMake (key : Key) (item : Item) : Bool :=
  match keyOf item, create item with
  | .ok itemKey, .ok _ => itemKey == key
  | _, _ => false

/-- The first item that makes an entry under the key. -/
def maker? (items : List Item) (key : Key) : Option Item :=
  items.find? (canMake keyOf create key)

variable {keyOf create}

theorem canMake_iff {key : Key} {item : Item} :
    canMake keyOf create key item = true ↔
      keyOf item = .ok key ∧ ∃ value, create item = .ok value := by
  rw [canMake]
  cases keyOf item with
  | error e => simp
  | ok itemKey =>
      cases create item with
      | error e => simp
      | ok value => simp

/-- The first item with a key makes its entry, when it can be made. -/
theorem maker?_of_first {before between : List Item} {first : Item} {key : Key} {value : Value}
    (hbefore : ∀ item ∈ before, keyOf item ≠ .ok key) (hkey : keyOf first = .ok key)
    (hvalue : create first = .ok value) :
    maker? keyOf create (before ++ first :: between) key = some first := by
  have hnone : before.find? (canMake keyOf create key) = none := by
    apply List.find?_eq_none.mpr
    intro item hitem hmake
    exact hbefore item hitem (canMake_iff.mp hmake).1
  rw [maker?, List.find?_append, hnone, Option.none_or, List.find?_cons_of_pos]
  exact canMake_iff.mpr ⟨hkey, value, hvalue⟩

theorem after_concat (items : List Item) (item : Item) :
    after keyOf create (items ++ [item]) =
      ((after keyOf create items).getOrAdd keyOf create item).2 := by
  rw [after, List.foldl_append]
  rfl

/-- An entry is what the first item that could make it makes. -/
theorem after_apply (items : List Item) (key : Key) :
    after keyOf create items key =
      (maker? keyOf create items key).bind fun item => (create item).toOption := by
  induction items using List.reverseRecOn with
  | nil => rfl
  | append_singleton items item ih =>
      rw [after_concat, maker?, List.find?_append, ← maker?]
      cases hitem : canMake keyOf create key item with
      | true =>
          obtain ⟨hkey, value, hvalue⟩ := canMake_iff.mp hitem
          cases hmaker : maker? keyOf create items key with
          | none =>
              have hnone : after keyOf create items key = none := by rw [ih, hmaker]; rfl
              simp [getOrAdd, hkey, hvalue, hnone, hitem, Except.toOption]
          | some first =>
              obtain ⟨-, made, hmade⟩ := canMake_iff.mp (List.find?_some hmaker)
              have hsome : after keyOf create items key = some made := by
                rw [ih, hmaker]
                simp [hmade, Except.toOption]
              simp [getOrAdd, hkey, hsome, hmade, Except.toOption]
      | false =>
          have hunchanged :
              ((after keyOf create items).getOrAdd keyOf create item).2 key =
                after keyOf create items key := by
            rw [getOrAdd]
            cases hkey : keyOf item with
            | error e => rfl
            | ok itemKey =>
                cases hfound : after keyOf create items itemKey with
                | some value => simp [hfound]
                | none =>
                    cases hmade : create item with
                    | error e => simp [hfound]
                    | ok value =>
                        have hne : key ≠ itemKey := by
                          rintro rfl
                          rw [canMake_iff.mpr ⟨hkey, value, hmade⟩] at hitem
                          cases hitem
                        simp [hfound, store_of_ne _ _ hne]
          rw [hunchanged, ih]
          simp [hitem]

/-- What a request gets is what the maker of its entry makes, or the item itself. -/
theorem getOrAdd_after (items : List Item) {item : Item} {key : Key} (hkey : keyOf item = .ok key) :
    ((after keyOf create items).getOrAdd keyOf create item).1 =
      create ((maker? keyOf create items key).getD item) := by
  rw [getOrAdd, hkey]
  simp only [after_apply]
  cases hmaker : maker? keyOf create items key with
  | none =>
      cases hcreate : create item with
      | error e => simp [hcreate]
      | ok value => simp [hcreate]
  | some first =>
      obtain ⟨-, made, hmade⟩ := canMake_iff.mp (List.find?_some hmaker)
      simp [hmade, Except.toOption]

theorem getOrAdd_empty {item : Item} {key : Key} (hkey : keyOf item = .ok key) :
    ((empty : KeyedCache Key Value).getOrAdd keyOf create item).1 = create item :=
  getOrAdd_after [] hkey

theorem getOrAdd_error (cache : KeyedCache Key Value) {item : Item} {e : Error}
    (hkey : keyOf item = .error e) : (cache.getOrAdd keyOf create item).1 = .error e := by
  rw [getOrAdd, hkey]

/-- A request cannot be told from one on an empty cache exactly when the maker of its entry cannot
be told from the item. -/
theorem getOrAdd_agrees_iff {Answer : Type*} (answer : Except Error Value → Answer)
    (items : List Item) (item : Item) :
    answer ((after keyOf create items).getOrAdd keyOf create item).1 =
        answer ((empty : KeyedCache Key Value).getOrAdd keyOf create item).1 ↔
      ∀ key, keyOf item = .ok key → ∀ first, maker? keyOf create items key = some first →
        answer (create first) = answer (create item) := by
  cases hkey : keyOf item with
  | error e => simp [getOrAdd_error _ hkey]
  | ok key =>
      rw [getOrAdd_after items hkey, getOrAdd_empty hkey]
      constructor
      · intro h key' hkey' first hfirst
        obtain rfl := Except.ok.inj hkey'
        rwa [hfirst] at h
      · intro h
        cases hmaker : maker? keyOf create items key with
        | none => rfl
        | some first => exact h key rfl first hmaker

/-- A request cannot be told from one on an empty cache when nothing that is made under its key
differs from what the item makes. -/
theorem getOrAdd_eq_of_makes (items : List Item) {item : Item}
    (h : ∀ first ∈ items, ∀ key value, keyOf first = .ok key → keyOf item = .ok key →
      create first = .ok value → create item = .ok value) :
    ((after keyOf create items).getOrAdd keyOf create item).1 =
      ((empty : KeyedCache Key Value).getOrAdd keyOf create item).1 := by
  apply (getOrAdd_agrees_iff id items item).mpr
  intro key hkey first hfirst
  obtain ⟨hfirstKey, value, hvalue⟩ := canMake_iff.mp (List.find?_some hfirst)
  have hmem : first ∈ items := List.mem_of_find?_eq_some hfirst
  rw [h first hmem key value hfirstKey hkey hvalue, hvalue]

end GetOrAdd

end KeyedCache

end SignalFxTracing.Lib
