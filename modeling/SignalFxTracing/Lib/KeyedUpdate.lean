import Mathlib.Data.List.Sigma

/-!
# Replacing values of keyed entries in place

A pass over the entries of a dictionary may store a new value under the key of
each entry that it reads. Where the new value says the same as the old one, for
some reading of entries, the pass does not change what the dictionary says.
-/

namespace SignalFxTracing.Lib.KeyedUpdate

universe u v

variable {κ : Type u} {β : Type v} {γ : Type*} [DecidableEq κ]

theorem kreplace_cons_self (key : κ) (old new : β) (rest : List (Sigma fun _ : κ => β)) :
    List.kreplace key new (⟨key, old⟩ :: rest) = ⟨key, new⟩ :: rest :=
  List.lookmap_cons_some _ rest (if_pos rfl)

theorem kreplace_cons_ne {key : κ} {entry : Sigma fun _ : κ => β} (h : key ≠ entry.1) (new : β)
    (rest : List (Sigma fun _ : κ => β)) :
    List.kreplace key new (entry :: rest) = entry :: List.kreplace key new rest :=
  List.lookmap_cons_none _ rest (if_neg h)

/-- The first entry with the key is replaced. -/
theorem kreplace_append {key : κ} {old : β} (new : β) {before : List (Sigma fun _ : κ => β)}
    (h : key ∉ before.keys) (after : List (Sigma fun _ : κ => β)) :
    List.kreplace key new (before ++ ⟨key, old⟩ :: after) = before ++ ⟨key, new⟩ :: after := by
  induction before with
  | nil => exact kreplace_cons_self key old new after
  | cons entry rest ih =>
      obtain ⟨hne, hrest⟩ := List.ne_and_not_mem_of_not_mem_cons h
      rw [List.cons_append, kreplace_cons_ne hne, ih hrest, List.cons_append]

/-- A replacement that no entry with the key tells apart does not change the reading. -/
theorem map_kreplace {key : κ} {new : β} {read : (Sigma fun _ : κ => β) → γ}
    {entries : List (Sigma fun _ : κ => β)}
    (h : ∀ entry ∈ entries, entry.1 = key → read ⟨key, new⟩ = read entry) :
    (List.kreplace key new entries).map read = entries.map read := by
  induction entries with
  | nil => rfl
  | cons entry rest ih =>
      obtain ⟨hfirst, hrest⟩ := List.forall_mem_cons.mp h
      obtain ⟨name, old⟩ := entry
      by_cases hkey : key = name
      · subst hkey
        rw [kreplace_cons_self, List.map_cons, List.map_cons, hfirst rfl]
      · rw [kreplace_cons_ne hkey, List.map_cons, List.map_cons, ih hrest]

/-- While the entries say what they said at first, storing a value that says the same as the
first entry with the key keeps them so. -/
theorem map_kreplace_of_map_eq {read : (Sigma fun _ : κ => β) → γ}
    (hread : ∀ entry entry', read entry = read entry' → entry.1 = entry'.1)
    {first entries : List (Sigma fun _ : κ => β)} (hnodup : first.NodupKeys)
    (hentries : entries.map read = first.map read) {entry : Sigma fun _ : κ => β}
    (hentry : entry ∈ first) {new : β} (hnew : read ⟨entry.1, new⟩ = read entry) :
    (List.kreplace entry.1 new entries).map read = first.map read := by
  refine (map_kreplace ?_).trans hentries
  intro other hother hkey
  have hmem : read other ∈ first.map read := hentries ▸ List.mem_map_of_mem hother
  obtain ⟨same, hsame, heq⟩ := List.mem_map.mp hmem
  have hsame' : same = entry :=
    hnodup.eq_of_fst_eq hsame hentry ((hread _ _ heq).trans hkey)
  rw [hnew, ← hsame', heq]

end SignalFxTracing.Lib.KeyedUpdate
