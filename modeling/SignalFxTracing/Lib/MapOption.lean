import Mathlib.Data.List.Forall2
import Mathlib.Data.List.Nodup

/-!
# Maps over a list that may fail

`mapM` in `Option` succeeds when it succeeds on every member.
-/

namespace SignalFxTracing.Lib.MapOption

universe u

variable {α β : Type u} {f : α → Option β} {l : List α} {l' : List β}

theorem mapM_eq_some_iff : l.mapM f = some l' ↔ List.Forall₂ (fun a b => f a = some b) l l' := by
  induction l generalizing l' with
  | nil => simp [eq_comm]
  | cons a rest ih =>
      simp only [List.mapM_cons, bind, Option.bind_eq_some_iff, pure, Option.some.injEq,
        List.forall₂_cons_left_iff]
      constructor
      · rintro ⟨b, hb, rest', hrest, rfl⟩
        exact ⟨b, rest', hb, ih.mp hrest, rfl⟩
      · rintro ⟨b, rest', hb, hrest, rfl⟩
        exact ⟨b, hb, rest', ih.mpr hrest, rfl⟩

/-- Every result comes from a member. -/
theorem exists_of_mem_mapM (h : l.mapM f = some l') {b : β} (hb : b ∈ l') :
    ∃ a ∈ l, f a = some b := by
  have hforall := mapM_eq_some_iff.mp h
  clear h
  induction hforall with
  | nil => cases hb
  | @cons a b' rest rest' hab _ ih =>
      rcases List.mem_cons.mp hb with rfl | hrest
      · exact ⟨a, List.mem_cons_self, hab⟩
      · obtain ⟨a', ha', hfa'⟩ := ih hrest
        exact ⟨a', List.mem_cons_of_mem _ ha', hfa'⟩

/-- All results have a property when every member has a result with it. -/
theorem exists_mapM_forall_iff {q : β → Prop} :
    (∃ l', l.mapM f = some l' ∧ ∀ b ∈ l', q b) ↔ ∀ a ∈ l, ∃ b, f a = some b ∧ q b := by
  simp only [mapM_eq_some_iff]
  induction l with
  | nil => simp
  | cons a rest ih =>
      rw [List.forall_mem_cons, ← ih]
      constructor
      · rintro ⟨l', h, hq⟩
        obtain ⟨b, others, hb, hothers, rfl⟩ := List.forall₂_cons_left_iff.mp h
        obtain ⟨hqb, hqothers⟩ := List.forall_mem_cons.mp hq
        exact ⟨⟨b, hb, hqb⟩, others, hothers, hqothers⟩
      · rintro ⟨⟨b, hb, hqb⟩, others, hothers, hqothers⟩
        exact ⟨b :: others, .cons hb hothers, List.forall_mem_cons.mpr ⟨hqb, hqothers⟩⟩

/-- What `f` keeps is kept of the list. -/
theorem map_of_mapM {γ : Type*} {g : α → γ} {g' : β → γ} (h : l.mapM f = some l')
    (hkeeps : ∀ a b, f a = some b → g' b = g a) : l'.map g' = l.map g := by
  have hforall := mapM_eq_some_iff.mp h
  clear h
  induction hforall with
  | nil => rfl
  | @cons a b _ _ hab _ ih => rw [List.map_cons, List.map_cons, hkeeps a b hab, ih]

/-- Results without repetition come from one element each. -/
theorem eq_of_nodup_filterMap {α β : Type*} {f : α → Option β} {l : List α} {a a' : α} {b : β}
    (h : (l.filterMap f).Nodup) (ha : a ∈ l) (ha' : a' ∈ l) (hb : f a = some b)
    (hb' : f a' = some b) : a = a' := by
  obtain ⟨before, after, rfl⟩ := List.append_of_mem ha
  rw [List.filterMap_append, List.filterMap_cons_some hb] at h
  have hnot := (List.nodup_middle.mp h).notMem
  rw [List.mem_append, List.mem_filterMap, List.mem_filterMap] at hnot
  rcases List.mem_append.mp ha' with hbefore | hafter
  · exact absurd (Or.inl ⟨a', hbefore, hb'⟩) hnot
  · rcases List.mem_cons.mp hafter with rfl | hafter
    · rfl
    · exact absurd (Or.inr ⟨a', hafter, hb'⟩) hnot

end SignalFxTracing.Lib.MapOption
