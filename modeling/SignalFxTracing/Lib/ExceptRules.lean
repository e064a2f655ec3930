import Mathlib.Data.List.Forall2

/-!
# Rules for calls that may raise an exception

Inversion of the bind of `Except`: what must have happened for a sequence of
two calls to return, and for it to raise.
-/

namespace SignalFxTracing.Lib.ExceptRules

universe u v

variable {ε : Type u} {α β : Type v}

@[simp] theorem ok_bind (a : α) (f : α → Except ε β) : (Except.ok a >>= f) = f a := rfl

@[simp] theorem error_bind (e : ε) (f : α → Except ε β) :
    (Except.error e >>= f) = Except.error e := rfl

theorem bind_eq_ok_iff {x : Except ε α} {f : α → Except ε β} {b : β} :
    (x >>= f) = .ok b ↔ ∃ a, x = .ok a ∧ f a = .ok b := by
  cases x with
  | error e => simp
  | ok a => simp

@[simp] theorem bind_ok (a : α) (f : α → Except ε β) : (Except.ok a).bind f = f a := rfl

@[simp] theorem bind_error (e : ε) (f : α → Except ε β) :
    (Except.error e).bind f = Except.error e := rfl

@[simp] theorem map_ok (f : α → β) (a : α) : (Except.ok a : Except ε α).map f = .ok (f a) := rfl

@[simp] theorem map_error (f : α → β) (e : ε) :
    (Except.error e : Except ε α).map f = .error e := rfl

theorem map_eq_ok {f : α → β} {x : Except ε α} {b : β} (h : x.map f = .ok b) :
    ∃ a, x = .ok a ∧ f a = b := by
  cases x with
  | error e => cases h
  | ok a => exact ⟨a, rfl, Except.ok.inj h⟩

theorem bind_map {γ : Type v} (f : α → β) (g : β → Except ε γ) (x : Except ε α) :
    (x.map f).bind g = x.bind fun a => g (f a) := by
  cases x with
  | error e => rfl
  | ok a => rfl

theorem mapM_eq_ok_iff {f : α → Except ε β} {l : List α} {l' : List β} :
    l.mapM f = .ok l' ↔ List.Forall₂ (fun a b => f a = .ok b) l l' := by
  induction l generalizing l' with
  | nil =>
      rw [List.mapM_nil, List.forall₂_nil_left_iff]
      exact ⟨fun h => (Except.ok.inj h).symm, fun h => congrArg Except.ok h.symm⟩
  | cons a rest ih =>
      rw [List.mapM_cons, bind_eq_ok_iff, List.forall₂_cons_left_iff]
      constructor
      · rintro ⟨b, hb, h⟩
        obtain ⟨others, hothers, h⟩ := bind_eq_ok_iff.mp h
        exact ⟨b, others, hb, ih.mp hothers, (Except.ok.inj h).symm⟩
      · rintro ⟨b, others, hb, hothers, rfl⟩
        exact ⟨b, hb, bind_eq_ok_iff.mpr ⟨others, ih.mpr hothers, rfl⟩⟩

theorem exists_mapM_eq_ok_iff {f : α → Except ε β} {l : List α} :
    (∃ l', l.mapM f = .ok l') ↔ ∀ a ∈ l, ∃ b, f a = .ok b := by
  simp only [mapM_eq_ok_iff]
  induction l with
  | nil => simp
  | cons a rest ih =>
      rw [List.forall_mem_cons, ← ih]
      constructor
      · rintro ⟨l', h⟩
        obtain ⟨b, others, hb, hothers, -⟩ := List.forall₂_cons_left_iff.mp h
        exact ⟨⟨b, hb⟩, others, hothers⟩
      · rintro ⟨⟨b, hb⟩, others, hothers⟩
        exact ⟨b :: others, .cons hb hothers⟩

/-- Two passes over a list succeed as one pass that makes both calls. -/
theorem mapM_mapM_eq_ok_iff {γ : Type v} {f : α → Except ε β} {g : β → Except ε γ} {l : List α}
    {l' : List γ} :
    (l.mapM f >>= fun middle => middle.mapM g) = .ok l' ↔
      l.mapM (fun a => f a >>= g) = .ok l' := by
  simp only [bind_eq_ok_iff, mapM_eq_ok_iff]
  constructor
  · rintro ⟨middle, hf, hg⟩
    induction hf generalizing l' with
    | nil =>
        rw [List.forall₂_nil_left_iff] at hg
        exact hg ▸ .nil
    | cons hfirst _ ih =>
        obtain ⟨c, others, hc, hothers, rfl⟩ := List.forall₂_cons_left_iff.mp hg
        exact .cons ⟨_, hfirst, hc⟩ (ih hothers)
  · intro h
    induction h with
    | nil => exact ⟨[], .nil, .nil⟩
    | cons hfirst _ ih =>
        obtain ⟨b, hb, hc⟩ := hfirst
        obtain ⟨middle, hf, hg⟩ := ih
        exact ⟨b :: middle, .cons hb hf, .cons hc hg⟩

/-- A result is that of some member. -/
theorem exists_of_mem_mapM {f : α → Except ε β} {l : List α} {l' : List β}
    (h : l.mapM f = .ok l') {b : β} (hb : b ∈ l') : ∃ a ∈ l, f a = .ok b := by
  have hforall := mapM_eq_ok_iff.mp h
  clear h
  induction hforall with
  | nil => cases hb
  | @cons a b' l l' hfirst _ ih =>
      rcases List.mem_cons.mp hb with rfl | hb
      · exact ⟨a, List.mem_cons_self .., hfirst⟩
      · obtain ⟨a', ha', hrest⟩ := ih hb
        exact ⟨a', List.mem_cons_of_mem _ ha', hrest⟩

end SignalFxTracing.Lib.ExceptRules
