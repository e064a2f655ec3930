import Mathlib.Data.List.Chain
import Mathlib.Logic.Function.Basic

/-!
# A walk that expands elements in place

A cursor walks over a list. An element that matches is expanded, and the cursor
is left on the one behind it, which the step of the walk then passes over. When
the last element is expanded, the step leads to the front again.
-/

namespace SignalFxTracing.Lib

variable {α : Type*}

/-- One walk; the first element is passed over when the cursor comes from an expanded one. The
last argument says whether it comes from one at the end. -/
inductive Swept (isMatch : α → Bool) (Site : α → List α → Prop) :
    Bool → List α → List α → Bool → Prop
  | nil (passes : Bool) : Swept isMatch Site passes [] [] passes
  | keep {passes last : Bool} {x : α} {rest out : List α}
      (hkept : isMatch x = true → passes = true) (h : Swept isMatch Site false rest out last) :
      Swept isMatch Site passes (x :: rest) (x :: out) last
  | expand {last : Bool} {x : α} {site rest out : List α} (hmatch : isMatch x = true)
      (hsite : Site x site) (h : Swept isMatch Site true rest out last) :
      Swept isMatch Site false (x :: rest) (site ++ out) last

/-- Every element that matches is expanded, and every other one is kept. -/
inductive Expands (isMatch : α → Bool) (Site : α → List α → Prop) : List α → List α → Prop
  | nil : Expands isMatch Site [] []
  | keep {x : α} {rest out : List α} (hkept : isMatch x = false)
      (h : Expands isMatch Site rest out) : Expands isMatch Site (x :: rest) (x :: out)
  | expand {x : α} {site rest out : List α} (hmatch : isMatch x = true) (hsite : Site x site)
      (h : Expands isMatch Site rest out) : Expands isMatch Site (x :: rest) (site ++ out)

/-- The number of elements at the end of the list that match. -/
def trailing (isMatch : α → Bool) (l : List α) : Nat := (l.reverse.takeWhile isMatch).length

/-- What the loop comes to: one walk ends at the end of the list, or the last element is expanded
and the walk from the front again expands the rest. -/
inductive Walked (isMatch : α → Bool) (Site : α → List α → Prop) (l out : List α) : Prop
  | once (h : Swept isMatch Site false l out false)
  | twice (hodd : trailing isMatch l % 2 = 1) (h : Expands isMatch Site l out)

/-- No two elements that directly follow each other both match. -/
def NoneAdjacent (isMatch : α → Bool) (l : List α) : Prop :=
  l.IsChain fun x y => ¬(isMatch x = true ∧ isMatch y = true)

section Walks

variable {isMatch : α → Bool} {Site : α → List α → Prop}
variable {passes passes' last last' : Bool} {l out out' site : List α}

theorem foldl_eq_true_iff (l : List α) :
    l.foldl (fun passes x => isMatch x && !passes) false = true ↔ trailing isMatch l % 2 = 1 := by
  induction l using List.reverseRecOn with
  | nil => simp [trailing]
  | append_singleton l x ih =>
      rw [List.foldl_append, List.foldl_cons, List.foldl_nil, trailing, List.reverse_append,
        List.reverse_singleton, List.singleton_append, List.takeWhile_cons]
      cases isMatch x with
      | false => simp
      | true =>
          rw [Bool.true_and, Bool.not_eq_true', if_pos rfl, List.length_cons, ← trailing,
            ← Bool.not_eq_true, ih]
          omega

theorem and_not_eq_false {x : α} (hkept : isMatch x = true → passes = true) :
    (isMatch x && !passes) = false := by
  cases hmatch : isMatch x with
  | false => rfl
  | true => rw [hkept hmatch, Bool.not_true, Bool.and_false]

theorem Swept.last_eq (h : Swept isMatch Site passes l out last) :
    last = l.foldl (fun passes x => isMatch x && !passes) passes := by
  induction h with
  | nil passes => rfl
  | @keep passes last x rest out hkept h ih =>
      rw [ih, List.foldl_cons, and_not_eq_false hkept]
  | expand hmatch hsite h ih => rw [ih, List.foldl_cons, hmatch, Bool.not_false, Bool.and_true]

/-- The walk comes from an expanded element at the end when an odd number of them match there. -/
theorem Swept.last_iff (h : Swept isMatch Site false l out last) :
    last = true ↔ trailing isMatch l % 2 = 1 := by
  rw [h.last_eq, foldl_eq_true_iff]

/-- What holds of every element and in every expansion holds behind a walk. -/
theorem Swept.forall_mem {P : α → Prop} (h : Swept isMatch Site passes l out last)
    (hl : ∀ z ∈ l, P z) (hSite : ∀ x site, Site x site → ∀ z ∈ site, P z) : ∀ z ∈ out, P z := by
  induction h with
  | nil => exact fun z hz => absurd hz List.not_mem_nil
  | keep hkept h ih =>
      rw [List.forall_mem_cons] at hl
      exact List.forall_mem_cons.mpr ⟨hl.1, ih hl.2⟩
  | expand hmatch hsite h ih =>
      rw [List.forall_mem_cons] at hl
      exact List.forall_mem_append.mpr ⟨hSite _ _ hsite, ih hl.2⟩

theorem Expands.forall_mem {P : α → Prop} (h : Expands isMatch Site l out)
    (hl : ∀ z ∈ l, P z) (hSite : ∀ x site, Site x site → ∀ z ∈ site, P z) : ∀ z ∈ out, P z := by
  induction h with
  | nil => exact fun z hz => absurd hz List.not_mem_nil
  | keep hkept h ih =>
      rw [List.forall_mem_cons] at hl
      exact List.forall_mem_cons.mpr ⟨hl.1, ih hl.2⟩
  | expand hmatch hsite h ih =>
      rw [List.forall_mem_cons] at hl
      exact List.forall_mem_append.mpr ⟨hSite _ _ hsite, ih hl.2⟩

/-- Where none are adjacent the walk expands them all. -/
theorem Swept.expands (h : Swept isMatch Site passes l out last)
    (hadjacent : NoneAdjacent isMatch l)
    (hfirst : passes = true → ∀ x ∈ l.head?, isMatch x = false) : Expands isMatch Site l out := by
  induction h with
  | nil passes => exact .nil
  | @keep passes last x rest out hkept h ih =>
      obtain ⟨-, hrest⟩ := List.isChain_cons.mp hadjacent
      have hx : isMatch x = false := by
        rw [Bool.eq_false_iff]
        intro hmatch
        exact Bool.eq_false_iff.mp (hfirst (hkept hmatch) x rfl) hmatch
      exact .keep hx (ih hrest nofun)
  | @expand last x site rest out hmatch hsite h ih =>
      obtain ⟨hnext, hrest⟩ := List.isChain_cons.mp hadjacent
      refine .expand hmatch hsite (ih hrest fun _ y hy => ?_)
      rw [Bool.eq_false_iff]
      exact fun hy' => hnext y hy ⟨hmatch, hy'⟩

/-- Where none is left, none were adjacent. -/
theorem Swept.noneAdjacent (h : Swept isMatch Site passes l out last)
    (hleft : ∀ z ∈ out, isMatch z = false) :
    NoneAdjacent isMatch l ∧ (passes = true → ∀ x ∈ l.head?, isMatch x = false) := by
  induction h with
  | nil passes => exact ⟨.nil, fun _ x hx => nomatch hx⟩
  | @keep passes last x rest out hkept h ih =>
      obtain ⟨hx, hrest⟩ := List.forall_mem_cons.mp hleft
      refine ⟨List.isChain_cons.mpr ⟨fun y hy hboth => ?_, (ih hrest).1⟩, ?_⟩
      · exact Bool.eq_false_iff.mp hx hboth.1
      · rintro - y ⟨rfl⟩
        exact hx
  | @expand last x site rest out hmatch hsite h ih =>
      obtain ⟨-, hrest⟩ := List.forall_mem_append.mp hleft
      obtain ⟨hchain, hnext⟩ := ih hrest
      refine ⟨List.isChain_cons.mpr ⟨fun y hy hboth => ?_, hchain⟩, nofun⟩
      exact Bool.eq_false_iff.mp (hnext rfl y hy) hboth.2

/-- A walk goes over elements that do not match. -/
theorem Swept.of_append (h : Swept isMatch Site passes (site ++ l) out last)
    (hsite : ∀ z ∈ site, isMatch z = false) (hne : site ≠ []) :
    ∃ out', out = site ++ out' ∧ Swept isMatch Site false l out' last := by
  induction site generalizing passes out with
  | nil => exact absurd rfl hne
  | cons z rest ih =>
      obtain ⟨hz, hrest⟩ := List.forall_mem_cons.mp hsite
      cases h with
      | expand hmatch _ _ => exact absurd hmatch (Bool.eq_false_iff.mp hz)
      | keep _ h =>
          by_cases hnil : rest = []
          · subst hnil
            exact ⟨_, rfl, h⟩
          · obtain ⟨out', rfl, hout'⟩ := ih h hrest hnil
            exact ⟨out', rfl, hout'⟩

/-- A second walk expands what the first one has passed over. -/
theorem Swept.again (h : Swept isMatch Site passes l out last)
    (h' : Swept isMatch Site passes' out out' last') (hpasses : passes = true → passes' = false)
    (hSite : ∀ x site, Site x site → site ≠ [] ∧ ∀ z ∈ site, isMatch z = false) :
    Expands isMatch Site l out' := by
  induction h generalizing passes' out' with
  | nil passes =>
      cases h'
      exact .nil
  | @keep passes last x rest out hkept h ih =>
      cases h' with
      | @keep _ _ _ _ out' hkept' h' =>
          have hx : isMatch x = false := by
            rw [Bool.eq_false_iff]
            intro hmatch
            have hpassed := hpasses (hkept hmatch)
            rw [hkept' hmatch] at hpassed
            cases hpassed
          exact .keep hx (ih h' nofun)
      | expand hmatch hsite h' => exact .expand hmatch hsite (ih h' nofun)
  | @expand last x site rest out hmatch hsite h ih =>
      obtain ⟨out'', rfl, h''⟩ := h'.of_append (hSite x site hsite).2 (hSite x site hsite).1
      exact .expand hmatch hsite (ih h'' fun _ => rfl)

/-- A walk that comes from an expanded element at the end has put its expansion there. -/
theorem Swept.exists_append (h : Swept isMatch Site passes l out last) (hlast : last = true)
    (hfirst : passes = false ∨ l ≠ []) :
    ∃ before x site, Site x site ∧ out = before ++ site := by
  induction h with
  | nil passes =>
      subst hlast
      simp at hfirst
  | @keep passes last x rest out hkept h ih =>
      obtain ⟨before, y, site, hsite, rfl⟩ := ih hlast (Or.inl rfl)
      exact ⟨x :: before, y, site, hsite, rfl⟩
  | @expand last x site rest out hmatch hsite h ih =>
      by_cases hrest : rest = []
      · subst hrest
        cases h
        exact ⟨[], x, site, hsite, List.append_nil site⟩
      · obtain ⟨before, y, site', hsite', rfl⟩ := ih hlast (Or.inr hrest)
        exact ⟨site ++ before, y, site', hsite', (List.append_assoc _ _ _).symm⟩

/-- The second walk ends at the end of the list. -/
theorem Swept.again_last (h : Swept isMatch Site false l out true)
    (h' : Swept isMatch Site false out out' last')
    (hSite : ∀ x site, Site x site → site ≠ [] ∧ ∀ z ∈ site, isMatch z = false) :
    last' = false := by
  obtain ⟨before, x, site, hsite, rfl⟩ := h.exists_append rfl (Or.inl rfl)
  obtain ⟨hne, hnot⟩ := hSite x site hsite
  have hz := hnot _ (List.getLast_mem hne)
  rw [h'.last_eq, ← List.dropLast_append_getLast hne, ← List.append_assoc, List.foldl_append,
    List.foldl_cons, List.foldl_nil, hz, Bool.false_and]

/-- A walk over elements that do not match leaves them. -/
theorem swept_of_forall (h : ∀ x ∈ l, isMatch x = false) : Swept isMatch Site false l l false := by
  induction l with
  | nil => exact .nil false
  | cons x rest ih =>
      obtain ⟨hx, hrest⟩ := List.forall_mem_cons.mp h
      refine .keep (fun hmatch => ?_) (ih hrest)
      rw [hx] at hmatch
      cases hmatch

/-- Everything that matches is expanded when none are adjacent or the last one is expanded. -/
theorem Walked.expands (h : Walked isMatch Site l out)
    (hpasses : NoneAdjacent isMatch l ∨ trailing isMatch l % 2 = 1) :
    Expands isMatch Site l out := by
  cases h with
  | once h =>
      rcases hpasses with hadjacent | hodd
      · exact h.expands hadjacent nofun
      · rw [← h.last_iff] at hodd
        cases hodd
  | twice _ h => exact h

theorem Walked.passes_of_forall (h : Walked isMatch Site l out)
    (hleft : ∀ z ∈ out, isMatch z = false) :
    NoneAdjacent isMatch l ∨ trailing isMatch l % 2 = 1 := by
  cases h with
  | once h => exact Or.inl (h.noneAdjacent hleft).1
  | twice hodd _ => exact Or.inr hodd

/-- The walk expands the element behind those before it: it matches and is not passed over, or all
that match are expanded. -/
def isExpanded (isMatch : α → Bool) (l before : List α) (x : α) : Bool :=
  isMatch x && (trailing isMatch before % 2 == 0 || trailing isMatch l % 2 == 1)

end Walks

section Places

variable [DecidableEq α] {isMatch : α → Bool} {Site : α → List α → Prop}
variable {passes last : Bool} {l out : List α}

/-- What stands in place of the first element does not concern the others. -/
theorem exists_place_cons {x : α} {rest : List α} (hx : x ∉ rest) (piece : List α)
    (place : α → List α) :
    ∃ place' : α → List α, piece ++ rest.flatMap place = (x :: rest).flatMap place' ∧
      place' x = piece ∧ ∀ y ∈ rest, place' y = place y := by
  have hrest : ∀ y ∈ rest, Function.update place x piece y = place y := by
    intro y hy
    apply Function.update_of_ne
    rintro rfl
    exact hx hy
  refine ⟨Function.update place x piece, ?_, Function.update_self x piece place, hrest⟩
  rw [List.flatMap_cons, Function.update_self, List.flatMap_congr hrest]

/-- What stands in place of each element when all that match are expanded. -/
theorem Expands.exists_place (h : Expands isMatch Site l out) (hnodup : l.Nodup) :
    ∃ place : α → List α, out = l.flatMap place ∧
      ∀ x ∈ l, if isMatch x then Site x (place x) else place x = [x] := by
  induction h with
  | nil => exact ⟨fun x => [x], rfl, fun x hx => absurd hx List.not_mem_nil⟩
  | @keep x rest out hkept h ih =>
      obtain ⟨hx, hrest⟩ := List.nodup_cons.mp hnodup
      obtain ⟨place, rfl, hplace⟩ := ih hrest
      obtain ⟨place', heq, hself, hothers⟩ := exists_place_cons hx [x] place
      refine ⟨place', heq, List.forall_mem_cons.mpr ⟨?_, fun y hy => ?_⟩⟩
      · rw [hkept]
        exact hself
      · rw [hothers y hy]
        exact hplace y hy
  | @expand x site rest out hmatch hsite h ih =>
      obtain ⟨hx, hrest⟩ := List.nodup_cons.mp hnodup
      obtain ⟨place, rfl, hplace⟩ := ih hrest
      obtain ⟨place', heq, hself, hothers⟩ := exists_place_cons hx site place
      refine ⟨place', heq, List.forall_mem_cons.mpr ⟨?_, fun y hy => ?_⟩⟩
      · rw [hmatch, if_pos rfl, hself]
        exact hsite
      · rw [hothers y hy]
        exact hplace y hy

/-- What stands in place of each element says whether the walk has come to it. -/
theorem Swept.exists_place (h : Swept isMatch Site passes l out last) (hnodup : l.Nodup) :
    ∃ place : α → List α, out = l.flatMap place ∧ ∀ before x after, l = before ++ x :: after →
      if isMatch x && !before.foldl (fun passes x => isMatch x && !passes) passes then
        Site x (place x)
      else place x = [x] := by
  induction h with
  | nil passes =>
      refine ⟨fun x => [x], rfl, fun before x after hsplit => ?_⟩
      simp at hsplit
  | @keep passes last x rest out hkept h ih =>
      obtain ⟨hx, hrest⟩ := List.nodup_cons.mp hnodup
      obtain ⟨place, rfl, hplace⟩ := ih hrest
      obtain ⟨place', heq, hself, hothers⟩ := exists_place_cons hx [x] place
      have hstep : (isMatch x && !passes) = false := and_not_eq_false hkept
      refine ⟨place', heq, ?_⟩
      rintro (_ | ⟨z, before⟩) y after hsplit
      · obtain ⟨rfl, rfl⟩ := List.cons_eq_cons.mp hsplit
        rw [List.foldl_nil, hstep, if_neg Bool.false_ne_true]
        exact hself
      · obtain ⟨rfl, rfl⟩ := List.cons_eq_cons.mp hsplit
        rw [List.foldl_cons, hstep, hothers y (by simp)]
        exact hplace before y after rfl
  | @expand last x site rest out hmatch hsite h ih =>
      obtain ⟨hx, hrest⟩ := List.nodup_cons.mp hnodup
      obtain ⟨place, rfl, hplace⟩ := ih hrest
      obtain ⟨place', heq, hself, hothers⟩ := exists_place_cons hx site place
      refine ⟨place', heq, ?_⟩
      rintro (_ | ⟨z, before⟩) y after hsplit
      · obtain ⟨rfl, rfl⟩ := List.cons_eq_cons.mp hsplit
        rw [List.foldl_nil, hmatch, Bool.not_false, Bool.and_true, if_pos rfl, hself]
        exact hsite
      · obtain ⟨rfl, rfl⟩ := List.cons_eq_cons.mp hsplit
        rw [List.foldl_cons, hmatch, Bool.not_false, Bool.and_true, hothers y (by simp)]
        exact hplace before y after rfl

theorem Walked.exists_place (h : Walked isMatch Site l out) (hnodup : l.Nodup) :
    ∃ place : α → List α, out = l.flatMap place ∧ ∀ before x after, l = before ++ x :: after →
      if isExpanded isMatch l before x then Site x (place x) else place x = [x] := by
  cases h with
  | once h =>
      obtain ⟨place, hout, hplace⟩ := h.exists_place hnodup
      have hend : (trailing isMatch l % 2 == 1) = false := by
        rw [beq_eq_false_iff_ne, ne_eq, ← h.last_iff]
        nofun
      refine ⟨place, hout, fun before x after hsplit => ?_⟩
      have hpasses : (!before.foldl (fun passes x => isMatch x && !passes) false) =
          (trailing isMatch before % 2 == 0) := by
        rw [Bool.eq_iff_iff, Bool.not_eq_true', ← Bool.not_eq_true, foldl_eq_true_iff, beq_iff_eq]
        omega
      rw [isExpanded, hend, Bool.or_false, ← hpasses]
      exact hplace before x after hsplit
  | twice hodd h =>
      obtain ⟨place, hout, hplace⟩ := h.exists_place hnodup
      refine ⟨place, hout, fun before x after hsplit => ?_⟩
      rw [isExpanded, beq_iff_eq.mpr hodd, Bool.or_true, Bool.and_true]
      apply hplace
      rw [hsplit]
      exact List.mem_append_right before List.mem_cons_self

end Places

end SignalFxTracing.Lib
