import SignalFxTracing.Il.ImportedProgram

/-!
# Insertions into an imported list (`il_rewriter.h`)

Nodes are inserted before or after others. Where none is put in front of an
entry of a table, the instructions that were there before can be told from the
new ones by their offsets.
-/

namespace SignalFxTracing.Il

/-- Nodes have been inserted between those of the list, none of them in front of an entry of a
table. -/
inductive Interleaved : List ILInstr → List ILInstr → Prop
  | nil : Interleaved [] []
  | kept {x : ILInstr} {il il' : List ILInstr} (h : Interleaved il il') :
      Interleaved (x :: il) (x :: il')
  | inserted {x : ILInstr} {il il' : List ILInstr}
      (hfirst : ∀ y ∈ il.head?, y.isSwitchArg = false) (h : Interleaved il il') :
      Interleaved il (x :: il')

/-- `InsertBefore` and `InsertAfter` of new nodes, none of them in front of an entry of a table of
the list at the start. -/
inductive InsertedInto (r : ILRewriter) : ILRewriter → Prop
  | refl : InsertedInto r r
  /-- `NewILInstr`. -/
  | newILInstr {r' : ILRewriter} : InsertedInto r r' →
      InsertedInto r { r' with nInstrs := r'.nInstrs + 1 }
  | insertBefore {r' : ILRewriter} (place : InstrRef) {what : ILInstr} (h : InsertedInto r r')
      (hid : what.id < r'.nInstrs) (hnew : what.id ∉ r'.il.map ILInstr.id)
      (hplace : ∀ y ∈ r.il, y.ref = place → y.isSwitchArg = false) :
      InsertedInto r (r'.insertBefore place what)
  | insertAfter {r' : ILRewriter} (place : InstrRef) {what : ILInstr} (h : InsertedInto r r')
      (hid : what.id < r'.nInstrs) (hnew : what.id ∉ r'.il.map ILInstr.id)
      (hplace : ∀ y ∈ r.il, y.ref = nextRef r'.il place → y.isSwitchArg = false) :
      InsertedInto r (r'.insertAfter place what)

section Lists

variable {il il' : List ILInstr} {what : ILInstr}

theorem Interleaved.refl (il : List ILInstr) : Interleaved il il := by
  induction il with
  | nil => exact .nil
  | cons x il ih => exact .kept ih

/-- The list begins with no entry if what has been made of it does not. -/
theorem Interleaved.head (h : Interleaved il il')
    (hfirst : ∀ y ∈ il, y.ref = firstRef il' → y.isSwitchArg = false) :
    ∀ y ∈ il.head?, y.isSwitchArg = false := by
  cases h with
  | nil => nofun
  | @kept x _ _ _ =>
      rintro y ⟨rfl⟩
      exact hfirst x List.mem_cons_self rfl
  | inserted hnone _ => exact hnone

theorem Interleaved.append (h : Interleaved il il') (what : ILInstr) :
    Interleaved il (il' ++ [what]) := by
  induction h with
  | nil => exact .inserted nofun .nil
  | kept _ ih => exact .kept ih
  | inserted hfirst _ ih => exact .inserted hfirst ih

theorem Interleaved.linkBefore {id : Nat} (h : Interleaved il il')
    (hplace : ∀ y ∈ il, y.id = id → y.isSwitchArg = false) :
    Interleaved il (linkBefore id what il') := by
  induction h with
  | nil => exact .nil
  | @kept x il il' h ih =>
      obtain ⟨hx, hrest⟩ := List.forall_mem_cons.mp hplace
      rw [Il.linkBefore]
      by_cases hid : x.id = id
      · rw [if_pos hid]
        refine .inserted ?_ (.kept h)
        rintro y ⟨rfl⟩
        exact hx hid
      · rw [if_neg hid]
        exact .kept (ih hrest)
  | @inserted x il il' hfirst h ih =>
      rw [Il.linkBefore]
      by_cases hid : x.id = id
      · rw [if_pos hid]
        exact .inserted hfirst (.inserted hfirst h)
      · rw [if_neg hid]
        exact .inserted hfirst (ih hplace)

theorem nextRef_cons_of_id_ne {x : ILInstr} {id : Nat} (hid : x.id ≠ id) :
    nextRef (x :: il) (.instr id) = nextRef il (.instr id) := by
  rw [nextRef, nextRef, List.dropWhile_cons_of_pos (by simpa using hid)]

theorem nextRef_cons_of_id_eq {x : ILInstr} {id : Nat} (hid : x.id = id) :
    nextRef (x :: il) (.instr id) = firstRef il := by
  rw [nextRef, List.dropWhile_cons_of_neg (by simpa using hid)]
  rfl

theorem Interleaved.linkAfter {id : Nat} (h : Interleaved il il')
    (hplace : ∀ y ∈ il, y.ref = nextRef il' (.instr id) → y.isSwitchArg = false) :
    Interleaved il (linkAfter id what il') := by
  induction h with
  | nil => exact .nil
  | @kept x il il' h ih =>
      obtain ⟨hx, hrest⟩ := List.forall_mem_cons.mp hplace
      rw [Il.linkAfter]
      by_cases hid : x.id = id
      · rw [nextRef_cons_of_id_eq hid] at hrest
        rw [if_pos hid]
        exact .kept (.inserted (h.head hrest) h)
      · rw [nextRef_cons_of_id_ne hid] at hrest
        rw [if_neg hid]
        exact .kept (ih hrest)
  | @inserted x il il' hfirst h ih =>
      rw [Il.linkAfter]
      by_cases hid : x.id = id
      · rw [if_pos hid]
        exact .inserted hfirst (.inserted hfirst h)
      · rw [nextRef_cons_of_id_ne hid] at hplace
        rw [if_neg hid]
        exact .inserted hfirst (ih hplace)

end Lists

section Runs

variable {r r' : ILRewriter}

/-- Insertions keep the nodes and the clauses. -/
theorem InsertedInto.interleaved (h : InsertedInto r r') :
    Interleaved r.il r'.il ∧ r'.eh = r.eh := by
  induction h with
  | refl => exact ⟨.refl _, rfl⟩
  | newILInstr _ ih => exact ih
  | insertBefore place _ _ _ hplace ih =>
      refine ⟨?_, ih.2⟩
      cases place with
      | sentinel => exact ih.1.append _
      | instr id => exact ih.1.linkBefore fun y hy hid => hplace y hy (congrArg InstrRef.instr hid)
  | insertAfter place _ _ _ hplace ih =>
      refine ⟨?_, ih.2⟩
      cases place with
      | sentinel => exact .inserted (ih.1.head hplace) ih.1
      | instr id => exact ih.1.linkAfter hplace

theorem InsertedInto.edited (h : InsertedInto r r') (hr : Edited r) : Edited r' := by
  induction h with
  | refl => exact hr
  | newILInstr _ ih => exact .newILInstr ih
  | insertBefore place _ hid hnew _ ih => exact .insertBefore place ih hid hnew
  | insertAfter place _ hid hnew _ ih => exact .insertAfter place ih hid hnew

end Runs

section Programs

variable {il il' : List ILInstr} {offsetOf : InstrRef → Nat}

/-- The entries of a table still follow their switch. -/
theorem Interleaved.takeWhile_eq {n : Nat} (h : Interleaved il il') (hil : Tabled n il)
    (hil' : Tabled n il') :
    il'.takeWhile ILInstr.isSwitchArg = il.takeWhile ILInstr.isSwitchArg := by
  induction n generalizing il il' with
  | zero => rw [hil.takeWhile_eq_nil, hil'.takeWhile_eq_nil]
  | succ n ih =>
      cases h with
      | nil => rfl
      | @kept x il il' h =>
          obtain ⟨hx, hil⟩ := hil
          rw [List.takeWhile_cons_of_pos hx, List.takeWhile_cons_of_pos hx, ih h hil hil'.2]
      | @inserted x il il' hfirst h =>
          cases il with
          | nil => cases hil
          | cons y il =>
              have hy := hfirst y rfl
              rw [hil.1] at hy
              cases hy

/-- The instructions of the list are among those of what has been made of it. -/
theorem Interleaved.programOf_sublist {n n' : Nat} (h : Interleaved il il') (hil : Tabled n il)
    (hil' : Tabled n' il') (hn : n = n' ∨ n = 0) :
    (programOf offsetOf il).Sublist (programOf offsetOf il') := by
  induction h generalizing n n' with
  | nil => exact List.Sublist.refl _
  | @kept x il il' h ih =>
      cases n with
      | succ n =>
          obtain rfl := hn.resolve_right (Nat.succ_ne_zero n)
          rw [programOf, programOf, if_pos hil.1, if_pos hil'.1]
          exact ih hil.2 hil'.2 (Or.inl rfl)
      | zero =>
          cases n' with
          | succ n' =>
              have hx := hil.1
              rw [hil'.1] at hx
              cases hx
          | zero =>
              obtain ⟨hx, hil⟩ := hil
              obtain ⟨-, hil'⟩ := hil'
              rw [programOf, programOf, if_neg (Bool.eq_false_iff.mp hx),
                if_neg (Bool.eq_false_iff.mp hx), operandOf, operandOf, h.takeWhile_eq hil hil']
              exact (ih hil hil' (Or.inl rfl)).cons_cons _
  | @inserted x il il' hfirst h ih =>
      have hzero : n = 0 := by
        cases n with
        | zero => rfl
        | succ n =>
            cases il with
            | nil => cases hil
            | cons y il =>
                have hy := hfirst y rfl
                rw [hil.1] at hy
                cases hy
      subst hzero
      cases n' with
      | succ n' =>
          rw [programOf, if_pos hil'.1]
          exact ih hil hil'.2 (Or.inr rfl)
      | zero =>
          obtain ⟨hx, hil'⟩ := hil'
          rw [programOf, if_neg (Bool.eq_false_iff.mp hx)]
          exact (ih hil hil' (Or.inr rfl)).cons _

/-- Elements of a sublist are told from the others by a key that none have in common. -/
theorem filter_eq_of_sublist {α : Type*} {key : α → Nat} {s l : List α} (h : s.Sublist l)
    (hnodup : (l.map key).Nodup) : l.filter (fun x => key x ∈ s.map key) = s := by
  induction h with
  | slnil => rfl
  | @cons s l a h ih =>
      obtain ⟨ha, hl⟩ := List.nodup_cons.mp hnodup
      have hnot : key a ∉ s.map key := fun hmem => ha ((h.map key).subset hmem)
      rw [List.filter_cons_of_neg (by simpa using hnot), ih hl]
  | @cons_cons s l a h ih =>
      obtain ⟨ha, hl⟩ := List.nodup_cons.mp hnodup
      have hsame : l.filter (fun x => key x ∈ (a :: s).map key) =
          l.filter fun x => key x ∈ s.map key := by
        apply List.filter_congr
        intro x hx
        have hne : key x ≠ key a := fun heq => ha (heq ▸ List.mem_map_of_mem hx)
        rw [List.map_cons, decide_eq_decide, List.mem_cons, or_iff_right hne]
      rw [List.filter_cons_of_pos (by simp), hsame, ih hl]

end Programs

end SignalFxTracing.Il
