import SignalFxTracing.Il.EntryCall
import SignalFxTracing.Il.ReplacementSites

/-!
# Ways through an expanded body

Some calls of a body are expanded to sequences that begin with a NOP under the
number of the call. Everything that refers to the call then refers to the NOP,
and control comes to the other instructions of the sequence only through those
before them.
-/

namespace SignalFxTracing.Il

/-- A reference to a node of the list or to the end of the code. -/
def InstrRef.Within (ref : InstrRef) (il : List ILInstr) : Prop :=
  ref = .sentinel ∨ ∃ x ∈ il, ref = x.ref

/-- Where a region of the clause begins, or the protected region ends. -/
def EHClause.IsBound (c : EHClause) (ref : InstrRef) : Prop :=
  ref = c.tryBegin ∨ ref = c.tryEnd ∨ c.Enters ref

/-- What the body refers to is in it. -/
structure WithinBody (il : List ILInstr) (eh : List EHClause) : Prop where
  targets : ∀ x ∈ il, ∀ ref, x.target = some ref → ref.Within il
  bounds : ∀ c ∈ eh, ∀ ref, c.IsBound ref → ref.Within il
  handlerEnds : ∀ c ∈ eh, c.handlerEnd.Within il

/-- Control does not go on behind the last instruction of a handler. -/
def HandlersEnd (il : List ILInstr) (eh : List EHClause) : Prop :=
  ∀ c ∈ eh, ∀ x ∈ il, x.ref = c.handlerEnd → x.fallsThrough = false

/-- Without an exception, control goes on to the next instruction and nowhere else. -/
def ILInstr.goesOn (x : ILInstr) : Bool := x.fallsThrough && !x.isBranch && !x.endsHandler

/-- Each instruction of the body stands as it was, or is a call and expanded. -/
structure Expansion (il out : List ILInstr) (place : ILInstr → List ILInstr) : Prop where
  eq : out = il.flatMap place
  nodup : (out.map ILInstr.id).Nodup
  kept : ∀ x ∈ il, place x = [x] ∨ x.isCall = true ∧
    ∃ rest, place x = { x with opcode := CEE_NOP } :: rest ∧
      ∀ z ∈ rest, z.goesOn = true ∧ z.target = none

/-- What stands in place of an instruction: what is from its number on up to the next one that was
there before. -/
def pieceOf (il out : List ILInstr) (x : ILInstr) : List ILInstr :=
  match out.dropWhile fun z => z.id ≠ x.id with
  | [] => []
  | first :: rest => first :: rest.takeWhile fun z => z.id ∉ il.map ILInstr.id

/-- Control runs through the sequence in place of a call. -/
structure RunsThrough (il out : List ILInstr) (eh : List EHClause) (x : ILInstr)
    (site : List ILInstr) : Prop where
  /-- A reference to the call denotes the first instruction. -/
  front : nodeAt out x.ref = site.head?
  /-- When an instruction of the sequence is executed, those before it have just been executed. -/
  before : ∀ path, IsExecution out eh path → ∀ front z back start rest,
    site = front ++ z :: back → path = start ++ z :: rest → front <:+ start
  /-- Control goes on to the next instruction, or to a handler that the call is protected by. -/
  behind : ∀ front z y back w, site = front ++ z :: y :: back →
    (Follows out eh z w ↔
      w = y ∨ ∃ c ∈ eh, c.Covers il x ∧ ∃ ref, c.Enters ref ∧ nodeAt out ref = some w)
  /-- The last instruction leads to the one behind the call. -/
  leaves : ∀ z ∈ site.getLast?, z.goesOn = true ∧ nextRef out z.ref = nextRef il x.ref
  /-- The bounds of a clause are in front of all of the sequence or behind it. -/
  bounds : ∀ c ∈ eh, ∀ ref, c.IsBound ref → ∀ z ∈ site,
    (position out ref ≤ position out z.ref ↔ position il ref ≤ position il x.ref)
  handlerEnds : ∀ c ∈ eh, ∀ z ∈ site,
    (position out z.ref ≤ position out c.handlerEnd ↔
      position il x.ref ≤ position il c.handlerEnd)

section Numbers

variable {il before rest : List ILInstr} {x y : ILInstr}

theorem ne_of_nodup (hnodup : (il.map ILInstr.id).Nodup) (hil : il = before ++ x :: rest) :
    ∀ y ∈ before, y.id ≠ x.id := by
  rw [hil, List.map_append, List.nodup_append] at hnodup
  intro y hy
  exact hnodup.2.2 _ (List.mem_map_of_mem hy) _ (List.mem_map_of_mem List.mem_cons_self)

theorem nextRef_of_split (hnodup : (il.map ILInstr.id).Nodup) (hil : il = before ++ x :: rest) :
    nextRef il x.ref = headRef rest := by
  rw [hil]
  exact nextRef_append (ne_of_nodup hnodup hil)

theorem nodeAt_of_mem (hnodup : (il.map ILInstr.id).Nodup) (hx : x ∈ il) :
    nodeAt il x.ref = some x := by
  obtain ⟨before, rest, hil⟩ := List.append_of_mem hx
  rw [hil]
  exact nodeAt_append (ne_of_nodup hnodup hil)

theorem position_append (hx : ∀ y ∈ before, y.id ≠ x.id) :
    position (before ++ x :: rest) x.ref = before.length := by
  induction before with
  | nil => exact position_cons_self
  | cons y before ih =>
      obtain ⟨hy, hbefore⟩ := List.forall_mem_cons.mp hx
      have hne : x.ref ≠ y.ref := by
        intro href
        exact hy (InstrRef.instr.inj href).symm
      rw [List.cons_append, position_cons_of_ne hne, ih hbefore, List.length_cons]

theorem position_of_split (hnodup : (il.map ILInstr.id).Nodup) (hil : il = before ++ x :: rest) :
    position il x.ref = before.length := by
  rw [hil]
  exact position_append (ne_of_nodup hnodup hil)

/-- Only one node stands in front of another one. -/
theorem eq_of_nextRef (hnodup : (il.map ILInstr.id).Nodup) {z w : ILInstr} {back : List ILInstr}
    (hil : il = before ++ z :: y :: back) (hw : w ∈ il) (hnext : nextRef il w.ref = y.ref) :
    w = z := by
  obtain ⟨front, after, hsplit⟩ := List.append_of_mem hw
  have hhead : headRef after = y.ref := (nextRef_of_split hnodup hsplit).symm.trans hnext
  cases after with
  | nil => cases hhead
  | cons v after =>
      -- both nodes are the one in front of `y`
      have hfirst : il = (front ++ [w]) ++ v :: after := by simp [hsplit]
      have hsecond : il = (before ++ [z]) ++ y :: back := by simp [hil]
      have hlengths : (front ++ [w]).length = (before ++ [z]).length := by
        calc
          (front ++ [w]).length = position il v.ref := (position_of_split hnodup hfirst).symm
          _ = position il y.ref := congrArg (position il) hhead
          _ = (before ++ [z]).length := position_of_split hnodup hsecond
      have hlength : front.length = before.length := by simpa using hlengths
      exact (List.cons_eq_cons.mp (List.append_inj (hsplit.symm.trans hil) hlength).2).1

end Numbers

section Sites

variable {il out before after : List ILInstr} {eh : List EHClause}
variable {place : ILInstr → List ILInstr} {x : ILInstr} {ref : InstrRef}

theorem ILInstr.goesOn_iff (x : ILInstr) : x.goesOn = true ↔
    x.fallsThrough = true ∧ x.isBranch = false ∧ x.endsHandler = false := by
  rw [goesOn, Bool.and_eq_true, Bool.and_eq_true, Bool.not_eq_true', Bool.not_eq_true', and_assoc]

theorem ILInstr.goesOn_nop (x : ILInstr) : ILInstr.goesOn { x with opcode := CEE_NOP } = true := rfl

/-- A call is followed by the next instruction. -/
theorem ILInstr.fallsThrough_of_isCall (h : x.isCall = true) : x.fallsThrough = true := by
  rw [isCall, Bool.or_eq_true, beq_iff_eq, beq_iff_eq] at h
  rcases h with hopcode | hopcode
  · rw [fallsThrough, hopcode]
    rfl
  · rw [fallsThrough, hopcode]
    rfl

/-- The sequence begins with the number of the instruction. -/
theorem Expansion.exists_cons (h : Expansion il out place) (hx : x ∈ il) :
    ∃ first rest, place x = first :: rest ∧ first.ref = x.ref := by
  obtain hkept | ⟨-, rest, hsite, -⟩ := h.kept x hx
  · exact ⟨x, [], hkept, rfl⟩
  · exact ⟨_, rest, hsite, rfl⟩

theorem Expansion.headRef_eq (h : Expansion il out place) {l : List ILInstr} (hl : l ⊆ il) :
    headRef (l.flatMap place) = headRef l := by
  cases l with
  | nil => rfl
  | cons x rest =>
      obtain ⟨first, others, hsite, href⟩ := h.exists_cons (hl List.mem_cons_self)
      rw [List.flatMap_cons, hsite]
      exact href

/-- Nodes that are put in have other numbers than those that were there. -/
theorem Expansion.ref_eq (h : Expansion il out place) (href : ref.Within il) (hx : x ∈ il)
    {z : ILInstr} (hz : z ∈ place x) (hzref : z.ref = ref) : x.ref = ref := by
  obtain rfl | ⟨y, hy, rfl⟩ := href
  · cases hzref
  · by_contra hne
    obtain ⟨first, rest, hsite, hfirst⟩ := h.exists_cons hy
    have hnodup := h.nodup
    rw [h.eq, List.map_flatMap, List.nodup_flatMap] at hnodup
    have hsymm : Std.Symm (Function.onFun List.Disjoint fun x => (place x).map ILInstr.id) :=
      ⟨fun _ _ hdisjoint => hdisjoint.symm⟩
    have hdisjoint := hnodup.2.forall hx hy fun heq => hne (congrArg ILInstr.ref heq)
    have hid : z.id = first.id := InstrRef.instr.inj (hzref.trans hfirst.symm)
    apply hdisjoint (List.mem_map_of_mem hz)
    dsimp only
    rw [hid, hsite]
    exact List.mem_map_of_mem List.mem_cons_self

/-- A place behind the expansion: what is in front of it has been expanded. -/
theorem Expansion.position_eq (h : Expansion il out place) (href : ref.Within il) :
    position out ref = ((il.take (position il ref)).flatMap place).length := by
  have hsub : ∀ l : List ILInstr, l ⊆ il →
      position (l.flatMap place) ref = ((l.take (position l ref)).flatMap place).length := by
    intro l hl
    induction l with
    | nil => rfl
    | cons x rest ih =>
        obtain ⟨hx, hrest⟩ := List.cons_subset.mp hl
        by_cases hxref : x.ref = ref
        · obtain ⟨first, others, hsite, hfirst⟩ := h.exists_cons hx
          rw [List.flatMap_cons, hsite, ← hxref, position_cons_self, List.cons_append, ← hfirst,
            position_cons_self]
          rfl
        · have hnone : (place x).findIdx (fun z => z.ref = ref) = (place x).length := by
            rw [List.findIdx_eq_length]
            intro z hz
            exact decide_eq_false fun hzref => hxref (h.ref_eq href hx hz hzref)
          rw [position_cons_of_ne (Ne.symm hxref), List.take_succ_cons, List.flatMap_cons,
            List.flatMap_cons, List.length_append, ← ih hrest, position, List.findIdx_append, hnone,
            if_neg (Nat.lt_irrefl _), position, Nat.add_comm]
  rw [h.eq]
  exact hsub il (List.Subset.refl il)

variable {front back : List ILInstr} {z : ILInstr}

theorem Expansion.split (h : Expansion il out place) (hil : il = before ++ x :: after)
    (hsite : place x = front ++ z :: back) :
    out = (before.flatMap place ++ front) ++ z :: (back ++ after.flatMap place) := by
  rw [h.eq, hil, List.flatMap_append, List.flatMap_cons, hsite]
  simp

/-- A place is not behind what stands for the instruction exactly if it was not behind it. -/
theorem Expansion.position_le_iff (h : Expansion il out place) (hil : il = before ++ x :: after)
    (hids : (il.map ILInstr.id).Nodup) (hsite : place x = front ++ z :: back)
    (href : ref.Within il) :
    position out ref ≤ position out z.ref ↔ position il ref ≤ position il x.ref := by
  rw [position_of_split h.nodup (h.split hil hsite), position_of_split hids hil,
    h.position_eq href, List.length_append]
  have htake : ∀ k, ((il.take k).flatMap place).length ≤
      (before.flatMap place).length + front.length ↔ k ≤ before.length := by
    intro k
    constructor
    · intro hle
      by_contra hlt
      have hinitial : before ++ [x] <+: il.take k := by
        have hfull : il.take (before.length + 1) = before ++ [x] := by
          rw [hil, List.append_cons]
          exact List.take_left' (by simp)
        rw [← hfull]
        exact List.take_prefix_take_left (by omega)
      have hlength := (hinitial.flatMap place).length_le
      rw [List.flatMap_append, List.flatMap_singleton, hsite, List.length_append,
        List.length_append, List.length_cons] at hlength
      omega
    · intro hle
      have hinitial : il.take k <+: before := by
        rw [hil, List.take_append_of_le_length hle]
        exact List.take_prefix k before
      have hlength := (hinitial.flatMap place).length_le
      omega
  exact htake _

theorem eq_of_position_eq {ref : InstrRef} (hx : x ∈ il)
    (heq : position il x.ref = position il ref) : x.ref = ref := by
  have hlt : position il x.ref < il.length := List.findIdx_lt_length_of_exists ⟨x, hx, by simp⟩
  have hself : il[position il x.ref].ref = x.ref := of_decide_eq_true (List.findIdx_getElem (w := hlt))
  have hlt' : position il ref < il.length := heq ▸ hlt
  have hother : il[position il ref].ref = ref := of_decide_eq_true (List.findIdx_getElem (w := hlt'))
  simp only [heq] at hself
  exact hself.symm.trans hother

/-- Nothing that the body refers to lies inside a sequence. -/
theorem Expansion.ref_ne (h : Expansion il out place) (hil : il = before ++ x :: after)
    {y : ILInstr} (hsite : place x = front ++ z :: y :: back) (href : ref.Within il) :
    y.ref ≠ ref := by
  intro hyref
  have hx : x ∈ il := hil ▸ List.mem_append_right before List.mem_cons_self
  have hy : y ∈ place x := by simp [hsite]
  have hxref := h.ref_eq href hx hy hyref
  obtain ⟨first, rest, hcons, hfirst⟩ := h.exists_cons hx
  have hmem : first ∈ front ++ [z] := by
    have heq : first :: rest = (front ++ [z]) ++ y :: back := by
      rw [← hcons, hsite, List.append_assoc, List.singleton_append]
    cases front with
    | nil => exact List.mem_singleton.mpr (List.cons_eq_cons.mp heq).1
    | cons u front =>
        rw [(List.cons_eq_cons.mp heq).1]
        exact List.mem_cons_self
  have hsplit : out = (before.flatMap place ++ (front ++ [z])) ++
      y :: (back ++ after.flatMap place) := by
    apply h.split hil
    rw [hsite, List.append_assoc, List.singleton_append]
  apply ne_of_nodup h.nodup hsplit first (List.mem_append_right _ hmem)
  exact InstrRef.instr.inj (hfirst.trans (hxref.trans hyref.symm))

theorem Expansion.target_within (h : Expansion il out place) (hwithin : WithinBody il eh)
    (hz : z ∈ out) (htarget : z.target = some ref) : ref.Within il := by
  rw [h.eq] at hz
  obtain ⟨x, hx, hz⟩ := List.mem_flatMap.mp hz
  obtain hkept | ⟨-, rest, hsite, hrest⟩ := h.kept x hx
  · rw [hkept] at hz
    obtain rfl := List.mem_singleton.mp hz
    exact hwithin.targets z hx ref htarget
  · rw [hsite] at hz
    obtain rfl | hz := List.mem_cons.mp hz
    · exact hwithin.targets x hx ref htarget
    · rw [(hrest z hz).2] at htarget
      cases htarget

theorem Expansion.within (h : Expansion il out place) (href : ref.Within il) : ref.Within out := by
  obtain rfl | ⟨x, hx, rfl⟩ := href
  · exact Or.inl rfl
  · obtain ⟨first, rest, hsite, hfirst⟩ := h.exists_cons hx
    refine Or.inr ⟨first, ?_, hfirst.symm⟩
    rw [h.eq]
    exact List.mem_flatMap.mpr ⟨x, hx, hsite ▸ List.mem_cons_self⟩

/-- The expanded body refers to its own nodes only. -/
theorem Expansion.withinBody (h : Expansion il out place) (hwithin : WithinBody il eh) :
    WithinBody out eh := by
  constructor
  · intro z hz ref htarget
    exact h.within (h.target_within hwithin hz htarget)
  · intro c hc ref hbound
    exact h.within (hwithin.bounds c hc ref hbound)
  · intro c hc
    exact h.within (hwithin.handlerEnds c hc)

/-- No call ends a handler, so the last instruction of each stays. -/
theorem Expansion.handlersEnd (h : Expansion il out place) (hwithin : WithinBody il eh)
    (hends : HandlersEnd il eh) : HandlersEnd out eh := by
  intro c hc z hz hzref
  rw [h.eq] at hz
  obtain ⟨x, hx, hz⟩ := List.mem_flatMap.mp hz
  have hxends := hends c hc x hx (h.ref_eq (hwithin.handlerEnds c hc) hx hz hzref)
  obtain hkept | ⟨hcall, -⟩ := h.kept x hx
  · rw [hkept] at hz
    obtain rfl := List.mem_singleton.mp hz
    exact hxends
  · rw [ILInstr.fallsThrough_of_isCall hcall] at hxends
    cases hxends

/-- What stands in place of an instruction can be told from the bodies. -/
theorem Expansion.pieceOf_eq (h : Expansion il out place) (hx : x ∈ il) :
    pieceOf il out x = place x := by
  obtain ⟨before, after, hil⟩ := List.append_of_mem hx
  obtain ⟨first, rest, hsite, hfirst⟩ := h.exists_cons hx
  have hid : first.id = x.id := InstrRef.instr.inj hfirst
  have hsplit : out = before.flatMap place ++ first :: (rest ++ after.flatMap place) := by
    have hsplit := h.split hil (hsite.trans (List.nil_append _).symm)
    rwa [List.append_nil] at hsplit
  have hdrop : out.dropWhile (fun z => z.id ≠ x.id) = first :: (rest ++ after.flatMap place) := by
    have hne := ne_of_nodup h.nodup hsplit
    rw [hid] at hne
    rw [hsplit, List.dropWhile_append_of_pos (by simpa using hne)]
    simp [hid]
  have hrest : ∀ z ∈ rest, z.id ∉ il.map ILInstr.id := by
    intro z hz hmem
    obtain ⟨y, hy, hyid⟩ := List.mem_map.mp hmem
    obtain ⟨front, back, rfl⟩ := List.append_of_mem hz
    obtain ⟨pre, u, hu⟩ : ∃ pre u, first :: front = pre ++ [u] :=
      ⟨_, _, (List.dropLast_append_getLast (List.cons_ne_nil first front)).symm⟩
    have hinner : place x = pre ++ u :: z :: back := by
      rw [hsite, ← List.cons_append, hu, List.append_assoc, List.singleton_append]
    exact h.ref_ne hil hinner (Or.inr ⟨y, hy, rfl⟩) (congrArg InstrRef.instr hyid.symm)
  have htake : (rest ++ after.flatMap place).takeWhile (fun z => z.id ∉ il.map ILInstr.id) =
      rest := by
    rw [List.takeWhile_append_of_pos (by simpa using hrest)]
    cases after with
    | nil => simp
    | cons y after =>
        have hy : y ∈ il := by simp [hil]
        obtain ⟨next, others, hnext, hnextRef⟩ := h.exists_cons hy
        have hmem : next.id ∈ il.map ILInstr.id := by
          rw [InstrRef.instr.inj hnextRef]
          exact List.mem_map_of_mem hy
        rw [List.flatMap_cons, hnext, List.cons_append, List.takeWhile_cons_of_neg (by simpa using hmem),
          List.append_nil]
  rw [pieceOf, hdrop, hsite]
  exact congrArg (first :: ·) htake

/-- One expansion after the other. -/
theorem Expansion.comp {mid : List ILInstr} {place' : ILInstr → List ILInstr}
    (h : Expansion il mid place) (h' : Expansion mid out place') :
    Expansion il out fun x => (place x).flatMap place' := by
  have hmid : ∀ x ∈ il, ∀ z ∈ place x, z ∈ mid := by
    intro x hx z hz
    rw [h.eq]
    exact List.mem_flatMap.mpr ⟨x, hx, hz⟩
  refine ⟨?_, h'.nodup, fun x hx => ?_⟩
  · rw [h'.eq, h.eq, List.flatMap_assoc]
  · have hkept' := fun z hz => h'.kept z (hmid x hx z hz)
    obtain hkept | ⟨hcall, rest, hsite, hrest⟩ := h.kept x hx
    · rw [hkept] at hkept' ⊢
      rw [List.flatMap_singleton]
      exact hkept' x (List.mem_singleton.mpr rfl)
    · rw [hsite] at hkept'
      obtain ⟨hnop, hothers⟩ := List.forall_mem_cons.mp hkept'
      have hnopKept : place' { x with opcode := CEE_NOP } = [{ x with opcode := CEE_NOP }] := by
        obtain hkept | ⟨hcall, -⟩ := hnop
        · exact hkept
        · cases hcall
      refine Or.inr ⟨hcall, rest.flatMap place', ?_, ?_⟩
      · rw [hsite, List.flatMap_cons, hnopKept, List.singleton_append]
      · intro w hw
        obtain ⟨z, hz, hw⟩ := List.mem_flatMap.mp hw
        obtain hkept | ⟨-, others, hsite', hothers'⟩ := hothers z hz
        · rw [hkept] at hw
          obtain rfl := List.mem_singleton.mp hw
          exact hrest w hz
        · rw [hsite'] at hw
          obtain rfl | hw := List.mem_cons.mp hw
          · exact ⟨z.goesOn_nop, (hrest z hz).2⟩
          · exact hothers' w hw

end Sites

section Ways

variable {il out before after front back path : List ILInstr} {eh : List EHClause}
variable {place : ILInstr → List ILInstr} {x y z w : ILInstr}

theorem mem_of_isChain (hchain : (x :: path).IsChain (Follows il eh)) : ∀ y ∈ path, y ∈ il := by
  induction path generalizing x with
  | nil => exact fun y hy => absurd hy List.not_mem_nil
  | cons z rest ih =>
      obtain ⟨hfirst, hrest⟩ := List.isChain_cons.mp hchain
      exact List.forall_mem_cons.mpr ⟨(hfirst z rfl).mem, ih hrest⟩

/-- An invocation executes nodes of the body. -/
theorem IsExecution.mem (h : IsExecution il eh path) : ∀ y ∈ path, y ∈ il := by
  cases path with
  | nil => exact fun y hy => absurd hy List.not_mem_nil
  | cons x rest =>
      exact List.forall_mem_cons.mpr
        ⟨(mem_of_nodeAt (h.entry x rfl)).1, mem_of_isChain h.follows⟩

/-- Control comes to an instruction inside a sequence only from the one before it. -/
theorem Expansion.eq_of_follows (h : Expansion il out place) (hwithin : WithinBody il eh)
    (hil : il = before ++ x :: after) (hsite : place x = front ++ z :: y :: back) (hw : w ∈ out)
    (hfollows : Follows out eh w y) : w = z := by
  have hne := fun ref => @Expansion.ref_ne il out before after place x ref front back z h hil y hsite
  cases hfollows with
  | next _ hnode => exact eq_of_nextRef h.nodup (h.split hil hsite) hw (mem_of_nodeAt hnode).2.symm
  | jump _ htarget hnode =>
      exact absurd (mem_of_nodeAt hnode).2 (hne _ (h.target_within hwithin hw htarget))
  | raise hc _ henters hnode =>
      exact absurd (mem_of_nodeAt hnode).2 (hne _ (hwithin.bounds _ hc _ (Or.inr (Or.inr henters))))
  | resume _ hz _ htarget hnode =>
      exact absurd (mem_of_nodeAt hnode).2 (hne _ (h.target_within hwithin hz htarget))

/-- What comes before an instruction of a sequence has been executed just before it. -/
theorem Expansion.suffix_of_isExecution (h : Expansion il out place) (hwithin : WithinBody il eh)
    (hil : il = before ++ x :: after) {start rest : List ILInstr}
    (hsite : place x = front ++ z :: back) (hpath : IsExecution out eh (start ++ z :: rest)) :
    front <:+ start := by
  induction front using List.reverseRecOn generalizing z back start rest with
  | nil => exact List.nil_suffix
  | append_singleton front u ih =>
      rw [List.append_assoc, List.singleton_append] at hsite
      induction start using List.reverseRecOn with
      | nil =>
          -- the body does not begin inside a sequence
          exfalso
          have hentry := hpath.entry z rfl
          have hhead : nextRef out .sentinel = headRef il := by
            rw [h.eq]
            exact h.headRef_eq (List.Subset.refl il)
          rw [hhead] at hentry
          refine h.ref_ne hil hsite ?_ (mem_of_nodeAt hentry).2
          exact nextRef_eq il .sentinel
      | append_singleton start w =>
          have hw : w ∈ out := hpath.mem w (by simp)
          rw [List.append_assoc, List.singleton_append] at hpath
          have hfollows : Follows out eh w z :=
            (List.isChain_append_cons_cons.mp hpath.follows).2.1
          obtain rfl := h.eq_of_follows hwithin hil hsite hw hfollows
          obtain ⟨more, rfl⟩ := ih hsite hpath
          exact ⟨more, (List.append_assoc _ _ _).symm⟩

/-- A region protects what stands for the call exactly if it protects the call. -/
theorem Expansion.covers_iff (h : Expansion il out place) (hids : (il.map ILInstr.id).Nodup)
    (hwithin : WithinBody il eh) (hil : il = before ++ x :: after)
    (hsite : place x = front ++ z :: back) {c : EHClause} (hc : c ∈ eh) :
    c.Covers out z ↔ c.Covers il x := by
  rw [EHClause.Covers, EHClause.Covers, ← Nat.not_le, ← Nat.not_le,
    h.position_le_iff hil hids hsite (hwithin.bounds c hc _ (Or.inl rfl)),
    h.position_le_iff hil hids hsite (hwithin.bounds c hc _ (Or.inr (Or.inl rfl)))]

/-- An instruction of a sequence leads to the next one, or to a handler that the call is protected
by. -/
theorem Expansion.follows_iff (h : Expansion il out place) (hids : (il.map ILInstr.id).Nodup)
    (hwithin : WithinBody il eh) (hil : il = before ++ x :: after)
    (hsite : place x = front ++ z :: y :: back) (hgoes : z.goesOn = true) :
    Follows out eh z w ↔
      w = y ∨ ∃ c ∈ eh, c.Covers il x ∧ ∃ ref, c.Enters ref ∧ nodeAt out ref = some w := by
  obtain ⟨hfalls, hbranch, hhandler⟩ := z.goesOn_iff.mp hgoes
  have hsplit := h.split hil hsite
  have hnext : nodeAt out (nextRef out z.ref) = some y := by
    rw [nextRef_of_split h.nodup hsplit]
    apply nodeAt_of_mem h.nodup
    rw [hsplit]
    simp
  constructor
  · intro hfollows
    cases hfollows with
    | next _ hnode =>
        rw [hnext] at hnode
        exact Or.inl (Option.some.inj hnode).symm
    | jump hjump _ _ =>
        rw [hbranch] at hjump
        cases hjump
    | raise hc hcovers henters hnode =>
        rw [hhandler, or_iff_left Bool.false_ne_true] at hcovers
        exact Or.inr ⟨_, hc, (h.covers_iff hids hwithin hil hsite hc).mp hcovers, _, henters, hnode⟩
    | resume hends _ _ _ _ =>
        rw [hhandler] at hends
        cases hends
  · rintro (rfl | ⟨c, hc, hcovers, ref, henters, hnode⟩)
    · exact .next hfalls hnext
    · exact .raise hc (Or.inl ((h.covers_iff hids hwithin hil hsite hc).mpr hcovers)) henters hnode

/-- Control runs through each sequence in place of a call. -/
theorem Expansion.runsThrough (h : Expansion il out place) (hids : (il.map ILInstr.id).Nodup)
    (hwithin : WithinBody il eh) (hends : HandlersEnd il eh) (hx : x ∈ il)
    (hplace : place x ≠ [x]) : RunsThrough il out eh x (place x) := by
  obtain ⟨before, after, hil⟩ := List.append_of_mem hx
  obtain hkept | ⟨hcall, others, hsite, hothers⟩ := h.kept x hx
  · exact absurd hkept hplace
  have hgoes : ∀ z ∈ place x, z.goesOn = true := by
    rw [hsite]
    exact List.forall_mem_cons.mpr ⟨x.goesOn_nop, fun z hz => (hothers z hz).1⟩
  constructor
  · have hmem : { x with opcode := CEE_NOP } ∈ out := by
      rw [h.eq]
      exact List.mem_flatMap.mpr ⟨x, hx, hsite ▸ List.mem_cons_self⟩
    rw [hsite]
    exact nodeAt_of_mem h.nodup hmem
  · rintro path hpath front z back start rest hsplit rfl
    exact h.suffix_of_isExecution hwithin hil hsplit hpath
  · intro front z y back w hsplit
    exact h.follows_iff hids hwithin hil hsplit (hgoes z (by simp [hsplit]))
  · intro z hz
    obtain ⟨front, hsplit⟩ := List.getLast?_eq_some_iff.mp hz
    refine ⟨hgoes z (by simp [hsplit]), ?_⟩
    have hafter : after ⊆ il := by
      rw [hil]
      exact List.subset_append_of_subset_right _ (List.subset_cons_self x after)
    rw [nextRef_of_split h.nodup (h.split hil hsplit), List.nil_append, h.headRef_eq hafter,
      nextRef_of_split hids hil]
  · intro c hc ref hbound z hz
    obtain ⟨front, back, hsplit⟩ := List.append_of_mem hz
    exact h.position_le_iff hil hids hsplit (hwithin.bounds c hc ref hbound)
  · intro c hc z hz
    obtain ⟨front, back, hsplit⟩ := List.append_of_mem hz
    have hlast := hwithin.handlerEnds c hc
    have hxne : x.ref ≠ c.handlerEnd := by
      intro href
      have hfalls := hends c hc x hx href
      rw [ILInstr.fallsThrough_of_isCall hcall] at hfalls
      cases hfalls
    have hout : position out z.ref ≠ position out c.handlerEnd := by
      intro heq
      have hzout : z ∈ out := by
        rw [h.eq]
        exact List.mem_flatMap.mpr ⟨x, hx, hz⟩
      exact hxne (h.ref_eq hlast hx hz (eq_of_position_eq hzout heq))
    have hin : position il x.ref ≠ position il c.handlerEnd :=
      fun heq => hxne (eq_of_position_eq hx heq)
    have hiff := h.position_le_iff hil hids hsplit hlast
    omega

end Ways

end SignalFxTracing.Il
