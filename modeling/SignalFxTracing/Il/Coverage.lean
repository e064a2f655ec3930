import SignalFxTracing.Il.ReplacementSites
import SignalFxTracing.Lib.CursorSweep

/-!
# Which calls are replaced (`CorProfiler::ProcessReplacementCalls`, `cor_profiler.cpp`)

The loop for a replacement is a walk that passes over the instruction behind a
call that it replaces. Two calls that meet the conditions and directly follow
each other are therefore not both replaced, unless the last instruction of the
body is replaced, which leads the loop to the first one again.
-/

namespace SignalFxTracing.Il

open Clr Lib Metadata Profiler

section Conditions

variable (queries : ReplacementQueries) {M : Type*} (api : MetadataInterfaces M)

/-- A reference to the wrapper is given. -/
def resolves (replacement : MethodReplacement) (s : Session M) : Bool :=
  (getWrapperMethodRef api replacement.wrapperMethod s).1.isSome

/-- The instruction meets the conditions of the replacement. -/
def meets (s : Session M) (replacement : MethodReplacement) (x : ILInstr) : Bool :=
  let target := queries.metadata.reportedFunction (UInt32.ofNat x.arg)
  isActive api replacement s.metadata && x.isCall && isCandidate replacement target &&
    resolves api replacement s && signatureAgrees queries replacement target == some true &&
    wrapperIsUsable queries replacement s.metadata.appDomainId

variable (replacements : List MethodReplacement) (s₀ : Session M)

/-- The sessions that requests for the wrappers lead to. -/
inductive Later : Session M → Prop
  | refl : Later s₀
  | request {s : Session M} {replacement : MethodReplacement} : Later s →
      replacement ∈ replacements → Later (getWrapperMethodRef api replacement.wrapperMethod s).2

/-- What the runtime answers about a wrapper stays the same: a reference is given each time or
never, and one that is given does not fail in between. -/
structure Steady : Prop where
  resolves_eq : ∀ s, Later api replacements s₀ s → ∀ replacement ∈ replacements,
    resolves api replacement s = resolves api replacement s₀
  isActive_eq : ∀ s, Later api replacements s₀ s → ∀ replacement ∈ replacements,
    resolves api replacement s₀ = true →
      isActive api replacement s.metadata = isActive api replacement s₀.metadata

/-- A token that means a method means one with the signature of the wrapper. -/
def Describes (replacement : MethodReplacement) (token : MdToken) : Prop :=
  (queries.metadata.reportedFunction token).isValid = true →
    (queries.metadata.reportedFunction token).signature =
      ⟨replacement.wrapperMethod.methodSignature⟩

/-- The metadata describe the references that are given for wrappers, and what is defined from
them for generic methods. -/
structure DescribesWrappers : Prop where
  wrapper : ∀ s, Later api replacements s₀ s → ∀ replacement ∈ replacements, ∀ token,
    (getWrapperMethodRef api replacement.wrapperMethod s).1 = some token →
      Describes queries replacement token
  methodSpec : ∀ replacement token signature, Describes queries replacement token →
    Describes queries replacement (queries.defineMethodSpec token signature)

/-- What stands in place of an instruction that has been replaced. -/
def IsSite (replacement : MethodReplacement) (x : ILInstr) (site : List ILInstr) : Prop :=
  ∃ s found s' id, Later api replacements s₀ s ∧
    matchCall queries api replacement x s = some (some found, s') ∧
      (boxes queries.metadata found.target.signature).isSome ∧
        site = siteNodes queries replacement found id x

/-- What the loops ask about the token of a call has a result: what it means, and, where the names
and the numbers of arguments agree, its types and what is to be boxed. -/
def Answered (token : MdToken) : Prop :=
  ∃ target, queries.metadata.getFunctionInfo token = some target ∧
    ∀ replacement ∈ replacements, isCandidate replacement target = true →
      (signatureAgrees queries replacement target).isSome ∧
        (boxes queries.metadata target.signature).isSome

/-- This is so of all calls in a body. -/
def AnsweredCalls (il : List ILInstr) : Prop :=
  ∀ x ∈ il, x.isCall = true → Answered queries replacements (UInt32.ofNat x.arg)

/-- This is so of what is called in place of calls. -/
def AnsweredWrappers : Prop :=
  ∀ s, Later api replacements s₀ s → ∀ replacement ∈ replacements, ∀ x found s',
    matchCall queries api replacement x s = some (some found, s') →
      Answered queries replacements found.wrapperMethodRef

end Conditions

section Matches

variable {queries : ReplacementQueries} {M : Type*} {api : MetadataInterfaces M}
variable {replacements : List MethodReplacement} {s₀ s s' : Session M}
variable {replacement : MethodReplacement} {x : ILInstr} {found : CallMatch}

/-- A reference that is requested leaves the AppDomain of the module. -/
theorem appDomainId_getWrapperMethodRef (r : MethodReference) (s : Session M) :
    (getWrapperMethodRef api r s).2.metadata.appDomainId = s.metadata.appDomainId := by
  have hparent : ∀ moduleToken (s : Session M),
      (findWrapperTypeRef api moduleToken r s).2.metadata.appDomainId =
        s.metadata.appDomainId := by
    intro moduleToken s
    rw [findWrapperTypeRef]
    split
    · rfl
    · dsimp only
      split_ifs <;> rfl
  have hstore : ∀ moduleToken (s : Session M),
      (storeWrapperMethodRef api moduleToken r s).2.metadata.appDomainId =
        s.metadata.appDomainId := by
    intro moduleToken s
    rw [storeWrapperMethodRef]
    split
    · rfl
    · dsimp only
      split_ifs
      · exact hparent moduleToken s
      · exact hparent moduleToken s
      · exact hparent moduleToken s
  rw [getWrapperMethodRef]
  split
  · rfl
  · dsimp only
    split_ifs
    · rfl
    · exact hstore _ _
    · exact hstore _ _
    · rfl

theorem Later.appDomainId_eq (h : Later api replacements s₀ s) :
    s.metadata.appDomainId = s₀.metadata.appDomainId := by
  induction h with
  | refl => rfl
  | request _ _ ih => exact (appDomainId_getWrapperMethodRef _ _).trans ih

/-- What the tests of the loop come to. -/
theorem matchCall_cases {result : Option CallMatch × Session M}
    (h : matchCall queries api replacement x s = some result) :
    (x.isCall && isCandidate replacement
          (queries.metadata.reportedFunction (UInt32.ofNat x.arg))) = false ∧ result = (none, s) ∨
      (x.isCall && isCandidate replacement
          (queries.metadata.reportedFunction (UInt32.ofNat x.arg))) = true ∧
        result.2 = (getWrapperMethodRef api replacement.wrapperMethod s).2 ∧
        ((getWrapperMethodRef api replacement.wrapperMethod s).1 = none ∧ result.1 = none ∨
          ∃ wrapperMethodRef agrees,
            (getWrapperMethodRef api replacement.wrapperMethod s).1 = some wrapperMethodRef ∧
            signatureAgrees queries replacement
              (queries.metadata.reportedFunction (UInt32.ofNat x.arg)) = some agrees ∧
            result.1 = if agrees && wrapperIsUsable queries replacement
                (getWrapperMethodRef api replacement.wrapperMethod s).2.metadata.appDomainId then
              some (callMatch queries (queries.metadata.reportedFunction (UInt32.ofNat x.arg))
                wrapperMethodRef)
            else none) := by
  rw [Il.matchCall] at h
  cases hcall : x.isCall with
  | false =>
      rw [hcall, if_neg Bool.false_ne_true] at h
      exact Or.inl ⟨rfl, (Option.some.inj h).symm⟩
  | true =>
      rw [hcall, if_pos rfl] at h
      obtain ⟨target, htarget, h⟩ := Option.bind_eq_some_iff.mp h
      have hreported : queries.metadata.reportedFunction (UInt32.ofNat x.arg) = target := by
        rw [MetadataImport.reportedFunction, htarget]
        rfl
      rw [hreported, Bool.true_and]
      cases hcandidate : isCandidate replacement target with
      | false =>
          rw [hcandidate, if_neg Bool.false_ne_true] at h
          exact Or.inl ⟨rfl, (Option.some.inj h).symm⟩
      | true =>
          rw [hcandidate, if_pos rfl] at h
          refine Or.inr ⟨rfl, ?_⟩
          dsimp only at h
          cases href : (getWrapperMethodRef api replacement.wrapperMethod s).1 with
          | none =>
              rw [href, Option.elim_none] at h
              obtain rfl := Option.some.inj h
              exact ⟨rfl, Or.inl ⟨rfl, rfl⟩⟩
          | some wrapperMethodRef =>
              rw [href, Option.elim_some] at h
              obtain ⟨agrees, hagrees, rfl⟩ := Option.map_eq_some_iff.mp h
              exact ⟨rfl, Or.inr ⟨wrapperMethodRef, agrees, rfl, hagrees, rfl⟩⟩

theorem Later.matchCall {result : Option CallMatch × Session M} (h : Later api replacements s₀ s)
    (hmem : replacement ∈ replacements)
    (hmatch : matchCall queries api replacement x s = some result) :
    Later api replacements s₀ result.2 := by
  rcases matchCall_cases hmatch with ⟨-, rfl⟩ | ⟨-, hsession, -⟩
  · exact h
  · rw [hsession]
    exact h.request hmem

/-- The loop replaces just the instructions that meet the conditions. -/
theorem matchCall_isSome {result : Option CallMatch × Session M}
    (hsteady : Steady api replacements s₀)
    (h : Later api replacements s₀ s) (hmem : replacement ∈ replacements)
    (hactive : resolves api replacement s₀ = true → isActive api replacement s₀.metadata = true)
    (hmatch : matchCall queries api replacement x s = some result) :
    result.1.isSome = meets queries api s₀ replacement x := by
  have hresolves := hsteady.resolves_eq s h replacement hmem
  have hdomain := (@appDomainId_getWrapperMethodRef _ api replacement.wrapperMethod s).trans
    h.appDomainId_eq
  rw [meets]
  rcases matchCall_cases hmatch with ⟨hnot, rfl⟩ | ⟨hcandidate, -, ⟨href, hnone⟩ |
    ⟨wrapperMethodRef, agrees, href, hagrees, hfound⟩⟩
  · rw [Bool.and_assoc (isActive api replacement s₀.metadata), hnot, Bool.and_false, Bool.false_and,
      Bool.false_and, Bool.false_and]
    rfl
  · rw [resolves, href, Option.isSome_none] at hresolves
    rw [← hresolves, hnone, Bool.and_false, Bool.false_and, Bool.false_and]
    rfl
  · rw [resolves, href, Option.isSome_some] at hresolves
    rw [Bool.and_assoc (isActive api replacement s₀.metadata), hcandidate, ← hresolves,
      hactive hresolves.symm, hagrees, hfound, hdomain]
    cases agrees with
    | false => rfl
    | true =>
        cases wrapperIsUsable queries replacement s₀.metadata.appDomainId with
        | false => rfl
        | true => rfl

/-- What is found out about an instruction is about a call, and comes from a reference that was
given. -/
theorem matchCall_eq_some (h : matchCall queries api replacement x s = some (some found, s')) :
    x.isCall = true ∧
      isCandidate replacement (queries.metadata.reportedFunction (UInt32.ofNat x.arg)) = true ∧
      ∃ wrapperMethodRef,
        (getWrapperMethodRef api replacement.wrapperMethod s).1 = some wrapperMethodRef ∧
          found = callMatch queries (queries.metadata.reportedFunction (UInt32.ofNat x.arg))
            wrapperMethodRef := by
  rcases matchCall_cases h with ⟨-, hnone⟩ | ⟨hcandidate, -, ⟨-, hnone⟩ |
    ⟨wrapperMethodRef, agrees, href, -, hfound⟩⟩
  · cases hnone
  · cases hnone
  · obtain ⟨hcall, hmatches⟩ := Bool.and_eq_true_iff.mp hcandidate
    split_ifs at hfound
    exact ⟨hcall, hmatches, wrapperMethodRef, href, Option.some.inj hfound⟩

/-- Where the questions about a token have results, the tests have one, and what is boxed too. -/
theorem exists_matchCall (s : Session M) (hmem : replacement ∈ replacements)
    (h : x.isCall = true → Answered queries replacements (UInt32.ofNat x.arg)) :
    ∃ result, matchCall queries api replacement x s = some result ∧ ∀ found,
      result.1 = some found → (boxes queries.metadata found.target.signature).isSome := by
  cases hcall : x.isCall with
  | false =>
      refine ⟨(none, s), ?_, nofun⟩
      rw [Il.matchCall, hcall, if_neg Bool.false_ne_true]
  | true =>
      obtain ⟨target, htarget, hanswers⟩ := h hcall
      rw [Il.matchCall, hcall, if_pos rfl, htarget, Option.bind_some]
      cases hcandidate : isCandidate replacement target with
      | false => exact ⟨_, if_neg Bool.false_ne_true, nofun⟩
      | true =>
          obtain ⟨hagrees, hboxes⟩ := hanswers replacement hmem hcandidate
          obtain ⟨agrees, hagrees⟩ := Option.isSome_iff_exists.mp hagrees
          rw [if_pos rfl]
          dsimp only
          cases (getWrapperMethodRef api replacement.wrapperMethod s).1 with
          | none => exact ⟨_, rfl, nofun⟩
          | some wrapperMethodRef =>
              rw [Option.elim_some, hagrees]
              refine ⟨_, rfl, fun found hfound => ?_⟩
              dsimp only at hfound
              split_ifs at hfound
              obtain rfl := Option.some.inj hfound
              rw [callMatch]
              split_ifs
              · exact hboxes
              · exact hboxes

/-- What is called in place of a call has the signature of the wrapper. -/
theorem describes_of_matchCall (hdescribes : DescribesWrappers queries api replacements s₀)
    (hlater : Later api replacements s₀ s) (hmem : replacement ∈ replacements)
    (h : matchCall queries api replacement x s = some (some found, s')) :
    Describes queries replacement found.wrapperMethodRef := by
  obtain ⟨-, -, wrapperMethodRef, href, rfl⟩ := matchCall_eq_some h
  have hwrapper := hdescribes.wrapper s hlater replacement hmem wrapperMethodRef href
  rw [callMatch]
  split_ifs
  · exact hdescribes.methodSpec _ _ _ hwrapper
  · exact hwrapper

/-- The wrapper has three more arguments than itself. -/
theorem isCandidate_of_describes {token : MdToken} (h : Describes queries replacement token) :
    isCandidate replacement (queries.metadata.reportedFunction token) = false := by
  rw [Bool.eq_false_iff]
  intro hcandidate
  simp only [isCandidate, Bool.and_eq_true, beq_iff_eq] at hcandidate
  obtain ⟨⟨⟨⟨hvalid, -⟩, -⟩, -⟩, hcount⟩ := hcandidate
  rw [h hvalid] at hcount
  omega

end Matches

section Sites

variable {queries : ReplacementQueries} {replacement : MethodReplacement} {found : CallMatch}
variable {id : Nat} {x : ILInstr}

theorem not_isCall_of_ne {z : ILInstr} (hcall : z.opcode ≠ CEE_CALL)
    (hcallvirt : z.opcode ≠ CEE_CALLVIRT) : z.isCall = false := by
  rw [ILInstr.isCall, Bool.or_eq_false_iff, beq_eq_false_iff_ne, beq_eq_false_iff_ne]
  exact ⟨hcall, hcallvirt⟩

theorem not_isCall_int32Fields (value : Int) (id : Nat) :
    ILInstr.isCall ⟨id, (int32Fields value).1, (int32Fields value).2, none⟩ = false := by
  have hopcode : (int32Fields value).1 ≤ CEE_LDC_I4 := by
    rw [int32Fields]
    split_ifs with hsmall
    · have hle : value.toNat ≤ 8 := by omega
      exact (Nat.add_le_add_left hle _).trans (by decide)
    · exact Nat.le_succ _
    · exact Nat.le_refl _
  apply not_isCall_of_ne
  · exact Nat.ne_of_lt (Nat.lt_of_le_of_lt hopcode (by decide))
  · exact Nat.ne_of_lt (Nat.lt_of_le_of_lt hopcode (by decide))

theorem not_isCall_boxNodes {operands : List BoxOperand} {z : ILInstr}
    (hz : z ∈ boxNodes queries id operands) : z.isCall = false := by
  obtain ⟨k, hk, rfl⟩ := List.mem_mapIdx.mp hz
  rfl

/-- In front of the call of the wrapper nothing is a call, and neither behind it. -/
theorem exists_siteNodes_eq : ∃ pushes unbox,
    siteNodes queries replacement found id x = { x with opcode := CEE_NOP } :: (pushes ++
      ⟨id + (boxedOperands queries found.target).length, CEE_CALL,
        found.wrapperMethodRef.toNat, none⟩ :: unbox) ∧
      (∀ z ∈ pushes, z.isCall = false) ∧ ∀ z ∈ unbox, z.isCall = false := by
  let call := id + (boxedOperands queries found.target).length
  refine ⟨boxNodes queries id (boxedOperands queries found.target) ++
    [⟨call + 1, (int32Fields x.opcode).1, (int32Fields x.opcode).2, none⟩,
      ⟨call + 2, (int32Fields (tokenInt32 found.methodDefMdToken)).1,
        (int32Fields (tokenInt32 found.methodDefMdToken)).2, none⟩,
      ⟨call + 3, CEE_LDC_I8, queries.moduleVersionIdPtr.toNat, none⟩],
    (unboxToken queries replacement found.target).toList.map fun token =>
      ⟨call + 4, CEE_UNBOX_ANY, token.toNat, none⟩, ?_, ?_, ?_⟩
  · simp [siteNodes, wrapperNodes, call]
  · intro z hz
    rcases List.mem_append.mp hz with hbox | hload
    · exact not_isCall_boxNodes hbox
    · simp only [List.mem_cons, List.not_mem_nil, or_false] at hload
      rcases hload with rfl | rfl | rfl
      · exact not_isCall_int32Fields _ _
      · exact not_isCall_int32Fields _ _
      · rfl
  · intro z hz
    obtain ⟨token, -, rfl⟩ := List.mem_map.mp hz
    rfl

end Sites

section Walks

variable {queries : ReplacementQueries} {M : Type*} {api : MetadataInterfaces M}
variable {replacements : List MethodReplacement} {s₀ : Session M}
variable {replacement : MethodReplacement}

theorem not_meets_of_not_isCall {x : ILInstr} (h : x.isCall = false) :
    meets queries api s₀ replacement x = false := by
  rw [meets, h, Bool.and_false, Bool.false_and, Bool.false_and, Bool.false_and, Bool.false_and]

/-- What stands in place of a call is not replaced for the same replacement. -/
theorem IsSite.not_meets (hdescribes : DescribesWrappers queries api replacements s₀)
    (hmem : replacement ∈ replacements) (x : ILInstr) (site : List ILInstr)
    (h : IsSite queries api replacements s₀ replacement x site) :
    site ≠ [] ∧ ∀ z ∈ site, meets queries api s₀ replacement z = false := by
  obtain ⟨s, found, s', id, hlater, hmatch, -, rfl⟩ := h
  have hcall := describes_of_matchCall hdescribes hlater hmem hmatch
  obtain ⟨pushes, unbox, hsite, hpushes, hunbox⟩ :=
    @exists_siteNodes_eq queries replacement found id x
  rw [hsite]
  refine ⟨List.cons_ne_nil _ _, ?_⟩
  intro z hz
  rcases List.mem_cons.mp hz with rfl | hz
  · exact not_meets_of_not_isCall rfl
  · rcases List.mem_append.mp hz with hz | hz
    · exact not_meets_of_not_isCall (hpushes z hz)
    · rcases List.mem_cons.mp hz with rfl | hz
      · rw [meets, UInt32.ofNat_toNat, isCandidate_of_describes hcall, Bool.and_false,
          Bool.false_and, Bool.false_and, Bool.false_and]
      · exact not_meets_of_not_isCall (hunbox z hz)

/-- What holds of the state while the loops run. -/
structure ReplacementState.Invariant (api : MetadataInterfaces M)
    (replacements : List MethodReplacement) (s₀ : Session M) (eh : List EHClause)
    (st : ReplacementState M) : Prop where
  apart : NumberedApart st.rewriter
  later : Later api replacements s₀ st.session
  eh_eq : st.rewriter.eh = eh

/-- The cursor in front of the rest of the body, or on the first instruction of it to be passed
over. -/
def cursor (passes : Bool) (rest il : List ILInstr) : InstrRef :=
  if passes then nextRef il (headRef rest) else headRef rest

/-- What one round of the loop does to the rest of the body. -/
theorem replaceOne_cases {x : ILInstr} {before rest : List ILInstr} {st : ReplacementState M}
    {eh : List EHClause} {next : InstrRef × ReplacementState M}
    (hst : st.Invariant api replacements s₀ eh) (hil : st.rewriter.il = before ++ x :: rest)
    (hsteady : Steady api replacements s₀) (hmem : replacement ∈ replacements)
    (hactive : resolves api replacement s₀ = true → isActive api replacement s₀.metadata = true)
    (hone : replaceOne queries api replacement x st = some next) :
    next.2.Invariant api replacements s₀ eh ∧
      ((meets queries api s₀ replacement x = false ∧ next.1 = x.ref ∧
          next.2.rewriter.il = (before ++ [x]) ++ rest) ∨
        ∃ site, meets queries api s₀ replacement x = true ∧
          IsSite queries api replacements s₀ replacement x site ∧ next.1 = headRef rest ∧
          next.2.rewriter.il = (before ++ site) ++ rest) := by
  rw [replaceOne] at hone
  obtain ⟨⟨found, s'⟩, hmatch, hone⟩ := Option.bind_eq_some_iff.mp hone
  have hsome := matchCall_isSome hsteady hst.later hmem hactive hmatch
  have hlater := hst.later.matchCall hmem hmatch
  cases found with
  | none =>
      obtain rfl := Option.some.inj hone
      refine ⟨⟨hst.apart, hlater, hst.eh_eq⟩, Or.inl ⟨hsome.symm, rfl, ?_⟩⟩
      rw [List.append_assoc, List.singleton_append]
      exact hil
  | some found =>
      obtain ⟨replaced, hreplaced, rfl⟩ := Option.map_eq_some_iff.mp hone
      obtain ⟨hcursor, hil', hapart, -, heh⟩ := hst.apart.replaceCall queries replacement found hil
        hreplaced
      have hboxes : (boxes queries.metadata found.target.signature).isSome := by
        rw [Il.replaceCall] at hreplaced
        obtain ⟨operands, hoperands, -⟩ := Option.map_eq_some_iff.mp hreplaced
        exact Option.isSome_iff_exists.mpr ⟨operands, hoperands⟩
      exact ⟨⟨hapart, hlater, heh.trans hst.eh_eq⟩, Or.inr ⟨_, hsome.symm,
        ⟨st.session, found, s', st.rewriter.nInstrs, hst.later, hmatch, hboxes, rfl⟩, hcursor,
        hil'⟩⟩

/-- A round on an instruction about which every question has a result. -/
theorem exists_replaceOne {x : ILInstr} (st : ReplacementState M)
    (hmem : replacement ∈ replacements)
    (h : x.isCall = true → Answered queries replacements (UInt32.ofNat x.arg)) :
    ∃ next, replaceOne queries api replacement x st = some next := by
  obtain ⟨⟨found, s'⟩, hmatch, hboxes⟩ := @exists_matchCall queries M api _ _ _ st.session hmem h
  rw [replaceOne, hmatch, Option.bind_some]
  cases found with
  | none => exact ⟨_, rfl⟩
  | some found =>
      obtain ⟨operands, hoperands⟩ := Option.isSome_iff_exists.mp (hboxes found rfl)
      dsimp only
      rw [Option.elim_some, Il.replaceCall, hoperands]
      exact ⟨_, rfl⟩

/-- More rounds than enough change nothing. -/
theorem replaceFrom_of_le {fuel fuel' : Nat} {ref : InstrRef} {st st' : ReplacementState M}
    (hle : fuel ≤ fuel') (h : replaceFrom queries api replacement fuel ref st = some st') :
    replaceFrom queries api replacement fuel' ref st = some st' := by
  induction fuel generalizing fuel' ref st with
  | zero => cases h
  | succ fuel ih =>
      obtain ⟨fuel', rfl⟩ := Nat.exists_eq_add_of_le' (Nat.lt_of_lt_of_le (Nat.succ_pos fuel) hle)
      rw [replaceFrom] at h ⊢
      cases hnode : nodeAt st.rewriter.il ref with
      | none =>
          rw [hnode] at h
          exact h
      | some x =>
          rw [hnode] at h
          obtain ⟨next, hone, hrest⟩ := Option.bind_eq_some_iff.mp h
          dsimp only
          rw [hone]
          exact ih (Nat.le_of_succ_le_succ hle) hrest

/-- The loop goes on: it returns with some number of rounds, or every question about the calls of
the rest has a result. -/
def GoesOn (queries : ReplacementQueries) (api : MetadataInterfaces M)
    (replacements : List MethodReplacement) (replacement : MethodReplacement) (ref : InstrRef)
    (rest : List ILInstr) (st : ReplacementState M) : Prop :=
  (∃ fuel out, replaceFrom queries api replacement fuel ref st = some out) ∨
    AnsweredCalls queries replacements rest

/-- The loop comes to the next instruction, and goes on behind it. -/
theorem GoesOn.exists_next {x : ILInstr} {rest : List ILInstr} {ref : InstrRef}
    {st : ReplacementState M} (h : GoesOn queries api replacements replacement ref (x :: rest) st)
    (hmem : replacement ∈ replacements) (hnode : nodeAt st.rewriter.il ref = some x) :
    ∃ next, replaceOne queries api replacement x st = some next ∧
      GoesOn queries api replacements replacement (nextRef next.2.rewriter.il next.1) rest
        next.2 := by
  rcases h with ⟨fuel, out, hrun⟩ | hanswered
  · cases fuel with
    | zero => cases hrun
    | succ fuel =>
        rw [replaceFrom, hnode] at hrun
        obtain ⟨next, hone, hrest⟩ := Option.bind_eq_some_iff.mp hrun
        exact ⟨next, hone, Or.inl ⟨fuel, out, hrest⟩⟩
  · rw [AnsweredCalls, List.forall_mem_cons] at hanswered
    obtain ⟨next, hone⟩ := @exists_replaceOne queries M api _ _ _ st hmem hanswered.1
    exact ⟨next, hone, Or.inr hanswered.2⟩

/-- A round of the loop leads to the rounds from the next instruction on. -/
theorem replaceFrom_succ {x : ILInstr} {ref : InstrRef} {st : ReplacementState M}
    {next : InstrRef × ReplacementState M} (fuel : Nat)
    (hnode : nodeAt st.rewriter.il ref = some x)
    (hone : replaceOne queries api replacement x st = some next) :
    replaceFrom queries api replacement (fuel + 1) ref st =
      replaceFrom queries api replacement fuel (nextRef next.2.rewriter.il next.1) next.2 := by
  rw [replaceFrom, hnode]
  dsimp only
  rw [hone, Option.bind_some]

/-- The instruction that the cursor passes over is behind it from then on. -/
theorem GoesOn.passed {x : ILInstr} {before rest : List ILInstr} {st : ReplacementState M}
    (hil : st.rewriter.il = before ++ x :: rest)
    (hne : ∀ y ∈ before, y.id ≠ x.id)
    (h : GoesOn queries api replacements replacement (cursor true (x :: rest) st.rewriter.il)
      (x :: rest) st) :
    cursor true (x :: rest) st.rewriter.il = cursor false rest st.rewriter.il ∧
      GoesOn queries api replacements replacement (cursor false rest st.rewriter.il) rest st := by
  have hcursor : cursor true (x :: rest) st.rewriter.il = cursor false rest st.rewriter.il := by
    rw [hil]
    exact nextRef_append hne
  rw [hcursor] at h
  refine ⟨hcursor, h.imp_right fun hanswered => ?_⟩
  rw [AnsweredCalls, List.forall_mem_cons] at hanswered
  exact hanswered.2

/-- From the cursor on the loop is a walk over the rest, and comes to the front again if the last
instruction has been replaced. -/
theorem replaceFrom_swept (hsteady : Steady api replacements s₀)
    (hmem : replacement ∈ replacements)
    (hactive : resolves api replacement s₀ = true → isActive api replacement s₀.metadata = true)
    {eh : List EHClause} {passes : Bool} {before rest : List ILInstr} {st : ReplacementState M}
    (hst : st.Invariant api replacements s₀ eh) (hil : st.rewriter.il = before ++ rest)
    (hgoes : GoesOn queries api replacements replacement (cursor passes rest st.rewriter.il) rest
      st) :
    ∃ rounds out last st', Swept (meets queries api s₀ replacement)
        (IsSite queries api replacements s₀ replacement) passes rest out last ∧
      st'.rewriter.il = before ++ out ∧ st'.Invariant api replacements s₀ eh ∧
      ∀ fuel, replaceFrom queries api replacement (fuel + rounds)
          (cursor passes rest st.rewriter.il) st =
        if last then replaceFrom queries api replacement fuel (headRef st'.rewriter.il) st'
        else some st' := by
  induction rest generalizing passes before st with
  | nil =>
      cases passes with
      | false =>
          refine ⟨1, [], false, st, .nil false, hil, hst, fun fuel => ?_⟩
          rfl
      | true =>
          refine ⟨0, [], true, st, .nil true, hil, hst, fun fuel => ?_⟩
          rfl
  | cons x rest ih =>
      have hne := hst.apart.ne_of_append hil
      cases passes with
      | true =>
          have hsplit : st.rewriter.il = (before ++ [x]) ++ rest := by
            rw [hil, List.append_assoc, List.singleton_append]
          obtain ⟨hcursor, hgoes'⟩ := hgoes.passed hil hne
          rw [hcursor]
          obtain ⟨rounds, out, last, st', hswept, hil', hst', hrun⟩ :=
            @ih false _ st hst hsplit hgoes'
          refine ⟨rounds, x :: out, last, st', .keep (fun _ => rfl) hswept, ?_, hst', hrun⟩
          rw [hil', List.append_assoc, List.singleton_append]
      | false =>
          have hnode : nodeAt st.rewriter.il (cursor false (x :: rest) st.rewriter.il) =
              some x := by
            rw [hil]
            exact nodeAt_append hne
          obtain ⟨next, hone, hgoes'⟩ := hgoes.exists_next hmem hnode
          obtain ⟨hst₁, ⟨hnot, href, hil₁⟩ | ⟨site, hmeets, hsite, href, hil₁⟩⟩ :=
            replaceOne_cases hst hil hsteady hmem hactive hone
          · have hcursor : nextRef next.2.rewriter.il next.1 =
                cursor false rest next.2.rewriter.il := by
              have hsplit : next.2.rewriter.il = before ++ x :: rest := by
                rw [hil₁, List.append_assoc, List.singleton_append]
              rw [href, hsplit]
              exact nextRef_append (hst₁.apart.ne_of_append hsplit)
            rw [hcursor] at hgoes'
            obtain ⟨rounds, out, last, st', hswept, hil', hst', hrun⟩ :=
              @ih false _ next.2 hst₁ hil₁ hgoes'
            refine ⟨rounds + 1, x :: out, last, st', .keep ?_ hswept, ?_, hst', fun fuel => ?_⟩
            · rw [hnot]
              nofun
            · rw [hil', List.append_assoc, List.singleton_append]
            · rw [← Nat.add_assoc, replaceFrom_succ _ hnode hone, hcursor]
              exact hrun fuel
          · have hcursor : nextRef next.2.rewriter.il next.1 =
                cursor true rest next.2.rewriter.il := by
              rw [href]
              rfl
            rw [hcursor] at hgoes'
            obtain ⟨rounds, out, last, st', hswept, hil', hst', hrun⟩ :=
              @ih true _ next.2 hst₁ hil₁ hgoes'
            refine ⟨rounds + 1, site ++ out, last, st', .expand hmeets hsite hswept, ?_, hst',
              fun fuel => ?_⟩
            · rw [hil', List.append_assoc]
            · rw [← Nat.add_assoc, replaceFrom_succ _ hnode hone, hcursor]
              exact hrun fuel

/-- In place of calls only wrappers are called, about which every question has a result. -/
theorem IsSite.answeredCalls {x : ILInstr} {site : List ILInstr}
    (hwrappers : AnsweredWrappers queries api replacements s₀)
    (hmem : replacement ∈ replacements)
    (h : IsSite queries api replacements s₀ replacement x site) :
    AnsweredCalls queries replacements site := by
  obtain ⟨s, found, s', id, hlater, hmatch, -, rfl⟩ := h
  obtain ⟨pushes, unbox, hsite, hpushes, hunbox⟩ :=
    @exists_siteNodes_eq queries replacement found id x
  have hnot : ∀ {z : ILInstr}, z.isCall = false → z.isCall = true →
      Answered queries replacements (UInt32.ofNat z.arg) := by
    intro z hz hcall
    rw [hz] at hcall
    cases hcall
  rw [hsite, AnsweredCalls, List.forall_mem_cons, List.forall_mem_append, List.forall_mem_cons]
  refine ⟨hnot rfl, fun z hz => hnot (hpushes z hz), fun _ => ?_, fun z hz => hnot (hunbox z hz)⟩
  rw [UInt32.ofNat_toNat]
  exact hwrappers s hlater replacement hmem x found s' hmatch

end Walks

section Replacements

variable (queries : ReplacementQueries) {M : Type*} (api : MetadataInterfaces M)
variable (replacements : List MethodReplacement) (s₀ : Session M)

/-- Each instruction that meets the conditions of the replacement stands replaced, and each other
one is as it was. -/
def ReplacesEach (replacement : MethodReplacement) (il out : List ILInstr) : Prop :=
  ∃ place : ILInstr → List ILInstr, out = il.flatMap place ∧ ∀ x ∈ il,
    if meets queries api s₀ replacement x then
      IsSite queries api replacements s₀ replacement x (place x)
    else place x = [x]

/-- No two instructions that directly follow each other both meet the conditions, or an odd number
of them do at the end. -/
def PassesNone (replacement : MethodReplacement) (il : List ILInstr) : Prop :=
  NoneAdjacent (meets queries api s₀ replacement) il ∨
    trailing (meets queries api s₀ replacement) il % 2 = 1

/-- With enough rounds the loop for the replacement leads from one state to the other. -/
def Processes (replacement : MethodReplacement) (st st' : ReplacementState M) : Prop :=
  ∃ rounds, ∀ fuel, rounds ≤ fuel → processReplacement queries api fuel replacement st = some st'

end Replacements

section Loops

variable {queries : ReplacementQueries} {M : Type*} {api : MetadataInterfaces M}
variable {replacements : List MethodReplacement} {s₀ : Session M}
variable {replacement : MethodReplacement} {st st' : ReplacementState M} {eh : List EHClause}

/-- Nothing is left that meets the conditions. -/
theorem ReplacesEach.not_meets {il out : List ILInstr}
    (h : ReplacesEach queries api replacements s₀ replacement il out)
    (hSite : ∀ x site, IsSite queries api replacements s₀ replacement x site →
      site ≠ [] ∧ ∀ z ∈ site, meets queries api s₀ replacement z = false) :
    ∀ z ∈ out, meets queries api s₀ replacement z = false := by
  obtain ⟨place, rfl, hplace⟩ := h
  intro z hz
  obtain ⟨x, hx, hz⟩ := List.mem_flatMap.mp hz
  have hpiece := hplace x hx
  split_ifs at hpiece with hmeets
  · exact (hSite x _ hpiece).2 z hz
  · rw [hpiece, List.mem_singleton] at hz
    rw [hz]
    exact Bool.eq_false_iff.mpr hmeets

theorem Processes.unique {st'' : ReplacementState M}
    (h : Processes queries api replacement st st')
    (h' : Processes queries api replacement st st'') : st' = st'' := by
  obtain ⟨rounds, hrun⟩ := h
  obtain ⟨rounds', hrun'⟩ := h'
  have hfirst := hrun (max rounds rounds') (le_max_left _ _)
  have hsecond := hrun' (max rounds rounds') (le_max_right _ _)
  exact Option.some.inj (hfirst.symm.trans hsecond)

theorem NumberedApart.nodup_il {r : ILRewriter} (h : NumberedApart r) : r.il.Nodup :=
  List.Nodup.of_map _ h.nodup

/-- The loop for the replacement ends: it returns with some number of rounds, or every question
about the calls of the body and about the wrappers has a result. -/
def LoopGoesOn (queries : ReplacementQueries) (api : MetadataInterfaces M)
    (replacements : List MethodReplacement) (s₀ : Session M) (replacement : MethodReplacement)
    (st : ReplacementState M) : Prop :=
  (∃ fuel out, processReplacement queries api fuel replacement st = some out) ∨
    AnsweredCalls queries replacements st.rewriter.il ∧
      AnsweredWrappers queries api replacements s₀

/-- When the first walk comes to the front again, the loop goes on there. -/
theorem LoopGoesOn.again {rounds : Nat} {out : List ILInstr}
    (h : LoopGoesOn queries api replacements s₀ replacement st)
    (hactive : isActive api replacement st.session.metadata = true)
    (hmem : replacement ∈ replacements)
    (hswept : Swept (meets queries api s₀ replacement)
      (IsSite queries api replacements s₀ replacement) false st.rewriter.il out true)
    (hout : st'.rewriter.il = out)
    (hrun : ∀ fuel, replaceFrom queries api replacement (fuel + rounds)
        (headRef st.rewriter.il) st =
      replaceFrom queries api replacement fuel (headRef st'.rewriter.il) st') :
    GoesOn queries api replacements replacement (headRef st'.rewriter.il) st'.rewriter.il st' := by
  rcases h with ⟨fuel, result, hprocess⟩ | ⟨hcalls, hwrappers⟩
  · rw [processReplacement, if_pos hactive] at hprocess
    refine Or.inl ⟨fuel, result, ?_⟩
    rw [← hrun]
    exact replaceFrom_of_le (Nat.le_add_right fuel rounds) hprocess
  · rw [hout]
    exact Or.inr (hswept.forall_mem hcalls fun x site hsite =>
      hsite.answeredCalls hwrappers hmem)

/-- The loop for a replacement ends, after one walk or two. -/
theorem exists_processes (hsteady : Steady api replacements s₀)
    (hdescribes : DescribesWrappers queries api replacements s₀)
    (hmem : replacement ∈ replacements) (hst : st.Invariant api replacements s₀ eh)
    (hgoes : LoopGoesOn queries api replacements s₀ replacement st) :
    ∃ st', Processes queries api replacement st st' ∧ st'.Invariant api replacements s₀ eh ∧
      Walked (meets queries api s₀ replacement)
        (IsSite queries api replacements s₀ replacement) st.rewriter.il st'.rewriter.il := by
  by_cases hactive : isActive api replacement st.session.metadata = true
  · have hactive₀ : resolves api replacement s₀ = true →
        isActive api replacement s₀.metadata = true := by
      intro hresolves
      rw [← hsteady.isActive_eq _ hst.later replacement hmem hresolves]
      exact hactive
    have hfirst : GoesOn queries api replacements replacement
        (cursor false st.rewriter.il st.rewriter.il) st.rewriter.il st := by
      refine Or.imp ?_ And.left hgoes
      rintro ⟨fuel, out, hprocess⟩
      rw [processReplacement, if_pos hactive] at hprocess
      exact ⟨fuel, out, hprocess⟩
    obtain ⟨rounds, out, last, st', hswept, hil', hst', hrun⟩ :=
      @replaceFrom_swept queries _ _ _ _ _ hsteady hmem hactive₀ _ false [] st.rewriter.il st hst
        rfl hfirst
    have hprocess : ∀ {st'' : ReplacementState M} {rounds : Nat},
        (∀ fuel, replaceFrom queries api replacement (fuel + rounds)
          (nextRef st.rewriter.il .sentinel) st = some st'') →
        Processes queries api replacement st st'' := by
      intro st'' rounds hrun
      refine ⟨rounds, fun fuel hfuel => ?_⟩
      obtain ⟨more, rfl⟩ := Nat.exists_eq_add_of_le' hfuel
      rw [processReplacement, if_pos hactive]
      exact hrun more
    rw [List.nil_append] at hil'
    cases last with
    | false =>
        refine ⟨st', hprocess hrun, hst', ?_⟩
        rw [hil']
        exact .once hswept
    | true =>
        have hsecond := hgoes.again hactive hmem hswept hil' hrun
        obtain ⟨rounds', out', last', st'', hswept', hil'', hst'', hrun'⟩ :=
          @replaceFrom_swept queries _ _ _ _ _ hsteady hmem hactive₀ _ false [] st'.rewriter.il st'
            hst' rfl hsecond
        have hSite := IsSite.not_meets hdescribes hmem
        rw [hil'] at hswept'
        obtain rfl := hswept.again_last hswept' hSite
        refine ⟨st'', @hprocess st'' (rounds + rounds') fun fuel => ?_, hst'', ?_⟩
        · have hfirst := hrun (fuel + rounds')
          rw [if_pos rfl] at hfirst
          rw [Nat.add_comm rounds, ← Nat.add_assoc]
          exact hfirst.trans (hrun' fuel)
        · rw [hil'', List.nil_append]
          exact .twice (hswept.last_iff.mp rfl) (hswept.again hswept' (fun _ => rfl) hSite)
  · have hmeets : ∀ x, meets queries api s₀ replacement x = false := by
      intro x
      rw [Bool.eq_false_iff]
      intro hmeets
      simp only [meets, Bool.and_eq_true] at hmeets
      apply hactive
      rw [hsteady.isActive_eq _ hst.later replacement hmem hmeets.1.1.2]
      exact hmeets.1.1.1.1.1
    exact ⟨st, ⟨0, fun fuel _ => if_neg hactive⟩, hst, .once (swept_of_forall fun x _ => hmeets x)⟩

/-- What a loop leaves has answered calls only, when the body it began with has. -/
theorem answeredCalls_of_walked (hwrappers : AnsweredWrappers queries api replacements s₀)
    (hmem : replacement ∈ replacements) {il out : List ILInstr}
    (h : Walked (meets queries api s₀ replacement)
      (IsSite queries api replacements s₀ replacement) il out)
    (hcalls : AnsweredCalls queries replacements il) : AnsweredCalls queries replacements out := by
  have hSite : ∀ x site, IsSite queries api replacements s₀ replacement x site → ∀ z ∈ site,
      z.isCall = true → Answered queries replacements (UInt32.ofNat z.arg) := fun x site hsite =>
    hsite.answeredCalls hwrappers hmem
  cases h with
  | once h => exact h.forall_mem hcalls hSite
  | twice hodd h => exact h.forall_mem hcalls hSite

/-- Each call has been replaced exactly if the loop passes over none. -/
theorem replacesEach_iff {il out : List ILInstr} (hnodup : il.Nodup)
    (hdescribes : DescribesWrappers queries api replacements s₀)
    (hmem : replacement ∈ replacements)
    (h : Walked (meets queries api s₀ replacement)
      (IsSite queries api replacements s₀ replacement) il out) :
    ReplacesEach queries api replacements s₀ replacement il out ↔
      PassesNone queries api s₀ replacement il := by
  constructor
  · intro hreplaces
    exact h.passes_of_forall (hreplaces.not_meets (IsSite.not_meets hdescribes hmem))
  · intro hpasses
    exact (h.expands hpasses).exists_place hnodup

end Loops

end SignalFxTracing.Il
