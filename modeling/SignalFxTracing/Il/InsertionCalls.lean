import SignalFxTracing.Il.BodyBytes
import SignalFxTracing.Il.EntryCall
import SignalFxTracing.Metadata.WrapperCollisions
import Mathlib.Data.List.ReduceOption

/-!
# Inserting calls (`CorProfiler::ProcessInsertionCalls`, `cor_profiler.cpp`)

For each replacement with the action `InsertFirst` the wrapper is called in front
of the body, in front of the calls that have been inserted before. The body is
exported when a call has been inserted.
-/

namespace SignalFxTracing.Il

open Clr Metadata Lib Lib.MapOption

/-- The body and the caches of the module while the loop runs. -/
structure InsertionState (M : Type*) where
  rewriter : ILRewriter
  session : Session M
  firstInstr : InstrRef
  modified : Bool

section Loop

variable {M : Type*} (api : MetadataInterfaces M)

/-- The body of the loop. -/
def insertOne (replacement : MethodReplacement) (st : InsertionState M) : InsertionState M :=
  let wrapper := replacement.wrapperMethod
  if wrapper.action == text "ReplaceTargetMethod" then st
  else if
      st.session.metadata.failedWrapperKeys.contains (wrapper.getMethodCacheKey api.platform) then
    st
  else
    match getWrapperMethodRef api wrapper st.session with
    | (none, s) => { st with session := s }
    | (some wrapperMethodRef, s) =>
        if wrapper.action == text "InsertFirst" then
          let rewriter := st.rewriter.callMember st.firstInstr wrapperMethodRef.toNat false
          ⟨rewriter, s, prevRef rewriter.il st.firstInstr, true⟩
        else { st with session := s }

/-- `ProcessInsertionCalls`, up to `Export`. -/
def processInsertionCalls (methodReplacements : List MethodReplacement) (st : InsertionState M) :
    InsertionState M :=
  methodReplacements.foldl (fun st replacement => insertOne api replacement st) st

/-- The state behind the import. -/
def InsertionState.start (r : ILRewriter) (s : Session M) : InsertionState M :=
  ⟨r, s, nextRef r.il .sentinel, false⟩

end Loop

section Front

variable {il : List ILInstr} {eh : List EHClause} {what : ILInstr}

/-- Calls of members that nothing in the body refers to, each in front of those that have been
inserted before. -/
inductive CallsBefore (il : List ILInstr) (eh : List EHClause) : List ILInstr → Prop
  | nil : CallsBefore il eh []
  | cons {x : ILInstr} {calls : List ILInstr} (hcall : x.opcode = CEE_CALL)
      (hfresh : Unreferenced x (calls ++ il) eh) (h : CallsBefore il eh calls) :
      CallsBefore il eh (x :: calls)

/-- Nothing in the body refers to a node that nothing but calls have been put in front of. -/
theorem Unreferenced.cons {call : ILInstr} (h : Unreferenced what il eh)
    (hne : call.ref ≠ what.ref) (htarget : call.target = none) :
    Unreferenced what (call :: il) eh where
  ids := List.forall_mem_cons.mpr ⟨hne, h.ids⟩
  targets := by
    apply List.forall_mem_cons.mpr ⟨?_, h.targets⟩
    intro ref href
    rw [htarget] at href
    cases href
  tryBegin := h.tryBegin
  tryEnd := h.tryEnd
  enters := h.enters

theorem Unreferenced.append {calls : List ILInstr} (h : Unreferenced what il eh)
    (hcalls : ∀ x ∈ calls, x.ref ≠ what.ref ∧ x.target = none) :
    Unreferenced what (calls ++ il) eh := by
  induction calls with
  | nil => exact h
  | cons x calls ih =>
      obtain ⟨⟨hne, htarget⟩, hrest⟩ := List.forall_mem_cons.mp hcalls
      exact (ih hrest).cons hne htarget

theorem CallsBefore.opcode {calls : List ILInstr} (h : CallsBefore il eh calls) :
    ∀ x ∈ calls, x.opcode = CEE_CALL := by
  induction h with
  | nil => exact fun _ hx => absurd hx List.not_mem_nil
  | cons hcall _ _ ih => exact List.forall_mem_cons.mpr ⟨hcall, ih⟩

theorem CallsBefore.not_mem {calls : List ILInstr} (h : CallsBefore il eh calls) :
    ∀ x ∈ calls, x ∉ il := by
  induction h with
  | nil => exact fun _ hx => absurd hx List.not_mem_nil
  | cons _ hfresh _ ih =>
      apply List.forall_mem_cons.mpr ⟨?_, ih⟩
      intro hmem
      exact hfresh.ids _ (List.mem_append_right _ hmem) rfl

theorem CallsBefore.ref_ne {x : ILInstr} {calls : List ILInstr}
    (h : CallsBefore il eh (x :: calls)) : ∀ y ∈ il, y.ref ≠ x.ref := by
  cases h with
  | cons _ hfresh _ => exact fun y hy => hfresh.ids y (List.mem_append_right _ hy)

/-- An invocation executes the calls, in order and once, and then the body as before. -/
theorem CallsBefore.isExecution_iff {calls : List ILInstr} (h : CallsBefore il eh calls)
    {path : List ILInstr} :
    IsExecution (calls ++ il) eh path ↔
      path <+: calls ∨ ∃ rest, path = calls ++ rest ∧ IsExecution il eh rest := by
  induction h generalizing path with
  | nil =>
      rw [List.nil_append, List.prefix_nil]
      constructor
      · exact fun hpath => Or.inr ⟨path, rfl, hpath⟩
      · rintro (rfl | ⟨rest, rfl, hrest⟩)
        · exact ⟨by simp, by simp⟩
        · exact hrest
  | @cons x calls hcall hfresh _ ih =>
      rw [List.cons_append, hfresh.isExecution_iff hcall]
      constructor
      · rintro (rfl | ⟨rest, rfl, hrest⟩)
        · exact Or.inl List.nil_prefix
        · rcases ih.mp hrest with hstarts | ⟨behind, rfl, hbehind⟩
          · exact Or.inl (List.cons_prefix_cons.mpr ⟨rfl, hstarts⟩)
          · exact Or.inr ⟨behind, rfl, hbehind⟩
      · rintro (hstarts | ⟨rest, rfl, hrest⟩)
        · cases path with
          | nil => exact Or.inl rfl
          | cons y path =>
              obtain ⟨rfl, hbehind⟩ := List.cons_prefix_cons.mp hstarts
              exact Or.inr ⟨path, rfl, ih.mpr (Or.inl hbehind)⟩
        · exact Or.inr ⟨calls ++ rest, rfl, ih.mpr (Or.inr ⟨rest, rfl, hrest⟩)⟩

end Front

section Caches

variable {M : Type*} {api : MetadataInterfaces M} {s : Session M} {key : Text} {token : MdToken}

theorem findWrapperTypeRef_refs (api : MetadataInterfaces M) (s : Session M)
    (moduleToken : MdToken) (r : MethodReference) :
    (findWrapperTypeRef api moduleToken r s).2.metadata.wrapperRefs = s.metadata.wrapperRefs ∧
      (findWrapperTypeRef api moduleToken r s).2.metadata.failedWrapperKeys =
        s.metadata.failedWrapperKeys := by
  rw [findWrapperTypeRef]
  split
  next => exact ⟨rfl, rfl⟩
  next =>
    dsimp only
    split
    next => exact ⟨rfl, rfl⟩
    next => exact ⟨rfl, rfl⟩

/-- A reference that has been stored is kept, and its key does not fail any more. -/
theorem storeWrapperMethodRef_keeps (api : MetadataInterfaces M) (moduleToken : MdToken)
    (r : MethodReference)
    (h : s.metadata.tryGetWrapperMemberRef key = some token) :
    (storeWrapperMethodRef api moduleToken r s).2.metadata.tryGetWrapperMemberRef key =
        some token ∧
      (key ∈ (storeWrapperMethodRef api moduleToken r s).2.metadata.failedWrapperKeys →
        key ∈ s.metadata.failedWrapperKeys) := by
  rw [ModuleMetadata.tryGetWrapperMemberRef] at h
  rw [storeWrapperMethodRef]
  split
  next => exact ⟨h, id⟩
  next hmiss =>
    have hne : key ≠ r.getMethodCacheKey api.platform := by
      rintro rfl
      rw [ModuleMetadata.tryGetWrapperMemberRef, h] at hmiss
      cases hmiss
    obtain ⟨hrefs, hfailed⟩ := findWrapperTypeRef_refs api s moduleToken r
    have hfound : (findWrapperTypeRef api moduleToken r s).2.metadata.wrapperRefs key =
        some token := by rw [hrefs, h]
    have hrecorded : ∀ {t : Session M}, t.metadata.failedWrapperKeys =
        s.metadata.failedWrapperKeys →
        key ∈ (t.recordFailure api r).metadata.failedWrapperKeys →
          key ∈ s.metadata.failedWrapperKeys := by
      intro t ht hmem
      rw [Session.recordFailure, ModuleMetadata.setFailedWrapperMemberKey] at hmem
      dsimp only at hmem
      rw [ht] at hmem
      exact (List.mem_insert_iff.mp hmem).resolve_left hne
    dsimp only
    split
    next => exact ⟨hfound, hrecorded hfailed⟩
    next =>
      split
      next => exact ⟨hfound, hrecorded hfailed⟩
      next =>
        refine ⟨?_, fun hmem => hfailed ▸ hmem⟩
        rw [ModuleMetadata.tryGetWrapperMemberRef, ModuleMetadata.setWrapperMemberRef]
        dsimp only
        rw [KeyedCache.store_of_ne _ _ hne, hfound]

theorem getWrapperMethodRef_keeps (r : MethodReference)
    (h : s.metadata.tryGetWrapperMemberRef key = some token) :
    (getWrapperMethodRef api r s).2.metadata.tryGetWrapperMemberRef key = some token ∧
      (key ∈ (getWrapperMethodRef api r s).2.metadata.failedWrapperKeys →
        key ∈ s.metadata.failedWrapperKeys) := by
  rw [getWrapperMethodRef]
  split
  next => exact ⟨h, id⟩
  next =>
    dsimp only
    split
    next =>
      split
      next => exact ⟨h, id⟩
      next =>
        let ready : Session M := { s with
          runtime := emitAssemblyRef api r.assembly
            (api.getModuleFromScope (api.moduleInfoIsValid s.runtime).2).2 }
        have hready : ready.metadata.tryGetWrapperMemberRef key = some token := h
        have hkeeps := storeWrapperMethodRef_keeps api
          (api.getModuleFromScope (api.moduleInfoIsValid s.runtime).2).1.2 r hready
        split
        next => exact hkeeps
        next => exact hkeeps
    next => exact ⟨h, id⟩

end Caches

section Front

variable {m : IlMethod} {r : ILRewriter}

/-- A node with a later number is referred to by nothing that has been imported. -/
theorem unreferenced_of_le {what : ILInstr} (h : importMethod m = some r)
    (hid : r.nInstrs ≤ what.id) : Unreferenced what r.il r.eh := by
  have hnode : ∀ x ∈ r.il, x.ref ≠ what.ref := by
    intro x hx href
    have hlt := id_lt_of_importMethod h hx
    have heq : x.id = what.id := InstrRef.instr.inj href
    omega
  have himported : ∀ ref, (ref = .sentinel ∨ ∃ x ∈ r.il, ref = x.ref) → ref ≠ what.ref := by
    rintro ref (rfl | ⟨x, hx, rfl⟩)
    · simp [ILInstr.ref]
    · exact hnode x hx
  constructor
  case ids => exact hnode
  case targets =>
    intro x hx ref htarget
    exact himported ref (target_of_importMethod h hx htarget)
  case tryBegin =>
    intro c hc
    exact himported _ (try_of_importMethod h hc (Or.inl rfl))
  case tryEnd =>
    intro c hc
    exact himported _ (try_of_importMethod h hc (Or.inr rfl))
  case enters =>
    intro c hc ref henters
    exact himported ref (starts_of_importMethod h hc henters)

/-- The calls that have been inserted into an imported body, the last one first. -/
structure InsertedCalls (r : ILRewriter) (rewriter : ILRewriter) (calls : List ILInstr)
    (tokens : List MdToken) : Prop where
  il : rewriter.il = calls ++ r.il
  before : CallsBefore r.il r.eh calls
  args : calls.map ILInstr.arg = tokens.map fun token => token.toNat
  nodes : ∀ x ∈ calls, x.target = none ∧ r.nInstrs ≤ x.id ∧ x.id < rewriter.nInstrs
  inserted : InsertedInto r rewriter
  nInstrs : rewriter.nInstrs = r.nInstrs + calls.length

theorem prevRef_firstRef {x : ILInstr} {il : List ILInstr} (h : ∀ y ∈ il, y.id ≠ x.id) :
    prevRef (x :: il) (firstRef il) = x.ref := by
  cases il with
  | nil => rfl
  | cons y il =>
      have hne : x.id ≠ y.id := fun heq => h y List.mem_cons_self heq.symm
      have htake : (x :: y :: il).takeWhile (fun z => z.id ≠ y.id) = [x] := by
        rw [List.takeWhile_cons_of_pos (by simpa using hne),
          List.takeWhile_cons_of_neg (by simp)]
      change prevRef (x :: y :: il) (.instr y.id) = x.ref
      rw [prevRef, htake]
      rfl

/-- Another call is put in front of the others. -/
theorem InsertedCalls.callMember {rewriter : ILRewriter} {calls : List ILInstr}
    {tokens : List MdToken} (h : InsertedCalls r rewriter calls tokens)
    (himport : importMethod m = some r) (htabled : Tabled 0 r.il) (token : MdToken) :
    let next := rewriter.callMember (nextRef rewriter.il .sentinel) token.toNat false
    ∃ x, InsertedCalls r next (x :: calls) (token :: tokens) ∧
      prevRef next.il (nextRef rewriter.il .sentinel) = nextRef next.il .sentinel := by
  intro next
  let x : ILInstr := ⟨rewriter.nInstrs, CEE_CALL, token.toNat, none⟩
  have hle : r.nInstrs ≤ rewriter.nInstrs := by
    rw [h.nInstrs]
    exact Nat.le_add_right _ _
  have hil : next.il = x :: rewriter.il := insertBefore_first rewriter x
  have hcalls : ∀ y ∈ calls, y.ref ≠ x.ref ∧ y.target = none := by
    intro y hy
    obtain ⟨htarget, -, hlt⟩ := h.nodes y hy
    refine ⟨fun heq => ?_, htarget⟩
    have hid : y.id = rewriter.nInstrs := InstrRef.instr.inj heq
    omega
  have hfresh : Unreferenced x (calls ++ r.il) r.eh :=
    (unreferenced_of_le himport hle).append hcalls
  have hids : ∀ y ∈ rewriter.il, y.id ≠ x.id := by
    intro y hy heq
    rw [h.il] at hy
    exact hfresh.ids y hy (congrArg InstrRef.instr heq)
  have hplace : ∀ y ∈ r.il, y.ref = nextRef rewriter.il .sentinel → y.isSwitchArg = false := by
    intro y hy heq
    cases calls with
    | cons first calls =>
        rw [h.il] at heq
        exact absurd heq (h.before.ref_ne y hy)
    | nil =>
        rw [h.il, List.nil_append] at heq
        have hnodup := (Edited.imported himport).numberedApart.nodup_ref
        cases hfirst : r.il with
        | nil =>
            rw [hfirst] at hy
            cases hy
        | cons z rest =>
            rw [hfirst] at hy heq hnodup htabled
            rcases List.mem_cons.mp hy with rfl | hrest
            · exact htabled.1
            · have hz : z.ref ∉ rest.map ILInstr.ref := (List.nodup_cons.mp hnodup).1
              have href : y.ref = z.ref := heq
              exact absurd (href ▸ List.mem_map_of_mem hrest) hz
  refine ⟨x, ?_, ?_⟩
  · constructor
    case il => rw [hil, h.il, List.cons_append]
    case before => exact .cons rfl hfresh h.before
    case args => rw [List.map_cons, List.map_cons, h.args]
    case nodes =>
      rw [List.forall_mem_cons]
      refine ⟨⟨rfl, hle, Nat.lt_succ_self _⟩, fun y hy => ?_⟩
      obtain ⟨htarget, hge, hlt⟩ := h.nodes y hy
      exact ⟨htarget, hge, Nat.lt_succ_of_lt hlt⟩
    case inserted =>
      apply h.inserted.newILInstr.insertBefore _ (Nat.lt_succ_self _)
      · intro hmem
        obtain ⟨y, hy, hid⟩ := List.mem_map.mp hmem
        exact hids y hy hid
      · exact hplace
    case nInstrs =>
      have hcount : next.nInstrs = rewriter.nInstrs + 1 := rfl
      rw [hcount, h.nInstrs, List.length_cons, Nat.add_assoc]
  · rw [hil]
    exact prevRef_firstRef hids

end Front

section Runs

variable {M : Type*} {api : MetadataInterfaces M} {tables : MetadataTables M}
  {replacements : List MethodReplacement} {m : IlMethod} {r : ILRewriter} {s₀ : Session M}

/-- The reference with which a wrapper is called, if it is: the one that is stored for it. It is
called when its reference had been stored before and had not failed. -/
structure ReferenceFor (platform : Platform) (s₀ s : Session M) (replacement : MethodReplacement)
    (ref : Option MdToken) : Prop where
  stored : ∀ token, ref = some token → replacement.wrapperMethod.action = text "InsertFirst" ∧
    s.metadata.tryGetWrapperMemberRef
      (replacement.wrapperMethod.getMethodCacheKey platform) = some token
  known : ∀ token, replacement.wrapperMethod.action = text "InsertFirst" →
    s₀.metadata.tryGetWrapperMemberRef
      (replacement.wrapperMethod.getMethodCacheKey platform) = some token →
    replacement.wrapperMethod.getMethodCacheKey platform ∉ s₀.metadata.failedWrapperKeys →
    ref = some token

/-- What the loop has done for some replacements. -/
structure Inserts (platform : Platform) (tables : MetadataTables M)
    (wrapperMethods : Set MethodReference) (r : ILRewriter) (s₀ : Session M)
    (done : List MethodReplacement) (refs : List (Option MdToken)) (st : InsertionState M) : Prop where
  references : List.Forall₂ (ReferenceFor platform s₀ st.session) done refs
  calls : ∃ calls, InsertedCalls r st.rewriter calls refs.reduceOption.reverse
  firstInstr : st.firstInstr = nextRef st.rewriter.il .sentinel
  modified : st.modified = true ↔ refs.reduceOption ≠ []
  kept : ∀ key token, s₀.metadata.tryGetWrapperMemberRef key = some token →
    st.session.metadata.tryGetWrapperMemberRef key = some token ∧
      (key ∈ st.session.metadata.failedWrapperKeys → key ∈ s₀.metadata.failedWrapperKeys)
  faithful : st.session.Faithful platform tables wrapperMethods

theorem inserts_start (hs : s₀.Faithful api.platform tables (wrappers replacements)) :
    Inserts api.platform tables (wrappers replacements) r s₀ [] [] (.start r s₀) where
  references := .nil
  calls := ⟨[], rfl, .nil, rfl, fun _ hx => absurd hx List.not_mem_nil, .refl, rfl⟩
  firstInstr := rfl
  modified := by simp [InsertionState.start]
  kept := fun _ _ h => ⟨h, id⟩
  faithful := hs

section Step

variable {done : List MethodReplacement} {refs : List (Option MdToken)} {st : InsertionState M}
  {s : Session M} {replacement : MethodReplacement} {ref : Option MdToken}

/-- The caches of `s` hold what those of the loop hold. -/
def Keeps (st : InsertionState M) (s : Session M) : Prop :=
  ∀ key token, st.session.metadata.tryGetWrapperMemberRef key = some token →
    s.metadata.tryGetWrapperMemberRef key = some token ∧
      (key ∈ s.metadata.failedWrapperKeys → key ∈ st.session.metadata.failedWrapperKeys)

theorem Inserts.references_append
    (h : Inserts api.platform tables (wrappers replacements) r s₀ done refs st)
    (hkeeps : Keeps st s) (href : ReferenceFor api.platform s₀ s replacement ref) :
    List.Forall₂ (ReferenceFor api.platform s₀ s) (done ++ [replacement]) (refs ++ [ref]) := by
  have hdone : List.Forall₂ (ReferenceFor api.platform s₀ s) done refs := by
    apply h.references.imp
    intro earlier ref href
    refine ⟨fun token htoken => ?_, href.known⟩
    obtain ⟨haction, hstored⟩ := href.stored token htoken
    exact ⟨haction, (hkeeps _ _ hstored).1⟩
  exact List.rel_append hdone (.cons href .nil)

theorem Inserts.kept_trans
    (h : Inserts api.platform tables (wrappers replacements) r s₀ done refs st)
    (hkeeps : Keeps st s) (key : Text) (token : MdToken)
    (hstored : s₀.metadata.tryGetWrapperMemberRef key = some token) :
    s.metadata.tryGetWrapperMemberRef key = some token ∧
      (key ∈ s.metadata.failedWrapperKeys → key ∈ s₀.metadata.failedWrapperKeys) := by
  obtain ⟨hfound, hfailed⟩ := h.kept key token hstored
  obtain ⟨hfound', hfailed'⟩ := hkeeps key token hfound
  exact ⟨hfound', fun hmem => hfailed (hfailed' hmem)⟩

/-- No call is inserted. -/
theorem Inserts.skip (h : Inserts api.platform tables (wrappers replacements) r s₀ done refs st)
    (hs : s.Faithful api.platform tables (wrappers replacements)) (hkeeps : Keeps st s)
    (href : ReferenceFor api.platform s₀ s replacement none) :
    Inserts api.platform tables (wrappers replacements) r s₀ (done ++ [replacement])
      (refs ++ [none])
      { st with session := s } := by
  have hreduce : (refs ++ [none]).reduceOption = refs.reduceOption := by
    rw [List.reduceOption_append]
    exact List.append_nil _
  constructor
  case references => exact h.references_append hkeeps href
  case calls =>
    rw [hreduce]
    exact h.calls
  case firstInstr => exact h.firstInstr
  case modified =>
    rw [hreduce]
    exact h.modified
  case kept => exact h.kept_trans hkeeps
  case faithful => exact hs

/-- A call is inserted in front. -/
theorem Inserts.call (h : Inserts api.platform tables (wrappers replacements) r s₀ done refs st)
    (himport : importMethod m = some r)
    (hs : s.Faithful api.platform tables (wrappers replacements))
    (hkeeps : Keeps st s) {token : MdToken}
    (href : ReferenceFor api.platform s₀ s replacement (some token)) :
    let rewriter := st.rewriter.callMember st.firstInstr token.toNat false
    Inserts api.platform tables (wrappers replacements) r s₀ (done ++ [replacement])
      (refs ++ [some token])
      ⟨rewriter, s, prevRef rewriter.il st.firstInstr, true⟩ := by
  intro rewriter
  have hreduce : (refs ++ [some token]).reduceOption = refs.reduceOption ++ [token] := by
    rw [List.reduceOption_append]
    rfl
  obtain ⟨calls, hcalls⟩ := h.calls
  obtain ⟨_, _, -, himports, -⟩ := wholeInstructions_of_importMethod himport
  obtain ⟨x, hx, hfirst⟩ := hcalls.callMember himport himports.tabled token
  constructor
  case references => exact h.references_append hkeeps href
  case calls =>
    rw [hreduce, List.reverse_append]
    refine ⟨x :: calls, ?_⟩
    dsimp only [rewriter]
    rw [h.firstInstr]
    exact hx
  case firstInstr =>
    dsimp only [rewriter]
    rw [h.firstInstr]
    exact hfirst
  case modified =>
    rw [hreduce]
    simp
  case kept => exact h.kept_trans hkeeps
  case faithful => exact hs

theorem getWrapperMethodRef_of_known {r : MethodReference} {token : MdToken}
    (h : s.metadata.tryGetWrapperMemberRef (r.getMethodCacheKey api.platform) = some token) :
    getWrapperMethodRef api r s = (some token, s) := by
  rw [getWrapperMethodRef, h]

theorem referenceFor_none (h : ∀ token, replacement.wrapperMethod.action = text "InsertFirst" →
    s₀.metadata.tryGetWrapperMemberRef
      (replacement.wrapperMethod.getMethodCacheKey api.platform) = some token →
    replacement.wrapperMethod.getMethodCacheKey api.platform ∉ s₀.metadata.failedWrapperKeys →
      False) :
    ReferenceFor api.platform s₀ s replacement none where
  stored := fun _ heq => by cases heq
  known := fun token haction hstored hnot => absurd (h token haction hstored hnot) id

/-- One round of the loop. -/
theorem Inserts.step (h : Inserts api.platform tables (wrappers replacements) r s₀ done refs st)
    (himport : importMethod m = some r) (hdoc : api.Documented tables)
    (hnames : NamesAssemblies (wrappers replacements))
    (hkeys : KeysTellApart (wrappers replacements) api.platform)
    (hmem : replacement ∈ replacements) :
    ∃ ref, Inserts api.platform tables (wrappers replacements) r s₀ (done ++ [replacement])
      (refs ++ [ref])
      (insertOne api replacement st) := by
  rw [insertOne]
  dsimp only
  split
  case isTrue haction =>
    refine ⟨none, h.skip h.faithful (fun _ _ hstored => ⟨hstored, id⟩) (referenceFor_none ?_)⟩
    intro token hfirst
    rw [hfirst] at haction
    exact absurd haction (by decide)
  case isFalse =>
    split
    case isTrue hfailed =>
      refine ⟨none, h.skip h.faithful (fun _ _ hstored => ⟨hstored, id⟩) (referenceFor_none ?_)⟩
      intro token _ hstored hnot
      exact absurd ((h.kept _ _ hstored).2 (List.contains_iff_mem.mp hfailed)) hnot
    case isFalse =>
      have hkeeps : Keeps st (getWrapperMethodRef api replacement.wrapperMethod st.session).2 :=
        fun key token hstored => getWrapperMethodRef_keeps _ hstored
      obtain ⟨hfaithful, hfound⟩ :=
        getWrapperMethodRef_spec hdoc hnames hkeys ⟨replacement, hmem, rfl⟩ h.faithful
      have hknown : ∀ token, s₀.metadata.tryGetWrapperMemberRef
          (replacement.wrapperMethod.getMethodCacheKey api.platform) = some token →
          (getWrapperMethodRef api replacement.wrapperMethod st.session).1 = some token := by
        intro token hstored
        rw [getWrapperMethodRef_of_known (h.kept _ _ hstored).1]
      split
      next s hget =>
        rw [hget] at hkeeps hfaithful hknown
        refine ⟨none, h.skip hfaithful hkeeps (referenceFor_none ?_)⟩
        intro token _ hstored _
        cases hknown token hstored
      next token s hget =>
        rw [hget] at hkeeps hfaithful hknown hfound
        split
        case isTrue haction =>
          refine ⟨some token, h.call himport hfaithful hkeeps ⟨?_, ?_⟩⟩
          · rintro _ ⟨rfl⟩
            exact ⟨eq_of_beq haction, hfound _ rfl⟩
          · exact fun other _ hstored _ => hknown other hstored
        case isFalse haction =>
          refine ⟨none, h.skip hfaithful hkeeps (referenceFor_none ?_)⟩
          intro _ hfirst
          rw [hfirst] at haction
          exact absurd (beq_self_eq_true _) haction

/-- All rounds of the loop. -/
theorem Inserts.run {later : List MethodReplacement}
    (h : Inserts api.platform tables (wrappers replacements) r s₀ done refs st)
    (himport : importMethod m = some r) (hdoc : api.Documented tables)
    (hnames : NamesAssemblies (wrappers replacements))
    (hkeys : KeysTellApart (wrappers replacements) api.platform)
    (hlater : ∀ x ∈ later, x ∈ replacements) :
    ∃ refs, Inserts api.platform tables (wrappers replacements) r s₀ (done ++ later) refs
      (processInsertionCalls api later st) := by
  induction later generalizing done refs st with
  | nil =>
      rw [List.append_nil]
      exact ⟨refs, h⟩
  | cons replacement later ih =>
      obtain ⟨hmem, hlater⟩ := List.forall_mem_cons.mp hlater
      obtain ⟨ref, hstep⟩ := h.step himport hdoc hnames hkeys hmem
      have hrun := ih hstep hlater
      rwa [List.append_assoc, List.singleton_append] at hrun

end Step

end Runs

section Exported

variable {m : IlMethod} {r rewriter : ILRewriter} {calls : List ILInstr} {tokens : List MdToken}

/-- An invocation of the body is the calls of the members, in order, and then an invocation of the
original. -/
def CallsFirst (original body : ILRewriter) (tokens : List MdToken) : Prop :=
  ∃ calls, calls.map ILInstr.arg = tokens.map (fun token => token.toNat) ∧
    (∀ x ∈ calls, x.opcode = CEE_CALL ∧ x ∉ original.il) ∧
    ∀ path, IsExecution body.il body.eh path ↔
      path <+: calls ∨ ∃ rest, path = calls ++ rest ∧ IsExecution original.il original.eh rest

/-- The code is the calls of the members, in order, and behind them the program of the original,
at other offsets. -/
def CallsThenProgram (m m' : IlMethod) (tokens : List MdToken) : Prop :=
  ∃ φ P P₀ front, ContainsProgram φ m m' P (front ++ P₀) ∧ List.Forall₂ (Relocated φ) P P₀ ∧
    front.map Prod.snd = tokens.map fun token => ⟨CEE_CALL, .value token.toNat⟩

theorem InsertedCalls.callsFirst (h : InsertedCalls r rewriter calls tokens) :
    CallsFirst r rewriter tokens := by
  refine ⟨calls, h.args, fun x hx => ⟨h.before.opcode x hx, h.before.not_mem x hx⟩, ?_⟩
  intro path
  rw [h.il, h.inserted.interleaved.2]
  exact h.before.isExecution_iff

theorem tabled_append_of_call {il : List ILInstr} (h : ∀ x ∈ calls, x.opcode = CEE_CALL)
    (hil : Tabled 0 il) : Tabled 0 (calls ++ il) := by
  induction calls with
  | nil => exact hil
  | cons x calls ih =>
      obtain ⟨hx, hrest⟩ := List.forall_mem_cons.mp h
      refine ⟨?_, ?_⟩
      · rw [ILInstr.isSwitchArg, hx]
        rfl
      · have hswitch : x.opcode ≠ CEE_SWITCH := by
          rw [hx]
          decide
        rw [if_neg hswitch]
        exact ih hrest

theorem InsertedCalls.wholeInstructions (h : InsertedCalls r rewriter calls tokens)
    (hwhole : WholeInstructions r) : WholeInstructions rewriter := by
  have hcall := h.before.opcode
  constructor
  case tabled =>
    rw [h.il]
    exact tabled_append_of_call hcall hwhole.tabled
  case encodable =>
    rw [h.il, List.forall_mem_append]
    refine ⟨fun x hx => Or.inr ?_, hwhole.encodable⟩
    rw [hcall x hx]
    decide
  case targets =>
    intro x hx hbranch
    rw [h.il] at hx ⊢
    rcases List.mem_append.mp hx with hx | hx
    · rw [call_isBranch (hcall x hx)] at hbranch
      cases hbranch
    · rcases hwhole.targets x hx hbranch with hend | ⟨y, hy, htarget⟩
      · exact Or.inl hend
      · exact Or.inr ⟨y, List.mem_append_right _ hy, htarget⟩

/-- The instructions of calls in front of a list. -/
theorem programOf_calls {offsetOf : InstrRef → Nat} {il : List ILInstr}
    (h : ∀ x ∈ calls, x.opcode = CEE_CALL)
    (hargs : calls.map ILInstr.arg = tokens.map fun token => token.toNat) :
    ∃ front, programOf offsetOf (calls ++ il) = front ++ programOf offsetOf il ∧
      front.map Prod.snd = tokens.map fun token => ⟨CEE_CALL, .value token.toNat⟩ := by
  induction calls generalizing tokens with
  | nil =>
      rw [List.map_nil, eq_comm, List.map_eq_nil_iff] at hargs
      rw [hargs]
      exact ⟨[], rfl, rfl⟩
  | cons x calls ih =>
      obtain ⟨hx, hrest⟩ := List.forall_mem_cons.mp h
      obtain ⟨token, tokens, rfl, harg, hargs⟩ := List.map_eq_cons_iff.mp hargs.symm
      obtain ⟨front, hfront, hmap⟩ := ih hrest hargs.symm
      have hswitchArg : x.isSwitchArg = false := by
        rw [ILInstr.isSwitchArg, hx]
        rfl
      have hflags : opCodeFlags CEE_CALL = .operand 4 := rfl
      have hlt : token.toNat % 256 ^ 4 = token.toNat := Nat.mod_eq_of_lt token.toNat_lt
      refine ⟨(offsetOf x.ref, ⟨CEE_CALL, .value token.toNat⟩) :: front, ?_, ?_⟩
      · rw [List.cons_append, programOf, if_neg (by rw [hswitchArg]; decide), hfront, operandOf,
          hx, hflags, ← harg]
        dsimp only
        rw [hlt]
        rfl
      · rw [List.map_cons, hmap]
        rfl

/-- Without short branches nothing becomes long. -/
theorem eq_of_widened {il il' : List ILInstr} (h : Widened il il')
    (hshort : ∀ x ∈ il, x.isShort = false) : il' = il := by
  induction h with
  | nil => rfl
  | cons hxy _ ih =>
      obtain ⟨hx, hrest⟩ := List.forall_mem_cons.mp hshort
      rw [ih hrest]
      rcases hxy with rfl | ⟨hx', -⟩
      · rfl
      · rw [hx] at hx'
        cases hx'

/-- The exported body begins with the calls. -/
theorem InsertedCalls.callsThenProgram (h : InsertedCalls r rewriter calls tokens)
    (himport : importMethod m = some r) (hsection : m.eh.Fits)
    (hcount : 10 * rewriter.nInstrs < 2 ^ 32) {start : Encoder} (hstart : rewriter.Starts start) :
    ∃ e, Encoder.encode (shortBranches rewriter.il + 1) start = some e ∧
      CallsThenProgram m (rewriter.exportBody e) tokens := by
  obtain ⟨table, P, -, himports, heh, hwhole⟩ := wholeInstructions_of_importMethod himport
  obtain ⟨e, hencode, he⟩ := (h.wholeInstructions hwhole).exists_encode
    (h.inserted.edited (.imported himport)) hcount hstart
  have hcontains := he.containsProgram himports heh hsection h.inserted
  have hwidened := he.widened
  rw [h.il] at hwidened
  obtain ⟨calls', il₀, hcalls, hil₀, hil⟩ := exists_of_forall₂_append hwidened
  obtain rfl : calls' = calls := by
    apply eq_of_widened hcalls
    intro x hx
    rw [ILInstr.isShort, h.before.opcode x hx]
    rfl
  obtain ⟨front, hprogram, hmap⟩ := @programOf_calls calls' tokens
    (fun ref => (e.offsetOf ref).toNat) il₀ h.before.opcode h.args
  refine ⟨e, hencode, e.relocation table, P, programOf (fun ref => (e.offsetOf ref).toNat) il₀,
    front, ?_, Encoder.relocated_program himports hil₀, hmap⟩
  rw [← hprogram, ← hil]
  exact hcontains

variable {M : Type*} {api : MetadataInterfaces M} {tables : MetadataTables M}
  {replacements methodReplacements : List MethodReplacement} {s₀ : Session M}

/-- The wrapper that is called for a replacement, if one is: its own. One is called when its
reference had been stored before and had not failed. -/
structure CalledFor (platform : Platform) (tables : MetadataTables M) (s₀ s : Session M)
    (replacement : MethodReplacement) (ref : Option MdToken) : Prop where
  own : ∀ token, ref = some token → replacement.wrapperMethod.action = text "InsertFirst" ∧
    tables.memberOf s.runtime token = some replacement.wrapperMethod.member
  known : ∀ token, replacement.wrapperMethod.action = text "InsertFirst" →
    s₀.metadata.tryGetWrapperMemberRef
      (replacement.wrapperMethod.getMethodCacheKey platform) = some token →
    replacement.wrapperMethod.getMethodCacheKey platform ∉ s₀.metadata.failedWrapperKeys →
    ref = some token

/-- The reference that is stored for a wrapper is one of the wrapper. -/
theorem Inserts.calledFor {done : List MethodReplacement} {refs : List (Option MdToken)}
    {st : InsertionState M}
    (h : Inserts api.platform tables (wrappers replacements) r s₀ done refs st)
    (hkeys : KeysTellApart (wrappers replacements) api.platform)
    (hdone : ∀ x ∈ done, x ∈ replacements) :
    List.Forall₂ (CalledFor api.platform tables s₀ st.session) done refs := by
  have hrefs := h.references
  have hfaithful := h.faithful
  clear h
  induction hrefs with
  | nil => exact .nil
  | @cons replacement ref done refs href _ ih =>
      obtain ⟨hmem, hdone⟩ := List.forall_mem_cons.mp hdone
      refine .cons ⟨fun token htoken => ?_, href.known⟩ (ih hdone)
      obtain ⟨haction, hstored⟩ := href.stored token htoken
      refine ⟨haction, hfaithful.members.lookup ?_ ⟨replacement, hmem, rfl⟩ hstored⟩
      intro a ha b hb hkey t hmember
      rw [hmember, hkeys.member a ha b hb hkey]

/-- The wrappers of the replacements are called at the entry of the body, the last one first, each
through a reference of its own; nothing else changes, in the list of nodes and in the code that is
exported for it. -/
theorem processInsertionCalls_callsFirst (himport : importMethod m = some r)
    (hsection : m.eh.Fits) (hdoc : api.Documented tables)
    (hnames : NamesAssemblies (wrappers replacements))
    (hkeys : KeysTellApart (wrappers replacements) api.platform)
    (hs : s₀.Faithful api.platform tables (wrappers replacements))
    (hlisted : ∀ x ∈ methodReplacements, x ∈ replacements) :
    ∃ refs : List (Option MdToken),
      List.Forall₂ (CalledFor api.platform tables s₀
        (processInsertionCalls api methodReplacements (.start r s₀)).session)
          methodReplacements refs ∧
      ((processInsertionCalls api methodReplacements (.start r s₀)).modified = true ↔
        refs.reduceOption ≠ []) ∧
      CallsFirst r (processInsertionCalls api methodReplacements (.start r s₀)).rewriter
        refs.reduceOption.reverse ∧
      (10 * (processInsertionCalls api methodReplacements (.start r s₀)).rewriter.nInstrs <
          2 ^ 32 →
        ∀ start,
          (processInsertionCalls api methodReplacements (.start r s₀)).rewriter.Starts start →
          ∃ turns e, Encoder.encode turns start = some e ∧
            CallsThenProgram m
              ((processInsertionCalls api methodReplacements (.start r s₀)).rewriter.exportBody e)
              refs.reduceOption.reverse) := by
  obtain ⟨refs, hinserts⟩ := (inserts_start hs).run himport hdoc hnames hkeys hlisted
  rw [List.nil_append] at hinserts
  obtain ⟨calls, hcalls⟩ := hinserts.calls
  refine ⟨refs, hinserts.calledFor hkeys hlisted, hinserts.modified, hcalls.callsFirst, ?_⟩
  intro hcount start hstart
  obtain ⟨e, hencode, hprogram⟩ := hcalls.callsThenProgram himport hsection hcount hstart
  exact ⟨_, e, hencode, hprogram⟩

/-- A wrapper that is to be called first. -/
def enterFirst : MethodReplacement where
  callerMethod := { assembly := { name := [] }, typeName := [], methodName := [] }
  targetMethod := { assembly := { name := [] }, typeName := [], methodName := [] }
  wrapperMethod :=
    { assembly := { name := text "SignalFx.Tracing.ClrProfiler.Managed" }
      typeName := text "SignalFx.Tracing.ClrProfiler.Integrations.AspNetStartup"
      methodName := text "Register"
      action := text "InsertFirst"
      methodSignature := [0x00, 0x00, 0x01] }

theorem namesAssemblies_enterFirst : NamesAssemblies (wrappers [enterFirst]) := by
  apply namesAssemblies_of_same enterFirst.wrapperMethod.assembly (by decide)
  intro replacement hreplacement
  rw [List.mem_singleton.mp hreplacement]

theorem keysTellApart_enterFirst : KeysTellApart (wrappers [enterFirst]) .windows := by
  constructor
  all_goals
    rintro _ ⟨a, ha, rfl⟩ _ ⟨b, hb, rfl⟩ -
    rw [List.mem_singleton.mp ha, List.mem_singleton.mp hb]

theorem faithful_enterFirst : Session.Faithful .windows Tables.tables (wrappers [enterFirst])
    ⟨Tables.newMetadata enterFirst.wrapperMethod,
      Tables.soleModule enterFirst.wrapperMethod.assembly.identity, []⟩ :=
  .initial (Tables.knowsNoOther_soleModule namesAssemblies_enterFirst
    ⟨enterFirst, List.mem_singleton_self _, rfl⟩)

/-- The body that calls the wrapper first. -/
def enteredFirst : InsertionState Tables :=
  processInsertionCalls (Tables.interfaces .windows) [enterFirst]
    (.start branchAndReturnImported ⟨Tables.newMetadata enterFirst.wrapperMethod,
      Tables.soleModule enterFirst.wrapperMethod.assembly.identity, []⟩)

theorem enteredFirst_callsFirst : ∃ refs : List (Option MdToken),
    List.Forall₂ (CalledFor .windows Tables.tables
      ⟨Tables.newMetadata enterFirst.wrapperMethod,
        Tables.soleModule enterFirst.wrapperMethod.assembly.identity, []⟩ enteredFirst.session)
      [enterFirst] refs ∧
    (enteredFirst.modified = true ↔ refs.reduceOption ≠ []) ∧
    CallsFirst branchAndReturnImported enteredFirst.rewriter refs.reduceOption.reverse ∧
    (10 * enteredFirst.rewriter.nInstrs < 2 ^ 32 →
      ∀ start, enteredFirst.rewriter.Starts start →
        ∃ turns e, Encoder.encode turns start = some e ∧
          CallsThenProgram branchAndReturn (enteredFirst.rewriter.exportBody e)
            refs.reduceOption.reverse) :=
  processInsertionCalls_callsFirst importMethod_branchAndReturn trivial
    (Tables.interfaces_documented .windows) namesAssemblies_enterFirst keysTellApart_enterFirst
    faithful_enterFirst fun _ hx => hx

end Exported

end SignalFxTracing.Il
