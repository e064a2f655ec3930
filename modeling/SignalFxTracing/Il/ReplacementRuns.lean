import SignalFxTracing.Il.Coverage

/-!
# All loops over a body (`CorProfiler::ProcessReplacementCalls`, `cor_profiler.cpp`)

The loops for the replacements run one after the other, each on the body that
the one before it has left. A call that meets the conditions of one of them is
turned into one call of a wrapper, which a later loop may replace in turn.
-/

namespace SignalFxTracing.Il

open Clr Lib Metadata Profiler

section Runs

variable (queries : ReplacementQueries) {M : Type*} (api : MetadataInterfaces M)
variable (replacements : List MethodReplacement) (s₀ : Session M)

/-- Something holds for each replacement, of the body before and behind its loop. -/
def EveryLoop (P : MethodReplacement → List ILInstr → List ILInstr → Prop) :
    List MethodReplacement → ReplacementState M → Prop
  | [], _ => True
  | replacement :: rest, st => ∀ st', Processes queries api replacement st st' →
      P replacement st.rewriter.il st'.rewriter.il ∧ EveryLoop P rest st'

/-- With enough rounds all loops lead from one state to the other. -/
def ProcessesAll (replacements : List MethodReplacement) (st st' : ReplacementState M) : Prop :=
  ∃ rounds, ∀ fuel, rounds ≤ fuel →
    processReplacementCalls queries api fuel replacements st = some st'

/-- In place of the instruction there is a NOP, and behind it exactly one call, of a wrapper. -/
def CallsWrapper (x : ILInstr) (piece : List ILInstr) : Prop :=
  ∃ pushes call unbox,
    piece = { x with opcode := CEE_NOP } :: (pushes ++ call :: unbox) ∧
      (∀ z ∈ pushes, z.isCall = false) ∧ (∀ z ∈ unbox, z.isCall = false) ∧
      call.opcode = CEE_CALL ∧
      ∃ replacement ∈ replacements, ∃ y s found s', Later api replacements s₀ s ∧
        matchCall queries api replacement y s = some (some found, s') ∧
          call.arg = found.wrapperMethodRef.toNat

/-- Each instruction that meets the conditions of one of the replacements has been turned into one
call of a wrapper, and each other one is as it was. -/
def AllReplaced (rest : List MethodReplacement) (il out : List ILInstr) : Prop :=
  ∃ place : ILInstr → List ILInstr, out = il.flatMap place ∧ ∀ x ∈ il,
    if rest.any fun replacement => meets queries api s₀ replacement x then
      CallsWrapper queries api replacements s₀ x (place x)
    else place x = [x]

variable {queries api replacements s₀} {rest : List MethodReplacement}
variable {st st' out out' : ReplacementState M}
variable {replacement : MethodReplacement} {x : ILInstr} {eh : List EHClause}

theorem IsSite.callsWrapper {site : List ILInstr} (hmem : replacement ∈ replacements)
    (h : IsSite queries api replacements s₀ replacement x site) :
    CallsWrapper queries api replacements s₀ x site := by
  obtain ⟨s, found, s', id, hlater, hmatch, -, rfl⟩ := h
  obtain ⟨pushes, unbox, hsite, hpushes, hunbox⟩ :=
    @exists_siteNodes_eq queries replacement found id x
  exact ⟨pushes, _, unbox, hsite, hpushes, hunbox, rfl, replacement, hmem, x, s, found, s', hlater,
    hmatch, rfl⟩

/-- Instructions stand as they were, or are calls for which a wrapper is called. -/
def KeptOrCalls (place : ILInstr → List ILInstr) (z : ILInstr) : Prop :=
  place z = [z] ∨ z.isCall = true ∧ CallsWrapper queries api replacements s₀ z (place z)

theorem flatMap_eq_of_not_isCall {piece : List ILInstr} {place : ILInstr → List ILInstr}
    (hcalls : ∀ z ∈ piece, z.isCall = false)
    (hplace : ∀ z ∈ piece, @KeptOrCalls queries M api replacements s₀ place z) :
    piece.flatMap place = piece := by
  have hkept : ∀ z ∈ piece, place z = [z] := by
    intro z hz
    obtain hkept | ⟨hcall, -⟩ := hplace z hz
    · exact hkept
    · rw [hcalls z hz] at hcall
      cases hcall
  rw [List.flatMap_congr hkept, List.flatMap_singleton']

/-- There is still one call of a wrapper when later loops have gone over what stands there. -/
theorem CallsWrapper.flatMap {piece : List ILInstr} {place : ILInstr → List ILInstr}
    (h : CallsWrapper queries api replacements s₀ x piece)
    (hplace : ∀ z ∈ piece, @KeptOrCalls queries M api replacements s₀ place z) :
    CallsWrapper queries api replacements s₀ x (piece.flatMap place) := by
  obtain ⟨pushes, call, unbox, rfl, hpushes, hunbox, hopcode, hwrapper⟩ := h
  obtain ⟨hnop, hrest⟩ := List.forall_mem_cons.mp hplace
  obtain ⟨hplacePushes, hrest⟩ := List.forall_mem_append.mp hrest
  obtain ⟨hplaceCall, hplaceUnbox⟩ := List.forall_mem_cons.mp hrest
  have hnopKept := flatMap_eq_of_not_isCall (List.forall_mem_singleton.mpr rfl)
    (List.forall_mem_singleton.mpr hnop)
  rw [List.flatMap_singleton] at hnopKept
  rw [List.flatMap_cons, List.flatMap_append, List.flatMap_cons, hnopKept,
    flatMap_eq_of_not_isCall hpushes hplacePushes, flatMap_eq_of_not_isCall hunbox hplaceUnbox]
  obtain hkept | ⟨-, hcalls⟩ := hplaceCall
  · rw [hkept]
    exact ⟨pushes, call, unbox, rfl, hpushes, hunbox, hopcode, hwrapper⟩
  · obtain ⟨pushes', call', unbox', hcall, hpushes', hunbox', hopcode', hwrapper'⟩ := hcalls
    refine ⟨pushes ++ { call with opcode := CEE_NOP } :: pushes', call', unbox' ++ unbox, ?_, ?_,
      ?_, hopcode', hwrapper'⟩
    · rw [hcall]
      simp
    · rw [List.forall_mem_append, List.forall_mem_cons]
      exact ⟨hpushes, rfl, hpushes'⟩
    · exact List.forall_mem_append.mpr ⟨hunbox', hunbox⟩

theorem keptOrCalls_of_if {place : ILInstr → List ILInstr} {z : ILInstr}
    (h : if rest.any fun replacement => meets queries api s₀ replacement z then
      CallsWrapper queries api replacements s₀ z (place z) else place z = [z]) :
    @KeptOrCalls queries M api replacements s₀ place z := by
  split_ifs at h with hany
  · obtain ⟨replacement, -, hmeets⟩ := List.any_eq_true.mp hany
    refine Or.inr ⟨?_, h⟩
    by_contra hcall
    rw [not_meets_of_not_isCall (Bool.eq_false_iff.mpr hcall)] at hmeets
    cases hmeets
  · exact Or.inl h

theorem ReplacesEach.allReplaced {il mid out : List ILInstr} (hmem : replacement ∈ replacements)
    (h : ReplacesEach queries api replacements s₀ replacement il mid)
    (hrest : AllReplaced queries api replacements s₀ rest mid out) :
    AllReplaced queries api replacements s₀ (replacement :: rest) il out := by
  obtain ⟨place, rfl, hplace⟩ := h
  obtain ⟨place', rfl, hplace'⟩ := hrest
  refine ⟨fun x => (place x).flatMap place', List.flatMap_assoc, fun x hx => ?_⟩
  have hpiece := hplace x hx
  have hpiece' : ∀ z ∈ place x, if rest.any fun replacement =>
      meets queries api s₀ replacement z then
        CallsWrapper queries api replacements s₀ z (place' z) else place' z = [z] :=
    fun z hz => hplace' z (List.mem_flatMap.mpr ⟨x, hx, hz⟩)
  rw [List.any_cons]
  cases hmeets : meets queries api s₀ replacement x with
  | true =>
      rw [hmeets, if_pos rfl] at hpiece
      rw [Bool.true_or, if_pos rfl]
      exact (hpiece.callsWrapper hmem).flatMap fun z hz => keptOrCalls_of_if (hpiece' z hz)
  | false =>
      rw [hmeets, if_neg Bool.false_ne_true] at hpiece
      rw [hpiece] at hpiece'
      rw [Bool.false_or]
      dsimp only
      rw [hpiece, List.flatMap_singleton]
      exact hpiece' x (List.mem_singleton.mpr rfl)

theorem everyLoop_cons {P : MethodReplacement → List ILInstr → List ILInstr → Prop}
    (hprocess : Processes queries api replacement st st') :
    EveryLoop queries api P (replacement :: rest) st ↔
      P replacement st.rewriter.il st'.rewriter.il ∧ EveryLoop queries api P rest st' := by
  constructor
  · exact fun h => h st' hprocess
  · intro h st'' hprocess'
    obtain rfl := hprocess.unique hprocess'
    exact h

/-- A loop, and those behind it. -/
theorem ProcessesAll.cons (hprocess : Processes queries api replacement st st')
    (h : ProcessesAll queries api rest st' out) :
    ProcessesAll queries api (replacement :: rest) st out := by
  obtain ⟨rounds, hrun⟩ := h
  obtain ⟨rounds', hfirst⟩ := hprocess
  refine ⟨max rounds rounds', fun fuel hfuel => ?_⟩
  rw [processReplacementCalls, List.foldlM_cons,
    hfirst fuel ((le_max_right _ _).trans hfuel)]
  exact hrun fuel ((le_max_left _ _).trans hfuel)

/-- The first loop returns when all do, and those behind it go on from what it leaves. -/
theorem ProcessesAll.exists_cons (h : ProcessesAll queries api (replacement :: rest) st out) :
    ∃ st', Processes queries api replacement st st' ∧ ProcessesAll queries api rest st' out := by
  obtain ⟨rounds, hrun⟩ := h
  have hall : ∀ fuel, rounds ≤ fuel → ∃ st',
      processReplacement queries api fuel replacement st = some st' ∧
        processReplacementCalls queries api fuel rest st' = some out := by
    intro fuel hfuel
    have hfirst := hrun fuel hfuel
    rw [processReplacementCalls, List.foldlM_cons] at hfirst
    exact Option.bind_eq_some_iff.mp hfirst
  obtain ⟨st', hprocess, -⟩ := hall rounds (Nat.le_refl _)
  have hmore : ∀ fuel, rounds ≤ fuel →
      processReplacement queries api fuel replacement st = some st' := by
    intro fuel hfuel
    rw [processReplacement] at hprocess ⊢
    split_ifs at hprocess ⊢
    · exact replaceFrom_of_le hfuel hprocess
    · exact hprocess
  refine ⟨st', ⟨rounds, hmore⟩, rounds, fun fuel hfuel => ?_⟩
  obtain ⟨st'', hprocess', hrest⟩ := hall fuel hfuel
  rw [hmore fuel hfuel] at hprocess'
  obtain rfl := Option.some.inj hprocess'
  exact hrest

/-- When all loops return, the first is a walk. -/
theorem ProcessesAll.exists_walked (hsteady : Steady api replacements s₀)
    (hdescribes : DescribesWrappers queries api replacements s₀)
    (hmem : replacement ∈ replacements) (hst : st.Invariant api replacements s₀ eh)
    (hruns : ProcessesAll queries api (replacement :: rest) st out) :
    ∃ st', Processes queries api replacement st st' ∧ st'.Invariant api replacements s₀ eh ∧
      Walked (meets queries api s₀ replacement)
        (IsSite queries api replacements s₀ replacement) st.rewriter.il st'.rewriter.il ∧
      ProcessesAll queries api rest st' out := by
  obtain ⟨st'', hprocess'', hothers⟩ := hruns.exists_cons
  have hgoes : LoopGoesOn queries api replacements s₀ replacement st := by
    obtain ⟨rounds, hrun⟩ := hprocess''
    exact Or.inl ⟨rounds, st'', hrun rounds (Nat.le_refl _)⟩
  obtain ⟨st', hprocess, hst', hwalked⟩ := exists_processes hsteady hdescribes hmem hst hgoes
  rw [hprocess''.unique hprocess] at hothers
  exact ⟨st', hprocess, hst', hwalked, hothers⟩

/-- All loops end when every question about the calls of the body and about the wrappers has a
result. -/
theorem exists_processesAll (hsteady : Steady api replacements s₀)
    (hdescribes : DescribesWrappers queries api replacements s₀) (hrest : rest ⊆ replacements)
    (hst : st.Invariant api replacements s₀ eh)
    (hcalls : AnsweredCalls queries replacements st.rewriter.il)
    (hwrappers : AnsweredWrappers queries api replacements s₀) :
    ∃ out, ProcessesAll queries api rest st out := by
  induction rest generalizing st with
  | nil => exact ⟨st, 0, fun fuel _ => rfl⟩
  | cons replacement rest ih =>
      obtain ⟨hmem, hrest⟩ := List.cons_subset.mp hrest
      obtain ⟨st', hprocess, hst', hwalked⟩ :=
        exists_processes hsteady hdescribes hmem hst (Or.inr ⟨hcalls, hwrappers⟩)
      obtain ⟨out, hout⟩ := ih hrest hst' (answeredCalls_of_walked hwrappers hmem hwalked hcalls)
      exact ⟨out, ProcessesAll.cons hprocess hout⟩

/-- The loops replace each call exactly if none of them passes over one. -/
theorem ProcessesAll.replaces_iff (hsteady : Steady api replacements s₀)
    (hdescribes : DescribesWrappers queries api replacements s₀) (hrest : rest ⊆ replacements)
    (hst : st.Invariant api replacements s₀ eh) (hruns : ProcessesAll queries api rest st out) :
    out.Invariant api replacements s₀ eh ∧
      (EveryLoop queries api (ReplacesEach queries api replacements s₀) rest st ↔
        EveryLoop queries api (fun replacement il _ => PassesNone queries api s₀ replacement il)
          rest st) ∧
      (EveryLoop queries api (ReplacesEach queries api replacements s₀) rest st →
        AllReplaced queries api replacements s₀ rest st.rewriter.il out.rewriter.il) := by
  induction rest generalizing st with
  | nil =>
      obtain ⟨rounds, hrun⟩ := hruns
      obtain rfl := Option.some.inj (hrun rounds (Nat.le_refl _))
      refine ⟨hst, Iff.rfl, fun _ => ?_⟩
      exact ⟨fun x => [x], (List.flatMap_singleton' _).symm, fun x _ => rfl⟩
  | cons replacement rest ih =>
      obtain ⟨hmem, hrest⟩ := List.cons_subset.mp hrest
      obtain ⟨st', hprocess, hst', hwalked, hothers⟩ :=
        hruns.exists_walked hsteady hdescribes hmem hst
      have hiff := replacesEach_iff hst.apart.nodup_il hdescribes hmem hwalked
      obtain ⟨hout, hiffRest, hall⟩ := ih hrest hst' hothers
      refine ⟨hout, ?_, ?_⟩
      · rw [everyLoop_cons hprocess, everyLoop_cons hprocess, hiff, hiffRest]
      · intro heach
        obtain ⟨hfirst, hothers⟩ := (everyLoop_cons hprocess).mp heach
        exact hfirst.allReplaced hmem (hall hothers)

end Runs

section Imported

variable {queries : ReplacementQueries} {M : Type*} {api : MetadataInterfaces M}
variable {replacements : List MethodReplacement} {s₀ : Session M} {m : IlMethod} {r : ILRewriter}

/-- On an imported body all loops end when what they ask about its calls and about the wrappers
has a result. Where they end, each loop replaces the calls that meet the conditions, so that each
of them has in the end been turned into one call of a wrapper, exactly if no loop passes over
one. -/
theorem replacesCalls_iff (himport : importMethod m = some r)
    (hsteady : Steady api replacements s₀)
    (hdescribes : DescribesWrappers queries api replacements s₀) :
    (AnsweredCalls queries replacements r.il → AnsweredWrappers queries api replacements s₀ →
        ∃ out, ProcessesAll queries api replacements ⟨r, s₀, false⟩ out) ∧
      ∀ out, ProcessesAll queries api replacements ⟨r, s₀, false⟩ out →
        ((EveryLoop queries api (ReplacesEach queries api replacements s₀) replacements
              ⟨r, s₀, false⟩ ∧
            AllReplaced queries api replacements s₀ replacements r.il out.rewriter.il) ↔
          EveryLoop queries api (fun replacement il _ => PassesNone queries api s₀ replacement il)
            replacements ⟨r, s₀, false⟩) := by
  have hst : ReplacementState.Invariant api replacements s₀ r.eh ⟨r, s₀, false⟩ :=
    ⟨(Edited.imported himport).numberedApart, .refl, rfl⟩
  have hsub := List.Subset.refl replacements
  refine ⟨exists_processesAll hsteady hdescribes hsub hst, fun out hruns => ?_⟩
  obtain ⟨-, hiff, hall⟩ := hruns.replaces_iff hsteady hdescribes hsub hst
  rw [← hiff]
  constructor
  · exact And.left
  · exact fun heach => ⟨heach, hall heach⟩

end Imported

section Adjacent

/-- A module that refers to a method of `Source` and to its wrapper. -/
def sourceMetadata : MetadataImport where
  getTypeDefProps _ := none
  getTypeRefProps token :=
    if token = 0x01000001 then some (text "Source")
    else if token = 0x01000002 then some (text "Wrapper")
    else none
  getTypeSpecFromToken _ := none
  getMemberRefProps token :=
    if token = 0x0A000001 then some ⟨0x01000001, text "Run", [0x00, 0, ELEMENT_TYPE_VOID]⟩
    else if token = 0x0A000002 then
      some ⟨0x01000002, text "Run",
        [0x00, 3, ELEMENT_TYPE_VOID, ELEMENT_TYPE_I4, ELEMENT_TYPE_I4, ELEMENT_TYPE_I8]⟩
    else none
  getMemberProps _ := none
  getMethodSpecProps _ := none
  getNestedClassProps _ := none

def sourceQueries : ReplacementQueries where
  metadata := sourceMetadata
  emit := ⟨fun _ => none, fun _ => none, fun _ _ => none⟩
  defineMethodSpec _ _ := 0x2B000000
  config := ⟨false, []⟩
  profiler := CorProfiler.attached
  instrumentDomainNeutralAssemblies := false
  unsetToken := mdTokenNil
  moduleVersionIdPtr := 0

/-- The replacement of `Source.Run`. -/
def runReplacement : MethodReplacement :=
  TargetSignature.sourceReplacement (text "Run") [text "System.Void"]
    [0x00, 3, ELEMENT_TYPE_VOID, ELEMENT_TYPE_I4, ELEMENT_TYPE_I4, ELEMENT_TYPE_I8]

/-- Interfaces that refuse everything. -/
def refusingApi : MetadataInterfaces Unit where
  platform := .windows
  moduleInfoIsValid _ := (false, ())
  getModuleFromScope _ := ((HResult.E_FAIL, 0), ())
  defineAssemblyRef _ _ := (HResult.E_FAIL, ())
  enumAssemblyRefs _ := ([], ())
  referencedAssemblyName _ _ := ([], ())
  findTypeRef _ _ _ := ((HResult.E_FAIL, 0), ())
  defineTypeRefByName _ _ _ := ((HResult.E_FAIL, 0), ())
  findMemberRef _ _ _ _ := ((HResult.E_FAIL, 0), ())
  defineMemberRef _ _ _ _ := ((HResult.E_FAIL, 0), ())

/-- The reference to the wrapper is there already. -/
def cachedSession : Session Unit where
  metadata :=
    { wrapperRefs := fun _ => some 0x0A000002
      wrapperParentType := KeyedCache.empty
      failedWrapperKeys := []
      assemblyName := text "Caller"
      appDomainId := 1
      moduleVersionId := Vector.replicate 16 0
      integrations := [] }
  runtime := ()
  recorded := []

theorem later_cachedSession {s : Session Unit}
    (h : Later refusingApi [runReplacement] cachedSession s) : s = cachedSession := by
  induction h with
  | refl => rfl
  | request _ _ ih =>
      rw [ih]
      rfl

/-- A body that runs `Source.Run` once. -/
def runOnce : IlMethod where
  header := .tiny
  code := [0x28, 0x01, 0x00, 0x00, 0x0A, 0x2A]
  eh := .none
  code_lt := by decide

/-- A body that runs `Source.Run` twice. -/
def runTwice : IlMethod where
  header := .tiny
  code := [0x28, 0x01, 0x00, 0x00, 0x0A, 0x28, 0x01, 0x00, 0x00, 0x0A, 0x2A]
  eh := .none
  code_lt := by decide

theorem steady_cachedSession : Steady refusingApi [runReplacement] cachedSession := by
  constructor
  · intro s hs replacement _
    rw [later_cachedSession hs]
  · intro s hs replacement _ _
    rw [later_cachedSession hs]

theorem describes_runReplacement : Describes sourceQueries runReplacement 0x0A000002 := by
  intro _
  decide +kernel

theorem describesWrappers_cachedSession :
    DescribesWrappers sourceQueries refusingApi [runReplacement] cachedSession := by
  constructor
  · intro s hs replacement hmem token htoken
    rw [later_cachedSession hs] at htoken
    obtain rfl := List.mem_singleton.mp hmem
    obtain rfl := Option.some.inj htoken
    exact describes_runReplacement
  · intro replacement token signature _ hvalid
    have hnil : (sourceMetadata.reportedFunction 0x2B000000).isValid = false := by
      decide +kernel
    exact absurd (hnil.symm.trans hvalid) Bool.false_ne_true

/-- In this module every question has a result. -/
theorem answered_sourceQueries (token : MdToken) :
    Answered sourceQueries [runReplacement] token := by
  have hcases : token = 0x0A000001 ∨ token = 0x0A000002 ∨
      sourceMetadata.getFunctionInfo token = some {} := by
    by_cases hsource : token = 0x0A000001
    · exact Or.inl hsource
    by_cases hwrapper : token = 0x0A000002
    · exact Or.inr (Or.inl hwrapper)
    refine Or.inr (Or.inr (sourceMetadata.exists_getFunctionInfoAt_iff.mp ⟨1, ?_⟩))
    have hmember : sourceMetadata.getMemberRefProps token = none := by
      rw [sourceMetadata]
      dsimp only
      rw [if_neg hsource, if_neg hwrapper]
    rw [MetadataImport.getFunctionInfoAt, hmember]
    split_ifs
    all_goals rfl
  have hanswered : ∀ target, sourceMetadata.getFunctionInfo token = some target →
      (isCandidate runReplacement target = true →
        (signatureAgrees sourceQueries runReplacement target).isSome ∧
          (boxes sourceMetadata target.signature).isSome) →
      Answered sourceQueries [runReplacement] token := by
    intro target htarget hanswers
    refine ⟨target, htarget, fun replacement hmem => ?_⟩
    obtain rfl := List.mem_singleton.mp hmem
    exact hanswers
  rcases hcases with rfl | rfl | hnone
  · exact hanswered _ rfl fun _ => ⟨by decide +kernel, by decide +kernel⟩
  · exact hanswered _ rfl fun _ => ⟨by decide +kernel, by decide +kernel⟩
  · exact hanswered _ hnone fun hcandidate => by cases hcandidate

theorem answeredWrappers_cachedSession :
    AnsweredWrappers sourceQueries refusingApi [runReplacement] cachedSession :=
  fun _ _ _ _ _ found _ _ => answered_sourceQueries found.wrapperMethodRef

/-- The only call of a body is turned into a call of the wrapper. -/
theorem replacesCalls_runOnce :
    ∃ r out, importMethod runOnce = some r ∧
      ProcessesAll sourceQueries refusingApi [runReplacement] ⟨r, cachedSession, false⟩ out ∧
      AllReplaced sourceQueries refusingApi [runReplacement] cachedSession [runReplacement] r.il
        out.rewriter.il := by
  have hpasses : ((importMethod runOnce).map fun r => r.il.map
      (meets sourceQueries refusingApi cachedSession runReplacement)) = some [true, false] := by
    decide +kernel
  obtain ⟨r, himport, hmeets⟩ := Option.map_eq_some_iff.mp hpasses
  obtain ⟨hends, hreplaces⟩ :=
    replacesCalls_iff himport steady_cachedSession describesWrappers_cachedSession
  obtain ⟨out, hrun⟩ := hends (fun x _ _ => answered_sourceQueries _) answeredWrappers_cachedSession
  refine ⟨r, out, himport, hrun, ((hreplaces out hrun).mpr ?_).2⟩
  intro st' _
  refine ⟨Or.inl ?_, trivial⟩
  apply (List.isChain_map (meets sourceQueries refusingApi cachedSession runReplacement)
    (R := fun a b => ¬(a = true ∧ b = true))).mp
  rw [hmeets]
  decide

/-- The second of two calls that directly follow each other is left. -/
theorem not_replacesCalls :
    ∃ r out x, importMethod runTwice = some r ∧
      processReplacementCalls sourceQueries refusingApi 20 [runReplacement]
        ⟨r, cachedSession, false⟩ = some out ∧
      x ∈ r.il ∧ meets sourceQueries refusingApi cachedSession runReplacement x = true ∧
        x ∈ out.rewriter.il := by
  let x : ILInstr := ⟨1, CEE_CALL, 0x0A000001, none⟩
  have hrun : ((importMethod runTwice).bind fun r =>
      (processReplacementCalls sourceQueries refusingApi 20 [runReplacement]
        ⟨r, cachedSession, false⟩).map fun out => decide (x ∈ r.il ∧ x ∈ out.rewriter.il)) =
      some true := by
    decide +kernel
  obtain ⟨r, himport, hout⟩ := Option.bind_eq_some_iff.mp hrun
  obtain ⟨out, hout, hmem⟩ := Option.map_eq_some_iff.mp hout
  obtain ⟨horiginal, hleft⟩ := of_decide_eq_true hmem
  exact ⟨r, out, x, himport, hout, horiginal, by decide +kernel, hleft⟩

end Adjacent

end SignalFxTracing.Il
