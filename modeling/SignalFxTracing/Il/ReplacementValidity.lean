import SignalFxTracing.Il.Prefixes
import SignalFxTracing.Il.ReplacementRuns
import SignalFxTracing.Il.SiteEntry
import SignalFxTracing.Il.SiteStack

/-!
# Valid bodies after replacing calls (`CorProfiler::ProcessReplacementCalls`, `cor_profiler.cpp`)

A body in which calls have been replaced is valid again exactly if no prefix
stands in front of a call that is replaced, and each wrapper pops and returns
what the call does, besides its three arguments. The prefix stays in front of
the NOP that the call has become.
-/

namespace SignalFxTracing.Il

open Clr Lib Metadata Profiler

section Sites

variable {queries : ReplacementQueries} {replacement : MethodReplacement} {found : CallMatch}
variable {id : Nat} {x : ILInstr}

/-- A node that control passes through, and that is no prefix and refers to nothing. -/
def ILInstr.IsPlain (z : ILInstr) : Prop :=
  z.goesOn = true ∧ z.target = none ∧ z.prefixes = false

theorem isPlain_int32Fields (value : Int) (id : Nat) :
    ILInstr.IsPlain ⟨id, (int32Fields value).1, (int32Fields value).2, none⟩ := by
  rw [int32Fields]
  split_ifs with hsmall
  · have hle : value.toNat ≤ 8 := by omega
    have hplain : ∀ k ≤ 8, ILInstr.IsPlain ⟨id, CEE_LDC_I4_0 + k, 0, none⟩ := by
      intro k hk
      interval_cases k <;> exact ⟨rfl, rfl, rfl⟩
    exact hplain value.toNat hle
  · exact ⟨rfl, rfl, rfl⟩
  · exact ⟨rfl, rfl, rfl⟩

/-- Behind the NOP control passes through all nodes in place of a call. -/
theorem exists_isPlain : ∃ rest,
    siteNodes queries replacement found id x = { x with opcode := CEE_NOP } :: rest ∧
      ∀ z ∈ rest, z.IsPlain := by
  refine ⟨_, rfl, ?_⟩
  intro z hz
  rcases List.mem_append.mp hz with hbox | hwrapper
  · obtain ⟨k, hk, rfl⟩ := List.mem_mapIdx.mp hbox
    exact ⟨rfl, rfl, rfl⟩
  · rw [wrapperNodes] at hwrapper
    rcases List.mem_append.mp hwrapper with hcall | hunbox
    · simp only [List.mem_cons, List.not_mem_nil, or_false] at hcall
      rcases hcall with rfl | rfl | rfl | rfl
      · exact isPlain_int32Fields _ _
      · exact isPlain_int32Fields _ _
      · exact ⟨rfl, rfl, rfl⟩
      · exact ⟨rfl, rfl, rfl⟩
    · obtain ⟨token, -, rfl⟩ := List.mem_map.mp hunbox
      exact ⟨rfl, rfl, rfl⟩

theorem ILInstr.prefixes_of_isCall (h : x.isCall = true) : x.prefixes = false := by
  rw [isCall, Bool.or_eq_true, beq_iff_eq, beq_iff_eq] at h
  rcases h with hopcode | hopcode
  · rw [prefixes, hopcode]
    rfl
  · rw [prefixes, hopcode]
    rfl

end Sites

section Discipline

/-- What a valid body has. -/
structure ValidBody (il : List ILInstr) (eh : List EHClause) : Prop where
  prefixes : PrefixesLegal il
  handlersEnd : HandlersEnd il eh

/-- The body is valid again, and in it control runs through what stands in place of each call,
with the effect of the call. -/
structure KeepsDiscipline (sig : Signatures) (Site : ILInstr → List ILInstr → Prop)
    (eh : List EHClause) (il out : List ILInstr) : Prop where
  body : out = il.flatMap (pieceOf il out)
  pieces : ∀ x ∈ il, pieceOf il out x = [x] ∨ x.isCall = true ∧ Site x (pieceOf il out x)
  valid : ValidBody out eh
  entered : ∀ x ∈ il, pieceOf il out x ≠ [x] → RunsThrough il out eh x (pieceOf il out x)
  effect : ∀ x ∈ il, pieceOf il out x ≠ [x] → KeepsDepth sig x (pieceOf il out x)

variable (queries : ReplacementQueries) {M : Type*} (api : MetadataInterfaces M)
variable (replacements : List MethodReplacement) (s₀ : Session M)

/-- What is called in place of calls means methods. -/
def MeansMethods : Prop :=
  ∀ s, Later api replacements s₀ s → ∀ replacement ∈ replacements, ∀ x found s',
    matchCall queries api replacement x s = some (some found, s') →
      (queries.metadata.reportedFunction found.wrapperMethodRef).isValid = true

/-- No call that is replaced follows a prefix, and the wrapper fits each of them. -/
def FitsCalls (replacement : MethodReplacement) (il : List ILInstr) : Prop :=
  ∀ before x after, il = before ++ x :: after →
    isExpanded (meets queries api s₀ replacement) il before x = true →
      (∀ y ∈ before.getLast?, y.prefixes = false) ∧
        FitsStack queries replacement (queries.metadata.reportedFunction (UInt32.ofNat x.arg))

end Discipline

section Loop

variable {queries : ReplacementQueries} {M : Type*} {api : MetadataInterfaces M}
variable {replacements : List MethodReplacement} {s₀ : Session M} {others : Signatures}
variable {replacement : MethodReplacement} {il out site : List ILInstr} {eh : List EHClause}
variable {place : ILInstr → List ILInstr} {x : ILInstr}

/-- A call is expanded to a NOP with plain nodes behind it. -/
theorem IsSite.exists_cons (h : IsSite queries api replacements s₀ replacement x site) :
    x.isCall = true ∧ ∃ rest, site = { x with opcode := CEE_NOP } :: rest ∧
      ∀ z ∈ rest, z.IsPlain := by
  obtain ⟨s, found, s', id, -, hmatch, -, rfl⟩ := h
  exact ⟨(matchCall_eq_some hmatch).1, exists_isPlain⟩

theorem IsSite.ne (h : IsSite queries api replacements s₀ replacement x site) : site ≠ [x] := by
  rintro rfl
  obtain ⟨hcall, rest, heq, -⟩ := h.exists_cons
  have hopcode : x.opcode = CEE_NOP := congrArg ILInstr.opcode (List.cons_eq_cons.mp heq).1
  rw [ILInstr.isCall, hopcode] at hcall
  cases hcall

/-- What stands in place of a call has its effect exactly if the wrapper fits it. -/
theorem IsSite.keepsDepth_iff (hdescribes : DescribesWrappers queries api replacements s₀)
    (hmeans : MeansMethods queries api replacements s₀) (hmem : replacement ∈ replacements)
    (h : IsSite queries api replacements s₀ replacement x site) :
    KeepsDepth (callSignatures queries.metadata others) x site ↔
      FitsStack queries replacement (queries.metadata.reportedFunction (UInt32.ofNat x.arg)) := by
  obtain ⟨s, found, s', id, hlater, hmatch, -, rfl⟩ := h
  obtain ⟨hcall, hcandidate, wrapperMethodRef, -, heq⟩ := matchCall_eq_some hmatch
  have htarget : found.target = queries.metadata.reportedFunction (UInt32.ofNat x.arg) := by
    rw [heq, callMatch]
    split_ifs <;> rfl
  rw [← htarget] at hcandidate ⊢
  apply keepsDepth_siteNodes_iff hcall htarget hcandidate
  exact describes_of_matchCall hdescribes hlater hmem hmatch
    (hmeans s hlater replacement hmem x found s' hmatch)

/-- A loop expands calls. -/
theorem expansion_of_sites (hnodup : (out.map ILInstr.id).Nodup) (hout : out = il.flatMap place)
    (hsites : ∀ x ∈ il, place x = [x] ∨
      IsSite queries api replacements s₀ replacement x (place x)) : Expansion il out place := by
  refine ⟨hout, hnodup, fun x hx => (hsites x hx).imp_right fun hsite => ?_⟩
  obtain ⟨hcall, rest, heq, hplain⟩ := hsite.exists_cons
  exact ⟨hcall, rest, heq, fun z hz => ⟨(hplain z hz).1, (hplain z hz).2.1⟩⟩

theorem keptOrExpanded (hsite : place x = [x] ∨
    IsSite queries api replacements s₀ replacement x (place x)) : KeptOrExpanded place x := by
  refine hsite.imp_right fun hsite => ?_
  obtain ⟨hcall, rest, heq, hplain⟩ := hsite.exists_cons
  rw [heq]
  refine ⟨ILInstr.prefixes_of_isCall hcall, ?_, { x with opcode := CEE_NOP }, rfl, rfl⟩
  exact List.forall_mem_cons.mpr ⟨rfl, fun z hz => (hplain z hz).2.2⟩

/-- What an expansion has to have for the body to keep its discipline. -/
theorem Expansion.keepsDiscipline {sig : Signatures} {Site : ILInstr → List ILInstr → Prop}
    (h : Expansion il out place) (hids : (il.map ILInstr.id).Nodup)
    (hends : HandlersEnd il eh) (hwithin : WithinBody il eh)
    (hsites : ∀ x ∈ il, place x = [x] ∨ x.isCall = true ∧ Site x (place x))
    (hprefixes : PrefixesLegal out)
    (heffect : ∀ x ∈ il, place x ≠ [x] → KeepsDepth sig x (place x)) :
    KeepsDiscipline sig Site eh il out := by
  have hpieces : ∀ x ∈ il, pieceOf il out x = place x := fun x hx => h.pieceOf_eq hx
  constructor
  · rw [List.flatMap_congr hpieces]
    exact h.eq
  · intro x hx
    rw [hpieces x hx]
    exact hsites x hx
  · exact ⟨hprefixes, h.handlersEnd hwithin hends⟩
  · intro x hx
    rw [hpieces x hx]
    exact h.runsThrough hids hwithin hends hx
  · intro x hx
    rw [hpieces x hx]
    exact heffect x hx

/-- The loop for a replacement keeps a body valid exactly if the wrapper fits the calls that it
replaces. -/
theorem keepsDiscipline_iff (hids : (il.map ILInstr.id).Nodup) (hnodup : (out.map ILInstr.id).Nodup)
    (hdescribes : DescribesWrappers queries api replacements s₀)
    (hmeans : MeansMethods queries api replacements s₀) (hmem : replacement ∈ replacements)
    (hvalid : ValidBody il eh) (hwithin : WithinBody il eh)
    (h : Walked (meets queries api s₀ replacement)
      (IsSite queries api replacements s₀ replacement) il out) :
    ∃ place, Expansion il out place ∧ (∀ x ∈ il, place x = [x] ∨
        IsSite queries api replacements s₀ replacement x (place x)) ∧
      (KeepsDiscipline (callSignatures queries.metadata others)
          (IsSite queries api replacements s₀ replacement) eh il out ↔
        FitsCalls queries api s₀ replacement il) := by
  obtain ⟨place, hout, hplace⟩ := h.exists_place (List.Nodup.of_map _ hids)
  have hsites : ∀ x ∈ il, place x = [x] ∨
      IsSite queries api replacements s₀ replacement x (place x) := by
    intro x hx
    obtain ⟨before, after, hil⟩ := List.append_of_mem hx
    have hpiece := hplace before x after hil
    split_ifs at hpiece
    · exact Or.inr hpiece
    · exact Or.inl hpiece
  have hexpansion := expansion_of_sites hnodup hout hsites
  have hprefixes := prefixesLegal_flatMap_iff hvalid.prefixes
    fun x hx => keptOrExpanded (hsites x hx)
  rw [← hout, List.isChain_iff_forall_rel_of_append_cons_cons] at hprefixes
  refine ⟨place, hexpansion, hsites, ?_⟩
  constructor
  · intro hkeeps before x after hil hexpanded
    have hx : x ∈ il := hil ▸ List.mem_append_right before List.mem_cons_self
    have hsite := hplace before x after hil
    rw [if_pos hexpanded] at hsite
    constructor
    · intro y hy
      obtain ⟨front, rfl⟩ := List.getLast?_eq_some_iff.mp hy
      rw [Bool.eq_false_iff]
      intro hprefix
      rw [List.append_assoc, List.singleton_append] at hil
      exact hsite.ne (hprefixes.mp hkeeps.valid.prefixes hil hprefix)
    · have hpiece : pieceOf il out x = place x := hexpansion.pieceOf_eq hx
      have heffect := hkeeps.effect x hx
      rw [hpiece] at heffect
      exact (hsite.keepsDepth_iff hdescribes hmeans hmem).mp (heffect hsite.ne)
  · intro hfits
    refine hexpansion.keepsDiscipline hids hvalid.handlersEnd hwithin ?_ (hprefixes.mpr ?_) ?_
    · exact fun x hx => (hsites x hx).imp_right fun hsite => ⟨hsite.exists_cons.1, hsite⟩
    · intro y x before after hil hprefix
      have hsplit : il = (before ++ [y]) ++ x :: after := by simp [hil]
      have hpiece := hplace _ x after hsplit
      split_ifs at hpiece with hexpanded
      · obtain ⟨hnot, -⟩ := hfits _ x after hsplit hexpanded
        rw [hnot y (by simp)] at hprefix
        cases hprefix
      · exact hpiece
    · intro x hx hne
      obtain ⟨before, after, hil⟩ := List.append_of_mem hx
      have hpiece := hplace before x after hil
      split_ifs at hpiece with hexpanded
      · obtain ⟨-, hfits⟩ := hfits before x after hil hexpanded
        exact (hpiece.keepsDepth_iff hdescribes hmeans hmem).mpr hfits
      · exact absurd hpiece hne

end Loop

section Runs

variable {queries : ReplacementQueries} {M : Type*} {api : MetadataInterfaces M}
variable {replacements rest : List MethodReplacement} {s₀ : Session M} {others : Signatures}
variable {replacement : MethodReplacement} {st st' out : ReplacementState M} {eh : List EHClause}

/-- What all loops have put in place of the instructions of a body. -/
structure Rewrites (queries : ReplacementQueries) (api : MetadataInterfaces M)
    (replacements : List MethodReplacement) (s₀ : Session M) (sig : Signatures)
    (il out : List ILInstr) (place : ILInstr → List ILInstr) : Prop where
  expansion : Expansion il out place
  calls : ∀ x ∈ il, @KeptOrCalls queries M api replacements s₀ place x
  effect : ∀ x ∈ il, place x = [x] ∨ KeepsDepth sig x (place x)
  prefixes : PrefixesLegal out

theorem rewrites_refl {sig : Signatures} {il : List ILInstr} (hids : (il.map ILInstr.id).Nodup)
    (hprefixes : PrefixesLegal il) :
    Rewrites queries api replacements s₀ sig il il fun x => [x] := by
  refine ⟨⟨(List.flatMap_singleton' il).symm, hids, ?_⟩, ?_, ?_, hprefixes⟩
  · exact fun x _ => Or.inl rfl
  · exact fun x _ => Or.inl rfl
  · exact fun x _ => Or.inl rfl

/-- One loop and those behind it. -/
theorem Rewrites.comp {sig : Signatures} {il mid out : List ILInstr}
    {place place' : ILInstr → List ILInstr} (hexpansion : Expansion il mid place)
    (hcalls : ∀ x ∈ il, @KeptOrCalls queries M api replacements s₀ place x)
    (heffect : ∀ x ∈ il, place x = [x] ∨ KeepsDepth sig x (place x))
    (h : Rewrites queries api replacements s₀ sig mid out place') :
    Rewrites queries api replacements s₀ sig il out fun x => (place x).flatMap place' := by
  have hmid : ∀ x ∈ il, ∀ z ∈ place x, z ∈ mid := by
    intro x hx z hz
    rw [hexpansion.eq]
    exact List.mem_flatMap.mpr ⟨x, hx, hz⟩
  have hkept : ∀ x, place x = [x] → (place x).flatMap place' = place' x := by
    intro x hkept
    rw [hkept, List.flatMap_singleton]
  refine ⟨hexpansion.comp h.expansion, ?_, ?_, h.prefixes⟩
  · intro x hx
    have hpieces := fun z hz => h.calls z (hmid x hx z hz)
    obtain hx' | ⟨hcall, hwrapper⟩ := hcalls x hx
    · rw [KeptOrCalls, hkept x hx']
      exact hpieces x (hx' ▸ List.mem_singleton.mpr rfl)
    · exact Or.inr ⟨hcall, hwrapper.flatMap hpieces⟩
  · intro x hx
    have hpieces := fun z hz => h.effect z (hmid x hx z hz)
    obtain hx' | hkeeps := heffect x hx
    · rw [hkept x hx']
      exact hpieces x (hx' ▸ List.mem_singleton.mpr rfl)
    · exact Or.inr (hkeeps.flatMap hpieces)

/-- Every loop keeps the body valid exactly if the wrappers fit in every loop; then all of them
together do. -/
theorem everyLoop_keepsDiscipline_iff (hsteady : Steady api replacements s₀)
    (hdescribes : DescribesWrappers queries api replacements s₀)
    (hmeans : MeansMethods queries api replacements s₀) (hrest : rest ⊆ replacements)
    (hst : st.Invariant api replacements s₀ eh) (hvalid : ValidBody st.rewriter.il eh)
    (hwithin : WithinBody st.rewriter.il eh) (hruns : ProcessesAll queries api rest st out) :
    (EveryLoop queries api (fun replacement => KeepsDiscipline
        (callSignatures queries.metadata others)
        (IsSite queries api replacements s₀ replacement) eh) rest st ↔
      EveryLoop queries api (fun replacement il _ => FitsCalls queries api s₀ replacement il)
        rest st) ∧
    (EveryLoop queries api (fun replacement => KeepsDiscipline
        (callSignatures queries.metadata others)
        (IsSite queries api replacements s₀ replacement) eh) rest st →
      ∃ place, Rewrites queries api replacements s₀ (callSignatures queries.metadata others)
        st.rewriter.il out.rewriter.il place) := by
  induction rest generalizing st with
  | nil =>
      obtain ⟨rounds, hrun⟩ := hruns
      obtain rfl := Option.some.inj (hrun rounds (Nat.le_refl _))
      exact ⟨Iff.rfl, fun _ => ⟨_, rewrites_refl hst.apart.nodup hvalid.prefixes⟩⟩
  | cons replacement rest ih =>
      obtain ⟨hmem, hrest⟩ := List.cons_subset.mp hrest
      obtain ⟨st', hprocess, hst', hwalked, hothersRun⟩ :=
        hruns.exists_walked hsteady hdescribes hmem hst
      obtain ⟨place, hexpansion, hsites, hiff⟩ := @keepsDiscipline_iff queries M api replacements s₀
        others replacement _ _ eh hst.apart.nodup hst'.apart.nodup hdescribes hmeans hmem hvalid
        hwithin hwalked
      have hwithin' := hexpansion.withinBody hwithin
      rw [everyLoop_cons hprocess, everyLoop_cons hprocess]
      constructor
      · rw [← hiff]
        exact and_congr_right fun hkeeps => (ih hrest hst' hkeeps.valid hwithin' hothersRun).1
      · rintro ⟨hkeeps, hothers⟩
        obtain ⟨place', hrewrites⟩ :=
          (ih hrest hst' hkeeps.valid hwithin' hothersRun).2 hothers
        refine ⟨_, Rewrites.comp hexpansion ?_ ?_ hrewrites⟩
        · exact fun x hx => (hsites x hx).imp_right fun hsite =>
            ⟨hsite.exists_cons.1, hsite.callsWrapper hmem⟩
        · intro x hx
          refine (hsites x hx).imp_right fun hsite => ?_
          have heffect := hkeeps.effect x hx
          rw [hexpansion.pieceOf_eq hx] at heffect
          exact heffect hsite.ne

end Runs

section Imported

variable {queries : ReplacementQueries} {M : Type*} {api : MetadataInterfaces M}
variable {replacements : List MethodReplacement} {s₀ : Session M} {m : IlMethod} {r : ILRewriter}
variable (others : Signatures)

theorem prevRef_within (il : List ILInstr) (ref : InstrRef) : (prevRef il ref).Within il := by
  have hlast : ∀ l : List ILInstr, l ⊆ il →
      ((l.getLast?.map ILInstr.ref).getD .sentinel).Within il := by
    intro l hl
    cases hget : l.getLast? with
    | none => exact Or.inl rfl
    | some x => exact Or.inr ⟨x, hl (List.mem_of_getLast? hget), rfl⟩
  cases ref with
  | sentinel => exact hlast il (List.Subset.refl il)
  | instr id => exact hlast _ (List.takeWhile_sublist _).subset

/-- An imported body refers to its own nodes only. -/
theorem withinBody_of_importMethod (h : importMethod m = some r) : WithinBody r.il r.eh := by
  constructor
  · exact fun x hx ref htarget => target_of_importMethod h hx htarget
  · rintro c hc ref (rfl | rfl | henters)
    · exact try_of_importMethod h hc (Or.inl rfl)
    · exact try_of_importMethod h hc (Or.inr rfl)
    · exact starts_of_importMethod h hc henters
  · intro c hc
    obtain ⟨il, table, eh, hil, heh, rfl⟩ := importMethod_eq_some_iff.mp h
    obtain ⟨c', -, hclause⟩ := Lib.MapOption.exists_of_mem_mapM heh hc
    simp only [importClause, bind, Option.bind_eq_some_iff, pure, Option.some.injEq] at hclause
    obtain ⟨_, _, _, _, _, _, _, _, _, _, rfl⟩ := hclause
    exact prevRef_within _ _

end Imported

section TailCall

/-- A body that runs `Source.Run` in a tail call. -/
def runTail : IlMethod where
  header := .tiny
  code := [0xFE, 0x14, 0x28, 0x01, 0x00, 0x00, 0x0A, 0x2A]
  eh := .none
  code_lt := by decide

theorem isGeneric_sourceMetadata (token : MdToken) :
    (sourceMetadata.reportedFunction token).isGeneric = false := by
  rw [MetadataImport.reportedFunction]
  obtain ⟨target, htarget, -⟩ := answered_sourceQueries token
  have hinfo : sourceMetadata.getFunctionInfo token = some target := htarget
  rw [hinfo]
  obtain ⟨fuel, hfuel⟩ := sourceMetadata.exists_getFunctionInfoAt_iff.mpr hinfo
  cases fuel with
  | zero => cases hfuel
  | succ fuel =>
      rw [MetadataImport.getFunctionInfoAt] at hfuel
      split_ifs at hfuel
      · cases hprops : sourceMetadata.getMemberRefProps token with
        | none =>
            rw [hprops] at hfuel
            obtain rfl := Option.some.inj hfuel
            rfl
        | some props =>
            rw [hprops] at hfuel
            obtain ⟨type, -, rfl⟩ := Option.map_eq_some_iff.mp hfuel
            rfl
      · obtain rfl := Option.some.inj hfuel
        rfl
      · obtain rfl := Option.some.inj hfuel
        rfl
      · obtain rfl := Option.some.inj hfuel
        rfl

theorem meansMethods_cachedSession :
    MeansMethods sourceQueries refusingApi [runReplacement] cachedSession := by
  intro s hs replacement hmem x found s' hmatch
  rw [later_cachedSession hs] at hmatch
  obtain rfl := List.mem_singleton.mp hmem
  obtain ⟨-, -, token, htoken, rfl⟩ := matchCall_eq_some hmatch
  obtain rfl := Option.some.inj htoken
  have hgeneric :
      (sourceQueries.metadata.reportedFunction (UInt32.ofNat x.arg)).isGeneric = false :=
    isGeneric_sourceMetadata _
  have hvalid : (sourceMetadata.reportedFunction 0x0A000002).isValid = true := by decide +kernel
  rw [callMatch, if_neg (Bool.eq_false_iff.mp hgeneric)]
  exact hvalid

end TailCall

end SignalFxTracing.Il
