import Mathlib.Data.Fintype.EquivFin
import SignalFxTracing.Lib.Machine
import SignalFxTracing.Profiler.ModuleEvents

/-!
# Where the managed profiler is loaded

The callbacks run beside the history of the assemblies of the managed
profiler that have been loaded and not been unloaded. Unloading a stored
module takes its AppDomain out of the set, whichever module it is, and a
module of the managed profiler is never stored.

## Implementation notes

The AppDomain that domain-neutral assemblies are loaded into is a parameter.
-/

namespace SignalFxTracing.Profiler

open Clr Lib Metadata

/-- The assemblies of the managed profiler in the process, by module and AppDomain. -/
structure History where
  loaded : List (ModuleId × AppDomainId)
  domainNeutral : Bool

/-- An assembly of the managed profiler of the matching version has been loaded. -/
def AssemblyLoad.LoadsManaged (e : AssemblyLoad) : Prop :=
  ¬HResult.failed e.hrStatus ∧ e.assembly.name = managedName ∧
    comparedVersion e.assembly.version = profilerVersion

instance (e : AssemblyLoad) : Decidable e.LoadsManaged :=
  inferInstanceAs (Decidable (_ ∧ _ ∧ _))

namespace History

variable (config : Configuration) (sharedDomain : AppDomainId)

def empty : History := ⟨[], false⟩

/-- The managed profiler has been loaded into the AppDomain and not itself been unloaded from
it, or has been loaded domain-neutral on the desktop runtime. -/
def IsLoadedInto (h : History) (d : AppDomainId) : Prop :=
  h.domainNeutral = true ∨ ∃ m, (m, d) ∈ h.loaded

def handle (h : History) : Event → History
  | .assemblyLoadFinished e =>
      if e.LoadsManaged then
        { loaded := h.loaded ++ [(e.assembly.manifestModuleId, e.assembly.appDomainId)]
          domainNeutral :=
            h.domainNeutral || (config.isDesktop && e.assembly.appDomainId == sharedDomain) }
      else h
  | .moduleLoadFinished _ => h
  | .moduleUnloadStarted moduleId =>
      { h with loaded := h.loaded.filter fun entry => entry.1 ≠ moduleId }

/-- No other module holds the managed profiler in the AppDomain. -/
def OnlyThrough (h : History) (m : ModuleId) (d : AppDomainId) : Prop :=
  ∀ m', (m', d) ∈ h.loaded → m' = m

theorem mem_concat {l : List (ModuleId × AppDomainId)} {m : ModuleId} {d d' : AppDomainId} :
    (∃ m', (m', d) ∈ l ++ [(m, d')]) ↔ d = d' ∨ ∃ m', (m', d) ∈ l := by
  constructor
  · rintro ⟨m', hm'⟩
    rcases List.mem_append.mp hm' with hold | hnew
    · exact Or.inr ⟨m', hold⟩
    · exact Or.inl (Prod.mk.inj (List.mem_singleton.mp hnew)).2
  · rintro (rfl | ⟨m', hm'⟩)
    · exact ⟨m, List.mem_append_right _ (List.mem_singleton.mpr rfl)⟩
    · exact ⟨m', List.mem_append_left _ hm'⟩

theorem mem_loaded_unload {h : History} {m : ModuleId} {d : AppDomainId} :
    (∃ m', (m', d) ∈ (h.handle config sharedDomain (.moduleUnloadStarted m)).loaded) ↔
      ∃ m', (m', d) ∈ h.loaded ∧ m' ≠ m := by
  simp [handle]

end History

section Callbacks

variable (config : Configuration) (sharedDomain : AppDomainId)

/-- The profiler and the history of the managed profiler. -/
def callbacks : Machine (CorProfiler × History) Event where
  initial := (CorProfiler.attached, History.empty)
  step s e := some (s.1.handle config e, s.2.handle config sharedDomain e)

/-- `ProfilerAssemblyIsLoadedIntoAppDomain` answers what has happened. -/
def Answers (s : CorProfiler × History) : Prop :=
  ∀ d, s.1.profilerAssemblyIsLoadedIntoAppDomain d = true ↔ s.2.IsLoadedInto d

/-- The callback is not about an assembly or a module of the managed profiler in the AppDomain. -/
def History.IsOther (h : History) (d : AppDomainId) : Event → Prop
  | .assemblyLoadFinished e => ¬e.LoadsManaged
  | .moduleLoadFinished _ => True
  | .moduleUnloadStarted m => (m, d) ∉ h.loaded

/-- A callback about another assembly or module leaves the answer for the AppDomain. -/
def OthersKeep (s : CorProfiler × History) (e : Event) (t : CorProfiler × History) : Prop :=
  ∀ d, s.2.IsOther d e →
    t.1.profilerAssemblyIsLoadedIntoAppDomain d = s.1.profilerAssemblyIsLoadedIntoAppDomain d

/-- The runtime answers what `AssemblyLoadFinished` asks about the assembly. -/
def AssemblyLoad.IsNoticed (e : AssemblyLoad) : Prop :=
  e.givesInfo = true ∧ e.assemblyId ≠ 0 ∧ ¬HResult.failed e.moduleMetadata ∧
    e.givesMetadata = true

/-- The profiler tells from the AppDomain of the core library whether one is the shared one. -/
def CorProfiler.TellsShared (p : CorProfiler) (d : AppDomainId) : Prop :=
  (p.corlibModuleLoaded = true ∧ d = p.corlibAppDomainId) ↔ d = sharedDomain

/-- What keeps the answers right. Once the managed profiler is domain-neutral, anything does.
Before, a load of it is noticed and recognised as shared or not, or goes unnoticed in an
AppDomain that has it already and is not shared; and an unloaded module is a stored one of just
those AppDomains in which no other module holds the managed profiler. -/
def KeepsAnswers (s : CorProfiler × History) : Event → Prop
  | .assemblyLoadFinished e =>
      e.LoadsManaged → s.2.domainNeutral = false →
        (e.IsNoticed ∧
          (config.isDesktop = true → s.1.TellsShared sharedDomain e.assembly.appDomainId)) ∨
        (¬e.IsNoticed ∧ (∃ m, (m, e.assembly.appDomainId) ∈ s.2.loaded) ∧
          (config.isDesktop = true → e.assembly.appDomainId ≠ sharedDomain))
  | .moduleLoadFinished _ => True
  | .moduleUnloadStarted m =>
      s.2.domainNeutral = false → ∀ d, (∃ m', (m', d) ∈ s.2.loaded) →
        ((∃ metadata, s.1.moduleIdToInfoMap m = some metadata ∧ metadata.appDomainId = d) ↔
          s.2.OnlyThrough m d)

variable {config sharedDomain} {p : CorProfiler} {e : AssemblyLoad}

/-- Without metadata there is no version that matches. -/
theorem comparedVersion_ne : comparedVersion ({} : AssemblyMetadata).version ≠ profilerVersion := by
  decide

theorem assemblyLoadFinished_of_other (he : ¬e.LoadsManaged) :
    p.assemblyLoadFinished config e = p := by
  rw [CorProfiler.assemblyLoadFinished]
  split_ifs with hstatus hattached hinfo hmetadata hname hversion
  any_goals rfl
  have hgives : e.givesInfo = true := by
    by_contra hno
    simp [AssemblyLoad.assemblyInfo, hno, AssemblyInfo.isValid] at hinfo
  have hversion' : comparedVersion e.assembly.version = profilerVersion := by
    by_cases hmd : e.givesMetadata = true
    · rw [AssemblyLoad.assemblyMetadata, if_pos hmd] at hversion
      exact hversion
    · rw [AssemblyLoad.assemblyMetadata, if_neg hmd] at hversion
      exact absurd hversion comparedVersion_ne
  rw [AssemblyLoad.assemblyInfo, if_pos hgives] at hname
  exact absurd ⟨hstatus, hname, hversion'⟩ he

theorem assemblyLoadFinished_of_noticed (hp : p.isAttached = true) (he : e.LoadsManaged)
    (hnoticed : e.IsNoticed) :
    p.assemblyLoadFinished config e = p.noteManaged config e.assembly.appDomainId := by
  obtain ⟨hstatus, hname, hversion⟩ := he
  obtain ⟨hgives, hid, hmetadata, hprops⟩ := hnoticed
  simp [CorProfiler.assemblyLoadFinished, AssemblyLoad.assemblyInfo, AssemblyInfo.isValid,
    AssemblyLoad.assemblyMetadata, hp, hstatus, hname, hversion, hgives, hid, hmetadata, hprops]

theorem assemblyLoadFinished_of_not_noticed (hnoticed : ¬e.IsNoticed) :
    p.assemblyLoadFinished config e = p := by
  rw [CorProfiler.assemblyLoadFinished]
  split_ifs with hstatus hattached hinfo hmetadata hname hversion
  any_goals rfl
  exfalso
  apply hnoticed
  have hgives : e.givesInfo = true := by
    by_contra hno
    simp [AssemblyLoad.assemblyInfo, hno, AssemblyInfo.isValid] at hinfo
  refine ⟨hgives, ?_, hmetadata, ?_⟩
  · simpa [AssemblyLoad.assemblyInfo, hgives, AssemblyInfo.isValid] using hinfo
  · by_contra hmd
    rw [AssemblyLoad.assemblyMetadata, if_neg hmd] at hversion
    exact absurd hversion comparedVersion_ne

theorem assemblyLoadFinished_cases (config : Configuration) (p : CorProfiler) (e : AssemblyLoad) :
    p.assemblyLoadFinished config e = p ∨
      p.assemblyLoadFinished config e = p.noteManaged config e.assembly.appDomainId := by
  by_cases hnoticed : e.IsNoticed
  · rw [CorProfiler.assemblyLoadFinished]
    have hinfo : e.assemblyInfo.appDomainId = e.assembly.appDomainId := by
      rw [AssemblyLoad.assemblyInfo, if_pos hnoticed.1]
    rw [hinfo]
    split_ifs
    all_goals first
      | exact Or.inl rfl
      | exact Or.inr rfl
  · exact Or.inl (assemblyLoadFinished_of_not_noticed hnoticed)

theorem handle_isAttached (config : Configuration) (p : CorProfiler) (e : Event) :
    (p.handle config e).isAttached = p.isAttached := by
  cases e with
  | assemblyLoadFinished e =>
      rcases assemblyLoadFinished_cases config p e with h | h
      · exact congrArg CorProfiler.isAttached h
      · rw [CorProfiler.handle, h]
        rfl
  | moduleLoadFinished e => exact (p.moduleLoadFinished_loaded config e).2.2
  | moduleUnloadStarted m =>
      rw [CorProfiler.handle, CorProfiler.moduleUnloadStarted]
      split
      · rfl
      · rfl

theorem handle_domainNeutral (config : Configuration) (e : Event)
    (hp : p.managedProfilerLoadedDomainNeutral = true) :
    (p.handle config e).managedProfilerLoadedDomainNeutral = true := by
  cases e with
  | assemblyLoadFinished e =>
      rcases assemblyLoadFinished_cases config p e with h | h
      · exact (congrArg CorProfiler.managedProfilerLoadedDomainNeutral h).trans hp
      · rw [CorProfiler.handle, h]
        simp [CorProfiler.noteManaged, hp]
  | moduleLoadFinished e => exact (p.moduleLoadFinished_loaded config e).1.trans hp
  | moduleUnloadStarted m =>
      rw [CorProfiler.handle, CorProfiler.moduleUnloadStarted]
      split
      · exact hp
      · exact hp

/-- The profiler and the history agree on where the managed profiler is. -/
structure Agrees (s : CorProfiler × History) : Prop where
  attached : s.1.isAttached = true
  domainNeutral : s.1.managedProfilerLoadedDomainNeutral = s.2.domainNeutral
  loaded : s.2.domainNeutral = false →
    ∀ d, d ∈ s.1.managedProfilerLoadedAppDomains ↔ ∃ m, (m, d) ∈ s.2.loaded

theorem agrees_initial (config : Configuration) (sharedDomain : AppDomainId) :
    Agrees (callbacks config sharedDomain).initial where
  attached := rfl
  domainNeutral := rfl
  loaded _ d := by simp [callbacks, CorProfiler.attached, History.empty]

theorem Agrees.answers {s : CorProfiler × History} (h : Agrees s) : Answers s := by
  intro d
  rw [CorProfiler.profilerAssemblyIsLoadedIntoAppDomain, h.domainNeutral, History.IsLoadedInto]
  cases hneutral : s.2.domainNeutral with
  | true => simp
  | false => simp [h.loaded hneutral d]

/-- Right answers tell of both whether they are domain-neutral: there is always a further
AppDomain. -/
theorem domainNeutral_eq_of_answers {s : CorProfiler × History} (h : Answers s) :
    s.1.managedProfilerLoadedDomainNeutral = s.2.domainNeutral := by
  obtain ⟨d, hd⟩ := Infinite.exists_notMem_finset
    (s.1.managedProfilerLoadedAppDomains ∪ (s.2.loaded.map Prod.snd).toFinset)
  simp only [Finset.mem_union, List.mem_toFinset, List.mem_map, not_or, not_exists] at hd
  have hnone : ¬∃ m, (m, d) ∈ s.2.loaded := by
    rintro ⟨m, hm⟩
    exact hd.2 (m, d) ⟨hm, rfl⟩
  have hiff := h d
  rw [CorProfiler.profilerAssemblyIsLoadedIntoAppDomain, History.IsLoadedInto] at hiff
  simp only [hd.1, hnone, decide_false, Bool.or_false, or_false] at hiff
  exact Bool.eq_iff_iff.mpr hiff

theorem mem_iff_of_answers {s : CorProfiler × History} (h : Answers s)
    (hneutral : s.2.domainNeutral = false) (d : AppDomainId) :
    d ∈ s.1.managedProfilerLoadedAppDomains ↔ ∃ m, (m, d) ∈ s.2.loaded := by
  have hiff := h d
  rw [CorProfiler.profilerAssemblyIsLoadedIntoAppDomain, domainNeutral_eq_of_answers h,
    History.IsLoadedInto, hneutral] at hiff
  simpa using hiff

/-- What is domain-neutral stays so in both. -/
theorem Agrees.handle_of_neutral {s : CorProfiler × History} (h : Agrees s)
    (hneutral : s.2.domainNeutral = true) (e : Event) :
    Agrees (s.1.handle config e, s.2.handle config sharedDomain e) := by
  have hhistory : (s.2.handle config sharedDomain e).domainNeutral = true := by
    cases e with
    | assemblyLoadFinished e =>
        rw [History.handle]
        split
        · simp [hneutral]
        · exact hneutral
    | moduleLoadFinished e => exact hneutral
    | moduleUnloadStarted m => exact hneutral
  have hprofiler : (s.1.handle config e).managedProfilerLoadedDomainNeutral = true :=
    handle_domainNeutral config e (h.domainNeutral.trans hneutral)
  refine ⟨(handle_isAttached config s.1 e).trans h.attached, hprofiler.trans hhistory.symm, ?_⟩
  intro hfalse
  rw [hhistory] at hfalse
  cases hfalse

/-- A callback that leaves both alone. -/
theorem Agrees.of_eq {s t : CorProfiler × History} (h : Agrees s)
    (hneutral : t.1.managedProfilerLoadedDomainNeutral = s.1.managedProfilerLoadedDomainNeutral)
    (hdomains : t.1.managedProfilerLoadedAppDomains = s.1.managedProfilerLoadedAppDomains)
    (hattached : t.1.isAttached = s.1.isAttached) (hhistory : t.2 = s.2) : Agrees t where
  attached := hattached.trans h.attached
  domainNeutral := by rw [hneutral, hhistory, h.domainNeutral]
  loaded hfalse d := by
    rw [hdomains, hhistory]
    exact h.loaded (hhistory ▸ hfalse) d

/-- A load of the managed profiler: the answers stay right only under the condition, and the
condition makes the two agree again. -/
theorem Agrees.load {s : CorProfiler × History} (h : Agrees s)
    (hneutral : s.2.domainNeutral = false) {e : AssemblyLoad} (he : e.LoadsManaged) :
    let t := (s.1.handle config (.assemblyLoadFinished e),
      s.2.handle config sharedDomain (.assemblyLoadFinished e))
    (Answers t → KeepsAnswers config sharedDomain s (.assemblyLoadFinished e)) ∧
      (KeepsAnswers config sharedDomain s (.assemblyLoadFinished e) → Agrees t) := by
  have hhistory : s.2.handle config sharedDomain (.assemblyLoadFinished e) =
      { loaded := s.2.loaded ++ [(e.assembly.manifestModuleId, e.assembly.appDomainId)]
        domainNeutral := config.isDesktop && e.assembly.appDomainId == sharedDomain } := by
    rw [History.handle, if_pos he, hneutral, Bool.false_or]
  have hcode : s.1.managedProfilerLoadedDomainNeutral = false := h.domainNeutral.trans hneutral
  dsimp only
  by_cases hnoticed : e.IsNoticed
  · have hprofiler : s.1.handle config (.assemblyLoadFinished e) =
        s.1.noteManaged config e.assembly.appDomainId :=
      assemblyLoadFinished_of_noticed h.attached he hnoticed
    rw [hprofiler, hhistory]
    constructor
    · intro hanswers _ _
      refine Or.inl ⟨hnoticed, fun hdesktop => ?_⟩
      have heq := domainNeutral_eq_of_answers hanswers
      simp only [CorProfiler.noteManaged, hcode, hdesktop, Bool.false_or, Bool.true_and] at heq
      rw [CorProfiler.TellsShared, ← beq_iff_eq (b := sharedDomain), ← heq]
      simp
    · intro hkeeps
      obtain ⟨-, htells⟩ := (hkeeps he hneutral).resolve_right fun hno => hno.1 hnoticed
      refine ⟨h.attached, ?_, ?_⟩
      · simp only [CorProfiler.noteManaged, hcode, Bool.false_or]
        cases hdesktop : config.isDesktop with
        | false => rfl
        | true =>
            have hiff := htells hdesktop
            rw [CorProfiler.TellsShared] at hiff
            apply Bool.eq_iff_iff.mpr
            simpa using hiff
      · intro _ d
        simp only [CorProfiler.noteManaged, Finset.mem_insert, h.loaded hneutral d,
          History.mem_concat]
  · have hprofiler : s.1.handle config (.assemblyLoadFinished e) = s.1 :=
      assemblyLoadFinished_of_not_noticed hnoticed
    rw [hprofiler, hhistory]
    constructor
    · intro hanswers _ _
      have heq := domainNeutral_eq_of_answers hanswers
      simp only [hcode] at heq
      refine Or.inr ⟨hnoticed, ?_, fun hdesktop hshared => ?_⟩
      · have hmem := (mem_iff_of_answers hanswers heq.symm e.assembly.appDomainId).mpr
          ⟨_, List.mem_append_right _ (List.mem_singleton.mpr rfl)⟩
        exact (h.loaded hneutral _).mp hmem
      · simp [hdesktop, hshared] at heq
    · intro hkeeps
      obtain ⟨-, ⟨m, hm⟩, hshared⟩ := (hkeeps he hneutral).resolve_left fun hno => hnoticed hno.1
      refine ⟨h.attached, ?_, ?_⟩
      · simp only [hcode]
        cases hdesktop : config.isDesktop with
        | false => rfl
        | true => simpa using hshared hdesktop
      · intro _ d
        rw [h.loaded hneutral d, History.mem_concat]
        refine (or_iff_right_of_imp ?_).symm
        rintro rfl
        exact ⟨m, hm⟩

/-- The AppDomains that an unload leaves in the set. -/
theorem mem_unload {p : CorProfiler} {m : ModuleId} {d : AppDomainId} :
    d ∈ (p.handle config (.moduleUnloadStarted m)).managedProfilerLoadedAppDomains ↔
      d ∈ p.managedProfilerLoadedAppDomains ∧
        ¬∃ metadata, p.moduleIdToInfoMap m = some metadata ∧ metadata.appDomainId = d := by
  rw [CorProfiler.handle, CorProfiler.moduleUnloadStarted]
  split
  next metadata hm =>
    simp only [Finset.mem_erase, hm, Option.some.injEq, exists_eq_left']
    rw [and_comm, ne_comm]
  next hm => simp [hm]

theorem Agrees.unload {s : CorProfiler × History} (h : Agrees s)
    (hneutral : s.2.domainNeutral = false) (m : ModuleId) :
    let t := (s.1.handle config (.moduleUnloadStarted m),
      s.2.handle config sharedDomain (.moduleUnloadStarted m))
    (Answers t → KeepsAnswers config sharedDomain s (.moduleUnloadStarted m)) ∧
      (KeepsAnswers config sharedDomain s (.moduleUnloadStarted m) → Agrees t) := by
  dsimp only
  have hsame : (s.1.handle config
      (.moduleUnloadStarted m)).managedProfilerLoadedDomainNeutral =
        s.1.managedProfilerLoadedDomainNeutral := by
    rw [CorProfiler.handle, CorProfiler.moduleUnloadStarted]
    split
    · rfl
    · rfl
  have hrest : ∀ d, (∃ m', (m', d) ∈ s.2.loaded) →
      ((∃ m', (m', d) ∈ s.2.loaded ∧ m' ≠ m) ↔ ¬s.2.OnlyThrough m d) := by
    intro d _
    simp [History.OnlyThrough]
  constructor
  · intro hanswers _ d hd
    have hiff := mem_iff_of_answers hanswers hneutral d
    rw [mem_unload, h.loaded hneutral d, History.mem_loaded_unload, hrest d hd] at hiff
    have hnot := (and_iff_right hd).symm.trans hiff
    exact not_iff_not.mp hnot
  · intro hkeeps
    refine ⟨(handle_isAttached config s.1 _).trans h.attached, hsame.trans h.domainNeutral, ?_⟩
    intro _ d
    rw [mem_unload, h.loaded hneutral d, History.mem_loaded_unload]
    constructor
    · rintro ⟨hd, hstored⟩
      rw [hrest d hd]
      exact (not_congr (hkeeps hneutral d hd)).mp hstored
    · rintro ⟨m', hm', hne⟩
      refine ⟨⟨m', hm'⟩, (not_congr (hkeeps hneutral d ⟨m', hm'⟩)).mpr ?_⟩
      exact fun honly => hne (honly m' hm')

theorem Agrees.step {s : CorProfiler × History} (h : Agrees s) (e : Event) :
    let t := (s.1.handle config e, s.2.handle config sharedDomain e)
    (Answers t → KeepsAnswers config sharedDomain s e) ∧
      (KeepsAnswers config sharedDomain s e → Agrees t) := by
  dsimp only
  cases hneutral : s.2.domainNeutral with
  | true =>
      refine ⟨fun _ => ?_, fun _ => h.handle_of_neutral hneutral e⟩
      cases e with
      | assemblyLoadFinished e => exact fun _ hfalse => absurd (hneutral.symm.trans hfalse) nofun
      | moduleLoadFinished e => trivial
      | moduleUnloadStarted m => exact fun hfalse => absurd (hneutral.symm.trans hfalse) nofun
  | false =>
      cases e with
      | assemblyLoadFinished e =>
          by_cases he : e.LoadsManaged
          · exact h.load hneutral he
          · refine ⟨fun _ hloads => absurd hloads he, fun _ => ?_⟩
            rw [CorProfiler.handle, assemblyLoadFinished_of_other he, History.handle, if_neg he]
            exact h
      | moduleLoadFinished e =>
          obtain ⟨hcode, hdomains, hattached⟩ := s.1.moduleLoadFinished_loaded config e
          exact ⟨fun _ => trivial, fun _ => h.of_eq hcode hdomains hattached rfl⟩
      | moduleUnloadStarted m => exact h.unload hneutral m

theorem isLoadedInto_of_other {h : History} {d : AppDomainId} {e : Event} (he : h.IsOther d e) :
    (h.handle config sharedDomain e).IsLoadedInto d ↔ h.IsLoadedInto d := by
  cases e with
  | assemblyLoadFinished e => rw [History.handle, if_neg he]
  | moduleLoadFinished e => rfl
  | moduleUnloadStarted m =>
      rw [History.IsLoadedInto, History.mem_loaded_unload]
      refine or_congr Iff.rfl (exists_congr fun m' => and_iff_left_of_imp ?_)
      rintro hm' rfl
      exact he hm'

/-- The answers are right after every callback, and no other assembly or module ever changes one,
exactly when every callback meets the condition. -/
theorem answers_iff (config : Configuration) (sharedDomain : AppDomainId) (es : List Event) :
    (callbacks config sharedDomain).Always (callbacks config sharedDomain).initial es Answers ∧
        (callbacks config sharedDomain).EveryStep (callbacks config sharedDomain).initial es
          OthersKeep ↔
      (callbacks config sharedDomain).Throughout (callbacks config sharedDomain).initial es
        (KeepsAnswers config sharedDomain) := by
  have hkeeps : ∀ s e t, Agrees s → (callbacks config sharedDomain).step s e = some t →
      (Answers t → KeepsAnswers config sharedDomain s e) ∧
        (KeepsAnswers config sharedDomain s e → Agrees t) := by
    intro s e t h hstep
    obtain rfl : (s.1.handle config e, s.2.handle config sharedDomain e) = t :=
      Option.some.inj hstep
    exact h.step e
  have halways := (callbacks config sharedDomain).always_iff_throughout
    (fun _ => Agrees.answers) hkeeps (agrees_initial config sharedDomain) es
  rw [← halways]
  refine and_iff_left_of_imp ?_
  intro hanswers before e after s t hsplit hrun hstep d hother
  have hs := hanswers before (e :: after) s hsplit hrun
  have ht := hanswers (before ++ [e]) after t (by simp [hsplit]) (by
    rw [Machine.run_append, hrun]
    simpa using hstep)
  obtain rfl : (s.1.handle config e, s.2.handle config sharedDomain e) = t :=
    Option.some.inj hstep
  apply Bool.eq_iff_iff.mpr
  exact ((ht d).trans (isLoadedInto_of_other hother)).trans (hs d).symm

end Callbacks

section Shop

/-- One integration, for callers of any assembly. -/
def adoNet : Configuration where
  isDesktop := false
  integrations :=
    [{ integrationName := text "AdoNet"
       methodReplacements :=
        [{ callerMethod := { assembly := { name := [] }, typeName := [], methodName := [] }
           targetMethod :=
            { assembly := { name := text "System.Data" }
              typeName := text "System.Data.IDbCommand"
              methodName := text "ExecuteReader" }
           wrapperMethod :=
            { assembly := { name := managedName }
              typeName :=
                text "SignalFx.Tracing.ClrProfiler.Integrations.AdoNet.IDbCommandIntegration"
              methodName := text "ExecuteReader" } }] }]

def managedLoaded : AssemblyLoad where
  assemblyId := 20
  hrStatus := HResult.S_OK
  assembly :=
    { name := managedName, version := ⟨0, 1, 15, 0⟩, manifestModuleId := 10, appDomainId := 1 }
  givesInfo := true
  moduleMetadata := HResult.S_OK
  givesMetadata := true

/-- A module that is loaded into the same AppDomain. -/
def shopLoaded : ModuleLoad where
  moduleId := 11
  hrStatus := HResult.S_OK
  moduleInfo :=
    { id := 11
      assembly := { id := 21, name := text "Shop", manifestModuleId := 11, appDomainId := 1 } }
  moduleMetadata := HResult.S_OK
  assemblyMetadata := { name := text "Shop", version := ⟨1, 0, 0, 0⟩ }
  references := [{ name := text "System.Data", version := ⟨4, 0, 0, 0⟩ }]
  moduleFromScope := HResult.S_OK
  scopeProps := HResult.S_OK
  moduleVersionId := Vector.replicate 16 0

def shopUnloaded : List Event :=
  [.assemblyLoadFinished managedLoaded, .moduleLoadFinished shopLoaded, .moduleUnloadStarted 11]

theorem run_callbacks (config : Configuration) (sharedDomain : AppDomainId) (p : CorProfiler)
    (h : History) (events : List Event) :
    (callbacks config sharedDomain).run (p, h) events =
      some (events.foldl (CorProfiler.handle config) p,
        events.foldl (History.handle config sharedDomain) h) := by
  induction events generalizing p h with
  | nil => rfl
  | cons e events ih => exact ih _ _

/-- Unloading a module of the shop takes the AppDomain of the managed profiler away. -/
theorem not_answers :
    ¬((callbacks adoNet 0).Always (callbacks adoNet 0).initial shopUnloaded Answers ∧
      (callbacks adoNet 0).EveryStep (callbacks adoNet 0).initial shopUnloaded OthersKeep) := by
  rintro ⟨hanswers, -⟩
  have hloaded : (shopUnloaded.foldl (History.handle adoNet 0) .empty).IsLoadedInto 1 :=
    Or.inr ⟨10, by decide +kernel⟩
  have hanswer : (shopUnloaded.foldl (CorProfiler.handle adoNet)
      .attached).profilerAssemblyIsLoadedIntoAppDomain 1 = false := by decide +kernel
  have hlast := (hanswers shopUnloaded [] _ (List.append_nil _).symm
    (run_callbacks adoNet 0 .attached .empty shopUnloaded) 1).mpr hloaded
  dsimp only at hlast
  rw [hanswer] at hlast
  cases hlast

end Shop

end SignalFxTracing.Profiler
