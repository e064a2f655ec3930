import SignalFxTracing.Il.EntryCall
import SignalFxTracing.Lib.Machine
import SignalFxTracing.Metadata.FunctionInfo
import SignalFxTracing.Profiler.AppDomains

/-!
# The startup hook (`cor_profiler.cpp`)

The first method of an AppDomain that is compiled and can be rewritten is
given a call of a generated method at its entry. The AppDomain is noted before
the rewriting is tried, and the rewriting reports success when it fails.

## Implementation notes

What `JITCompilationStarted` does behind the hook, the rewriting of calls for
the integrations, touches neither the noted AppDomains nor the stored modules
and is left out.
-/

namespace SignalFxTracing.Profiler

open Clr Lib Metadata Il

/-- `JITCompilationStarted` with the answers of the runtime. -/
structure JitStart where
  isSafeToBlock : Bool
  /-- `GetFunctionInfo` of the runtime. -/
  functionInfo : HResult
  moduleId : ModuleId
  functionToken : MdToken
  /-- `GetFunctionInfo` of the metadata. -/
  caller : FunctionInfo
  /-- `GenerateVoidILStartupMethod`. -/
  startupMethod : HResult × MdToken
  /-- `GetILFunctionBody`. -/
  functionBody : HResult × IlMethod
  /-- What `Export` ends with. -/
  exported : HResult

namespace JitStart

/-- `Import`. -/
def importBody (e : JitStart) : Option ILRewriter :=
  if HResult.failed e.functionBody.1 then none else importMethod e.functionBody.2

/-- `RunILStartupHook`: what it returns and the body that it sets. -/
def runILStartupHook (e : JitStart) : HResult × Option ILRewriter :=
  if HResult.failed e.startupMethod.1 then (HResult.S_OK, none)
  else
    match e.importBody with
    | none => (HResult.S_OK, none)
    | some rewriter =>
        let rewriter := rewriter.callMember (nextRef rewriter.il .sentinel)
          e.startupMethod.2.toNat false
        if HResult.failed e.exported then (HResult.S_OK, none) else (HResult.S_OK, some rewriter)

/-- The startup method is generated, and the body is imported and exported. -/
def Succeeds (e : JitStart) : Prop :=
  ¬ HResult.failed e.startupMethod.1 ∧ e.importBody.isSome ∧ ¬ HResult.failed e.exported

end JitStart

/-- One insertion that was tried in an AppDomain. -/
structure Attempt where
  appDomainId : AppDomainId
  start : JitStart

/-- The profiler with the insertions that it tried. -/
structure HookState where
  profiler : CorProfiler
  /-- `first_jit_compilation_app_domains`. -/
  firstJitCompilationAppDomains : Finset AppDomainId
  attempts : List Attempt

/-- The AppDomain of a method that can be rewritten. -/
def CorProfiler.jitAppDomain (p : CorProfiler) (e : JitStart) : Option AppDomainId :=
  if !p.isAttached || !e.isSafeToBlock then none
  else if HResult.failed e.functionInfo then none
  else
    match p.moduleIdToInfoMap e.moduleId with
    | none => none
    | some metadata => if e.caller.isValid then some metadata.appDomainId else none

inductive HookEvent
  | callback (e : Event)
  | jitCompilationStarted (e : JitStart)
  | shutdown

namespace HookState

/-- `JITCompilationStarted` up to the hook. -/
def jitCompilationStarted (s : HookState) (e : JitStart) : HookState :=
  match s.profiler.jitAppDomain e with
  | none => s
  | some d =>
      if d ∈ s.firstJitCompilationAppDomains then s
      else
        { s with
          firstJitCompilationAppDomains := insert d s.firstJitCompilationAppDomains
          attempts := s.attempts ++ [⟨d, e⟩] }

/-- The bodies of an AppDomain that have been given the hook. -/
def hookedBodies (s : HookState) (d : AppDomainId) : List ILRewriter :=
  s.attempts.filterMap fun attempt =>
    if attempt.appDomainId = d then attempt.start.runILStartupHook.2 else none

end HookState

/-- The callbacks of the runtime in any order. -/
def startupHooks (config : Configuration) : Machine HookState HookEvent where
  initial := ⟨.attached, ∅, []⟩
  step s event :=
    match event with
    | .callback e => some { s with profiler := s.profiler.handle config e }
    | .jitCompilationStarted e => some (s.jitCompilationStarted e)
    | .shutdown => some { s with profiler := { s.profiler with isAttached := false } }

section Body

variable {e : JitStart}

theorem runILStartupHook_eq_some_iff {body : ILRewriter} :
    e.runILStartupHook.2 = some body ↔
      ¬ HResult.failed e.startupMethod.1 ∧ ¬ HResult.failed e.exported ∧
        ∃ original, e.importBody = some original ∧
          original.callMember (nextRef original.il .sentinel) e.startupMethod.2.toNat false =
            body := by
  rw [JitStart.runILStartupHook]
  split_ifs with hstartup hexport
  · simp [hstartup]
  · cases e.importBody with
    | none => simp
    | some original => simp [hexport]
  · cases e.importBody with
    | none => simp
    | some original => simp [hstartup, hexport]

theorem runILStartupHook_isSome_iff : e.runILStartupHook.2.isSome ↔ e.Succeeds := by
  rw [Option.isSome_iff_exists, JitStart.Succeeds, Option.isSome_iff_exists]
  simp only [runILStartupHook_eq_some_iff]
  constructor
  · rintro ⟨body, hstartup, hexport, original, himport, -⟩
    exact ⟨hstartup, ⟨original, himport⟩, hexport⟩
  · rintro ⟨hstartup, ⟨original, himport⟩, hexport⟩
    exact ⟨_, hstartup, hexport, original, himport, rfl⟩

/-- An invocation of the body is the call of the hook, once, and then an invocation of the
original. -/
def CallsHookFirst (original body : ILRewriter) (token : MdToken) : Prop :=
  ∃ hook, hook.opcode = CEE_CALL ∧ hook.arg = token.toNat ∧ hook ∉ original.il ∧
    ∀ path, IsExecution body.il body.eh path ↔
      path = [] ∨ ∃ rest, path = hook :: rest ∧ IsExecution original.il original.eh rest

theorem callsHookFirst_of_runILStartupHook {body : ILRewriter}
    (h : e.runILStartupHook.2 = some body) :
    ∃ original, e.importBody = some original ∧
      CallsHookFirst original body e.startupMethod.2 := by
  obtain ⟨-, -, original, himport, rfl⟩ := runILStartupHook_eq_some_iff.mp h
  have hmethod : importMethod e.functionBody.2 = some original := by
    rw [JitStart.importBody] at himport
    split_ifs at himport
    exact himport
  let hook : ILInstr := ⟨original.nInstrs, CEE_CALL, e.startupMethod.2.toNat, none⟩
  have hfresh : Unreferenced hook original.il original.eh :=
    unreferenced_of_importMethod hmethod rfl
  have hil : (original.callMember (nextRef original.il .sentinel) e.startupMethod.2.toNat
      false).il = hook :: original.il := insertBefore_first original hook
  refine ⟨original, himport, hook, rfl, rfl, ?_, ?_⟩
  · intro hmem
    exact hfresh.ids hook hmem rfl
  · intro path
    rw [hil]
    exact hfresh.isExecution_iff rfl

end Body

section Runs

/-- What is due at an event: an insertion in the AppDomain of a method that can be rewritten,
unless a body of it has been given the hook. -/
def dueAttempts (s : HookState) : HookEvent → List Attempt
  | .jitCompilationStarted e =>
      match s.profiler.jitAppDomain e with
      | none => []
      | some d => if s.hookedBodies d = [] then [⟨d, e⟩] else []
  | .callback _ | .shutdown => []

/-- Exactly the insertions that are due are tried. -/
def TriesWhatIsDue (s : HookState) (event : HookEvent) (t : HookState) : Prop :=
  t.attempts = s.attempts ++ dueAttempts s event

/-- Each AppDomain with an insertion that succeeded has exactly one body with the hook, and
that body calls it first. -/
def HookedOnce (s : HookState) : Prop :=
  (∀ attempt ∈ s.attempts, attempt.start.Succeeds →
      ∃ body, s.hookedBodies attempt.appDomainId = [body]) ∧
    ∀ attempt ∈ s.attempts, ∀ body, attempt.start.runILStartupHook.2 = some body →
      ∃ original, attempt.start.importBody = some original ∧
        CallsHookFirst original body attempt.start.startupMethod.2

/-- No method that can be rewritten is compiled in an AppDomain in which an insertion failed. -/
def NoStartAfterFailure (s : HookState) : HookEvent → Prop
  | .jitCompilationStarted e => ∀ d, s.profiler.jitAppDomain e = some d →
      ∀ attempt ∈ s.attempts, attempt.appDomainId = d → attempt.start.Succeeds
  | .callback _ | .shutdown => True

/-- The noted AppDomains are those with an insertion, of which each has one. -/
structure Noted (s : HookState) : Prop where
  mem_iff : ∀ d, d ∈ s.firstJitCompilationAppDomains ↔ ∃ attempt ∈ s.attempts,
    attempt.appDomainId = d
  nodup : (s.attempts.map Attempt.appDomainId).Nodup

variable {config : Configuration} {s t : HookState}

theorem noted_initial (config : Configuration) : Noted (startupHooks config).initial :=
  ⟨by simp [startupHooks], by simp [startupHooks]⟩

theorem Noted.jitCompilationStarted (h : Noted s) (e : JitStart) :
    Noted (s.jitCompilationStarted e) := by
  rw [HookState.jitCompilationStarted]
  cases s.profiler.jitAppDomain e with
  | none => exact h
  | some d =>
      dsimp only
      split_ifs with hmem
      · exact h
      · have hnew : ∀ attempt ∈ s.attempts, attempt.appDomainId ≠ d := by
          intro attempt hattempt hd
          exact hmem ((h.mem_iff d).mpr ⟨attempt, hattempt, hd⟩)
        constructor
        · intro d'
          rw [Finset.mem_insert, h.mem_iff]
          simp [or_and_right, exists_or, or_comm, eq_comm]
        · rw [List.map_append, List.nodup_append]
          refine ⟨h.nodup, by simp, ?_⟩
          intro other hother added hadded
          obtain ⟨attempt, hattempt, rfl⟩ := List.mem_map.mp hother
          obtain rfl : added = d := by simpa using hadded
          exact hnew attempt hattempt

theorem Noted.step (h : Noted s) {event : HookEvent}
    (hstep : (startupHooks config).step s event = some t) : Noted t := by
  cases event with
  | callback e =>
      obtain rfl := Option.some.inj hstep
      exact ⟨h.mem_iff, h.nodup⟩
  | jitCompilationStarted e =>
      obtain rfl := Option.some.inj hstep
      exact h.jitCompilationStarted e
  | shutdown =>
      obtain rfl := Option.some.inj hstep
      exact ⟨h.mem_iff, h.nodup⟩

theorem hookedBodies_eq_nil {d : AppDomainId}
    (h : ∀ attempt ∈ s.attempts, attempt.appDomainId ≠ d) : s.hookedBodies d = [] := by
  rw [HookState.hookedBodies, List.filterMap_eq_nil_iff]
  intro attempt hattempt
  rw [if_neg (h attempt hattempt)]

/-- The bodies of an AppDomain are what its one insertion has set. -/
theorem Noted.hookedBodies_eq (h : Noted s) {attempt : Attempt} (hattempt : attempt ∈ s.attempts) :
    s.hookedBodies attempt.appDomainId = attempt.start.runILStartupHook.2.toList := by
  obtain ⟨before, after, hsplit⟩ := List.append_of_mem hattempt
  have hnodup := h.nodup
  rw [hsplit, List.map_append, List.map_cons, List.nodup_middle, List.nodup_cons, List.mem_append,
    not_or] at hnodup
  have hothers : ∀ l : List Attempt, attempt.appDomainId ∉ l.map Attempt.appDomainId →
      (l.filterMap fun other =>
        if other.appDomainId = attempt.appDomainId then other.start.runILStartupHook.2
        else none) = [] := by
    intro l hl
    rw [List.filterMap_eq_nil_iff]
    intro other hother
    apply if_neg
    intro hd
    exact hl (List.mem_map.mpr ⟨other, hother, hd⟩)
  rw [HookState.hookedBodies, hsplit, List.filterMap_append, List.filterMap_cons,
    hothers before hnodup.1.1, hothers after hnodup.1.2, if_pos rfl]
  cases attempt.start.runILStartupHook.2 with
  | none => rfl
  | some body => rfl

theorem Noted.hookedBodies_eq_nil_iff (h : Noted s) {attempt : Attempt}
    (hattempt : attempt ∈ s.attempts) :
    s.hookedBodies attempt.appDomainId = [] ↔ ¬ attempt.start.Succeeds := by
  rw [h.hookedBodies_eq hattempt, ← runILStartupHook_isSome_iff]
  cases attempt.start.runILStartupHook.2 with
  | none => simp
  | some body => simp

theorem Noted.hookedOnce (h : Noted s) : HookedOnce s := by
  constructor
  · intro attempt hattempt hsucceeds
    obtain ⟨body, hbody⟩ := Option.isSome_iff_exists.mp
      (runILStartupHook_isSome_iff.mpr hsucceeds)
    refine ⟨body, ?_⟩
    rw [h.hookedBodies_eq hattempt, hbody]
    rfl
  · intro attempt _ body hbody
    exact callsHookFirst_of_runILStartupHook hbody

/-- A step tries what is due exactly when it does not follow a failure in its AppDomain. -/
theorem Noted.triesWhatIsDue_iff (h : Noted s) {event : HookEvent}
    (hstep : (startupHooks config).step s event = some t) :
    TriesWhatIsDue s event t ↔ NoStartAfterFailure s event := by
  cases event with
  | callback e =>
      obtain rfl := Option.some.inj hstep
      exact iff_of_true (List.append_nil _).symm trivial
  | shutdown =>
      obtain rfl := Option.some.inj hstep
      exact iff_of_true (List.append_nil _).symm trivial
  | jitCompilationStarted e =>
      obtain rfl := Option.some.inj hstep
      rw [TriesWhatIsDue, dueAttempts, NoStartAfterFailure, HookState.jitCompilationStarted]
      cases s.profiler.jitAppDomain e with
      | none => simp
      | some d =>
          dsimp only
          by_cases hmem : d ∈ s.firstJitCompilationAppDomains
          · have hsucceed : (∀ d', some d = some d' → ∀ attempt ∈ s.attempts,
                attempt.appDomainId = d' → attempt.start.Succeeds) ↔ s.hookedBodies d ≠ [] := by
              obtain ⟨attempt, hattempt, rfl⟩ := (h.mem_iff d).mp hmem
              rw [Ne, h.hookedBodies_eq_nil_iff hattempt, not_not]
              constructor
              · intro hall
                exact hall _ rfl attempt hattempt rfl
              · rintro hone d' hd' other hother rfl
                apply not_not.mp
                rw [← h.hookedBodies_eq_nil_iff hother, ← Option.some.inj hd',
                  h.hookedBodies_eq_nil_iff hattempt, not_not]
                exact hone
            rw [if_pos hmem, hsucceed]
            split_ifs with hbodies
            · simp [hbodies]
            · simp [hbodies]
          · have hnew : ∀ attempt ∈ s.attempts, attempt.appDomainId ≠ d := by
              intro attempt hattempt hd
              exact hmem ((h.mem_iff d).mpr ⟨attempt, hattempt, hd⟩)
            rw [if_neg hmem, if_pos (hookedBodies_eq_nil hnew)]
            refine iff_of_true rfl ?_
            rintro d' hd' attempt hattempt rfl
            exact absurd (Option.some.inj hd').symm (hnew attempt hattempt)

/-- In every run, exactly the due insertions are tried and each AppDomain gets the hook once,
first in its body, exactly when no insertion is due after one that failed. -/
theorem hooks_iff_throughout (config : Configuration) (events : List HookEvent) :
    (startupHooks config).Always (startupHooks config).initial events HookedOnce ∧
        (startupHooks config).EveryStep (startupHooks config).initial events TriesWhatIsDue ↔
      (startupHooks config).Throughout (startupHooks config).initial events
        NoStartAfterFailure := by
  refine (startupHooks config).correct_iff_throughout (fun s (hs : Noted s) => hs.hookedOnce)
    ?_ (noted_initial config) events
  intro s event t hs hstep
  have htries := hs.triesWhatIsDue_iff hstep
  have ht := hs.step hstep
  exact ⟨fun h => htries.mp h.1, fun h => ⟨htries.mpr h, ht⟩⟩

end Runs

section FailedStart

/-- A body that returns at once. -/
def returns : IlMethod where
  header := .tiny
  code := [0x2A]
  eh := .none
  code_lt := by decide

/-- A method of the shop is compiled; its startup method is generated or not. -/
def shopCompiled (functionToken : MdToken) (generated : HResult) : JitStart where
  isSafeToBlock := true
  functionInfo := HResult.S_OK
  moduleId := 11
  functionToken := functionToken
  caller := { id := functionToken, name := text "Main" }
  startupMethod := (generated, 0x06000010)
  functionBody := (HResult.S_OK, returns)
  exported := HResult.S_OK

/-- The startup method cannot be generated for the first method, but for the second. -/
def failedStart : List HookEvent :=
  [.callback (.moduleLoadFinished shopLoaded),
    .jitCompilationStarted (shopCompiled 0x06000001 HResult.E_FAIL),
    .jitCompilationStarted (shopCompiled 0x06000002 HResult.S_OK)]

/-- After the failure no insertion is tried any more, and the AppDomain never gets the hook. -/
theorem not_hooks_failedStart :
    ¬ ((startupHooks adoNet).Always (startupHooks adoNet).initial failedStart HookedOnce ∧
      (startupHooks adoNet).EveryStep (startupHooks adoNet).initial failedStart
        TriesWhatIsDue) := by
  rintro ⟨-, htries⟩
  have hlast := htries (failedStart.take 2) _ [] _ _ rfl rfl rfl
  have hlength := congrArg List.length hlast
  revert hlength
  decide +kernel

end FailedStart

end SignalFxTracing.Profiler
