import Mathlib.Data.Finset.Basic
import SignalFxTracing.Metadata.WrapperRefs

/-!
# Assemblies and modules that come and go (`cor_profiler.cpp`, `clr_helpers.cpp`)

The callbacks of the runtime with what the runtime answers while they run. An
answer about an assembly or a module is refused or gives its properties.
-/

namespace SignalFxTracing.Profiler

open Clr Lib Metadata

/-- A handle of the runtime. -/
abbrev ModuleId := Nat

/-- The invalid value has the number 0. -/
structure AssemblyInfo where
  id : Nat := 0
  name : Text := []
  manifestModuleId : ModuleId := 0
  appDomainId : AppDomainId := 0

def AssemblyInfo.isValid (info : AssemblyInfo) : Bool := info.id != 0

/-- The name and the version in the metadata of an assembly or of a reference to one. -/
structure AssemblyMetadata where
  name : Text := []
  version : Version := {}

structure ModuleInfo where
  id : ModuleId := 0
  assembly : AssemblyInfo := {}
  flags : UInt32 := 0

namespace ModuleInfo

def isValid (info : ModuleInfo) : Bool := info.id != 0

/-- `COR_PRF_MODULE_WINDOWS_RUNTIME`. -/
def windowsRuntimeFlag : UInt32 := 0x40

def isWindowsRuntime (info : ModuleInfo) : Bool := info.flags &&& windowsRuntimeFlag != 0

end ModuleInfo

section Filters

/-- `FlattenIntegrations`. -/
def flattenIntegrations (integrations : List Integration) : List IntegrationMethod :=
  integrations.flatMap fun i => i.methodReplacements.map fun mr => ⟨i.integrationName, mr⟩

/-- `FilterIntegrationsByCaller`. -/
def filterIntegrationsByCaller (integrations : List IntegrationMethod) (assembly : AssemblyInfo) :
    List IntegrationMethod :=
  integrations.filter fun i =>
    i.replacement.callerMethod.assembly.name.isEmpty ||
      i.replacement.callerMethod.assembly.name == assembly.name

/-- `AssemblyMeetsIntegrationRequirements`. -/
def assemblyMeetsIntegrationRequirements (metadata : AssemblyMetadata)
    (methodReplacement : MethodReplacement) : Bool :=
  let target := methodReplacement.targetMethod
  target.assembly.name == metadata.name && !target.minVersion.greater metadata.version &&
    !target.maxVersion.less metadata.version

/-- `FilterIntegrationsByTarget` with what the metadata of the module give. -/
def filterIntegrationsByTarget (integrations : List IntegrationMethod)
    (assemblyMetadata : AssemblyMetadata) (references : List AssemblyMetadata) :
    List IntegrationMethod :=
  integrations.filter fun i =>
    (assemblyMetadata :: references).any fun metadata =>
      assemblyMeetsIntegrationRequirements metadata i.replacement

end Filters

/-- `SignalFx.Tracing.ClrProfiler.Managed`. -/
def managedName : Text := text "SignalFx.Tracing.ClrProfiler.Managed"

/-- `PROFILER_VERSION`. -/
def profilerVersion : Text := text "0.1.15"

/-- The version string that is compared with the version of the profiler. -/
def comparedVersion (v : Version) : Text :=
  Version.part v.major ++ text "." ++ Version.part v.minor ++ text "." ++ Version.part v.build

def corlibNames : List Text := [text "mscorlib", text "System.Private.CoreLib"]

/-- `skip_assemblies`. -/
def skipAssemblies : List Text :=
  ["mscorlib",
    "netstandard",
    "SignalFx.Tracing",
    "SignalFx.Tracing.ClrProfiler.Managed",
    "SignalFx.Tracing.OpenTracing",
    "MsgPack",
    "MsgPack.Serialization.EmittingSerializers.GeneratedSerealizers0",
    "MsgPack.Serialization.EmittingSerializers.GeneratedSerealizers1",
    "MsgPack.Serialization.EmittingSerializers.GeneratedSerealizers2",
    "Sigil",
    "Sigil.Emit.DynamicAssembly",
    "System.Core",
    "System.Runtime",
    "System.IO.FileSystem",
    "System.Collections",
    "System.Runtime.Extensions",
    "System.Threading.Tasks",
    "System.Runtime.InteropServices",
    "System.Runtime.InteropServices.RuntimeInformation",
    "System.ComponentModel",
    "System.Console",
    "System.Diagnostics.DiagnosticSource",
    "Microsoft.Extensions.Options",
    "Microsoft.Extensions.ObjectPool",
    "System.Configuration",
    "System.Xml.Linq",
    "Microsoft.AspNetCore.Razor.Language",
    "Microsoft.AspNetCore.Mvc.RazorPages",
    "Microsoft.CSharp",
    "Newtonsoft.Json",
    "Anonymously Hosted DynamicMethods Assembly",
    "ISymWrapper"].map text

/-- An assembly of the process. -/
structure LoadedAssembly where
  name : Text
  version : Version
  manifestModuleId : ModuleId
  appDomainId : AppDomainId

/-- `AssemblyLoadFinished` with the answers of the runtime. -/
structure AssemblyLoad where
  assemblyId : Nat
  hrStatus : HResult
  assembly : LoadedAssembly
  /-- `GetAssemblyInfo` and `GetAppDomainInfo` succeed. -/
  givesInfo : Bool
  moduleMetadata : HResult
  /-- `GetAssemblyFromScope` and `GetAssemblyProps` succeed. -/
  givesMetadata : Bool

namespace AssemblyLoad

/-- `GetAssemblyInfo`. -/
def assemblyInfo (e : AssemblyLoad) : AssemblyInfo :=
  if e.givesInfo then
    { id := e.assemblyId
      name := e.assembly.name
      manifestModuleId := e.assembly.manifestModuleId
      appDomainId := e.assembly.appDomainId }
  else {}

/-- `GetAssemblyImportMetadata`. -/
def assemblyMetadata (e : AssemblyLoad) : AssemblyMetadata :=
  if e.givesMetadata then { name := e.assembly.name, version := e.assembly.version } else {}

end AssemblyLoad

/-- `ModuleLoadFinished` with the answers of the runtime. -/
structure ModuleLoad where
  moduleId : ModuleId
  hrStatus : HResult
  moduleInfo : ModuleInfo
  moduleMetadata : HResult
  assemblyMetadata : AssemblyMetadata
  references : List AssemblyMetadata
  moduleFromScope : HResult
  scopeProps : HResult
  moduleVersionId : Guid

inductive Event
  | assemblyLoadFinished (e : AssemblyLoad)
  | moduleLoadFinished (e : ModuleLoad)
  | moduleUnloadStarted (moduleId : ModuleId)

/-- What the profiler is started with. -/
structure Configuration where
  /-- `runtime_information_.is_desktop()`. -/
  isDesktop : Bool
  /-- `integrations_`. -/
  integrations : List Integration

/-- The fields of `CorProfiler` that the callbacks use. -/
structure CorProfiler where
  isAttached : Bool
  corlibModuleLoaded : Bool
  corlibAppDomainId : AppDomainId
  managedProfilerLoadedDomainNeutral : Bool
  managedProfilerLoadedAppDomains : Finset AppDomainId
  moduleIdToInfoMap : ModuleId → Option ModuleMetadata

namespace CorProfiler

/-- An attached profiler that has seen no module. -/
def attached : CorProfiler := ⟨true, false, 0, false, ∅, fun _ => none⟩

/-- `ProfilerAssemblyIsLoadedIntoAppDomain`. -/
def profilerAssemblyIsLoadedIntoAppDomain (p : CorProfiler) (d : AppDomainId) : Bool :=
  p.managedProfilerLoadedDomainNeutral || d ∈ p.managedProfilerLoadedAppDomains

variable (config : Configuration)

/-- What `AssemblyLoadFinished` does on the managed profiler of the matching version. -/
def noteManaged (p : CorProfiler) (d : AppDomainId) : CorProfiler :=
  { p with
    managedProfilerLoadedAppDomains := insert d p.managedProfilerLoadedAppDomains
    managedProfilerLoadedDomainNeutral :=
      p.managedProfilerLoadedDomainNeutral ||
        (config.isDesktop && p.corlibModuleLoaded && d == p.corlibAppDomainId) }

/-- `AssemblyLoadFinished`. -/
def assemblyLoadFinished (p : CorProfiler) (e : AssemblyLoad) : CorProfiler :=
  if HResult.failed e.hrStatus then p
  else if !p.isAttached then p
  else if !e.assemblyInfo.isValid then p
  else if HResult.failed e.moduleMetadata then p
  else if e.assemblyInfo.name = managedName then
    if comparedVersion e.assemblyMetadata.version = profilerVersion then
      p.noteManaged config e.assemblyInfo.appDomainId
    else p
  else p

/-- The end of `ModuleLoadFinished`, for the integrations that the filters leave. -/
def storeModule (p : CorProfiler) (e : ModuleLoad) (integrations : List IntegrationMethod) :
    CorProfiler :=
  if HResult.failed e.moduleFromScope then p
  else if HResult.failed e.scopeProps then p
  else
    { p with
      moduleIdToInfoMap :=
        Function.update p.moduleIdToInfoMap e.moduleId
          (some (.new e.moduleInfo.assembly.name e.moduleInfo.assembly.appDomainId
            e.moduleVersionId integrations)) }

/-- `ModuleLoadFinished`. -/
def moduleLoadFinished (p : CorProfiler) (e : ModuleLoad) : CorProfiler :=
  let assembly := e.moduleInfo.assembly
  if HResult.failed e.hrStatus then p
  else if !p.isAttached then p
  else if !e.moduleInfo.isValid then p
  else if !p.corlibModuleLoaded ∧ assembly.name ∈ corlibNames then
    { p with corlibModuleLoaded := true, corlibAppDomainId := assembly.appDomainId }
  else if e.moduleInfo.isWindowsRuntime then p
  else if assembly.name ∈ skipAssemblies then p
  else
    let byCaller := filterIntegrationsByCaller (flattenIntegrations config.integrations) assembly
    if byCaller.isEmpty then p
    else if HResult.failed e.moduleMetadata then p
    else if assembly.name ≠ text "Microsoft.AspNetCore.Hosting" then
      let byTarget := filterIntegrationsByTarget byCaller e.assemblyMetadata e.references
      if byTarget.isEmpty then p else p.storeModule e byTarget
    else p.storeModule e byCaller

/-- `ModuleUnloadStarted`. -/
def moduleUnloadStarted (p : CorProfiler) (moduleId : ModuleId) : CorProfiler :=
  match p.moduleIdToInfoMap moduleId with
  | some metadata =>
      { p with
        managedProfilerLoadedAppDomains :=
          p.managedProfilerLoadedAppDomains.erase metadata.appDomainId
        moduleIdToInfoMap := Function.update p.moduleIdToInfoMap moduleId none }
  | none => p

/-- One callback. -/
def handle (p : CorProfiler) : Event → CorProfiler
  | .assemblyLoadFinished e => p.assemblyLoadFinished config e
  | .moduleLoadFinished e => p.moduleLoadFinished config e
  | .moduleUnloadStarted moduleId => p.moduleUnloadStarted moduleId

theorem storeModule_loaded (p : CorProfiler) (e : ModuleLoad)
    (integrations : List IntegrationMethod) :
    (p.storeModule e integrations).managedProfilerLoadedDomainNeutral =
        p.managedProfilerLoadedDomainNeutral ∧
      (p.storeModule e integrations).managedProfilerLoadedAppDomains =
        p.managedProfilerLoadedAppDomains ∧
      (p.storeModule e integrations).isAttached = p.isAttached := by
  rw [storeModule]
  split_ifs
  all_goals exact ⟨rfl, rfl, rfl⟩

/-- What `ModuleLoadFinished` can do. -/
theorem moduleLoadFinished_cases (p : CorProfiler) (e : ModuleLoad) :
    p.moduleLoadFinished config e = p ∨
      p.moduleLoadFinished config e =
        { p with
          corlibModuleLoaded := true
          corlibAppDomainId := e.moduleInfo.assembly.appDomainId } ∨
      e.moduleInfo.assembly.name ∉ skipAssemblies ∧
        ∃ integrations, p.moduleLoadFinished config e = p.storeModule e integrations := by
  let Done (q : CorProfiler) : Prop :=
    q = p ∨
      q = { p with
            corlibModuleLoaded := true
            corlibAppDomainId := e.moduleInfo.assembly.appDomainId } ∨
      e.moduleInfo.assembly.name ∉ skipAssemblies ∧
        ∃ integrations, q = p.storeModule e integrations
  change Done (p.moduleLoadFinished config e)
  have hkept : Done p := Or.inl rfl
  rw [moduleLoadFinished]
  refine iteInduction (motive := Done) (fun _ => hkept) (fun _ => ?_)
  refine iteInduction (motive := Done) (fun _ => hkept) (fun _ => ?_)
  refine iteInduction (motive := Done) (fun _ => hkept) (fun _ => ?_)
  refine iteInduction (motive := Done) (fun _ => Or.inr (Or.inl rfl)) (fun _ => ?_)
  refine iteInduction (motive := Done) (fun _ => hkept) (fun _ => ?_)
  refine iteInduction (motive := Done) (fun _ => hkept) (fun hskip => ?_)
  have hstored : ∀ integrations, Done (p.storeModule e integrations) :=
    fun integrations => Or.inr (Or.inr ⟨hskip, integrations, rfl⟩)
  refine iteInduction (motive := Done) (fun _ => hkept) (fun _ => ?_)
  refine iteInduction (motive := Done) (fun _ => hkept) (fun _ => ?_)
  refine iteInduction (motive := Done) (fun _ => ?_) (fun _ => hstored _)
  exact iteInduction (motive := Done) (fun _ => hkept) (fun _ => hstored _)

/-- Modules that are loaded change nothing about where the managed profiler is. -/
theorem moduleLoadFinished_loaded (p : CorProfiler) (e : ModuleLoad) :
    (p.moduleLoadFinished config e).managedProfilerLoadedDomainNeutral =
        p.managedProfilerLoadedDomainNeutral ∧
      (p.moduleLoadFinished config e).managedProfilerLoadedAppDomains =
        p.managedProfilerLoadedAppDomains ∧
      (p.moduleLoadFinished config e).isAttached = p.isAttached := by
  rcases moduleLoadFinished_cases config p e with h | h | ⟨-, integrations, h⟩
  · rw [h]
    exact ⟨rfl, rfl, rfl⟩
  · rw [h]
    exact ⟨rfl, rfl, rfl⟩
  · rw [h]
    exact storeModule_loaded p e integrations

end CorProfiler

end SignalFxTracing.Profiler
