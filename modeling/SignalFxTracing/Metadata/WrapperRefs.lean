import SignalFxTracing.Lib.KeyedCache
import SignalFxTracing.Metadata.Integration

/-!
# References to wrapper methods (`module_metadata.h`, `metadata_builder.cpp`, `cor_profiler.cpp`)

The metadata interfaces of the runtime are parameters: each of their methods
moves the state of the runtime on, so that it may answer otherwise the next
time. The session of a module is that state with the caches of the profiler.
-/

namespace SignalFxTracing.Metadata

open Clr Lib

/-- Zero and positive values are successes. -/
abbrev HResult := UInt32

namespace HResult

def S_OK : HResult := 0
def E_FAIL : HResult := 0x80004005

/-- `CLDB_E_RECORD_NOTFOUND`. -/
def recordNotFound : HResult := 0x80131130

/-- `FAILED`. -/
def failed (hr : HResult) : Prop := 0x80000000 ≤ hr

instance : DecidablePred failed := fun hr => inferInstanceAs (Decidable (0x80000000 ≤ hr))

theorem not_failed_S_OK : ¬failed S_OK := by decide

end HResult

def mdAssemblyRefNil : MdToken := 0x23000000
def mdTypeRefNil : MdToken := 0x01000000
def mdMemberRefNil : MdToken := 0x0A000000

/-- What `DefineAssemblyRef` is told of an assembly. -/
structure AssemblyIdentity where
  name : Text
  version : Version
  locale : Option Text
  publicKeyToken : List UInt8
  deriving DecidableEq

/-- The arguments of `DefineAssemblyRef` in `EmitAssemblyRef`. -/
def AssemblyReference.identity (a : AssemblyReference) : AssemblyIdentity where
  name := a.name
  version := a.version
  locale := if a.locale = text "neutral" then none else some a.locale
  publicKeyToken := if a.publicKey = Vector.replicate 8 0 then [] else a.publicKey.toList

/-- The methods of the metadata interfaces of one module. -/
structure MetadataInterfaces (M : Type*) where
  /-- The platform that the profiler is built for. -/
  platform : Platform
  /-- `GetModuleInfo(..).IsValid()`. -/
  moduleInfoIsValid : M → Bool × M
  getModuleFromScope : M → (HResult × MdToken) × M
  defineAssemblyRef : AssemblyIdentity → M → HResult × M
  enumAssemblyRefs : M → List MdToken × M
  /-- The name in `GetReferencedAssemblyMetadata`, empty when `GetAssemblyRefProps` fails. -/
  referencedAssemblyName : MdToken → M → Text × M
  findTypeRef : MdToken → Text → M → (HResult × MdToken) × M
  defineTypeRefByName : MdToken → Text → M → (HResult × MdToken) × M
  findMemberRef : MdToken → Text → Signature → M → (HResult × MdToken) × M
  defineMemberRef : MdToken → Text → Signature → M → (HResult × MdToken) × M

/-- A handle of the runtime. -/
abbrev AppDomainId := Nat

abbrev Guid := Vector UInt8 16

/-- What the profiler keeps of a module, its metadata interfaces apart. -/
structure ModuleMetadata where
  wrapperRefs : KeyedCache Text MdToken
  wrapperParentType : KeyedCache Text MdToken
  failedWrapperKeys : List Text
  assemblyName : Text
  appDomainId : AppDomainId
  moduleVersionId : Guid
  integrations : List IntegrationMethod

namespace ModuleMetadata

/-- The constructor. -/
def new (assemblyName : Text) (appDomainId : AppDomainId) (moduleVersionId : Guid)
    (integrations : List IntegrationMethod) : ModuleMetadata :=
  ⟨KeyedCache.empty, KeyedCache.empty, [], assemblyName, appDomainId, moduleVersionId,
    integrations⟩

def tryGetWrapperMemberRef (d : ModuleMetadata) (key : Text) : Option MdToken :=
  d.wrapperRefs key

def tryGetWrapperParentTypeRef (d : ModuleMetadata) (key : Text) : Option MdToken :=
  d.wrapperParentType key

def isFailedWrapperMemberKey (d : ModuleMetadata) (key : Text) : Prop :=
  key ∈ d.failedWrapperKeys

def setWrapperMemberRef (d : ModuleMetadata) (key : Text) (value : MdToken) : ModuleMetadata :=
  { d with wrapperRefs := d.wrapperRefs.store key value }

def setWrapperParentTypeRef (d : ModuleMetadata) (key : Text) (value : MdToken) :
    ModuleMetadata :=
  { d with wrapperParentType := d.wrapperParentType.store key value }

def setFailedWrapperMemberKey (d : ModuleMetadata) (key : Text) : ModuleMetadata :=
  { d with failedWrapperKeys := d.failedWrapperKeys.insert key }

end ModuleMetadata

/-- The caches of a module, the state of the runtime, and the wrappers for which a failure has
been recorded. -/
structure Session (M : Type*) where
  metadata : ModuleMetadata
  runtime : M
  recorded : List MethodReference

/-- Search for a record, which is defined when it is not found. -/
def findOrDefine {M : Type*} (find define : M → (HResult × MdToken) × M) (m : M) :
    (HResult × MdToken) × M :=
  let found := find m
  if found.1.1 = HResult.recordNotFound then define found.2 else found

section Builder

variable {M : Type*} (api : MetadataInterfaces M)

/-- The loop of `FindAssemblyRef`. -/
def searchAssemblyRefs (name : Text) : List MdToken → M → MdToken × M
  | [], m => (mdAssemblyRefNil, m)
  | ref :: refs, m =>
      let props := api.referencedAssemblyName ref m
      if props.1 = name then (ref, props.2) else searchAssemblyRefs name refs props.2

/-- `FindAssemblyRef`. -/
def findAssemblyRef (name : Text) (m : M) : MdToken × M :=
  let refs := api.enumAssemblyRefs m
  searchAssemblyRefs api name refs.1 refs.2

/-- `EmitAssemblyRef`: a failure is only logged. -/
def emitAssemblyRef (a : AssemblyReference) (m : M) : M :=
  (api.defineAssemblyRef a.identity m).2

/-- The type of a wrapper, which `FindWrapperTypeRef` looks up when it is not cached. -/
def resolveWrapperTypeRef (moduleToken : MdToken) (assemblyName : Text) (r : MethodReference)
    (m : M) : (HResult × MdToken) × M :=
  if assemblyName = r.assembly.name then api.defineTypeRefByName moduleToken r.typeName m
  else
    let found := findAssemblyRef api r.assembly.name m
    if found.1 = mdAssemblyRefNil then ((HResult.E_FAIL, mdTypeRefNil), found.2)
    else
      findOrDefine (api.findTypeRef found.1 r.typeName)
        (api.defineTypeRefByName found.1 r.typeName) found.2

/-- `FindWrapperTypeRef`. -/
def findWrapperTypeRef (moduleToken : MdToken) (r : MethodReference) (s : Session M) :
    (HResult × MdToken) × Session M :=
  match s.metadata.tryGetWrapperParentTypeRef (r.getTypeCacheKey api.platform) with
  | some typeRef => ((HResult.S_OK, typeRef), s)
  | none =>
      let resolved := resolveWrapperTypeRef api moduleToken s.metadata.assemblyName r s.runtime
      if HResult.failed resolved.1.1 then (resolved.1, { s with runtime := resolved.2 })
      else
        ((HResult.S_OK, resolved.1.2),
          { s with
            runtime := resolved.2
            metadata :=
              s.metadata.setWrapperParentTypeRef (r.getTypeCacheKey api.platform) resolved.1.2 })

/-- Record that the key of a wrapper failed. -/
def Session.recordFailure (s : Session M) (r : MethodReference) : Session M :=
  { s with
    metadata := s.metadata.setFailedWrapperMemberKey (r.getMethodCacheKey api.platform)
    recorded := s.recorded ++ [r] }

/-- `StoreWrapperMethodRef`. -/
def storeWrapperMethodRef (moduleToken : MdToken) (r : MethodReference) (s : Session M) :
    HResult × Session M :=
  match s.metadata.tryGetWrapperMemberRef (r.getMethodCacheKey api.platform) with
  | some _ => (HResult.S_OK, s)
  | none =>
      let parent := findWrapperTypeRef api moduleToken r s
      if HResult.failed parent.1.1 then (parent.1.1, parent.2.recordFailure api r)
      else
        let resolved :=
          findOrDefine (api.findMemberRef parent.1.2 r.methodName r.methodSignature)
            (api.defineMemberRef parent.1.2 r.methodName r.methodSignature) parent.2.runtime
        let s := { parent.2 with runtime := resolved.2 }
        if HResult.failed resolved.1.1 then (resolved.1.1, s.recordFailure api r)
        else
          (HResult.S_OK,
            { s with
              metadata :=
                s.metadata.setWrapperMemberRef (r.getMethodCacheKey api.platform) resolved.1.2 })

/-- `GetWrapperMethodRef`: the reference when it returns true. -/
def getWrapperMethodRef (r : MethodReference) (s : Session M) : Option MdToken × Session M :=
  match s.metadata.tryGetWrapperMemberRef (r.getMethodCacheKey api.platform) with
  | some wrapperMethodRef => (some wrapperMethodRef, s)
  | none =>
      let info := api.moduleInfoIsValid s.runtime
      if info.1 then
        let scope := api.getModuleFromScope info.2
        if HResult.failed scope.1.1 then (none, { s with runtime := scope.2 })
        else
          let s := { s with runtime := emitAssemblyRef api r.assembly scope.2 }
          let stored := storeWrapperMethodRef api scope.1.2 r s
          if HResult.failed stored.1 then (none, stored.2)
          else
            let ref := stored.2.metadata.tryGetWrapperMemberRef (r.getMethodCacheKey api.platform)
            (some (ref.getD mdMemberRefNil), stored.2)
      else (none, { s with runtime := info.2 })

end Builder

section Paths

variable {M : Type*} {api : MetadataInterfaces M} {r : MethodReference} {s t : Session M}
variable {moduleToken token : MdToken} {hr : HResult}

theorem findWrapperTypeRef_of_resolved {m : M}
    (hmiss : s.metadata.tryGetWrapperParentTypeRef (r.getTypeCacheKey api.platform) = none)
    (hresolved : resolveWrapperTypeRef api moduleToken s.metadata.assemblyName r s.runtime =
      ((hr, token), m)) (hok : ¬HResult.failed hr) :
    findWrapperTypeRef api moduleToken r s =
      ((HResult.S_OK, token),
        { s with
          runtime := m
          metadata :=
            s.metadata.setWrapperParentTypeRef (r.getTypeCacheKey api.platform) token }) := by
  simp [findWrapperTypeRef, hmiss, hresolved, hok]

theorem storeWrapperMethodRef_of_resolved {parent : MdToken} {hr' : HResult} {m : M}
    (hmiss : s.metadata.tryGetWrapperMemberRef (r.getMethodCacheKey api.platform) = none)
    (hparent : findWrapperTypeRef api moduleToken r s = ((hr, parent), t))
    (hok : ¬HResult.failed hr)
    (hresolved : findOrDefine (api.findMemberRef parent r.methodName r.methodSignature)
      (api.defineMemberRef parent r.methodName r.methodSignature) t.runtime = ((hr', token), m))
    (hok' : ¬HResult.failed hr') :
    storeWrapperMethodRef api moduleToken r s =
      (HResult.S_OK,
        { t with
          runtime := m
          metadata :=
            t.metadata.setWrapperMemberRef (r.getMethodCacheKey api.platform) token }) := by
  simp [storeWrapperMethodRef, hmiss, hparent, hok, hresolved, hok']

theorem getWrapperMethodRef_of_stored {hr' : HResult} {m m' : M}
    (hmiss : s.metadata.tryGetWrapperMemberRef (r.getMethodCacheKey api.platform) = none)
    (hinfo : api.moduleInfoIsValid s.runtime = (true, m))
    (hscope : api.getModuleFromScope m = ((hr, moduleToken), m')) (hok : ¬HResult.failed hr)
    (hstored : storeWrapperMethodRef api moduleToken r
      { s with runtime := emitAssemblyRef api r.assembly m' } = (hr', t))
    (hok' : ¬HResult.failed hr')
    (hfound : t.metadata.tryGetWrapperMemberRef (r.getMethodCacheKey api.platform) = some token) :
    getWrapperMethodRef api r s = (some token, t) := by
  simp [getWrapperMethodRef, hmiss, hinfo, hscope, hok, hstored, hok', hfound]

end Paths

end SignalFxTracing.Metadata
