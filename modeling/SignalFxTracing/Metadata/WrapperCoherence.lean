import Mathlib.Tactic.SplitIfs
import SignalFxTracing.Lib.Machine
import SignalFxTracing.Metadata.WrapperRefs

/-!
# Coherence of the wrapper references

What a token stands for is read off the metadata tables. The interfaces of
the runtime add rows and change none, and a token that they give stands for
what they were asked for. From that the caches of a module are followed
through any calls for the replacements of a list.
-/

namespace SignalFxTracing.Metadata

open Clr Lib

/-- What the tokens of a module stand for. -/
structure MetadataTables (M : Type*) where
  /-- The assembly of the module. -/
  assembly : M → AssemblyIdentity
  /-- The assembly of a resolution scope. -/
  scope : M → MdToken → Option AssemblyIdentity
  /-- The resolution scope and the name of a type. -/
  typeRef : M → MdToken → Option (MdToken × Text)
  /-- The parent, the name and the signature of a member. -/
  memberRef : M → MdToken → Option (MdToken × Text × Signature)

namespace MetadataTables

variable {M : Type*} (tables : MetadataTables M)

/-- Assembly and name of the type that a token stands for. -/
def typeOf (m : M) (token : MdToken) : Option (AssemblyIdentity × Text) :=
  (tables.typeRef m token).bind fun row => (tables.scope m row.1).map fun a => (a, row.2)

/-- Parent type, name and signature of the member that a token stands for. -/
def memberOf (m : M) (token : MdToken) :
    Option ((AssemblyIdentity × Text) × Text × Signature) :=
  (tables.memberRef m token).bind fun row => (tables.typeOf m row.1).map fun t => (t, row.2)

/-- Rows are added only, and among those of the assemblies only the named ones. -/
structure Grows (added : Set AssemblyIdentity) (m m' : M) : Prop where
  assembly : tables.assembly m' = tables.assembly m
  scope : ∀ t x, tables.scope m t = some x → tables.scope m' t = some x
  typeRef : ∀ t x, tables.typeRef m t = some x → tables.typeRef m' t = some x
  memberRef : ∀ t x, tables.memberRef m t = some x → tables.memberRef m' t = some x
  added : ∀ t x, tables.scope m' t = some x → tables.scope m t = some x ∨ x ∈ added

variable {tables} {added : Set AssemblyIdentity} {m m' m'' : M}

theorem Grows.trans (h : tables.Grows added m m') (h' : tables.Grows added m' m'') :
    tables.Grows added m m'' where
  assembly := h'.assembly.trans h.assembly
  scope t x hx := h'.scope t x (h.scope t x hx)
  typeRef t x hx := h'.typeRef t x (h.typeRef t x hx)
  memberRef t x hx := h'.memberRef t x (h.memberRef t x hx)
  added t x hx := (h'.added t x hx).elim (h.added t x) Or.inr

theorem Grows.mono {more : Set AssemblyIdentity} (h : tables.Grows added m m')
    (hsub : added ⊆ more) : tables.Grows more m m' :=
  { h with added := fun t x hx => (h.added t x hx).imp_right fun hadded => hsub hadded }

theorem Grows.refl (added : Set AssemblyIdentity) (m : M) : tables.Grows added m m :=
  ⟨rfl, fun _ _ => id, fun _ _ => id, fun _ _ => id, fun _ _ => Or.inl⟩

theorem Grows.typeOf (h : tables.Grows added m m') {token : MdToken} {x : AssemblyIdentity × Text}
    (hx : tables.typeOf m token = some x) : tables.typeOf m' token = some x := by
  obtain ⟨row, hrow, hscope⟩ := Option.bind_eq_some_iff.mp hx
  obtain ⟨a, ha, rfl⟩ := Option.map_eq_some_iff.mp hscope
  simp [MetadataTables.typeOf, h.typeRef _ _ hrow, h.scope _ _ ha]

theorem Grows.memberOf (h : tables.Grows added m m') {token : MdToken}
    {x : (AssemblyIdentity × Text) × Text × Signature}
    (hx : tables.memberOf m token = some x) : tables.memberOf m' token = some x := by
  obtain ⟨row, hrow, htype⟩ := Option.bind_eq_some_iff.mp hx
  obtain ⟨t, ht, rfl⟩ := Option.map_eq_some_iff.mp htype
  simp [MetadataTables.memberOf, h.memberRef _ _ hrow, h.typeOf ht]

end MetadataTables

/-- A method that finds or defines a record: a token that it gives has the row asked for. -/
structure GivesRow {M Row : Type*} (tables : MetadataTables M)
    (rowOf : M → MdToken → Option Row) (row : Row) (method : M → (HResult × MdToken) × M) :
    Prop where
  grows : ∀ m, tables.Grows ∅ m (method m).2
  row : ∀ m, ¬HResult.failed (method m).1.1 → rowOf (method m).2 (method m).1.2 = some row

/-- The behaviour that the documentation of the metadata interfaces promises. -/
structure MetadataInterfaces.Documented {M : Type*} (api : MetadataInterfaces M)
    (tables : MetadataTables M) : Prop where
  moduleInfoIsValid : ∀ m, tables.Grows ∅ m (api.moduleInfoIsValid m).2
  getModuleFromScope : ∀ m, tables.Grows ∅ m (api.getModuleFromScope m).2
  moduleToken : ∀ m, ¬HResult.failed (api.getModuleFromScope m).1.1 →
    tables.scope (api.getModuleFromScope m).2 (api.getModuleFromScope m).1.2 =
      some (tables.assembly m)
  defineAssemblyRef : ∀ a m, tables.Grows {a} m (api.defineAssemblyRef a m).2
  enumAssemblyRefs : ∀ m, tables.Grows ∅ m (api.enumAssemblyRefs m).2
  enumerated : ∀ m, ∀ t ∈ (api.enumAssemblyRefs m).1,
    ∃ a, tables.scope (api.enumAssemblyRefs m).2 t = some a
  referencedAssemblyName : ∀ t m, tables.Grows ∅ m (api.referencedAssemblyName t m).2
  name : ∀ t m a, tables.scope m t = some a → (api.referencedAssemblyName t m).1 ≠ [] →
    (api.referencedAssemblyName t m).1 = a.name
  findTypeRef : ∀ scope name, GivesRow tables tables.typeRef (scope, name)
    (api.findTypeRef scope name)
  defineTypeRefByName : ∀ scope name, GivesRow tables tables.typeRef (scope, name)
    (api.defineTypeRefByName scope name)
  findMemberRef : ∀ parent name signature, GivesRow tables tables.memberRef
    (parent, name, signature) (api.findMemberRef parent name signature)
  defineMemberRef : ∀ parent name signature, GivesRow tables tables.memberRef
    (parent, name, signature) (api.defineMemberRef parent name signature)

section Meaning

/-- The type of a wrapper. -/
def MethodReference.parent (r : MethodReference) : AssemblyIdentity × Text :=
  (r.assembly.identity, r.typeName)

/-- The member that a wrapper is. -/
def MethodReference.member (r : MethodReference) :
    (AssemblyIdentity × Text) × Text × Signature :=
  (r.parent, r.methodName, r.methodSignature)

/-- The wrappers of a list of replacements. -/
def wrappers (replacements : List MethodReplacement) : Set MethodReference :=
  {r | ∃ replacement ∈ replacements, replacement.wrapperMethod = r}

variable (wrapperMethods : Set MethodReference)

/-- The name of a wrapper's assembly is there and tells which assembly it is. -/
def NamesAssemblies : Prop :=
  ∀ a ∈ wrapperMethods, a.assembly.name ≠ [] ∧
    ∀ b ∈ wrapperMethods, a.assembly.name = b.assembly.name →
      a.assembly.identity = b.assembly.identity

/-- An assembly that a module knows under the name of a wrapper's assembly is that assembly. -/
structure KnowsNoOther {M : Type*} (tables : MetadataTables M) (m : M) : Prop where
  assembly : ∀ r ∈ wrapperMethods, (tables.assembly m).name = r.assembly.name →
    tables.assembly m = r.assembly.identity
  scope : ∀ t x, tables.scope m t = some x → ∀ r ∈ wrapperMethods, x.name = r.assembly.name →
    x = r.assembly.identity

/-- The cache keys differ wherever what is cached differs. -/
structure KeysTellApart (platform : Platform) : Prop where
  parent : ∀ a ∈ wrapperMethods, ∀ b ∈ wrapperMethods,
    a.getTypeCacheKey platform = b.getTypeCacheKey platform → a.parent = b.parent
  member : ∀ a ∈ wrapperMethods, ∀ b ∈ wrapperMethods,
    a.getMethodCacheKey platform = b.getMethodCacheKey platform → a.member = b.member

end Meaning

section Invariant

variable {M : Type*} {api : MetadataInterfaces M} {tables : MetadataTables M}
variable {wrapperMethods : Set MethodReference}

theorem KnowsNoOther.grows {m m' : M} (h : KnowsNoOther wrapperMethods tables m)
    (hnames : NamesAssemblies wrapperMethods)
    (hm : tables.Grows {x | ∃ r ∈ wrapperMethods, r.assembly.identity = x} m m') :
    KnowsNoOther wrapperMethods tables m' where
  assembly r hr hname := by
    rw [hm.assembly] at hname ⊢
    exact h.assembly r hr hname
  scope t x hx r hr hname := by
    rcases hm.added t x hx with hold | ⟨a, ha, rfl⟩
    · exact h.scope t x hold r hr hname
    · exact (hnames a ha).2 r hr hname

/-- The caches of a module hold what was made for the wrappers of the list. -/
structure Session.Faithful (platform : Platform) (tables : MetadataTables M)
    (wrapperMethods : Set MethodReference) (s : Session M) : Prop where
  assemblyName : s.metadata.assemblyName = (tables.assembly s.runtime).name
  knowsNoOther : KnowsNoOther wrapperMethods tables s.runtime
  parents : KeyedCache.MadeFor (MethodReference.getTypeCacheKey platform) wrapperMethods
    (fun r t => tables.typeOf s.runtime t = some r.parent) s.metadata.wrapperParentType
  members : KeyedCache.MadeFor (MethodReference.getMethodCacheKey platform) wrapperMethods
    (fun r t => tables.memberOf s.runtime t = some r.member) s.metadata.wrapperRefs
  failures : ∀ key ∈ s.metadata.failedWrapperKeys,
    ∃ r ∈ s.recorded, r ∈ wrapperMethods ∧ r.getMethodCacheKey platform = key

theorem Session.Faithful.grows {s : Session M} {m : M}
    (h : s.Faithful api.platform tables wrapperMethods)
    (hnames : NamesAssemblies wrapperMethods)
    (hm : tables.Grows {x | ∃ r ∈ wrapperMethods, r.assembly.identity = x} s.runtime m) :
    Session.Faithful api.platform tables wrapperMethods { s with runtime := m } where
  assemblyName := h.assemblyName.trans (congrArg AssemblyIdentity.name hm.assembly.symm)
  knowsNoOther := h.knowsNoOther.grows hnames hm
  parents := h.parents.mono fun _ _ => hm.typeOf
  members := h.members.mono fun _ _ => hm.memberOf
  failures := h.failures

theorem Session.Faithful.recordFailure {s : Session M} {r : MethodReference}
    (h : s.Faithful api.platform tables wrapperMethods) (hr : r ∈ wrapperMethods) :
    (s.recordFailure api r).Faithful api.platform tables wrapperMethods where
  assemblyName := h.assemblyName
  knowsNoOther := h.knowsNoOther
  parents := h.parents
  members := h.members
  failures key hkey := by
    rcases List.mem_insert_iff.mp hkey with rfl | hold
    · exact ⟨r, by simp [Session.recordFailure], hr, rfl⟩
    · obtain ⟨f, hf, hfr, hfkey⟩ := h.failures key hold
      exact ⟨f, by simp [Session.recordFailure, hf], hfr, hfkey⟩

/-- Searching first and defining what is not found gives the row as well. -/
theorem GivesRow.findOrDefine {Row : Type*} {rowOf : M → MdToken → Option Row} {row : Row}
    {find define : M → (HResult × MdToken) × M} (hfind : GivesRow tables rowOf row find)
    (hdefine : GivesRow tables rowOf row define) :
    GivesRow tables rowOf row (findOrDefine find define) where
  grows m := by
    rw [Metadata.findOrDefine]
    split
    · exact (hfind.grows m).trans (hdefine.grows _)
    · exact hfind.grows m
  row m := by
    rw [Metadata.findOrDefine]
    split
    · exact hdefine.row _
    · exact hfind.row m

/-- A reference that the search finds has the name, if that is not empty. -/
theorem searchAssemblyRefs_spec (hdoc : api.Documented tables) {name : Text} (hname : name ≠ [])
    {refs : List MdToken} {m : M} (hrefs : ∀ t ∈ refs, ∃ a, tables.scope m t = some a) :
    tables.Grows ∅ m (searchAssemblyRefs api name refs m).2 ∧
      ((searchAssemblyRefs api name refs m).1 ≠ mdAssemblyRefNil →
        ∃ a, tables.scope (searchAssemblyRefs api name refs m).2
          (searchAssemblyRefs api name refs m).1 = some a ∧ a.name = name) := by
  induction refs generalizing m with
  | nil => exact ⟨.refl _ m, fun h => absurd rfl h⟩
  | cons ref refs ih =>
      have hgrows := hdoc.referencedAssemblyName ref m
      rw [searchAssemblyRefs]
      split
      next hfound =>
        refine ⟨hgrows, fun _ => ?_⟩
        obtain ⟨a, ha⟩ := hrefs ref List.mem_cons_self
        exact ⟨a, hgrows.scope _ _ ha,
          (hdoc.name ref m a ha (hfound ▸ hname)).symm.trans hfound⟩
      next =>
        have hrest : ∀ t ∈ refs,
            ∃ a, tables.scope (api.referencedAssemblyName ref m).2 t = some a := by
          intro t ht
          obtain ⟨a, ha⟩ := hrefs t (List.mem_cons_of_mem _ ht)
          exact ⟨a, hgrows.scope _ _ ha⟩
        obtain ⟨hsearch, hresult⟩ := ih hrest
        exact ⟨hgrows.trans hsearch, hresult⟩

theorem findAssemblyRef_spec (hdoc : api.Documented tables) {name : Text} (hname : name ≠ [])
    (m : M) :
    tables.Grows ∅ m (findAssemblyRef api name m).2 ∧
      ((findAssemblyRef api name m).1 ≠ mdAssemblyRefNil →
        ∃ a, tables.scope (findAssemblyRef api name m).2 (findAssemblyRef api name m).1 = some a ∧
          a.name = name) := by
  obtain ⟨hgrows, hresult⟩ := searchAssemblyRefs_spec hdoc hname (hdoc.enumerated m)
  exact ⟨(hdoc.enumAssemblyRefs m).trans hgrows, hresult⟩

/-- A type that is looked up for a wrapper is the type of the wrapper. -/
theorem resolveWrapperTypeRef_spec (hdoc : api.Documented tables)
    (hnames : NamesAssemblies wrapperMethods) {r : MethodReference} (hr : r ∈ wrapperMethods)
    {m : M} (hm : KnowsNoOther wrapperMethods tables m) {moduleToken : MdToken}
    (htoken : tables.scope m moduleToken = some (tables.assembly m)) :
    let resolved := resolveWrapperTypeRef api moduleToken (tables.assembly m).name r m
    tables.Grows ∅ m resolved.2 ∧
      (¬HResult.failed resolved.1.1 →
        tables.typeOf resolved.2 resolved.1.2 = some r.parent) := by
  dsimp only
  rw [resolveWrapperTypeRef]
  dsimp only
  split
  next hown =>
    have hrow := hdoc.defineTypeRefByName moduleToken r.typeName
    refine ⟨hrow.grows m, fun hok => ?_⟩
    have hscope := (hrow.grows m).scope _ _ htoken
    rw [hm.assembly r hr hown] at hscope
    simp [MetadataTables.typeOf, hrow.row m hok, hscope, MethodReference.parent]
  next =>
    obtain ⟨hgrows, hresult⟩ := findAssemblyRef_spec hdoc (hnames r hr).1 m
    split
    next =>
      have hfail : HResult.failed HResult.E_FAIL := by decide
      exact ⟨hgrows, fun hok => absurd hfail hok⟩
    next hfound =>
      obtain ⟨a, ha, haname⟩ := hresult hfound
      have hold := (hgrows.added _ a ha).resolve_right (Set.notMem_empty a)
      obtain rfl : a = r.assembly.identity := hm.scope _ a hold r hr haname
      have hrow := (hdoc.findTypeRef (findAssemblyRef api r.assembly.name m).1
        r.typeName).findOrDefine (hdoc.defineTypeRefByName _ r.typeName)
      refine ⟨hgrows.trans (hrow.grows _), fun hok => ?_⟩
      have hscope := (hrow.grows _).scope _ _ ha
      simp [MetadataTables.typeOf, hrow.row _ hok, hscope, MethodReference.parent]

theorem findWrapperTypeRef_spec (hdoc : api.Documented tables)
    (hnames : NamesAssemblies wrapperMethods) (hkeys : KeysTellApart wrapperMethods api.platform)
    {r : MethodReference} (hr : r ∈ wrapperMethods) {s : Session M}
    (hs : s.Faithful api.platform tables wrapperMethods) {moduleToken : MdToken}
    (htoken : tables.scope s.runtime moduleToken = some (tables.assembly s.runtime)) :
    let found := findWrapperTypeRef api moduleToken r s
    found.2.Faithful api.platform tables wrapperMethods ∧
      (¬HResult.failed found.1.1 →
        tables.typeOf found.2.runtime found.1.2 = some r.parent) := by
  dsimp only
  rw [findWrapperTypeRef]
  split
  next typeRef hcached =>
    refine ⟨hs, fun _ => ?_⟩
    apply hs.parents.lookup _ hr hcached
    intro a ha b hb hkey t ht
    rw [ht, hkeys.parent a ha b hb hkey]
  next =>
    obtain ⟨hgrows, hresult⟩ :=
      resolveWrapperTypeRef_spec hdoc hnames hr hs.knowsNoOther htoken
    rw [← hs.assemblyName] at hgrows hresult
    have hlater := hs.grows hnames (hgrows.mono (Set.empty_subset _))
    dsimp only
    split
    next hfailed => exact ⟨hlater, fun hok => absurd hfailed hok⟩
    next hok =>
      exact ⟨{ hlater with parents := hlater.parents.store hr (hresult hok) },
        fun _ => hresult hok⟩

theorem storeWrapperMethodRef_spec (hdoc : api.Documented tables)
    (hnames : NamesAssemblies wrapperMethods) (hkeys : KeysTellApart wrapperMethods api.platform)
    {r : MethodReference} (hr : r ∈ wrapperMethods) {s : Session M}
    (hs : s.Faithful api.platform tables wrapperMethods) {moduleToken : MdToken}
    (htoken : tables.scope s.runtime moduleToken = some (tables.assembly s.runtime)) :
    let stored := storeWrapperMethodRef api moduleToken r s
    stored.2.Faithful api.platform tables wrapperMethods ∧
      (¬HResult.failed stored.1 →
        ∃ t, stored.2.metadata.tryGetWrapperMemberRef (r.getMethodCacheKey api.platform) =
          some t) := by
  dsimp only
  rw [storeWrapperMethodRef]
  split
  next t hcached => exact ⟨hs, fun _ => ⟨t, hcached⟩⟩
  next =>
    obtain ⟨hparent, htype⟩ := findWrapperTypeRef_spec hdoc hnames hkeys hr hs htoken
    dsimp only
    split
    next hfailed => exact ⟨hparent.recordFailure hr, fun hok => absurd hfailed hok⟩
    next hok =>
      have hrow := (hdoc.findMemberRef (findWrapperTypeRef api moduleToken r s).1.2 r.methodName
        r.methodSignature).findOrDefine (hdoc.defineMemberRef _ r.methodName r.methodSignature)
      have hgrows := hrow.grows (findWrapperTypeRef api moduleToken r s).2.runtime
      have hlater := hparent.grows hnames (hgrows.mono (Set.empty_subset _))
      split
      next hfailed => exact ⟨hlater.recordFailure hr, fun hok' => absurd hfailed hok'⟩
      next hdefined =>
        have hmember := hrow.row _ hdefined
        refine ⟨{ hlater with members := hlater.members.store hr ?_ },
          fun _ => ⟨_, KeyedCache.store_self _ _ _⟩⟩
        simp [MetadataTables.memberOf, hmember, hgrows.typeOf (htype hok),
          MethodReference.member]

theorem getWrapperMethodRef_spec (hdoc : api.Documented tables)
    (hnames : NamesAssemblies wrapperMethods) (hkeys : KeysTellApart wrapperMethods api.platform)
    {r : MethodReference} (hr : r ∈ wrapperMethods) {s : Session M}
    (hs : s.Faithful api.platform tables wrapperMethods) :
    let got := getWrapperMethodRef api r s
    got.2.Faithful api.platform tables wrapperMethods ∧
      ∀ t, got.1 = some t →
        got.2.metadata.tryGetWrapperMemberRef (r.getMethodCacheKey api.platform) = some t := by
  dsimp only
  rw [getWrapperMethodRef]
  split
  next t hcached =>
    refine ⟨hs, fun t' ht => ?_⟩
    obtain rfl : t = t' := Option.some.inj ht
    exact hcached
  next =>
    have hinfo := (hdoc.moduleInfoIsValid s.runtime).mono
      (Set.empty_subset {x | ∃ r ∈ wrapperMethods, r.assembly.identity = x})
    have hscope := (hdoc.getModuleFromScope (api.moduleInfoIsValid s.runtime).2).mono
      (Set.empty_subset {x | ∃ r ∈ wrapperMethods, r.assembly.identity = x})
    dsimp only
    split
    next =>
      split
      next => exact ⟨hs.grows hnames (hinfo.trans hscope), fun t ht => by cases ht⟩
      next hok =>
        have hemit := hdoc.defineAssemblyRef r.assembly.identity
          (api.getModuleFromScope (api.moduleInfoIsValid s.runtime).2).2
        have hown : {r.assembly.identity} ⊆ {x | ∃ r ∈ wrapperMethods, r.assembly.identity = x} :=
          Set.singleton_subset_iff.mpr ⟨r, hr, rfl⟩
        have hadded := hemit.mono hown
        have hready := hs.grows hnames ((hinfo.trans hscope).trans hadded)
        have htoken := hemit.scope _ _ (hdoc.moduleToken _ hok)
        rw [← hscope.assembly, ← hemit.assembly] at htoken
        obtain ⟨hstored, hfound⟩ :=
          storeWrapperMethodRef_spec hdoc hnames hkeys hr hready htoken
        split
        next => exact ⟨hstored, fun t ht => by cases ht⟩
        next hsuccess =>
          refine ⟨hstored, fun t ht => ?_⟩
          obtain ⟨t', ht'⟩ := hfound hsuccess
          rw [emitAssemblyRef, ht', Option.getD_some] at ht
          rw [emitAssemblyRef, ht']
          exact ht
    next => exact ⟨hs.grows hnames hinfo, fun t ht => by cases ht⟩

end Invariant

section Calls

/-- The calls for one module. -/
inductive Call
  | getWrapperMethodRef (replacement : MethodReplacement)
  | storeWrapperMethodRef (replacement : MethodReplacement)

def Call.replacement : Call → MethodReplacement
  | .getWrapperMethodRef replacement => replacement
  | .storeWrapperMethodRef replacement => replacement

variable {M : Type*} (api : MetadataInterfaces M)

/-- One call. The builder on which `StoreWrapperMethodRef` is called is made for the module
that the scope gives. -/
def Session.perform (s : Session M) : Call → Session M
  | .getWrapperMethodRef replacement => (getWrapperMethodRef api replacement.wrapperMethod s).2
  | .storeWrapperMethodRef replacement =>
      let scope := api.getModuleFromScope s.runtime
      let s := { s with runtime := scope.2 }
      if HResult.failed scope.1.1 then s
      else (storeWrapperMethodRef api scope.1.2 replacement.wrapperMethod s).2

/-- The calls for a module that has been stored in a state of the runtime. -/
def wrapperSession (metadata : ModuleMetadata) (m : M) : Machine (Session M) Call where
  initial := ⟨metadata, m, []⟩
  step s call := some (s.perform api call)

/-- After a call, what it has returned and every reference that is found for a replacement was
made for its own wrapper, and a failure that is reported for one was recorded for it. -/
structure Coherent (tables : MetadataTables M) (replacements : List MethodReplacement)
    (s : Session M) (call : Call) (t : Session M) : Prop where
  returned : ∀ replacement token, call = .getWrapperMethodRef replacement →
    (getWrapperMethodRef api replacement.wrapperMethod s).1 = some token →
    tables.memberOf t.runtime token = some replacement.wrapperMethod.member
  found : ∀ replacement ∈ replacements, ∀ token,
    t.metadata.tryGetWrapperMemberRef
      (replacement.wrapperMethod.getMethodCacheKey api.platform) = some token →
    tables.memberOf t.runtime token = some replacement.wrapperMethod.member
  failed : ∀ replacement ∈ replacements,
    t.metadata.isFailedWrapperMemberKey (replacement.wrapperMethod.getMethodCacheKey api.platform) →
    ∃ r ∈ t.recorded, r.member = replacement.wrapperMethod.member

variable {api} {tables : MetadataTables M} {replacements : List MethodReplacement}
variable {appDomainId : AppDomainId} {moduleVersionId : Guid}
variable {integrations : List IntegrationMethod}

theorem Session.Faithful.initial {platform : Platform} {m : M}
    (hm : KnowsNoOther (wrappers replacements) tables m) :
    Session.Faithful platform tables (wrappers replacements)
      ⟨ModuleMetadata.new (tables.assembly m).name appDomainId moduleVersionId integrations, m,
        []⟩ where
  assemblyName := rfl
  knowsNoOther := hm
  parents := KeyedCache.madeFor_empty
  members := KeyedCache.madeFor_empty
  failures _ hkey := absurd hkey List.not_mem_nil

theorem Session.Faithful.perform (hdoc : api.Documented tables)
    (hnames : NamesAssemblies (wrappers replacements))
    (hkeys : KeysTellApart (wrappers replacements) api.platform) {s : Session M}
    (hs : s.Faithful api.platform tables (wrappers replacements)) {call : Call}
    (hcall : call.replacement ∈ replacements) :
    (s.perform api call).Faithful api.platform tables (wrappers replacements) := by
  cases call with
  | getWrapperMethodRef replacement =>
      exact (getWrapperMethodRef_spec hdoc hnames hkeys ⟨replacement, hcall, rfl⟩ hs).1
  | storeWrapperMethodRef replacement =>
      have hgrows := (hdoc.getModuleFromScope s.runtime).mono
        (Set.empty_subset {x | ∃ r ∈ wrappers replacements, r.assembly.identity = x})
      have hready := hs.grows hnames hgrows
      rw [Session.perform]
      split
      next => exact hready
      next hok =>
        have htoken := hdoc.moduleToken s.runtime hok
        rw [← hgrows.assembly] at htoken
        exact (storeWrapperMethodRef_spec hdoc hnames hkeys ⟨replacement, hcall, rfl⟩ hready
          htoken).1

/-- Caches that hold what was made for the wrappers answer for each of them. -/
theorem Session.Faithful.coherent (hdoc : api.Documented tables)
    (hnames : NamesAssemblies (wrappers replacements))
    (hkeys : KeysTellApart (wrappers replacements) api.platform) {s : Session M}
    (hs : s.Faithful api.platform tables (wrappers replacements)) {call : Call}
    (hcall : call.replacement ∈ replacements) :
    Coherent api tables replacements s call (s.perform api call) := by
  have ht := hs.perform hdoc hnames hkeys hcall
  have hfound : ∀ replacement ∈ replacements, ∀ token,
      (s.perform api call).metadata.tryGetWrapperMemberRef
        (replacement.wrapperMethod.getMethodCacheKey api.platform) = some token →
      tables.memberOf (s.perform api call).runtime token =
        some replacement.wrapperMethod.member := by
    intro replacement hreplacement token htoken
    apply ht.members.lookup _ ⟨replacement, hreplacement, rfl⟩ htoken
    intro a ha b hb hkey t hmember
    rw [hmember, hkeys.member a ha b hb hkey]
  refine ⟨?_, hfound, ?_⟩
  · rintro replacement token rfl hreturned
    apply hfound replacement hcall
    exact (getWrapperMethodRef_spec hdoc hnames hkeys ⟨replacement, hcall, rfl⟩ hs).2 token
      hreturned
  · intro replacement hreplacement hfailed
    obtain ⟨r, hr, hlisted, hkey⟩ := ht.failures _ hfailed
    exact ⟨r, hr, hkeys.member r hlisted _ ⟨replacement, hreplacement, rfl⟩ hkey⟩

/-- Keys that tell the wrappers apart keep the caches coherent through any calls. -/
theorem coherent_of_keys (hdoc : api.Documented tables)
    (hnames : NamesAssemblies (wrappers replacements))
    (hkeys : KeysTellApart (wrappers replacements) api.platform) {m : M}
    (hm : KnowsNoOther (wrappers replacements) tables m) {calls : List Call}
    (hcalls : ∀ call ∈ calls, call.replacement ∈ replacements) :
    let session := wrapperSession api
      (.new (tables.assembly m).name appDomainId moduleVersionId integrations) m
    session.EveryStep session.initial calls (Coherent api tables replacements) := by
  intro session before call after s t hsplit hrun hstep
  obtain rfl : s.perform api call = t := Option.some.inj hstep
  have hbefore : ∀ c ∈ before, c.replacement ∈ replacements := by
    intro c hc
    exact hcalls c (hsplit ▸ List.mem_append_left _ hc)
  have hs : s.Faithful api.platform tables (wrappers replacements) := by
    refine Machine.run_of_forall _ (fun _ c => c.replacement ∈ replacements) ?_
      (Session.Faithful.initial hm) hrun ?_
    · rintro s c t hs hc hst
      obtain rfl : s.perform api c = t := Option.some.inj hst
      exact hs.perform hdoc hnames hkeys hc
    · rintro before' c after' - rfl -
      exact hbefore c (by simp)
  exact hs.coherent hdoc hnames hkeys (hcalls call (by simp [hsplit]))

end Calls

end SignalFxTracing.Metadata
