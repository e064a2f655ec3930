import SignalFxTracing.Emit.MethodBuilder

/-!
# The cache of delegates (`MethodBuilder.cs`)

Calls of `Build` in one process. The key leaves out the identity of the module,
the name of the method, its return type, the filter of names and whether the
definition is forced, and has the names of types in place of the types.
-/

namespace SignalFxTracing.Emit

open Clr Lib Lib.ExceptRules

namespace MethodBuilder

variable {T M : Type*} [DecidableEq T] (env : Modules T M)

/-- The cache behind calls of `Build`, one after another. -/
def after (builders : List (MethodBuilder T M)) : Cache T :=
  builders.foldl (fun cache b => (b.build env cache).2) KeyedCache.empty

/-- The method that a delegate calls. -/
def targetOf (outcome : Except BuildError (DynamicMethod T)) :
    Except BuildError (Option (MethodInfo T)) :=
  outcome.map DynamicMethod.target

/-- Every call selects the target it would select on an empty cache, and a module that is null
makes no exception when the key is made. -/
def CacheSound (builders : List (MethodBuilder T M)) : Prop :=
  ∀ before b, before ++ [b] <+: builders →
    targetOf (b.build env (after env before)).1 = targetOf (b.build env KeyedCache.empty).1 ∧
      (b.resolutionModule = none → (b.build env (after env before)).1 ≠ .error .nullReference)

/-- The later builder asks for what the first one asks for: all that is read to select a method and
that the key leaves out. -/
structure SameRequest (first later : MethodBuilder T M) : Prop where
  /-- The modules have one method, or none, under the token. -/
  resolvedMethod : first.resolvedMethod env = later.resolvedMethod env
  methodName : first.methodName = later.methodName
  returnType : first.returnType = later.returnType
  namespaceAndNameFilter : first.namespaceAndNameFilter = later.namespaceAndNameFilter
  methodGenerics : first.methodGenerics = later.methodGenerics
  expectedParameterTypes : first.expectedParameterTypes = later.expectedParameterTypes
  parameters_length : first.parameters.length = later.parameters.length
  /-- What passes the requirements passes them with the later arguments and concrete type. -/
  valid : ∀ concreteType, first.validateRequirements env = .ok concreteType →
    later.validateRequirements env = .ok concreteType

/-- Two calls with one key ask for the same. -/
def KeysTellApart (builders : List (MethodBuilder T M)) : Prop :=
  builders.Pairwise fun first later =>
    ∀ key, first.key env = .ok key → later.key env = .ok key → SameRequest env first later

omit [DecidableEq T] in
theorem key_of_resolutionModule_none {b : MethodBuilder T M} (h : b.resolutionModule = none) :
    b.key env = .error .nullReference := by
  rw [key, h]

omit [DecidableEq T] in
/-- Two builders with one key have the type of the delegate and the opcode of the key. -/
theorem delegateType_opCode_of_key {first later : MethodBuilder T M} {k : Key T}
    (hfirst : first.key env = .ok k) (hlater : later.key env = .ok k) :
    first.delegateType = later.delegateType ∧ first.opCode = later.opCode := by
  have hread : ∀ {b : MethodBuilder T M}, b.key env = .ok k →
      k.delegateType = b.delegateType ∧ k.callOpCode = b.opCode := by
    intro b h
    rw [key] at h
    cases hmodule : b.resolutionModule with
    | none =>
        rw [hmodule] at h
        cases h
    | some callingModule =>
        cases hname : b.concreteType.bind env.reflection.assemblyQualifiedName with
        | none =>
            rw [hmodule, hname] at h
            cases h
        | some concreteTypeName =>
            rw [hmodule, hname] at h
            obtain rfl := Except.ok.inj h
            exact ⟨rfl, rfl⟩
  obtain ⟨htype, hopCode⟩ := hread hfirst
  obtain ⟨htype', hopCode'⟩ := hread hlater
  exact ⟨htype.symm.trans htype', hopCode.symm.trans hopCode'⟩

namespace SameRequest

variable {env} {first later : MethodBuilder T M} (h : SameRequest env first later)
include h

omit [DecidableEq T] in
theorem parametersAreViable_eq (R : Reflection T) :
    first.parametersAreViable R = later.parametersAreViable R := by
  funext mi
  rw [parametersAreViable, parametersAreViable, h.expectedParameterTypes, h.parameters_length]

theorem parametersAreExact_eq : first.parametersAreExact = later.parametersAreExact := by
  funext mi
  rw [parametersAreExact, parametersAreExact, h.expectedParameterTypes]

omit [DecidableEq T] in
theorem genericsAreViable_eq (R : Reflection T) :
    first.genericsAreViable R = later.genericsAreViable R := by
  funext mi
  rw [genericsAreViable, genericsAreViable, h.methodGenerics]

omit [DecidableEq T] in
theorem instantiate_eq : first.instantiate env = later.instantiate env := by
  funext methodInfo
  rw [instantiate, instantiate, makeGenericMethod, makeGenericMethod, h.methodGenerics]

theorem namedMethods_eq (concreteType : T) :
    first.namedMethods env concreteType = later.namedMethods env concreteType := by
  rw [namedMethods, namedMethods, h.methodName, h.returnType, h.namespaceAndNameFilter]

theorem tryFindMethod_eq (concreteType : T) :
    first.tryFindMethod env concreteType = later.tryFindMethod env concreteType := by
  rw [tryFindMethod, tryFindMethod, h.namedMethods_eq, h.parametersAreViable_eq,
    h.genericsAreViable_eq, h.parametersAreExact_eq]

omit [DecidableEq T] in
theorem verifyMethodFromToken_eq :
    first.verifyMethodFromToken env = later.verifyMethodFromToken env := by
  funext methodInfo
  rw [verifyMethodFromToken, verifyMethodFromToken, h.methodName, h.genericsAreViable_eq,
    h.parametersAreViable_eq]

omit [DecidableEq T] in
theorem methodFromToken_eq : first.methodFromToken env = later.methodFromToken env := by
  rw [methodFromToken, methodFromToken, h.resolvedMethod, h.instantiate_eq,
    h.verifyMethodFromToken_eq]

theorem findMethod_eq (concreteType : T) :
    first.findMethod env concreteType = later.findMethod env concreteType := by
  rw [findMethod, findMethod, h.methodFromToken_eq, h.tryFindMethod_eq]

/-- A delegate made for the first is made for the later one, where the key is the same. -/
theorem create_eq_ok {k : Key T} (hfirst : first.key env = .ok k) (hlater : later.key env = .ok k)
    {d : DynamicMethod T} (hd : first.create env = .ok d) : later.create env = .ok d := by
  obtain ⟨htype, hopCode⟩ := delegateType_opCode_of_key env hfirst hlater
  rw [create] at hd ⊢
  cases hvalid : first.validateRequirements env with
  | error e =>
      rw [hvalid] at hd
      cases hd
  | ok concreteType =>
      have hemit : first.emitDelegate env concreteType = later.emitDelegate env concreteType := by
        rw [emitDelegate, emitDelegate, h.findMethod_eq, h.instantiate_eq, htype, hopCode]
      rw [hvalid] at hd
      rw [h.valid concreteType hvalid]
      dsimp only at hd ⊢
      rw [← hemit]
      exact hd

end SameRequest

theorem after_eq (builders : List (MethodBuilder T M)) :
    after env builders = KeyedCache.after (key env) (create env) builders := rfl

/-- A call behind others whose keys tell it apart is answered as on an empty cache. -/
theorem build_eq_of_sameRequest (before : List (MethodBuilder T M)) {b : MethodBuilder T M}
    (h : ∀ first ∈ before, ∀ key, first.key env = .ok key → b.key env = .ok key →
      SameRequest env first b) :
    (b.build env (after env before)).1 = (b.build env KeyedCache.empty).1 := by
  apply KeyedCache.getOrAdd_eq_of_makes
  intro first hmem key d hfirst hb hd
  exact (h first hmem key hfirst hb).create_eq_ok hfirst hb hd

theorem tryFindMethod_mem {b : MethodBuilder T M} {concreteType : T} {method : MethodInfo T}
    (h : b.tryFindMethod env concreteType = .ok method) :
    method ∈ b.namedMethods env concreteType := by
  have hsingle : ∀ {methods : List (MethodInfo T)} {p : MethodInfo T → Bool},
      methods.filter p = [method] → method ∈ methods := by
    intro methods p hfilter
    have hmem : method ∈ methods.filter p := hfilter ▸ List.mem_singleton.mpr rfl
    exact List.mem_of_mem_filter hmem
  rw [tryFindMethod] at h
  split at h
  · rename_i heq
    obtain rfl := Except.ok.inj h
    rw [heq]
    exact List.mem_singleton.mpr rfl
  · split at h
    · rename_i heq
      obtain rfl := Except.ok.inj h
      exact hsingle heq
    · split at h
      · rename_i heq
        obtain rfl := Except.ok.inj h
        exact List.mem_of_mem_filter (hsingle heq)
      · split at h
        · rename_i heq
          obtain rfl := Except.ok.inj h
          exact List.mem_of_mem_filter (List.mem_of_mem_filter (hsingle heq))
        · cases h

theorem methodName_of_tryFindMethod {b : MethodBuilder T M} {concreteType : T}
    {method : MethodInfo T} (h : b.tryFindMethod env concreteType = .ok method) :
    b.methodName = some method.name := by
  have hmem := tryFindMethod_mem env h
  have hnamed : method ∈ (env.reflection.getMethods concreteType).filter fun mi =>
      some mi.name = b.methodName ∧ (b.returnType = none ∨ some mi.returnType = b.returnType) := by
    rw [namedMethods] at hmem
    cases hfilter : b.namespaceAndNameFilter with
    | none =>
        rw [hfilter] at hmem
        exact hmem
    | some filter =>
        rw [hfilter] at hmem
        exact List.mem_of_mem_filter hmem
  have hname := (List.mem_filter.mp hnamed).2
  rw [decide_eq_true_eq] at hname
  exact hname.1.symm

/-- The method that is found has the name that is looked for. -/
theorem methodName_of_findMethod {b : MethodBuilder T M} {concreteType : T} {method : MethodInfo T}
    (h : b.findMethod env concreteType = .ok method) : b.methodName = some method.name := by
  rw [findMethod] at h
  obtain ⟨fromToken, htoken, h⟩ := bind_eq_ok_iff.mp h
  cases fromToken with
  | none =>
      dsimp only at h
      split_ifs at h
      exact methodName_of_tryFindMethod env h
  | some methodInfo =>
      dsimp only at h
      split_ifs at h
      · exact methodName_of_tryFindMethod env h
      · obtain rfl := Except.ok.inj h
        rw [methodFromToken] at htoken
        cases hresolved : b.resolvedMethod env with
        | none =>
            rw [hresolved] at htoken
            cases htoken
        | some info =>
            rw [hresolved] at htoken
            obtain ⟨instantiated, -, hverify⟩ := map_eq_ok htoken
            rw [verifyMethodFromToken] at hverify
            split_ifs at hverify with hname
            obtain rfl := Option.some.inj hverify
            exact not_not.mp hname

/-- A generic method keeps its name when it gets its arguments. -/
def KeepsNames (R : Reflection T) : Prop :=
  ∀ methodInfo generics made, R.makeGenericMethod methodInfo generics = .ok made →
    made.name = methodInfo.name

omit [DecidableEq T] in
theorem name_of_instantiate (hnames : KeepsNames env.reflection) {b : MethodBuilder T M}
    {methodInfo made : MethodInfo T} (h : b.instantiate env methodInfo = .ok made) :
    made.name = methodInfo.name := by
  rw [instantiate] at h
  split_ifs at h
  · rw [makeGenericMethod] at h
    split at h
    · cases h
    · cases h
    · exact hnames _ _ _ h
  · obtain rfl := Except.ok.inj h
    rfl

/-- A delegate that is made calls a method of the name that is asked for. -/
theorem target_create (hnames : KeepsNames env.reflection) {b : MethodBuilder T M}
    {d : DynamicMethod T} (h : b.create env = .ok d) :
    ∃ method, d.target = some method ∧ b.methodName = some method.name := by
  rw [create] at h
  cases hvalid : b.validateRequirements env with
  | error e =>
      rw [hvalid] at h
      cases h
  | ok concreteType =>
      rw [hvalid] at h
      dsimp only at h
      cases hemit : b.emitDelegate env concreteType with
      | error e =>
          rw [hemit] at h
          cases h
      | ok delegate =>
          rw [hemit] at h
          obtain rfl := Except.ok.inj h
          rw [emitDelegate] at hemit
          obtain ⟨found, hfound, hemit⟩ := bind_eq_ok_iff.mp hemit
          obtain ⟨signature, -, hemit⟩ := bind_eq_ok_iff.mp hemit
          obtain ⟨method, hmethod, hemit⟩ := bind_eq_ok_iff.mp hemit
          refine ⟨method, target_emitCall hemit, ?_⟩
          rw [name_of_instantiate env hnames hmethod]
          exact methodName_of_findMethod env hfound

/-- The calls with the key of a first one that makes a delegate have its method name. -/
def NamesAlike (builders : List (MethodBuilder T M)) : Prop :=
  ∀ before first between later, before ++ first :: between ++ [later] <+: builders →
    ∀ key d, (∀ b ∈ before, b.key env ≠ .ok key) → first.key env = .ok key →
      later.key env = .ok key → first.create env = .ok d → first.methodName = later.methodName

theorem namesAlike_of_cacheSound (hnames : KeepsNames env.reflection)
    {builders : List (MethodBuilder T M)} (h : CacheSound env builders) :
    NamesAlike env builders := by
  intro before first between later hbuilders key d hbefore hfirst hlater hd
  have hanswer := (h (before ++ first :: between) later hbuilders).1
  have hcached : (later.build env (after env (before ++ first :: between))).1 = .ok d := by
    rw [build, after_eq, KeyedCache.getOrAdd_after _ hlater,
      KeyedCache.maker?_of_first hbefore hfirst hd, Option.getD_some, hd]
  have hown : (later.build env KeyedCache.empty).1 = later.create env :=
    KeyedCache.getOrAdd_empty hlater
  rw [hcached, hown] at hanswer
  obtain ⟨method, htarget, hname⟩ := target_create env hnames hd
  obtain ⟨own, hownMade, htargets⟩ := map_eq_ok hanswer.symm
  obtain ⟨ownMethod, hownTarget, hownName⟩ := target_create env hnames hownMade
  have hmethods : some ownMethod = some method := hownTarget.symm.trans (htargets.trans htarget)
  rw [hname, hownName, Option.some.inj hmethods]

/-- The cache is sound for calls that their keys tell apart, unless a module is null; and where it
is sound, calls with one key have one method name. -/
theorem delegateCache_iff (builders : List (MethodBuilder T M)) :
    (KeysTellApart env builders →
        (CacheSound env builders ↔ ∀ b ∈ builders, b.resolutionModule ≠ none)) ∧
      (KeepsNames env.reflection → CacheSound env builders → NamesAlike env builders) := by
  constructor
  · intro hkeys
    constructor
    · intro h b hb hnone
      obtain ⟨before, rest, rfl⟩ := List.append_of_mem hb
      have hbefore : before ++ [b] <+: before ++ b :: rest := ⟨rest, by simp⟩
      apply (h before b hbefore).2 hnone
      exact KeyedCache.getOrAdd_error _ (key_of_resolutionModule_none env hnone)
    · intro hmodule before b hbefore
      constructor
      · have hpairs : (before ++ [b]).Pairwise _ := hkeys.sublist hbefore.sublist
        rw [List.pairwise_append] at hpairs
        congr 1
        apply build_eq_of_sameRequest
        intro first hfirst
        exact hpairs.2.2 first hfirst b (List.mem_singleton.mpr rfl)
      · intro hnone
        have hb : b ∈ builders :=
          hbefore.subset (List.mem_append_right _ (List.mem_singleton.mpr rfl))
        exact absurd hnone (hmodule b hb)
  · intro hnames
    exact namesAlike_of_cacheSound env hnames

section SharedKey

/-- Two modules, in each of which one method has the token `0x0A000001`. -/
def clientModules : Modules Text Bool where
  reflection := Reflection.plain
  metadataToken _ := 1
  resolveMethod m _ _ := .ok <| some
    { handle := if m then 1 else 0
      name := if m then text "Write" else text "Read"
      returnType := text "Object"
      parameterTypes := [] }
  forceMdTokenLookup := false
  forceFallbackLookup := false

/-- The call of the method of a module, through `Func<object, object>`. -/
def clientCall (m : Bool) : MethodBuilder Text Bool where
  delegateType := .func [text "Object"] (text "Object")
  resolutionModule := some m
  mdToken := 0x0A000001
  originalOpCodeValue := 111
  methodName := some (if m then text "Write" else text "Read")
  concreteType := some (text "Client")

theorem sameRequest_clientCall (m : Bool) :
    SameRequest clientModules (clientCall m) (clientCall m) where
  resolvedMethod := rfl
  methodName := rfl
  returnType := rfl
  namespaceAndNameFilter := rfl
  methodGenerics := rfl
  expectedParameterTypes := rfl
  parameters_length := rfl
  valid _ h := h

/-- Two calls of one method are told apart, and the second has the delegate of the first. -/
theorem cacheSound_clientCall :
    CacheSound clientModules [clientCall false, clientCall false] ∧
      NamesAlike clientModules [clientCall false, clientCall false] := by
  have h := delegateCache_iff clientModules [clientCall false, clientCall false]
  have hkeys : KeysTellApart clientModules [clientCall false, clientCall false] := by
    apply List.pairwise_pair.mpr
    intro key hfirst hlater
    exact sameRequest_clientCall false
  have hsound := (h.1 hkeys).mpr (by simp [clientCall])
  refine ⟨hsound, h.2 ?_ hsound⟩
  intro methodInfo generics made hmade
  obtain rfl := Except.ok.inj hmade
  rfl

/-- The method of one module is called where that of the other is asked for. -/
theorem not_cacheSound_modules :
    ¬∀ builders : List (MethodBuilder Text Bool), CacheSound clientModules builders := by
  intro h
  have hwrite := (h [clientCall false, clientCall true] [clientCall false] (clientCall true)
    List.prefix_rfl).1
  have hshared : targetOf ((clientCall true).build clientModules
        (after clientModules [clientCall false])).1 =
      targetOf ((clientCall false).build clientModules KeyedCache.empty).1 := by decide
  rw [hshared] at hwrite
  exact absurd hwrite (by decide)

end SharedKey

end MethodBuilder

end SignalFxTracing.Emit
