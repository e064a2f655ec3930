import SignalFxTracing.Emit.DynamicMethod
import SignalFxTracing.Lib.KeyedCache

/-!
# Access to the members of an object (`ObjectExtensions.cs`)

A method, a property or a field is found by its name, and what was found, a
delegate or null, is kept in one dictionary under a string. Calls in one
process are answered one after another.

## Implementation notes

A value is `some none` when it is null; `none` stands for a member that is not
found. What a delegate returns may depend on the state of the process.
-/

namespace SignalFxTracing.Emit

open Clr Lib Lib.ExceptRules

section CreateMethodCallDelegate

variable {T : Type*} [DecidableEq T] (R : Reflection T)

/-- Namespaces and names are compared, not the types. -/
def haveSameNames (methodInfo : MethodInfo T) (methodParameterTypes : List T) : Bool :=
  methodInfo.parameterTypes.length = methodParameterTypes.length ∧
    (methodInfo.parameterTypes.zip methodParameterTypes).all fun (t1, t2) =>
      R.namespaceOf t1 = R.namespaceOf t2 ∧ R.name t1 = R.name t2

/-- `CreateMethodCallDelegate`; `none` when no method is found. -/
def createMethodCallDelegate (delegateType : DelegateType T) (type : T) (methodName : Text)
    (callOpCode : Int16) (methodParameterTypes methodGenericArguments : Option (List T)) :
    Except Exn (Option (DynamicMethod T)) := do
  let _ ← delegateType.signature R
  let methods := (R.getMethods type).filter fun m => m.name = methodName
  let methods :=
    match methodParameterTypes with
    | none => methods
    | some types => methods.filter fun m => haveSameNames R m types
  let methods :=
    match methodGenericArguments with
    | none => methods
    | some arguments => methods.filter fun m =>
        m.isGenericMethodDefinition ∧ m.genericArguments.length = arguments.length
  match methods.head? with
  | none => return none
  | some methodInfo =>
      let methodInfo ←
        match methodGenericArguments with
        | none => pure methodInfo
        | some arguments => R.makeGenericMethod methodInfo (arguments.map some)
      let dynamicMethod ← emitCall R delegateType type callOpCode methodInfo
      return some dynamicMethod

end CreateMethodCallDelegate

section CreateMemberDelegate

variable {T : Type*} [DecidableEq T] (R : Reflection T) (result containerType : T)

/-- The type `Func<object, TResult>`. -/
def accessorType : DelegateType T := .func [R.object] result

/-- `CreatePropertyDelegate`. -/
def createPropertyDelegate (propertyName : Text) : Except Exn (Option (DynamicMethod T)) := do
  match ← R.getProperty containerType propertyName with
  | none => return none
  | some propertyInfo =>
      match propertyInfo.getMethod with
      | none => throw .nullReference
      | some methodInfo =>
          let dynamicMethod : DynamicMethod T :=
            { delegateType := accessorType R result
              name := (R.fullName containerType).getD [] ++ text ".get_" ++ propertyName
              body :=
                [.loadArgument 0,
                  if R.isValueType containerType then .unbox containerType
                  else .castClass containerType,
                  if methodInfo.isStatic then .call methodInfo else .callVirtual methodInfo] ++
                (if propertyInfo.propertyType ≠ result then
                  (if R.isValueType propertyInfo.propertyType then
                    [.box propertyInfo.propertyType] else []) ++ [.castClass result]
                else []) ++ [.return_] }
          R.verify dynamicMethod
          return some dynamicMethod

/-- `CreateFieldDelegate`. -/
def createFieldDelegate (fieldName : Text) : Except Exn (Option (DynamicMethod T)) := do
  match R.getField containerType fieldName with
  | none => return none
  | some fieldInfo =>
      let dynamicMethod : DynamicMethod T :=
        { delegateType := accessorType R result
          name := (R.fullName containerType).getD [] ++ text "." ++ fieldName
          body :=
            [.loadArgument 0,
              if R.isValueType containerType then .unboxAny containerType
              else .castClass containerType,
              .loadField fieldInfo] ++
            (if R.isValueType fieldInfo.fieldType ∧ result = R.object then
              [.box fieldInfo.fieldType]
            else if fieldInfo.fieldType ≠ result then [.castClass result]
            else []) ++ [.return_] }
      R.verify dynamicMethod
      return some dynamicMethod

end CreateMemberDelegate

/-- The methods of the class, with the names and types they are called with. -/
inductive Lookup (T : Type*)
  /-- `TryCallMethod` with a parameter. -/
  | tryCallMethod1 (methodName : Text) (paramType1 result : T)
  | tryCallMethod (methodName : Text) (result : T)
  | tryGetPropertyValue (propertyName : Text) (result : T)
  | tryGetFieldValue (fieldName : Text) (result : T)
  deriving DecidableEq

namespace Lookup

variable {T : Type*} (R : Reflection T) (type : T)

/-- The type that the cached item is tested for. -/
def delegateType : Lookup T → DelegateType T
  | tryCallMethod1 _ paramType1 result => .func [R.object, paramType1] result
  | tryCallMethod _ result => accessorType R result
  | tryGetPropertyValue _ result => accessorType R result
  | tryGetFieldValue _ result => accessorType R result

/-- `GetKey`. -/
def getKey (result : T) (name : Text) : Text :=
  (R.assemblyQualifiedName result).getD [] ++ text ":" ++
    (R.assemblyQualifiedName type).getD [] ++ text ":" ++ name

/-- The key in the dictionary for a source of the type. -/
def key : Lookup T → Text
  | tryCallMethod1 methodName paramType1 _ =>
      (R.assemblyQualifiedName type).getD [] ++ text "." ++ methodName ++ text "." ++
        (R.assemblyQualifiedName paramType1).getD []
  | tryCallMethod methodName _ =>
      (R.assemblyQualifiedName type).getD [] ++ text "." ++ methodName
  | tryGetPropertyValue propertyName result => getKey R type result propertyName
  | tryGetFieldValue fieldName result => getKey R type result fieldName

/-- The item made when there is none under the key. -/
def create [DecidableEq T] (lookup : Lookup T) : Except Exn (Option (DynamicMethod T)) :=
  match lookup with
  | tryCallMethod1 methodName paramType1 _ =>
      createMethodCallDelegate R (lookup.delegateType R) type methodName opCodeCallvirt
        (some [paramType1]) none
  | tryCallMethod methodName _ =>
      createMethodCallDelegate R (lookup.delegateType R) type methodName opCodeCallvirt none none
  | tryGetPropertyValue propertyName result => createPropertyDelegate R result type propertyName
  | tryGetFieldValue fieldName result => createFieldDelegate R result type fieldName

/-- The type has no member of the kind, name and parameter that is looked up. -/
def IsMissing : Lookup T → Prop
  | tryCallMethod1 methodName paramType1 _ =>
      ∀ m ∈ R.getMethods type, m.name = methodName → haveSameNames R m [paramType1] = false
  | tryCallMethod methodName _ => ∀ m ∈ R.getMethods type, m.name ≠ methodName
  | tryGetPropertyValue propertyName _ => R.getProperty type propertyName = .ok none
  | tryGetFieldValue fieldName _ => R.getField type fieldName = none

end Lookup

section Created

variable {T : Type*} [DecidableEq T] {R : Reflection T} {type : T}

theorem delegateType_of_emitCall {delegateType : DelegateType T} {opCode : Int16}
    {methodInfo : MethodInfo T} {d : DynamicMethod T}
    (h : emitCall R delegateType type opCode methodInfo = .ok d) : d.delegateType = delegateType := by
  rw [emitCall] at h
  obtain ⟨⟨delegateParameterTypes, returnType⟩, -, h⟩ := bind_eq_ok_iff.mp h
  obtain ⟨loads, -, h⟩ := bind_eq_ok_iff.mp h
  obtain ⟨call, -, h⟩ := bind_eq_ok_iff.mp h
  obtain ⟨_, -, h⟩ := bind_eq_ok_iff.mp h
  obtain rfl := Except.ok.inj h
  rfl

/-- Without generic arguments the delegate is made for the first method with the name and the
parameter types. -/
theorem createMethodCallDelegate_func {parameterTypes : List T} {result : T} {methodName : Text}
    {callOpCode : Int16} {types : Option (List T)} :
    createMethodCallDelegate R (.func parameterTypes result) type methodName callOpCode types none =
      match (R.getMethods type).find? fun m =>
          m.name = methodName && types.all (haveSameNames R m) with
      | none => .ok none
      | some methodInfo =>
          (emitCall R (.func parameterTypes result) type callOpCode methodInfo).map some := by
  rw [createMethodCallDelegate, DelegateType.signature, ok_bind]
  cases types with
  | none =>
      simp only [Option.all_none, Bool.and_true, List.head?_filter]
      cases (R.getMethods type).find? fun m => m.name = methodName with
      | none => rfl
      | some methodInfo => rfl
  | some types =>
      simp only [Option.all_some, List.filter_filter, List.head?_filter]
      have hswap : ∀ m : MethodInfo T, (haveSameNames R m types && decide (m.name = methodName)) =
          (decide (m.name = methodName) && haveSameNames R m types) := fun m => Bool.and_comm ..
      simp only [hswap]
      cases (R.getMethods type).find? fun m =>
          m.name = methodName && haveSameNames R m types with
      | none => rfl
      | some methodInfo => rfl

theorem createMethodCallDelegate_eq_none_iff {parameterTypes : List T} {result : T}
    {methodName : Text} {callOpCode : Int16} {types : Option (List T)} :
    createMethodCallDelegate R (.func parameterTypes result) type methodName callOpCode types
        none = .ok none ↔
      ∀ m ∈ R.getMethods type, m.name = methodName → types.all (haveSameNames R m) = false := by
  rw [createMethodCallDelegate_func]
  cases hfound : (R.getMethods type).find? fun m =>
      m.name = methodName && types.all (haveSameNames R m) with
  | none => simpa using hfound
  | some methodInfo =>
      have hmap : (emitCall R (.func parameterTypes result) type callOpCode methodInfo).map some ≠
          .ok none := by
        intro h
        obtain ⟨d, -, hd⟩ := map_eq_ok h
        cases hd
      have hmethod := List.find?_some hfound
      rw [Bool.and_eq_true, decide_eq_true_eq] at hmethod
      refine iff_of_false hmap fun h => ?_
      rw [h methodInfo (List.mem_of_find?_eq_some hfound) hmethod.1] at hmethod
      exact absurd hmethod.2 (by simp)

theorem delegateType_of_createMethodCallDelegate {parameterTypes : List T} {result : T}
    {methodName : Text} {callOpCode : Int16} {types : Option (List T)} {d : DynamicMethod T}
    (h : createMethodCallDelegate R (.func parameterTypes result) type methodName callOpCode types
      none = .ok (some d)) : d.delegateType = .func parameterTypes result := by
  rw [createMethodCallDelegate_func] at h
  cases hfound : (R.getMethods type).find? fun m =>
      m.name = methodName && types.all (haveSameNames R m) with
  | none =>
      rw [hfound] at h
      cases h
  | some methodInfo =>
      rw [hfound] at h
      obtain ⟨made, hmade, hd⟩ := map_eq_ok h
      obtain rfl := Option.some.inj hd
      exact delegateType_of_emitCall hmade

/-- A delegate that is made has the type it is asked for. -/
theorem Lookup.delegateType_of_create {lookup : Lookup T} {d : DynamicMethod T}
    (h : lookup.create R type = .ok (some d)) : d.delegateType = lookup.delegateType R := by
  cases lookup with
  | tryCallMethod1 methodName paramType1 result =>
      rw [create, delegateType] at h
      exact delegateType_of_createMethodCallDelegate h
  | tryCallMethod methodName result =>
      rw [create, delegateType, accessorType] at h
      exact delegateType_of_createMethodCallDelegate h
  | tryGetPropertyValue propertyName result =>
      rw [create, createPropertyDelegate] at h
      obtain ⟨propertyInfo, -, h⟩ := bind_eq_ok_iff.mp h
      cases propertyInfo with
      | none => cases h
      | some propertyInfo =>
          dsimp only at h
          cases hget : propertyInfo.getMethod with
          | none =>
              rw [hget] at h
              cases h
          | some methodInfo =>
              rw [hget] at h
              obtain ⟨_, -, h⟩ := bind_eq_ok_iff.mp h
              obtain rfl := Option.some.inj (Except.ok.inj h)
              rfl
  | tryGetFieldValue fieldName result =>
      rw [create, createFieldDelegate] at h
      cases hfield : R.getField type fieldName with
      | none =>
          rw [hfield] at h
          cases h
      | some fieldInfo =>
          rw [hfield] at h
          obtain ⟨_, -, h⟩ := bind_eq_ok_iff.mp h
          obtain rfl := Option.some.inj (Except.ok.inj h)
          rfl

/-- What is made is null when the member is missing. -/
theorem Lookup.create_eq_none_iff {lookup : Lookup T} :
    lookup.create R type = .ok none ↔ lookup.IsMissing R type := by
  cases lookup with
  | tryCallMethod1 methodName paramType1 result =>
      rw [create, delegateType, createMethodCallDelegate_eq_none_iff, IsMissing]
      simp
  | tryCallMethod methodName result =>
      rw [create, delegateType, accessorType, createMethodCallDelegate_eq_none_iff, IsMissing]
      simp
  | tryGetPropertyValue propertyName result =>
      rw [create, createPropertyDelegate, IsMissing]
      cases hproperty : R.getProperty type propertyName with
      | error e => simp
      | ok propertyInfo =>
          cases propertyInfo with
          | none => simp [pure, Except.pure]
          | some propertyInfo =>
              refine iff_of_false ?_ (by simp)
              intro h
              cases hget : propertyInfo.getMethod with
              | none =>
                  rw [ok_bind] at h
                  dsimp only at h
                  rw [hget] at h
                  cases h
              | some methodInfo =>
                  rw [ok_bind] at h
                  dsimp only at h
                  rw [hget] at h
                  obtain ⟨_, -, h⟩ := bind_eq_ok_iff.mp h
                  cases h
  | tryGetFieldValue fieldName result =>
      rw [create, createFieldDelegate, IsMissing]
      cases hfield : R.getField type fieldName with
      | none => simp [pure, Except.pure]
      | some fieldInfo =>
          refine iff_of_false ?_ (by simp)
          intro h
          obtain ⟨_, -, h⟩ := bind_eq_ok_iff.mp h
          cases h

end Created

section IsInstance

variable {T : Type*} [DecidableEq T] (R : Reflection T)

/-- Identity, or a conversion between reference types. -/
def isConvertible (source target : T) : Bool :=
  source = target ∨
    (!R.isValueType source ∧ !R.isValueType target ∧ R.isAssignableFrom target source)

/-- The test `is` for a delegate type: results are covariant and parameters contravariant. -/
def isInstance (delegateType wanted : DelegateType T) : Bool :=
  match delegateType, wanted with
  | .func parameterTypes returnType, .func wantedTypes wantedReturn =>
      parameterTypes.length = wantedTypes.length ∧
        (wantedTypes.zip parameterTypes).all (fun (w, p) => isConvertible R w p) ∧
        isConvertible R returnType wantedReturn
  | _, _ => delegateType = wanted

theorem isConvertible_self (type : T) : isConvertible R type type = true := by
  simp [isConvertible]

theorem isInstance_self (delegateType : DelegateType T) :
    isInstance R delegateType delegateType = true := by
  cases delegateType with
  | func parameterTypes returnType =>
      have hparameters : (parameterTypes.zip parameterTypes).all
          (fun (w, q) => isConvertible R w q) = true := by
        induction parameterTypes with
        | nil => rfl
        | cons type types ih =>
            rw [List.zip_cons_cons, List.all_cons, ih, Bool.and_true]
            exact isConvertible_self R type
      simp only [isInstance, hparameters, isConvertible_self, and_self, decide_true]
  | action parameterTypes => simp [isInstance]
  | other number => simp [isInstance]

end IsInstance

/-- A process whose objects have type `O` and whose states have type `H`. -/
structure Process (T O H : Type*) where
  reflection : Reflection T
  getType : O → T
  /-- What a delegate does with its arguments. -/
  invoke : H → DynamicMethod T → List (Option O) → Except Exn (Option O)

structure Call (T O H : Type*) where
  source : Option O
  lookup : Lookup T
  arg1 : Option O
  state : H

namespace Process

variable {T O H : Type*} [DecidableEq T] (p : Process T O H)

abbrev Cache (T : Type*) := KeyedCache Text (Option (DynamicMethod T))

/-- The member as it is looked up and the type of the source. -/
def looksUp (call : Call T O H) : Option T × Lookup T := (call.source.map p.getType, call.lookup)

def keyOf (call : Call T O H) : Except Exn Text :=
  match p.looksUp call with
  | (none, _) => .error .nullReference
  | (some type, lookup) => .ok (lookup.key p.reflection type)

def create (call : Call T O H) : Except Exn (Option (DynamicMethod T)) :=
  match p.looksUp call with
  | (none, _) => .error .nullReference
  | (some type, lookup) => lookup.create p.reflection type

/-- The delegate in the item is called when it has the type that is asked for. -/
def read (call : Call T O H) :
    Except Exn (Option (DynamicMethod T)) → Except Exn (Option (Option O))
  | .error e => .error e
  | .ok none => .ok none
  | .ok (some func) =>
      if isInstance p.reflection func.delegateType (call.lookup.delegateType p.reflection) then
        let arguments :=
          match call.lookup with
          | .tryCallMethod1 .. => [call.source, call.arg1]
          | _ => [call.source]
        (p.invoke call.state func arguments).map some
      else .ok none

/-- A call, with the cache behind it. -/
def perform (cache : Cache T) (call : Call T O H) : Except Exn (Option (Option O)) × Cache T :=
  match call.source, call.lookup with
  | none, .tryGetPropertyValue .. => (.ok none, cache)
  | none, _ => (.error .nullReference, cache)
  | some _, _ =>
      let (item, cache) := cache.getOrAdd p.keyOf p.create call
      (p.read call item, cache)

/-- The cache behind calls one after another. -/
def after (calls : List (Call T O H)) : Cache T :=
  calls.foldl (fun cache call => (p.perform cache call).2) KeyedCache.empty

/-- Every call is answered as on an empty cache. -/
def CacheSound (calls : List (Call T O H)) : Prop :=
  ∀ before call, before ++ [call] <+: calls →
    (p.perform (p.after before) call).1 = (p.perform KeyedCache.empty call).1

/-- The source has no member of the kind, name and parameter that is looked up. -/
def IsMissing (call : Call T O H) : Prop :=
  ∀ source, call.source = some source → call.lookup.IsMissing p.reflection (p.getType source)

/-- Calls with one key look up one member, of one kind, type and type of the result, or members
that are both missing. -/
def KeysTellApart (calls : List (Call T O H)) : Prop :=
  calls.Pairwise fun first later =>
    ∀ key, p.keyOf first = .ok key → p.keyOf later = .ok key →
      p.looksUp first = p.looksUp later ∨ p.IsMissing first ∧ p.IsMissing later

theorem perform_snd (cache : Cache T) (call : Call T O H) :
    (p.perform cache call).2 = (cache.getOrAdd p.keyOf p.create call).2 := by
  rw [perform]
  cases hsource : call.source with
  | none =>
      have hkey : p.keyOf call = .error .nullReference := by simp [keyOf, looksUp, hsource]
      rw [KeyedCache.getOrAdd, hkey]
      cases call.lookup with
      | tryGetPropertyValue => rfl
      | _ => rfl
  | some source => rfl

theorem after_eq (calls : List (Call T O H)) :
    p.after calls = KeyedCache.after p.keyOf p.create calls := by
  rw [after, KeyedCache.after]
  congr
  ext cache call : 2
  exact p.perform_snd cache call

/-- The answer of a call with a key is what its item is read for. -/
theorem perform_fst (cache : Cache T) {call : Call T O H} {key : Text}
    (hkey : p.keyOf call = .ok key) :
    (p.perform cache call).1 = p.read call (cache.getOrAdd p.keyOf p.create call).1 := by
  rw [perform]
  cases hsource : call.source with
  | none =>
      rw [keyOf, looksUp, hsource] at hkey
      cases hkey
  | some source => rfl

/-- A call without a key is answered with any cache as with another. -/
theorem perform_fst_of_error (cache other : Cache T) {call : Call T O H} {e : Exn}
    (hkey : p.keyOf call = .error e) : (p.perform cache call).1 = (p.perform other call).1 := by
  rw [perform, perform]
  cases hsource : call.source with
  | none =>
      cases call.lookup with
      | tryGetPropertyValue => rfl
      | _ => rfl
  | some source =>
      rw [keyOf, looksUp, hsource] at hkey
      cases hkey

theorem create_eq_of_looksUp {first later : Call T O H} (h : p.looksUp first = p.looksUp later) :
    p.create first = p.create later := by
  rw [create, create, h]

theorem create_eq_none_iff {call : Call T O H} {key : Text} (hkey : p.keyOf call = .ok key) :
    p.create call = .ok none ↔ p.IsMissing call := by
  cases hsource : call.source with
  | none =>
      rw [keyOf, looksUp, hsource] at hkey
      cases hkey
  | some source =>
      rw [create, looksUp, hsource]
      apply (Lookup.create_eq_none_iff).trans
      simp [IsMissing, hsource]

theorem delegateType_of_create {call : Call T O H} {d : DynamicMethod T}
    (h : p.create call = .ok (some d)) :
    d.delegateType = call.lookup.delegateType p.reflection := by
  cases hsource : call.source with
  | none =>
      rw [create, looksUp, hsource] at h
      cases h
  | some source =>
      rw [create, looksUp, hsource] at h
      exact Lookup.delegateType_of_create h

/-- The delegate of one call has the type that a later one tests for. -/
def HasTypeFor (first later : Call T O H) : Prop :=
  isInstance p.reflection (first.lookup.delegateType p.reflection)
    (later.lookup.delegateType p.reflection) = true

/-- An item answers that there is no member when it is null or of another type. -/
theorem read_create_eq_none_iff {first : Call T O H} (later : Call T O H) {key : Text}
    {item : Option (DynamicMethod T)} (hkey : p.keyOf first = .ok key)
    (hitem : p.create first = .ok item) :
    p.read later (p.create first) = .ok none ↔
      p.IsMissing first ∨ ¬p.HasTypeFor first later := by
  rw [← p.create_eq_none_iff hkey, hitem]
  cases item with
  | none => simp [read]
  | some d =>
      rw [HasTypeFor, ← p.delegateType_of_create hitem, read]
      cases htype : isInstance p.reflection d.delegateType
          (later.lookup.delegateType p.reflection) with
      | false => simp
      | true =>
          dsimp only
          cases p.invoke later.state d _ with
          | error e => simp [Except.map]
          | ok value => simp [Except.map]

/-- A call is answered on an empty cache that there is no member when the member is missing. -/
theorem read_create_self_eq_none_iff {call : Call T O H} {key : Text}
    (hkey : p.keyOf call = .ok key) :
    p.read call (p.create call) = .ok none ↔ p.IsMissing call := by
  cases hitem : p.create call with
  | error e =>
      rw [← p.create_eq_none_iff hkey, hitem]
      simp [read]
  | ok item =>
      rw [← hitem, p.read_create_eq_none_iff call hkey hitem]
      have htype : p.HasTypeFor call call := isInstance_self ..
      simp [htype]

/-- A call behind others whose keys tell it apart is answered as on an empty cache. -/
theorem perform_eq_of_keysTellApart (before : List (Call T O H)) {call : Call T O H}
    (h : ∀ first ∈ before, ∀ key, p.keyOf first = .ok key → p.keyOf call = .ok key →
      p.looksUp first = p.looksUp call ∨ p.IsMissing first ∧ p.IsMissing call) :
    (p.perform (p.after before) call).1 = (p.perform KeyedCache.empty call).1 := by
  cases hkey : p.keyOf call with
  | error e => exact p.perform_fst_of_error _ _ hkey
  | ok key =>
      rw [p.perform_fst _ hkey, p.perform_fst _ hkey, after_eq]
      congr 1
      apply KeyedCache.getOrAdd_eq_of_makes
      intro first hmem key' item hfirst hcall hitem
      rcases h first hmem key' hfirst hcall with hsame | ⟨hfirstMissing, hcallMissing⟩
      · rw [← p.create_eq_of_looksUp hsame]
        exact hitem
      · rw [(p.create_eq_none_iff hfirst).mpr hfirstMissing] at hitem
        rw [(p.create_eq_none_iff hcall).mpr hcallMissing]
        exact hitem

/-- Behind the first call of a key, when its item can be made, a member is missing exactly when the
item of that call is null or of another type than the one tested for. -/
def MissingAlike (calls : List (Call T O H)) : Prop :=
  ∀ before first between later, before ++ first :: between ++ [later] <+: calls →
    ∀ key item, (∀ call ∈ before, p.keyOf call ≠ .ok key) → p.keyOf first = .ok key →
      p.keyOf later = .ok key → p.create first = .ok item →
      (p.IsMissing later ↔ p.IsMissing first ∨ ¬p.HasTypeFor first later)

theorem missingAlike_of_cacheSound {calls : List (Call T O H)} (h : p.CacheSound calls) :
    p.MissingAlike calls := by
  intro before first between later hcalls key item hbefore hfirst hlater hitem
  have hanswer := h (before ++ first :: between) later hcalls
  rw [p.perform_fst _ hlater, p.perform_fst _ hlater, after_eq, KeyedCache.getOrAdd_after _ hlater,
    KeyedCache.getOrAdd_empty hlater, KeyedCache.maker?_of_first hbefore hfirst hitem,
    Option.getD_some] at hanswer
  rw [← p.read_create_eq_none_iff later hfirst hitem, hanswer]
  exact (p.read_create_self_eq_none_iff hlater).symm

/-- Calls that their keys tell apart are answered as on an empty cache; and where calls are answered
so, the first call of a key finds its member where the later ones of the key find theirs. -/
theorem memberCache_sound (calls : List (Call T O H)) :
    (p.KeysTellApart calls → p.CacheSound calls) ∧ (p.CacheSound calls → p.MissingAlike calls) := by
  constructor
  · intro hkeys before call hbefore
    have hpairs : (before ++ [call]).Pairwise _ := hkeys.sublist hbefore.sublist
    rw [List.pairwise_append] at hpairs
    apply p.perform_eq_of_keysTellApart
    intro first hfirst
    exact hpairs.2.2 first hfirst call (List.mem_singleton.mpr rfl)
  · exact p.missingAlike_of_cacheSound

section SharedKey

/-- A process with one class, which has a field and no property. -/
def redisProcess : Process Text Unit Unit where
  reflection :=
    { Reflection.plain with
      getField := fun _ name =>
        if name = text "multiplexer" then some ⟨0, text "Object"⟩ else none }
  getType _ := text "RedisBase"
  invoke _ _ _ := .ok (some ())

def fieldCall : Call Text Unit Unit :=
  ⟨some (), .tryGetFieldValue (text "multiplexer") (text "Object"), none, ()⟩

/-- A field that is looked up twice is found twice. -/
theorem cacheSound_field_field :
    redisProcess.CacheSound [fieldCall, fieldCall] ∧
      redisProcess.MissingAlike [fieldCall, fieldCall] := by
  have h := redisProcess.memberCache_sound [fieldCall, fieldCall]
  have hkeys : redisProcess.KeysTellApart [fieldCall, fieldCall] := by
    apply List.pairwise_pair.mpr
    intro key hfirst hlater
    exact Or.inl rfl
  exact ⟨h.1 hkeys, h.2 (h.1 hkeys)⟩

/-- A field is not found behind a look-up of a property of its name. -/
theorem not_cacheSound_property_field :
    ¬∀ calls : List (Call Text Unit Unit), redisProcess.CacheSound calls := by
  intro h
  have hfound := h
    [⟨some (), .tryGetPropertyValue (text "multiplexer") (text "Object"), none, ()⟩, fieldCall]
    [⟨some (), .tryGetPropertyValue (text "multiplexer") (text "Object"), none, ()⟩]
    fieldCall List.prefix_rfl
  have hmissing : (redisProcess.perform (redisProcess.after
      [⟨some (), .tryGetPropertyValue (text "multiplexer") (text "Object"), none, ()⟩])
      fieldCall).1 = .ok none := by decide
  rw [hmissing] at hfound
  exact absurd hfound (by decide)

end SharedKey

end Process

end SignalFxTracing.Emit
