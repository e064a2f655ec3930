import SignalFxTracing.Emit.DynamicMethod
import SignalFxTracing.Lib.KeyedCache

/-!
# Delegates for intercepted calls (`MethodBuilder.cs`)

A builder finds the method to call, by its token or else by its name and types,
and emits a delegate for it. The delegates are kept in a dictionary under a
part of what the builder was given.

## Implementation notes

There is one dictionary for each type of delegate, so that this type is a part
of the key here. Of the arguments of the call only the types are read. Logging
and statistics are left out.
-/

namespace SignalFxTracing.Emit

open Clr Lib

/-- `ClrNames.Ignore`. -/
def ignore : Text := text "_"

/-- A builder when `Build` is called; `M` is the type of modules. -/
structure MethodBuilder (T M : Type*) where
  /-- `TDelegate`. -/
  delegateType : DelegateType T
  resolutionModule : Option M
  mdToken : Int32
  originalOpCodeValue : Int32
  methodName : Option Text
  returnType : Option T := none
  concreteType : Option T := none
  /-- The types of the arguments; `none` for an argument that is null. -/
  parameters : List (Option T) := []
  explicitParameterTypes : Option (List (Option T)) := none
  namespaceAndNameFilter : Option (List (Option Text)) := none
  declaringTypeGenerics : Option (List (Option T)) := none
  methodGenerics : Option (List (Option T)) := none
  forceMethodDefResolve : Bool := false

/-- Modules, and the settings of the class. -/
structure Modules (T M : Type*) where
  reflection : Reflection T
  /-- `Module.MetadataToken`. -/
  metadataToken : M → Int32
  /-- `Module.ResolveMethod` with the generic arguments of the type and of the method, when they are
  passed; `none` for what is not a `MethodInfo`. -/
  resolveMethod : M → Int32 → Option (Option (List (Option T)) × Option (List (Option T))) →
    Except Exn (Option (MethodInfo T))
  forceMdTokenLookup : Bool
  forceFallbackLookup : Bool

namespace MethodBuilder

variable {T M : Type*} [DecidableEq T] (env : Modules T M) (b : MethodBuilder T M)

def opCode : Int16 := b.originalOpCodeValue.toInt16

section Viable

variable (R : Reflection T)

def meetsGenericArgumentRequirements (actualGenericArg : T) (expectedArg : Option T) : Bool :=
  (R.getGenericParameterConstraints actualGenericArg).all fun constraint =>
    match expectedArg with
    | none => false
    | some expectedArg => R.isAssignableFrom constraint expectedArg

/-- The types of `GetExpectedParameterTypeByIndex`. -/
def expectedParameterTypes : List (Option T) := b.explicitParameterTypes.getD b.parameters

def parametersAreViable (mi : MethodInfo T) : Bool :=
  mi.parameterTypes.length = b.parameters.length ∧
    (mi.parameterTypes.zip b.expectedParameterTypes).all fun (parameterType, expected) =>
      match expected with
      | none => true
      | some expectedParameterType =>
          if R.isGenericParameter parameterType then
            meetsGenericArgumentRequirements R parameterType expectedParameterType
          else R.isAssignableFrom parameterType expectedParameterType

def parametersAreExact (mi : MethodInfo T) : Bool :=
  (mi.parameterTypes.zip b.expectedParameterTypes).all fun (parameterType, actual) =>
    match actual with
    | none => true
    | some actualArgumentType => parameterType = actualArgumentType

def genericsAreViable (mi : MethodInfo T) : Bool :=
  match b.methodGenerics with
  | none => !mi.containsGenericParameters
  | some methodGenerics =>
      if !mi.isGenericMethod then methodGenerics.length = 0
      else
        mi.genericArguments.length = methodGenerics.length ∧
          mi.genericArguments.all fun actualGenericArg =>
            !R.isGenericParameter actualGenericArg ||
              meetsGenericArgumentRequirements R actualGenericArg
                methodGenerics[R.genericParameterPosition actualGenericArg]?.join

end Viable

section Lookups

def makeGenericMethod (methodInfo : MethodInfo T) : Except Exn (MethodInfo T) :=
  match b.methodGenerics with
  | none => .error .argument
  | some [] => .error .argument
  | some methodGenerics => env.reflection.makeGenericMethod methodInfo methodGenerics

/-- A generic method definition gets its arguments. -/
def instantiate (methodInfo : MethodInfo T) : Except Exn (MethodInfo T) :=
  if methodInfo.isGenericMethodDefinition then b.makeGenericMethod env methodInfo
  else .ok methodInfo

def verifyMethodFromToken (methodInfo : MethodInfo T) : Option (MethodInfo T) :=
  if b.methodName ≠ some methodInfo.name then none
  else if !b.genericsAreViable env.reflection methodInfo then none
  else if !b.parametersAreViable env.reflection methodInfo then none
  else some methodInfo

/-- The explicit type of an argument can hold it. -/
def checkExplicitType : Option T × Option T → Except Exn PUnit
  | (_, none) => .ok ⟨⟩
  | (none, some _) => .error .nullReference
  | (some explicitType, some parameterType) =>
      if env.reflection.isAssignableFrom explicitType parameterType then .ok ⟨⟩
      else .error .argument

/-- `ValidateRequirements`, with the type that it has found not to be null. -/
def validateRequirements : Except Exn T := do
  match b.concreteType with
  | none => throw .argument
  | some concreteType =>
      if isNullOrWhiteSpace b.methodName then throw .argument
      match b.namespaceAndNameFilter with
      | none => pure ⟨⟩
      | some filter => if filter.length ≠ b.parameters.length + 1 then throw .argument
      match b.explicitParameterTypes with
      | none => pure ⟨⟩
      | some types =>
          if types.length ≠ b.parameters.length then throw .argument
          let _ ← (types.zip b.parameters).mapM (checkExplicitType env)
          pure ⟨⟩
      return concreteType

/-- The return type and the parameter types have the names of the filter. -/
def passesFilter (filter : List (Option Text)) (m : MethodInfo T) : Bool :=
  m.parameterTypes.length + 1 = filter.length ∧
    ((m.returnType :: m.parameterTypes).zip filter).all fun (type, name) =>
      name = some ignore ∨
        some ((env.reflection.namespaceOf type).getD [] ++ text "." ++ env.reflection.name type) =
          name

/-- The candidates by name and return type, and by the filter. -/
def namedMethods (concreteType : T) : List (MethodInfo T) :=
  let methods := (env.reflection.getMethods concreteType).filter fun mi =>
    some mi.name = b.methodName ∧ (b.returnType = none ∨ some mi.returnType = b.returnType)
  match b.namespaceAndNameFilter with
  | none => methods
  | some filter => methods.filter (passesFilter env filter)

def tryFindMethod (concreteType : T) : Except Exn (MethodInfo T) :=
  match b.namedMethods env concreteType with
  | [method] => .ok method
  | methods =>
      match methods.filter (b.parametersAreViable env.reflection) with
      | [method] => .ok method
      | methods =>
          match methods.filter (b.genericsAreViable env.reflection) with
          | [method] => .ok method
          | methods =>
              match methods.filter b.parametersAreExact with
              | [method] => .ok method
              | _ => .error .argument

/-- The method of the token in the module; `none` when there is no such method. -/
def resolvedMethod : Option (MethodInfo T) :=
  match b.resolutionModule with
  | none => none
  | some resolutionModule =>
      let generics :=
        if b.forceMethodDefResolve ∨ (b.declaringTypeGenerics = none ∧ b.methodGenerics = none) then
          none
        else some (b.declaringTypeGenerics, b.methodGenerics)
      match env.resolveMethod resolutionModule b.mdToken generics with
      | .error _ => none
      | .ok methodBase => methodBase

/-- The method of the token; `none` when it is not resolved or not the one that is expected. -/
def methodFromToken : Except Exn (Option (MethodInfo T)) :=
  match b.resolvedMethod env with
  | none => .ok none
  | some info => (b.instantiate env info).map (b.verifyMethodFromToken env)

/-- The method that a delegate is emitted for. -/
def findMethod (concreteType : T) : Except Exn (MethodInfo T) := do
  match ← b.methodFromToken env with
  | none =>
      if env.forceMdTokenLookup then throw .exception
      else b.tryFindMethod env concreteType
  | some methodInfo =>
      if env.forceFallbackLookup then b.tryFindMethod env concreteType else return methodInfo

def emitDelegate (concreteType : T) : Except Exn (DynamicMethod T) := do
  let methodInfo ← b.findMethod env concreteType
  let _ ← b.delegateType.signature env.reflection
  let methodInfo ← b.instantiate env methodInfo
  emitCall env.reflection b.delegateType concreteType b.opCode methodInfo

end Lookups

/-- The key, with `TDelegate`. -/
structure Key (T : Type*) where
  delegateType : DelegateType T
  callingModuleMetadataToken : Int32
  methodMetadataToken : Int32
  callOpCode : Int16
  concreteTypeName : Text
  genericSpec : Text
  explicitParams : Text
  deriving DecidableEq

/-- What `Build` throws. -/
inductive BuildError
  /-- While the key is made or hashed. -/
  | nullReference
  /-- While the delegate is made. -/
  | factory (e : Exn)
  deriving DecidableEq

section Build

/-- `?.AssemblyQualifiedName ?? "NULL"`. -/
def typeName (type : Option T) : Text :=
  (type.bind env.reflection.assemblyQualifiedName).getD (text "NULL")

def appendGenerics (spec : Text) (generics : Option (List (Option T))) : Text :=
  (generics.getD []).foldl (fun spec type => spec ++ text "_" ++ typeName env type ++ text "_") spec

def genericSpec : Text :=
  appendGenerics env (appendGenerics env (text "_gArgs_") b.methodGenerics ++ text "_gParams_")
    b.declaringTypeGenerics

def explicitParams : Text :=
  (text "_").intercalate (b.expectedParameterTypes.map (typeName env))

/-- The constructor of `Key`, and its hash code. -/
def key : Except BuildError (Key T) :=
  match b.resolutionModule with
  | none => .error .nullReference
  | some callingModule =>
      match b.concreteType.bind env.reflection.assemblyQualifiedName with
      | none => .error .nullReference
      | some concreteTypeName => .ok
          { delegateType := b.delegateType
            callingModuleMetadataToken := env.metadataToken callingModule
            methodMetadataToken := b.mdToken
            callOpCode := b.opCode
            concreteTypeName
            genericSpec := b.genericSpec env
            explicitParams := b.explicitParams env }

/-- The factory of the entry. -/
def create : Except BuildError (DynamicMethod T) :=
  match b.validateRequirements env with
  | .error e => .error (.factory e)
  | .ok concreteType =>
      match b.emitDelegate env concreteType with
      | .error e => .error (.factory e)
      | .ok delegate => .ok delegate

abbrev Cache (T : Type*) := KeyedCache (Key T) (DynamicMethod T)

def build (cache : Cache T) : Except BuildError (DynamicMethod T) × Cache T :=
  cache.getOrAdd (key env) (create env) b

end Build

end MethodBuilder

end SignalFxTracing.Emit
