import SignalFxTracing.Clr.Text
import SignalFxTracing.Lib.ExceptRules

/-!
# Dynamic methods (`DynamicMethodBuilder.cs`, `MethodBuilder.cs`)

What reflection tells about the types of a process is a parameter. A dynamic
method is the list of the instructions given to the emitter, with the type of
its delegate.

## Implementation notes

The checks that the emitter makes at one instruction after another and when
the delegate is created are one parameter, applied to the whole method.
-/

namespace SignalFxTracing.Emit

open Clr Lib.ExceptRules

/-- Exceptions, by what throws them. -/
inductive Exn
  | nullReference
  | indexOutOfRange
  | argument
  | notSupported
  | exception
  /-- Thrown by reflection, by the emitter or by the member that is called. -/
  | external (number : Nat)
  deriving DecidableEq

/-- `OpCodeValue`. -/
def opCodeCall : Int16 := 40
def opCodeCallvirt : Int16 := 111

structure MethodInfo (T : Type*) where
  /-- Tells the method from others that look alike. -/
  handle : Nat
  name : Text
  returnType : T
  parameterTypes : List T
  isStatic : Bool := false
  isGenericMethod : Bool := false
  isGenericMethodDefinition : Bool := false
  containsGenericParameters : Bool := false
  genericArguments : List T := []
  deriving DecidableEq

structure PropertyInfo (T : Type*) where
  propertyType : T
  getMethod : Option (MethodInfo T)
  deriving DecidableEq

structure FieldInfo (T : Type*) where
  handle : Nat
  fieldType : T
  deriving DecidableEq

/-- The instructions that are emitted. -/
inductive Instruction (T : Type*)
  | loadArgument (index : Nat)
  | unbox (type : T)
  | unboxAny (type : T)
  | castClass (type : T)
  | box (type : T)
  | call (method : MethodInfo T)
  | callVirtual (method : MethodInfo T)
  | loadField (field : FieldInfo T)
  | return_
  deriving DecidableEq

/-- The delegate types that are told apart by their names. -/
inductive DelegateType (T : Type*)
  | func (parameterTypes : List T) (returnType : T)
  | action (parameterTypes : List T)
  | other (number : Nat)
  deriving DecidableEq

structure DynamicMethod (T : Type*) where
  delegateType : DelegateType T
  name : Text
  body : List (Instruction T)
  deriving DecidableEq

/-- Reflection and the emitter. -/
structure Reflection (T : Type*) where
  object : T
  void : T
  assemblyQualifiedName : T → Option Text
  fullName : T → Option Text
  namespaceOf : T → Option Text
  name : T → Text
  isValueType : T → Bool
  isAssignableFrom : T → T → Bool
  isGenericParameter : T → Bool
  genericParameterPosition : T → Nat
  getGenericParameterConstraints : T → List T
  getMethods : T → List (MethodInfo T)
  getProperty : T → Text → Except Exn (Option (PropertyInfo T))
  getField : T → Text → Option (FieldInfo T)
  makeGenericMethod : MethodInfo T → List (Option T) → Except Exn (MethodInfo T)
  /-- The checks of the emitter. -/
  verify : DynamicMethod T → Except Exn PUnit

/-- Classes without members, known by their names. -/
def Reflection.plain : Reflection Text where
  object := text "Object"
  void := text "Void"
  assemblyQualifiedName := some
  fullName := some
  namespaceOf _ := none
  name := id
  isValueType _ := false
  isAssignableFrom a b := a = b
  isGenericParameter _ := false
  genericParameterPosition _ := 0
  getGenericParameterConstraints _ := []
  getMethods _ := []
  getProperty _ _ := .ok none
  getField _ _ := none
  makeGenericMethod m _ := .ok m
  verify _ := .ok ⟨⟩

namespace DelegateType

variable {T : Type*}

/-- The parameter types and the return type. -/
def signature (R : Reflection T) : DelegateType T → Except Exn (List T × T)
  | func parameterTypes returnType => .ok (parameterTypes, returnType)
  | action parameterTypes => .ok (parameterTypes, R.void)
  | other _ => .error .exception

end DelegateType

namespace DynamicMethod

variable {T : Type*}

/-- The method that an instruction calls. -/
def calledMethod : Instruction T → Option (MethodInfo T)
  | .call method => some method
  | .callVirtual method => some method
  | _ => none

/-- The method that is called. -/
def target (d : DynamicMethod T) : Option (MethodInfo T) := d.body.findSome? calledMethod

end DynamicMethod

section EmitCall

variable {T : Type*} [DecidableEq T] (R : Reflection T)

/-- Load each argument and cast or unbox as necessary. -/
def loadArguments : List T → List T → Nat → Except Exn (List (Instruction T))
  | [], _, _ => .ok []
  | _ :: _, [], _ => .error .indexOutOfRange
  | delegateParameterType :: delegateTypes, underlyingParameterType :: underlyingTypes, index => do
      let rest ← loadArguments delegateTypes underlyingTypes (index + 1)
      let conversion :=
        if R.isValueType underlyingParameterType ∧ delegateParameterType = R.object then
          [Instruction.unboxAny underlyingParameterType]
        else if underlyingParameterType ≠ delegateParameterType then
          [Instruction.castClass underlyingParameterType]
        else []
      return .loadArgument index :: conversion ++ rest

/-- A static method is called non-virtually with any opcode. -/
def callInstruction (opCode : Int16) (methodInfo : MethodInfo T) : Except Exn (Instruction T) :=
  if opCode = opCodeCall ∨ methodInfo.isStatic then .ok (.call methodInfo)
  else if opCode = opCodeCallvirt then .ok (.callVirtual methodInfo)
  else .error .notSupported

/-- The conversion of the result to the return type of the delegate. -/
def convertResult (resultType returnType : T) : List (Instruction T) :=
  if R.isValueType resultType ∧ returnType = R.object then [.box resultType]
  else if resultType ≠ returnType then [.castClass returnType]
  else []

/-- The call of a method with the arguments of a delegate, as `CreateMethodCallDelegate` and
`EmitDelegate` emit it. -/
def emitCall (delegateType : DelegateType T) (type : T) (opCode : Int16)
    (methodInfo : MethodInfo T) : Except Exn (DynamicMethod T) := do
  let (delegateParameterTypes, returnType) ← delegateType.signature R
  let effectiveParameterTypes :=
    if methodInfo.isStatic then methodInfo.parameterTypes else type :: methodInfo.parameterTypes
  let loads ← loadArguments R delegateParameterTypes effectiveParameterTypes 0
  let call ← callInstruction opCode methodInfo
  let dynamicMethod : DynamicMethod T :=
    { delegateType
      name := methodInfo.name
      body := loads ++ call :: convertResult R methodInfo.returnType returnType ++ [.return_] }
  R.verify dynamicMethod
  return dynamicMethod

variable {R}

theorem findSome?_loadArguments {delegateTypes underlyingTypes : List T} {index : Nat}
    {loads : List (Instruction T)}
    (h : loadArguments R delegateTypes underlyingTypes index = .ok loads) :
    loads.findSome? DynamicMethod.calledMethod = none := by
  induction delegateTypes generalizing underlyingTypes index loads with
  | nil =>
      obtain rfl := Except.ok.inj h
      rfl
  | cons delegateType delegateTypes ih =>
      cases underlyingTypes with
      | nil => cases h
      | cons underlyingType underlyingTypes =>
          rw [loadArguments] at h
          obtain ⟨rest, hrest, h⟩ := bind_eq_ok_iff.mp h
          obtain rfl := Except.ok.inj h
          rw [List.findSome?_append, ih hrest]
          split_ifs
          · rfl
          · rfl
          · rfl

/-- What is emitted calls the method it was emitted for. -/
theorem target_emitCall {delegateType : DelegateType T} {type : T} {opCode : Int16}
    {methodInfo : MethodInfo T} {dynamicMethod : DynamicMethod T}
    (h : emitCall R delegateType type opCode methodInfo = .ok dynamicMethod) :
    dynamicMethod.target = some methodInfo := by
  rw [emitCall] at h
  obtain ⟨⟨delegateParameterTypes, returnType⟩, -, h⟩ := bind_eq_ok_iff.mp h
  obtain ⟨loads, hloads, h⟩ := bind_eq_ok_iff.mp h
  obtain ⟨call, hcall, h⟩ := bind_eq_ok_iff.mp h
  obtain ⟨_, -, h⟩ := bind_eq_ok_iff.mp h
  obtain rfl := Except.ok.inj h
  have htarget : DynamicMethod.calledMethod call = some methodInfo := by
    rw [callInstruction] at hcall
    split_ifs at hcall
    · obtain rfl := Except.ok.inj hcall
      rfl
    · obtain rfl := Except.ok.inj hcall
      rfl
  simp [DynamicMethod.target, List.findSome?_append, findSome?_loadArguments hloads, htarget]

end EmitCall

end SignalFxTracing.Emit
