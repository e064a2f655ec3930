import SignalFxTracing.Il.RewriterWrapper
import SignalFxTracing.Il.StackDepth
import SignalFxTracing.Metadata.LastArgument
import SignalFxTracing.Metadata.ReturnType
import SignalFxTracing.Profiler.ModuleEvents

/-!
# Replacing calls (`CorProfiler::ProcessReplacementCalls`, `cor_profiler.cpp`)

For each replacement a cursor goes over the instructions. A call that meets the
conditions of the replacement becomes a NOP, and behind it the wrapper is called
with three more arguments. The cursor is then on the instruction behind the call
of the wrapper, and the loop goes on with the one after that.

## Implementation notes

The loop has a number of rounds, and its result is `none` when it is not enough or
when a search for a type or a name has no result. What the runtime and the profiler
answer does not change while the loop runs, except for the references to wrappers.
-/

namespace SignalFxTracing.Il

open Clr Metadata Profiler

/-- What the loop asks for, except for references to wrappers. -/
structure ReplacementQueries where
  metadata : MetadataImport
  emit : MetadataEmit
  /-- `DefineMethodSpec`, which is nil when it fails. -/
  defineMethodSpec : MdToken → MethodSignature → MdToken
  config : Configuration
  profiler : CorProfiler
  instrumentDomainNeutralAssemblies : Bool
  /-- What is in a variable for a token that no call has set. -/
  unsetToken : MdToken
  /-- The address of the module version id. -/
  moduleVersionIdPtr : UInt64

/-- What has been found out about a call that is to be replaced. -/
structure CallMatch where
  target : FunctionInfo
  wrapperMethodRef : MdToken
  methodDefMdToken : MdToken

section Conditions

/-- The tests before the reference to the wrapper: the names and the numbers of arguments. -/
def isCandidate (replacement : MethodReplacement) (target : FunctionInfo) : Bool :=
  target.isValid && replacement.targetMethod.typeName == target.type.name &&
    replacement.targetMethod.methodName == target.name &&
    6 ≤ replacement.wrapperMethod.methodSignature.length &&
    (⟨replacement.wrapperMethod.methodSignature⟩ : MethodSignature).numberOfArguments ==
      target.signature.numberOfArguments + 3 + (if target.signature.isInstanceMethod then 1 else 0)

variable (queries : ReplacementQueries)

/-- The tests of the signature behind it: the type arguments and the types. -/
def signatureAgrees (replacement : MethodReplacement) (target : FunctionInfo) : Option Bool :=
  if !target.isGeneric ||
      target.signature.numberOfTypeArguments ==
        (⟨replacement.wrapperMethod.methodSignature⟩ : MethodSignature).numberOfTypeArguments then
    match tryParseSignatureTypes queries.metadata target.signature with
    | .ok actualSig =>
        some (actualSig.length == replacement.targetMethod.signatureTypes.length &&
          (List.zip replacement.targetMethod.signatureTypes actualSig).all
            fun (expected, actual) => expected == text "_" || expected == actual)
    | .error .refused => some false
    | .error .stuck => none
  else some false

/-- The wrapper can be called in the AppDomain: the managed profiler has been loaded there, and
the calling assembly is not shared without being instrumented. -/
def wrapperIsUsable (replacement : MethodReplacement) (appDomainId : AppDomainId) : Bool :=
  replacement.wrapperMethod.assembly.name != managedName ||
    queries.profiler.profilerAssemblyIsLoadedIntoAppDomain appDomainId &&
      !(queries.config.isDesktop && queries.profiler.corlibModuleLoaded &&
        appDomainId == queries.profiler.corlibAppDomainId &&
        !queries.instrumentDomainNeutralAssemblies)

/-- What is found out when all tests hold. A MethodSpec gives the wrapper the type arguments. -/
def callMatch (target : FunctionInfo) (wrapperMethodRef : MdToken) : CallMatch :=
  if target.isGeneric then
    ⟨target, queries.defineMethodSpec wrapperMethodRef target.functionSpecSignature,
      target.methodDefId⟩
  else ⟨target, wrapperMethodRef, target.id⟩

variable {M : Type*} (api : MetadataInterfaces M)

/-- The tests of the loop on an instruction, in their order. -/
def matchCall (replacement : MethodReplacement) (pInstr : ILInstr) (s : Session M) :
    Option (Option CallMatch × Session M) :=
  if pInstr.isCall then
    (queries.metadata.getFunctionInfo (UInt32.ofNat pInstr.arg)).bind fun target =>
      if isCandidate replacement target then
        let resolved := getWrapperMethodRef api replacement.wrapperMethod s
        resolved.1.elim (some (none, resolved.2)) fun wrapperMethodRef =>
          (signatureAgrees queries replacement target).map fun agrees =>
            (if agrees && wrapperIsUsable queries replacement resolved.2.metadata.appDomainId then
              some (callMatch queries target wrapperMethodRef)
            else none, resolved.2)
      else some (none, s)
  else some (none, s)

end Conditions

section Modification

variable (queries : ReplacementQueries)

/-- The operand of a box. A TypeSpec that cannot be emitted leaves its token as it was. -/
def boxToken : BoxOperand → MdToken
  | .token token => token
  | .typeSpec sig => (queries.emit.getTokenFromTypeSpec sig).getD queries.unsetToken

/-- The token in `unbox.any` behind the call of the wrapper. -/
def unboxToken (replacement : MethodReplacement) (target : FunctionInfo) : Option MdToken :=
  if (⟨replacement.wrapperMethod.methodSignature⟩ : MethodSignature).returnTypeIsObject then
    returnTypeIsValueTypeOrGeneric queries.metadata queries.emit target.id target.signature
  else none

/-- `m_opcode = CEE_NOP`. -/
def ILRewriter.setNop (pInstr : ILInstr) (r : ILRewriter) : ILRewriter :=
  { r with il := r.il.map fun x => if x.id = pInstr.id then { x with opcode := CEE_NOP } else x }

/-- A token as an `INT32`. -/
def tokenInt32 (token : MdToken) : Int := token.toInt32.toInt

/-- The call of the wrapper with the three arguments before it, and the unboxing behind it. -/
def callWrapper (replacement : MethodReplacement) (found : CallMatch) (pInstr : ILInstr)
    (behind : InstrRef) (r : ILRewriter) : ILRewriter :=
  let r := r.callMember behind found.wrapperMethodRef.toNat false
  let call := prevRef r.il behind
  let r := r.loadInt32 call pInstr.opcode
  let r := r.loadInt32 call (tokenInt32 found.methodDefMdToken)
  let r := r.loadInt64 call queries.moduleVersionIdPtr
  match unboxToken queries replacement found.target with
  | some token => r.unboxAnyAfter call token.toNat
  | none => r

/-- The modification of the IL; the cursor is on the instruction behind it. -/
def replaceCall (replacement : MethodReplacement) (found : CallMatch) (pInstr : ILInstr)
    (r : ILRewriter) : Option (InstrRef × ILRewriter) :=
  let r := r.setNop pInstr
  let behind := nextRef r.il pInstr.ref
  (boxes queries.metadata found.target.signature).map fun operands =>
    let r := operands.foldl (fun r operand => r.box behind (boxToken queries operand).toNat) r
    (behind, callWrapper queries replacement found pInstr behind r)

end Modification

/-- The body and the caches of the module while the loops run. -/
structure ReplacementState (M : Type*) where
  rewriter : ILRewriter
  session : Session M
  modified : Bool

section Loop

variable (queries : ReplacementQueries) {M : Type*} (api : MetadataInterfaces M)

/-- The body of the loop, with the cursor behind it. -/
def replaceOne (replacement : MethodReplacement) (pInstr : ILInstr) (st : ReplacementState M) :
    Option (InstrRef × ReplacementState M) :=
  (matchCall queries api replacement pInstr st.session).bind fun (found, s) =>
    found.elim (some (pInstr.ref, { st with session := s })) fun found =>
      (replaceCall queries replacement found pInstr st.rewriter).map fun replaced =>
        (replaced.1, ⟨replaced.2, s, true⟩)

/-- The loop over the instructions, from the cursor on. -/
def replaceFrom (replacement : MethodReplacement) :
    Nat → InstrRef → ReplacementState M → Option (ReplacementState M)
  | 0, _, _ => none
  | fuel + 1, pInstr, st =>
      match nodeAt st.rewriter.il pInstr with
      | none => some st
      | some x =>
          (replaceOne queries api replacement x st).bind fun next =>
            replaceFrom replacement fuel (nextRef next.2.rewriter.il next.1) next.2

/-- The loop is entered: the wrapper replaces calls, and no reference to it has failed. -/
def isActive (replacement : MethodReplacement) (d : ModuleMetadata) : Bool :=
  replacement.wrapperMethod.action == text "ReplaceTargetMethod" &&
    !d.failedWrapperKeys.contains (replacement.wrapperMethod.getMethodCacheKey api.platform)

/-- What is done for one replacement. -/
def processReplacement (fuel : Nat) (replacement : MethodReplacement) (st : ReplacementState M) :
    Option (ReplacementState M) :=
  if isActive api replacement st.session.metadata then
    replaceFrom queries api replacement fuel (nextRef st.rewriter.il .sentinel) st
  else some st

/-- `ProcessReplacementCalls`, up to `Export`. -/
def processReplacementCalls (fuel : Nat) (methodReplacements : List MethodReplacement)
    (st : ReplacementState M) : Option (ReplacementState M) :=
  methodReplacements.foldlM (fun st replacement =>
    processReplacement queries api fuel replacement st) st

end Loop

end SignalFxTracing.Il
