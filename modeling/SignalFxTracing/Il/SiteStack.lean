import SignalFxTracing.Il.Coverage

/-!
# The operand stack at a replaced call

What the instructions in place of a call pop and push. The call of the wrapper
pops the arguments of the original call and three more, which have been pushed
before it; a box takes the value on top of the stack.
-/

namespace SignalFxTracing.Metadata.MethodSignature

variable (s : MethodSignature)

/-- What a call pops: the arguments, and the instance. -/
def callPops : Nat := s.numberOfArguments + if s.isInstanceMethod then 1 else 0

/-- The return type behind its custom modifiers is void. -/
def returnsVoid : Bool :=
  ((parseOptionalCustomMods s.data.length (s.data.drop s.indexOfReturnType)).bind List.head?) ==
    some ELEMENT_TYPE_VOID

/-- What a call pushes. -/
def callPushes : Nat := if s.returnsVoid then 0 else 1

/-- A method that returns an object pushes it. -/
theorem callPushes_of_object (h : s.returnTypeIsObject = true) : s.callPushes = 1 := by
  rw [returnTypeIsObject, Bool.and_eq_true, decide_eq_true_eq, beq_iff_eq] at h
  obtain ⟨hlength, hobject⟩ := h
  have hdrop : ∃ rest, s.data.drop s.indexOfReturnType = ELEMENT_TYPE_OBJECT :: rest := by
    obtain ⟨hlt, hget⟩ := List.getElem?_eq_some_iff.mp hobject
    exact ⟨_, by rw [List.drop_eq_getElem_cons hlt, hget]⟩
  obtain ⟨rest, hdrop⟩ := hdrop
  obtain ⟨fuel, hfuel⟩ : ∃ fuel, s.data.length = fuel + 1 :=
    Nat.exists_eq_succ_of_ne_zero (by omega)
  rw [callPushes, returnsVoid, hdrop, hfuel]
  rfl

end SignalFxTracing.Metadata.MethodSignature

namespace SignalFxTracing.Il

open Clr Metadata Profiler

/-- What calls pop and return, by the metadata. -/
def callSignatures (metadata : MetadataImport) (others : Signatures) : Signatures where
  pops x :=
    if x.isCall then (metadata.reportedFunction (UInt32.ofNat x.arg)).signature.callPops
    else others.pops x
  returns x :=
    if x.isCall then !(metadata.reportedFunction (UInt32.ofNat x.arg)).signature.returnsVoid
    else others.returns x

section Depth

variable (sig : Signatures)

/-- The depth behind an instruction; `none` where the stack does not hold what it pops. -/
def depthBehind (depth : Nat) (x : ILInstr) : Option Nat :=
  if x.popped sig ≤ depth then some (x.depthAfter sig depth) else none

/-- The depth behind instructions that are executed one after the other. -/
def depthThrough (depth : Nat) (nodes : List ILInstr) : Option Nat :=
  nodes.foldlM (depthBehind sig) depth

/-- On every stack on which the call can be executed, the nodes can, and lead to its depth. -/
def KeepsDepth (x : ILInstr) (nodes : List ILInstr) : Prop :=
  ∀ depth, x.popped sig ≤ depth → depthThrough sig depth nodes = some (x.depthAfter sig depth)

variable {sig}

theorem depthThrough_cons (depth : Nat) (x : ILInstr) (rest : List ILInstr) :
    depthThrough sig depth (x :: rest) =
      (depthBehind sig depth x).bind fun depth => depthThrough sig depth rest :=
  List.foldlM_cons

theorem depthThrough_append (depth : Nat) (before after : List ILInstr) :
    depthThrough sig depth (before ++ after) =
      (depthThrough sig depth before).bind fun depth => depthThrough sig depth after :=
  List.foldlM_append

/-- What keeps the depth can stand in place of an instruction. -/
theorem depthThrough_flatMap {place : ILInstr → List ILInstr} {nodes : List ILInstr}
    (hplace : ∀ z ∈ nodes, place z = [z] ∨ KeepsDepth sig z (place z)) {depth depth' : Nat}
    (h : depthThrough sig depth nodes = some depth') :
    depthThrough sig depth (nodes.flatMap place) = some depth' := by
  induction nodes generalizing depth with
  | nil => exact h
  | cons z rest ih =>
      obtain ⟨hz, hrest⟩ := List.forall_mem_cons.mp hplace
      rw [depthThrough_cons, Option.bind_eq_some_iff] at h
      obtain ⟨mid, hfirst, hthrough⟩ := h
      have hpiece : depthThrough sig depth (place z) = some mid := by
        obtain hkept | hkeeps := hz
        · rw [hkept, depthThrough_cons, hfirst]
          rfl
        · rw [depthBehind] at hfirst
          split_ifs at hfirst with hpopped
          rw [hkeeps depth hpopped]
          exact hfirst
      rw [List.flatMap_cons, depthThrough_append, hpiece, Option.bind_some]
      exact ih hrest hthrough

theorem KeepsDepth.flatMap {place : ILInstr → List ILInstr} {x : ILInstr} {nodes : List ILInstr}
    (h : KeepsDepth sig x nodes)
    (hplace : ∀ z ∈ nodes, place z = [z] ∨ KeepsDepth sig z (place z)) :
    KeepsDepth sig x (nodes.flatMap place) :=
  fun depth hdepth => depthThrough_flatMap hplace (h depth hdepth)

theorem depthBehind_nop (x : ILInstr) (depth : Nat) :
    depthBehind sig depth { x with opcode := CEE_NOP } = some depth :=
  if_pos (Nat.zero_le depth)

theorem depthBehind_load {opdef : OpDef} {x : ILInstr} (hget : opdefs[x.opcode]? = some opdef)
    (hpop : opdef.pop = some 0) (hpush : opdef.push = some 1) (depth : Nat) :
    depthBehind sig depth x = some (depth + 1) := by
  have hpopped : x.popped sig = 0 := by simp [ILInstr.popped, hget, hpop]
  have hpushed : x.pushed sig = 1 := by simp [ILInstr.pushed, hget, hpush]
  rw [depthBehind, hpopped, if_pos (Nat.zero_le depth), ILInstr.depthAfter, hpopped, hpushed,
    Nat.sub_zero]

/-- Loading a number pushes one value. -/
theorem depthBehind_int32Fields (value : Int) (id depth : Nat) :
    depthBehind sig depth ⟨id, (int32Fields value).1, (int32Fields value).2, none⟩ =
      some (depth + 1) := by
  rw [int32Fields]
  split_ifs with hsmall
  · have hle : value.toNat ≤ 8 := by omega
    have hopdef : ∀ k ≤ 8, ∃ opdef, opdefs[CEE_LDC_I4_0 + k]? = some opdef ∧
        opdef.pop = some 0 ∧ opdef.push = some 1 := by
      intro k hk
      interval_cases k <;> exact ⟨_, rfl, rfl, rfl⟩
    obtain ⟨opdef, hget, hpop, hpush⟩ := hopdef value.toNat hle
    exact depthBehind_load hget hpop hpush depth
  · exact @depthBehind_load sig _ ⟨id, CEE_LDC_I4_S, _, none⟩ rfl rfl rfl depth
  · exact @depthBehind_load sig _ ⟨id, CEE_LDC_I4, _, none⟩ rfl rfl rfl depth

/-- A value is boxed in its place, if there is one. -/
theorem depthThrough_boxNodes (queries : ReplacementQueries) (id depth : Nat)
    (operands : List BoxOperand) :
    depthThrough sig depth (boxNodes queries id operands) =
      if operands = [] ∨ 0 < depth then some depth else none := by
  induction operands generalizing id with
  | nil => rfl
  | cons operand operands ih =>
      have hbox : depthBehind sig depth
          ⟨id, CEE_BOX, (boxToken queries operand).toNat, none⟩ =
          if 1 ≤ depth then some (depth - 1 + 1) else none := rfl
      rw [boxNodes_cons, depthThrough_cons, hbox]
      by_cases hdepth : 1 ≤ depth
      · have hpos : 0 < depth := hdepth
        rw [if_pos hdepth, Option.bind_some, Nat.sub_add_cancel hdepth, ih, if_pos (Or.inr hpos),
          if_pos (Or.inr hpos)]
      · rw [if_neg hdepth, if_neg (by simpa using hdepth)]
        rfl

theorem opdef_of_isCall {x : ILInstr} (hcall : x.isCall = true) :
    ∃ opdef, opdefs[x.opcode]? = some opdef ∧ opdef.pop = none ∧ opdef.push = none := by
  rw [ILInstr.isCall, Bool.or_eq_true, beq_iff_eq, beq_iff_eq] at hcall
  rcases hcall with hopcode | hopcode
  · rw [hopcode]
    exact ⟨_, rfl, rfl, rfl⟩
  · rw [hopcode]
    exact ⟨_, rfl, rfl, rfl⟩

/-- A call pops what its signature has. -/
theorem popped_call {metadata : MetadataImport} {others : Signatures} {x : ILInstr}
    (hcall : x.isCall = true) : x.popped (callSignatures metadata others) =
      (metadata.reportedFunction (UInt32.ofNat x.arg)).signature.callPops := by
  obtain ⟨opdef, hget, hpop, -⟩ := opdef_of_isCall hcall
  simp [ILInstr.popped, hget, hpop, callSignatures, hcall]

theorem pushed_call {metadata : MetadataImport} {others : Signatures} {x : ILInstr}
    (hcall : x.isCall = true) : x.pushed (callSignatures metadata others) =
      (metadata.reportedFunction (UInt32.ofNat x.arg)).signature.callPushes := by
  obtain ⟨opdef, hget, -, hpush⟩ := opdef_of_isCall hcall
  simp only [ILInstr.pushed, hget, hpush, callSignatures, hcall, Option.getD_none, if_true,
    MethodSignature.callPushes]
  cases (metadata.reportedFunction (UInt32.ofNat x.arg)).signature.returnsVoid <;> rfl

theorem depthBehind_call {metadata : MetadataImport} {others : Signatures} {x : ILInstr}
    {signature : MethodSignature} (hcall : x.isCall = true)
    (hsignature : (metadata.reportedFunction (UInt32.ofNat x.arg)).signature = signature)
    (depth : Nat) : depthBehind (callSignatures metadata others) depth x =
      if signature.callPops ≤ depth then some (depth - signature.callPops + signature.callPushes)
      else none := by
  rw [depthBehind, ILInstr.depthAfter, popped_call hcall, pushed_call hcall, hsignature]

end Depth

section Sites

variable {queries : ReplacementQueries} {replacement : MethodReplacement} {found : CallMatch}
variable {others : Signatures} {id : Nat} {x : ILInstr}

/-- The wrapper takes three more arguments than what the call pops, and leaves on the stack what
the call leaves; and what is boxed is there. -/
def FitsStack (queries : ReplacementQueries) (replacement : MethodReplacement)
    (target : FunctionInfo) : Prop :=
  let wrapper : MethodSignature := ⟨replacement.wrapperMethod.methodSignature⟩
  wrapper.isInstanceMethod = false ∧ wrapper.callPushes = target.signature.callPushes ∧
    (boxedOperands queries target = [] ∨ 0 < target.signature.callPops)

/-- The stack through the nodes in place of a call. -/
theorem depthThrough_siteNodes {wrapper : MethodSignature} (depth : Nat)
    (hsignature : wrapper = ⟨replacement.wrapperMethod.methodSignature⟩)
    (hwrapper : (queries.metadata.reportedFunction found.wrapperMethodRef).signature = wrapper) :
    depthThrough (callSignatures queries.metadata others) depth
        (siteNodes queries replacement found id x) =
      if (boxedOperands queries found.target = [] ∨ 0 < depth) ∧
          wrapper.callPops ≤ depth + 3 then
        some (depth + 3 - wrapper.callPops + wrapper.callPushes)
      else none := by
  have hload : ∀ (id depth : Nat), depthBehind (callSignatures queries.metadata others) depth
      ⟨id, CEE_LDC_I8, queries.moduleVersionIdPtr.toNat, none⟩ = some (depth + 1) :=
    fun id depth => @depthBehind_load _ _ ⟨id, CEE_LDC_I8, _, none⟩ rfl rfl rfl depth
  have hcall : ∀ id depth, depthBehind (callSignatures queries.metadata others) depth
      ⟨id, CEE_CALL, found.wrapperMethodRef.toNat, none⟩ =
      if wrapper.callPops ≤ depth then some (depth - wrapper.callPops + wrapper.callPushes)
      else none := by
    intro id depth
    apply depthBehind_call rfl
    dsimp only
    rw [UInt32.ofNat_toNat, hwrapper]
  have hunbox : ∀ id depth, depthThrough (callSignatures queries.metadata others)
      (depth + wrapper.callPushes)
      ((unboxToken queries replacement found.target).toList.map fun token =>
        ⟨id, CEE_UNBOX_ANY, token.toNat, none⟩) = some (depth + wrapper.callPushes) := by
    intro id depth
    cases hunbox : unboxToken queries replacement found.target with
    | none => rfl
    | some token =>
        rw [unboxToken] at hunbox
        split_ifs at hunbox with hobject
        rw [hsignature, MethodSignature.callPushes_of_object _ hobject]
        rfl
  rw [siteNodes, depthThrough_cons, depthBehind_nop, Option.bind_some, depthThrough_append,
    depthThrough_boxNodes]
  by_cases hbox : boxedOperands queries found.target = [] ∨ 0 < depth
  · rw [if_pos hbox, Option.bind_some, wrapperNodes, depthThrough_append, depthThrough_cons,
      depthBehind_int32Fields, Option.bind_some, depthThrough_cons, depthBehind_int32Fields,
      Option.bind_some, depthThrough_cons, hload, Option.bind_some, depthThrough_cons, hcall]
    by_cases hpops : wrapper.callPops ≤ depth + 3
    · have hpops' : wrapper.callPops ≤ depth + 1 + 1 + 1 := hpops
      rw [if_pos hpops', if_pos ⟨hbox, hpops⟩, Option.bind_some]
      exact hunbox _ _
    · have hpops' : ¬wrapper.callPops ≤ depth + 1 + 1 + 1 := hpops
      rw [if_neg hpops', if_neg fun h => hpops h.2]
      rfl
  · rw [if_neg hbox, if_neg fun h => hbox h.1]
    rfl

/-- The nodes have the effect of the call exactly if the wrapper fits the target. -/
theorem keepsDepth_siteNodes_iff (hcall : x.isCall = true)
    (htarget : found.target = queries.metadata.reportedFunction (UInt32.ofNat x.arg))
    (hcandidate : isCandidate replacement found.target = true)
    (hwrapper : (queries.metadata.reportedFunction found.wrapperMethodRef).signature =
      ⟨replacement.wrapperMethod.methodSignature⟩) :
    KeepsDepth (callSignatures queries.metadata others) x
        (siteNodes queries replacement found id x) ↔
      FitsStack queries replacement found.target := by
  obtain ⟨wrapper, hsignature⟩ : ∃ wrapper : MethodSignature,
      wrapper = ⟨replacement.wrapperMethod.methodSignature⟩ := ⟨_, rfl⟩
  rw [← hsignature] at hwrapper
  have hcount : wrapper.numberOfArguments = found.target.signature.callPops + 3 := by
    simp only [isCandidate, Bool.and_eq_true, beq_iff_eq] at hcandidate
    rw [hsignature, hcandidate.2, MethodSignature.callPops, Nat.add_right_comm]
  have hpops : wrapper.callPops =
      found.target.signature.callPops + 3 + if wrapper.isInstanceMethod then 1 else 0 := by
    rw [MethodSignature.callPops, hcount]
  have hsite := fun depth => @depthThrough_siteNodes queries replacement found others id x wrapper
    depth hsignature hwrapper
  simp only [KeepsDepth, ILInstr.depthAfter, popped_call hcall, pushed_call hcall, ← htarget, hsite]
  rw [FitsStack, ← hsignature]
  generalize found.target.signature = target at *
  constructor
  · intro hkeeps
    have hleast := hkeeps target.callPops (Nat.le_refl _)
    split_ifs at hleast with hfits
    obtain ⟨hbox, hle⟩ := hfits
    have hstatic : wrapper.isInstanceMethod = false := by
      cases hinstance : wrapper.isInstanceMethod with
      | false => rfl
      | true =>
          rw [hpops, hinstance] at hle
          simp at hle
    rw [hstatic, if_neg Bool.false_ne_true] at hpops
    have hpushes := Option.some.inj hleast
    rw [hpops] at hpushes
    refine ⟨hstatic, ?_, hbox⟩
    omega
  · rintro ⟨hstatic, hpushes, hbox⟩ depth hdepth
    rw [hstatic, if_neg Bool.false_ne_true] at hpops
    rw [if_pos ⟨hbox.imp_right (Nat.lt_of_lt_of_le · hdepth), by omega⟩, hpops, hpushes]
    congr 2
    omega

end Sites

end SignalFxTracing.Il
