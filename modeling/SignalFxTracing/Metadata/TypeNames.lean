import SignalFxTracing.Lib.NameTree
import SignalFxTracing.Metadata.SignatureTypes
import SignalFxTracing.Metadata.TypeTree

/-!
# What `TryParseSignatureTypes` reads of a signature

The suffixes of an array go to the next name that is complete. For an array of
a generic type this is the name of its first argument, so that the name of a
type is the text of a tree in which these suffixes have moved.

## Implementation notes

The numbers of variables, of arguments and of parameters are taken to be
bytes, and a generic type is taken to have the number of arguments that its
name tells. A type for which this is wrong is lost; one whose name tells no
number makes the function fail. For a type whose token leads to no name the
result is undefined.
-/

namespace SignalFxTracing.Metadata

open Clr Lib
open Lib.ExceptRules
open NameTree (squares)

/-- The types with no arrays of several dimensions in them. -/
abbrev SigType := TypeTree TypeToken TypeVariable fun _ => False

theorem not_bounds (bounds : {_e : Signature // False}) : False := bounds.2

structure SigMethod where
  convention : UInt8
  typeParameters : Nat
  convention_generic : convention &&& callConvGeneric ≠ 0 ↔ 0 < typeParameters
  ret : SigType
  params : List SigType

namespace SigMethod

variable (m : SigMethod)

def header : SigHeader where
  convention := m.convention
  typeParameters := m.typeParameters
  convention_generic := m.convention_generic
  parameters := m.params.length

/-- The return type and the types of the parameters. -/
def types : List SigType := m.ret :: m.params

def encode : MethodSignature := m.header.encode (TypeTree.encodeAll m.types)

/-- A type alone: the signature of a method without parameters that returns it. -/
def ofType (t : SigType) : SigMethod where
  convention := 0
  typeParameters := 0
  convention_generic := default_not_generic
  ret := t
  params := []

end SigMethod

/-- How a type is read. -/
inductive Reading
  | complete
  | failed
  | undefined
  | lost
  deriving DecidableEq

namespace Reading

/-- The first reading that is not complete. -/
def andThen : Reading → Reading → Reading
  | complete, next => next
  | reading, _ => reading

theorem andThen_eq_complete {r next : Reading} :
    r.andThen next = complete ↔ r = complete ∧ next = complete := by
  cases r
  all_goals simp [andThen]

/-- Another reading is that of the first part, or that of the second behind a complete one. -/
theorem andThen_eq_iff {r next other : Reading} (h : other ≠ complete) :
    r.andThen next = other ↔ r = other ∨ r = complete ∧ next = other := by
  cases r with
  | complete => simp [andThen, h.symm]
  | failed => simp [andThen]
  | undefined => simp [andThen]
  | lost => simp [andThen]

end Reading

/-- The name of a type that stands for itself. -/
def basicName (b : UInt8) : Text := (elementTypeName b).getD (text (toString b.toNat))

namespace TypeTree

variable (metadata : MetadataImport)

mutual

/-- How a type is read, its arguments in their order. -/
def reading : SigType → Reading
  | basic _ => .complete
  | named name =>
      if (metadata.ongoingTypeName name.mdToken).isSome then .complete else .undefined
  | var v => if v.index.val < 0x80 then .complete else .lost
  | szArray t => reading t
  | array _ bounds => bounds.2.elim
  | genericInst name arg args =>
      match metadata.getTypeInfo name.mdToken with
      | none => .undefined
      | some typeData =>
          match genericArity typeData.name with
          | none => .failed
          | some arity =>
              if arity = args.length + 1 ∧ args.length + 1 < 0x80 then
                (reading arg).andThen (readingAll args)
              else .lost

def readingAll : List SigType → Reading
  | [] => .complete
  | t :: ts => (reading t).andThen (readingAll ts)

end

mutual

/-- The tree whose text is the name of a type, `pending` array suffixes waiting before it. -/
def codeTree : (pending : Nat) → SigType → NameTree
  | pending, basic b => .leaf (basicName b) pending
  | pending, named name => .leaf (metadata.typeName name.mdToken) pending
  | pending, var _ => .leaf (text "T") pending
  | pending, szArray t => codeTree (pending + 1) t
  | _, array _ bounds => bounds.2.elim
  | pending, genericInst name arg args =>
      .node (metadata.reportedType name.mdToken).name (codeTree pending arg) (codeTreeAll args)

def codeTreeAll : List SigType → List NameTree
  | [] => []
  | t :: ts => codeTree 0 t :: codeTreeAll ts

end

end TypeTree

section Rounds

variable (metadata : MetadataImport) (expected : Nat)

theorem retrieveToken_length (rest : Signature) :
    (retrieveToken rest).2.length ≤ rest.length := by
  rw [retrieveToken, corSigUncompressToken]
  cases h : corSigUncompressData rest with
  | none => exact Nat.zero_le _
  | some read =>
      obtain ⟨e, rfl, -⟩ := encodesNumber_of_read h
      simp

theorem retrieveToken_append {n : Nat} {e : Signature} (h : EncodesNumber n e)
    (tail : Signature) : retrieveToken (e ++ tail) = (decodeToken n, tail) := by
  rw [retrieveToken, corSigUncompressToken, corSigUncompressData_append h]
  rfl

/-- No round goes back. -/
theorem typeNamesStep_length {b : UInt8} {rest left : Signature} {s s' : TypeNamesState}
    (h : typeNamesStep metadata expected b rest s = .ok (s', left)) :
    left.length ≤ rest.length := by
  have hmap : ∀ {α : Type} {x : Except ParseStop α} {f : α → TypeNamesState} {behind : Signature},
      (x.map fun a => (f a, behind)) = .ok (s', left) → behind = left := by
    intro α x f behind hstate
    obtain ⟨_, _, hpair⟩ := map_eq_ok hstate
    exact congrArg Prod.snd hpair
  have hdrop : ∀ (n : Nat) (sig : Signature), (sig.drop n).length ≤ sig.length := by
    intro n sig
    rw [List.length_drop]
    exact Nat.sub_le _ _
  rw [typeNamesStep] at h
  cases hname : elementTypeName b with
  | some name =>
      rw [hname] at h
      rw [← hmap h]
  | none =>
      rw [hname] at h
      dsimp only at h
      split_ifs at h
      · cases hsearch : metadata.ongoingTypeName (retrieveToken rest).1 with
        | none =>
            rw [hsearch] at h
            cases h
        | some name =>
            rw [hsearch] at h
            rw [← hmap h]
            exact retrieveToken_length rest
      · cases h
        exact hdrop _ rest
      · rw [← hmap h]
        exact hdrop 1 rest
      · cases htype : metadata.getTypeInfo (retrieveToken (rest.drop 1)).1 with
        | none =>
            rw [htype] at h
            cases h
        | some typeData =>
        rw [htype] at h
        rw [← hmap h]
        calc
          _ ≤ (retrieveToken (rest.drop 1)).2.length := hdrop 1 _
          _ ≤ (rest.drop 1).length := retrieveToken_length _
          _ ≤ rest.length := hdrop 1 rest
      · rw [← hmap h]
      · cases h
        exact Nat.le_refl _
      · rw [← hmap h]

/-- The loop with as many rounds as there are bytes. -/
def readTypes (sig : Signature) (s : TypeNamesState) : Except ParseStop TypeNamesState :=
  typeNamesLoop metadata expected sig.length sig s

theorem typeNamesLoop_of_le {fuel : Nat} {sig : Signature} {s : TypeNamesState}
    (h : sig.length ≤ fuel) :
    typeNamesLoop metadata expected fuel sig s = readTypes metadata expected sig s := by
  suffices ∀ n fuel fuel' sig s, sig.length ≤ n → sig.length ≤ fuel → sig.length ≤ fuel' →
      typeNamesLoop metadata expected fuel sig s = typeNamesLoop metadata expected fuel' sig s by
    exact this _ _ _ sig s (Nat.le_refl _) h (Nat.le_refl _)
  intro n
  induction n with
  | zero =>
      intro fuel fuel' sig s hn _ _
      obtain rfl : sig = [] := List.length_eq_zero_iff.mp (Nat.le_zero.mp hn)
      simp [typeNamesLoop]
  | succ n ih =>
      intro fuel fuel' sig s hn h h'
      cases sig with
      | nil => simp [typeNamesLoop]
      | cons b rest =>
          obtain ⟨k, rfl⟩ := Nat.exists_eq_succ_of_ne_zero (Nat.ne_zero_of_lt h)
          obtain ⟨k', rfl⟩ := Nat.exists_eq_succ_of_ne_zero (Nat.ne_zero_of_lt h')
          simp only [List.length_cons, Nat.succ_le_succ_iff] at hn h h'
          simp only [typeNamesLoop]
          cases hstep : typeNamesStep metadata expected b rest s with
          | error stop => rfl
          | ok next =>
              have hlength := typeNamesStep_length metadata expected hstep
              exact ih k k' next.2 next.1 (by omega) (by omega) (by omega)

@[simp] theorem readTypes_nil (s : TypeNamesState) :
    readTypes metadata expected [] s = .ok s := rfl

theorem readTypes_cons (b : UInt8) (rest : Signature) (s : TypeNamesState) :
    readTypes metadata expected (b :: rest) s =
      (typeNamesStep metadata expected b rest s).bind fun next =>
        readTypes metadata expected next.2 next.1 := by
  rw [readTypes, List.length_cons, typeNamesLoop]
  cases hstep : typeNamesStep metadata expected b rest s with
  | error stop => rfl
  | ok next =>
      exact typeNamesLoop_of_le metadata expected
        (typeNamesStep_length metadata expected hstep)

end Rounds

section Settle

variable (expected : Nat)

/-- Behind a complete name, with the arguments that are still to come on the stack. -/
def settle (typeNames : List Text) (name : Text) (stack : List Int) :
    Except ParseStop TypeNamesState :=
  let (name, stack) := unwindGenerics (name ++ argumentComma stack) stack
  if stack ≠ [] then
    .ok { typeNames := typeNames, currentTypeName := name, genericArgStack := stack }
  else if expected ≤ typeNames.length then .error .refused
  else .ok { typeNames := typeNames ++ [name] }

/-- Behind `name`, written in the state `s`. -/
def TypeNamesState.behind (s : TypeNamesState) (name : Text) : Except ParseStop TypeNamesState :=
  settle expected s.typeNames (s.currentTypeName ++ name) (decrementTop s.genericArgStack)

theorem finishName_appendName (s : TypeNamesState) (name : Text) :
    (s.appendName name).finishName expected =
      s.behind expected (name ++ s.appendToType) := by
  rw [TypeNamesState.behind, ← List.append_assoc]
  rfl

/-- The last argument of a generic type ends its name. -/
theorem settle_zero (typeNames : List Text) (name : Text) (stack : List Int) :
    settle expected typeNames name (0 :: stack) =
      settle expected typeNames (name ++ text ">") stack := by
  simp [settle, unwindGenerics, argumentComma]

/-- Another argument comes behind a comma. -/
theorem settle_succ (typeNames : List Text) (name : Text) (n : Nat) (stack : List Int) :
    settle expected typeNames name (((n + 1 : Nat) : Int) :: stack) =
      .ok { typeNames := typeNames
            currentTypeName := name ++ text ", "
            genericArgStack := ((n + 1 : Nat) : Int) :: stack } := by
  have hpositive : (0 : Int) < ((n + 1 : Nat) : Int) := by omega
  have hne : ((n + 1 : Nat) : Int) ≠ 0 := by omega
  simp only [settle, unwindGenerics, argumentComma, hpositive, hne, if_true, if_false,
    ne_eq, List.cons_ne_nil, not_false_eq_true]

theorem settle_nil {typeNames : List Text} (name : Text) (h : typeNames.length < expected) :
    settle expected typeNames name [] = .ok { typeNames := typeNames ++ [name] } := by
  simp [settle, unwindGenerics, argumentComma, h]

end Settle

section Types

variable (metadata : MetadataImport) (expected : Nat)

theorem typeNamesStep_basic (b : {b // b ∈ basicTypes}) (rest : Signature) (s : TypeNamesState) :
    typeNamesStep metadata expected b rest s =
      (s.behind expected (basicName b ++ s.appendToType)).map fun s => (s, rest) := by
  have hbasic : ∀ b ∈ basicTypes, elementTypeName b = none →
      b = ELEMENT_TYPE_I ∨ b = ELEMENT_TYPE_U := forall_basicTypes (by decide)
  rw [← finishName_appendName]
  cases hname : elementTypeName b with
  | some name => simp only [typeNamesStep, basicName, hname, Option.getD_some]
  | none =>
      obtain ⟨b, hb⟩ := b
      rcases hbasic b hb hname with rfl | rfl
      · rfl
      · rfl

theorem typeNamesStep_named (name : TypeToken) (rest : Signature) (s : TypeNamesState) :
    readTypes metadata expected (name.encode ++ rest) s =
      (ParseStop.stuck.unless (metadata.ongoingTypeName name.mdToken)).bind fun typeName =>
        (s.behind expected (typeName ++ s.appendToType)).bind (readTypes metadata expected rest) := by
  have hread := retrieveToken_append
    (encodesNumber_compress (Nat.lt_trans name.token.isLt (by decide))) rest
  simp only [← finishName_appendName]
  rw [TypeToken.encode, List.cons_append, readTypes_cons]
  rcases name.code_cases with hcode | hcode
  all_goals
    rw [hcode]
    rw [typeNamesStep, show elementTypeName _ = none from rfl]
    simp only [hread, TypeToken.mdToken]
    rw [if_pos (by decide)]
    cases metadata.ongoingTypeName (decodeToken name.token) with
    | none => rfl
    | some typeName => exact bind_map _ _ _

theorem readTypes_basic (b : {b // b ∈ basicTypes}) (rest : Signature) (s : TypeNamesState) :
    readTypes metadata expected (b.1 :: rest) s =
      (s.behind expected (basicName b ++ s.appendToType)).bind
        (readTypes metadata expected rest) := by
  rw [readTypes_cons, typeNamesStep_basic, bind_map]

theorem readTypes_var {v : TypeVariable} (hv : v.index.val < 0x80) (rest : Signature)
    (s : TypeNamesState) :
    readTypes metadata expected (v.encode ++ rest) s =
      (s.behind expected (text "T" ++ s.appendToType)).bind
        (readTypes metadata expected rest) := by
  rw [← finishName_appendName, TypeVariable.encode, compress_of_lt hv, List.cons_append,
    readTypes_cons]
  rcases v.code_cases with hcode | hcode
  all_goals
    rw [hcode]
    rw [typeNamesStep, show elementTypeName _ = none from rfl]
    dsimp only
    rw [if_neg (by decide), if_neg (by decide), if_pos (by decide), bind_map]
    rfl

/-- The brackets of an array wait for the next name, one pair for each array. -/
theorem readTypes_szArray (rest : Signature) (s : TypeNamesState) :
    readTypes metadata expected (ELEMENT_TYPE_SZARRAY :: rest) s =
      readTypes metadata expected rest (s.appendSuffix (text "[]")) := by
  have hstep : ∀ rest s, typeNamesStep metadata expected ELEMENT_TYPE_SZARRAY rest s =
      .ok (s.appendSuffix ((List.replicate
        ((rest.takeWhile (· = ELEMENT_TYPE_SZARRAY)).length + 1) (text "[]")).flatten),
        rest.drop (rest.takeWhile (· = ELEMENT_TYPE_SZARRAY)).length) := fun _ _ => rfl
  rw [readTypes_cons, hstep, bind_ok]
  cases rest with
  | nil => rfl
  | cons b rest =>
      by_cases hb : b = ELEMENT_TYPE_SZARRAY
      · subst hb
        rw [readTypes_cons, hstep, bind_ok]
        simp [List.replicate_succ, TypeNamesState.appendSuffix]
      · simp [hb]

/-- Behind the name of a generic type, with the number of arguments that the name tells. -/
def TypeNamesState.openGeneric (s : TypeNamesState) (name : Text) (arity : Int) :
    TypeNamesState where
  typeNames := s.typeNames
  genericArgStack := arity :: decrementTop s.genericArgStack
  appendToType := s.appendToType
  currentTypeName := s.currentTypeName ++ (name ++ text "<")

theorem readTypes_genericInst {name : TypeToken} {typeData : TypeInfo} {arity : Int} {n : Nat}
    (hn : n < 0x80) (htype : metadata.getTypeInfo name.mdToken = some typeData)
    (harity : genericArity typeData.name = some arity) (rest : Signature) (s : TypeNamesState) :
    readTypes metadata expected
        (ELEMENT_TYPE_GENERICINST :: (name.encode ++ (compress n ++ rest))) s =
      readTypes metadata expected rest (s.openGeneric typeData.name arity) := by
  have hread := retrieveToken_append
    (encodesNumber_compress (Nat.lt_trans name.token.isLt (by decide))) (compress n ++ rest)
  rw [readTypes_cons, typeNamesStep, show elementTypeName _ = none from rfl]
  dsimp only
  rw [if_neg (by decide), if_neg (by decide), if_neg (by decide), if_pos rfl, TypeToken.encode,
    List.cons_append, List.drop_one, List.tail_cons, hread, compress_of_lt hn]
  rw [TypeToken.mdToken] at htype
  rw [htype, ParseStop.unless, bind_ok, harity]
  rfl

/-- A generic type without a name, or with one that tells no number. -/
theorem readTypes_genericInst_error {name : TypeToken} {stop : ParseStop}
    (h : (ParseStop.stuck.unless (metadata.getTypeInfo name.mdToken)).bind
      (fun typeData => ParseStop.refused.unless (genericArity typeData.name)) = .error stop)
    (rest : Signature) (s : TypeNamesState) :
    readTypes metadata expected (ELEMENT_TYPE_GENERICINST :: (name.encode ++ rest)) s =
      .error stop := by
  have hread := retrieveToken_append
    (encodesNumber_compress (Nat.lt_trans name.token.isLt (by decide))) rest
  rw [readTypes_cons, typeNamesStep, show elementTypeName _ = none from rfl]
  dsimp only
  rw [if_neg (by decide), if_neg (by decide), if_neg (by decide), if_pos rfl, TypeToken.encode,
    List.cons_append, List.drop_one, List.tail_cons, hread]
  rw [TypeToken.mdToken] at h
  cases htype : metadata.getTypeInfo (decodeToken name.token) with
  | none =>
      rw [htype] at h
      cases h
      rfl
  | some typeData =>
      rw [htype, ParseStop.unless, bind_ok] at h
      rw [ParseStop.unless, bind_ok, h]
      rfl

end Types

end SignalFxTracing.Metadata
