import SignalFxTracing.Trace.TraceContext
import Mathlib.Logic.Function.Basic

/-!
# Carriers and the shared parts of the propagators

A carrier is known to the propagators through two delegates. The getter
returns a sequence object: the propagators compare it by reference with
`Enumerable.Empty<string>()` before they enumerate it, so an empty sequence of
another origin is a different case.

## Implementation notes

Values that are null are left out: no header of a request has one.
-/

namespace SignalFxTracing.Propagation

open Clr Lib Trace

/-- A sequence of header values. Only the shared empty instance of the runtime
is equal to `Enumerable.Empty<string>()`, and it has no elements. -/
structure HeaderValues where
  isSharedEmpty : Bool
  values : List Text
  shared_empty : isSharedEmpty = true → values = []

namespace HeaderValues

def sharedEmpty : HeaderValues := ⟨true, [], fun _ => rfl⟩

/-- An array, list or lazily enumerated sequence with these elements. -/
def ofList (values : List Text) : HeaderValues := ⟨false, values, by simp⟩

theorem isSharedEmpty_eq_false {headerValues : HeaderValues}
    (h : headerValues.values ≠ []) : headerValues.isSharedEmpty = false := by
  cases hs : headerValues.isSharedEmpty with
  | false => rfl
  | true => exact absurd (headerValues.shared_empty hs) h

end HeaderValues

/-- The delegates through which a propagator writes and reads a carrier. -/
structure CarrierAccess (T : Type*) where
  setter : T → Text → Text → T
  getter : T → Text → HeaderValues

/-- What a propagator with these headers assumes of the delegates: the setter replaces the values
of one of the names and the getter returns the stored values. -/
structure CarrierAccess.Lawful {T : Type*} (access : CarrierAccess T) (names : List Text) :
    Prop where
  getter_setter : ∀ carrier, ∀ name ∈ names, ∀ value,
    (access.getter (access.setter carrier name value) name).values = [value]
  getter_setter_ne : ∀ carrier, ∀ name ∈ names, ∀ value, ∀ other ∈ names, other ≠ name →
    access.getter (access.setter carrier name value) other = access.getter carrier other

/-- Headers set one after another. -/
def CarrierAccess.setAll {T : Type*} (access : CarrierAccess T) (carrier : T)
    (headers : List (Text × Text)) : T :=
  headers.foldl (fun carrier header => access.setter carrier header.1 header.2) carrier

namespace CarrierAccess.Lawful

variable {T : Type*} {access : CarrierAccess T} {names : List Text} (law : access.Lawful names)
variable {headers : List (Text × Text)} (hheaders : headers.map Prod.fst ⊆ names)

include law hheaders

/-- Headers that are not set keep their values. -/
theorem getter_setAll_of_notMem {name : Text} (hname : name ∈ names)
    (h : name ∉ headers.map Prod.fst) (carrier : T) :
    access.getter (access.setAll carrier headers) name = access.getter carrier name := by
  induction headers generalizing carrier with
  | nil => rfl
  | cons header rest ih =>
      obtain ⟨hheader, hrest⟩ := List.cons_subset.mp hheaders
      simp only [List.map_cons, List.mem_cons, not_or] at h
      exact (ih hrest h.2 _).trans
        (law.getter_setter_ne carrier header.1 hheader header.2 name hname h.1)

/-- A header that is set once has exactly the value it was set to. -/
theorem getter_setAll_of_mem {name value : Text}
    (hd : (headers.map Prod.fst).Nodup) (h : (name, value) ∈ headers) (carrier : T) :
    (access.getter (access.setAll carrier headers) name).values = [value] := by
  induction headers generalizing carrier with
  | nil => cases h
  | cons header rest ih =>
      obtain ⟨hheader, hrest⟩ := List.cons_subset.mp hheaders
      obtain ⟨hfirst, hnodup⟩ := List.nodup_cons.mp hd
      rcases List.mem_cons.mp h with rfl | htail
      · change (access.getter (access.setAll _ rest) name).values = [value]
        rw [law.getter_setAll_of_notMem hrest hheader hfirst]
        exact law.getter_setter carrier name hheader value
      · exact ih hrest hnodup htail _

end CarrierAccess.Lawful

/-- The headers as a function from their names. -/
abbrev HeaderMap := Text → List Text

def HeaderMap.access : CarrierAccess HeaderMap where
  setter := fun carrier name value => Function.update carrier name [value]
  getter := fun carrier name => HeaderValues.ofList (carrier name)

theorem HeaderMap.access_lawful {names : List Text} : HeaderMap.access.Lawful names where
  getter_setter := by
    intro carrier name _ value
    simp [HeaderMap.access, HeaderValues.ofList]
  getter_setter_ne := by
    intro carrier name _ value other _ h
    simp [HeaderMap.access, Function.update_of_ne h]

/-- Exceptions that leave an `Extract` method. -/
inductive ExtractError
  | argument
  | argumentOutOfRange
  | invalidOperation
  deriving DecidableEq

/-- `TraceId.TryParse` as a call that can only raise `ArgumentException`. -/
def tryParseTraceId (skipsPlus : Bool) (id : Text) : Except ExtractError (Option TraceId) :=
  match TraceId.tryParse skipsPlus id with
  | .ok result => .ok result
  | .error _ => .error .argument

/-- The first value that is a trace id. -/
def firstTraceId (skipsPlus : Bool) : List Text → Except ExtractError TraceId
  | [] => .ok TraceId.zero
  | value :: rest => do
      match ← tryParseTraceId skipsPlus value with
      | some traceId => return traceId
      | none => firstTraceId skipsPlus rest

/-- `PropagationHelpers.ParseTraceId`. -/
def parseTraceId (skipsPlus : Bool) (headerValues : HeaderValues) :
    Except ExtractError TraceId :=
  if headerValues.isSharedEmpty then .ok TraceId.zero
  else firstTraceId skipsPlus headerValues.values

/-- The priority of a context: that of its trace, else its own. -/
def samplingDecision (traces : List TraceContext) (context : SpanContext) :
    Option SamplingPriority :=
  ((context.traceContext.bind (traces[·]?)).bind TraceContext.samplingPriority).or
    context.samplingPriority

/-- `context.TraceContext?.LockSamplingPriority()`. -/
def lockTraceOf (context : SpanContext) (traces : List TraceContext) : List TraceContext :=
  match context.traceContext with
  | none => traces
  | some t => traces.modify t TraceContext.lockSamplingPriority

/-- Locking a trace changes no decision. -/
@[simp] theorem samplingDecision_lockTraceOf (traces : List TraceContext)
    (context other : SpanContext) :
    samplingDecision (lockTraceOf other traces) context = samplingDecision traces context := by
  unfold lockTraceOf samplingDecision
  cases other.traceContext with
  | none => rfl
  | some t =>
      cases context.traceContext with
      | none => rfl
      | some u =>
          simp only [Option.bind_some, List.getElem?_modify]
          cases traces[u]? with
          | none => rfl
          | some trace => by_cases h : t = u <;> simp [h]

end SignalFxTracing.Propagation
