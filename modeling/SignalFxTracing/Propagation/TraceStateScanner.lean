import SignalFxTracing.Propagation.W3C
import SignalFxTracing.Lib.Segments

/-!
# The scanner of trace states (`W3CSpanContextPropagator.cs`)

`ExtractTraceState` and its two checks with the positions they keep: the
`while` loop over one header value, and the `for` loops over the characters of
a key and of a value. They compute what `extractTraceState`, `validateKey` and
`validateValue` compute, and no loop runs on.
-/

namespace SignalFxTracing.Propagation.W3C.Scanner

open Clr Lib Lib.Segments

/-- The values of `i` in `for (var i = start; i < stop; ++i)`. -/
def indices (start stop : Nat) : List Nat := List.range' start (stop - start)

/-- `s[i]`, read at positions below the length only. -/
def charAt (s : Text) (i : Nat) : UInt16 := s.getD i 0

/-- How the first loop of `ValidateKey` ends early: at the `@`, or with false. -/
inductive KeyLoop
  | tenant (length : Nat)
  | invalid
  deriving DecidableEq

def keyLoopTurn (key : Text) (i : Nat) : Option KeyLoop :=
  if charAt key i = 0x40 then some (.tenant i)
  else if !isKeyChar (charAt key i) then some .invalid
  else none

/-- `ValidateKey`. -/
def validateKey (key : Text) : Bool :=
  if key.length = 0 ∨ key.length > traceStateKeyMaxLength then false
  else if !isLowerAlphaDigit (charAt key 0) then false
  else
    match (indices 1 key.length).findSome? (keyLoopTurn key) with
    | some .invalid => false
    | none => true
    | some (.tenant tenantLength) =>
        if tenantLength = 0 ∨ tenantLength > traceStateKeyTenantMaxLength then false
        else
          let vendorLength := key.length - tenantLength - 1
          if vendorLength = 0 ∨ vendorLength > traceStateKeyVendorMaxLength then false
          else (indices (tenantLength + 1) key.length).all fun i => isKeyChar (charAt key i)

/-- `ValidateValue`. -/
def validateValue (value : Text) : Bool :=
  if value.length = 0 ∨ value.length > traceStateValueMaxLength then false
  else if !(indices 0 (value.length - 1)).all fun i => isValueChar (charAt value i) then false
  else
    let last := charAt value (value.length - 1)
    0x21 ≤ last && last ≤ 0x7E && last != 0x2C && last != 0x3D

/-- The body of the `while` loop behind its cut; the error is `return null`. -/
def addListMember (acc : TraceStateResult) (segment : Text) : Except Unit TraceStateResult :=
  let listMember := trim segment
  if isNullOrEmpty listMember then .ok acc
  else if acc.keySet.length ≥ 32 then .error ()
  else
    match listMember.idxOf? 0x3D with
    | none => .error ()
    | some keyLength =>
        if keyLength = listMember.length then .error ()
        else
          let key := listMember.take keyLength
          if !validateKey key then .error ()
          else
            let value := listMember.drop (keyLength + 1)
            if !validateValue value then .error ()
            else if key ∈ acc.keySet then .error ()
            else .ok ⟨key :: acc.keySet, append 0x2C acc.result listMember⟩

/-- `ExtractTraceState` with at most `turns` turns of the `while` loop for each
header value. Without a result, some loop is still running then. -/
def extractTraceState (turns : Nat) (traceStateCollection : Option (List Text)) :
    Option (Option Text) :=
  match traceStateCollection with
  | none => some none
  | some values =>
      match values.foldlM (fun acc traceState => loop 0x2C addListMember traceState turns 0 acc) {}
        with
      | .ok acc => some (some acc.result)
      | .error (.returned ()) => some none
      | .error .unfinished => none

section Characters

theorem indices_map_charAt (s : Text) {start stop : Nat} (h : stop ≤ s.length) :
    (indices start stop).map (charAt s) = (s.take stop).drop start := by
  apply List.ext_getElem
  · simp only [indices, List.length_map, List.length_range', List.length_drop, List.length_take]
    omega
  · intro i hi _
    simp only [indices, List.length_map, List.length_range'] at hi
    have hlt : start + i < s.length := by omega
    simp [indices, charAt, List.getElem?_eq_getElem hlt]

/-- A loop over positions that asks for one character at a time. -/
theorem all_indices (s : Text) (start : Nat) {stop : Nat} (h : stop ≤ s.length)
    (p : UInt16 → Bool) :
    (indices start stop).all (fun i => p (charAt s i)) = ((s.take stop).drop start).all p := by
  rw [← indices_map_charAt s h, List.all_map]
  rfl

/-- The first loop of `ValidateKey` behind a part `before` that it has read. -/
theorem findSome?_keyLoopTurn (before rest : Text) :
    (indices before.length (before ++ rest).length).findSome? (keyLoopTurn (before ++ rest)) =
      if !(rest.takeWhile (· != 0x40)).all isKeyChar then some .invalid
      else if (rest.takeWhile (· != 0x40)).length = rest.length then none
      else some (.tenant (before.length + (rest.takeWhile (· != 0x40)).length)) := by
  induction rest generalizing before with
  | nil => simp [indices]
  | cons c rest ih =>
      have hat : charAt (before ++ c :: rest) before.length = c := by
        simp [charAt]
      have hindices : indices before.length (before ++ c :: rest).length =
          before.length :: indices (before ++ [c]).length (before ++ [c] ++ rest).length := by
        simp [indices, List.range'_succ, Nat.add_sub_add_left]
      have hrest := ih (before ++ [c])
      rw [hindices, List.findSome?_cons, keyLoopTurn, hat]
      by_cases hc : c = 0x40
      · simp [hc]
      · rw [if_neg hc]
        by_cases hkey : isKeyChar c = true
        · simp only [hkey, Bool.not_true, Bool.false_eq_true, if_false]
          rw [List.append_assoc, List.singleton_append] at hrest
          rw [List.append_assoc, List.singleton_append, hrest]
          simp [hc, hkey, Nat.add_assoc, Nat.add_comm 1]
        · simp [hc, hkey]

end Characters

section Checks

/-- The positions of `ValidateKey` read the tenant and the vendor. -/
theorem validateKey_eq (key : Text) : validateKey key = W3C.validateKey key := by
  cases key with
  | nil => rfl
  | cons first rest =>
      have hloop := findSome?_keyLoopTurn [first] rest
      rw [List.singleton_append, List.length_singleton] at hloop
      have hfirst : charAt (first :: rest) 0 = first := rfl
      have hempty : (first :: rest).length ≠ 0 := Nat.succ_ne_zero _
      have hle : (rest.takeWhile (· != 0x40)).length ≤ rest.length :=
        (List.takeWhile_prefix _).length_le
      simp only [validateKey, W3C.validateKey, hloop, hfirst, hempty, false_or]
      generalize rest.takeWhile (· != 0x40) = beforeAt at hle ⊢
      by_cases hmax : (first :: rest).length > traceStateKeyMaxLength
      · rw [if_pos hmax, if_pos hmax]
      rw [if_neg hmax, if_neg hmax]
      by_cases hstart : (!isLowerAlphaDigit first) = true
      · rw [if_pos hstart, if_pos hstart]
      rw [if_neg hstart, if_neg hstart]
      by_cases hchars : (!beforeAt.all isKeyChar) = true
      · rw [if_pos hchars, if_pos hchars]
      rw [if_neg hchars, if_neg hchars]
      by_cases hat : beforeAt.length = rest.length
      · rw [if_pos hat, if_pos hat]
      have hcomm : 1 + beforeAt.length = beforeAt.length + 1 := Nat.add_comm _ _
      have hpos : beforeAt.length + 1 ≠ 0 := Nat.succ_ne_zero _
      have hvendor : ((first :: rest).drop (beforeAt.length + 1 + 1)).length =
          (first :: rest).length - (beforeAt.length + 1) - 1 := by
        rw [List.length_drop, Nat.sub_sub]
      have hread := all_indices (first :: rest) (beforeAt.length + 1 + 1) (Nat.le_refl _) isKeyChar
      rw [List.take_length] at hread
      rw [if_neg hat, if_neg hat]
      simp only [hcomm, hpos, false_or, hvendor, hread]

theorem isValueChar_and_ne_space (c : UInt16) :
    (0x21 ≤ c && c ≤ 0x7E && c != 0x2C && c != 0x3D) = (isValueChar c && c != 0x20) := by
  have hblank : 0x21 ≤ c ↔ 0x20 ≤ c ∧ c ≠ 0x20 := by
    simp only [UInt16.le_iff_toNat_le, ne_eq, ← UInt16.toNat_inj]
    change 33 ≤ c.toNat ↔ 32 ≤ c.toNat ∧ ¬ c.toNat = 32
    omega
  rw [Bool.eq_iff_iff]
  simp only [isValueChar, Bool.and_eq_true, decide_eq_true_eq, bne_iff_ne, hblank]
  tauto

/-- The check of the last character is that of a value character that is not blank. -/
theorem validateValue_eq (value : Text) : validateValue value = W3C.validateValue value := by
  rcases List.eq_nil_or_concat value with rfl | ⟨init, last, rfl⟩
  · rfl
  · rw [List.concat_eq_append]
    have hlast : charAt (init ++ [last]) ((init ++ [last]).length - 1) = last := by simp [charAt]
    have hinit := all_indices (init ++ [last]) 0 (Nat.sub_le _ 1) isValueChar
    rw [List.drop_zero, ← List.dropLast_eq_take, List.dropLast_concat] at hinit
    simp only [validateValue, W3C.validateValue, hlast, hinit, isValueChar_and_ne_space,
      List.dropLast_concat, List.getLast?_concat]
    cases init.all isValueChar with
    | false => simp
    | true => simp

end Checks

section Loop

theorem takeWhile_of_idxOf? {s : Text} {c : UInt16} {length : Nat}
    (h : s.idxOf? c = some length) : s.takeWhile (· != c) = s.take length := by
  obtain ⟨hnot, hcut⟩ := eq_append_of_idxOf?_eq_some c h
  have hbefore : ∀ d ∈ s.take length, (d != c) = true := by
    intro d hd
    apply bne_iff_ne.mpr
    rintro rfl
    exact hnot hd
  calc s.takeWhile (· != c)
      = (s.take length ++ c :: s.drop (length + 1)).takeWhile (· != c) := by rw [← hcut]
    _ = s.take length ++ (c :: s.drop (length + 1)).takeWhile (· != c) :=
        List.takeWhile_append_of_pos hbefore
    _ = s.take length := by simp

/-- A member as `addListMember` of the model takes it; nothing is done with a blank one. -/
theorem addListMember_eq (acc : TraceStateResult) (segment : Text) :
    addListMember acc segment =
      if trim segment = [] then .ok acc
      else (W3C.addListMember acc (trim segment)).elim (.error ()) .ok := by
  rw [addListMember, W3C.addListMember]
  generalize trim segment = listMember
  have hblank : isNullOrEmpty (some listMember) = true ↔ listMember = [] := by
    simp [isNullOrEmpty]
  by_cases hempty : listMember = []
  · simp [hempty, isNullOrEmpty]
  · dsimp only
    rw [if_neg (hblank.not.mpr hempty), if_neg hempty]
    by_cases hcount : acc.keySet.length ≥ 32
    · rw [if_pos hcount, if_pos hcount]
      rfl
    rw [if_neg hcount, if_neg hcount]
    cases hidx : listMember.idxOf? 0x3D with
    | none =>
        rw [if_pos (List.idxOf?_eq_none_iff.mp hidx)]
        rfl
    | some keyLength =>
        obtain ⟨hnot, hcut⟩ := eq_append_of_idxOf?_eq_some 0x3D hidx
        have hmem : (0x3D : UInt16) ∈ listMember := by
          rw [hcut]
          exact List.mem_append_right _ (List.mem_cons_self ..)
        have hlt : keyLength < listMember.length :=
          (List.findIdx?_eq_some_iff_getElem.mp hidx).1
        have htake : (listMember.take keyLength).length = keyLength :=
          List.length_take_of_le hlt.le
        have hkey : listMember.takeWhile (· != 0x3D) = listMember.take keyLength :=
          takeWhile_of_idxOf? hidx
        dsimp only
        rw [if_neg hlt.ne, if_neg (not_not.mpr hmem), hkey, htake, validateKey_eq, validateValue_eq]
        split_ifs with _ _ _ hresult
        · rfl
        · rfl
        · rfl
        · rw [append, if_pos hresult]
          rfl
        · rw [append, if_neg hresult, List.append_assoc]
          rfl

/-- Some member makes the method return null, or the members are all added. -/
theorem foldlM_addListMember (segments : List Text) (acc : TraceStateResult) :
    segments.foldlM addListMember acc =
      (((segments.map trim).filter (· ≠ [])).foldlM W3C.addListMember acc).elim (.error ()) .ok := by
  induction segments generalizing acc with
  | nil => rfl
  | cons segment rest ih =>
      rw [List.foldlM_cons, addListMember_eq, List.map_cons]
      by_cases hblank : trim segment = []
      · rw [if_pos hblank, List.filter_cons_of_neg (by simpa using hblank)]
        exact ih acc
      · rw [if_neg hblank, List.filter_cons_of_pos (by simpa using hblank), List.foldlM_cons]
        cases W3C.addListMember acc (trim segment) with
        | none => rfl
        | some next => exact ih next

theorem splitOn_eq (separator : UInt16) (s : Text) :
    Clr.splitOn separator s = s.splitOn separator := by
  induction s with
  | nil => rfl
  | cons c rest ih =>
      rw [Clr.splitOn, List.splitOn_cons_eq_if_modifyHead, ih]
      by_cases hc : c = separator
      · rw [if_pos hc, if_pos (beq_iff_eq.mpr hc)]
      · rw [if_neg hc, if_neg (mt beq_iff_eq.mp hc)]
        cases hsegments : rest.splitOn separator with
        | nil => exact absurd hsegments (List.splitOn_ne_nil _ _)
        | cons segment segments => rfl

/-- The `while` loop over one header value, with as many turns as it has characters. -/
theorem loop_addListMember {turns : Nat} {traceState : Text} (h : traceState.length ≤ turns)
    (acc : TraceStateResult) :
    loop 0x2C addListMember traceState turns 0 acc =
      ((listMembers traceState).foldlM W3C.addListMember acc).elim
        (.error (.returned ())) .ok := by
  have hempty : ∀ state, addListMember state [] = .ok state := fun state => rfl
  rw [loop_eq_foldlM hempty traceState (by omega), List.drop_zero, foldlM_addListMember,
    listMembers, splitOn_eq]
  cases ((traceState.splitOn 0x2C |>.map trim).filter (· ≠ [])).foldlM W3C.addListMember acc with
  | none => rfl
  | some after => rfl

/-- With as many turns as the longest header value has characters no loop runs
on, and the result is that of `extractTraceState`. -/
theorem extractTraceState_eq {turns : Nat} {values : List Text}
    (h : ∀ traceState ∈ values, traceState.length ≤ turns) :
    extractTraceState turns (some values) = some (W3C.extractTraceState values) := by
  have hfold : ∀ acc, values.foldlM
      (fun acc traceState => loop 0x2C addListMember traceState turns 0 acc) acc =
        ((values.flatMap listMembers).foldlM W3C.addListMember acc).elim
          (.error (.returned ())) .ok := by
    induction values with
    | nil => exact fun acc => rfl
    | cons traceState rest ih =>
        obtain ⟨hfirst, hrest⟩ := List.forall_mem_cons.mp h
        intro acc
        rw [List.foldlM_cons, loop_addListMember hfirst, List.flatMap_cons, List.foldlM_append]
        cases (listMembers traceState).foldlM W3C.addListMember acc with
        | none => rfl
        | some next => exact ih hrest next
  rw [extractTraceState, W3C.extractTraceState, hfold]
  cases (values.flatMap listMembers).foldlM W3C.addListMember {} with
  | none => rfl
  | some acc => rfl

end Loop

end SignalFxTracing.Propagation.W3C.Scanner
