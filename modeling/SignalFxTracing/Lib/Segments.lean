import Mathlib.Data.List.TakeWhile
import Mathlib.Data.List.Infix

/-!
# Cutting a list at separators by position

A loop that keeps a position, looks for the next separator behind it and moves
past that separator hands the segments between the separators to its body. It
ends after at most as many turns as the list has elements. Writing segments
down with separators between them is the converse.
-/

namespace SignalFxTracing.Lib.Segments

variable {α β ε : Type*} (separator : α)

section Loop

variable [DecidableEq α]

/-- The segment that starts at a position, and the position the loop moves to. -/
def segmentAt (s : List α) (start : Nat) : List α × Nat :=
  match (s.drop start).idxOf? separator with
  | some length => ((s.drop start).take length, start + length + 1)
  | none => (s.drop start, s.length)

/-- Why a loop has no final state: it is still running, or its body returned. -/
inductive Stop (ε : Type*)
  | unfinished
  | returned (result : ε)

/-- The loop with a bound on its turns; the state is handed from body to body. -/
def loop (body : β → List α → Except ε β) (s : List α) : Nat → Nat → β → Except (Stop ε) β
  | 0, start, state => if start < s.length then .error .unfinished else .ok state
  | turns + 1, start, state =>
      if start < s.length then
        match body state (segmentAt separator s start).1 with
        | .error result => .error (.returned result)
        | .ok next => loop body s turns (segmentAt separator s start).2 next
      else .ok state

/-- Where the first separator stands, the list is cut. -/
theorem eq_append_of_idxOf?_eq_some {s : List α} {length : Nat}
    (h : s.idxOf? separator = some length) :
    separator ∉ s.take length ∧ s = s.take length ++ separator :: s.drop (length + 1) := by
  obtain ⟨hlt, hat, hbefore⟩ := List.findIdx?_eq_some_iff_getElem.mp h
  rw [beq_iff_eq] at hat
  constructor
  · intro hmem
    obtain ⟨i, hi, hsep⟩ := List.mem_take_iff_getElem.mp hmem
    have := hbefore i (by omega)
    simp [hsep] at this
  · rw [← hat, List.getElem_cons_drop, List.take_append_drop]

variable {separator}

/-- A loop whose body passes over empty segments folds the body over the segments. -/
theorem loop_eq_foldlM {body : β → List α → Except ε β} (hempty : ∀ state, body state [] = .ok state)
    (s : List α) {turns start : Nat} (hturns : s.length ≤ start + turns) (state : β) :
    loop separator body s turns start state =
      (((s.drop start).splitOn separator).foldlM body state).mapError Stop.returned := by
  induction turns generalizing start state with
  | zero =>
      have hend : s.length ≤ start := by omega
      rw [loop, if_neg (by omega), List.drop_eq_nil_of_le hend, List.splitOn_nil,
        List.foldlM_cons, hempty]
      rfl
  | succ turns ih =>
      rw [loop]
      split_ifs with hlt
      · cases hidx : (s.drop start).idxOf? separator with
        | none =>
            have hnot : separator ∉ s.drop start := List.idxOf?_eq_none_iff.mp hidx
            simp only [segmentAt, hidx]
            rw [List.splitOn_eq_singleton hnot, List.foldlM_cons]
            cases body state (s.drop start) with
            | error result => rfl
            | ok next =>
                dsimp only
                rw [ih (by omega), List.drop_length, List.splitOn_nil, List.foldlM_cons, hempty]
        | some length =>
            obtain ⟨hnot, hcut⟩ := eq_append_of_idxOf?_eq_some separator hidx
            simp only [segmentAt, hidx]
            rw [hcut, List.splitOn_append_cons_self_of_not_mem hnot, List.foldlM_cons, ← hcut]
            cases body state ((s.drop start).take length) with
            | error result => rfl
            | ok next =>
                dsimp only
                rw [ih (by omega), List.drop_drop, Nat.add_assoc]
                rfl
      · have hend : s.length ≤ start := by omega
        rw [List.drop_eq_nil_of_le hend, List.splitOn_nil, List.foldlM_cons, hempty]
        rfl

/-- No segment contains the separator. -/
theorem separator_notMem_of_mem_splitOn {s segment : List α}
    (h : segment ∈ s.splitOn separator) : separator ∉ segment := by
  induction s generalizing segment with
  | nil =>
      obtain rfl := List.mem_singleton.mp h
      exact List.not_mem_nil
  | cons a rest ih =>
      rw [List.splitOn_cons_eq_if_modifyHead] at h
      split_ifs at h with ha
      · rcases List.mem_cons.mp h with rfl | h
        · exact List.not_mem_nil
        · exact ih h
      · obtain ⟨first, others, hsplit⟩ :=
          List.exists_cons_of_ne_nil (List.splitOn_ne_nil separator rest)
        rw [hsplit, List.modifyHead_cons] at h
        rcases List.mem_cons.mp h with rfl | h
        · have hfirst := ih (hsplit ▸ List.mem_cons_self ..)
          simp only [List.mem_cons, not_or]
          exact ⟨fun heq => ha (beq_iff_eq.mpr heq.symm), hfirst⟩
        · exact ih (hsplit ▸ List.mem_cons_of_mem _ h)

/-- A list without a separator, or a first segment and what is behind its separator. -/
@[elab_as_elim]
theorem cut_induction {motive : List α → Prop} (s : List α)
    (single : ∀ s, separator ∉ s → motive s)
    (cut : ∀ first rest, separator ∉ first → motive rest → motive (first ++ separator :: rest)) :
    motive s := by
  by_cases h : separator ∈ s
  · obtain ⟨first, rest, rfl, hfirst⟩ := List.eq_append_cons_of_mem h
    exact cut first rest hfirst (cut_induction rest single cut)
  · exact single s h
termination_by s.length

/-- A segment stands between separators or the ends. -/
theorem mem_splitOn_iff {s segment : List α} :
    segment ∈ s.splitOn separator ↔ separator ∉ segment ∧
      ∃ before behind, s = before ++ segment ++ behind ∧
        (before = [] ∨ ∃ others, before = others ++ [separator]) ∧
        (behind = [] ∨ ∃ others, behind = separator :: others) := by
  constructor
  · intro h
    refine ⟨separator_notMem_of_mem_splitOn h, ?_⟩
    induction s using cut_induction with
    | single s hs =>
        rw [List.splitOn_eq_singleton hs, List.mem_singleton] at h
        exact ⟨[], [], by simp [h], Or.inl rfl, Or.inl rfl⟩
    | cut first rest hfirst ih =>
        rw [List.splitOn_append_cons_self_of_not_mem hfirst, List.mem_cons] at h
        rcases h with rfl | h
        · exact ⟨[], separator :: rest, by simp, Or.inl rfl, Or.inr ⟨rest, rfl⟩⟩
        · obtain ⟨before, behind, rfl, hbefore, hbehind⟩ := ih h
          refine ⟨first ++ separator :: before, behind, by simp, Or.inr ?_, hbehind⟩
          rcases hbefore with rfl | ⟨others, rfl⟩
          · exact ⟨first, rfl⟩
          · exact ⟨first ++ separator :: others, by simp⟩
  · rintro ⟨hsegment, before, behind, rfl, hbefore, hbehind⟩
    have hmem : segment ∈ (segment ++ behind).splitOn separator := by
      rcases hbehind with rfl | ⟨others, rfl⟩
      · rw [List.append_nil, List.splitOn_eq_singleton hsegment]
        exact List.mem_singleton_self segment
      · rw [List.splitOn_append_cons_self_of_not_mem hsegment]
        exact List.mem_cons_self
    rcases hbefore with rfl | ⟨others, rfl⟩
    · exact hmem
    · rw [List.append_assoc, List.append_assoc, List.singleton_append,
        List.splitOn_append_cons_self]
      exact List.mem_append_right _ hmem

variable (separator) in
/-- Each segment is replaced, the separators stay. -/
def mapSegments (f : List α → List α) (s : List α) : List α :=
  [separator].intercalate ((s.splitOn separator).map f)

variable {f : List α → List α}

theorem mapSegments_of_notMem {s : List α} (h : separator ∉ s) :
    mapSegments separator f s = f s := by
  rw [mapSegments, List.splitOn_eq_singleton h]
  simp

theorem mapSegments_append_cons {first : List α} (h : separator ∉ first) (rest : List α) :
    mapSegments separator f (first ++ separator :: rest) =
      f first ++ separator :: mapSegments separator f rest := by
  rw [mapSegments, List.splitOn_append_cons_self_of_not_mem h, List.map_cons,
    List.intercalate_cons_of_ne_nil, mapSegments]
  · simp
  · simp [List.splitOn_ne_nil]

theorem splitOn_mapSegments (h : ∀ segment, separator ∉ segment → separator ∉ f segment)
    (s : List α) : (mapSegments separator f s).splitOn separator = (s.splitOn separator).map f := by
  apply List.splitOn_intercalate
  · intro segment hsegment
    obtain ⟨original, horiginal, rfl⟩ := List.mem_map.mp hsegment
    exact h original (separator_notMem_of_mem_splitOn horiginal)
  · simp [List.splitOn_ne_nil]

theorem count_mapSegments (h : ∀ segment, separator ∉ segment → separator ∉ f segment)
    (s : List α) : (mapSegments separator f s).count separator = s.count separator := by
  induction s using cut_induction with
  | single s hs =>
      rw [mapSegments_of_notMem hs, List.count_eq_zero_of_not_mem hs,
        List.count_eq_zero_of_not_mem (h s hs)]
  | cut first rest hfirst ih =>
      rw [mapSegments_append_cons hfirst, List.count_append, List.count_append,
        List.count_cons_self, List.count_cons_self, ih, List.count_eq_zero_of_not_mem hfirst,
        List.count_eq_zero_of_not_mem (h first hfirst)]

theorem length_mapSegments_le (h : ∀ segment, (f segment).length ≤ segment.length) (s : List α) :
    (mapSegments separator f s).length ≤ s.length := by
  induction s using cut_induction with
  | single s hs =>
      rw [mapSegments_of_notMem hs]
      exact h s
  | cut first rest hfirst ih =>
      have hle := h first
      rw [mapSegments_append_cons hfirst, List.length_append, List.length_append,
        List.length_cons, List.length_cons]
      omega

/-- Replacing twice is replacing once. -/
theorem mapSegments_mapSegments (h : ∀ segment, separator ∉ segment → separator ∉ f segment)
    (hf : ∀ segment, f (f segment) = f segment) (s : List α) :
    mapSegments separator f (mapSegments separator f s) = mapSegments separator f s := by
  rw [mapSegments, splitOn_mapSegments h, List.map_map, mapSegments]
  congr 1
  exact List.map_congr_left fun segment _ => hf segment

end Loop

/-- A segment is written, behind a separator when something stands there already. -/
def append (written segment : List α) : List α :=
  if written = [] then segment else written ++ separator :: segment

theorem append_ne_nil {written segment : List α} (h : segment ≠ []) :
    append separator written segment ≠ [] := by
  rw [append]
  split_ifs
  · exact h
  · simp

theorem foldl_append_of_ne_nil {written : List α} (hwritten : written ≠ [])
    {segments : List (List α)} (h : ∀ segment ∈ segments, segment ≠ []) :
    segments.foldl (append separator) written =
      [separator].intercalate (written :: segments) := by
  induction segments generalizing written with
  | nil => simp
  | cons segment rest ih =>
      obtain ⟨hsegment, hrest⟩ := List.forall_mem_cons.mp h
      rw [List.foldl_cons, ih (append_ne_nil separator hsegment) hrest, append, if_neg hwritten]
      cases rest with
      | nil => simp
      | cons next rest => simp

/-- Segments written one after another are joined by the separator. -/
theorem foldl_append {segments : List (List α)} (h : ∀ segment ∈ segments, segment ≠ []) :
    segments.foldl (append separator) [] = [separator].intercalate segments := by
  cases segments with
  | nil => rfl
  | cons segment rest =>
      obtain ⟨hsegment, hrest⟩ := List.forall_mem_cons.mp h
      rw [List.foldl_cons, append, if_pos rfl]
      exact foldl_append_of_ne_nil separator hsegment hrest

end SignalFxTracing.Lib.Segments
