import SignalFxTracing.Lib.RegexFree
import Mathlib.Data.List.TakeWhile

/-!
# Replacing a group

A pattern with one group is three patterns in sequence. A match has the lengths
of its three parts, and only the second part is replaced.
-/

namespace SignalFxTracing.Lib

/-- A pattern with a group between two other patterns. -/
structure GroupPattern (α : Type*) where
  start : Regex α
  group : Regex α
  finish : Regex α

namespace Regex

variable {α : Type*}

/-- The pattern of a word. -/
def word (a : α) [BEq α] : List α → Regex α
  | [] => one (· == a)
  | b :: rest => seq (one (· == a)) (word b rest)

end Regex

namespace GroupPattern

open Regex

variable {α : Type*}

/-- The lengths of the parts of the matches, in the order in which they are found. -/
def parts (pattern : GroupPattern α) (previous : Option α) (rest : List α) :
    List (Nat × Nat × Nat) :=
  (pattern.start.lengths previous rest).flatMap fun n =>
    (pattern.group.lengths (behind previous (rest.take n)) (rest.drop n)).flatMap fun m =>
      (pattern.finish.lengths (behind previous (rest.take (n + m))) (rest.drop (n + m))).map
        fun k => (n, m, k)

section Replace

variable (pattern : GroupPattern α) (replacement : List α)

/-- Replacing the groups in at most `bound` steps. -/
def replaceFrom : Nat → Option α → List α → List α
  | 0, _, rest => rest
  | _ + 1, _, [] => []
  | bound + 1, previous, a :: rest =>
      match (pattern.parts previous (a :: rest)).head? with
      | some (n + 1, m, k) =>
          (a :: rest).take (n + 1) ++ replacement ++ (rest.drop (n + m)).take k ++
            replaceFrom bound (behind previous ((a :: rest).take (n + 1 + m + k)))
              (rest.drop (n + m + k))
      | _ => a :: replaceFrom bound (some a) rest

/-- The group of every match is replaced, for patterns whose start is never empty. -/
def replace (previous : Option α) (rest : List α) : List α :=
  replaceFrom pattern replacement rest.length previous rest

theorem replaceFrom_of_le {bound : Nat} {previous : Option α} {rest : List α}
    (hbound : rest.length ≤ bound) :
    replaceFrom pattern replacement bound previous rest =
      replace pattern replacement previous rest := by
  suffices h : ∀ {bound other : Nat} {previous : Option α} {rest : List α},
      rest.length ≤ bound → rest.length ≤ other →
        replaceFrom pattern replacement bound previous rest =
          replaceFrom pattern replacement other previous rest from
    h hbound (Nat.le_refl _)
  intro bound
  induction bound with
  | zero =>
      intro other previous rest hbound _
      obtain rfl := List.eq_nil_of_length_eq_zero (Nat.le_zero.mp hbound)
      cases other with
      | zero => rfl
      | succ other => rfl
  | succ bound ih =>
      intro other previous rest hbound hother
      cases rest with
      | nil =>
          cases other with
          | zero => rfl
          | succ other => rfl
      | cons a rest =>
          cases other with
          | zero => cases hother
          | succ other =>
              have hdrop : ∀ {bound : Nat} (n : Nat), (a :: rest).length ≤ bound + 1 →
                  (rest.drop n).length ≤ bound := by
                intro bound n hle
                rw [List.length_cons] at hle
                rw [List.length_drop]
                omega
              rw [replaceFrom, replaceFrom]
              split
              · rw [ih (hdrop _ hbound) (hdrop _ hother)]
              · rw [ih (Nat.le_of_succ_le_succ hbound) (Nat.le_of_succ_le_succ hother)]

variable {pattern}

/-- The group of the first match at a position is replaced. -/
theorem replace_of_head? {previous : Option α} {rest : List α} {n m k : Nat} (hn : 0 < n)
    (hne : rest ≠ []) (h : (pattern.parts previous rest).head? = some (n, m, k)) :
    replace pattern replacement previous rest =
      rest.take n ++ replacement ++ (rest.drop (n + m)).take k ++
        replace pattern replacement (behind previous (rest.take (n + m + k)))
          (rest.drop (n + m + k)) := by
  obtain ⟨n, rfl⟩ := Nat.exists_eq_succ_of_ne_zero hn.ne'
  obtain ⟨a, rest, rfl⟩ := List.exists_cons_of_ne_nil hne
  have hdrop : ∀ j, (a :: rest).drop (n + 1 + j) = rest.drop (n + j) := by
    intro j
    rw [Nat.add_right_comm, List.drop_succ_cons]
  have hall : (a :: rest).drop (n + 1 + m + k) = rest.drop (n + m + k) := by
    rw [Nat.add_assoc (n + 1), hdrop, Nat.add_assoc n]
  rw [replace, List.length_cons, replaceFrom, h]
  dsimp only
  rw [replaceFrom_of_le pattern replacement (by rw [List.length_drop]; omega), Nat.succ_eq_add_one,
    hdrop, hall]

/-- Where nothing matches one element is passed. -/
theorem replace_cons_of_nil {previous : Option α} {a : α} {rest : List α}
    (h : pattern.parts previous (a :: rest) = []) :
    replace pattern replacement previous (a :: rest) =
      a :: replace pattern replacement (some a) rest := by
  rw [replace, List.length_cons, replaceFrom, h]
  rfl

/-- Where no match starts in the first part it is passed. -/
theorem replace_append_of_nil {u v : List α}
    (h : ∀ previous w, w <:+ u → w ≠ [] → pattern.parts previous (w ++ v) = [])
    (previous : Option α) :
    replace pattern replacement previous (u ++ v) =
      u ++ replace pattern replacement (behind previous u) v := by
  induction u generalizing previous with
  | nil => rfl
  | cons a u ih =>
      have hfirst := h previous (a :: u) List.suffix_rfl (List.cons_ne_nil _ _)
      rw [List.cons_append] at hfirst ⊢
      rw [replace_cons_of_nil replacement hfirst, behind_cons,
        ih (fun p w hw => h p w (hw.trans (List.suffix_cons a u)))]
      rfl

end Replace

end GroupPattern

namespace Regex

variable {α : Type*} {previous : Option α} {rest : List α} {n : Nat}

section Classes

variable {accepts : α → Bool}

theorem mem_lengths_one (h : n ∈ (one accepts).lengths previous rest) :
    ∃ a others, rest = a :: others ∧ accepts a = true ∧ n = 1 := by
  cases rest with
  | nil => cases h
  | cons a others =>
      rw [lengths] at h
      split_ifs at h with ha
      · exact ⟨a, others, rfl, ha, List.mem_singleton.mp h⟩
      · cases h

/-- A star of a class reads elements of the class. -/
theorem mem_lengths_star_one (h : n ∈ (star (one accepts)).lengths previous rest) :
    ∃ u v, rest = u ++ v ∧ u.length = n ∧ ∀ a ∈ u, accepts a = true := by
  induction rest generalizing previous n with
  | nil =>
      obtain rfl := List.mem_singleton.mp h
      exact ⟨[], [], rfl, rfl, List.forall_mem_nil _⟩
  | cons a rest ih =>
      rw [lengths_star_one_cons] at h
      split_ifs at h with ha
      · rcases List.mem_append.mp h with h | h
        · obtain ⟨m, hm, rfl⟩ := List.mem_map.mp h
          obtain ⟨u, v, rfl, rfl, hu⟩ := ih hm
          exact ⟨a :: u, v, rfl, Nat.add_comm _ _, List.forall_mem_cons.mpr ⟨ha, hu⟩⟩
        · obtain rfl := List.mem_singleton.mp h
          exact ⟨[], a :: rest, rfl, rfl, List.forall_mem_nil _⟩
      · obtain rfl := List.mem_singleton.mp h
        exact ⟨[], a :: rest, rfl, rfl, List.forall_mem_nil _⟩

/-- Before the end of a run there is no element of another class. -/
theorem lengths_one_drop_eq_nil {u v : List α} (hu : ∀ a ∈ u, accepts a = false) {m : Nat}
    (hm : m < u.length) (previous : Option α) :
    (one accepts).lengths previous ((u ++ v).drop m) = [] := by
  apply lengths_one_eq_nil_iff.mpr
  intro a ha
  rw [List.drop_append_of_le_length hm.le, List.head?_append_of_ne_nil] at ha
  · exact hu a (List.mem_of_mem_drop (List.mem_of_mem_head? ha))
  · rw [ne_eq, List.drop_eq_nil_iff, Nat.not_le]
    exact hm

/-- Where only the longest run of a class leads on, it is the only one. -/
theorem flatMap_lengths_star_one {β : Type*} {next : Nat → List β} {u v : List α}
    (hu : ∀ a ∈ u, accepts a = true) (hv : ∀ a ∈ v.head?, accepts a = false)
    (hnext : ∀ m < u.length, next m = []) (previous : Option α) :
    ((star (one accepts)).lengths previous (u ++ v)).flatMap next = next u.length := by
  induction u generalizing previous next with
  | nil =>
      have hstar : (star (one accepts)).lengths previous v = [0] := by
        cases v with
        | nil => rfl
        | cons a v => rw [lengths_star_one_cons, hv a rfl, if_neg Bool.false_ne_true]
      rw [List.nil_append, hstar, List.flatMap_singleton, List.length_nil]
  | cons a u ih =>
      obtain ⟨ha, hu⟩ := List.forall_mem_cons.mp hu
      have hshift : ∀ m < u.length, next (1 + m) = [] := by
        intro m hm
        apply hnext
        rw [List.length_cons]
        omega
      rw [List.cons_append, lengths_star_one_cons, ha, if_pos rfl, List.flatMap_append,
        List.flatMap_map, ih hu hshift, List.flatMap_singleton, hnext 0 (Nat.succ_pos _),
        List.append_nil, List.length_cons, Nat.add_comm]

end Classes

section Words

variable [BEq α] [LawfulBEq α] {a : α} {w : List α}

/-- A word is matched where it stands. -/
theorem lengths_word (a : α) (w rest : List α) (previous : Option α) :
    (word a w).lengths previous (a :: (w ++ rest)) = [w.length + 1] := by
  induction w generalizing a previous with
  | nil => simp [word, lengths]
  | cons b w ih =>
      have hfirst : (one (· == a)).lengths previous (a :: (b :: w ++ rest)) = [1] := by
        simp [lengths]
      rw [word, lengths, hfirst, List.flatMap_singleton, List.drop_succ_cons, List.drop_zero,
        List.cons_append, ih, List.map_singleton, List.length_cons, Nat.add_comm]

theorem mem_lengths_word (h : n ∈ (word a w).lengths previous rest) :
    ∃ others, rest = a :: (w ++ others) ∧ n = w.length + 1 := by
  induction w generalizing a previous rest n with
  | nil =>
      obtain ⟨b, others, rfl, hb, rfl⟩ := mem_lengths_one h
      obtain rfl := eq_of_beq hb
      exact ⟨others, rfl, rfl⟩
  | cons c w ih =>
      obtain ⟨m, hm, h⟩ := List.mem_flatMap.mp h
      obtain ⟨k, hk, rfl⟩ := List.mem_map.mp h
      obtain ⟨b, others, rfl, hb, rfl⟩ := mem_lengths_one hm
      obtain rfl := eq_of_beq hb
      obtain ⟨behindWord, hothers, rfl⟩ := ih hk
      rw [List.drop_succ_cons, List.drop_zero] at hothers
      refine ⟨behindWord, ?_, Nat.add_comm _ _⟩
      rw [hothers, List.cons_append]

end Words

end Regex

end SignalFxTracing.Lib
