import SignalFxTracing.Lib.Regex

/-!
# What is left after replacing

A list is free of a pattern when no match starts at any of its positions. What
a replacement passes is free of the pattern where it is passed; whether the
result is free depends on what each match leaves before and behind it.
-/

namespace SignalFxTracing.Lib.Regex

variable {α : Type*}

/-- No match starts in the list. -/
def Free (r : Regex α) (previous : Option α) (u : List α) : Prop :=
  ∀ before w, u = before ++ w → r.lengths (behind previous before) w = []

section Free

variable {r : Regex α} {previous : Option α} {a : α} {u : List α}

theorem free_nil_iff : r.Free previous [] ↔ r.lengths previous [] = [] := by
  constructor
  · intro h
    exact h [] [] rfl
  · intro h before w hsplit
    obtain ⟨rfl, rfl⟩ := List.append_eq_nil_iff.mp hsplit.symm
    exact h

theorem free_cons_iff :
    r.Free previous (a :: u) ↔ r.lengths previous (a :: u) = [] ∧ r.Free (some a) u := by
  constructor
  · intro h
    refine ⟨h [] (a :: u) rfl, ?_⟩
    intro before w hsplit
    rw [← behind_cons]
    apply h
    rw [hsplit, List.cons_append]
  · rintro ⟨hfirst, hrest⟩ before w hsplit
    cases before with
    | nil =>
        obtain rfl : a :: u = w := hsplit
        exact hfirst
    | cons b before =>
        obtain ⟨rfl, rfl⟩ := List.cons.inj hsplit
        rw [behind_cons]
        exact hrest before w rfl

theorem free_alt_iff {first second : Regex α} :
    (alt first second).Free previous u ↔ first.Free previous u ∧ second.Free previous u := by
  simp only [Free, lengths, List.append_eq_nil_iff]
  exact ⟨fun h => ⟨fun b w e => (h b w e).1, fun b w e => (h b w e).2⟩,
    fun h b w e => ⟨h.1 b w e, h.2 b w e⟩⟩

/-- Nothing is replaced in a list that is free of the pattern. -/
theorem Free.replace_eq_self (replacement : List α) (h : r.Free previous u) :
    replace r replacement previous u = u := by
  induction u generalizing previous with
  | nil => rfl
  | cons a u ih =>
      obtain ⟨hfirst, hrest⟩ := free_cons_iff.mp h
      rw [replace_cons_of_nil replacement hfirst, ih hrest]

end Free

section Scan

variable {r : Regex α}

/-- The rule of a scan from the left: the end, an element that is passed, and a match. -/
@[elab_as_elim]
theorem Reads.scan_induction (hreads : r.Reads) {motive : Option α → List α → Prop}
    (nil : ∀ previous, motive previous [])
    (pass : ∀ previous a rest, r.lengths previous (a :: rest) = [] → motive (some a) rest →
      motive previous (a :: rest))
    (found : ∀ previous rest n, 0 < n → (r.lengths previous rest).head? = some n →
      motive (behind previous (rest.take n)) (rest.drop n) → motive previous rest)
    (previous : Option α) (rest : List α) : motive previous rest := by
  induction hlength : rest.length using Nat.strong_induction_on generalizing previous rest with
  | _ length ih =>
      cases rest with
      | nil => exact nil previous
      | cons a rest =>
          cases hhead : (r.lengths previous (a :: rest)).head? with
          | none =>
              apply pass previous a rest (List.head?_eq_none_iff.mp hhead)
              exact ih rest.length (by simp [← hlength]) (some a) rest rfl
          | some n =>
              have hn := hreads _ _ n (List.mem_of_head? hhead)
              apply found previous (a :: rest) n hn hhead
              apply ih _ ?_ _ _ rfl
              rw [List.length_drop, ← hlength, List.length_cons]
              omega

variable {replacement : List α} {previous : Option α} {rest : List α}

/-- What is in the result was there before or stands for a match. -/
theorem Reads.mem_replace (hreads : r.Reads) {a : α}
    (h : a ∈ replace r replacement previous rest) : a ∈ rest ∨ a ∈ replacement := by
  induction previous, rest using hreads.scan_induction with
  | nil previous => cases h
  | pass previous b rest hnone ih =>
      rw [replace_cons_of_nil replacement hnone] at h
      rcases List.mem_cons.mp h with rfl | h
      · exact Or.inl List.mem_cons_self
      · rcases ih h with hrest | hreplacement
        · exact Or.inl (List.mem_cons_of_mem _ hrest)
        · exact Or.inr hreplacement
  | found previous rest n hn hhead ih =>
      rw [replace_of_head? replacement hn hhead] at h
      rcases List.mem_append.mp h with h | h
      · exact Or.inr h
      · rcases ih h with hrest | hreplacement
        · exact Or.inl (List.mem_of_mem_drop hrest)
        · exact Or.inr hreplacement

/-- A result that starts with no replacement starts with an element that was passed. -/
theorem Reads.exists_of_replace_eq_cons (hreads : r.Reads) (hne : replacement ≠ []) {a : α}
    {out : List α} (ha : a ∉ replacement) (h : replace r replacement previous rest = a :: out) :
    ∃ others, rest = a :: others ∧ out = replace r replacement (some a) others := by
  induction previous, rest using hreads.scan_induction with
  | nil previous => cases h
  | pass previous b rest hnone _ =>
      rw [replace_cons_of_nil replacement hnone] at h
      obtain ⟨rfl, rfl⟩ := List.cons.inj h
      exact ⟨rest, rfl, rfl⟩
  | found previous rest n hn hhead _ =>
      rw [replace_of_head? replacement hn hhead] at h
      obtain ⟨b, others, rfl⟩ := List.exists_cons_of_ne_nil hne
      obtain ⟨rfl, -⟩ := List.cons.inj h
      exact absurd List.mem_cons_self ha

end Scan

section Sequences

variable {first second body : Regex α} {previous : Option α} {rest : List α}

theorem head?_alt_cases {n : Nat} (h : ((alt first second).lengths previous rest).head? = some n) :
    (first.lengths previous rest).head? = some n ∨ (second.lengths previous rest).head? = some n := by
  rw [lengths, List.head?_append] at h
  cases hfirst : (first.lengths previous rest).head? with
  | none => exact Or.inr (by rwa [hfirst, Option.none_or] at h)
  | some m => exact Or.inl (by rwa [hfirst, Option.some_or] at h)

theorem mem_lengths_seq {m k : Nat} (hm : m ∈ first.lengths previous rest)
    (hk : k ∈ second.lengths (behind previous (rest.take m)) (rest.drop m)) :
    m + k ∈ (seq first second).lengths previous rest :=
  List.mem_flatMap.mpr ⟨m, hm, List.mem_map.mpr ⟨k, hk, rfl⟩⟩

/-- A star takes a turn for each element of a list where its body can read one. -/
theorem length_mem_lengths_star {u : List α}
    (h : ∀ previous, ∀ a ∈ u, ∀ rest, 1 ∈ body.lengths previous (a :: rest))
    (previous : Option α) (v : List α) :
    u.length ∈ (star body).lengths previous (u ++ v) := by
  rw [lengths]
  have hbound : u.length ≤ (u ++ v).length := by simp
  generalize (u ++ v).length = bound at hbound ⊢
  induction u generalizing bound previous with
  | nil =>
      cases bound with
      | zero => exact List.mem_singleton_self 0
      | succ bound => exact List.mem_append_right _ (List.mem_singleton_self 0)
  | cons a u ih =>
      cases bound with
      | zero => cases hbound
      | succ bound =>
          have hrest := ih (fun previous b hb => h previous b (List.mem_cons_of_mem a hb))
            (some a) bound (Nat.le_of_succ_le_succ hbound)
          apply List.mem_append_left
          refine List.mem_flatMap.mpr ⟨1, ?_, List.mem_map.mpr ⟨u.length, hrest, ?_⟩⟩
          · exact List.mem_filter.mpr ⟨h previous a List.mem_cons_self (u ++ v), rfl⟩
          · rw [List.length_cons, Nat.add_comm]

theorem lengths_seq_eq_nil_iff :
    (seq first second).lengths previous rest = [] ↔ ∀ n ∈ first.lengths previous rest,
      second.lengths (behind previous (rest.take n)) (rest.drop n) = [] := by
  simp only [lengths, List.flatMap_eq_nil_iff, List.map_eq_nil_iff]

theorem lengths_star_ne_nil : (star body).lengths previous rest ≠ [] := by
  rw [lengths]
  cases rest.length with
  | zero => exact List.cons_ne_nil _ _
  | succ bound => exact List.append_ne_nil_of_right_ne_nil _ (List.cons_ne_nil _ _)

/-- A star behind a pattern decides nothing. -/
theorem lengths_seq_star_eq_nil_iff :
    (seq first (star body)).lengths previous rest = [] ↔ first.lengths previous rest = [] := by
  rw [lengths_seq_eq_nil_iff]
  constructor
  · intro h
    apply List.eq_nil_iff_forall_not_mem.mpr
    intro n hn
    exact lengths_star_ne_nil (h n hn)
  · intro h n hn
    rw [h] at hn
    cases hn

variable {accepts : α → Bool} {a : α}

theorem lengths_one_eq_nil_iff :
    (one accepts).lengths previous rest = [] ↔ ∀ b ∈ rest.head?, accepts b = false := by
  cases rest with
  | nil => simp [lengths]
  | cons b rest => simp [lengths]

theorem lengths_seq_one_nil : (seq (one accepts) second).lengths previous [] = [] := rfl

theorem lengths_seq_one_cons_eq_nil_iff :
    (seq (one accepts) second).lengths previous (a :: rest) = [] ↔
      (accepts a = true → second.lengths (some a) rest = []) := by
  rw [lengths_seq_eq_nil_iff, lengths]
  cases accepts a with
  | false => simp
  | true => simp [behind]

theorem lengths_star_one_nil : (star (one accepts)).lengths previous [] = [0] := rfl

/-- A star of a class goes on as long as it can. -/
theorem lengths_star_one_cons :
    (star (one accepts)).lengths previous (a :: rest) =
      if accepts a then ((star (one accepts)).lengths (some a) rest).map (1 + ·) ++ [0]
      else [0] := by
  rw [lengths, lengths, List.length_cons, starLengths]
  cases h : accepts a with
  | true => simp [lengths, h, behind]
  | false => simp [lengths, h]

theorem lengths_seq_star_one_nil :
    (seq (star (one accepts)) second).lengths previous [] = second.lengths previous [] := by
  rw [lengths, lengths_star_one_nil, List.flatMap_singleton]
  simp

/-- The second pattern is looked for here and behind each element of the star. -/
theorem lengths_seq_star_one_cons_eq_nil_iff :
    (seq (star (one accepts)) second).lengths previous (a :: rest) = [] ↔
      second.lengths previous (a :: rest) = [] ∧
        (accepts a = true →
          (seq (star (one accepts)) second).lengths (some a) rest = []) := by
  rw [lengths_seq_eq_nil_iff, lengths_seq_eq_nil_iff, lengths_star_one_cons]
  cases accepts a with
  | false => simp
  | true =>
      simp only [if_true, List.mem_append, List.mem_map, List.mem_singleton, or_imp, forall_and,
        forall_exists_index, and_imp, forall_apply_eq_imp_iff₂, forall_eq, List.take_zero,
        List.drop_zero, behind_nil, forall_const]
      rw [and_comm]
      simp only [Nat.add_comm 1, List.take_succ_cons, List.drop_succ_cons, behind_cons]

end Sequences

section Ends

variable {accepts : α → Bool}

/-- Behind the first match of the pattern there is no element of the class. -/
def Greedy (accepts : α → Bool) (r : Regex α) : Prop :=
  ∀ previous rest n, (r.lengths previous rest).head? = some n →
    ∀ a ∈ (rest.drop n).head?, accepts a = false

theorem greedy_star_one (accepts : α → Bool) : (star (one accepts)).Greedy accepts := by
  intro previous rest
  induction rest generalizing previous with
  | nil =>
      intro n _ a ha
      rw [List.drop_nil] at ha
      cases ha
  | cons b rest ih =>
      intro n hn a ha
      rw [lengths_star_one_cons] at hn
      cases hb : accepts b with
      | false =>
          rw [hb, if_neg Bool.false_ne_true] at hn
          obtain rfl : 0 = n := Option.some.inj hn
          obtain rfl : b = a := Option.some.inj ha
          exact hb
      | true =>
          obtain ⟨m, others, hothers⟩ := List.exists_cons_of_ne_nil
            (@lengths_star_ne_nil _ (one accepts) (some b) rest)
          rw [hb, if_pos rfl, hothers] at hn
          obtain rfl : 1 + m = n := Option.some.inj hn
          rw [Nat.add_comm, List.drop_succ_cons] at ha
          exact ih (some b) m (by rw [hothers]; rfl) a ha

theorem Greedy.seq {second : Regex α} (h : second.Greedy accepts) (first : Regex α) :
    (seq first second).Greedy accepts := by
  intro previous rest n hn
  rw [lengths, List.head?_flatMap] at hn
  obtain ⟨m, -, hm⟩ := List.exists_of_findSome?_eq_some hn
  rw [List.head?_map] at hm
  obtain ⟨k, hk, rfl⟩ := Option.map_eq_some_iff.mp hm
  rw [← List.drop_drop]
  exact h _ _ k hk

/-- Every match of the pattern ends with an element of the class. -/
def EndsWith (accepts : α → Bool) (r : Regex α) : Prop :=
  ∀ previous rest, ∀ n ∈ r.lengths previous rest,
    ∃ a, accepts a = true ∧ behind previous (rest.take n) = some a

theorem endsWith_one (accepts : α → Bool) : (one accepts).EndsWith accepts := by
  intro previous rest n hn
  cases rest with
  | nil => cases hn
  | cons a rest =>
      rw [lengths] at hn
      split_ifs at hn with ha
      · obtain rfl := List.mem_singleton.mp hn
        exact ⟨a, ha, rfl⟩
      · cases hn

theorem EndsWith.seq {second : Regex α} (h : second.EndsWith accepts) (first : Regex α) :
    (seq first second).EndsWith accepts := by
  intro previous rest n hn
  obtain ⟨m, -, hn⟩ := List.mem_flatMap.mp hn
  obtain ⟨k, hk, rfl⟩ := List.mem_map.mp hn
  rw [List.take_add, behind_append]
  exact h _ _ k hk

end Ends

end SignalFxTracing.Lib.Regex
