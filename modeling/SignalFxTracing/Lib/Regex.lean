import Mathlib.Data.List.Infix

/-!
# Backtracking regular expressions

At a position a pattern has the lengths of its matches, in the order in which a
backtracking matcher finds them; the match is the first of them. A look-behind
sees the element before the position. To replace matches is to walk over a list
from the left, at each position taking the match there or passing one element.
-/

namespace SignalFxTracing.Lib

inductive Regex (α : Type*)
  /-- One element of a class. -/
  | one (accepts : α → Bool)
  /-- The element before the position is not in the class. -/
  | notBehind (accepts : α → Bool)
  | seq (first second : Regex α)
  /-- The second pattern is tried after the first one. -/
  | alt (first second : Regex α)
  /-- As many turns of the body as possible are tried first. -/
  | star (body : Regex α)

namespace Regex

variable {α : Type*}

/-- The element before a position, behind the elements that were read last. -/
def behind (previous : Option α) (read : List α) : Option α := read.getLast?.or previous

@[simp] theorem behind_nil (previous : Option α) : behind previous [] = previous := rfl

@[simp] theorem behind_concat (previous : Option α) (read : List α) (a : α) :
    behind previous (read ++ [a]) = some a := by
  simp [behind]

@[simp] theorem behind_append (previous : Option α) (first second : List α) :
    behind previous (first ++ second) = behind (behind previous first) second := by
  simp [behind, List.getLast?_append, Option.or_assoc]

theorem behind_cons (previous : Option α) (a : α) (rest : List α) :
    behind previous (a :: rest) = behind (some a) rest := by
  cases h : rest.getLast? with
  | none => simp [behind, List.getLast?_cons, h]
  | some last => simp [behind, List.getLast?_cons, h]

/-- The turns of a star, at most `bound` of them. A turn that reads nothing ends it. -/
def starLengths (body : Option α → List α → List Nat) : Nat → Option α → List α → List Nat
  | 0, _, _ => [0]
  | bound + 1, previous, rest =>
      ((body previous rest).filter (0 < ·)).flatMap (fun n =>
        (starLengths body bound (behind previous (rest.take n)) (rest.drop n)).map (n + ·)) ++ [0]

/-- The lengths of the matches of a pattern, in the order in which they are found. -/
def lengths : Regex α → Option α → List α → List Nat
  | one _, _, [] => []
  | one accepts, _, a :: _ => if accepts a then [1] else []
  | notBehind accepts, previous, _ => if previous.any accepts then [] else [0]
  | seq first second, previous, rest =>
      (first.lengths previous rest).flatMap fun n =>
        (second.lengths (behind previous (rest.take n)) (rest.drop n)).map (n + ·)
  | alt first second, previous, rest => first.lengths previous rest ++ second.lengths previous rest
  | star body, previous, rest => starLengths body.lengths rest.length previous rest

section Lengths

theorem starLengths_le_length {body : Option α → List α → List Nat}
    (h : ∀ previous rest, ∀ n ∈ body previous rest, n ≤ rest.length) {bound : Nat}
    {previous : Option α} {rest : List α} {n : Nat}
    (hn : n ∈ starLengths body bound previous rest) : n ≤ rest.length := by
  induction bound generalizing previous rest n with
  | zero =>
      obtain rfl := List.mem_singleton.mp hn
      exact Nat.zero_le _
  | succ bound ih =>
      rcases List.mem_append.mp hn with hn | hn
      · obtain ⟨first, hfirst, hn⟩ := List.mem_flatMap.mp hn
        obtain ⟨others, hothers, rfl⟩ := List.mem_map.mp hn
        have hle := h previous rest first (List.mem_filter.mp hfirst).1
        have hrest := ih hothers
        rw [List.length_drop] at hrest
        omega
      · obtain rfl := List.mem_singleton.mp hn
        exact Nat.zero_le _

/-- A match does not reach over the end. -/
theorem le_length (r : Regex α) {previous : Option α} {rest : List α} {n : Nat}
    (hn : n ∈ r.lengths previous rest) : n ≤ rest.length := by
  induction r generalizing previous rest n with
  | one accepts =>
      cases rest with
      | nil => cases hn
      | cons a rest =>
          rw [lengths] at hn
          split_ifs at hn
          · obtain rfl := List.mem_singleton.mp hn
            simp
          · cases hn
  | notBehind accepts =>
      rw [lengths] at hn
      split_ifs at hn
      · cases hn
      · obtain rfl := List.mem_singleton.mp hn
        exact Nat.zero_le _
  | seq first second ihFirst ihSecond =>
      obtain ⟨m, hm, hn⟩ := List.mem_flatMap.mp hn
      obtain ⟨k, hk, rfl⟩ := List.mem_map.mp hn
      have hle := ihFirst hm
      have hrest := ihSecond hk
      rw [List.length_drop] at hrest
      omega
  | alt first second ihFirst ihSecond =>
      rcases List.mem_append.mp hn with hn | hn
      · exact ihFirst hn
      · exact ihSecond hn
  | star body ih => exact starLengths_le_length (fun _ _ _ => ih) hn

/-- Every bound from the length of the list on gives the same turns. -/
theorem starLengths_of_le {body : Option α → List α → List Nat}
    (h : ∀ previous rest, ∀ n ∈ body previous rest, n ≤ rest.length) {bound other : Nat}
    {previous : Option α} {rest : List α} (hbound : rest.length ≤ bound)
    (hother : rest.length ≤ other) :
    starLengths body bound previous rest = starLengths body other previous rest := by
  have hempty : ∀ bound previous, starLengths body bound previous [] = [0] := by
    intro bound previous
    cases bound with
    | zero => rfl
    | succ bound =>
        have hnone : (body previous []).filter (0 < ·) = [] := by
          apply List.filter_eq_nil_iff.mpr
          intro n hn
          have := h previous [] n hn
          simpa using this
        rw [starLengths, hnone]
        rfl
  induction bound generalizing other previous rest with
  | zero =>
      obtain rfl := List.eq_nil_of_length_eq_zero (Nat.le_zero.mp hbound)
      rw [hempty, hempty]
  | succ bound ih =>
      cases other with
      | zero =>
          obtain rfl := List.eq_nil_of_length_eq_zero (Nat.le_zero.mp hother)
          rw [hempty, hempty]
      | succ other =>
          rw [starLengths, starLengths]
          congr 1
          apply List.flatMap_congr
          intro n hn
          have hpos : 0 < n := by simpa using (List.mem_filter.mp hn).2
          have hle := h previous rest n (List.mem_filter.mp hn).1
          have hboundDrop : (rest.drop n).length ≤ bound := by
            rw [List.length_drop]
            omega
          have hotherDrop : (rest.drop n).length ≤ other := by
            rw [List.length_drop]
            omega
          rw [ih hboundDrop hotherDrop]

end Lengths

section First

variable {previous : Option α} {rest : List α} {n m : Nat}

/-- Where the first match of each part leads to a match, they make the first match. -/
theorem head?_seq {first second : Regex α} (hn : (first.lengths previous rest).head? = some n)
    (hm : (second.lengths (behind previous (rest.take n)) (rest.drop n)).head? = some m) :
    ((seq first second).lengths previous rest).head? = some (n + m) := by
  obtain ⟨others, hothers⟩ := List.head?_eq_some_iff.mp hn
  rw [lengths, hothers, List.head?_flatMap, List.findSome?_cons, List.head?_map, hm]
  rfl

/-- A star whose body has no match here takes no turn. -/
theorem starLengths_of_nil {body : Option α → List α → List Nat} (bound : Nat)
    (h : body previous rest = []) : starLengths body bound previous rest = [0] := by
  cases bound with
  | zero => rfl
  | succ bound =>
      rw [starLengths, h]
      rfl

theorem lengths_seq_star_of_nil {body second : Regex α} (h : body.lengths previous rest = []) :
    (seq (star body) second).lengths previous rest = second.lengths previous rest := by
  rw [lengths, lengths, starLengths_of_nil _ h, List.flatMap_singleton]
  simp

/-- A star whose body has one match here first takes that turn, and then none. -/
theorem lengths_star_of_singleton {body : Regex α} (hpos : 0 < n)
    (h : body.lengths previous rest = [n]) :
    (star body).lengths previous rest =
      ((star body).lengths (behind previous (rest.take n)) (rest.drop n)).map (n + ·) ++ [0] := by
  have hle : n ≤ rest.length := body.le_length (h ▸ List.mem_singleton_self n)
  obtain ⟨bound, hbound⟩ : ∃ bound, rest.length = bound + 1 := ⟨rest.length - 1, by omega⟩
  have hturns : starLengths body.lengths bound (behind previous (rest.take n)) (rest.drop n) =
      (star body).lengths (behind previous (rest.take n)) (rest.drop n) := by
    apply starLengths_of_le (fun _ _ _ => body.le_length)
    · rw [List.length_drop]
      omega
    · exact Nat.le_refl _
  rw [lengths, hbound, starLengths, h, List.filter_cons_of_pos (by simpa using hpos),
    List.filter_nil, List.flatMap_singleton, hturns]

/-- The second pattern is tried behind the turn of the star before it is tried here. -/
theorem lengths_seq_star_of_singleton {body second : Regex α} (hpos : 0 < n)
    (h : body.lengths previous rest = [n]) :
    (seq (star body) second).lengths previous rest =
      ((seq (star body) second).lengths (behind previous (rest.take n)) (rest.drop n)).map
        (n + ·) ++ second.lengths previous rest := by
  rw [lengths, lengths_star_of_singleton hpos h, List.flatMap_append, List.flatMap_singleton,
    lengths, List.map_flatMap, List.flatMap_map]
  congr 1
  · apply List.flatMap_congr
    intro m _
    rw [List.take_add, behind_append, List.drop_drop, List.map_map]
    apply List.map_congr_left
    intro k _
    exact Nat.add_assoc n m k
  · simp

end First

section Reads

/-- No match of the pattern is empty. -/
def Reads (r : Regex α) : Prop := ∀ previous rest, ∀ n ∈ r.lengths previous rest, 0 < n

theorem reads_one (accepts : α → Bool) : (one accepts).Reads := by
  intro previous rest n hn
  cases rest with
  | nil => cases hn
  | cons a rest =>
      rw [lengths] at hn
      split_ifs at hn
      · obtain rfl := List.mem_singleton.mp hn
        exact Nat.one_pos
      · cases hn

theorem Reads.seq_left {first : Regex α} (h : first.Reads) (second : Regex α) :
    (seq first second).Reads := by
  intro previous rest n hn
  obtain ⟨m, hm, hn⟩ := List.mem_flatMap.mp hn
  obtain ⟨k, -, rfl⟩ := List.mem_map.mp hn
  exact Nat.add_pos_left (h previous rest m hm) k

theorem Reads.seq_right {second : Regex α} (h : second.Reads) (first : Regex α) :
    (seq first second).Reads := by
  intro previous rest n hn
  obtain ⟨m, -, hn⟩ := List.mem_flatMap.mp hn
  obtain ⟨k, hk, rfl⟩ := List.mem_map.mp hn
  exact Nat.add_pos_right m (h _ _ k hk)

theorem Reads.alt {first second : Regex α} (hfirst : first.Reads) (hsecond : second.Reads) :
    (alt first second).Reads := by
  intro previous rest n hn
  rcases List.mem_append.mp hn with hn | hn
  · exact hfirst previous rest n hn
  · exact hsecond previous rest n hn

end Reads

section Locality

variable {stop : α → Prop}

/-- No class of the pattern has an element that stops it. -/
def Rejects (stop : α → Prop) : Regex α → Prop
  | one accepts => ∀ a, stop a → accepts a = false
  | notBehind _ => True
  | seq first second => first.Rejects stop ∧ second.Rejects stop
  | alt first second => first.Rejects stop ∧ second.Rejects stop
  | star body => body.Rejects stop

/-- The matches of a pattern do not see what follows an element that stops it. -/
theorem Rejects.lengths_append {r : Regex α} (h : r.Rejects stop) {v : List α}
    (hv : ∀ a ∈ v.head?, stop a) (previous : Option α) (u : List α) :
    r.lengths previous (u ++ v) = r.lengths previous u := by
  induction r generalizing previous u with
  | one accepts =>
      cases u with
      | cons a u => rfl
      | nil =>
          cases v with
          | nil => rfl
          | cons a v => simp [lengths, h a (hv a rfl)]
  | notBehind accepts => rfl
  | seq first second ihFirst ihSecond =>
      rw [lengths, lengths, ihFirst h.1]
      apply List.flatMap_congr
      intro n hn
      have hle := first.le_length hn
      rw [List.take_append_of_le_length hle, List.drop_append_of_le_length hle, ihSecond h.2]
  | alt first second ihFirst ihSecond => rw [lengths, lengths, ihFirst h.1, ihSecond h.2]
  | star body ih =>
      have hle : ∀ previous rest, ∀ n ∈ body.lengths previous rest, n ≤ rest.length :=
        fun _ _ _ => body.le_length
      have hlocal : ∀ bound previous u, starLengths body.lengths bound previous (u ++ v) =
          starLengths body.lengths bound previous u := by
        intro bound
        induction bound with
        | zero => exact fun _ _ => rfl
        | succ bound ihBound =>
            intro previous u
            rw [starLengths, starLengths, ih h]
            congr 1
            apply List.flatMap_congr
            intro n hn
            have hn := hle previous u n (List.mem_filter.mp hn).1
            rw [List.take_append_of_le_length hn, List.drop_append_of_le_length hn, ihBound]
      rw [lengths, lengths, hlocal]
      exact starLengths_of_le hle (by simp) (Nat.le_refl _)

/-- A pattern that reads nothing from an empty list reads nothing from an element
that stops it. -/
theorem Rejects.lengths_cons {r : Regex α} (h : r.Rejects stop)
    (hempty : ∀ previous, r.lengths previous [] = []) {a : α} (ha : stop a) (previous : Option α)
    (rest : List α) : r.lengths previous (a :: rest) = [] := by
  rw [← List.nil_append (a :: rest), h.lengths_append (by simpa using ha), hempty]

/-- A pattern that ends with an element of a class needs such an element. -/
theorem lengths_seq_one_eq_nil (r : Regex α) {accepts : α → Bool} {rest : List α}
    (h : ∀ a ∈ rest, accepts a = false) (previous : Option α) :
    (seq r (one accepts)).lengths previous rest = [] := by
  rw [lengths, List.flatMap_eq_nil_iff]
  intro n _
  cases hdrop : rest.drop n with
  | nil => rfl
  | cons a others =>
      have ha : a ∈ rest := List.mem_of_mem_drop (hdrop ▸ List.mem_cons_self ..)
      simp [lengths, h a ha]

end Locality

section Replace

variable (r : Regex α) (replacement : List α)

/-- Replacing in at most `bound` steps. -/
def replaceFrom : Nat → Option α → List α → List α
  | 0, _, rest => rest
  | _ + 1, _, [] => []
  | bound + 1, previous, a :: rest =>
      match (r.lengths previous (a :: rest)).head? with
      | some (n + 1) =>
          replacement ++
            replaceFrom bound (behind previous ((a :: rest).take (n + 1))) (rest.drop n)
      | _ => a :: replaceFrom bound (some a) rest

/-- Every match is replaced, for patterns without empty matches. -/
def replace (previous : Option α) (rest : List α) : List α :=
  replaceFrom r replacement rest.length previous rest

theorem replaceFrom_of_le {bound : Nat} {previous : Option α} {rest : List α}
    (hbound : rest.length ≤ bound) :
    replaceFrom r replacement bound previous rest = replace r replacement previous rest := by
  suffices h : ∀ {bound other : Nat} {previous : Option α} {rest : List α},
      rest.length ≤ bound → rest.length ≤ other →
        replaceFrom r replacement bound previous rest =
          replaceFrom r replacement other previous rest from
    h hbound (Nat.le_refl _)
  intro bound
  induction bound with
  | zero =>
      intro other previous rest hbound _
      obtain rfl := List.eq_nil_of_length_eq_zero (Nat.le_zero.mp hbound)
      cases other with
      | zero => rfl
      | succ other => rfl
  | succ bound ih =>
      intro other previous rest hbound hother
      cases rest with
      | nil =>
          cases other with
          | zero => rfl
          | succ other => rfl
      | cons a rest =>
          cases other with
          | zero => simp at hother
          | succ other =>
              rw [List.length_cons] at hbound hother
              have hboundDrop : ∀ n, (rest.drop n).length ≤ bound := by
                intro n
                rw [List.length_drop]
                omega
              have hotherDrop : ∀ n, (rest.drop n).length ≤ other := by
                intro n
                rw [List.length_drop]
                omega
              rw [replaceFrom, replaceFrom]
              split
              · rw [ih (hboundDrop _) (hotherDrop _)]
              · rw [ih (Nat.le_of_succ_le_succ hbound) (Nat.le_of_succ_le_succ hother)]

/-- Each match has an element, so that a replacement of one element makes nothing longer. -/
theorem length_replaceFrom_le (h : replacement.length ≤ 1) (bound : Nat) (previous : Option α)
    (rest : List α) : (replaceFrom r replacement bound previous rest).length ≤ rest.length := by
  induction bound generalizing previous rest with
  | zero => exact Nat.le_refl _
  | succ bound ih =>
      cases rest with
      | nil => exact Nat.le_refl _
      | cons a rest =>
          rw [replaceFrom]
          split
          · next n _ =>
            calc
              _ = replacement.length + _ := List.length_append
              _ ≤ 1 + (rest.drop n).length := Nat.add_le_add h (ih _ _)
              _ ≤ (a :: rest).length := by
                rw [List.length_drop, List.length_cons]
                omega
          · exact Nat.succ_le_succ (ih _ _)

theorem length_replace_le (h : replacement.length ≤ 1) (previous : Option α) (rest : List α) :
    (replace r replacement previous rest).length ≤ rest.length :=
  length_replaceFrom_le r replacement h _ previous rest

@[simp] theorem replace_nil (previous : Option α) : replace r replacement previous [] = [] := rfl

variable {r}

/-- The first match at a position is replaced. -/
theorem replace_of_head? {previous : Option α} {rest : List α} {n : Nat} (hn : 0 < n)
    (h : (r.lengths previous rest).head? = some n) :
    replace r replacement previous rest =
      replacement ++ replace r replacement (behind previous (rest.take n)) (rest.drop n) := by
  obtain ⟨m, rfl⟩ := Nat.exists_eq_succ_of_ne_zero hn.ne'
  cases rest with
  | nil =>
      have := r.le_length (List.mem_of_head? h)
      simp at this
  | cons a rest =>
      rw [replace, List.length_cons, replaceFrom, h]
      dsimp only
      rw [replaceFrom_of_le r replacement (by rw [List.length_drop]; omega)]
      rfl

/-- Where nothing matches one element is passed. -/
theorem replace_cons_of_nil {previous : Option α} {a : α} {rest : List α}
    (h : r.lengths previous (a :: rest) = []) :
    replace r replacement previous (a :: rest) = a :: replace r replacement (some a) rest := by
  rw [replace, List.length_cons, replaceFrom, h]
  rfl

/-- Matches that start in the first part do not look beyond it: the parts are
replaced one after the other. -/
theorem replace_append (hreads : r.Reads) {u v : List α}
    (hlocal : ∀ previous w, w <:+ u → w ≠ [] →
      r.lengths previous (w ++ v) = r.lengths previous w) (previous : Option α) :
    replace r replacement previous (u ++ v) =
      replace r replacement previous u ++ replace r replacement (behind previous u) v := by
  induction hlength : u.length using Nat.strong_induction_on generalizing u previous with
  | _ length ih =>
      cases u with
      | nil => rfl
      | cons a u =>
          have hfirst := hlocal previous (a :: u) List.suffix_rfl (List.cons_ne_nil _ _)
          cases hhead : (r.lengths previous (a :: u)).head? with
          | none =>
              have hnil := List.head?_eq_none_iff.mp hhead
              have hrest := ih u.length (by simp [← hlength])
                (fun p w hw => hlocal p w (hw.trans (List.suffix_cons a u))) (some a) rfl
              rw [List.cons_append] at hfirst ⊢
              rw [replace_cons_of_nil replacement (hfirst.trans hnil),
                replace_cons_of_nil replacement hnil, hrest, List.cons_append,
                ← behind_cons]
          | some n =>
              have hn := hreads _ _ n (List.mem_of_head? hhead)
              have hle := r.le_length (List.mem_of_head? hhead)
              have hdrop : ((a :: u).drop n).length < length := by
                rw [List.length_drop, ← hlength]
                simp
                omega
              have hrest := ih _ hdrop
                (fun p w hw => hlocal p w (hw.trans (List.drop_suffix n _)))
                (behind previous ((a :: u).take n)) rfl
              rw [replace_of_head? replacement hn hhead,
                replace_of_head? replacement hn (hfirst ▸ hhead),
                List.take_append_of_le_length hle, List.drop_append_of_le_length hle, hrest,
                List.append_assoc, ← behind_append, List.take_append_drop]

/-- Where nothing matches anywhere nothing is replaced. -/
theorem replace_eq_self {u : List α}
    (h : ∀ previous w, w <:+ u → r.lengths previous w = []) (previous : Option α) :
    replace r replacement previous u = u := by
  induction u generalizing previous with
  | nil => rfl
  | cons a u ih =>
      rw [replace_cons_of_nil replacement (h previous _ List.suffix_rfl),
        ih fun p w hw => h p w (hw.trans (List.suffix_cons a u))]

end Replace

end Regex

end SignalFxTracing.Lib
