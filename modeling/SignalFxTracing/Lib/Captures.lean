import Mathlib.Data.List.Infix
import Mathlib.Data.List.TakeWhile

/-!
# Patterns with captured groups

A pattern is a list of words and groups. At a position it has its matches in the
order in which a backtracking matcher finds them, each with the texts of its
groups and the elements behind it. A search takes the first match at the first
position that has one; a full match has nothing behind it.
-/

namespace SignalFxTracing.Lib.Captures

inductive Piece (α : Type*)
  | word (w : List α)
  /-- As many elements of a class as possible are tried first. -/
  | group (least : Nat) (most : Option Nat) (accepts : α → Bool)

variable {α : Type*}

/-- The numbers of elements that a group can read. -/
def groupLengths (least : Nat) (most : Option Nat) (accepts : α → Bool) (s : List α) : List Nat :=
  let run := (s.takeWhile accepts).length
  ((List.range (most.elim run (min run) + 1)).filter (least ≤ ·)).reverse

section Definitions

variable [DecidableEq α]

def matchesAt : List (Piece α) → List α → List (List (List α) × List α)
  | [], s => [([], s)]
  | .word w :: pieces, s => if w <+: s then matchesAt pieces (s.drop w.length) else []
  | .group least most accepts :: pieces, s =>
      (groupLengths least most accepts s).flatMap fun n =>
        (matchesAt pieces (s.drop n)).map fun (groups, behind) => (s.take n :: groups, behind)

def firstAt (pieces : List (Piece α)) (s : List α) : Option (List (List α)) :=
  (matchesAt pieces s).head?.map Prod.fst

/-- The groups of the first match in a list. -/
def search (pieces : List (Piece α)) : List α → Option (List (List α))
  | [] => firstAt pieces []
  | a :: s => (firstAt pieces (a :: s)).or (search pieces s)

/-- The groups of the first match of the whole list. -/
def fullMatch (pieces : List (Piece α)) (s : List α) : Option (List (List α)) :=
  ((matchesAt pieces s).find? fun m => m.2.isEmpty).map Prod.fst

end Definitions

/-- What a pattern matches, with the texts of its groups. -/
inductive Matches : List (Piece α) → List α → List (List α) → Prop
  | nil : Matches [] [] []
  | word {w u : List α} {pieces : List (Piece α)} {groups : List (List α)} :
      Matches pieces u groups → Matches (.word w :: pieces) (w ++ u) groups
  | group {least : Nat} {most : Option Nat} {accepts : α → Bool} {g u : List α}
      {pieces : List (Piece α)} {groups : List (List α)} : least ≤ g.length →
      (∀ bound ∈ most, g.length ≤ bound) → (∀ a ∈ g, accepts a = true) →
      Matches pieces u groups → Matches (.group least most accepts :: pieces) (g ++ u) (g :: groups)

/-- The number of groups of a pattern. -/
def groupCount : List (Piece α) → Nat
  | [] => 0
  | .word _ :: pieces => groupCount pieces
  | .group _ _ _ :: pieces => groupCount pieces + 1

theorem length_of_matches {pieces : List (Piece α)} {s : List α} {groups : List (List α)}
    (h : Matches pieces s groups) : groups.length = groupCount pieces := by
  induction h with
  | nil => rfl
  | word _ ih => exact ih
  | group _ _ _ _ ih => exact congrArg (· + 1) ih

section Members

variable {least n : Nat} {most : Option Nat} {accepts : α → Bool} {s : List α}

theorem mem_groupLengths_iff :
    n ∈ groupLengths least most accepts s ↔
      least ≤ n ∧ (∀ bound ∈ most, n ≤ bound) ∧ n ≤ (s.takeWhile accepts).length := by
  rw [groupLengths, List.mem_reverse, List.mem_filter, List.mem_range]
  cases most with
  | none =>
      simp
      omega
  | some bound =>
      simp
      omega

theorem le_length_of_mem_groupLengths (h : n ∈ groupLengths least most accepts s) :
    n ≤ s.length :=
  (mem_groupLengths_iff.mp h).2.2.trans (List.takeWhile_prefix accepts).length_le

/-- A group can read the elements of its class at the front. -/
theorem length_le_takeWhile_iff (g u : List α) :
    g.length ≤ ((g ++ u).takeWhile accepts).length ↔ ∀ a ∈ g, accepts a = true := by
  constructor
  · intro h a ha
    have hinitial : g <+: (g ++ u).takeWhile accepts :=
      List.prefix_of_prefix_length_le (List.prefix_append g u) (List.takeWhile_prefix accepts) h
    exact List.mem_takeWhile_imp (hinitial.subset ha)
  · intro h
    rw [List.takeWhile_append_of_pos h, List.length_append]
    exact Nat.le_add_right _ _

variable [DecidableEq α]

/-- The matches at a position are those of the beginnings of the list. -/
theorem mem_matchesAt_iff {pieces : List (Piece α)} {groups : List (List α)} {behind : List α} :
    (groups, behind) ∈ matchesAt pieces s ↔ ∃ u, s = u ++ behind ∧ Matches pieces u groups := by
  induction pieces generalizing s groups with
  | nil =>
      rw [matchesAt, List.mem_singleton, Prod.mk.injEq]
      constructor
      · rintro ⟨rfl, rfl⟩
        exact ⟨[], rfl, .nil⟩
      · rintro ⟨u, rfl, hmatches⟩
        cases hmatches
        exact ⟨rfl, rfl⟩
  | cons piece pieces ih =>
      cases piece with
      | word w =>
          rw [matchesAt]
          constructor
          · intro h
            split_ifs at h with hinitial
            · obtain ⟨rest, rfl⟩ := hinitial
              rw [List.drop_left] at h
              obtain ⟨u, rfl, hmatches⟩ := ih.mp h
              exact ⟨w ++ u, (List.append_assoc w u behind).symm, .word hmatches⟩
            · cases h
          · rintro ⟨_, rfl, hmatches⟩
            cases hmatches with
            | @word _ u _ _ hmatches =>
                rw [List.append_assoc, if_pos (List.prefix_append w (u ++ behind)), List.drop_left]
                exact ih.mpr ⟨u, rfl, hmatches⟩
      | group least most accepts =>
          rw [matchesAt]
          simp only [List.mem_flatMap, List.mem_map, Prod.mk.injEq, Prod.exists]
          constructor
          · rintro ⟨n, hn, groups, behind, hmem, rfl, rfl⟩
            obtain ⟨u, hdrop, hmatches⟩ := ih.mp hmem
            have hle := le_length_of_mem_groupLengths hn
            obtain ⟨hleast, hmost, hrun⟩ := mem_groupLengths_iff.mp hn
            have htake : (s.take n).length = n := List.length_take_of_le hle
            have hsplit : s = s.take n ++ s.drop n := (List.take_append_drop n s).symm
            have haccepts : ∀ a ∈ s.take n, accepts a = true := by
              apply (length_le_takeWhile_iff (s.take n) (s.drop n)).mp
              rw [← hsplit, htake]
              exact hrun
            refine ⟨s.take n ++ u, ?_, .group (htake.symm ▸ hleast)
              (fun bound hbound => htake.symm ▸ hmost bound hbound) haccepts hmatches⟩
            rw [List.append_assoc, ← hdrop]
            exact hsplit
          · rintro ⟨_, rfl, hmatches⟩
            cases hmatches with
            | @group _ _ _ g u _ groups hleast hmost haccepts hmatches =>
                refine ⟨g.length, ?_, groups, behind, ?_, ?_, rfl⟩
                · rw [List.append_assoc]
                  exact mem_groupLengths_iff.mpr
                    ⟨hleast, hmost, (length_le_takeWhile_iff g (u ++ behind)).mpr haccepts⟩
                · rw [List.append_assoc, List.drop_left]
                  exact ih.mpr ⟨u, rfl, hmatches⟩
                · rw [List.append_assoc, List.take_left]

end Members

section Separators

/-- The element is in no match of the piece. -/
def Piece.Excludes (c : α) : Piece α → Prop
  | word w => c ∉ w
  | group _ _ accepts => accepts c = false

instance [DecidableEq α] (c : α) (piece : Piece α) : Decidable (piece.Excludes c) :=
  match piece with
  | .word w => inferInstanceAs (Decidable (c ∉ w))
  | .group _ _ accepts => inferInstanceAs (Decidable (accepts c = false))

variable {c : α} {u v : List α}

theorem takeWhile_append_cons_of_neg {accepts : α → Bool} (h : accepts c = false) :
    (u ++ c :: v).takeWhile accepts = u.takeWhile accepts := by
  induction u with
  | nil => simp [h]
  | cons a u ih =>
      rw [List.cons_append, List.takeWhile_cons, List.takeWhile_cons, ih]

theorem prefix_append_cons_iff {w : List α} (h : c ∉ w) : w <+: u ++ c :: v ↔ w <+: u := by
  constructor
  · intro hinitial
    rcases List.prefix_or_prefix_of_prefix hinitial (List.prefix_append u (c :: v)) with hw | hw
    · exact hw
    · obtain ⟨t, rfl⟩ := hw
      have htail := (List.prefix_append_right_inj u).mp hinitial
      cases t with
      | nil => simp
      | cons b t =>
          obtain ⟨rfl, -⟩ := List.cons_prefix_cons.mp htail
          simp at h
  · intro hinitial
    exact hinitial.trans (List.prefix_append u (c :: v))

variable [DecidableEq α] {pieces : List (Piece α)}

/-- No match goes beyond an element that the pieces exclude. -/
theorem matchesAt_append (h : ∀ piece ∈ pieces, piece.Excludes c) :
    matchesAt pieces (u ++ c :: v) =
      (matchesAt pieces u).map fun (groups, behind) => (groups, behind ++ c :: v) := by
  induction pieces generalizing u with
  | nil => rfl
  | cons piece pieces ih =>
      have hpieces := fun u => @ih u fun piece hpiece => h piece (List.mem_cons_of_mem _ hpiece)
      have hpiece := h piece List.mem_cons_self
      cases piece with
      | word w =>
          rw [matchesAt, matchesAt]
          by_cases hinitial : w <+: u
          · rw [if_pos ((prefix_append_cons_iff hpiece).mpr hinitial), if_pos hinitial,
              List.drop_append_of_le_length hinitial.length_le, hpieces]
          · rw [if_neg (mt (prefix_append_cons_iff hpiece).mp hinitial), if_neg hinitial]
            rfl
      | group least most accepts =>
          have hlengths : groupLengths least most accepts (u ++ c :: v) =
              groupLengths least most accepts u := by
            rw [groupLengths, groupLengths, takeWhile_append_cons_of_neg hpiece]
          rw [matchesAt, matchesAt, hlengths, List.map_flatMap]
          refine List.flatMap_congr fun n hn => ?_
          have hle := le_length_of_mem_groupLengths hn
          rw [List.drop_append_of_le_length hle, List.take_append_of_le_length hle, hpieces,
            List.map_map, List.map_map]
          rfl

/-- A search goes on behind an element that the pieces exclude. -/
theorem search_append (h : ∀ piece ∈ pieces, piece.Excludes c) :
    search pieces (u ++ c :: v) = (search pieces u).or (search pieces v) := by
  have hfirst : ∀ u, firstAt pieces (u ++ c :: v) = firstAt pieces u := by
    intro u
    rw [firstAt, firstAt, matchesAt_append h, List.head?_map, Option.map_map]
    rfl
  induction u with
  | nil =>
      have hnil := hfirst []
      rw [List.nil_append] at hnil
      rw [List.nil_append, search, search, hnil]
  | cons a u ih =>
      rw [List.cons_append, search, search, ih, ← List.cons_append, hfirst, Option.or_assoc]

end Separators

section Words

variable [DecidableEq α] {pieces : List (Piece α)} {w u s : List α} {a : α}

/-- No match starts before the first element of the word. -/
theorem search_append_of_head? (hw : w.head? = some a) (hu : a ∉ u) :
    search (.word w :: pieces) (u ++ s) = search (.word w :: pieces) s := by
  induction u with
  | nil => rfl
  | cons b u ih =>
      have hinitial : ¬ w <+: b :: (u ++ s) := by
        cases w with
        | nil => cases hw
        | cons c w =>
            obtain rfl := Option.some.inj hw
            intro hinitial
            obtain ⟨rfl, -⟩ := List.cons_prefix_cons.mp hinitial
            exact hu List.mem_cons_self
      rw [List.cons_append, search, firstAt, matchesAt, if_neg hinitial,
        ih fun hmem => hu (List.mem_cons_of_mem b hmem)]
      rfl

/-- Nothing is found without an element of the word. -/
theorem search_eq_none_of_notMem (ha : a ∈ w) (hs : a ∉ s) :
    search (.word w :: pieces) s = none := by
  induction s with
  | nil =>
      have hinitial : ¬ w <+: [] := fun hinitial => List.not_mem_nil (hinitial.subset ha)
      rw [search, firstAt, matchesAt, if_neg hinitial]
      rfl
  | cons c s ih =>
      have hinitial : ¬ w <+: c :: s := fun hinitial => hs (hinitial.subset ha)
      rw [search, firstAt, matchesAt, if_neg hinitial,
        ih fun hmem => hs (List.mem_cons_of_mem c hmem)]
      rfl

end Words

section Definite

/-- Behind a group comes a word that starts with no element of its class, or the end. -/
def Definite : List (Piece α) → Prop
  | [] => True
  | .word _ :: pieces => Definite pieces
  | [.group _ _ _] => True
  | .group _ _ accepts :: .word (c :: w) :: pieces =>
      accepts c = false ∧ Definite (.word (c :: w) :: pieces)
  | _ => False

variable {pieces : List (Piece α)} {s : List α} {groups : List (List α)}

/-- The group reads all of the run when it may. -/
theorem exists_groupLengths_eq_cons {least : Nat} {most : Option Nat} {accepts : α → Bool}
    (hleast : least ≤ (s.takeWhile accepts).length)
    (hmost : ∀ bound ∈ most, (s.takeWhile accepts).length ≤ bound) :
    ∃ shorter, groupLengths least most accepts s = (s.takeWhile accepts).length :: shorter := by
  have htop : most.elim (s.takeWhile accepts).length (min (s.takeWhile accepts).length) =
      (s.takeWhile accepts).length := by
    cases most with
    | none => rfl
    | some bound => exact Nat.min_eq_left (hmost bound rfl)
  rw [groupLengths, htop, List.range_succ, List.filter_append, List.reverse_append]
  simp [hleast]

/-- What is matched behind a group does not start with an element of its class. -/
theorem takeWhile_behind_group {least : Nat} {most : Option Nat} {accepts : α → Bool}
    (h : Definite (.group least most accepts :: pieces)) (hmatches : Matches pieces s groups) :
    s.takeWhile accepts = [] := by
  cases hmatches with
  | nil => rfl
  | @word w u pieces groups _ =>
      cases w with
      | nil => exact h.elim
      | cons c w => simp [h.1]
  | group _ _ _ _ => exact h.elim

theorem Definite.tail {piece : Piece α} (h : Definite (piece :: pieces)) : Definite pieces := by
  cases piece with
  | word w => exact h
  | group least most accepts =>
      cases pieces with
      | nil => trivial
      | cons piece pieces =>
          cases piece with
          | word w =>
              cases w with
              | nil => exact h.elim
              | cons c w => exact h.2
          | group _ _ _ => exact h.elim

/-- A list with an element that the pieces exclude does not match. -/
theorem notMem_of_matches {c : α} (hmatches : Matches pieces s groups)
    (h : ∀ piece ∈ pieces, piece.Excludes c) : c ∉ s := by
  induction hmatches with
  | nil => exact List.not_mem_nil
  | word _ ih =>
      intro hc
      rcases List.mem_append.mp hc with hc | hc
      · exact h _ List.mem_cons_self hc
      · exact ih (fun piece hpiece => h piece (List.mem_cons_of_mem _ hpiece)) hc
  | @group least most accepts _ _ _ _ _ _ haccepts _ ih =>
      intro hc
      rcases List.mem_append.mp hc with hc | hc
      · have hexcludes : accepts c = false := h _ List.mem_cons_self
        rw [haccepts c hc] at hexcludes
        cases hexcludes
      · exact ih (fun piece hpiece => h piece (List.mem_cons_of_mem _ hpiece)) hc

variable [DecidableEq α]

/-- The match of the whole list is found first. -/
theorem head?_matchesAt (h : Definite pieces) (hmatches : Matches pieces s groups) :
    (matchesAt pieces s).head? = some (groups, []) := by
  induction hmatches with
  | nil => rfl
  | @word w u pieces groups _ ih =>
      rw [matchesAt, if_pos (List.prefix_append w u), List.drop_left]
      exact ih h.tail
  | @group least most accepts g u pieces groups hleast hmost haccepts hmatches ih =>
      have hrun : (g ++ u).takeWhile accepts = g := by
        rw [List.takeWhile_append_of_pos haccepts, takeWhile_behind_group h hmatches,
          List.append_nil]
      obtain ⟨shorter, hlengths⟩ := @exists_groupLengths_eq_cons α (g ++ u) least most accepts
        (by rwa [hrun]) (by rwa [hrun])
      rw [matchesAt, hlengths, hrun, List.flatMap_cons, List.drop_left, List.take_left,
        List.head?_append, List.head?_map, ih h.tail]
      rfl

theorem fullMatch_eq_some_iff (h : Definite pieces) :
    fullMatch pieces s = some groups ↔ Matches pieces s groups := by
  constructor
  · intro hfull
    obtain ⟨⟨groups', behind⟩, hfind, rfl⟩ := Option.map_eq_some_iff.mp hfull
    have hbehind : behind = [] := by simpa using List.find?_some hfind
    obtain ⟨u, rfl, hmatches⟩ := mem_matchesAt_iff.mp (List.mem_of_find?_eq_some hfind)
    rw [hbehind, List.append_nil]
    exact hmatches
  · intro hmatches
    obtain ⟨others, hothers⟩ := List.head?_eq_some_iff.mp (head?_matchesAt h hmatches)
    rw [fullMatch, hothers]
    rfl

/-- What a search finds is a match. -/
theorem exists_matches_of_search (h : search pieces s = some groups) :
    ∃ u, u <:+: s ∧ Matches pieces u groups := by
  have hfirst : ∀ {s}, firstAt pieces s = some groups → ∃ u, u <+: s ∧ Matches pieces u groups := by
    intro s hfirst
    obtain ⟨⟨groups', behind⟩, hhead, rfl⟩ := Option.map_eq_some_iff.mp hfirst
    obtain ⟨u, rfl, hmatches⟩ := mem_matchesAt_iff.mp (List.mem_of_head? hhead)
    exact ⟨u, List.prefix_append u behind, hmatches⟩
  induction s with
  | nil =>
      obtain ⟨u, hu, hmatches⟩ := hfirst h
      exact ⟨u, hu.isInfix, hmatches⟩
  | cons a s ih =>
      rcases Option.or_eq_some_iff.mp h with h | ⟨-, h⟩
      · obtain ⟨u, hu, hmatches⟩ := hfirst h
        exact ⟨u, hu.isInfix, hmatches⟩
      · obtain ⟨u, hu, hmatches⟩ := ih h
        exact ⟨u, hu.trans (List.suffix_cons a s).isInfix, hmatches⟩

theorem length_of_search (h : search pieces s = some groups) :
    groups.length = groupCount pieces := by
  obtain ⟨_, -, hmatches⟩ := exists_matches_of_search h
  exact length_of_matches hmatches

/-- Where the whole list matches, the search gives its groups. -/
theorem search_of_matches (h : Definite pieces) (hmatches : Matches pieces s groups) :
    search pieces s = some groups := by
  have hfirst : firstAt pieces s = some groups := by
    rw [firstAt, head?_matchesAt h hmatches]
    rfl
  cases s with
  | nil => rw [search, hfirst]
  | cons a s =>
      rw [search, hfirst]
      rfl

end Definite

end SignalFxTracing.Lib.Captures
