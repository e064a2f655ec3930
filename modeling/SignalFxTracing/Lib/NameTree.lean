import Mathlib.Data.List.Basic

/-!
# Names with arguments in angle brackets

A tree is written as its name, for a leaf with empty square brackets behind
it, otherwise with the arguments in angle brackets and commas between them.
Names may hold balanced angle brackets themselves, as long as none opens
behind a digit; the name of a node ends in a digit. Then the text of a tree
tells the tree, and where it ends.
-/

namespace SignalFxTracing.Lib

inductive NameTree
  | leaf (name : List UInt16) (brackets : Nat)
  | node (name : List UInt16) (arg : NameTree) (args : List NameTree)

namespace NameTree

abbrev openAngle : UInt16 := 0x3C
abbrev closeAngle : UInt16 := 0x3E
abbrev comma : UInt16 := 0x2C
abbrev space : UInt16 := 0x20
abbrev openSquare : UInt16 := 0x5B
abbrev closeSquare : UInt16 := 0x5D

def isDigit (c : UInt16) : Bool := 0x30 ≤ c && c ≤ 0x39

/-- Pairs of square brackets. -/
def squares (n : Nat) : List UInt16 := (List.replicate n [openSquare, closeSquare]).flatten

mutual

/-- The text of a tree. -/
def render : NameTree → List UInt16
  | leaf name brackets => name ++ squares brackets
  | node name arg args =>
      name ++ openAngle :: (render arg ++ (renderMore args ++ [closeAngle]))

/-- The text of the arguments behind the first. -/
def renderMore : List NameTree → List UInt16
  | [] => []
  | t :: ts => comma :: space :: (render t ++ renderMore ts)

end

/-- Induction over a tree and its arguments. -/
theorem induct {P : NameTree → Prop} (hleaf : ∀ name brackets, P (leaf name brackets))
    (hnode : ∀ name arg args, P arg → (∀ t ∈ args, P t) → P (node name arg args)) :
    ∀ t, P t :=
  @NameTree.rec P (fun ts => ∀ t ∈ ts, P t) hleaf (fun name arg args => hnode name arg args)
    (fun _ h => absurd h List.not_mem_nil)
    (fun _ _ ht hts _ hmem => (List.mem_cons.mp hmem).elim (fun h => h ▸ ht) (hts _))

section Names

/-- A name whose angle brackets are balanced and do not open behind a digit, without commas and
square brackets; `depth` brackets are open before it. -/
def plainFrom : Nat → Bool → List UInt16 → Bool
  | depth, _, [] => depth == 0
  | depth, digit, c :: name =>
      if c = comma ∨ c = openSquare then false
      else if c = openAngle then !digit && plainFrom (depth + 1) false name
      else if c = closeAngle then
        match depth with
        | 0 => false
        | depth + 1 => plainFrom depth false name
      else plainFrom depth (isDigit c) name

/-- The longest name at the start of a text. -/
def scanFrom : Nat → Bool → List UInt16 → List UInt16 × List UInt16
  | _, _, [] => ([], [])
  | depth, digit, c :: rest =>
      if c = comma ∨ c = openSquare then ([], c :: rest)
      else if c = openAngle then
        if digit then ([], c :: rest)
        else ((scanFrom (depth + 1) false rest).map (c :: ·) id)
      else if c = closeAngle then
        match depth with
        | 0 => ([], c :: rest)
        | depth + 1 => ((scanFrom depth false rest).map (c :: ·) id)
      else ((scanFrom depth (isDigit c) rest).map (c :: ·) id)

/-- A text that no name goes on into, `digit` telling whether the name ends in a digit. -/
def Stops (digit : Bool) : List UInt16 → Prop
  | [] => True
  | c :: _ => c = comma ∨ c = openSquare ∨ c = closeAngle ∨ (c = openAngle ∧ digit = true)

/-- Whether the last character of a name is a digit. -/
def endsInDigit : Bool → List UInt16 → Bool
  | digit, [] => digit
  | _, c :: name => endsInDigit (isDigit c) name

theorem scanFrom_stop {digit : Bool} {rest : List UInt16} (h : Stops digit rest) :
    scanFrom 0 digit rest = ([], rest) := by
  cases rest with
  | nil => rfl
  | cons c rest =>
      rcases h with rfl | rfl | rfl | ⟨rfl, rfl⟩
      all_goals rfl

/-- A plain name is what is scanned, up to a text that stops it. -/
theorem scanFrom_append {depth : Nat} {digit : Bool} {name rest : List UInt16}
    (hname : plainFrom depth digit name = true) (hrest : Stops (endsInDigit digit name) rest) :
    scanFrom depth digit (name ++ rest) = (name, rest) := by
  induction name generalizing depth digit with
  | nil =>
      obtain rfl : depth = 0 := by simpa [plainFrom] using hname
      exact scanFrom_stop hrest
  | cons c name ih =>
      simp only [plainFrom] at hname
      simp only [List.cons_append, scanFrom]
      split_ifs at hname ⊢ with hdelimiter hopen hdigit hclose
      · simp [hdigit] at hname
      · subst hopen
        have hplain : plainFrom (depth + 1) false name = true := by
          simpa [hdigit] using hname
        rw [ih hplain hrest]
        rfl
      · subst hclose
        cases depth with
        | zero => cases hname
        | succ depth =>
            dsimp only at hname ⊢
            rw [ih hname hrest]
            rfl
      · rw [ih hname hrest]
        rfl

end Names

section Plain

mutual

/-- The names of a tree are plain, those of its nodes end in digits. -/
def Plain : NameTree → Prop
  | leaf name _ => plainFrom 0 false name = true
  | node name arg args =>
      plainFrom 0 false name = true ∧ endsInDigit false name = true ∧ Plain arg ∧ AllPlain args

def AllPlain : List NameTree → Prop
  | [] => True
  | t :: ts => Plain t ∧ AllPlain ts

end

/-- A text that no tree goes on into. -/
def Ends : List UInt16 → Prop
  | [] => True
  | c :: _ => c = comma ∨ c = closeAngle

theorem Ends.stops {rest : List UInt16} (h : Ends rest) (digit : Bool) : Stops digit rest := by
  cases rest with
  | nil => trivial
  | cons c rest =>
      rcases h with h | h
      · exact Or.inl h
      · exact Or.inr (Or.inr (Or.inl h))

theorem squares_append_stops {n : Nat} {rest : List UInt16} (h : Ends rest) (digit : Bool) :
    Stops digit (squares n ++ rest) := by
  cases n with
  | zero => exact h.stops digit
  | succ n => exact Or.inr (Or.inl rfl)

/-- Behind the name of a tree. -/
def behindName : NameTree → List UInt16
  | leaf _ brackets => squares brackets
  | node _ arg args => openAngle :: (render arg ++ (renderMore args ++ [closeAngle]))

def name : NameTree → List UInt16
  | leaf name _ => name
  | node name _ _ => name

theorem scan_render {t : NameTree} (ht : t.Plain) {rest : List UInt16} (hrest : Ends rest) :
    scanFrom 0 false (t.render ++ rest) = (t.name, t.behindName ++ rest) := by
  cases t with
  | leaf name brackets =>
      rw [Plain] at ht
      rw [render, List.append_assoc]
      exact scanFrom_append ht (squares_append_stops hrest _)
  | node name arg args =>
      rw [Plain] at ht
      rw [render, List.append_assoc]
      exact scanFrom_append ht.1 (Or.inr (Or.inr (Or.inr ⟨rfl, ht.2.1⟩)))

theorem squares_append_injective {n m : Nat} {rest rest' : List UInt16} (hrest : Ends rest)
    (hrest' : Ends rest') (h : squares n ++ rest = squares m ++ rest') :
    n = m ∧ rest = rest' := by
  induction n generalizing m with
  | zero =>
      cases m with
      | zero => exact ⟨rfl, h⟩
      | succ m =>
          obtain rfl : rest = _ := h
          rcases hrest with hrest | hrest
          · cases hrest
          · cases hrest
  | succ n ih =>
      cases m with
      | zero =>
          obtain rfl : _ = rest' := h
          rcases hrest' with hrest' | hrest'
          · cases hrest'
          · cases hrest'
      | succ m =>
          obtain ⟨rfl, rfl⟩ := ih (List.cons.inj (List.cons.inj h).2).2
          exact ⟨rfl, rfl⟩

/-- Where a leaf stands, no arguments open. -/
theorem squares_append_ne_openAngle {n : Nat} {rest text : List UInt16} (hrest : Ends rest) :
    squares n ++ rest ≠ openAngle :: text := by
  intro h
  have hstops := squares_append_stops (n := n) hrest false
  rw [h] at hstops
  rcases hstops with hstops | hstops | hstops | hstops
  · cases hstops
  · cases hstops
  · cases hstops
  · cases hstops.2

theorem ends_renderMore (ts : List NameTree) (rest : List UInt16) :
    Ends (renderMore ts ++ closeAngle :: rest) := by
  cases ts with
  | nil => exact Or.inr rfl
  | cons t ts => exact Or.inl rfl

/-- The arguments behind the first, when the text of each of them tells it. -/
theorem renderMore_append_injective {ts us : List NameTree} {rest rest' : List UInt16}
    (ih : ∀ t ∈ ts, ∀ u r s, t.Plain → u.Plain → Ends r → Ends s →
      t.render ++ r = u.render ++ s → t = u ∧ r = s)
    (hts : AllPlain ts) (hus : AllPlain us)
    (h : renderMore ts ++ closeAngle :: rest = renderMore us ++ closeAngle :: rest') :
    ts = us ∧ rest = rest' := by
  induction ts generalizing us with
  | nil =>
      cases us with
      | nil => exact ⟨rfl, (List.cons.inj h).2⟩
      | cons u us => exact absurd (List.cons.inj h).1 (by decide)
  | cons t ts ihts =>
      cases us with
      | nil => exact absurd (List.cons.inj h).1 (by decide)
      | cons u us =>
          rw [AllPlain] at hts hus
          simp only [renderMore, List.cons_append, List.append_assoc, List.cons.injEq,
            true_and] at h
          obtain ⟨rfl, hrest⟩ := ih t List.mem_cons_self u _ _ hts.1 hus.1
            (ends_renderMore ts rest) (ends_renderMore us rest') h
          obtain ⟨rfl, hbehind⟩ :=
            ihts (fun t ht => ih t (List.mem_cons_of_mem _ ht)) hts.2 hus.2 hrest
          exact ⟨rfl, hbehind⟩

/-- The text of a tree with plain names tells the tree, and where it ends. -/
theorem render_append_injective {t : NameTree} : ∀ {u : NameTree} {rest rest' : List UInt16},
    t.Plain → u.Plain → Ends rest → Ends rest' →
      t.render ++ rest = u.render ++ rest' → t = u ∧ rest = rest' := by
  induction t using induct with
  | hleaf name brackets =>
      intro u rest rest' ht hu hrest hrest' h
      have hscan := scan_render hu hrest'
      rw [← h, scan_render ht hrest, Prod.mk.injEq] at hscan
      obtain ⟨rfl, hbehind⟩ := hscan
      cases u with
      | leaf name brackets' =>
          obtain ⟨rfl, rfl⟩ := squares_append_injective hrest hrest' hbehind
          exact ⟨rfl, rfl⟩
      | node name arg args => exact absurd hbehind (squares_append_ne_openAngle hrest)
  | hnode name arg args iharg ihargs =>
      intro u rest rest' ht hu hrest hrest' h
      have hscan := scan_render hu hrest'
      rw [← h, scan_render ht hrest, Prod.mk.injEq] at hscan
      obtain ⟨rfl, hbehind⟩ := hscan
      cases u with
      | leaf name brackets => exact absurd hbehind.symm (squares_append_ne_openAngle hrest')
      | node name arg' args' =>
          rw [Plain] at ht hu
          simp only [behindName, List.cons_append, List.append_assoc, List.cons.injEq,
            true_and, List.nil_append] at hbehind
          obtain ⟨rfl, hmore⟩ := iharg ht.2.2.1 hu.2.2.1
            (ends_renderMore args rest) (ends_renderMore args' rest') hbehind
          obtain ⟨rfl, hrest⟩ := renderMore_append_injective
            (fun t hmem u r s hpt hpu hr hs => ihargs t hmem hpt hpu hr hs)
            ht.2.2.2 hu.2.2.2 hmore
          exact ⟨rfl, hrest⟩

theorem render_injective {t u : NameTree} (ht : t.Plain) (hu : u.Plain)
    (h : t.render = u.render) : t = u := by
  have hends : Ends [] := trivial
  have hrender : t.render ++ [] = u.render ++ [] := by rw [h]
  exact (render_append_injective ht hu hends hends hrender).1

end Plain

end NameTree

end SignalFxTracing.Lib
