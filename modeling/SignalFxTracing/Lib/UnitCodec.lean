import Mathlib.Data.Set.Basic
import Mathlib.Data.List.Basic

/-!
# Codes with a replacement for what cannot be read

A code writes a point as units. A text is read from its front: a unit at which no
point can be read is replaced by a point of its own. A text is a sequence of codes
exactly when nothing in it has to be replaced. What has been read in one code and
written in another can be brought back exactly when it consists of codes of points
that both codes have.
-/

namespace SignalFxTracing.Lib

/-- How a point is written, and what is read from the front of a text: the number of units and
the point. -/
structure UnitCodec (Unit Point : Type*) where
  encode : Point → List Unit
  decodeCheck : List Unit → Option (Nat × Point)

namespace UnitCodec

variable {U P : Type*} (c : UnitCodec U P)

/-- A text of points. -/
def encodeAll (points : List P) : List U := points.flatMap c.encode

/-- The points of a text; one unit is passed over where no point can be read. -/
def decode (replacement : P) : List U → List P
  | [] => []
  | u :: rest =>
      match c.decodeCheck (u :: rest) with
      | some (n, p) => p :: decode replacement (rest.drop (n - 1))
      | none => replacement :: decode replacement rest
termination_by text => text.length
decreasing_by
  · rw [List.length_drop, List.length_cons]
    omega
  · rw [List.length_cons]
    omega

/-- A point can be read wherever one is to be read. -/
def check : List U → Bool
  | [] => true
  | u :: rest =>
      match c.decodeCheck (u :: rest) with
      | some (n, _) => check (rest.drop (n - 1))
      | none => false
termination_by text => text.length
decreasing_by
  rw [List.length_drop, List.length_cons]
  omega

/-- Exactly what has been written for the points is read. -/
structure Lawful (points : Set P) : Prop where
  nonempty : ∀ p ∈ points, c.encode p ≠ []
  reads : ∀ p ∈ points, ∀ rest,
    c.decodeCheck (c.encode p ++ rest) = some ((c.encode p).length, p)
  canonical : ∀ text n p, c.decodeCheck text = some (n, p) →
    p ∈ points ∧ n = (c.encode p).length ∧ ∃ rest, text = c.encode p ++ rest

variable {c} {points : Set P} {replacement : P}

theorem decode_nil : c.decode replacement [] = [] := by
  rw [decode]

/-- A code is read as its point. -/
theorem Lawful.decode_encode_append (h : c.Lawful points) {p : P} (hp : p ∈ points)
    (rest : List U) :
    c.decode replacement (c.encode p ++ rest) = p :: c.decode replacement rest := by
  have hreads := h.reads p hp rest
  obtain ⟨u, us, hcode⟩ := List.exists_cons_of_ne_nil (h.nonempty p hp)
  rw [hcode, List.cons_append] at hreads ⊢
  rw [decode, hreads]
  dsimp only
  rw [List.length_cons, Nat.add_sub_cancel, List.drop_left]

/-- A text of points is read as these points. -/
theorem Lawful.decode_encodeAll (h : c.Lawful points) {ps : List P} (hps : ∀ p ∈ ps, p ∈ points) :
    c.decode replacement (c.encodeAll ps) = ps := by
  induction ps with
  | nil => exact decode_nil
  | cons p ps ih =>
      obtain ⟨hp, hps⟩ := List.forall_mem_cons.mp hps
      rw [encodeAll, List.flatMap_cons, h.decode_encode_append hp]
      exact congrArg (p :: ·) (ih hps)

/-- Nothing but points of the code and the replacement is read. -/
theorem Lawful.mem_of_mem_decode (h : c.Lawful points) {text : List U} {p : P}
    (hp : p ∈ c.decode replacement text) : p ∈ points ∨ p = replacement := by
  induction text using UnitCodec.decode.induct (c := c) with
  | case1 =>
      rw [decode_nil] at hp
      cases hp
  | case2 u rest n q hcheck ih =>
      rw [decode, hcheck] at hp
      rcases List.mem_cons.mp hp with rfl | hp
      · exact Or.inl (h.canonical _ _ _ hcheck).1
      · exact ih hp
  | case3 u rest hcheck ih =>
      rw [decode, hcheck] at hp
      rcases List.mem_cons.mp hp with rfl | hp
      · exact Or.inr rfl
      · exact ih hp

/-- The units of a point that has been read stand in the text. -/
theorem Lawful.mem_of_mem_encode (h : c.Lawful points) {text : List U} {p : P}
    (hp : p ∈ c.decode replacement text) : p = replacement ∨ ∀ u ∈ c.encode p, u ∈ text := by
  induction text using UnitCodec.decode.induct (c := c) with
  | case1 =>
      rw [decode_nil] at hp
      cases hp
  | case2 u rest n q hcheck ih =>
      rw [decode, hcheck] at hp
      rcases List.mem_cons.mp hp with rfl | hp
      · obtain ⟨-, -, after, htext⟩ := h.canonical _ _ _ hcheck
        rw [htext]
        exact Or.inr fun _ hu => List.mem_append_left _ hu
      · apply (ih hp).imp_right
        intro hsub u hu
        exact List.mem_cons_of_mem _ (List.mem_of_mem_drop (hsub u hu))
  | case3 u rest hcheck ih =>
      rw [decode, hcheck] at hp
      rcases List.mem_cons.mp hp with rfl | hp
      · exact Or.inl rfl
      · apply (ih hp).imp_right
        intro hsub u hu
        exact List.mem_cons_of_mem _ (hsub u hu)

/-- The texts in which nothing has to be replaced are those of points of the code. -/
theorem Lawful.check_iff (h : c.Lawful points) {text : List U} :
    c.check text = true ↔ ∃ ps, (∀ p ∈ ps, p ∈ points) ∧ text = c.encodeAll ps := by
  constructor
  · intro hcheck
    induction text using UnitCodec.check.induct (c := c) with
    | case1 => exact ⟨[], List.forall_mem_nil _, rfl⟩
    | case2 u rest n q hread ih =>
        rw [check, hread] at hcheck
        obtain ⟨hq, hn, after, htext⟩ := h.canonical _ _ _ hread
        obtain ⟨v, vs, hcode⟩ := List.exists_cons_of_ne_nil (h.nonempty q hq)
        have hrest : rest.drop (n - 1) = after := by
          rw [hcode, List.cons_append, List.cons.injEq] at htext
          rw [hn, hcode, List.length_cons, Nat.add_sub_cancel, htext.2, List.drop_left]
        obtain ⟨ps, hps, hafter⟩ := ih hcheck
        refine ⟨q :: ps, List.forall_mem_cons.mpr ⟨hq, hps⟩, ?_⟩
        rw [htext, encodeAll, List.flatMap_cons, ← hrest, hafter, encodeAll]
    | case3 u rest hread =>
        rw [check, hread] at hcheck
        cases hcheck
  · rintro ⟨ps, hps, rfl⟩
    induction ps with
    | nil =>
        rw [encodeAll, List.flatMap_nil, check]
    | cons p ps ih =>
        obtain ⟨hp, hps⟩ := List.forall_mem_cons.mp hps
        have hreads := h.reads p hp (c.encodeAll ps)
        obtain ⟨u, us, hcode⟩ := List.exists_cons_of_ne_nil (h.nonempty p hp)
        rw [encodeAll, List.flatMap_cons]
        rw [hcode, List.cons_append] at hreads ⊢
        rw [check, ← encodeAll, hreads]
        dsimp only
        rw [List.length_cons, Nat.add_sub_cancel, List.drop_left]
        exact ih hps

section Transcoding

variable {V : Type*} {d : UnitCodec V P} {common : Set P}

/-- What is read in one code, written in the other. -/
def transcode (c : UnitCodec U P) (d : UnitCodec V P) (replacement : P) (text : List U) : List V :=
  d.encodeAll (c.decode replacement text)

/-- Texts of points that both codes have are brought from one code to the other. -/
theorem Lawful.transcode_encodeAll (h : c.Lawful points) {ps : List P}
    (hps : ∀ p ∈ ps, p ∈ points) :
    c.transcode d replacement (c.encodeAll ps) = d.encodeAll ps := by
  rw [transcode, h.decode_encodeAll hps]

/-- A text of the smaller code comes back from the larger one exactly when nothing in it has to be
replaced. -/
theorem Lawful.transcode_transcode_iff_check (hc : c.Lawful points) (hd : d.Lawful common)
    (hsub : common ⊆ points) (hreplacement : replacement ∈ common) {text : List V} :
    c.transcode d replacement (d.transcode c replacement text) = text ↔ d.check text = true := by
  have hread : ∀ p ∈ d.decode replacement text, p ∈ common := by
    intro p hp
    rcases hd.mem_of_mem_decode hp with hp | rfl
    · exact hp
    · exact hreplacement
  have hback : c.transcode d replacement (d.transcode c replacement text) =
      d.encodeAll (d.decode replacement text) := by
    rw [transcode, transcode, hc.decode_encodeAll fun p hp => hsub (hread p hp)]
  rw [hback, hd.check_iff]
  constructor
  · exact fun heq => ⟨_, hread, heq.symm⟩
  · rintro ⟨ps, hps, rfl⟩
    rw [hd.decode_encodeAll hps]

end Transcoding

end UnitCodec

end SignalFxTracing.Lib
