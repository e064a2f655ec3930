import SignalFxTracing.Clr.Text
import Mathlib.Tactic.SplitIfs

/-!
# UTF-8 (`System.Text.Encoding.UTF8`)

`GetString` decodes well-formed sequences one after the other. The longest start
of a well-formed sequence that is not completed, or one byte that starts none,
becomes a replacement character.
-/

namespace SignalFxTracing.Clr

/-- The UTF-16 code units of a scalar value. -/
def utf16 (c : Char) : Text :=
  if c.toNat < 0x10000 then [c.toNat.toUInt16]
  else
    [(0xD800 + (c.toNat - 0x10000) / 0x400).toUInt16,
      (0xDC00 + (c.toNat - 0x10000) % 0x400).toUInt16]

/-- The string with these scalar values. -/
def ofChars (s : List Char) : Text := s.flatMap utf16

/-- `GetBytes` of a string with these scalar values. -/
def utf8 (s : List Char) : List UInt8 := s.flatMap String.utf8EncodeChar

def startsWithin (low high : UInt8) : List UInt8 → Bool
  | [] => false
  | b :: _ => low ≤ b && b ≤ high

/-- The least second byte behind a first one. -/
def leastSecond (b : UInt8) : UInt8 := if b = 0xE0 then 0xA0 else if b = 0xF0 then 0x90 else 0x80

/-- The greatest second byte behind a first one. -/
def greatestSecond (b : UInt8) : UInt8 :=
  if b = 0xED then 0x9F else if b = 0xF4 then 0x8F else 0xBF

/-- How many bytes one replacement character stands for, where no character can be read. -/
def invalidLength : List UInt8 → Nat
  | [] => 1
  | b :: rest =>
      if 0xE0 ≤ b && b ≤ 0xF4 && startsWithin (leastSecond b) (greatestSecond b) rest then
        if 0xF0 ≤ b && startsWithin 0x80 0xBF rest.tail then 3 else 2
      else 1

theorem invalidLength_pos (bytes : List UInt8) : 0 < invalidLength bytes := by
  cases bytes with
  | nil => exact Nat.one_pos
  | cons b rest =>
      rw [invalidLength]
      split_ifs <;> decide

/-- `GetString`. -/
def getString (bytes : List UInt8) : Text :=
  if _ : bytes = [] then []
  else
    match bytes.toByteArray.utf8DecodeChar? 0 with
    | some c => utf16 c ++ getString (bytes.drop c.utf8Size)
    | none => 0xFFFD :: getString (bytes.drop (invalidLength bytes))
termination_by bytes.length
decreasing_by
  · have hlength := List.length_pos_iff.mpr ‹¬ bytes = []›
    have hsize := c.utf8Size_pos
    rw [List.length_drop]
    omega
  · have hlength := List.length_pos_iff.mpr ‹¬ bytes = []›
    have hinvalid := invalidLength_pos bytes
    rw [List.length_drop]
    omega

section Characters

@[simp] theorem ofChars_nil : ofChars [] = [] := rfl

@[simp] theorem ofChars_cons (c : Char) (s : List Char) :
    ofChars (c :: s) = utf16 c ++ ofChars s := rfl

@[simp] theorem ofChars_append (s t : List Char) : ofChars (s ++ t) = ofChars s ++ ofChars t :=
  List.flatMap_append

@[simp] theorem utf8_nil : utf8 [] = [] := rfl

@[simp] theorem utf8_cons (c : Char) (s : List Char) :
    utf8 (c :: s) = String.utf8EncodeChar c ++ utf8 s := rfl

@[simp] theorem utf8_append (s t : List Char) : utf8 (s ++ t) = utf8 s ++ utf8 t :=
  List.flatMap_append

theorem getString_nil : getString [] = [] := by
  rw [getString, dif_pos rfl]

/-- A well-formed sequence is read as its character. -/
theorem getString_utf8EncodeChar_append (c : Char) (bytes : List UInt8) :
    getString (String.utf8EncodeChar c ++ bytes) = utf16 c ++ getString bytes := by
  have hne : String.utf8EncodeChar c ++ bytes ≠ [] := by
    intro h
    exact String.utf8EncodeChar_ne_nil (List.append_eq_nil_iff.mp h).1
  have hdecode : (String.utf8EncodeChar c ++ bytes).toByteArray.utf8DecodeChar? 0 = some c := by
    rw [List.toByteArray_append]
    exact ByteArray.utf8DecodeChar?_utf8EncodeChar_append
  rw [getString, dif_neg hne, hdecode]
  dsimp only
  rw [← String.length_utf8EncodeChar, List.drop_left]

/-- A string is read back before anything else. -/
theorem getString_utf8_append (s : List Char) (bytes : List UInt8) :
    getString (utf8 s ++ bytes) = ofChars s ++ getString bytes := by
  induction s with
  | nil => rfl
  | cons c s ih =>
      rw [utf8_cons, ofChars_cons, List.append_assoc, getString_utf8EncodeChar_append, ih,
        List.append_assoc]

theorem getString_utf8 (s : List Char) : getString (utf8 s) = ofChars s := by
  have h := getString_utf8_append s []
  rwa [List.append_nil, getString_nil, List.append_nil] at h

end Characters

section Ascii

variable {c : Char}

theorem utf8EncodeChar_of_lt (h : c.toNat < 0x80) :
    String.utf8EncodeChar c = [c.toNat.toUInt8] := by
  rw [String.utf8EncodeChar]
  exact if_pos (Nat.le_of_lt_succ h)

/-- No byte of another character is one of an ASCII character. -/
theorem le_of_mem_utf8EncodeChar (h : 0x80 ≤ c.toNat) {b : UInt8}
    (hb : b ∈ String.utf8EncodeChar c) : 0x80 ≤ b := by
  have hv : ¬ c.val.toNat ≤ 0x7F := by
    have : c.toNat = c.val.toNat := rfl
    omega
  have hother : ∀ n m k : Nat, 0x80 ≤ m → n < k → m + k ≤ 0x100 → 0x80 ≤ UInt8.ofNat (n + m) := by
    intro n m k hm hn hlt
    rw [UInt8.le_iff_toNat_le, UInt8.toNat_ofNat', Nat.mod_eq_of_lt (by omega)]
    exact Nat.le_add_left_of_le hm
  rw [String.utf8EncodeChar] at hb
  rw [if_neg hv] at hb
  split_ifs at hb
  · simp only [List.mem_cons, List.not_mem_nil, or_false] at hb
    rcases hb with rfl | rfl
    · exact hother _ 0xC0 0x20 (by decide) (Nat.mod_lt _ (by decide)) (by decide)
    · exact hother _ 0x80 0x40 (by decide) (Nat.mod_lt _ (by decide)) (by decide)
  · simp only [List.mem_cons, List.not_mem_nil, or_false] at hb
    rcases hb with rfl | rfl | rfl
    · exact hother _ 0xE0 0x10 (by decide) (Nat.mod_lt _ (by decide)) (by decide)
    · exact hother _ 0x80 0x40 (by decide) (Nat.mod_lt _ (by decide)) (by decide)
    · exact hother _ 0x80 0x40 (by decide) (Nat.mod_lt _ (by decide)) (by decide)
  · simp only [List.mem_cons, List.not_mem_nil, or_false] at hb
    rcases hb with rfl | rfl | rfl | rfl
    · exact hother _ 0xF0 0x08 (by decide) (Nat.mod_lt _ (by decide)) (by decide)
    · exact hother _ 0x80 0x40 (by decide) (Nat.mod_lt _ (by decide)) (by decide)
    · exact hother _ 0x80 0x40 (by decide) (Nat.mod_lt _ (by decide)) (by decide)
    · exact hother _ 0x80 0x40 (by decide) (Nat.mod_lt _ (by decide)) (by decide)

theorem utf16_of_lt (h : c.toNat < 0x80) : utf16 c = [c.toNat.toUInt16] :=
  if_pos (Nat.lt_trans h (by decide))

/-- No code unit of another character is one of an ASCII character. -/
theorem le_of_mem_utf16 (h : 0x80 ≤ c.toNat) {u : UInt16} (hu : u ∈ utf16 c) : 0x80 ≤ u := by
  have hother : ∀ n : Nat, 0x80 ≤ n → n < 0x10000 → 0x80 ≤ n.toUInt16 := by
    intro n hn hlt
    rw [UInt16.le_iff_toNat_le, UInt16.toNat_ofNat', Nat.mod_eq_of_lt hlt]
    exact hn
  have hmax : c.toNat < 0x110000 := by
    have hvalid := c.valid
    simp only [UInt32.isValidChar, Nat.isValidChar] at hvalid
    have : c.toNat = c.val.toNat := rfl
    omega
  rw [utf16] at hu
  split_ifs at hu with hbasic
  · obtain rfl := List.mem_singleton.mp hu
    exact hother _ h hbasic
  · simp only [List.mem_cons, List.not_mem_nil, or_false] at hu
    rcases hu with rfl | rfl
    · apply hother
      · omega
      · omega
    · apply hother
      · omega
      · omega

end Ascii

section Cuts

/-- The first bytes of a string are those of its first characters and bytes of one that is not
complete. -/
theorem exists_take_utf8 (n : Nat) (s : List Char) :
    ∃ t rest, (utf8 s).take n = utf8 t ++ rest ∧ t <+: s ∧ ∀ b ∈ rest, 0x80 ≤ b := by
  induction s generalizing n with
  | nil => exact ⟨[], [], by simp, List.nil_prefix, List.forall_mem_nil _⟩
  | cons c s ih =>
      by_cases hn : n < (String.utf8EncodeChar c).length
      · refine ⟨[], (String.utf8EncodeChar c).take n, ?_, List.nil_prefix, ?_⟩
        · rw [utf8_cons, List.take_append_of_le_length hn.le, utf8_nil, List.nil_append]
        · intro b hb
          by_cases hc : c.toNat < 0x80
          · rw [utf8EncodeChar_of_lt hc, List.length_singleton, Nat.lt_one_iff] at hn
            rw [hn, List.take_zero] at hb
            cases hb
          · exact le_of_mem_utf8EncodeChar (Nat.le_of_not_lt hc) (List.mem_of_mem_take hb)
      · obtain ⟨t, rest, hsplit, ht, hrest⟩ := ih (n - (String.utf8EncodeChar c).length)
        refine ⟨c :: t, rest, ?_, (List.prefix_cons_inj c).mpr ht, hrest⟩
        rw [utf8_cons, List.take_append, List.take_of_length_le (Nat.le_of_not_lt hn), hsplit,
          utf8_cons, List.append_assoc]

/-- Bytes of no ASCII character are not read as one. -/
theorem le_of_mem_getString {bytes : List UInt8} (h : ∀ b ∈ bytes, 0x80 ≤ b) {u : UInt16}
    (hu : u ∈ getString bytes) : 0x80 ≤ u := by
  induction bytes using getString.induct with
  | case1 =>
      rw [getString_nil] at hu
      cases hu
  | case2 bytes hbytes c hdecode ih =>
      rw [getString, dif_neg hbytes, hdecode] at hu
      obtain ⟨others, hothers⟩ := ByteArray.exists_of_utf8DecodeChar?_eq_some hdecode
      rcases List.mem_append.mp hu with hu | hu
      · refine le_of_mem_utf16 ?_ hu
        by_contra hc
        have hsplit : bytes = String.utf8EncodeChar c ++ others.data.toList := by
          simpa using congrArg (fun b : ByteArray => b.data.toList) hothers
        rw [utf8EncodeChar_of_lt (Nat.lt_of_not_le hc)] at hsplit
        have hle := h c.toNat.toUInt8 (hsplit ▸ List.mem_cons_self)
        rw [UInt8.le_iff_toNat_le, UInt8.toNat_ofNat', Nat.mod_eq_of_lt (by omega)] at hle
        exact hc hle
      · exact ih (fun b hb => h b (List.mem_of_mem_drop hb)) hu
  | case3 bytes hbytes hdecode ih =>
      rw [getString, dif_neg hbytes, hdecode] at hu
      rcases List.mem_cons.mp hu with rfl | hu
      · decide
      · exact ih (fun b hb => h b (List.mem_of_mem_drop hb)) hu

end Cuts

end SignalFxTracing.Clr
