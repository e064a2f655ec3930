import Mathlib.Data.List.Chain

/-!
# JSON texts

A JSON text as a tree that keeps its layout. The strings of a tree may carry
anything from which their contents can be read, so that one tree can stand for
several texts. To write a tree is to write plain text and strings one after the
other: each string has the plain text that stands between it and the one before.
-/

namespace SignalFxTracing.Lib.JsonText

/-- The blanks of JSON. -/
def isBlank (c : Char) : Bool := c == ' ' || c == '\t' || c == '\n' || c == '\r'

structure Blanks where
  chars : List Char
  blank : ∀ c ∈ chars, isBlank c = true

/-- A character of a number or of `true`, `false` or `null`. -/
def isAtomChar (c : Char) : Bool := c.isAlphanum || c == '+' || c == '-' || c == '.'

/-- A number or a literal; which texts are numbers does not matter. -/
structure Atom where
  chars : List Char
  ne_nil : chars ≠ []
  isAtom : ∀ c ∈ chars, isAtomChar c = true

def isHexDigit (c : Char) : Bool :=
  c.isDigit || ('a' ≤ c && c ≤ 'f') || ('A' ≤ c && c ≤ 'F')

/-- What stands between the quotes of a string. -/
inductive IsContent : List Char → Prop
  | nil : IsContent []
  | plain {c : Char} {rest : List Char} :
      c ≠ '"' → c ≠ '\\' → 0x20 ≤ c.toNat → IsContent rest → IsContent (c :: rest)
  | escape {c : Char} {rest : List Char} :
      c ∈ ['"', '\\', '/', 'b', 'f', 'n', 'r', 't'] → IsContent rest → IsContent ('\\' :: c :: rest)
  | unicode {digits rest : List Char} :
      digits.length = 4 → (∀ c ∈ digits, isHexDigit c = true) → IsContent rest →
      IsContent ('\\' :: 'u' :: (digits ++ rest))

structure Content where
  chars : List Char
  isContent : IsContent chars

universe u

mutual

/-- A value. -/
inductive Json (σ : Type u)
  | atom (atom : Atom)
  | string (string : σ)
  | emptyArray (inside : Blanks)
  | array (before : Blanks) (first : Json σ) (after : Blanks) (more : Elements σ)
  | emptyObject (inside : Blanks)
  | object (before : Blanks) (key : σ) (between beforeValue : Blanks) (first : Json σ)
      (after : Blanks) (more : Members σ)

/-- The elements of an array behind the first one. -/
inductive Elements (σ : Type u)
  | nil
  | cons (before : Blanks) (value : Json σ) (after : Blanks) (more : Elements σ)

/-- The members of an object behind the first one. -/
inductive Members (σ : Type u)
  | nil
  | cons (before : Blanks) (key : σ) (between beforeValue : Blanks) (value : Json σ)
      (after : Blanks) (more : Members σ)

end

/-- What a string is in a text. -/
inductive Role (σ : Type u)
  /-- An element of an array, or the whole text. -/
  | element
  | key
  /-- The value of a member. -/
  | value (key : σ)

/-- A string with the plain text before it. -/
structure Placed (σ : Type u) where
  lead : List Char
  role : Role σ
  string : σ

/-- What is written: strings, and plain text behind the last one. -/
structure Written (σ : Type u) where
  strings : List (Placed σ)
  rest : List Char

namespace Written

variable {σ : Type u}

def plain (text : List Char) (w : Written σ) : Written σ := { w with rest := w.rest ++ text }

def string (role : Role σ) (s : σ) (w : Written σ) : Written σ where
  strings := w.strings ++ [⟨w.rest, role, s⟩]
  rest := []

/-- The key of a member and the colon. -/
def key (before : Blanks) (key : σ) (between beforeValue : Blanks) (w : Written σ) : Written σ :=
  (((w.plain before.chars).string .key key).plain (between.chars ++ [':'])).plain beforeValue.chars

/-- The text, for contents of the strings. -/
def text (content : σ → List Char) (w : Written σ) : List Char :=
  (w.strings.flatMap fun placed => placed.lead ++ '"' :: (content placed.string ++ ['"'])) ++ w.rest

end Written

section Write

variable {σ : Type u}

mutual

/-- Writing a value. -/
def Json.write (role : Role σ) : Json σ → Written σ → Written σ
  | .atom atom, w => w.plain atom.chars
  | .string s, w => w.string role s
  | .emptyArray inside, w => w.plain ('[' :: inside.chars ++ [']'])
  | .array before first after more, w =>
      (more.write ((first.write .element ((w.plain ['[']).plain before.chars)).plain
        after.chars)).plain [']']
  | .emptyObject inside, w => w.plain ('{' :: inside.chars ++ ['}'])
  | .object before key between beforeValue first after more, w =>
      (more.write ((first.write (.value key)
        ((w.plain ['{']).key before key between beforeValue)).plain after.chars)).plain ['}']

def Elements.write : Elements σ → Written σ → Written σ
  | .nil, w => w
  | .cons before value after more, w =>
      more.write ((value.write .element ((w.plain [',']).plain before.chars)).plain after.chars)

def Members.write : Members σ → Written σ → Written σ
  | .nil, w => w
  | .cons before key between beforeValue value after more, w =>
      more.write ((value.write (.value key)
        ((w.plain [',']).key before key between beforeValue)).plain after.chars)

end

end Write

/-- A JSON text. -/
structure Document (σ : Type u) where
  before : Blanks
  value : Json σ
  after : Blanks

def Document.write {σ : Type u} (document : Document σ) : Written σ :=
  (document.value.write .element ⟨[], document.before.chars⟩).plain document.after.chars

section Order

variable {σ : Type u}

/-- A character that stands outside the strings. -/
def isPlainChar (c : Char) : Bool :=
  isBlank c || isAtomChar c || c ∈ ['[', ']', '{', '}', ':', ',']

def IsPlain (text : List Char) : Prop := ∀ c ∈ text, isPlainChar c = true

def Placed.IsValue (placed : Placed σ) : Prop := ∃ key, placed.role = .value key

/-- What stands between a string and one that is not its own value or the key of the next member
of the same object. -/
inductive Leads : Placed σ → List Char → Prop
  | nested {a : Placed σ} {between : Blanks} {tail : List Char} :
      a.role = .key → (∃ c ∈ tail, isBlank c = false) → Leads a (between.chars ++ ':' :: tail)
  | closed {a : Placed σ} {between : Blanks} {tail : List Char} :
      a.IsValue → Leads a (between.chars ++ '}' :: tail)
  | next {a : Placed σ} {between : Blanks} {c : Char} {tail : List Char} :
      a.role = .element → c = ',' ∨ c = ']' → Leads a (between.chars ++ c :: tail)

/-- How a string stands behind another one. -/
inductive Follows : Placed σ → Placed σ → Prop
  | value {a b : Placed σ} {between beforeValue : Blanks} :
      a.role = .key → b.role = .value a.string →
      b.lead = between.chars ++ ':' :: beforeValue.chars → Follows a b
  | nextKey {a b : Placed σ} {between : Blanks} {tail : List Char} :
      a.IsValue → b.role = .key → b.lead = between.chars ++ ',' :: tail → Follows a b
  | other {a b : Placed σ} : Leads a b.lead → ¬ b.IsValue → Follows a b

/-- The strings follow each other, with plain text between them. -/
structure Written.Sound (w : Written σ) : Prop where
  chain : w.strings.IsChain Follows
  first : ∀ a ∈ w.strings.head?, ¬ a.IsValue
  lead : ∀ a ∈ w.strings, IsPlain a.lead
  rest : IsPlain w.rest

namespace Written

variable {w : Written σ}

/-- A string that is not the value of a key before it may come next. -/
def Open (w : Written σ) : Prop := ∀ a ∈ w.strings.getLast?, Leads a w.rest

/-- The key of the next member may come next. -/
def OpenForKey (w : Written σ) : Prop :=
  w.Open ∨ ∃ a ∈ w.strings.getLast?, a.IsValue ∧
    ∃ (between : Blanks) (tail : List Char), w.rest = between.chars ++ ',' :: tail

/-- A value may come next. -/
def Ready (w : Written σ) : Role σ → Prop
  | .element | .key => w.Open
  | .value key => ∃ a ∈ w.strings.getLast?, a.role = .key ∧ a.string = key ∧
      ∃ between beforeValue : Blanks, w.rest = between.chars ++ ':' :: beforeValue.chars

/-- A value was written last: a string of a kind, or something else. -/
def Done (kind : Placed σ → Prop) (w : Written σ) : Prop :=
  w.Open ∨ ∃ a ∈ w.strings.getLast?, kind a ∧ ∀ c ∈ w.rest, isBlank c = true

theorem Open.plain (h : w.Open) (text : List Char) : (w.plain text).Open := by
  intro a ha
  have hleads := h a ha
  change Leads a (w.rest ++ text)
  generalize w.rest = rest at hleads ⊢
  cases hleads with
  | nested hkey hblank =>
      obtain ⟨c, hc, hblank⟩ := hblank
      rw [List.append_assoc]
      exact .nested hkey ⟨c, List.mem_append_left text hc, hblank⟩
  | closed hvalue =>
      rw [List.append_assoc]
      exact .closed hvalue
  | next helement hc =>
      rw [List.append_assoc]
      exact .next helement hc

theorem OpenForKey.plain (h : w.OpenForKey) (text : List Char) : (w.plain text).OpenForKey := by
  rcases h with h | ⟨a, ha, hvalue, between, tail, hrest⟩
  · exact Or.inl (h.plain text)
  · refine Or.inr ⟨a, ha, hvalue, between, tail ++ text, ?_⟩
    change w.rest ++ text = _
    rw [hrest, List.append_assoc]
    rfl

/-- Behind something that is not blank no value of the key is to come. -/
theorem Ready.plain {role : Role σ} (h : w.Ready role) {text : List Char}
    (htext : ∃ c ∈ text, isBlank c = false) : (w.plain text).Open := by
  cases role with
  | element => exact Open.plain h text
  | key => exact Open.plain h text
  | value key =>
      obtain ⟨a, ha, hkey, -, between, beforeValue, hrest⟩ := h
      intro b hb
      obtain rfl : a = b := Option.some.inj (ha.symm.trans hb)
      obtain ⟨c, hc, hblank⟩ := htext
      change Leads a (w.rest ++ text)
      rw [hrest, List.append_assoc]
      exact .nested hkey ⟨c, List.mem_append_right _ hc, hblank⟩

theorem Done.plain_blanks {kind : Placed σ → Prop} (h : w.Done kind) (blanks : Blanks) :
    (w.plain blanks.chars).Done kind := by
  rcases h with h | ⟨a, ha, hkind, hblank⟩
  · exact Or.inl (h.plain _)
  · refine Or.inr ⟨a, ha, hkind, ?_⟩
    intro c hc
    rcases List.mem_append.mp hc with hc | hc
    · exact hblank c hc
    · exact blanks.blank c hc

theorem Done.mono {kind other : Placed σ → Prop} (h : w.Done kind) (hkind : ∀ a, kind a → other a) :
    w.Done other := by
  rcases h with h | ⟨a, ha, ha', hblank⟩
  · exact Or.inl h
  · exact Or.inr ⟨a, ha, hkind a ha', hblank⟩

theorem Done.plain_element {c : Char} (h : w.Done fun a => a.role = .element)
    (hc : c = ',' ∨ c = ']') : (w.plain [c]).Open := by
  rcases h with h | ⟨a, ha, helement, hblank⟩
  · exact h.plain _
  · intro b hb
    obtain rfl : a = b := Option.some.inj (ha.symm.trans hb)
    exact @Leads.next _ a ⟨w.rest, hblank⟩ c [] helement hc

theorem Done.plain_brace (h : w.Done Placed.IsValue) : (w.plain ['}']).Open := by
  rcases h with h | ⟨a, ha, hvalue, hblank⟩
  · exact h.plain _
  · intro b hb
    obtain rfl : a = b := Option.some.inj (ha.symm.trans hb)
    exact @Leads.closed _ a ⟨w.rest, hblank⟩ [] hvalue

theorem Done.plain_comma (h : w.Done Placed.IsValue) : (w.plain [',']).OpenForKey := by
  rcases h with h | ⟨a, ha, hvalue, hblank⟩
  · exact Or.inl (h.plain _)
  · exact Or.inr ⟨a, ha, hvalue, ⟨w.rest, hblank⟩, [], rfl⟩

theorem Sound.plain (h : w.Sound) {text : List Char} (htext : IsPlain text) :
    (w.plain text).Sound where
  chain := h.chain
  first := h.first
  lead := h.lead
  rest := List.forall_mem_append.mpr ⟨h.rest, htext⟩

theorem getLast?_string (role : Role σ) (s : σ) (w : Written σ) :
    (w.string role s).strings.getLast? = some ⟨w.rest, role, s⟩ := List.getLast?_concat

theorem Sound.string_of_follows (h : w.Sound) {role : Role σ} {s : σ}
    (hfollows : ∀ a ∈ w.strings.getLast?, Follows a ⟨w.rest, role, s⟩)
    (hrole : w.strings = [] → ∀ key, role ≠ .value key) : (w.string role s).Sound := by
  refine ⟨?_, ?_, ?_, List.forall_mem_nil _⟩
  · refine List.isChain_append.mpr ⟨h.chain, List.isChain_singleton _, ?_⟩
    intro a ha b hb
    obtain rfl := Option.some.inj hb
    exact hfollows a ha
  · intro a ha
    cases hstrings : w.strings with
    | cons b others =>
        apply h.first a
        rw [Written.string, hstrings] at ha
        rw [hstrings]
        exact ha
    | nil =>
        rw [Written.string, hstrings] at ha
        obtain rfl := Option.some.inj ha
        rintro ⟨key, hkey⟩
        exact hrole hstrings key hkey
  · exact List.forall_mem_append.mpr ⟨h.lead, List.forall_mem_singleton.mpr h.rest⟩

/-- A string may come where a value is due. -/
theorem Sound.string (h : w.Sound) {role : Role σ} (hready : w.Ready role) (s : σ) :
    (w.string role s).Sound := by
  apply h.string_of_follows
  · intro a ha
    cases role with
    | element => exact .other (hready a ha) nofun
    | key => exact .other (hready a ha) nofun
    | value key =>
        obtain ⟨b, hb, hkey, rfl, between, beforeValue, hrest⟩ := hready
        obtain rfl : b = a := Option.some.inj (hb.symm.trans ha)
        exact .value hkey rfl hrest
  · rintro hnil key rfl
    obtain ⟨a, ha, -⟩ := hready
    rw [hnil] at ha
    cases ha

theorem isPlain_blanks (blanks : Blanks) : IsPlain blanks.chars := by
  intro c hc
  rw [isPlainChar, blanks.blank c hc, Bool.true_or, Bool.true_or]

theorem isPlain_singleton {c : Char} (h : isPlainChar c = true) : IsPlain [c] :=
  List.forall_mem_singleton.mpr h

theorem isPlain_append {text other : List Char} (h : IsPlain text) (hother : IsPlain other) :
    IsPlain (text ++ other) :=
  List.forall_mem_append.mpr ⟨h, hother⟩

/-- Behind the key of a member and its colon the value is due. -/
theorem Sound.key (h : w.Sound) (hopen : w.OpenForKey) (before : Blanks) (key : σ)
    (between beforeValue : Blanks) :
    (w.key before key between beforeValue).Sound ∧
      (w.key before key between beforeValue).Ready (.value key) := by
  have hbefore := hopen.plain before.chars
  have hkey : ((w.plain before.chars).string .key key).Sound := by
    refine (h.plain (isPlain_blanks before)).string_of_follows ?_ (fun _ _ => nofun)
    intro a ha
    rcases hbefore with hopen | ⟨b, hb, hvalue, blanks, tail, hrest⟩
    · exact .other (hopen a ha) nofun
    · obtain rfl : b = a := Option.some.inj (hb.symm.trans ha)
      exact .nextKey hvalue rfl hrest
  have hcolon : IsPlain (between.chars ++ [':']) :=
    isPlain_append (isPlain_blanks between) (isPlain_singleton (by decide))
  refine ⟨(hkey.plain hcolon).plain (isPlain_blanks beforeValue), ?_⟩
  refine ⟨_, getLast?_string .key key (w.plain before.chars), rfl, rfl, between, beforeValue, ?_⟩
  change ([] ++ (between.chars ++ [':'])) ++ beforeValue.chars = _
  rw [List.nil_append, List.append_assoc]
  rfl

end Written

theorem isBlank_of_isAtomChar {c : Char} (h : isAtomChar c = true) : isBlank c = false := by
  by_contra hblank
  simp only [isBlank, Bool.not_eq_false, Bool.or_eq_true, beq_iff_eq] at hblank
  rcases hblank with ((rfl | rfl) | rfl) | rfl
  · revert h
    decide
  · revert h
    decide
  · revert h
    decide
  · revert h
    decide

theorem Atom.exists_not_blank (atom : Atom) : ∃ c ∈ atom.chars, isBlank c = false := by
  obtain ⟨c, hc⟩ := List.exists_mem_of_ne_nil _ atom.ne_nil
  exact ⟨c, hc, isBlank_of_isAtomChar (atom.isAtom c hc)⟩

theorem Atom.isPlain (atom : Atom) : IsPlain atom.chars := by
  intro c hc
  rw [isPlainChar, atom.isAtom c hc, Bool.or_true, Bool.true_or]

open Written

mutual

theorem Json.sound_write : ∀ (json : Json σ) {role : Role σ} {w : Written σ}, w.Sound →
    w.Ready role → (json.write role w).Sound ∧ (json.write role w).Done fun a => a.role = role
  | .atom atom, _, _, h, hready =>
      ⟨h.plain atom.isPlain, Or.inl (hready.plain atom.exists_not_blank)⟩
  | .string s, role, w, h, hready =>
      ⟨h.string hready s, Or.inr ⟨_, getLast?_string role s w, rfl, List.forall_mem_nil _⟩⟩
  | .emptyArray inside, _, _, h, hready => by
      have hplain : IsPlain ('[' :: inside.chars ++ [']']) :=
        isPlain_append (isPlain_append (isPlain_singleton (by decide)) (isPlain_blanks inside))
          (isPlain_singleton (by decide))
      exact ⟨h.plain hplain, Or.inl (hready.plain ⟨'[', List.mem_cons_self, by decide⟩)⟩
  | .array before first after more, role, w, h, hready => by
      have hbracket : (w.plain ['[']).Open := hready.plain ⟨'[', List.mem_cons_self, by decide⟩
      have helement : ((w.plain ['[']).plain before.chars).Ready .element :=
        hbracket.plain before.chars
      obtain ⟨hfirst, hdone⟩ := first.sound_write
        ((h.plain (isPlain_singleton (by decide))).plain (isPlain_blanks before)) helement
      obtain ⟨hmore, hdone⟩ := more.sound_write (hfirst.plain (isPlain_blanks after))
        (hdone.plain_blanks after)
      exact ⟨hmore.plain (isPlain_singleton (by decide)),
        Or.inl (hdone.plain_element (Or.inr rfl))⟩
  | .emptyObject inside, _, _, h, hready => by
      have hplain : IsPlain ('{' :: inside.chars ++ ['}']) :=
        isPlain_append (isPlain_append (isPlain_singleton (by decide)) (isPlain_blanks inside))
          (isPlain_singleton (by decide))
      exact ⟨h.plain hplain, Or.inl (hready.plain ⟨'{', List.mem_cons_self, by decide⟩)⟩
  | .object before key between beforeValue first after more, role, w, h, hready => by
      have hbrace : (w.plain ['{']).Open := hready.plain ⟨'{', List.mem_cons_self, by decide⟩
      obtain ⟨hkey, hvalue⟩ := (h.plain (isPlain_singleton (by decide))).key (Or.inl hbrace) before
        key between beforeValue
      obtain ⟨hfirst, hdone⟩ := first.sound_write hkey hvalue
      obtain ⟨hmore, hdone⟩ := more.sound_write (hfirst.plain (isPlain_blanks after))
        ((hdone.mono fun _ hrole => ⟨key, hrole⟩).plain_blanks after)
      exact ⟨hmore.plain (isPlain_singleton (by decide)), Or.inl hdone.plain_brace⟩

theorem Elements.sound_write : ∀ (elements : Elements σ) {w : Written σ}, w.Sound →
    (w.Done fun a => a.role = .element) →
    (elements.write w).Sound ∧ (elements.write w).Done fun a => a.role = .element
  | .nil, _, h, hdone => ⟨h, hdone⟩
  | .cons before value after more, w, h, hdone => by
      have helement : ((w.plain [',']).plain before.chars).Ready .element :=
        (hdone.plain_element (Or.inl rfl)).plain before.chars
      obtain ⟨hvalue, hdone⟩ := value.sound_write
        ((h.plain (isPlain_singleton (by decide))).plain (isPlain_blanks before)) helement
      exact more.sound_write (hvalue.plain (isPlain_blanks after)) (hdone.plain_blanks after)

theorem Members.sound_write : ∀ (members : Members σ) {w : Written σ}, w.Sound →
    w.Done Placed.IsValue → (members.write w).Sound ∧ (members.write w).Done Placed.IsValue
  | .nil, _, h, hdone => ⟨h, hdone⟩
  | .cons before key between beforeValue value after more, w, h, hdone => by
      obtain ⟨hkey, hready⟩ := (h.plain (isPlain_singleton (by decide))).key hdone.plain_comma
        before key between beforeValue
      obtain ⟨hvalue, hdone⟩ := value.sound_write hkey hready
      exact more.sound_write (hvalue.plain (isPlain_blanks after))
        ((hdone.mono fun _ hrole => ⟨key, hrole⟩).plain_blanks after)

end

/-- What is written of a document. -/
theorem Document.sound_write (document : Document σ) : document.write.Sound := by
  have hstart : Sound (⟨[], document.before.chars⟩ : Written σ) :=
    ⟨.nil, nofun, List.forall_mem_nil _, isPlain_blanks document.before⟩
  have hready : Ready (⟨[], document.before.chars⟩ : Written σ) .element := nofun
  exact (document.value.sound_write hstart hready).1.plain (isPlain_blanks document.after)

end Order

end SignalFxTracing.Lib.JsonText
