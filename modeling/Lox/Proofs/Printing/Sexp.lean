import Lox.Syntax.Printer

/-!
# Parenthesized text is read in one way

A `Sexp` is what stands behind a parenthesized text: an atom, or a list of such.  If each atom is
either free of spaces, parentheses and quotes or stands between two quotes (`Sexp.Readable`), the text
of a `Sexp` determines it, whatever follows the text, as long as that starts with a space or a closing
parenthesis.
-/

namespace Lox

inductive Sexp
  | atom (text : String)
  | list (items : List Sexp)

namespace Sexp

mutual

def text : Sexp → String
  | atom text => text
  | list items => parenthesize (texts items)

def texts : List Sexp → List String
  | [] => []
  | x :: xs => text x :: texts xs

end

/-! ### Characters -/

mutual

/-- The characters of a text. -/
def chars : Sexp → List Char
  | atom text => text.toList
  | list items => '(' :: itemChars items

/-- The items of a list, up to the closing parenthesis. -/
def itemChars : List Sexp → List Char
  | [] => [')']
  | x :: xs => chars x ++ moreChars xs

/-- The items after the first, each after a space, up to the closing parenthesis. -/
def moreChars : List Sexp → List Char
  | [] => [')']
  | x :: xs => ' ' :: (chars x ++ moreChars xs)

end

theorem toList_parenthesize (parts : List String) :
    (parenthesize parts).toList = '(' :: ([' '].intercalate (parts.map String.toList) ++ [')']) := by
  rw [parenthesize, String.toList_append, String.toList_append, String.toList_intercalate]
  rfl

mutual

theorem toList_text : ∀ s : Sexp, s.text.toList = s.chars
  | atom _ => rfl
  | list [] => by
    rw [text, toList_parenthesize]
    rfl
  | list (x :: xs) => by
    rw [text, toList_parenthesize, texts, List.map_cons, toList_text x, intercalate_texts]
    rfl

theorem intercalate_texts : ∀ (xs : List Sexp) (first : List Char),
    [' '].intercalate (first :: (texts xs).map String.toList) ++ [')'] = first ++ moreChars xs
  | [], first => by simp [texts, moreChars]
  | x :: xs, first => by
    rw [texts, List.map_cons, List.intercalate_cons_cons, toList_text x, List.append_assoc,
      intercalate_texts xs]
    simp [moreChars]

end

/-! ### Atoms -/

/-- A character that may stand in an atom without quotes. -/
def isPlain (c : Char) : Bool := c != ' ' && c != '(' && c != ')' && c != '"'

/-- An atom that is free of spaces, parentheses and quotes. -/
def Plain (a : List Char) : Prop := a ≠ [] ∧ a.all isPlain

instance (a : List Char) : Decidable (Plain a) := inferInstanceAs (Decidable (_ ∧ _))

/-- An atom that stands between two quotes. -/
def Quoted (a : List Char) : Prop := ∃ inner, a = '"' :: (inner ++ ['"']) ∧ '"' ∉ inner

/-- What may come after a text: nothing, a space or a closing parenthesis. -/
def Delimits (rest : List Char) : Prop := ∀ c ∈ rest.head?, c = ' ' ∨ c = ')'

variable {a b rest rest' : List Char}

theorem takeWhile_append_eq {p : Char → Bool} (ha : ∀ c ∈ a, p c) (hr : ∀ c ∈ rest.head?, p c = false) :
    (a ++ rest).takeWhile p = a := by
  rw [List.takeWhile_append_of_pos ha]
  cases rest with
  | nil => simp
  | cons c rest => simp [hr c rfl]

/-- A text is cut in one way after the characters of a kind. -/
theorem append_inj_of_kind {p : Char → Bool} (ha : ∀ c ∈ a, p c) (hb : ∀ c ∈ b, p c)
    (hr : ∀ c ∈ rest.head?, p c = false) (hr' : ∀ c ∈ rest'.head?, p c = false)
    (h : a ++ rest = b ++ rest') : a = b ∧ rest = rest' := by
  have hab : a = b := by rw [← takeWhile_append_eq ha hr, h, takeWhile_append_eq hb hr']
  subst hab
  exact ⟨rfl, List.append_cancel_left h⟩

theorem Delimits.not_isPlain (h : Delimits rest) : ∀ c ∈ rest.head?, isPlain c = false := by
  intro c hc
  obtain rfl | rfl := h c hc <;> rfl

theorem delimits_nil : Delimits [] := by simp [Delimits]

theorem Plain.isPlain (ha : Plain a) : ∀ c ∈ a, Sexp.isPlain c := List.all_eq_true.1 ha.2

theorem Plain.append_inj (ha : Plain a) (hb : Plain b) (hr : Delimits rest) (hr' : Delimits rest')
    (h : a ++ rest = b ++ rest') : a = b ∧ rest = rest' :=
  append_inj_of_kind ha.isPlain hb.isPlain hr.not_isPlain hr'.not_isPlain h

theorem Quoted.append_inj (ha : Quoted a) (hb : Quoted b) (h : a ++ rest = b ++ rest') :
    a = b ∧ rest = rest' := by
  obtain ⟨inner, rfl, hinner⟩ := ha
  obtain ⟨inner', rfl, hinner'⟩ := hb
  have hcut : inner ++ ('"' :: rest) = inner' ++ ('"' :: rest') := by simpa using h
  have hkind : ∀ cs : List Char, '"' ∉ cs → ∀ c ∈ cs, (c != '"') = true := by
    intro cs hcs c hc
    exact bne_iff_ne.2 fun heq => hcs (heq ▸ hc)
  obtain ⟨rfl, hrest⟩ := append_inj_of_kind (p := (· != '"')) (hkind _ hinner) (hkind _ hinner')
    (by simp) (by simp) hcut
  exact ⟨rfl, (List.cons.inj hrest).2⟩

/-- An atom can be told from a list, and from the end of one, by its first character. -/
def IsAtom (a : List Char) : Prop := Plain a ∨ Quoted a

theorem IsAtom.exists_cons (h : IsAtom a) : ∃ c cs, a = c :: cs ∧ c ≠ '(' ∧ c ≠ ')' := by
  obtain hp | ⟨inner, rfl, -⟩ := h
  · cases a with
    | nil => exact absurd rfl hp.1
    | cons c cs =>
      have hc := hp.isPlain c List.mem_cons_self
      refine ⟨c, cs, rfl, ?_, ?_⟩ <;> rintro rfl <;> simp [isPlain] at hc
  · exact ⟨'"', _, rfl, by decide, by decide⟩

theorem Plain.head_ne_quote (ha : Plain a) (hb : Quoted b) : a ++ rest ≠ b ++ rest' := by
  obtain ⟨inner, rfl, -⟩ := hb
  cases a with
  | nil => exact absurd rfl ha.1
  | cons c cs =>
    have hc := ha.isPlain c List.mem_cons_self
    intro h
    obtain rfl : c = '"' := (List.cons.inj h).1
    cases hc

theorem IsAtom.append_inj (ha : IsAtom a) (hb : IsAtom b) (hr : Delimits rest)
    (hr' : Delimits rest') (h : a ++ rest = b ++ rest') : a = b ∧ rest = rest' := by
  obtain ha | ha := ha
  · obtain hb | hb := hb
    · exact ha.append_inj hb hr hr' h
    · exact absurd h (ha.head_ne_quote hb)
  · obtain hb | hb := hb
    · exact absurd h.symm (hb.head_ne_quote ha)
    · exact ha.append_inj hb h

/-! ### Unique readability -/

/-- All atoms of a text are told apart from what stands around them. -/
inductive Readable : Sexp → Prop
  | atom {text : String} (h : IsAtom text.toList) : Readable (.atom text)
  | list {items : List Sexp} (h : ∀ x ∈ items, Readable x) : Readable (.list items)

theorem readable_atom {text : String} : Readable (.atom text) ↔ IsAtom text.toList :=
  ⟨fun h => by cases h; assumption, .atom⟩

theorem readable_list {items : List Sexp} : Readable (.list items) ↔ ∀ x ∈ items, x.Readable :=
  ⟨fun h => by cases h; assumption, .list⟩

/-- A list that starts with a word. -/
theorem readable_word {word : String} {items : List Sexp} (hw : Plain word.toList)
    (h : ∀ x ∈ items, x.Readable) : Readable (.list (.atom word :: items)) :=
  .list (List.forall_mem_cons.2 ⟨.atom (.inl hw), h⟩)

theorem Readable.exists_cons {s : Sexp} (h : s.Readable) : ∃ c cs, s.chars = c :: cs ∧ c ≠ ')' := by
  cases h with
  | atom h =>
    obtain ⟨c, cs, hc, -, hne⟩ := h.exists_cons
    exact ⟨c, cs, hc, hne⟩
  | list h => exact ⟨'(', _, rfl, by decide⟩

theorem delimits_moreChars (xs : List Sexp) (rest : List Char) : Delimits (moreChars xs ++ rest) := by
  intro c hc
  cases xs with
  | nil =>
    cases hc
    exact .inr rfl
  | cons x xs =>
    cases hc
    exact .inl rfl

/-- Two lists of items that start alike do so if a space is put in front of the first item, too. -/
theorem moreChars_of_itemChars {xs ys : List Sexp} (hx : ∀ x ∈ xs, x.Readable)
    (hy : ∀ y ∈ ys, y.Readable) (h : itemChars xs ++ rest = itemChars ys ++ rest') :
    moreChars xs ++ rest = moreChars ys ++ rest' := by
  cases xs with
  | nil =>
    cases ys with
    | nil => exact h
    | cons y ys =>
      obtain ⟨c, cs, hc, hne⟩ := (hy y List.mem_cons_self).exists_cons
      rw [itemChars, itemChars, hc] at h
      exact absurd (List.cons.inj h).1.symm hne
  | cons x xs =>
    cases ys with
    | nil =>
      obtain ⟨c, cs, hc, hne⟩ := (hx x List.mem_cons_self).exists_cons
      rw [itemChars, itemChars, hc] at h
      exact absurd (List.cons.inj h).1 hne
    | cons y ys => exact congrArg (' ' :: ·) h

mutual

/-- The text of a `Sexp` ends where it ends, whatever follows. -/
theorem chars_append_inj : ∀ (s t : Sexp) {rest rest' : List Char}, s.Readable → t.Readable →
    Delimits rest → Delimits rest' → s.chars ++ rest = t.chars ++ rest' → s = t ∧ rest = rest'
  | atom a, atom b, rest, rest', hs, ht, hr, hr', h => by
    obtain ⟨hab, hrest⟩ := (readable_atom.1 hs).append_inj (readable_atom.1 ht) hr hr' h
    exact ⟨congrArg atom (String.toList_inj.1 hab), hrest⟩
  | atom a, list ys, rest, rest', hs, _, _, _, h => by
    obtain ⟨c, cs, hc, hne, -⟩ := (readable_atom.1 hs).exists_cons
    rw [chars, hc] at h
    exact absurd (List.cons.inj h).1 hne
  | list xs, atom b, rest, rest', _, ht, _, _, h => by
    obtain ⟨c, cs, hc, hne, -⟩ := (readable_atom.1 ht).exists_cons
    rw [chars, chars, hc] at h
    exact absurd (List.cons.inj h).1.symm hne
  | list xs, list ys, rest, rest', hs, ht, _, _, h => by
    have hx := readable_list.1 hs
    have hy := readable_list.1 ht
    obtain ⟨rfl, hrest⟩ :=
      moreChars_append_inj xs ys hx hy (moreChars_of_itemChars hx hy (List.cons.inj h).2)
    exact ⟨rfl, hrest⟩

theorem moreChars_append_inj : ∀ (xs ys : List Sexp) {rest rest' : List Char},
    (∀ x ∈ xs, x.Readable) → (∀ y ∈ ys, y.Readable) →
    moreChars xs ++ rest = moreChars ys ++ rest' → xs = ys ∧ rest = rest'
  | [], [], _, _, _, _, h => ⟨rfl, (List.cons.inj h).2⟩
  | [], _ :: _, _, _, _, _, h => by
    exact absurd (List.cons.inj h).1 (by decide)
  | _ :: _, [], _, _, _, _, h => by
    exact absurd (List.cons.inj h).1 (by decide)
  | x :: xs, y :: ys, rest, rest', hx, hy, h => by
    rw [moreChars, moreChars, List.cons_append, List.cons_append, List.append_assoc,
      List.append_assoc] at h
    obtain ⟨rfl, hmore⟩ := chars_append_inj x y (hx x List.mem_cons_self) (hy y List.mem_cons_self)
      (delimits_moreChars xs rest) (delimits_moreChars ys rest') (List.cons.inj h).2
    obtain ⟨rfl, hrest⟩ := moreChars_append_inj xs ys (fun z hz => hx z (List.mem_cons_of_mem _ hz))
      (fun z hz => hy z (List.mem_cons_of_mem _ hz)) hmore
    exact ⟨rfl, hrest⟩

end

/-- The text of a `Sexp` determines it. -/
theorem text_inj {s t : Sexp} (hs : s.Readable) (ht : t.Readable) (h : s.text = t.text) : s = t := by
  have hc : s.chars ++ [] = t.chars ++ [] := by rw [← toList_text, ← toList_text, h]
  exact (chars_append_inj s t hs ht delimits_nil delimits_nil hc).1

end Sexp

end Lox
