import Lox.Proofs.Printing.Sexp

/-!
# The atoms of printed trees

Identifiers, numerals, quoted strings and the reserved words `nil`, `true`, `false` and `this` are
atoms, and none of them looks like one of another sort: an identifier is no reserved word and starts
with a letter or an underscore, a numeral with a digit or a minus sign, a string with a quote.
-/

namespace Lox

/-! ### Identifiers -/

/-- The names a scanner accepts: ASCII letters, digits and underscores, not starting with a digit, and
no reserved word. -/
def IsIdentifier (x : String) : Prop :=
  x ≠ "" ∧ x.toList.all (fun c => c.isAlphanum || c == '_') ∧
    x.toList.head?.all (fun c => !c.isDigit) ∧ keyword? x = none

instance (x : String) : Decidable (IsIdentifier x) := inferInstanceAs (Decidable (_ ∧ _ ∧ _ ∧ _))

theorem IsIdentifier.chars {x : String} (h : IsIdentifier x) :
    ∀ c ∈ x.toList, c.isAlphanum ∨ c = '_' := by
  intro c hc
  simpa using List.all_eq_true.1 h.2.1 c hc

theorem IsIdentifier.head {x : String} (h : IsIdentifier x) {c : Char} {cs : List Char}
    (hx : x.toList = c :: cs) : ¬ c.isDigit := by
  have hhead := h.2.2.1
  rw [hx] at hhead
  simpa using hhead

theorem isPlain_of_isAlphanum {c : Char} (h : c.isAlphanum ∨ c = '_') : Sexp.isPlain c := by
  have hne : ∀ d : Char, ¬ d.isAlphanum → d ≠ '_' → c ≠ d := by
    rintro d hd hu rfl
    exact h.elim hd hu
  simp [Sexp.isPlain, hne ' ' (by decide) (by decide), hne '(' (by decide) (by decide),
    hne ')' (by decide) (by decide), hne '"' (by decide) (by decide)]

theorem IsIdentifier.isAtom {x : String} (h : IsIdentifier x) : Sexp.IsAtom x.toList := by
  refine .inl ⟨?_, List.all_eq_true.2 fun c hc => isPlain_of_isAlphanum (h.chars c hc)⟩
  simpa using h.1

/-! ### Numerals -/

/-- The characters of a numeral. -/
def isNumeralChar (c : Char) : Bool := c.isDigit || c == '.' || c == 'e' || c == '+' || c == '-'

/-- A numeral consists of digits, points, signs and `e`, and starts with a digit or a minus sign. -/
def IsNumeral (cs : List Char) : Prop :=
  ∃ c rest, cs = c :: rest ∧ (c.isDigit ∨ c = '-') ∧ ∀ d ∈ rest, isNumeralChar d

theorem isNumeralChar_of_isDigit {c : Char} (h : c.isDigit) : isNumeralChar c := by
  simp [isNumeralChar, h]

theorem isNumeral_append {digits rest : List Char} (hne : digits ≠ []) (hd : ∀ c ∈ digits, c.isDigit)
    (hr : ∀ c ∈ rest, isNumeralChar c) : IsNumeral (digits ++ rest) := by
  cases digits with
  | nil => exact absurd rfl hne
  | cons c digits =>
    refine ⟨c, digits ++ rest, rfl, .inl (hd c List.mem_cons_self), fun d hmem => ?_⟩
    obtain hmem | hmem := List.mem_append.1 hmem
    · exact isNumeralChar_of_isDigit (hd d (List.mem_cons_of_mem _ hmem))
    · exact hr d hmem

theorem IsNumeral.neg {cs : List Char} (h : IsNumeral cs) : IsNumeral ('-' :: cs) := by
  obtain ⟨c, rest, rfl, hc, hr⟩ := h
  refine ⟨'-', _, rfl, .inr rfl, fun d hd => ?_⟩
  obtain rfl | hd := List.mem_cons.1 hd
  · obtain hc | rfl := hc
    · exact isNumeralChar_of_isDigit hc
    · rfl
  · exact hr d hd

namespace Number

theorem isDigit_of_mem_toDigits {n : Nat} {c : Char} (h : c ∈ Nat.toDigits 10 n) : c.isDigit :=
  Nat.isDigit_of_mem_toDigits (by omega) (by omega) h

theorem isNumeralChar_of_mem_exponentText (e : Int) : ∀ c ∈ (exponentText e).toList, isNumeralChar c := by
  have hdigits : ∀ c ∈ (toString e.natAbs).toList, isNumeralChar c := fun c hc =>
    isNumeralChar_of_isDigit (isDigit_of_mem_toDigits (by simpa using hc))
  intro c hc
  rw [exponentText, String.toList_append, List.mem_append] at hc
  obtain hc | hc := hc
  · split at hc <;> simp at hc <;> obtain rfl | rfl := hc <;> rfl
  · split at hc
    · rw [String.toList_append, List.mem_append] at hc
      obtain hc | hc := hc
      · simp at hc
        subst hc
        rfl
      · exact hdigits c hc
    · exact hdigits c hc

theorem Decimal.isNumeral_text (x : Decimal) : IsNumeral (x.text .tree).toList := by
  have hne : Nat.toDigits 10 x.digits ≠ [] := Nat.toDigits_ne_nil
  have hd : ∀ c ∈ Nat.toDigits 10 x.digits, c.isDigit := fun c => isDigit_of_mem_toDigits
  unfold Decimal.text
  generalize Nat.toDigits 10 x.digits = digits at hne hd
  have hexp := isNumeralChar_of_mem_exponentText (digits.length + x.exponent - 1)
  have hzeros : ∀ n, ∀ c ∈ List.replicate n '0', isNumeralChar c := fun n c hc => by
    rw [List.eq_of_mem_replicate hc]
    rfl
  have hdigits : ∀ c ∈ digits, isNumeralChar c := fun c hc => isNumeralChar_of_isDigit (hd c hc)
  dsimp only
  split
  · split
    · -- a whole number, with zeros after its digits
      rw [String.toList_append, String.toList_ofList, List.append_assoc]
      exact isNumeral_append hne hd (List.forall_mem_append.2 ⟨hzeros _, List.all_eq_true.1 rfl⟩)
    · split
      · -- a point between the digits
        simp only [String.toList_append, String.toList_ofList, List.append_assoc]
        refine isNumeral_append (by simpa using hne) (fun c hc => hd c (List.mem_of_mem_take hc)) ?_
        exact List.forall_mem_append.2
          ⟨List.all_eq_true.1 rfl, fun c hc => hdigits c (List.mem_of_mem_drop hc)⟩
      · -- the digits after a point and zeros
        simp only [String.toList_append, String.toList_ofList]
        show IsNumeral (['0'] ++ '.' :: (List.replicate _ '0' ++ digits))
        refine isNumeral_append (by simp) (List.all_eq_true.1 rfl) ?_
        exact List.forall_mem_cons.2 ⟨rfl, List.forall_mem_append.2 ⟨hzeros _, hdigits⟩⟩
  · split
    · exact absurd rfl hne
    · rw [String.toList_append, Char.toString_eq_singleton, String.toList_singleton]
      exact isNumeral_append hne hd hexp
    · next d ds =>
      simp only [String.toList_append, String.toList_ofList, Char.toString_eq_singleton,
        String.toList_singleton, List.append_assoc]
      refine isNumeral_append (by simp) (fun c hc => hd c ?_) ?_
      · rw [List.mem_singleton.1 hc]
        exact List.mem_cons_self
      · exact List.forall_mem_append.2 ⟨List.all_eq_true.1 rfl, List.forall_mem_append.2
          ⟨fun c hc => hdigits c (List.mem_cons_of_mem _ hc), hexp⟩⟩

/-- The text of a finite double is a numeral. -/
theorem isNumeral_text {x : Float} (hnan : x.isNaN = false) (hinf : x.isInf = false) :
    IsNumeral (text .tree x).toList := by
  unfold text
  rw [hnan, hinf]
  dsimp only
  rw [if_neg Bool.false_ne_true, if_neg Bool.false_ne_true, String.toList_append]
  have h := Decimal.isNumeral_text (shortest (Dyadic.ofFloat x))
  split
  · exact h.neg
  · exact h

theorem isNumeral_toString_int (i : Int) : IsNumeral (toString i).toList := by
  have hnat : ∀ n : Nat, IsNumeral n.repr.toList := fun n => by
    rw [Nat.toList_repr, ← List.append_nil (Nat.toDigits 10 n)]
    exact isNumeral_append Nat.toDigits_ne_nil (fun c => isDigit_of_mem_toDigits) (by simp)
  cases i with
  | ofNat n => exact hnat n
  | negSucc n =>
    show IsNumeral ("-" ++ (n + 1).repr).toList
    rw [String.toList_append]
    exact (hnat (n + 1)).neg

end Number

theorem IsNumeral.isAtom {cs : List Char} (h : IsNumeral cs) : Sexp.IsAtom cs := by
  have hplain : ∀ c, isNumeralChar c → Sexp.isPlain c := by
    intro c hc
    simp only [isNumeralChar, Bool.or_eq_true, beq_iff_eq] at hc
    obtain (((hc | rfl) | rfl) | rfl) | rfl := hc
    · exact isPlain_of_isAlphanum (.inl (by simp [Char.isAlphanum, hc]))
    all_goals rfl
  obtain ⟨c, rest, rfl, hc, hr⟩ := h
  refine .inl ⟨List.cons_ne_nil _ _, List.all_eq_true.2 (List.forall_mem_cons.2
    ⟨hplain c ?_, fun d hd => hplain d (hr d hd)⟩)⟩
  obtain hc | rfl := hc
  · exact isNumeralChar_of_isDigit hc
  · rfl

/-- A numeral is no identifier. -/
theorem IsNumeral.not_isIdentifier {x : String} (h : IsNumeral x.toList) : ¬ IsIdentifier x := by
  intro hid
  obtain ⟨c, rest, hx, hc, -⟩ := h
  obtain hc | rfl := hc
  · exact hid.head hx hc
  · exact absurd (hid.chars '-' (hx ▸ List.mem_cons_self)) (by decide)

/-! ### Literals -/

namespace Literal

/-- Literals that a tree can show: finite numbers, and strings without quotes. -/
def Printable : Literal → Prop
  | number x => x.isNaN = false ∧ x.isInf = false
  | string s => '"' ∉ s.toList
  | _ => True

def isNumber : Literal → Bool
  | number _ => true
  | integer _ => true
  | _ => false

/-- Literals of the same kind and value; numbers are compared by their text. -/
inductive Alike : Literal → Literal → Prop
  | same (v : Literal) : Alike v v
  | number {v w : Literal} (hv : v.isNumber) (hw : w.isNumber) (h : v.treeText = w.treeText) : Alike v w

theorem Alike.treeText_eq {v w : Literal} (h : v.Alike w) : v.treeText = w.treeText := by
  cases h with
  | same => rfl
  | number _ _ h => exact h

theorem isNumeral_treeText {v : Literal} (h : v.Printable) (hn : v.isNumber) :
    IsNumeral v.treeText.toList := by
  cases v with
  | number x => exact Number.isNumeral_text h.1 h.2
  | integer i => exact Number.isNumeral_toString_int i
  | _ => cases hn

theorem toList_treeText_string (s : String) :
    (treeText (.string s)).toList = '"' :: (s.toList ++ ['"']) := by
  simp [treeText]

theorem isAtom_treeText {v : Literal} (h : v.Printable) : Sexp.IsAtom v.treeText.toList := by
  by_cases hn : v.isNumber
  · exact (isNumeral_treeText h hn).isAtom
  · cases v with
    | nil => exact .inl ⟨by decide, by decide⟩
    | bool b => cases b <;> exact .inl ⟨by decide, by decide⟩
    | string s => exact .inr ⟨s.toList, toList_treeText_string s, h⟩
    | _ => exact absurd rfl hn

theorem ne_treeText_string {x : String} (hx : x.toList.head? ≠ some '"') (s : String) :
    x ≠ treeText (.string s) := by
  rintro rfl
  rw [toList_treeText_string] at hx
  exact hx rfl

/-- No other literal looks like a number. -/
theorem not_isNumeral_treeText {v : Literal} (hn : ¬ v.isNumber) : ¬ IsNumeral v.treeText.toList := by
  rintro ⟨c, rest, hc, hd, -⟩
  have hhead : v.treeText.toList.head?.all (fun d => !(d.isDigit || d == '-')) := by
    cases v with
    | nil => rfl
    | bool b => cases b <;> rfl
    | string s =>
      rw [toList_treeText_string]
      rfl
    | _ => exact absurd rfl hn
  rw [hc] at hhead
  simp_all

/-- The text of a literal tells what it stands for. -/
theorem alike_of_treeText_eq {v w : Literal} (hv : v.Printable) (hw : w.Printable)
    (h : v.treeText = w.treeText) : v.Alike w := by
  by_cases hnv : v.isNumber
  · have hnum : IsNumeral w.treeText.toList := h ▸ isNumeral_treeText hv hnv
    by_cases hnw : w.isNumber
    · exact .number hnv hnw h
    · exact absurd hnum (not_isNumeral_treeText hnw)
  · have hnw : ¬ w.isNumber := fun hn =>
      not_isNumeral_treeText hnv (h.symm ▸ isNumeral_treeText hw hn)
    cases v with
    | nil =>
      cases w with
      | nil => exact .same _
      | bool b => cases b <;> exact absurd h (by decide)
      | string s => exact absurd h (ne_treeText_string (by decide) s)
      | _ => exact absurd rfl hnw
    | bool b =>
      cases w with
      | nil => cases b <;> exact absurd h (by decide)
      | bool b' =>
        cases b <;> cases b'
        any_goals exact .same _
        all_goals exact absurd h (by decide)
      | string s => cases b <;> exact absurd h (ne_treeText_string (by decide) s)
      | _ => exact absurd rfl hnw
    | string s =>
      cases w with
      | nil => exact absurd h.symm (ne_treeText_string (by decide) s)
      | bool b => cases b <;> exact absurd h.symm (ne_treeText_string (by decide) s)
      | string s' =>
        have hs : s.toList = s'.toList := by
          simpa [toList_treeText_string] using congrArg String.toList h
        rw [String.toList_inj.1 hs]
        exact .same _
      | _ => exact absurd rfl hnw
    | _ => exact absurd rfl hnv

end Literal

end Lox
