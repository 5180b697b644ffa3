import Mathlib.Algebra.Group.Nat.Defs
import Offside.Lexer.Lexeme
import Offside.Proofs.Prospects

/-!
# The lexical grammar

Names, numerals, string literals and operators, each as a language of texts, and the kind of token
a text of theirs becomes.  The first character of a text decides which of the languages it can
belong to.
-/

namespace Offside

namespace Text

def IsQuote (c : Char) : Prop := c = '\"' ∨ c = '\''

instance : DecidablePred IsQuote := fun c =>
  inferInstanceAs (Decidable (c = '\"' ∨ c = '\''))

/-- A letter or an underscore, and then letters, digits and underscores. -/
def IsName (text : List Char) : Prop :=
  ∃ c rest, text = c :: rest ∧ isNameStart c = true ∧ ∀ d ∈ rest, isNamePart d = true

def IsFloat (text : List Char) : Prop :=
  ∃ whole fraction, text = whole ++ '.' :: fraction ∧ Number.isDigits whole = true ∧
    Number.isDigits fraction = true

/-- What can stand between two quotes: backslashes with any character behind them, and characters
other than the backslash and the quote. -/
inductive Units (quote : Char) : List Char → Prop where
  | nil : Units quote []
  | plain {c : Char} {rest : List Char} (notBackslash : c ≠ '\\') (notQuote : c ≠ quote)
      (further : Units quote rest) : Units quote (c :: rest)
  | escaped {c : Char} {rest : List Char} (further : Units quote rest) :
      Units quote ('\\' :: c :: rest)

def IsLiteral (text : List Char) : Prop :=
  ∃ quote units, text = quote :: (units ++ [quote]) ∧ IsQuote quote ∧ Units quote units

end Text

open Text

/-- The texts of the languages, and the kinds they become. -/
inductive Spells : List Char → Kind → Prop where
  | keyword {text : List Char} {word : Keyword} (isName : IsName text)
      (spelled : text = word.chars) : Spells text (.keyword word)
  | identifier {text : List Char} (isName : IsName text) (free : ∀ word : Keyword, text ≠ word.chars) :
      Spells text .identifier
  | integer {text : List Char} (isDigits : Number.isDigits text = true)
      (inRange : Number.digitsValue text ≤ 2 ^ 63 - 1) : Spells text .integer
  | tooLarge {text : List Char} (isDigits : Number.isDigits text = true)
      (outOfRange : 2 ^ 63 - 1 < Number.digitsValue text) : Spells text .error
  | float {text : List Char} (isFloat : IsFloat text) : Spells text .float
  | string {text : List Char} (isLiteral : IsLiteral text) : Spells text .string
  | operator {text : List Char} {mark : Operator} (spelled : text = mark.chars) :
      Spells text (.operator mark)

def Begins (c : Char) (text : List Char) : Prop :=
  if isDigit c then Number.isDigits text = true ∨ IsFloat text
  else if isNameStart c then IsName text
  else if IsQuote c then IsLiteral text
  else ∃ mark : Operator, text = mark.chars

/-! ## First characters -/

theorem Text.not_begins_of_isQuote {c : Char} (h : IsQuote c) :
    isDigit c = false ∧ isNameStart c = false := by
  rcases h with rfl | rfl <;> decide

theorem Operator.begins {mark : Operator} {c : Char} {rest : List Char} (h : mark.chars = c :: rest) :
    isDigit c = false ∧ isNameStart c = false ∧ ¬ IsQuote c := by
  have all : ∀ mark : Operator, mark.chars.head?.all fun c =>
      !isDigit c && !isNameStart c && c != '\"' && c != '\'' := by
    intro mark
    cases mark <;> decide
  have first := all mark
  rw [h] at first
  simp only [List.head?_cons, Option.all_some, Bool.and_eq_true, Bool.not_eq_true', bne_iff_ne]
    at first
  exact ⟨first.1.1.1, first.1.1.2, not_or.2 ⟨first.1.2, first.2⟩⟩

theorem Text.IsName.begins {c : Char} {rest : List Char} (isName : IsName (c :: rest)) :
    isDigit c = false ∧ isNameStart c = true := by
  obtain ⟨first, others, split, start, -⟩ := isName
  cases split
  refine ⟨?_, start⟩
  cases isDigit : isDigit c with
  | true => simp [not_isNameStart_of_isDigit isDigit] at start
  | false => rfl

theorem Number.isDigit_of_isDigits {c : Char} {rest : List Char}
    (h : Number.isDigits (c :: rest) = true) : isDigit c = true := by
  simp only [isDigits, List.all_cons, Bool.and_eq_true] at h
  exact h.2.1

theorem Text.IsFloat.begins {c : Char} {rest : List Char} (isFloat : IsFloat (c :: rest)) :
    isDigit c = true := by
  obtain ⟨whole, fraction, split, isDigits, -⟩ := isFloat
  cases whole with
  | nil => cases isDigits
  | cons first others => cases split; exact Number.isDigit_of_isDigits isDigits

theorem Spells.begins {c : Char} {rest : List Char} {kind : Kind} (spells : Spells (c :: rest) kind) :
    Begins c (c :: rest) := by
  rw [Begins]
  cases spells with
  | keyword isName | identifier isName =>
    simpa [isName.begins] using isName
  | integer isDigits | tooLarge isDigits =>
    simp [Number.isDigit_of_isDigits isDigits, isDigits]
  | float isFloat => simp [isFloat.begins, isFloat]
  | string isLiteral =>
    obtain ⟨quote, units, split, isQuote, -⟩ := id isLiteral
    cases split
    simpa [not_begins_of_isQuote isQuote, isQuote] using isLiteral
  | @operator mark spelled =>
    simp [Operator.begins spelled.symm]
    exact ⟨mark, spelled⟩

theorem not_spells_nil {kind : Kind} : ¬ Spells [] kind := by
  intro spells
  cases spells with
  | keyword isName | identifier isName =>
    obtain ⟨_, _, split, -⟩ := isName
    cases split
  | integer isDigits | tooLarge isDigits => cases isDigits
  | float isFloat =>
    obtain ⟨whole, _, split, -⟩ := isFloat
    cases whole <;> cases split
  | string isLiteral =>
    obtain ⟨_, _, split, -⟩ := isLiteral
    cases split
  | operator spelled => exact Operator.chars_ne_nil _ spelled.symm

/-! ## Kinds -/

theorem nameKind_chars (word : Keyword) : Lexeme.nameKind word.chars = .keyword word := by
  rw [Lexeme.nameKind, Keyword.ofChars?_chars]

theorem nameKind_of_free {text : List Char} (free : ∀ word : Keyword, text ≠ word.chars) :
    Lexeme.nameKind text = .identifier := by
  have none : Keyword.ofChars? text = none :=
    List.find?_eq_none.2 fun word _ same => free word (beq_iff_eq.1 same).symm
  rw [Lexeme.nameKind, none]

theorem spells_nameKind {text : List Char} (isName : IsName text) :
    Spells text (Lexeme.nameKind text) := by
  by_cases free : ∀ word : Keyword, text ≠ word.chars
  · rw [nameKind_of_free free]
    exact .identifier isName free
  · obtain ⟨word, spelled⟩ := not_forall_not.1 free
    rw [spelled, nameKind_chars, ← spelled]
    exact .keyword isName spelled

theorem Operator.find?_chars (mark : Operator) :
    (Operator.all.find? fun other => other.chars == mark.chars) = some mark := by
  cases mark <;> decide

theorem Text.IsFloat.not_isDigits {text : List Char} (isFloat : IsFloat text) :
    Number.isDigits text = false := by
  obtain ⟨whole, fraction, rfl, -⟩ := isFloat
  simp [Number.isDigits, show isDigit '.' = false from rfl]

def kindOf (c : Char) (text : List Char) : Kind :=
  if isDigit c then
    if Number.isDigits text then
      if Number.digitsValue text ≤ 2 ^ 63 - 1 then .integer else .error
    else .float
  else if isNameStart c then Lexeme.nameKind text
  else if IsQuote c then .string
  else (Operator.all.find? fun mark => mark.chars == text).elim .error .operator

theorem Spells.kind_eq {c : Char} {rest : List Char} {kind : Kind}
    (spells : Spells (c :: rest) kind) : kind = kindOf c (c :: rest) := by
  rw [kindOf]
  cases spells with
  | @keyword word isName spelled =>
    simp only [isName.begins]
    rw [spelled, nameKind_chars]
    simp
  | identifier isName free => simp [isName.begins, nameKind_of_free free]
  | integer isDigits inRange =>
    simp only [Number.isDigit_of_isDigits isDigits, isDigits, inRange, if_true]
  | tooLarge isDigits outOfRange =>
    simp only [Number.isDigit_of_isDigits isDigits, isDigits, if_true, not_le.2 outOfRange, if_false]
  | float isFloat => simp [isFloat.begins, isFloat.not_isDigits]
  | string isLiteral =>
    obtain ⟨quote, units, split, isQuote, -⟩ := isLiteral
    cases split
    simp [not_begins_of_isQuote isQuote, isQuote]
  | @operator mark spelled =>
    obtain ⟨notDigit, notName, notQuote⟩ := Operator.begins spelled.symm
    simp only [notDigit, notName, notQuote, spelled, Operator.find?_chars]
    rfl

/-- A text becomes a token of one kind only. -/
theorem Spells.unique {text : List Char} {a b : Kind} (first : Spells text a)
    (second : Spells text b) : a = b := by
  cases text with
  | nil => exact absurd first not_spells_nil
  | cons c rest => rw [first.kind_eq, second.kind_eq]

end Offside
