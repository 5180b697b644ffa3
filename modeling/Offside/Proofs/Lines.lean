import Mathlib.Data.List.TakeWhile
import Offside.Proofs.Points

/-!
# Breaks, lines and comments

What a text can begin with that is no token: a line break, a line up to its break, a comment,
whitespace.
-/

namespace Offside

namespace Text

/-! ## Line breaks -/

/-- The line break that a text begins with; nothing if it begins with none. -/
def breakAhead : List Char → List Char
  | [] => []
  | c :: rest =>
    if c = '\r' ∧ rest.head? = some '\n' then ['\r', '\n'] else if isBreak c then [c] else []

theorem breakAhead_eq_nil {text : List Char} :
    breakAhead text = [] ↔ ∀ c ∈ text.head?, isBreak c = false := by
  cases text with
  | nil => simp [breakAhead]
  | cons c rest =>
    by_cases both : c = '\r' ∧ rest.head? = some '\n'
    · simp [breakAhead, both, isBreak]
    · by_cases single : isBreak c = true <;> simp [breakAhead, both, single]

theorem breakAhead_prefix (text : List Char) : ∃ rest, text = breakAhead text ++ rest := by
  cases text with
  | nil => exact ⟨[], rfl⟩
  | cons c rest =>
    by_cases both : c = '\r' ∧ rest.head? = some '\n'
    · obtain ⟨others, behind⟩ := List.head?_eq_some_iff.1 both.2
      exact ⟨others, by simp [breakAhead, both, behind]⟩
    · by_cases single : isBreak c = true
      · exact ⟨rest, by simp [breakAhead, both, single]⟩
      · exact ⟨c :: rest, by simp [breakAhead, both, single]⟩

def IsLineBreak (text rest : List Char) : Prop :=
  text = ['\n'] ∨ text = ['\r', '\n'] ∨ text = ['\r'] ∧ rest.head? ≠ some '\n'

theorem isLineBreak_breakAhead {text rest : List Char} (isEnd : breakAhead (text ++ rest) = text)
    (nonempty : text ≠ []) : IsLineBreak text rest := by
  obtain ⟨c, others, rfl⟩ := List.exists_cons_of_ne_nil nonempty
  simp only [List.cons_append, breakAhead] at isEnd
  split at isEnd
  · cases isEnd
    exact .inr (.inl rfl)
  · rename_i notBoth
    split at isEnd
    · rename_i single
      cases isEnd
      simp only [isBreak, Bool.or_eq_true, beq_iff_eq] at single
      rcases single with rfl | rfl
      · exact .inl rfl
      · exact .inr (.inr ⟨rfl, fun both => notBoth ⟨rfl, both⟩⟩)
    · cases isEnd

theorem exists_isLineBreak {c : Char} (rest : List Char) (isBreak : isBreak c = true) :
    ∃ behind, c :: rest = breakAhead (c :: rest) ++ behind ∧
      IsLineBreak (breakAhead (c :: rest)) behind := by
  obtain ⟨behind, split⟩ := breakAhead_prefix (c :: rest)
  refine ⟨behind, split, isLineBreak_breakAhead (by rw [← split]) ?_⟩
  intro none
  simp [breakAhead_eq_nil.1 none c rfl] at isBreak

namespace IsLineBreak

variable {text rest : List Char}

theorem ne_nil (isLineBreak : IsLineBreak text rest) : text ≠ [] := by
  rcases isLineBreak with rfl | rfl | ⟨rfl, -⟩ <;> simp

theorem isBreak_head? (isLineBreak : IsLineBreak text rest) :
    ∀ c ∈ (text ++ rest).head?, isBreak c = true := by
  rcases isLineBreak with rfl | rfl | ⟨rfl, -⟩ <;> simp [isBreak]

theorem beginsLine (isLineBreak : IsLineBreak text rest) (front : List Char) :
    BeginsLine (front ++ text) rest := by
  rcases isLineBreak with rfl | rfl | ⟨rfl, single⟩
  · exact .inr ⟨front, '\n', rfl, rfl⟩
  · exact .inr ⟨front ++ ['\r'], '\n', by simp, rfl⟩
  · exact .inr ⟨front, '\r', rfl, by simpa [closesLine] using single⟩

end IsLineBreak

/-! ## Lines -/

/-- A text up to its first line break. -/
def lineAhead (text : List Char) : List Char := text.takeWhile fun c => !isBreak c

theorem drop_takeWhile (accepts : Char → Bool) (text : List Char) :
    text.drop (text.takeWhile accepts).length = text.dropWhile accepts := by
  induction text with
  | nil => rfl
  | cons c text ih => by_cases accepted : accepts c = true <;> simp [accepted, ih]

theorem lineAhead_append_drop (text : List Char) :
    lineAhead text ++ text.drop (lineAhead text).length = text := by
  rw [lineAhead, drop_takeWhile, List.takeWhile_append_dropWhile]

theorem isBreak_of_mem_lineAhead {text : List Char} {c : Char} (h : c ∈ lineAhead text) :
    isBreak c = false := by
  simpa using List.mem_takeWhile_imp h

theorem isBreak_head?_drop_lineAhead {text : List Char} :
    ∀ c ∈ (text.drop (lineAhead text).length).head?, isBreak c = true := by
  intro c head
  have behind := List.head?_dropWhile_not (fun c => !isBreak c) text
  rw [lineAhead, drop_takeWhile] at head
  rw [head] at behind
  simpa using behind

theorem breakAhead_drop_lineAhead {text : List Char}
    (h : breakAhead (text.drop (lineAhead text).length) = []) :
    text.drop (lineAhead text).length = [] := by
  cases behind : text.drop (lineAhead text).length with
  | nil => rfl
  | cons c rest =>
    have isBreak := isBreak_head?_drop_lineAhead c (by rw [behind]; rfl)
    rw [behind, breakAhead_eq_nil] at h
    simp [h c rfl] at isBreak

/-- A comment without the line break behind it, or nothing. -/
def IsComment (text : List Char) : Prop :=
  (∀ c ∈ text.head?, c = '#') ∧ ∀ c ∈ text, isBreak c = false

theorem isComment_lineAhead {c : Char} {rest : List Char} (blank : c = '#' ∨ isBreak c = true) :
    IsComment (lineAhead (c :: rest)) := by
  refine ⟨?_, fun _ => isBreak_of_mem_lineAhead⟩
  by_cases isBreak : isBreak c = true
  · simp [lineAhead, isBreak]
  · obtain rfl := blank.resolve_right isBreak
    simp [lineAhead, isBreak]

/-! ## What leaves no token -/

/-- Text that may be left out anywhere between two tokens. -/
inductive Skippable : (text rest : List Char) → Prop where
  /-- Whitespace that breaks no line. -/
  | blanks {text rest : List Char} (isBlank : ∀ c ∈ text, isBlank c = true ∧ isBreak c = false) :
      Skippable text rest
  /-- A comment up to a line break or the end. -/
  | comment {text rest : List Char} (begins : text.head? = some '#')
      (inLine : ∀ c ∈ text, isBreak c = false) (upTo : ∀ c ∈ rest.head?, isBreak c = true) :
      Skippable text rest
  /-- A backslash with the line break behind it. -/
  | continuation {ended rest : List Char} (isBreak : IsLineBreak ended rest) :
      Skippable ('\\' :: ended) rest

def IsBlankLine (text rest : List Char) : Prop :=
  ∃ white comment ended, text = white ++ comment ++ ended ∧ (∀ c ∈ white, isMargin c = true) ∧
    IsComment comment ∧ IsLineBreak ended rest

theorem skippable_of_isMargin {text : List Char} (margin : ∀ c ∈ text, isMargin c = true)
    (rest : List Char) : Skippable text rest := by
  apply Skippable.blanks
  intro c member
  exact ⟨isBlank_of_isMargin (margin c member), not_isBreak_of_isMargin (margin c member)⟩

theorem noContent_of_isComment {white comment behind : List Char}
    (margin : ∀ c ∈ white, isMargin c = true) (isComment : IsComment comment)
    (upTo : ∀ c ∈ behind.head?, isBreak c = true) :
    ∀ c ∈ ((white ++ comment ++ behind).dropWhile isMargin).head?, c = '#' ∨ isBreak c = true := by
  rw [List.append_assoc, List.dropWhile_append_of_pos margin]
  cases comment with
  | cons c comment =>
    obtain rfl := isComment.1 c rfl
    simp [show isMargin '#' = false from rfl]
  | nil =>
    cases behind with
    | nil => simp
    | cons c behind =>
      have isBreak := upTo c rfl
      have notMargin : isMargin c = false := by
        cases isMargin : isMargin c with
        | true => simp [not_isBreak_of_isMargin isMargin] at isBreak
        | false => rfl
      simp [notMargin, isBreak]

end Text

end Offside
