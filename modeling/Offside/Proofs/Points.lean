import Offside.Reader.Basic

/-!
# Points between two texts

Every point a reader gets to lies between the text it has gone through and the text ahead.  Its
offset is the width of the first, and its line is one more than the number of breaks that end in
it, so walking is appending.
-/

namespace Offside

namespace Text

theorem width_pos {text : List Char} (nonempty : text ≠ []) : 0 < width text := by
  obtain ⟨c, rest, rfl⟩ := List.exists_cons_of_ne_nil nonempty
  rw [width_cons]
  exact Nat.add_pos_left c.utf8Size_pos _

theorem eq_of_width_eq {front other rest behind : List Char}
    (same : front ++ rest = other ++ behind) (width_eq : width front = width other) :
    front = other ∧ rest = behind := by
  have taken := takeBytes?_append front rest
  rw [same, width_eq, takeBytes?_append, Option.some.injEq] at taken
  subst taken
  exact ⟨rfl, List.append_cancel_left same⟩

theorem breaksIn_append (xs ys ahead : List Char) :
    breaksIn (xs ++ ys) ahead = breaksIn xs (ys ++ ahead) + breaksIn ys ahead := by
  induction xs with
  | nil => simp [breaksIn]
  | cons c xs ih => simp [breaksIn, ih, Nat.add_assoc]

/-- A text begins a line if it has nothing behind it or a character that closes a line. -/
def BeginsLine (front rest : List Char) : Prop :=
  front = [] ∨ ∃ before c, front = before ++ [c] ∧ closesLine c rest = true

end Text

namespace Point

/-- The point behind `front` and in front of `rest`. -/
def between (front rest : List Char) : Point :=
  ⟨rest, Text.width front, 1 + Text.breaksIn front rest⟩

@[simp] theorem rest_between (front rest : List Char) : (between front rest).rest = rest := rfl

@[simp] theorem offset_between (front rest : List Char) :
    (between front rest).offset = Text.width front := rfl

theorem origin_eq_between (text : List Char) : origin text = between [] text := rfl

def past (point : Point) (text rest : List Char) : Point :=
  ⟨rest, point.offset + Text.width text, point.line + Text.breaksIn text rest⟩

@[simp] theorem past_nil (point : Point) : point.past [] point.rest = point := rfl

theorem past_between (front text rest : List Char) :
    (between front (text ++ rest)).past text rest = between (front ++ text) rest := by
  simp [past, between, Text.breaksIn_append, Nat.add_assoc]

theorem step_eq_past {point : Point} {c : Char} {rest : List Char}
    (ahead : point.rest = c :: rest) : point.step = point.past [c] rest := by
  by_cases closes : Text.closesLine c rest = true
  · simp [past, step, ahead, Text.breaksIn, closes]
  · simp [past, step, ahead, Text.breaksIn, closes]

theorem step_between (front rest : List Char) (c : Char) :
    (between front (c :: rest)).step = between (front ++ [c]) rest :=
  (step_eq_past rfl).trans (past_between front [c] rest)

theorem advance_eq_past {point : Point} {text rest : List Char}
    (ahead : point.rest = text ++ rest) : point.advance text.length = point.past text rest := by
  induction text generalizing point with
  | nil =>
    rw [List.nil_append] at ahead
    rw [← ahead, past_nil]
    rfl
  | cons c text ih =>
    have one := step_eq_past ahead
    rw [List.length_cons, advance, ih (by rw [one]; rfl), one]
    simp [past, Text.breaksIn, Nat.add_assoc]

theorem advance_between (front text rest : List Char) :
    (between front (text ++ rest)).advance text.length = between (front ++ text) rest :=
  (advance_eq_past rfl).trans (past_between front text rest)

theorem advance_whole (text : List Char) : (origin text).advance text.length = between text [] := by
  have advanced := advance_between [] text []
  rwa [List.append_nil, ← origin_eq_between, List.nil_append] at advanced

end Point

end Offside
