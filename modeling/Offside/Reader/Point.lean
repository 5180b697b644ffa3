import Offside.Fault
import Offside.Text.Line

/-!
# Points of a text

A point is a position between two characters: the text ahead of it, its byte offset and its line.
Walking over a character adds its width to the offset, and one to the line if the character ends
its line; walking back over it takes the same away again.
-/

namespace Offside

structure Point where
  rest : List Char
  offset : Nat
  line : Nat
  deriving DecidableEq, Repr, Inhabited

namespace Point

def origin (text : List Char) : Point := ⟨text, 0, 1⟩

def ahead? (point : Point) : Option Char := point.rest.head?

/-- The point behind the next character; at the end the point itself. -/
def step (point : Point) : Point :=
  match point.rest with
  | [] => point
  | c :: rest =>
    ⟨rest, point.offset + c.utf8Size, if Text.closesLine c rest then point.line + 1 else point.line⟩

/-- The point in front of `c`, for a point right behind it. -/
def stepBack (c : Char) (point : Point) : Except Fault Point :=
  let breaks := if Text.closesLine c point.rest then 1 else 0
  if c.utf8Size ≤ point.offset ∧ breaks ≤ point.line then
    .ok ⟨c :: point.rest, point.offset - c.utf8Size, point.line - breaks⟩
  else .error .belowZero

def advance : (count : Nat) → Point → Point
  | 0, point => point
  | count + 1, point => advance count point.step

/-- Number of characters that satisfy a predicate before the first one that does not. -/
def run (accepts : Char → Bool) (point : Point) : Nat := (point.rest.takeWhile accepts).length

theorem stepBack_step {point : Point} {c : Char} (ahead : point.ahead? = some c) :
    point.step.stepBack c = .ok point := by
  obtain ⟨rest, offset, line⟩ := point
  cases rest with
  | nil => simp [ahead?] at ahead
  | cons first rest =>
    obtain rfl : first = c := by simpa [ahead?] using ahead
    by_cases closes : Text.closesLine first rest = true
    · simp [step, stepBack, closes]
    · simp [step, stepBack, closes]

/-! ## What walking leaves ahead -/

@[simp] theorem rest_step (point : Point) : point.step.rest = point.rest.tail := by
  unfold step
  split
  next h => simp [h]
  next h => simp [h]

@[simp] theorem rest_advance (count : Nat) (point : Point) :
    (point.advance count).rest = point.rest.drop count := by
  induction count generalizing point with
  | zero => rfl
  | succ count ih => rw [advance, ih, rest_step, List.drop_tail]

theorem advance_add (m n : Nat) (point : Point) :
    point.advance (m + n) = (point.advance m).advance n := by
  induction m generalizing point with
  | zero => rw [Nat.zero_add, advance]
  | succ m ih => rw [Nat.succ_add, advance, advance, ih]

end Point

end Offside
