import Offside.Fault
import Offside.Text.Line

/-!
# Sources

A source holds its path, an identifier, its content and the table of its lines.  The table
of a source made by `Source.ofContent` is the one of its content; a source that was read back
from data keeps whatever table the data held, so looking something up in it can be a fault.
-/

namespace Offside

/-- A line and a column, both counted from one; columns count characters. -/
structure Position where
  line : Nat
  column : Nat
  deriving DecidableEq, Repr, Inhabited

/-- A source.  Two sources are the same exactly if their serial numbers are equal. -/
structure Source where
  serial : Nat
  path : String
  identifier : String
  chars : List Char
  lines : Array Extent
  deriving DecidableEq, Repr, Inhabited

namespace Source

def ofContent (serial : Nat) (path identifier content : String) : Source where
  serial := serial
  path := path
  identifier := identifier
  chars := content.toList
  lines := (Text.lineExtents content.toList).toArray

/-- A source that exists in memory only: its identifier serves as its path. -/
def ofText (serial : Nat) (identifier content : String) : Source :=
  ofContent serial identifier identifier content

def content (source : Source) : String := String.ofList source.chars

def size (source : Source) : Nat := Text.width source.chars

def slice (source : Source) (start stop : Nat) : Except Fault (List Char) :=
  match Text.slice? source.chars start stop with
  | some text => .ok text
  | none => .error .badSlice

theorem slice_eq {source : Source} {front text rest : List Char}
    (content : source.chars = front ++ text ++ rest) :
    source.slice (Text.width front) (Text.width (front ++ text)) = .ok text := by
  rw [slice, content, Text.width_append, Text.slice?_append]

def lineTexts (source : Source) : Except Fault (List String) :=
  source.lines.toList.mapM fun extent =>
    (source.slice extent.start extent.stop).map String.ofList

/-- The text of a line, its line break included; lines are counted from one. -/
def line? (source : Source) (number : Nat) : Except Fault (Option String) :=
  match number with
  | 0 => .ok none
  | index + 1 =>
    match source.lines[index]? with
    | none => .ok none
    | some extent => (source.slice extent.start extent.stop).map (some ∘ String.ofList)

/-- How a line stands to an offset: `eq` if it holds it, `gt` if it begins behind it, and `lt`
otherwise. -/
def lineOrdering (extent : Extent) (offset : Nat) : Ordering :=
  if extent.contains offset then .eq
  else if offset < extent.start then .gt
  else .lt

/-- Halves the range of `size` lines from `base` on until one is left, and returns its index.  The
upper half is kept unless its first line begins behind the offset. -/
def bisect (lines : Array Extent) (offset base size : Nat) : Nat :=
  if size ≤ 1 then base
  else
    let half := size / 2
    let middle := base + half
    match (lines[middle]?).map (lineOrdering · offset) with
    | some .gt => bisect lines offset base (size - half)
    | _ => bisect lines offset middle (size - half)
termination_by size

def findLine? (lines : Array Extent) (offset : Nat) : Option Nat :=
  -- bisection compares only the lines it visits, so the line that is left is compared again
  let index := bisect lines offset 0 lines.size
  match lines[index]? with
  | some extent => if extent.contains offset then some index else none
  | none => none

/-- The index of the line that an offset lies on.  The end of the content lies on the last
line. -/
def lineIndex? (source : Source) (offset : Nat) : Except Fault (Option Nat) :=
  if offset = source.size then
    if source.lines.isEmpty then .error .noLines else .ok (some (source.lines.size - 1))
  else .ok (findLine? source.lines offset)

/-- The position of a byte offset; `none` inside a character, beyond the end, and where no line of
the table holds the offset. -/
def position? (source : Source) (offset : Nat) : Except Fault (Option Position) := do
  if !Text.isBoundary source.chars offset then
    return none
  match ← source.lineIndex? offset with
  | none => return none
  | some index =>
    match source.lines[index]? with
    | none => return none
    | some extent =>
      let line ← source.slice extent.start extent.stop
      return some ⟨index + 1, Text.charsBefore offset extent.start line + 1⟩

end Source

end Offside
