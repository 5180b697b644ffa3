import Offside.Text.Bytes

/-!
# Lines of a text

A line ends with a line feed, with a carriage return and a line feed, or with a carriage return
that no line feed follows; the break belongs to the line it ends.  The extents of the lines cover
a text without gaps, and the last line, which may be empty, ends with the text.
-/

namespace Offside

structure Extent where
  start : Nat
  stop : Nat
  deriving DecidableEq, Repr, Inhabited

namespace Extent

def contains (e : Extent) (offset : Nat) : Bool := e.start ≤ offset && offset < e.stop

end Extent

namespace Text

/-- Whether `c` ends a line in front of `rest`: a line feed does, and so does a carriage return
that stands alone. -/
def closesLine (c : Char) (rest : List Char) : Bool :=
  c == '\n' || (c == '\r' && rest.head? != some '\n')

/-- Number of line breaks that end inside `text`, which `ahead` follows. -/
def breaksIn : (text ahead : List Char) → Nat
  | [], _ => 0
  | c :: text, ahead => (if closesLine c (text ++ ahead) then 1 else 0) + breaksIn text ahead

/-- The extents of the lines of `text`, where the line under way began at `start` and `text`
begins at `offset`. -/
def lineExtentsFrom (start offset : Nat) : List Char → List Extent
  | [] => [⟨start, offset⟩]
  | c :: rest =>
    let next := offset + c.utf8Size
    if closesLine c rest then ⟨start, next⟩ :: lineExtentsFrom next next rest
    else lineExtentsFrom start next rest

def lineExtents (text : List Char) : List Extent := lineExtentsFrom 0 0 text

/-- Number of characters that start in the first `limit` bytes, for a text that begins at
`offset`. -/
def charsBefore (limit : Nat) : Nat → List Char → Nat
  | _, [] => 0
  | offset, c :: rest =>
    if offset < limit then charsBefore limit (offset + c.utf8Size) rest + 1 else 0

def trimBreaks (text : List Char) : List Char :=
  (text.reverse.dropWhile fun c => c == '\n' || c == '\r').reverse

/-- The text up to the first line feed, without that line feed and without a carriage return
right before it. -/
def upToLineFeed : List Char → List Char
  | [] => []
  | '\n' :: _ => []
  | '\r' :: '\n' :: _ => []
  | c :: rest => c :: upToLineFeed rest

/-- The last line ends with the text, so there is always a line. -/
theorem lineExtentsFrom_ne_nil (start offset : Nat) (text : List Char) :
    lineExtentsFrom start offset text ≠ [] := by
  induction text generalizing start offset with
  | nil => simp [lineExtentsFrom]
  | cons c rest ih =>
    simp only [lineExtentsFrom]
    split
    · simp
    · exact ih start (offset + c.utf8Size)

theorem lineExtents_ne_nil (text : List Char) : lineExtents text ≠ [] :=
  lineExtentsFrom_ne_nil 0 0 text

end Text

end Offside
