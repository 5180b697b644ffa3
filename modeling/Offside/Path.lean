/-!
# Paths

A path is cut at its slashes.  An empty segment and `.` stand for the place itself, `..` for the
one above, and any other segment is a name.

The normal form of a path is the list of names that is left when each `..` has cancelled the name
before it.  A path in which some `..` has no name to cancel leads out of the root and has none.

The way from a directory to an absolute path leads up from the directory to the place where the two
part, then down along the path; there a `..` inside the path counts as a name of its own.
-/

namespace Offside.Path

abbrev Segment := List Char

/-- The segments of a path; there is always one. -/
def segments : List Char → List Segment
  | [] => [[]]
  | c :: rest =>
    if c = '/' then [] :: segments rest
    else
      match segments rest with
      | [] => [[c]]
      | first :: others => (c :: first) :: others

def isHere (segment : Segment) : Bool := segment == [] || segment == ['.']

def isUp (segment : Segment) : Bool := segment == ['.', '.']

def join : List Segment → List Char
  | [] => []
  | [segment] => segment
  | segment :: rest => segment ++ '/' :: join rest

def isAbsolute (path : List Char) : Bool := path.head? == some '/'

/-- Where a path leads that goes on from a base, unless it begins at the root itself. -/
def under (base path : List Char) : List Char :=
  if isAbsolute path ∨ base = [] then path
  else if base.getLast? = some '/' then base ++ path
  else base ++ '/' :: path

theorem segments_ne_nil (path : List Char) : segments path ≠ [] := by
  cases path with
  | nil => simp [segments]
  | cons c rest =>
    simp only [segments]
    split
    next => simp
    next => split <;> simp

theorem segments_append_slash (front back : List Char) :
    segments (front ++ '/' :: back) = segments front ++ segments back := by
  induction front with
  | nil => simp [segments]
  | cons c front ih =>
    simp only [List.cons_append, segments, ih]
    split
    next => simp
    next =>
      cases h : segments front with
      | nil => exact absurd h (segments_ne_nil front)
      | cons first others => simp

/-! ## Normal forms -/

/-- Follows segments from a place, which is given by its names, innermost first. -/
def follow : (place : List Segment) → List Segment → Option (List Segment)
  | place, [] => some place
  | place, segment :: rest =>
    if isHere segment then follow place rest
    else if isUp segment then
      match place with
      | [] => none
      | _ :: outer => follow outer rest
    else follow (segment :: place) rest

/-- The names a path leads through from the root. -/
def resolve? (path : List Char) : Option (List Segment) :=
  (follow [] (segments path)).map List.reverse

theorem follow_append (place front back : List Segment) :
    follow place (front ++ back) = (follow place front).bind (follow · back) := by
  fun_induction follow place front with
  | case1 place => rfl
  | case2 place segment rest here ih => simp [follow, here, ih]
  | case3 segment rest here up => simp [follow, here, up]
  | case4 segment rest here up name outer ih => simp [follow, here, up, ih]
  | case5 place segment rest here up ih => simp [follow, here, up, ih]

/-! ## Paths relative to a directory -/

def components (path : List Char) : List Segment :=
  (segments path).filter fun segment => !isHere segment

/-- The way from `base` to `target`, whose common beginning is dropped. -/
def way : (base target : List Segment) → List Segment
  | [], target => target
  | base, [] => base.map fun _ => ['.', '.']
  | b :: base, t :: target =>
    if b = t then way base target
    else (b :: base).map (fun _ => ['.', '.']) ++ t :: target

/-- An absolute path as seen from a directory, which is given by an absolute path; a relative path
has no such form. -/
def seenFrom? (directory path : String) : Option String :=
  if isAbsolute path.toList then
    some (String.ofList (join (way (components directory.toList) (components path.toList))))
  else none

def shown (directory path : String) : String := (seenFrom? directory path).getD path

end Offside.Path
