import Offside.Path
import Offside.Store.Basic
import Offside.Text.Bytes

/-!
# Files in memory and on a disk

A memory maps normal forms of paths to contents.  Whatever way a path takes to its file, its normal
form decides.

A disk is a directory with files in it, and the walk by which a system finds the file at a path.
Every segment of the path but the last has to be a directory, also the ones that stay where they are
or go up.  Nothing is known to exist outside of the directory.  The system is given the path of the
directory and the path of the file as one, so both count where the length of a path is limited.
-/

namespace Offside

inductive ReadError where
  /-- The path leads out of the root. -/
  | invalidPath
  /-- There is no file of that name. -/
  | notFound
  | noEntry
  /-- Something below a file was asked for. -/
  | notDirectory
  | isDirectory
  | nameTooLong
  | nulInName
  | notText
  deriving DecidableEq, Repr

namespace ReadError

def message : ReadError → String
  | invalidPath => "Invalid path"
  | notFound => "File not found"
  | noEntry => "No such file or directory (os error 2)"
  | notDirectory => "Not a directory (os error 20)"
  | isDirectory => "Is a directory (os error 21)"
  | nameTooLong => "File name too long (os error 36)"
  | nulInName => "file name contained an unexpected NUL byte"
  | notText => "stream did not contain valid UTF-8"

/-- The failure that tells a caller what went wrong. -/
def failure (error : ReadError) : Failure := .io error.message

end ReadError

/-! ## In memory -/

/-- Files by the normal form of their path, the one added last in front. -/
structure Memory where
  files : List (List Path.Segment × String) := []
  deriving DecidableEq, Repr, Inhabited

namespace Memory

/-- Adds a file in place of any other at the same path; a path out of the root is passed over. -/
def add (memory : Memory) (path content : String) : Memory :=
  match Path.resolve? path.toList with
  | some names => ⟨(names, content) :: memory.files⟩
  | none => memory

structure Addition where
  /-- There is none if the bytes of the path are no text. -/
  path : Option String
  content : String
  deriving DecidableEq, Repr

/-- Adds a file in place of any other at the same path; one whose path is no text is passed over
like one whose path leads out of the root. -/
def receive (memory : Memory) (addition : Addition) : Memory :=
  match addition.path with
  | some path => memory.add path addition.content
  | none => memory

def ofAdditions (additions : List Addition) : Memory := additions.foldl receive {}

def find? (memory : Memory) (names : List Path.Segment) : Option String :=
  memory.files.lookup names

def read (memory : Memory) (path : String) : Except ReadError String :=
  match Path.resolve? path.toList with
  | none => .error .invalidPath
  | some names =>
    match memory.find? names with
    | some content => .ok content
    | none => .error .notFound

def store (memory : Memory) : Store where
  bytesAt path := ((memory.read path).mapError ReadError.failure).map fun content =>
    ⟨content.toUTF8.data.toList, true⟩
  textAt path := ((memory.read path).mapError ReadError.failure).map fun content => ⟨content, true⟩

end Memory

/-! ## On a disk -/

/-- A directory and the files in it, by the names that lead to them, the one written last in
front. -/
structure Disk where
  root : String := "."
  files : List (List Path.Segment × List UInt8) := []
  deriving DecidableEq, Repr, Inhabited

namespace Disk

inductive Place where
  /-- In a directory, `names` below the one at hand. -/
  | inside (names : List Path.Segment)
  | outside
  /-- At a file. -/
  | atFile (bytes : List UInt8)
  deriving DecidableEq, Repr

def maxName : Nat := 255

def maxPath : Nat := 4095

/-- Writes a file in place of any other at the same path; a path out of the directory is passed
over. -/
def write (disk : Disk) (path : String) (bytes : List UInt8) : Disk :=
  match Path.resolve? path.toList with
  | some names => { disk with files := (names, bytes) :: disk.files }
  | none => disk

def file? (disk : Disk) (names : List Path.Segment) : Option (List UInt8) :=
  disk.files.lookup names

/-- Whether names lead to a directory: some file lies below. -/
def isDirectory (disk : Disk) (names : List Path.Segment) : Bool :=
  disk.files.any fun file => names.isPrefixOf file.1

def enter (disk : Disk) (names : List Path.Segment) (name : Path.Segment) :
    Except ReadError Place :=
  let inner := names ++ [name]
  match disk.file? inner with
  | some bytes => .ok (.atFile bytes)
  | none => if disk.isDirectory inner then .ok (.inside inner) else .error .noEntry

def visit (disk : Disk) (place : Place) (segment : Path.Segment) : Except ReadError Place :=
  match place with
  | .atFile _ => .error .notDirectory
  | .outside =>
    if Path.isHere segment || Path.isUp segment then .ok .outside
    else if maxName < Text.width segment then .error .nameTooLong
    else .error .noEntry
  | .inside names =>
    if Path.isHere segment then .ok place
    else if Path.isUp segment then
      if names.isEmpty then .ok .outside else .ok (.inside names.dropLast)
    else if maxName < Text.width segment then .error .nameTooLong
    else disk.enter names segment

def read (disk : Disk) (path : String) : Except ReadError (List UInt8) := do
  let chars := path.toList
  if chars.contains '\x00' then throw .nulInName
  if maxPath < Text.width (Path.under disk.root.toList chars) then throw .nameTooLong
  let start := if Path.isAbsolute chars then Place.outside else .inside []
  match ← (Path.segments chars).foldlM disk.visit start with
  | .atFile bytes => return bytes
  | _ => throw .isDirectory

def textAt (disk : Disk) (path : String) : Except ReadError String := do
  match Text.Utf8.decode (← disk.read path) with
  | .ok text => return String.ofList text
  | .error _ => throw .notText

def store (disk : Disk) : Store where
  bytesAt path := ((disk.read path).mapError ReadError.failure).map fun bytes => ⟨bytes, false⟩
  textAt path := ((disk.textAt path).mapError ReadError.failure).map fun text => ⟨text, false⟩

end Disk

end Offside
