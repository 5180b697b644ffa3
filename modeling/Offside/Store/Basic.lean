import Offside.Diagnostic.Render
import Offside.Text.Utf8

/-!
# Stores of files

A store gives the content of the file at a path, as bytes or as text.  What it hands out is
either lent, because the store holds it, or made for the caller.

A failure says why a file could not be turned into tokens: it could not be read, it is not text, or
its text has errors.
-/

namespace Offside

/-! ## Failures -/

inductive Failure where
  /-- A file could not be read; its store says why. -/
  | io (text : String)
  | utf8 (defect : Text.Utf8.Defect)
  | lexical (diagnostic : Diagnostic)
  | other (text : String)
  deriving DecidableEq, Repr

namespace Failure

/-- The text has errors, each of which was reported. -/
def faulty : Failure := .other "An error occurred while tokenizing the source code."

def label : Failure → String
  | io _ => "IoError"
  | utf8 _ => "Utf8Error"
  | lexical _ => "LexicalError"
  | other _ => "Other"

def render (view : View) : Failure → Except Fault String
  | io text => .ok ("An error occurred while working with Input/Output: " ++ text)
  | utf8 defect => .ok defect.message
  | lexical diagnostic =>
    (diagnostic.render view).map fun text =>
      "An error occurred while lexing the source code: " ++ text
  | other text => .ok ("An error occurred: " ++ text)

end Failure

/-! ## Stores -/

/-- A value handed out by a store. -/
structure Handed (α : Type) where
  value : α
  /-- Whether the store holds the value and lends it. -/
  lent : Bool
  deriving DecidableEq, Repr

structure Store where
  bytesAt : String → Except Failure (Handed (List UInt8))
  textAt : String → Except Failure (Handed String)

namespace Store

def decoded (read : String → Except Failure (Handed (List UInt8))) (path : String) :
    Except Failure (Handed String) := do
  let bytes ← read path
  match Text.Utf8.decode bytes.value with
  | .ok text => return ⟨String.ofList text, false⟩
  | .error defect => throw (.utf8 defect)

/-- A store that can read nothing but bytes, and decodes them for a text. -/
def ofBytes (read : String → Except Failure (Handed (List UInt8))) : Store where
  bytesAt := read
  textAt := decoded read

def constant (bytes : List UInt8) : Store := ofBytes fun _ => .ok ⟨bytes, true⟩

end Store

namespace Source

def read (serial : Nat) (path identifier : String) (store : Store) :
    Except Failure Source :=
  (store.textAt path).map fun text => ofContent serial path identifier text.value

end Source

end Offside
