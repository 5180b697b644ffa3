import Offside.Source.Span
import Offside.Text.Escape
import Offside.Text.Quoted
import Offside.Number
import Offside.Token.Kind

/-!
# Tokens

A token is a kind, the span it covers and the line it starts on.  What a literal stands for is
read from its text; reading the text of a span that does not fit its source is a fault.
-/

namespace Offside

/-- A classified piece of a source text. -/
structure Token where
  kind : Kind
  span : Span
  line : Nat
  deriving DecidableEq, Repr, Inhabited

namespace Token

def chars (token : Token) : Except Fault (List Char) := token.span.chars

def text (token : Token) : Except Fault String := token.span.text

def isEof (token : Token) : Bool := token.kind == .eof

def integer? (token : Token) : Except Fault (Option Int) :=
  if token.kind = .integer then token.chars.map Number.int64? else .ok none

def floatBits? (token : Token) : Except Fault (Option UInt64) :=
  if token.kind = .float then token.chars.map Number.floatBits? else .ok none

def float? (token : Token) : Except Fault (Option Float) :=
  if token.kind = .float then token.chars.map Number.float? else .ok none

/-- What stands between the first and the last byte of a text. -/
def unwrap (text : List Char) : Except Fault (List Char) :=
  match Text.slice? text 1 (Text.width text - 1) with
  | some inside => .ok inside
  | none => .error .badSlice

/-- A string literal without its quotes, escapes as written.  The text is read whatever the kind, so
a span that does not fit its source is a fault for every token. -/
def quoted? (token : Token) : Except Fault (Option (List Char)) := do
  let text ← token.chars
  if token.kind = .string then (unwrap text).map some else .ok none

def string? (token : Token) : Except Fault (Option (List Char)) :=
  token.quoted?.map (Option.map Text.unescape)

/-- How a token is shown in messages. -/
def caption (token : Token) : Except Fault String :=
  if token.isEof then .ok "EOF"
  else token.chars.map fun text =>
    "Token: " ++ token.kind.name ++ " " ++ String.ofList (Text.quote text)

/-- Whether two tokens are equal, their spans taken by the identity of their sources. -/
def same (a b : Token) : Bool := a.kind == b.kind && a.span.same b.span && a.line == b.line

def order (a b : Token) : Ordering :=
  (a.kind.order b.kind).then ((a.span.order b.span).then (compare a.line b.line))

end Token

end Offside
