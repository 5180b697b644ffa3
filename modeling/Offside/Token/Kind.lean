import Offside.Token.Keyword
import Offside.Token.Operator

/-!
# Kinds of tokens

What a token is, the name under which it is shown, and the order of the kinds.
-/

namespace Offside

inductive Kind where
  | identifier
  | keyword (word : Keyword)
  /-- A decimal integer literal in the range of signed 64-bit integers. -/
  | integer
  /-- A decimal literal with a fractional part. -/
  | float
  /-- A string literal in single or double quotes, the quotes included. -/
  | string
  | operator (mark : Operator)
  /-- The end of a logical line. -/
  | newline
  /-- The start of a deeper block; covers the whitespace in front of its first line. -/
  | indent
  /-- The end of a block; always empty. -/
  | dedent
  | error
  /-- The end of the stream; always empty and always last. -/
  | eof
  deriving DecidableEq, Repr, Inhabited

namespace Kind

def name : Kind → String
  | identifier => "T_IDENTIFIER"
  | keyword word => word.name
  | integer => "T_NUMBER"
  | float => "T_FLOATING"
  | string => "T_STRING"
  | operator mark => mark.name
  | newline => "T_NEWLINE"
  | indent => "T_INDENT"
  | dedent => "T_OUTDENT"
  | error => "T_ERROR"
  | eof => "T_EOF"

/-- The label of the kind in structured output; what a keyword or an operator carries is not part
of it. -/
def label : Kind → String
  | identifier => "Identifier"
  | keyword _ => "Keyword"
  | integer => "Integer"
  | float => "Float"
  | string => "String"
  | operator _ => "Operator"
  | newline => "Newline"
  | indent => "Indent"
  | dedent => "Dedent"
  | error => "Error"
  | eof => "Eof"

def simple : List Kind :=
  [identifier, integer, float, string, newline, indent, dedent, error, eof]

def rank : Kind → Nat
  | identifier => 0
  | keyword _ => 1
  | integer => 2
  | float => 3
  | string => 4
  | operator _ => 5
  | newline => 6
  | indent => 7
  | dedent => 8
  | error => 9
  | eof => 10

def innerRank : Kind → Nat
  | keyword word => word.rank
  | operator mark => mark.rank
  | _ => 0

/-- The order of kinds: by declaration, then by what they carry. -/
def order (a b : Kind) : Ordering :=
  (compare a.rank b.rank).then (compare a.innerRank b.innerRank)

def asKeyword? : Kind → Option Keyword
  | keyword word => some word
  | _ => none

def asOperator? : Kind → Option Operator
  | operator mark => some mark
  | _ => none

/-- Whether a token of this kind belongs to the layout of lines and blocks. -/
def isLayout : Kind → Bool
  | newline | indent | dedent => true
  | _ => false

/-- The kinds of the tokens that a line is made of. -/
def isContent : Kind → Bool
  | newline | indent | dedent | eof => false
  | _ => true

def sort (kinds : List Kind) : List Kind := kinds.mergeSort fun a b => (order a b).isLE

end Kind

end Offside
