import Offside.Source.Span

/-!
# Diagnostics

The errors that a source text can contain.  None of them is the end: each is reported, and
reading goes on behind the text in question.
-/

namespace Offside

/-- An error in a source text, with the span and the line it was found at. -/
inductive Diagnostic where
  | strayCharacter (span : Span) (character : Char) (line : Nat)
  | integerTooLarge (span : Span) (line : Nat)
  /-- A string literal that is open at the end of the text. -/
  | openString (span : Span) (line : Nat)
  /-- A line of `width` characters of indentation that closes a block without returning to the
  level of an outer one. -/
  | unevenIndentation (span : Span) (line width : Nat)
  deriving DecidableEq, Repr

namespace Diagnostic

def span : Diagnostic → Span
  | strayCharacter span _ _ => span
  | integerTooLarge span _ => span
  | openString span _ => span
  | unevenIndentation span _ _ => span

def line : Diagnostic → Nat
  | strayCharacter _ _ line => line
  | integerTooLarge _ line => line
  | openString _ line => line
  | unevenIndentation _ line _ => line

def label : Diagnostic → String
  | strayCharacter .. => "UnexpectedCharacter"
  | integerTooLarge .. => "NumericOverflow"
  | openString .. => "UnterminatedLiteral"
  | unevenIndentation .. => "InconsistentIndentation"

def rank : Diagnostic → Nat
  | strayCharacter .. => 0
  | integerTooLarge .. => 1
  | openString .. => 2
  | unevenIndentation .. => 3

/-- The order of what two diagnostics of one kind carry besides span and line: the character in
front of the line, the width behind it. -/
def detailOrder : Diagnostic → Diagnostic → Ordering
  | strayCharacter _ a i, strayCharacter _ b j =>
    (compare a.toNat b.toNat).then (compare i j)
  | unevenIndentation _ i v, unevenIndentation _ j w =>
    (compare i j).then (compare v w)
  | a, b => compare a.line b.line

/-- The order of diagnostics: by declaration, then by span, then by the rest. -/
def order (a b : Diagnostic) : Ordering :=
  (compare a.rank b.rank).then ((a.span.order b.span).then (a.detailOrder b))

end Diagnostic

end Offside
