import Offside.Proofs.Points
import Offside.Diagnostic.Basic

/-!
# Pieces of a text

A lexer cuts a text into pieces.  Each becomes a token or is dropped, and some have a flaw that is
reported.  Where the pieces lie follows from their texts alone: laid out from a point on, one
behind the other, they give the tokens and the diagnostics.
-/

namespace Offside

/-- What can be wrong with a piece of text. -/
inductive Flaw where
  /-- It is a character that begins no token. -/
  | stray (character : Char)
  /-- It is an integer literal out of range. -/
  | tooLarge
  /-- It is a string literal without its closing quote. -/
  | unclosed
  /-- It is the whitespace of a line whose width lies between two levels. -/
  | uneven (width : Nat)
  deriving DecidableEq, Repr

def Flaw.diagnostic (flaw : Flaw) (span : Span) (line : Nat) : Diagnostic :=
  match flaw with
  | stray character => .strayCharacter span character line
  | tooLarge => .integerTooLarge span line
  | unclosed => .openString span line
  | uneven width => .unevenIndentation span line width

/-- A piece of text. -/
structure Piece where
  text : List Char
  /-- The kind of the token that is cut from it; none if it is dropped. -/
  kind : Option Kind := none
  flaw : Option Flaw := none
  deriving DecidableEq, Repr

namespace Piece

variable (source : Source) (point : Point)

def span (piece : Piece) : Span :=
  ⟨point.offset, (point.advance piece.text.length).offset, source⟩

def token? (piece : Piece) : Option Token :=
  piece.kind.map fun kind => ⟨kind, piece.span source point, point.line⟩

def report? (piece : Piece) : Option Diagnostic :=
  piece.flaw.map fun flaw => flaw.diagnostic (piece.span source point) point.line

def texts (pieces : List Piece) : List Char := pieces.flatMap text

/-- The tokens of pieces that follow one another from a point on. -/
def tokens (source : Source) : (point : Point) → List Piece → List Token
  | _, [] => []
  | point, piece :: pieces =>
    (piece.token? source point).toList ++
      tokens source (point.advance piece.text.length) pieces

/-- The diagnostics of pieces that follow one another from a point on. -/
def reports (source : Source) : (point : Point) → List Piece → List Diagnostic
  | _, [] => []
  | point, piece :: pieces =>
    (piece.report? source point).toList ++
      reports source (point.advance piece.text.length) pieces

/-- The kind of the last token of pieces, or `before` if they have none. -/
def lastKind (pieces : List Piece) (before : Option Kind) : Option Kind :=
  pieces.foldl (fun last piece => piece.kind.or last) before

@[simp] theorem texts_nil : texts [] = [] := rfl

@[simp] theorem texts_cons (piece : Piece) (pieces : List Piece) :
    texts (piece :: pieces) = piece.text ++ texts pieces := rfl

@[simp] theorem texts_append (xs ys : List Piece) : texts (xs ++ ys) = texts xs ++ texts ys := by
  simp [texts]

@[simp] theorem tokens_nil : tokens source point [] = [] := rfl

@[simp] theorem reports_nil : reports source point [] = [] := rfl

@[simp] theorem lastKind_nil (before : Option Kind) : lastKind [] before = before := rfl

@[simp] theorem lastKind_cons (piece : Piece) (pieces : List Piece) (before : Option Kind) :
    lastKind (piece :: pieces) before = lastKind pieces (piece.kind.or before) := rfl

theorem lastKind_append (xs ys : List Piece) (before : Option Kind) :
    lastKind (xs ++ ys) before = lastKind ys (lastKind xs before) := by
  simp [lastKind]

theorem tokens_append (xs ys : List Piece) :
    tokens source point (xs ++ ys) =
      tokens source point xs ++ tokens source (point.advance (texts xs).length) ys := by
  induction xs generalizing point with
  | nil => rfl
  | cons piece xs ih => simp [tokens, ih, Point.advance_add]

theorem reports_append (xs ys : List Piece) :
    reports source point (xs ++ ys) =
      reports source point xs ++ reports source (point.advance (texts xs).length) ys := by
  induction xs generalizing point with
  | nil => rfl
  | cons piece xs ih => simp [reports, ih, Point.advance_add]

theorem span_between (front rest : List Char) (piece : Piece) :
    piece.span source (.between front (piece.text ++ rest)) =
      ⟨Text.width front, Text.width (front ++ piece.text), source⟩ := by
  rw [span, Point.advance_between]
  rfl

theorem tokens_between_cons (front rest : List Char) (piece : Piece) (pieces : List Piece) :
    tokens source (.between front (piece.text ++ rest)) (piece :: pieces) =
      (piece.token? source (.between front (piece.text ++ rest))).toList ++
        tokens source (.between (front ++ piece.text) rest) pieces := by
  rw [tokens, Point.advance_between]

theorem tokens_singleton (piece : Piece) :
    tokens source point [piece] = (piece.token? source point).toList := by
  simp [tokens]

theorem reports_singleton (piece : Piece) :
    reports source point [piece] = (piece.report? source point).toList := by
  simp [reports]

theorem reports_eq_nil {pieces : List Piece} (flawless : ∀ piece ∈ pieces, piece.flaw = none) :
    reports source point pieces = [] := by
  induction pieces generalizing point with
  | nil => rfl
  | cons piece pieces ih =>
    obtain ⟨first, others⟩ := List.forall_mem_cons.1 flawless
    rw [reports, ih _ others, report?, first]
    rfl

end Piece

end Offside
