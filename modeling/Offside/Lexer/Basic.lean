import Offside.Layout.Blocks
import Offside.Sink
import Offside.Lexer.Lexeme

/-!
# Lexer

A lexer turns a source into tokens, on demand: each call of `next` carries out steps until
a token is ready.  The last token is the end of the stream; after it there is none.  A text in
error does not stop it: the text becomes an error token, and a diagnostic goes to the sink.
-/

namespace Offside

/-- Where a lexer stands. -/
inductive Mode where
  /-- At the start of a line, whose indentation is to be measured. -/
  | atMargin
  | inLine
  /-- At the end of the text; blocks are to be closed. -/
  | atEnd
  | done
  deriving DecidableEq, Repr

/-- A source in the course of being cut into tokens. -/
structure Lexer where
  reader : Reader
  blocks : Blocks
  mode : Mode
  /-- Whether the end of the stream has been handed out. -/
  finished : Bool
  deriving DecidableEq, Repr

abbrev Progress := Lexer × Option Diagnostic

namespace Lexer

def ofSource (source : Source) : Lexer := ⟨Reader.ofSource source, .empty, .atMargin, false⟩

def source (lexer : Lexer) : Source := lexer.reader.source

def moveTo (lexer : Lexer) (reader : Reader) (mode : Mode) : Lexer :=
  { lexer with reader := reader, mode := mode }

@[simp] theorem reader_moveTo (lexer : Lexer) (reader : Reader) (mode : Mode) :
    (lexer.moveTo reader mode).reader = reader := rfl

@[simp] theorem mode_moveTo (lexer : Lexer) (reader : Reader) (mode : Mode) :
    (lexer.moveTo reader mode).mode = mode := rfl

/-! ## Lines and blocks -/

/-- Closes `count` blocks in front of the held whitespace, and opens a new one that covers it
unless the line has returned to an open level. -/
def closeDeeper (lexer : Lexer) (reader : Reader) (width count : Nat) (exact : Bool) :
    Except Fault Progress := do
  -- the report covers the whitespace, which is still held here
  let span ← reader.heldSpan
  -- the blocks end in front of the whitespace
  let front ← (← reader.returnToMark).cutMany .dedent count
  let behind ← front.readWhile Text.isMargin
  if exact then return (lexer.moveTo behind.2.drop .inLine, none)
  let report := Diagnostic.unevenIndentation span reader.heldLine width
  return (lexer.moveTo (← behind.2.cut .indent) .inLine, some report)

/-- Compares the width of a line with the open blocks.  The reader stands behind the
whitespace at the start of the line, which is held, and the mark in front of it. -/
def openLine (lexer : Lexer) (reader : Reader) (width : Nat) : Except Fault Progress :=
  let fitted := lexer.blocks.fit width
  let lexer := { lexer with blocks := fitted.2 }
  match fitted.1 with
  | .opens => (reader.cut .indent).map fun after => (lexer.moveTo after .inLine, none)
  | .same => .ok (lexer.moveTo reader.drop .inLine, none)
  | .closes count exact => lexer.closeDeeper reader width count exact

def skipComment (reader : Reader) : Except Fault Reader :=
  if reader.beginsWith ['#'] then Lexeme.restOfLine reader else .ok reader

/-- A line of nothing but spaces, tabs and a comment is dropped; any other one is opened. -/
def atMargin (lexer : Lexer) : Except Fault Progress := do
  let white ← lexer.reader.setMark.readWhile Text.isMargin
  let ahead ← white.2.peek
  if ahead.1.isNone then return (lexer.moveTo ahead.2.drop .atEnd, none)
  -- a line of nothing but whitespace and a comment leaves the blocks alone
  let ended ← Lexeme.lineBreak (← skipComment ahead.2)
  if ended.1 then return (lexer.moveTo ended.2.drop .atMargin, none)
  let ahead ← ended.2.peek
  if ahead.1.isNone then return (lexer.moveTo ahead.2.drop .atEnd, none)
  lexer.openLine ahead.2 white.1

def lexeme (lexer : Lexer) (mode : Mode) (reading : Except Fault Reading) :
    Except Fault Progress :=
  reading.map fun (reader, report) => (lexer.moveTo reader mode, report)

/-- Whether the character behind the next one is part of a line break. -/
def breakFollows (reader : Reader) : Bool := reader.point.rest[1]?.any Text.isBreak

def inLine (lexer : Lexer) : Except Fault Progress := do
  let ahead ← lexer.reader.peek
  let reader := ahead.2
  match ahead.1 with
  | none => return (lexer.moveTo reader .atEnd, none)
  | some c =>
    if Text.isBreak c then lexer.lexeme .atMargin (Lexeme.newline reader)
    else if c = '#' then lexer.lexeme .inLine (Lexeme.comment reader)
    else if c = '\\' ∧ breakFollows reader then lexer.lexeme .inLine (Lexeme.continuation reader)
    else if Text.isBlank c then lexer.lexeme .inLine (Lexeme.blanks reader)
    else if Text.isDigit c then lexer.lexeme .inLine (Lexeme.number reader)
    else if Text.isNameStart c then lexer.lexeme .inLine (Lexeme.name reader)
    else if c = '\"' ∨ c = '\'' then lexer.lexeme .inLine (Lexeme.string c reader)
    else lexer.lexeme .inLine (Lexeme.operator c reader)

def endLine (reader : Reader) : Except Fault Reader :=
  if reader.lastCut.any fun kind => !kind.isLayout then reader.cut .newline else .ok reader

/-- At the end a line that is still open is ended, then every open block, then the stream. -/
def atEnd (lexer : Lexer) : Except Fault Progress := do
  let line ← endLine lexer.reader
  let (count, outermost) ← lexer.blocks.close
  let reader ← line.cutMany .dedent count
  return ({ lexer.moveTo (← reader.cut .eof) .done with blocks := outermost }, none)

def step (lexer : Lexer) : Except Fault Progress :=
  match lexer.mode with
  | .atMargin => lexer.atMargin
  | .inLine => lexer.inLine
  | .atEnd => lexer.atEnd
  | .done => .ok (lexer, none)

/-! ## What lies ahead -/

/-- How far a mode is from the end, with nothing read in between. -/
def modeRank : Mode → Nat
  | .atMargin => 3
  | .inLine => 2
  | .atEnd => 1
  | .done => 0

/-- How much a lexer has before it: four for every character ahead, and the rank of its mode. -/
def remaining (lexer : Lexer) : Nat :=
  4 * lexer.reader.left + modeRank lexer.mode

end Lexer

end Offside
