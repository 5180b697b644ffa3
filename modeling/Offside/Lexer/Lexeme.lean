import Offside.Reader.Basic
import Offside.Diagnostic.Basic

/-!
# Lexemes

One function for each piece a line is made of.  Each reads its piece from a reader that
holds nothing, cuts a token for it or drops it, and returns the diagnostic it reports, if any.
-/

namespace Offside

abbrev Reading := Reader × Option Diagnostic

namespace Lexeme

/-- Reads one line break, be it a line feed, a carriage return or both in a row. -/
def lineBreak (reader : Reader) : Except Fault (Bool × Reader) :=
  let both := reader.readLiteral ['\r', '\n']
  if both.1 then .ok both else both.2.readOneOf ['\n', '\r']

def restOfLine (reader : Reader) : Except Fault Reader :=
  (reader.readWhile fun c => !Text.isBreak c).map Prod.snd

def newline (reader : Reader) : Except Fault Reading := do
  let ended ← lineBreak reader
  return (← ended.2.cut .newline, none)

/-- A comment reaches to the end of the line and leaves no token. -/
def comment (reader : Reader) : Except Fault Reading := do
  return ((← restOfLine reader).drop, none)

/-- A backslash and a line break join two lines and leave no token. -/
def continuation (reader : Reader) : Except Fault Reading := do
  let joined ← lineBreak reader.read.2
  return (joined.2.drop, none)

def blanks (reader : Reader) : Except Fault Reading := do
  let white ← reader.readWhile fun c => Text.isBlank c && !Text.isBreak c
  return (white.2.drop, none)

/-- Reads a fraction, a point with at least one digit behind it, and returns to where it stood if
there is none. -/
def fraction (reader : Reader) : Except Fault (Bool × Reader) := do
  let point ← reader.setMark.readOneOf ['.']
  -- `1..2` is a range, and `1.x` has no fraction
  if point.1 then
    let digits ← point.2.readWhile Text.isDigit
    if 0 < digits.1 then return (true, digits.2)
    return (false, ← digits.2.returnToMark)
  return (false, ← point.2.returnToMark)

/-- The digits that `reader` stands behind are an integer literal, or an error if their value is
out of range. -/
def integer (reader : Reader) : Except Fault Reading := do
  let digits ← reader.held
  if (Number.int64? digits).isSome then return (← reader.cut .integer, none)
  let report := Diagnostic.integerTooLarge (← reader.heldSpan) reader.heldLine
  return (← reader.cut .error, some report)

def number (reader : Reader) : Except Fault Reading := do
  let digits ← reader.readWhile Text.isDigit
  let part ← fraction digits.2
  if part.1 then return (← part.2.cut .float, none)
  integer part.2

def nameKind (text : List Char) : Kind :=
  match Keyword.ofChars? text with
  | some word => .keyword word
  | none => .identifier

def name (reader : Reader) : Except Fault Reading := do
  let run ← reader.readWhile Text.isNamePart
  return (← run.2.cut (nameKind (← run.2.held)), none)

/-- Number of characters up to the closing quote and including it, `seen` of them before the text
at hand; none if the literal stays open.  A character behind a backslash closes nothing. -/
def closing? (quote : Char) (escaped : Bool) (seen : Nat) : List Char → Option Nat
  | [] => none
  | c :: rest =>
    if escaped then closing? quote false (seen + 1) rest
    else if c = '\\' then closing? quote true (seen + 1) rest
    else if c = quote then some (seen + 1)
    else closing? quote false (seen + 1) rest

/-- A string literal ends with the quote it began with; one that stays open is an error up to the
end of the text. -/
def string (quote : Char) (reader : Reader) : Except Fault Reading := do
  let reader := reader.read.2
  match closing? quote false 0 reader.point.rest with
  | some count => return (← (reader.skip count).cut .string, none)
  | none =>
    let all ← reader.readWhile fun _ => true
    let report := Diagnostic.openString (← all.2.heldSpan) all.2.heldLine
    return (← all.2.cut .error, some report)

def readFirst : List Operator → Reader → Option Operator × Reader
  | [], reader => (none, reader)
  | operator :: others, reader =>
    let tried := reader.readLiteral operator.chars
    if tried.1 then (some operator, tried.2) else readFirst others tried.2

theorem readFirst_fst (operators : List Operator) (reader : Reader) :
    (readFirst operators reader).1 =
      operators.find? fun operator => reader.beginsWith operator.chars := by
  induction operators generalizing reader with
  | nil => rfl
  | cons operator others ih =>
    rw [readFirst, Reader.readLiteral_eq, List.find?_cons]
    cases found : reader.beginsWith operator.chars with
    | true => simp
    | false => simpa [Reader.beginsWith] using ih (reader.goTo reader.point none)

theorem readFirst_snd (operators : List Operator) (reader : Reader) :
    ∃ undo, (readFirst operators reader).2 =
      reader.goTo (reader.point.advance ((readFirst operators reader).1.elim 0 (·.chars.length)))
        undo := by
  induction operators generalizing reader with
  | nil => exact ⟨reader.undo, rfl⟩
  | cons operator others ih =>
    rw [readFirst, Reader.readLiteral_eq]
    cases found : reader.beginsWith operator.chars with
    | true => exact ⟨_, rfl⟩
    | false =>
      obtain ⟨undo, others⟩ := ih (reader.goTo reader.point none)
      exact ⟨undo, by simpa using others⟩

/-- An operator; a character that begins none is an error by itself. -/
def operator (character : Char) (reader : Reader) : Except Fault Reading := do
  let found := readFirst Operator.byLength reader
  match found.1 with
  | some operator => return (← found.2.cut (.operator operator), none)
  | none =>
    let reader := found.2.read.2
    let report := Diagnostic.strayCharacter (← reader.heldSpan) character reader.heldLine
    return (← reader.cut .error, some report)

end Lexeme

end Offside
