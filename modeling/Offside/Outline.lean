import Offside.Tokens
import Offside.Text.Quoted

/-!
# Outlines

The structure of a value as it is shown to a programmer: named records, applied constructors and
lists over atoms.  An outline is written on one line, or with every part on a line of its own.
Sources, spans, tokens, streams and diagnostics have one.
-/

namespace Offside

/-- The structure of a shown value. -/
inductive Outline where
  | atom (text : String)
  | record (name : String) (fields : List (String × Outline))
  | call (name : String) (parts : List Outline)
  | list (items : List Outline)

namespace Outline

/-! ## On one line -/

mutual

def line : Outline → String
  | atom text => text
  | record name fields => name ++ " \x7b " ++ String.intercalate ", " (fieldLines fields) ++ " \x7d"
  | call name parts => name ++ "(" ++ String.intercalate ", " (lines parts) ++ ")"
  | list items => "[" ++ String.intercalate ", " (lines items) ++ "]"

def lines : List Outline → List String
  | [] => []
  | part :: rest => part.line :: lines rest

def fieldLines : List (String × Outline) → List String
  | [] => []
  | (name, part) :: rest => (name ++ ": " ++ part.line) :: fieldLines rest

end

/-! ## With a line for every part -/

def margin (depth : Nat) : String := String.ofList (List.replicate (4 * depth) ' ')

mutual

/-- The outline with every part on a line of its own, at some depth. -/
def block (depth : Nat) : Outline → String
  | atom text => text
  | record name fields =>
    name ++ " \x7b\n" ++ fieldBlocks (depth + 1) fields ++ margin depth ++ "\x7d"
  | call name parts => name ++ "(\n" ++ blocks (depth + 1) parts ++ margin depth ++ ")"
  | list [] => "[]"
  | list (item :: rest) =>
    "[\n" ++ margin (depth + 1) ++ item.block (depth + 1) ++ ",\n" ++ blocks (depth + 1) rest ++
      margin depth ++ "]"

def blocks (depth : Nat) : List Outline → String
  | [] => ""
  | part :: rest => margin depth ++ part.block depth ++ ",\n" ++ blocks depth rest

def fieldBlocks (depth : Nat) : List (String × Outline) → String
  | [] => ""
  | (name, part) :: rest =>
    margin depth ++ name ++ ": " ++ part.block depth ++ ",\n" ++ fieldBlocks depth rest

end

def render (spread : Bool) (outline : Outline) : String :=
  if spread then outline.block 0 else outline.line

end Outline

/-! ## Outlines of sources, tokens and diagnostics -/

def Outline.number (n : Nat) : Outline := .atom (toString n)

def Outline.text (text : String) : Outline := .atom (Text.textLiteral text)

def Extent.describe (extent : Extent) : Outline :=
  .atom (toString extent.start ++ ".." ++ toString extent.stop)

def Source.describe (source : Source) : Outline :=
  .record "SourceFile"
    [("path", .text source.path), ("identifier", .text source.identifier),
      ("lines", .list (source.lines.toList.map Extent.describe))]

def Span.describe (span : Span) : Except Fault Outline := do
  return .record "Span"
    [("start", .number span.start), ("end", .number span.stop), ("content", .text (← span.text))]

def Kind.describe (kind : Kind) : Outline :=
  match kind with
  | .keyword word => .call kind.label [.atom word.label]
  | .operator mark => .call kind.label [.atom mark.label]
  | _ => .atom kind.label

def Token.describe (token : Token) : Except Fault Outline := do
  return .record "Token"
    [("kind", token.kind.describe), ("span", ← token.span.describe), ("line", .number token.line)]

def Tokens.describe (stream : Tokens) : Except Fault Outline :=
  (stream.toList.mapM Token.describe).map .list

def Diagnostic.fields : Diagnostic → List (String × Outline)
  | strayCharacter _ character line =>
    [("character", .atom (Text.charLiteral character)), ("line", .number line)]
  | integerTooLarge _ line => [("line", .number line)]
  | openString _ line => [("line", .number line)]
  | unevenIndentation _ line width => [("line", .number line), ("width", .number width)]

def Diagnostic.describe (diagnostic : Diagnostic) : Except Fault Outline := do
  let span ← diagnostic.span.describe
  return .call diagnostic.label [.record diagnostic.label (("span", span) :: diagnostic.fields)]

def Diagnostic.describeAll (diagnostics : List Diagnostic) : Except Fault Outline :=
  (diagnostics.mapM Diagnostic.describe).map .list

end Offside
