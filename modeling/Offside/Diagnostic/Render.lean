import Offside.Diagnostic.Basic
import Offside.Number
import Offside.Path
import Offside.Text.Quoted

/-!
# Rendered diagnostics

The text of a diagnostic: a message, the excerpt of its span and, for most of them, a help text.

A message is a heading for its severity and a text.  An excerpt shows the line on which a span
begins, with a row of carets under the part of the span that lies on it, and a help text.  Where
styling is on, parts of them are bold, and red, yellow or cyan.
-/

namespace Offside

/-! ## Styled text -/

inductive Color where
  | red
  | yellow
  | cyan
  deriving DecidableEq, Repr

namespace Color

def code : Color → String
  | red => "31"
  | yellow => "33"
  | cyan => "36"

end Color

namespace Style

def reset : List Char := ['\x1b', '[', '0', 'm']

def opening (color : Option Color) : List Char :=
  let codes := match color with
    | some color => "1;" ++ color.code
    | none => "1"
  ['\x1b', '['] ++ codes.toList ++ ['m']

/-- The text with `again` behind each end of a style inside it. -/
def reopen (again : List Char) : List Char → List Char
  | '\x1b' :: '[' :: '0' :: 'm' :: rest => reset ++ again ++ reopen again rest
  | c :: rest => c :: reopen again rest
  | [] => []

def bold (colored : Bool) (color : Option Color) (text : String) : String :=
  if colored then
    String.ofList (opening color ++ reopen (opening color) text.toList ++ reset)
  else text

end Style

/-! ## Messages and excerpts -/

/-- How messages are shown: whether text is coloured, and from which directory paths are seen. -/
structure View where
  colored : Bool
  directory : String
  deriving DecidableEq, Repr

inductive Severity where
  | error
  | warning
  deriving DecidableEq, Repr

namespace Severity

def heading : Severity → String
  | error => "[error]:"
  | warning => "[warning]:"

def color : Severity → Color
  | error => .red
  | warning => .yellow

end Severity

def message (view : View) (severity : Severity) (text : String) : String :=
  Style.bold view.colored (some severity.color) severity.heading ++ " " ++
    Style.bold view.colored none text

namespace Excerpt

def fill (count : Nat) (c : Char) : String := String.ofList (List.replicate count c)

/-- Number of carets under a span: one for each character up to its first line feed, and at least
one. -/
def markerLength (text : List Char) : Nat := max (Text.upToLineFeed text).length 1

def sourceLine (line : Option String) : String :=
  String.ofList (Text.trimBreaks (line.getD "").toList)

def render (view : View) (span : Span) (help : Option String) : Except Fault String := do
  let position ← span.position
  let line ← span.source.line? position.line
  let text ← span.chars
  let number := toString position.line
  let gutter := fill number.length ' '
  let bar := Style.bold view.colored (some .cyan) "|"
  let marker :=
    Style.bold view.colored (some .red) (fill (markerLength text) '^')
  return " " ++ Style.bold view.colored (some .cyan) "-->" ++ " " ++
    Path.shown view.directory span.source.path ++ ":" ++ number ++ ":" ++
    toString position.column ++ "\n" ++
    gutter ++ " " ++ bar ++ "\n" ++
    Style.bold view.colored (some .cyan) number ++ " " ++ bar ++ " " ++ sourceLine line ++ "\n" ++
    gutter ++ " " ++ bar ++ " " ++ fill (position.column - 1) ' ' ++ marker ++
    (match help with
      | some help => "\n\n" ++ help
      | none => "")

end Excerpt

/-! ## Diagnostics -/

namespace Diagnostic

def headline : Diagnostic → String
  | strayCharacter _ character _ => "unexpected character " ++ Text.charLiteral character
  | integerTooLarge .. => "integer literal is out of range"
  | openString .. => "found an unterminated string literal"
  | unevenIndentation .. => "indentation does not match any outer indentation level"

def help? (text : List Char) : Diagnostic → Option String
  | strayCharacter .. => none
  | integerTooLarge .. => some ("the largest integer literal is " ++ toString Number.maxInt64)
  | openString .. =>
    some ("add a closing `" ++ String.ofList [text.headD '\"'] ++ "` to end the literal")
  | unevenIndentation _ _ width =>
    some ("this line is indented by " ++ toString width ++ " characters")

def render (view : View) (diagnostic : Diagnostic) : Except Fault String := do
  let text ← diagnostic.span.chars
  let excerpt ← Excerpt.render view diagnostic.span (diagnostic.help? text)
  return message view .error diagnostic.headline ++ "\n" ++ excerpt

end Diagnostic

end Offside
