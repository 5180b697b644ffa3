import Offside.Reader.Basic

/-!
# Commands for a reader

The operations of a reader as data, so that sequences of them can be carried out.  A command that
raises a fault changes nothing, and the sequence goes on behind it.
-/

namespace Offside

inductive Command where
  | read
  | unread
  | peek
  | peekAt (n : Nat)
  | readOneOf (valid : List Char)
  | readWhile (accepts : Char → Bool)
  | readLiteral (literal : List Char)
  | beginsWith (literal : List Char)
  | setMark
  | returnToMark
  | held
  | heldSpan
  | heldLine
  | drop
  | cut (kind : Kind)
  | take
  | lastCut

inductive Answer where
  | done
  | char (c : Option Char)
  | flag (holds : Bool)
  | count (n : Nat)
  | text (text : List Char)
  | span (span : Span)
  | token (token : Option Token)
  | kind (kind : Option Kind)
  deriving DecidableEq, Repr

namespace Reader

def run (reader : Reader) : Command → Except Fault (Answer × Reader)
  | .read => .ok (.char reader.read.1, reader.read.2)
  | .unread => reader.unread.map fun after => (.done, after)
  | .peek => reader.peek.map fun seen => (.char seen.1, seen.2)
  | .peekAt n => (reader.peekAt n).map fun c => (.char c, reader)
  | .readOneOf valid => (reader.readOneOf valid).map fun tried => (.flag tried.1, tried.2)
  | .readWhile accepts => (reader.readWhile accepts).map fun run => (.count run.1, run.2)
  | .readLiteral literal =>
    .ok (.flag (reader.readLiteral literal).1, (reader.readLiteral literal).2)
  | .beginsWith literal => .ok (.flag (reader.beginsWith literal), reader)
  | .setMark => .ok (.count reader.point.offset, reader.setMark)
  | .returnToMark => reader.returnToMark.map fun after => (.done, after)
  | .held => reader.held.map fun text => (.text text, reader)
  | .heldSpan => reader.heldSpan.map fun span => (.span span, reader)
  | .heldLine => .ok (.count reader.heldLine, reader)
  | .drop => .ok (.done, reader.drop)
  | .cut kind => (reader.cut kind).map fun after => (.done, after)
  | .take => .ok (.token reader.take.1, reader.take.2)
  | .lastCut => .ok (.kind reader.lastCut, reader)

/-- The reader after a command; a fault leaves it as it was. -/
def perform (reader : Reader) (command : Command) : Reader :=
  match reader.run command with
  | .ok (_, after) => after
  | .error _ => reader

def performAll (reader : Reader) (commands : List Command) : Reader :=
  commands.foldl perform reader

end Reader

end Offside
