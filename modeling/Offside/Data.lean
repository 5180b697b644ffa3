import Offside.Tokens

/-!
# Data

The values of a data format: numbers, texts, lists and records.  Of the numbers only natural ones
carry their value here, because nothing else is ever written or accepted.

Token streams are written as data and read back.  Every span carries the whole of its source.
Nothing about offsets or line tables is checked on reading, so a decoded span can be any pair of
numbers with any source.  Each decoded span gets a source of its own: a serial number that no other
has.
-/

namespace Offside

/-- A value of a data format. -/
inductive Data where
  | null
  | bool (value : Bool)
  | natural (n : Nat)
  | otherNumber
  | text (text : String)
  | list (items : List Data)
  | record (fields : List (String × Data))
  deriving Inhabited

namespace Data

def maxNatural : Nat := Nat.pow 2 64 - 1

def natural? : Data → Option Nat
  | natural n => if n ≤ maxNatural then some n else none
  | _ => none

def text? : Data → Option String
  | .text value => some value
  | _ => none

def list? : Data → Option (List Data)
  | list items => some items
  | _ => none

/-- The fields of a structure, in order: those of a record by name, where others may stand beside
them, or the items of a list of just that length. -/
def fields? (names : List String) : Data → Option (List Data)
  | record fields => names.mapM fun name => List.lookup name fields
  | list items => if items.length = names.length then some items else none
  | _ => none

def exactFields? (names : List String) (data : Data) : Option (List Data) :=
  match data with
  | record fields => if fields.all (names.contains ·.1) then data.fields? names else none
  | _ => data.fields? names

/-- A variant: its label, and what it carries if it is written as a record of one field. -/
def variant? : Data → Option (String × Option Data)
  | text label => some (label, none)
  | record [(label, content)] => some (label, some content)
  | _ => none

/-- The label of a variant that carries nothing; `null` may stand for the nothing. -/
def plainVariant? (data : Data) : Option String := do
  match ← data.variant? with
  | (label, none) => some label
  | (label, some null) => some label
  | _ => none

end Data

/-! ## Encoding -/

def Extent.encode (extent : Extent) : Data :=
  .record [("start", .natural extent.start), ("end", .natural extent.stop)]

def Source.encode (source : Source) : Data :=
  .record
    [("path", .text source.path), ("identifier", .text source.identifier),
      ("content", .text source.content),
      ("lines", .list (source.lines.toList.map Extent.encode))]

def Span.encode (span : Span) : Data :=
  .record
    [("start", .natural span.start), ("end", .natural span.stop),
      ("source_file", span.source.encode)]

def Kind.encode (kind : Kind) : Data :=
  match kind with
  | .keyword word => .record [(kind.label, .text word.label)]
  | .operator mark => .record [(kind.label, .text mark.label)]
  | _ => .text kind.label

def Token.encode (token : Token) : Data :=
  .record
    [("kind", token.kind.encode), ("span", token.span.encode), ("line", .natural token.line)]

def Tokens.encode (stream : Tokens) : Data :=
  .record [("tokens", .list (stream.toList.map Token.encode))]

/-! ## Decoding -/

/-- A range of offsets from data; a record has no other field. -/
def Extent.decode? (data : Data) : Option Extent := do
  match ← data.exactFields? ["start", "end"] with
  | [start, stop] => return ⟨← start.natural?, ← stop.natural?⟩
  | _ => none

def Source.decode? (serial : Nat) (data : Data) : Option Source := do
  match ← data.fields? ["path", "identifier", "content", "lines"] with
  | [path, identifier, content, lines] =>
    let extents ← (← lines.list?).mapM Extent.decode?
    return ⟨serial, ← path.text?, ← identifier.text?, (← content.text?).toList, extents.toArray⟩
  | _ => none

def Span.decode? (serial : Nat) (data : Data) : Option Span := do
  match ← data.fields? ["start", "end", "source_file"] with
  | [start, stop, source] =>
    return ⟨← start.natural?, ← stop.natural?, ← Source.decode? serial source⟩
  | _ => none

def Keyword.decode? (data : Data) : Option Keyword := do
  Keyword.ofLabel? (← data.plainVariant?)

def Operator.decode? (data : Data) : Option Operator := do
  Operator.ofLabel? (← data.plainVariant?)

def Kind.ofLabel? (label : String) : Option Kind :=
  Kind.simple.find? fun kind => kind.label == label

def Kind.decode? (data : Data) : Option Kind := do
  match ← data.variant? with
  | ("Keyword", some content) => return .keyword (← Keyword.decode? content)
  | ("Operator", some content) => return .operator (← Operator.decode? content)
  | _ => Kind.ofLabel? (← data.plainVariant?)

def Token.decode? (serial : Nat) (data : Data) : Option Token := do
  match ← data.fields? ["kind", "span", "line"] with
  | [kind, span, line] =>
    return ⟨← Kind.decode? kind, ← Span.decode? serial span, ← line.natural?⟩
  | _ => none

/-- Tokens from data, their sources under serial numbers from `serial` on. -/
def Token.decodeAll? (serial : Nat) : List Data → Option (List Token)
  | [] => some []
  | data :: rest => do
    return (← Token.decode? serial data) :: (← Token.decodeAll? (serial + 1) rest)

def Tokens.decode? (serial : Nat) (data : Data) : Option Tokens := do
  match ← data.fields? ["tokens"] with
  | [tokens] => return ⟨← Token.decodeAll? serial (← tokens.list?)⟩
  | _ => none

end Offside
