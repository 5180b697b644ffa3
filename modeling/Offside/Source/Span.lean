import Offside.Source.Basic

/-!
# Spans

A span is a range of bytes of a source.  `Span.between?` makes only spans whose ends are
boundaries of the content in ascending order; a span read back from data can be any pair.
-/

namespace Offside

/-- A range of bytes of a source, the end excluded. -/
structure Span where
  start : Nat
  stop : Nat
  source : Source
  deriving DecidableEq, Repr, Inhabited

namespace Span

/-- The span between two offsets, if they are boundaries in ascending order. -/
def between? (source : Source) (start stop : Nat) : Option Span :=
  if start ≤ stop && stop ≤ source.size && Text.isBoundary source.chars start &&
      Text.isBoundary source.chars stop then
    some ⟨start, stop, source⟩
  else none

def rest? (source : Source) (start : Nat) : Option Span := between? source start source.size

def chars (span : Span) : Except Fault (List Char) := span.source.slice span.start span.stop

def text (span : Span) : Except Fault String := span.chars.map String.ofList

def isEmpty (span : Span) : Bool := span.start == span.stop

def position (span : Span) : Except Fault Position := do
  match ← span.source.position? span.start with
  | some position => return position
  | none => throw .badSlice

/-- Whether two spans are the same range of the same source. -/
def same (a b : Span) : Bool :=
  a.source.serial == b.source.serial && a.start == b.start && a.stop == b.stop

/-- The order of spans: by source, then by start, then by end. -/
def order (a b : Span) : Ordering :=
  (compare a.source.serial b.source.serial).then
    ((compare a.start b.start).then (compare a.stop b.stop))

def sameOptions : Option Span → Option Span → Bool
  | none, none => true
  | some a, some b => a.same b
  | _, _ => false

def orderOptions : Option Span → Option Span → Ordering
  | none, none => .eq
  | none, some _ => .lt
  | some _, none => .gt
  | some a, some b => a.order b

end Span

end Offside
