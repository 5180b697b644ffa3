import Offside.Reader.Point
import Offside.Token.Basic

/-!
# Readers

A reader goes through a source character by character and cuts tokens out of it.  It holds on to
the text that was read since the last token was cut or text was dropped.  It knows what its last
step forward read, so that one `unread` can undo it, and it keeps a mark to which it can return.
Tokens that were cut wait in a queue.

An operation that is misused raises a fault and leaves the reader as it was.
-/

namespace Offside

structure Reader where
  source : Source
  point : Point
  /-- What the last step forward read, as long as it can be undone; at the end it read nothing. -/
  undo : Option (Option Char)
  /-- Where `returnToMark` returns to. -/
  mark : Point
  /-- Where the held text begins. -/
  start : Point
  /-- The tokens that were cut and not yet taken, oldest first. -/
  queue : List Token
  /-- The kind of the token that was cut last. -/
  lastCut : Option Kind
  deriving DecidableEq, Repr

namespace Reader

def ofSource (source : Source) : Reader :=
  let origin := Point.origin source.chars
  ⟨source, origin, none, origin, origin, [], none⟩

def left (reader : Reader) : Nat := reader.point.rest.length

def goTo (reader : Reader) (point : Point) (undo : Option (Option Char)) : Reader :=
  { reader with point := point, undo := undo }

/-! ## Reading -/

/-- Reads the next character; at the end there is none, and the reader stays. -/
def read (reader : Reader) : Option Char × Reader :=
  (reader.point.ahead?, reader.goTo reader.point.step (some reader.point.ahead?))

/-- Undoes the last step forward, once. -/
def unread (reader : Reader) : Except Fault Reader :=
  match reader.undo with
  | none => .error .nothingToUndo
  | some none => .ok (reader.goTo reader.point none)
  | some (some c) => (reader.point.stepBack c).map fun back => reader.goTo back none

def peek (reader : Reader) : Except Fault (Option Char × Reader) :=
  reader.read.2.unread.map fun back => (reader.read.1, back)

/-- The `n`-th character ahead, counted from one. -/
def peekAt (reader : Reader) : (n : Nat) → Except Fault (Option Char)
  | 0 => .error .zeroLookahead
  | n + 1 => .ok reader.point.rest[n]?

def readOneOf (reader : Reader) (valid : List Char) : Except Fault (Bool × Reader) :=
  if reader.read.1.any valid.contains then .ok (true, reader.read.2)
  else reader.read.2.unread.map fun back => (false, back)

/-- Reads from the text `ahead` as long as its characters satisfy a predicate, and counts them.
The first one that does not is read and undone. -/
def readRun (accepts : Char → Bool) : (ahead : List Char) → Reader → Except Fault (Nat × Reader)
  | [], reader => .ok (0, reader.read.2)
  | c :: ahead, reader =>
    if accepts c then (readRun accepts ahead reader.read.2).map fun run => (run.1 + 1, run.2)
    else reader.read.2.unread.map fun back => (0, back)

def readWhile (reader : Reader) (accepts : Char → Bool) : Except Fault (Nat × Reader) :=
  readRun accepts reader.point.rest reader

def beginsWith (reader : Reader) (literal : List Char) : Bool :=
  literal.isPrefixOf reader.point.rest

/-- Reads the characters of `literal` one after the other, up to the first one that the text ahead
does not go on with. -/
def readEach : (literal : List Char) → Reader → Bool × Reader
  | [], reader => (true, reader)
  | c :: literal, reader =>
    if reader.read.1 = some c then readEach literal reader.read.2 else (false, reader.read.2)

/-- Reads `literal` if the text ahead begins with it, and otherwise goes back to where it stood. -/
def readLiteral (reader : Reader) (literal : List Char) : Bool × Reader :=
  let each := readEach literal reader
  if each.1 then each else (false, reader.goTo reader.point none)

def skip : (count : Nat) → Reader → Reader
  | 0, reader => reader
  | count + 1, reader => skip count reader.read.2

/-! ## Marking -/

def setMark (reader : Reader) : Reader := { reader with mark := reader.point }

/-- Returns to the mark, unless the held text begins behind it. -/
def returnToMark (reader : Reader) : Except Fault Reader :=
  if reader.mark.offset < reader.start.offset then .error .markBehindStart
  else .ok (reader.goTo reader.mark none)

/-! ## Held text -/

def held (reader : Reader) : Except Fault (List Char) :=
  reader.source.slice reader.start.offset reader.point.offset

def heldSpan (reader : Reader) : Except Fault Span :=
  match Span.between? reader.source reader.start.offset reader.point.offset with
  | some span => .ok span
  | none => .error .heldReversed

def heldLine (reader : Reader) : Nat := reader.start.line

def drop (reader : Reader) : Reader := { reader with start := reader.point }

/-- Cuts the held text off as a token, which goes to the end of the queue. -/
def cut (reader : Reader) (kind : Kind) : Except Fault Reader := do
  let span ← reader.heldSpan
  return { reader with
    queue := reader.queue ++ [⟨kind, span, reader.start.line⟩]
    lastCut := some kind
    start := reader.point }

/-- Cuts `count` tokens of one kind; all but the first are empty. -/
def cutMany (kind : Kind) : (count : Nat) → Reader → Except Fault Reader
  | 0, reader => .ok reader
  | count + 1, reader => do cutMany kind count (← reader.cut kind)

def take (reader : Reader) : Option Token × Reader :=
  match reader.queue with
  | [] => (none, reader)
  | token :: rest => (some token, { reader with queue := rest })

/-! ## What reading comes to -/

@[simp] theorem goTo_goTo (reader : Reader) (p q : Point) (u v : Option (Option Char)) :
    (reader.goTo p u).goTo q v = reader.goTo q v := rfl

@[simp] theorem point_goTo (reader : Reader) (point : Point) (undo : Option (Option Char)) :
    (reader.goTo point undo).point = point := rfl

@[simp] theorem undo_goTo (reader : Reader) (point : Point) (undo : Option (Option Char)) :
    (reader.goTo point undo).undo = undo := rfl

@[simp] theorem left_goTo (reader : Reader) (point : Point) (undo : Option (Option Char)) :
    (reader.goTo point undo).left = point.rest.length := rfl

theorem unread_read (reader : Reader) :
    reader.read.2.unread = .ok (reader.goTo reader.point none) := by
  cases ahead : reader.point.ahead? with
  | none =>
    have stays : reader.point.step = reader.point := by
      unfold Point.step
      split
      next => rfl
      next h => simp [Point.ahead?, h] at ahead
    simp [read, unread, ahead, stays]
  | some c => simp [read, unread, ahead, Point.stepBack_step ahead, Except.map]

theorem peek_eq (reader : Reader) :
    reader.peek = .ok (reader.point.ahead?, reader.goTo reader.point none) := by
  rw [peek, unread_read]
  rfl

theorem readOneOf_eq (reader : Reader) (valid : List Char) :
    reader.readOneOf valid =
      if reader.point.ahead?.any valid.contains then .ok (true, reader.read.2)
      else .ok (false, reader.goTo reader.point none) := by
  rw [readOneOf, unread_read]
  rfl

/-- The end of the text is found by a step that stays and can be undone; a character that ends the
run is only looked at. -/
theorem readRun_eq (accepts : Char → Bool) {ahead : List Char} {reader : Reader}
    (here : reader.point.rest = ahead) :
    readRun accepts ahead reader =
      let stop := reader.point.advance (reader.point.run accepts)
      .ok (reader.point.run accepts,
        reader.goTo stop (if stop.rest.isEmpty then some none else none)) := by
  induction ahead generalizing reader with
  | nil =>
    have stays : reader.point.step = reader.point := by simp [Point.step, here]
    simp [readRun, read, Point.run, Point.advance, Point.ahead?, here, stays]
  | cons c ahead ih =>
    by_cases accepted : accepts c = true
    · have further := @ih reader.read.2 (by simp [read, here])
      have longer : reader.point.run accepts = reader.point.step.run accepts + 1 := by
        simp [Point.run, here, accepted]
      rw [readRun, if_pos accepted, further, longer]
      rfl
    · rw [readRun, if_neg accepted, unread_read]
      simp [Point.run, Point.advance, here, accepted, Except.map]

theorem readWhile_eq (reader : Reader) (accepts : Char → Bool) :
    reader.readWhile accepts =
      let stop := reader.point.advance (reader.point.run accepts)
      .ok (reader.point.run accepts,
        reader.goTo stop (if stop.rest.isEmpty then some none else none)) :=
  readRun_eq accepts rfl

theorem readEach_fst (literal : List Char) (reader : Reader) :
    (readEach literal reader).1 = reader.beginsWith literal := by
  induction literal generalizing reader with
  | nil => rfl
  | cons c literal ih =>
    rw [readEach]
    cases ahead : reader.point.rest with
    | nil => simp [read, Point.ahead?, beginsWith, ahead]
    | cons first rest =>
      by_cases same : first = c
      · simp [read, Point.ahead?, ahead, same, ih, beginsWith]
      · simp [read, Point.ahead?, ahead, same, beginsWith, List.isPrefixOf, Ne.symm same]

theorem readEach_snd {literal : List Char} {reader : Reader}
    (found : reader.beginsWith literal = true) :
    (readEach literal reader).2 =
      reader.goTo (reader.point.advance literal.length)
        ((literal.getLast?.map some).or reader.undo) := by
  induction literal generalizing reader with
  | nil => rfl
  | cons c literal ih =>
    cases ahead : reader.point.rest with
    | nil => simp [beginsWith, ahead] at found
    | cons first rest =>
      obtain ⟨rfl, others⟩ : c = first ∧ literal.isPrefixOf rest = true := by
        simpa [beginsWith, ahead] using found
      have here : reader.read.1 = some c := by simp [read, Point.ahead?, ahead]
      rw [readEach, if_pos here, ih (by simpa [beginsWith, read, ahead] using others)]
      have last : ((c :: literal).getLast?.map some).or reader.undo =
          (literal.getLast?.map some).or (some (some c)) := by
        cases literal with
        | nil => rfl
        | cons d literal => simp [List.getLast?_cons]
      simp only [last, read, goTo_goTo, undo_goTo, point_goTo, Point.ahead?, ahead,
        List.head?_cons, List.length_cons, Point.advance]

theorem readLiteral_eq (reader : Reader) (literal : List Char) :
    reader.readLiteral literal =
      if reader.beginsWith literal then
        (true, reader.goTo (reader.point.advance literal.length)
          ((literal.getLast?.map some).or reader.undo))
      else (false, reader.goTo reader.point none) := by
  unfold readLiteral
  simp only [readEach_fst]
  split
  next found => rw [← readEach_snd found, ← found, ← readEach_fst]
  next => rfl

end Reader

end Offside
