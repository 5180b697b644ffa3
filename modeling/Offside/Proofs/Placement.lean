import Mathlib.Data.List.Basic
import Offside.Proofs.LineTable
import Offside.Reader.Command

/-!
# Where a reader stands

Whatever is done with a reader, it stands between two characters of its source, and so do the
start of the held text and the mark.  What its last step forward read is what lies right behind
it, so undoing that never goes below zero.
-/

namespace Offside

namespace Point

/-- A point that walking over a front of the text leads to. -/
inductive LiesIn : (text : List Char) → Point → Prop where
  | between (front rest : List Char) : LiesIn (front ++ rest) (.between front rest)

theorem liesIn_origin (text : List Char) : (origin text).LiesIn text := .between [] text

variable {text : List Char} {point : Point}

theorem LiesIn.exists_front (liesIn : point.LiesIn text) :
    ∃ front, text = front ++ point.rest ∧ point.offset = Text.width front := by
  obtain ⟨front, rest⟩ := liesIn
  exact ⟨front, rfl, rfl⟩

theorem LiesIn.dropBytes?_eq (liesIn : point.LiesIn text) :
    Text.dropBytes? text point.offset = some point.rest := by
  obtain ⟨front, rfl, offset⟩ := liesIn.exists_front
  rw [offset, Text.dropBytes?_append]

theorem LiesIn.isBoundary (liesIn : point.LiesIn text) :
    Text.isBoundary text point.offset = true := by
  rw [Text.isBoundary, liesIn.dropBytes?_eq]
  rfl

theorem LiesIn.step (liesIn : point.LiesIn text) : point.step.LiesIn text := by
  obtain ⟨front, rest⟩ := liesIn
  cases rest with
  | nil => exact .between front []
  | cons c rest =>
    rw [step_between, List.append_cons]
    exact .between (front ++ [c]) rest

theorem LiesIn.advance (liesIn : point.LiesIn text) (count : Nat) :
    (point.advance count).LiesIn text := by
  induction count generalizing point with
  | zero => exact liesIn
  | succ count ih => exact ih liesIn.step

/-- A point at which a step forward arrived, and what that step read. -/
inductive Reached (text : List Char) : (last : Option Char) → Point → Prop where
  | stayed {point : Point} (atEnd : point.rest = []) : Reached text none point
  | stepped {back : Point} {c : Char} (liesIn : back.LiesIn text) (ahead : back.ahead? = some c) :
      Reached text (some c) back.step

theorem LiesIn.reached (liesIn : point.LiesIn text) : Reached text point.ahead? point.step := by
  cases ahead : point.ahead? with
  | none =>
    apply Reached.stayed
    rw [rest_step, List.head?_eq_none_iff.1 ahead]
    rfl
  | some c => exact .stepped liesIn ahead

end Point

structure Span.BeginsOn (source : Source) (line : Nat) (span : Span) : Prop where
  sameSource : span.source = source
  start : ∃ point : Point, point.LiesIn source.chars ∧ point.offset = span.start ∧ point.line = line

namespace Reader

/-- A reader of a source whose points all lie in it. -/
structure Placed (source : Source) (reader : Reader) : Prop where
  sameSource : reader.source = source
  point : reader.point.LiesIn source.chars
  start : reader.start.LiesIn source.chars
  mark : reader.mark.LiesIn source.chars
  undo : ∀ last, reader.undo = some last → Point.Reached source.chars last reader.point
  queue : ∀ token ∈ reader.queue, token.span.BeginsOn source token.line

/-- What may become of a reader of a source. -/
inductive Orderly (source : Source) : Except Fault Reader → Prop where
  | ok {after : Reader} (placed : after.Placed source) : Orderly source (.ok after)
  | fault {fault : Fault} (other : fault ≠ .belowZero) : Orderly source (.error fault)

theorem placed_ofSource (source : Source) : (ofSource source).Placed source where
  sameSource := rfl
  point := Point.liesIn_origin _
  start := Point.liesIn_origin _
  mark := Point.liesIn_origin _
  undo _ none := by cases none
  queue := by simp [ofSource]

variable {source : Source} {reader : Reader}

namespace Placed

theorem goTo (placed : reader.Placed source) {point : Point} (liesIn : point.LiesIn source.chars)
    {undo : Option (Option Char)}
    (reached : ∀ last, undo = some last → Point.Reached source.chars last point) :
    (reader.goTo point undo).Placed source where
  sameSource := placed.sameSource
  point := liesIn
  start := placed.start
  mark := placed.mark
  undo := reached
  queue := placed.queue

theorem goBack (placed : reader.Placed source) {point : Point} (liesIn : point.LiesIn source.chars) :
    (reader.goTo point none).Placed source :=
  placed.goTo liesIn (by simp)

theorem read (placed : reader.Placed source) : reader.read.2.Placed source := by
  apply placed.goTo placed.point.step
  rintro last ⟨⟩
  exact placed.point.reached

theorem unread (placed : reader.Placed source) :
    reader.unread = .error .nothingToUndo ∨ ∃ after, reader.unread = .ok after ∧ after.Placed source := by
  rw [Reader.unread]
  cases undo : reader.undo with
  | none => exact .inl rfl
  | some last =>
    right
    generalize standing : reader.point = point
    have reached := placed.undo last undo
    rw [standing] at reached
    cases reached with
    | stayed atEnd => exact ⟨_, rfl, placed.goBack (standing ▸ placed.point)⟩
    | stepped liesIn ahead =>
      refine ⟨_, ?_, placed.goBack liesIn⟩
      simp only [Point.stepBack_step ahead, Except.map]

theorem readWhile (placed : reader.Placed source) (accepts : Char → Bool) :
    ∃ run, reader.readWhile accepts = .ok run ∧ run.2.Placed source := by
  -- A run that comes to the end of the text leaves a step there that read nothing.
  refine ⟨_, readWhile_eq reader accepts, placed.goTo (placed.point.advance _) ?_⟩
  intro last stopped
  split at stopped
  · rename_i atEnd
    cases stopped
    exact .stayed (List.isEmpty_iff.1 atEnd)
  · cases stopped

theorem readEach (placed : reader.Placed source) (literal : List Char) :
    (Reader.readEach literal reader).2.Placed source := by
  induction literal generalizing reader with
  | nil => exact placed
  | cons c literal ih =>
    rw [Reader.readEach]
    split
    · exact ih placed.read
    · exact placed.read

theorem readLiteral (placed : reader.Placed source) (literal : List Char) :
    (reader.readLiteral literal).2.Placed source := by
  unfold Reader.readLiteral
  -- A literal that fails halfway has moved the point, but the reader goes back to where it stood.
  dsimp only
  split
  · exact placed.readEach literal
  · exact placed.goBack placed.point

theorem heldSpan (placed : reader.Placed source) :
    reader.heldSpan = .error .heldReversed ∨
      ∃ span, reader.heldSpan = .ok span ∧ span.BeginsOn source reader.start.line := by
  rw [Reader.heldSpan, Span.between?]
  split
  · rename_i span between
    right
    split at between
    · cases between
      exact ⟨_, rfl, placed.sameSource, reader.start, placed.start, rfl, rfl⟩
    · cases between
  · exact .inl rfl

theorem cut (placed : reader.Placed source) (kind : Kind) :
    reader.cut kind = .error .heldReversed ∨
      ∃ after, reader.cut kind = .ok after ∧ after.Placed source := by
  rw [Reader.cut]
  rcases placed.heldSpan with fails | ⟨span, held, begins⟩
  · rw [fails]
    exact .inl rfl
  · rw [held]
    refine .inr ⟨_, rfl, { placed with start := placed.point, queue := ?_ }⟩
    intro token member
    rcases List.mem_append.1 member with waiting | new
    · exact placed.queue token waiting
    · rw [List.mem_singleton.1 new]
      exact begins

theorem take (placed : reader.Placed source) : reader.take.2.Placed source := by
  unfold Reader.take
  split
  · exact placed
  · rename_i token rest queue
    have others := placed.queue
    rw [queue] at others
    exact { placed with queue := (List.forall_mem_cons.1 others).2 }

/-- No operation moves a point of a reader out of its source, and none goes below zero. -/
theorem run (placed : reader.Placed source) (command : Command) :
    Orderly source ((reader.run command).map Prod.snd) := by
  cases command with
  | read => exact .ok placed.read
  | unread =>
    rw [Reader.run]
    rcases placed.unread with fails | ⟨after, back, placed⟩
    · rw [fails]
      exact .fault (by simp)
    · rw [back]
      exact .ok placed
  | peek =>
    rw [Reader.run, peek_eq]
    exact .ok (placed.goBack placed.point)
  | peekAt n =>
    cases n with
    | zero => exact .fault (by simp)
    | succ n => exact .ok placed
  | readOneOf valid =>
    rw [Reader.run, readOneOf_eq]
    split
    · exact .ok placed.read
    · exact .ok (placed.goBack placed.point)
  | readWhile accepts =>
    obtain ⟨run, read, after⟩ := placed.readWhile accepts
    rw [Reader.run, read]
    exact .ok after
  | readLiteral literal => exact .ok (placed.readLiteral literal)
  | setMark => exact .ok { placed with mark := placed.point }
  | returnToMark =>
    rw [Reader.run, returnToMark]
    split
    · exact .fault (by simp)
    · exact .ok (placed.goBack placed.mark)
  | held =>
    rw [Reader.run, held, Source.slice]
    split
    · exact .ok placed
    · exact .fault (by simp)
  | heldSpan =>
    rw [Reader.run]
    rcases placed.heldSpan with fails | ⟨span, held, -⟩
    · rw [fails]
      exact .fault (by simp)
    · rw [held]
      exact .ok placed
  | drop => exact .ok { placed with start := placed.point }
  | cut kind =>
    rw [Reader.run]
    rcases placed.cut kind with fails | ⟨after, cuts, placed⟩
    · rw [fails]
      exact .fault (by simp)
    · rw [cuts]
      exact .ok placed
  | take => exact .ok placed.take
  | beginsWith | heldLine | lastCut => exact .ok placed

end Placed

/-! ## Sequences of operations -/

/-- Reads as `readRun` does, with a predicate that may give up.  It does so on a character that has
been read by then, and nothing puts the reader back. -/
def tryRun (accepts : Char → Option Bool) : (ahead : List Char) → Reader → Except Fault Reader
  | [], reader => .ok reader.read.2
  | c :: ahead, reader =>
    match accepts c with
    | some true => tryRun accepts ahead reader.read.2
    | some false => reader.read.2.unread
    | none => .ok reader.read.2

theorem Placed.tryRun (placed : reader.Placed source) (accepts : Char → Option Bool)
    (ahead : List Char) : ∃ after, Reader.tryRun accepts ahead reader = .ok after ∧ after.Placed source := by
  induction ahead generalizing reader with
  | nil => exact ⟨_, rfl, placed.read⟩
  | cons c ahead ih =>
    rw [Reader.tryRun]
    split
    · exact ih placed.read
    · exact ⟨_, unread_read reader, placed.goBack placed.point⟩
    · exact ⟨_, rfl, placed.read⟩

/-- What can be tried on a reader: a command, or reading with a predicate that may give up. -/
inductive Attempt where
  | command (command : Command)
  | readTrying (accepts : Char → Option Bool)

def outcome (reader : Reader) : Attempt → Except Fault Reader
  | .command command => (reader.run command).map Prod.snd
  | .readTrying accepts => tryRun accepts reader.point.rest reader

def attempt (reader : Reader) (attempt : Attempt) : Reader :=
  match reader.outcome attempt with
  | .ok after => after
  | .error _ => reader

def attemptAll (reader : Reader) (attempts : List Attempt) : Reader :=
  attempts.foldl attempt reader

theorem Placed.outcome (placed : reader.Placed source) (attempt : Attempt) :
    Orderly source (reader.outcome attempt) := by
  cases attempt with
  | command command => exact placed.run command
  | readTrying accepts =>
    obtain ⟨after, read, placed⟩ := placed.tryRun accepts reader.point.rest
    rw [Reader.outcome, read]
    exact .ok placed

theorem Placed.attempt (placed : reader.Placed source) (attempt : Attempt) :
    (reader.attempt attempt).Placed source := by
  have orderly := placed.outcome attempt
  rw [Reader.attempt]
  generalize reader.outcome attempt = result at orderly ⊢
  cases orderly with
  | ok after => exact after
  | fault => exact placed

theorem Placed.attemptAll (placed : reader.Placed source) (attempts : List Attempt) :
    (reader.attemptAll attempts).Placed source := by
  induction attempts generalizing reader with
  | nil => exact placed
  | cons attempt attempts ih => exact ih (placed.attempt attempt)

end Reader

end Offside
