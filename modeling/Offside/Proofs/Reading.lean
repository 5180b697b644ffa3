import Offside.Proofs.Prospects

/-!
# Reading and cutting

A reader that holds nothing reads a text and then cuts it or drops it.  `Reads` says what it has
read so far, `Takes` which pieces it has gone through.  In neither course can an operation be
misused: whatever was read can be cut, and a mark set on the way can be returned to.
-/

namespace Offside

namespace Reader

/-- A reader that holds nothing, between two parts of its source. -/
structure Clear (reader : Reader) : Prop where
  start : reader.start = reader.point
  placed : ∃ front, reader.source.chars = front ++ reader.point.rest ∧
    reader.point = .between front reader.point.rest

/-- `after` has read `text` from where `reader` stands, `rest` is ahead of it, and nothing was cut
or dropped on the way. -/
structure Reads (reader : Reader) (text rest : List Char) (after : Reader) : Prop where
  source : after.source = reader.source
  queue : after.queue = reader.queue
  lastCut : after.lastCut = reader.lastCut
  start : after.start = reader.start
  ahead : reader.point.rest = text ++ rest
  point : after.point = reader.point.advance text.length

/-- `after` has gone through pieces from where `reader` stands, and holds nothing. -/
structure Takes (reader : Reader) (pieces : List Piece) (after : Reader) : Prop where
  source : after.source = reader.source
  queue : after.queue = reader.queue ++ Piece.tokens reader.source reader.point pieces
  lastCut : after.lastCut = Piece.lastKind pieces reader.lastCut
  start : after.start = after.point
  ahead : ∃ rest, reader.point.rest = Piece.texts pieces ++ rest
  point : after.point = reader.point.advance (Piece.texts pieces).length

variable {reader middle after : Reader} {text rest : List Char}

theorem clear_ofSource (source : Source) : (ofSource source).Clear :=
  ⟨rfl, [], rfl, rfl⟩

theorem Clear.advance (clear : reader.Clear) (ahead : reader.point.rest = text ++ rest) :
    ∃ front, reader.source.chars = front ++ (text ++ rest) ∧
      reader.point = .between front (text ++ rest) ∧
      reader.point.advance text.length = .between (front ++ text) rest := by
  obtain ⟨front, content, point⟩ := clear.placed
  rw [ahead] at content point
  exact ⟨front, content, point, by rw [point, Point.advance_between]⟩

/-! ## Reading -/

namespace Reads

theorem refl (reader : Reader) : reader.Reads [] reader.point.rest reader :=
  ⟨rfl, rfl, rfl, rfl, rfl, rfl⟩

theorem rest_eq (reads : reader.Reads text rest middle) : middle.point.rest = rest := by
  rw [reads.point, Point.rest_advance, reads.ahead, List.drop_left]

theorem goTo {more : List Char} (reads : reader.Reads text (more ++ rest) middle)
    (undo : Option (Option Char)) :
    reader.Reads (text ++ more) rest (middle.goTo (middle.point.advance more.length) undo) where
  source := reads.source
  queue := reads.queue
  lastCut := reads.lastCut
  start := reads.start
  ahead := by rw [reads.ahead, List.append_assoc]
  point := by rw [point_goTo, reads.point, ← Point.advance_add, List.length_append]

theorem stay (reads : reader.Reads text rest middle) (undo : Option (Option Char)) :
    reader.Reads text rest (middle.goTo middle.point undo) :=
  ⟨reads.source, reads.queue, reads.lastCut, reads.start, reads.ahead, reads.point⟩

theorem setMark (reads : reader.Reads text rest middle) :
    reader.Reads text rest middle.setMark :=
  ⟨reads.source, reads.queue, reads.lastCut, reads.start, reads.ahead, reads.point⟩

theorem peek (reads : reader.Reads text rest middle) :
    ∃ after, middle.peek = .ok (rest.head?, after) ∧ reader.Reads text rest after ∧
      after.mark = middle.mark :=
  ⟨_, by rw [peek_eq, Point.ahead?, reads.rest_eq], reads.stay none, rfl⟩

theorem read {c : Char} (reads : reader.Reads text (c :: rest) middle) :
    reader.Reads (text ++ [c]) rest middle.read.2 :=
  @goTo reader middle text rest [c] reads _

theorem skip {more : List Char} (reads : reader.Reads text (more ++ rest) middle) :
    reader.Reads (text ++ more) rest (middle.skip more.length) := by
  induction more generalizing text middle with
  | nil => simpa [Reader.skip] using reads
  | cons c more ih => simpa [Reader.skip] using ih reads.read

theorem readWhile (reads : reader.Reads text rest middle) (accepts : Char → Bool) :
    ∃ after, middle.readWhile accepts = .ok ((rest.takeWhile accepts).length, after) ∧
      reader.Reads (text ++ rest.takeWhile accepts) (rest.dropWhile accepts) after ∧
      after.mark = middle.mark := by
  have whole : reader.Reads text (rest.takeWhile accepts ++ rest.dropWhile accepts) middle := by
    rwa [List.takeWhile_append_dropWhile]
  have closed := readWhile_eq middle accepts
  rw [Point.run, reads.rest_eq] at closed
  exact ⟨_, closed, whole.goTo _, rfl⟩

theorem readOneOf {c : Char} (reads : reader.Reads text (c :: rest) middle) (valid : List Char)
    (accepted : valid.contains c = true) :
    ∃ after, middle.readOneOf valid = .ok (true, after) ∧
      reader.Reads (text ++ [c]) rest after ∧ after.mark = middle.mark := by
  refine ⟨middle.read.2, ?_, reads.read, rfl⟩
  rw [readOneOf_eq, Point.ahead?, reads.rest_eq]
  exact if_pos accepted

theorem readOneOf_none (reads : reader.Reads text rest middle) (valid : List Char)
    (refused : rest.head?.any valid.contains = false) :
    ∃ after, middle.readOneOf valid = .ok (false, after) ∧
      reader.Reads text rest after ∧ after.mark = middle.mark := by
  refine ⟨_, ?_, reads.stay none, rfl⟩
  rw [readOneOf_eq, Point.ahead?, reads.rest_eq, refused]
  rfl

theorem readLiteral {literal : List Char} (reads : reader.Reads text (literal ++ rest) middle) :
    ∃ after, middle.readLiteral literal = (true, after) ∧
      reader.Reads (text ++ literal) rest after ∧ after.mark = middle.mark := by
  have begins : middle.beginsWith literal = true := by
    rw [beginsWith, reads.rest_eq]
    exact List.isPrefixOf_iff_prefix.2 (List.prefix_append ..)
  exact ⟨_, by rw [readLiteral_eq, if_pos begins], reads.goTo _, rfl⟩

theorem readLiteral_none {literal : List Char} (reads : reader.Reads text rest middle)
    (refused : literal.isPrefixOf rest = false) :
    ∃ after, middle.readLiteral literal = (false, after) ∧
      reader.Reads text rest after ∧ after.mark = middle.mark := by
  refine ⟨_, ?_, reads.stay none, rfl⟩
  rw [readLiteral_eq, beginsWith, reads.rest_eq, refused]
  rfl

theorem lineBreak (reads : reader.Reads text rest middle) :
    ∃ after, Lexeme.lineBreak middle = .ok (!(Text.breakAhead rest).isEmpty, after) ∧
      reader.Reads (text ++ Text.breakAhead rest) (rest.drop (Text.breakAhead rest).length)
        after ∧
      after.mark = middle.mark := by
  rw [Lexeme.lineBreak]
  by_cases both : ['\r', '\n'].isPrefixOf rest = true
  · obtain ⟨others, rfl⟩ := List.isPrefixOf_iff_prefix.1 both
    obtain ⟨after, tried, further, mark⟩ := reads.readLiteral
    exact ⟨after, by rw [tried]; rfl, further, mark⟩
  · obtain ⟨single, tried, same, mark⟩ := reads.readLiteral_none (Bool.eq_false_iff.2 both)
    rw [tried]
    cases rest with
    | nil =>
      obtain ⟨after, missed, same, sameMark⟩ := same.readOneOf_none ['\n', '\r'] rfl
      exact ⟨after, missed, by simpa [Text.breakAhead] using same, sameMark.trans mark⟩
    | cons c rest =>
      have one : Text.breakAhead (c :: rest) = if Text.isBreak c then [c] else [] := by
        apply if_neg
        rintro ⟨rfl, second⟩
        obtain ⟨others, rfl⟩ := List.head?_eq_some_iff.1 second
        exact both rfl
      by_cases isBreak : Text.isBreak c = true
      · have valid : ['\n', '\r'].contains c = true := by simpa [Text.isBreak] using isBreak
        obtain ⟨after, found, further, sameMark⟩ := same.readOneOf ['\n', '\r'] valid
        exact ⟨after, by simpa [one, isBreak] using found, by simpa [one, isBreak] using further,
          sameMark.trans mark⟩
      · have invalid : ['\n', '\r'].contains c = false := by simpa [Text.isBreak] using isBreak
        obtain ⟨after, missed, same, sameMark⟩ := same.readOneOf_none ['\n', '\r'] invalid
        exact ⟨after, by simpa [one, isBreak] using missed, by simpa [one, isBreak] using same,
          sameMark.trans mark⟩

/-- A mark that was set on the way, behind a part of what has been read, can be returned to. -/
theorem returnToMark {part others : List Char} (clear : reader.Clear)
    (reads : reader.Reads text rest middle)
    (mark : middle.mark = reader.point.advance part.length)
    (ahead : reader.point.rest = part ++ others) :
    ∃ after, middle.returnToMark = .ok after ∧ reader.Reads part others after := by
  obtain ⟨front, -, point, behind⟩ := clear.advance ahead
  have inOrder : ¬ middle.mark.offset < middle.start.offset := by
    rw [mark, behind, reads.start, clear.start, point]
    simp
  exact ⟨_, if_neg inOrder, reads.source, reads.queue, reads.lastCut, reads.start, ahead, mark⟩

/-! ## Held text -/

theorem held (clear : reader.Clear) (reads : reader.Reads text rest middle) :
    middle.held = .ok text := by
  obtain ⟨front, content, point, behind⟩ := clear.advance reads.ahead
  rw [← List.append_assoc] at content
  rw [Reader.held, reads.start, clear.start, reads.point, reads.source, behind, point]
  exact Source.slice_eq content

theorem heldSpan (clear : reader.Clear) (reads : reader.Reads text rest middle)
    (kind : Option Kind) (flaw : Option Flaw) :
    middle.heldSpan = .ok (Piece.span reader.source reader.point ⟨text, kind, flaw⟩) := by
  obtain ⟨front, content, point, behind⟩ := clear.advance reads.ahead
  have fits : Span.between? reader.source (Text.width front) (Text.width (front ++ text)) =
      some ⟨Text.width front, Text.width (front ++ text), reader.source⟩ := by
    apply if_pos
    simp only [Bool.and_eq_true, decide_eq_true_eq, Text.isBoundary_iff]
    refine ⟨⟨⟨by simp, by simp [Source.size, content]⟩, front, _, content, rfl⟩,
      front ++ text, rest, by simp [content], rfl⟩
  rw [Reader.heldSpan, reads.start, clear.start, reads.point, reads.source, behind, point]
  simp only [Point.offset_between, fits, Piece.span, Point.advance_between]

theorem heldLine (clear : reader.Clear) (reads : reader.Reads text rest middle) :
    middle.heldLine = reader.point.line := by
  rw [Reader.heldLine, reads.start, clear.start]

theorem cut (clear : reader.Clear) (reads : reader.Reads text rest middle) (kind : Kind)
    (flaw : Option Flaw) :
    ∃ after, middle.cut kind = .ok after ∧ reader.Takes [⟨text, some kind, flaw⟩] after := by
  refine ⟨_, by rw [Reader.cut, reads.heldSpan clear (some kind) flaw]; rfl, ?_⟩
  exact {
    source := reads.source
    queue := by
      rw [Piece.tokens_singleton, reads.start, clear.start, reads.queue]
      rfl
    lastCut := rfl
    start := rfl
    ahead := ⟨rest, by simpa using reads.ahead⟩
    point := by simpa using reads.point }

theorem drop (reads : reader.Reads text rest middle) :
    reader.Takes [.dropped text] middle.drop where
  source := reads.source
  queue := reads.queue.trans (List.append_nil _).symm
  lastCut := reads.lastCut
  start := rfl
  ahead := ⟨rest, by simpa [Piece.dropped] using reads.ahead⟩
  point := reads.point.trans (by simp [Piece.dropped])

theorem clear_of_nil (clear : reader.Clear) (reads : reader.Reads [] rest middle) :
    middle.Clear := by
  have same : middle.point = reader.point := reads.point
  refine ⟨by rw [reads.start, clear.start, same], ?_⟩
  rw [reads.source, same]
  exact clear.placed

end Reads

/-! ## Going through pieces -/

namespace Takes

variable {pieces others : List Piece}

theorem of_reads (clear : reader.Clear) (reads : reader.Reads [] rest after) :
    reader.Takes [] after where
  source := reads.source
  queue := by simpa using reads.queue
  lastCut := reads.lastCut
  start := (reads.clear_of_nil clear).start
  ahead := ⟨rest, reads.ahead⟩
  point := reads.point

theorem clear (clear : reader.Clear) (takes : reader.Takes pieces after) : after.Clear := by
  obtain ⟨rest, ahead⟩ := takes.ahead
  obtain ⟨front, content, -, behind⟩ := clear.advance ahead
  refine ⟨takes.start, front ++ Piece.texts pieces, ?_⟩
  rw [takes.source, takes.point, behind, content]
  simp

theorem rest_eq (takes : reader.Takes pieces after) :
    after.point.rest = reader.point.rest.drop (Piece.texts pieces).length := by
  rw [takes.point, Point.rest_advance]

theorem append (first : reader.Takes pieces middle) (second : middle.Takes others after) :
    reader.Takes (pieces ++ others) after where
  source := second.source.trans first.source
  queue := by
    rw [second.queue, first.queue, first.source, first.point, Piece.tokens_append,
      List.append_assoc]
  lastCut := by rw [second.lastCut, first.lastCut, Piece.lastKind_append]
  start := second.start
  ahead := by
    obtain ⟨rest, ahead⟩ := first.ahead
    obtain ⟨further, behind⟩ := second.ahead
    refine ⟨further, ?_⟩
    rw [first.rest_eq, ahead, List.drop_left] at behind
    rw [ahead, behind, Piece.texts_append, List.append_assoc]
  point := by
    rw [second.point, first.point, ← Point.advance_add, Piece.texts_append, List.length_append]

theorem cutMany (clear : reader.Clear) (kind : Kind) (count : Nat) :
    ∃ after, cutMany kind count reader = .ok after ∧
      reader.Takes (List.replicate count (.cut kind [])) after := by
  induction count generalizing reader with
  | zero => exact ⟨reader, rfl, of_reads clear (.refl reader)⟩
  | succ count ih =>
    obtain ⟨middle, cutting, first⟩ := (Reads.refl reader).cut clear kind none
    obtain ⟨after, others, further⟩ := ih (first.clear clear)
    exact ⟨after, by rw [Reader.cutMany, cutting]; exact others, first.append further⟩

end Takes

end Reader

end Offside
