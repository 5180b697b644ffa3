import Mathlib.Data.List.TakeWhile
import Offside.Proofs.Reading

/-!
# Steps are strides

A step of a lexer whose reader holds nothing raises no fault, and goes through exactly the pieces
of the next stride.  One lemma says so of each lexeme, one of each mode, and `step_eq_stride` of
every step.
-/

namespace Offside

namespace Reader

/-- A reading that goes through one piece and reports the flaw of it. -/
def Yields (reader : Reader) (piece : Piece) (reading : Except Fault Reading) : Prop :=
  ∃ after, reading = .ok (after, piece.report? reader.source reader.point) ∧
    reader.Takes [piece] after

end Reader

namespace Lexeme

open Reader

variable {reader : Reader} {c : Char} {rest : List Char}

theorem newline_yields (clear : reader.Clear) :
    reader.Yields (.cut .newline (Text.breakAhead reader.point.rest)) (newline reader) := by
  obtain ⟨ended, breaking, reads, -⟩ := (Reads.refl reader).lineBreak
  obtain ⟨after, cutting, takes⟩ := reads.cut clear .newline none
  exact ⟨after, by rw [newline, breaking]; simp only [bind, Except.bind, cutting]; rfl, takes⟩

theorem restOfLine_reads {middle : Reader} {text : List Char}
    (reads : reader.Reads text rest middle) :
    ∃ after, restOfLine middle = .ok after ∧
      reader.Reads (text ++ Text.lineAhead rest) (rest.drop (Text.lineAhead rest).length) after ∧
      after.mark = middle.mark := by
  obtain ⟨after, running, further, mark⟩ := reads.readWhile fun c => !Text.isBreak c
  rw [← Text.drop_takeWhile] at further
  exact ⟨after, by rw [restOfLine, running]; rfl, further, mark⟩

theorem comment_yields (reader : Reader) :
    reader.Yields (.dropped (Text.lineAhead reader.point.rest)) (comment reader) := by
  obtain ⟨line, reading, reads, -⟩ := restOfLine_reads (Reads.refl reader)
  exact ⟨line.drop, by rw [comment, reading]; rfl, reads.drop⟩

theorem continuation_yields (ahead : reader.point.rest = c :: rest) :
    reader.Yields (.dropped (c :: Text.breakAhead rest)) (continuation reader) := by
  have first : reader.Reads [] (c :: rest) reader := ahead ▸ Reads.refl reader
  obtain ⟨joined, breaking, reads, -⟩ := first.read.lineBreak
  exact ⟨joined.drop, by rw [continuation, breaking]; rfl, reads.drop⟩

theorem blanks_yields (reader : Reader) :
    reader.Yields
      (.dropped (reader.point.rest.takeWhile fun c => Text.isBlank c && !Text.isBreak c))
      (blanks reader) := by
  obtain ⟨white, running, reads, -⟩ :=
    (Reads.refl reader).readWhile fun c => Text.isBlank c && !Text.isBreak c
  exact ⟨white.drop, by rw [blanks, running]; rfl, reads.drop⟩

theorem fraction_reads {middle : Reader} {text : List Char} (clear : reader.Clear)
    (reads : reader.Reads text rest middle) :
    ∃ after, fraction middle = .ok (!(Text.fractionAhead rest).isEmpty, after) ∧
      reader.Reads (text ++ Text.fractionAhead rest)
        (rest.drop (Text.fractionAhead rest).length) after := by
  by_cases isPoint : rest.head? = some '.'
  · obtain ⟨others, rfl⟩ := List.head?_eq_some_iff.1 isPoint
    obtain ⟨point, tried, behind, mark⟩ := reads.setMark.readOneOf ['.'] rfl
    obtain ⟨digits, running, further, sameMark⟩ := behind.readWhile Text.isDigit
    by_cases none : others.takeWhile Text.isDigit = []
    · obtain ⟨after, returned, back⟩ :=
        further.returnToMark clear ((sameMark.trans mark).trans reads.point) reads.ahead
      refine ⟨after, ?_, by simpa [Text.fractionAhead, none] using back⟩
      simp [fraction, tried, running, returned, Text.fractionAhead, none, bind, Except.bind, pure,
        Except.pure]
    · refine ⟨digits, ?_, ?_⟩
      · have some : 0 < (others.takeWhile Text.isDigit).length := List.length_pos_iff.2 none
        simp [fraction, tried, running, Text.fractionAhead, none, some, bind, Except.bind, pure,
          Except.pure]
      · simpa [Text.fractionAhead, none, Text.drop_takeWhile] using further
  · have refused : rest.head?.any ['.'].contains = false := by
      cases rest <;> simp_all
    have nothing : Text.fractionAhead rest = [] := by
      simp only [Text.fractionAhead]
      split
      next => simp at isPoint
      next => rfl
    obtain ⟨point, tried, same, mark⟩ := reads.setMark.readOneOf_none ['.'] refused
    obtain ⟨after, returned, back⟩ :=
      same.returnToMark clear (mark.trans reads.point) reads.ahead
    refine ⟨after, ?_, by simpa [nothing] using back⟩
    simp [fraction, tried, returned, nothing, bind, Except.bind, pure, Except.pure]

theorem integer_yields {middle : Reader} {digits : List Char} (clear : reader.Clear)
    (reads : reader.Reads digits rest middle) :
    reader.Yields (.ofDigits digits) (integer middle) := by
  rw [integer, Piece.ofDigits]
  rw [reads.held clear]
  by_cases inRange : (Number.int64? digits).isSome = true
  · obtain ⟨after, cutting, takes⟩ := reads.cut clear .integer none
    refine ⟨after, ?_, by rw [if_pos inRange]; exact takes⟩
    simp [inRange, cutting, bind, Except.bind, pure, Except.pure, Piece.cut, Piece.report?]
  · obtain ⟨after, cutting, takes⟩ := reads.cut clear .error (some .tooLarge)
    have span := reads.heldSpan clear (some .error) (some .tooLarge)
    refine ⟨after, ?_, by rw [if_neg inRange]; exact takes⟩
    simp [inRange, cutting, span, reads.heldLine clear, bind, Except.bind, pure, Except.pure,
      Piece.flawed, Piece.report?, Flaw.diagnostic]

theorem number_yields (clear : reader.Clear) :
    reader.Yields (.numberAhead reader.point.rest) (number reader) := by
  obtain ⟨digits, running, reads, -⟩ := (Reads.refl reader).readWhile Text.isDigit
  obtain ⟨part, fractionRead, further⟩ := fraction_reads clear reads
  rw [number, Piece.numberAhead]
  by_cases none : Text.fractionAhead (reader.point.rest.dropWhile Text.isDigit) = []
  · obtain ⟨after, reading, takes⟩ := integer_yields clear (by simpa [none] using further)
    refine ⟨after, ?_, by simpa [none] using takes⟩
    simpa [running, fractionRead, none, bind, Except.bind] using reading
  · obtain ⟨after, cutting, takes⟩ := further.cut clear .float Option.none
    refine ⟨after, ?_, by simpa [none, Piece.cut] using takes⟩
    simp [running, fractionRead, none, cutting, bind, Except.bind, pure, Except.pure, Piece.cut,
      Piece.report?]

theorem name_yields (clear : reader.Clear) :
    reader.Yields (.nameAhead reader.point.rest) (name reader) := by
  obtain ⟨run, running, reads, -⟩ := (Reads.refl reader).readWhile Text.isNamePart
  obtain ⟨after, cutting, takes⟩ :=
    reads.cut clear (nameKind (reader.point.rest.takeWhile Text.isNamePart)) none
  have held := reads.held clear
  refine ⟨after, ?_, takes⟩
  simp only [List.nil_append] at held
  simp [name, running, held, cutting, bind, Except.bind, pure, Except.pure, Piece.nameAhead,
    Piece.cut, Piece.report?]

theorem closing?_le {quote : Char} {escaped : Bool} {seen count : Nat} {text : List Char}
    (h : closing? quote escaped seen text = some count) : count ≤ seen + text.length := by
  induction text generalizing escaped seen with
  | nil => simp [closing?] at h
  | cons c text ih =>
    rw [List.length_cons, Nat.add_comm text.length, ← Nat.add_assoc]
    rw [closing?] at h
    split at h
    next => exact ih h
    next =>
    split at h
    next => exact ih h
    next =>
    split at h
    next =>
      obtain rfl := Option.some.inj h
      exact Nat.le_add_right ..
    next => exact ih h

theorem string_yields (clear : reader.Clear) (ahead : reader.point.rest = c :: rest) :
    reader.Yields (.stringAhead c rest) (string c reader) := by
  have first : reader.Reads [] (c :: rest) reader := ahead ▸ Reads.refl reader
  have behind : reader.read.2.point.rest = rest := first.read.rest_eq
  rw [string, Piece.stringAhead]
  simp only [behind]
  cases found : closing? c false 0 rest with
  | some count =>
    have fits : (rest.take count).length = count := by
      rw [List.length_take, Nat.min_eq_left]
      simpa using closing?_le found
    have whole : reader.Reads [c] (rest.take count ++ rest.drop count) reader.read.2 := by
      rw [List.take_append_drop]
      exact first.read
    have skipped := whole.skip
    rw [fits] at skipped
    obtain ⟨after, cutting, takes⟩ := skipped.cut clear .string none
    refine ⟨after, ?_, takes⟩
    simp [cutting, bind, Except.bind, pure, Except.pure, Piece.cut, Piece.report?]
  | none =>
    obtain ⟨all, running, reads, -⟩ := first.read.readWhile fun _ => true
    rw [List.takeWhile_eq_self_iff.2 (by simp)] at running reads
    obtain ⟨after, cutting, takes⟩ := reads.cut clear .error (some .unclosed)
    have span := reads.heldSpan clear (some .error) (some .unclosed)
    refine ⟨after, ?_, takes⟩
    simp [running, cutting, span, reads.heldLine clear, bind, Except.bind, pure, Except.pure,
      Piece.flawed, Piece.report?, Flaw.diagnostic]

theorem operator_yields (clear : reader.Clear) (ahead : reader.point.rest = c :: rest) :
    reader.Yields (.operatorAhead c rest) (operator c reader) := by
  have first : reader.Reads [] (c :: rest) reader := ahead ▸ Reads.refl reader
  have found := readFirst_fst Operator.byLength reader
  obtain ⟨undo, moved⟩ := readFirst_snd Operator.byLength reader
  simp only [beginsWith, ahead] at found
  rw [operator, Piece.operatorAhead]
  simp only
  cases first? : (readFirst Operator.byLength reader).1 with
  | some mark =>
    rw [first?] at found moved
    have begins : mark.chars <+: c :: rest := by
      have holds := List.find?_some found.symm
      exact List.isPrefixOf_iff_prefix.1 holds
    obtain ⟨others, whole⟩ := begins
    have reads : reader.Reads mark.chars others (readFirst Operator.byLength reader).2 := by
      -- What was tried before left the reader where it was.
      rw [moved]
      exact @Reads.goTo reader reader [] others mark.chars (whole ▸ first) undo
    obtain ⟨after, cutting, takes⟩ := reads.cut clear (.operator mark) none
    refine ⟨after, ?_, by rw [← found]; exact takes⟩
    simp [← found, cutting, bind, Except.bind, pure, Except.pure, Piece.cut, Piece.report?]
  | none =>
    rw [first?] at found moved
    have reads : reader.Reads [c] rest (readFirst Operator.byLength reader).2.read.2 := by
      rw [moved]
      exact (first.stay undo).read
    obtain ⟨after, cutting, takes⟩ := reads.cut clear .error (some (.stray c))
    have span := reads.heldSpan clear (some .error) (some (.stray c))
    refine ⟨after, ?_, by rw [← found]; exact takes⟩
    simp [← found, cutting, span, reads.heldLine clear, bind, Except.bind, pure, Except.pure,
      Piece.flawed, Piece.report?, Flaw.diagnostic]

end Lexeme

namespace Piece

@[simp] theorem reports_replicate_cut (source : Source) (point : Point) (kind : Kind)
    (count : Nat) : reports source point (List.replicate count (cut kind [])) = [] :=
  reports_eq_nil source point fun _ member => List.eq_of_mem_replicate member ▸ rfl

theorem flaw_ending {blocks : Blocks} {last : Option Kind} {piece : Piece}
    (member : piece ∈ ending blocks last) : piece.flaw = none := by
  simp only [ending, List.mem_append, List.mem_replicate, List.mem_singleton] at member
  rcases member with (newline | ⟨-, rfl⟩) | rfl
  · split at newline
    next => simp_all [cut]
    next => simp at newline
  · rfl
  · rfl

end Piece

namespace Lexer

open Reader

/-- `after` and `report` are what a stride leads to from `lexer`. -/
structure Follows (lexer : Lexer) (stride : Stride) (after : Lexer)
    (report : Option Diagnostic) : Prop where
  takes : lexer.reader.Takes stride.pieces after.reader
  mode : after.mode = stride.mode
  blocks : after.blocks = stride.blocks
  finished : after.finished = lexer.finished
  report : report.toList = Piece.reports lexer.reader.source lexer.reader.point stride.pieces

variable {lexer : Lexer} {start reader : Reader} {rest : List Char}

/-- Blocks are closed in front of the whitespace, which is read a second time behind them. -/
theorem closeDeeper_takes (clear : start.Clear)
    (reads : start.Reads (start.point.rest.takeWhile Text.isMargin) rest reader)
    (mark : reader.mark = start.point) (lexer : Lexer) (count : Nat) (exact : Bool) :
    let white := start.point.rest.takeWhile Text.isMargin
    let pieces := Piece.indentation white (.closes count exact)
    ∃ after report,
      lexer.closeDeeper reader white.length count exact =
        .ok (lexer.moveTo after .inLine, report) ∧
      start.Takes pieces after ∧
      report.toList = Piece.reports start.source start.point pieces := by
  intro white pieces
  obtain ⟨back, returned, atMark⟩ :=
    @Reads.returnToMark start reader _ rest [] start.point.rest clear reads mark rfl
  obtain ⟨front, dedents, closed⟩ := Takes.cutMany (atMark.clear_of_nil clear) .dedent count
  have closed := (Takes.of_reads clear atMark).append closed
  obtain ⟨behind, running, again, -⟩ := (Reads.refl front).readWhile Text.isMargin
  have sameRest : front.point.rest = start.point.rest := by simp [closed.rest_eq]
  rw [sameRest] at running again
  have held := reads.heldSpan clear (some .indent) (some (.uneven white.length))
  cases exact with
  | true =>
    refine ⟨behind.drop, none, ?_, closed.append again.drop, ?_⟩
    · simp only [closeDeeper, held, returned, dedents, running, bind, Except.bind]
      rfl
    · simp [pieces, Piece.indentation, Piece.reports_append, Piece.reports_singleton,
        Piece.dropped, Piece.report?]
  | false =>
    obtain ⟨after, cutting, takes⟩ :=
      again.cut (closed.clear clear) .indent (some (.uneven white.length))
    refine ⟨after, (Piece.uneven white).report? start.source start.point, ?_,
      closed.append takes, ?_⟩
    · simp only [closeDeeper, held, returned, dedents, running, reads.heldLine clear, bind,
        Except.bind, cutting]
      rfl
    · simp [pieces, Piece.indentation, Piece.reports_append, Piece.reports_singleton,
        Point.advance]

theorem openLine_follows (clear : lexer.reader.Clear)
    (reads : lexer.reader.Reads (lexer.reader.point.rest.takeWhile Text.isMargin) rest reader)
    (mark : reader.mark = lexer.reader.point) :
    let white := lexer.reader.point.rest.takeWhile Text.isMargin
    let fitted := lexer.blocks.fit white.length
    ∃ after report, lexer.openLine reader white.length = .ok (after, report) ∧
      lexer.Follows ⟨Piece.indentation white fitted.1, .inLine, fitted.2⟩ after report := by
  intro white fitted
  obtain ⟨fit, blocks, same⟩ : ∃ fit blocks, fitted = (fit, blocks) := ⟨_, _, rfl⟩
  rw [openLine]
  simp only [show lexer.blocks.fit white.length = (fit, blocks) from same, same]
  cases fit with
  | opens =>
    obtain ⟨after, cutting, takes⟩ := reads.cut clear .indent none
    refine ⟨({ lexer with blocks } : Lexer).moveTo after .inLine, none, ?_, takes, rfl, rfl, rfl, rfl⟩
    rw [cutting]
    rfl
  | same => exact ⟨_, none, rfl, reads.drop, rfl, rfl, rfl, rfl⟩
  | closes count exact =>
    obtain ⟨after, report, closing, takes, reports⟩ :=
      closeDeeper_takes clear reads mark { lexer with blocks } count exact
    exact ⟨_, report, closing, takes, rfl, rfl, rfl, reports⟩

theorem skipComment_reads {middle : Reader} {text : List Char}
    (reads : start.Reads text rest middle) :
    let comment := if rest.head? = some '#' then Text.lineAhead rest else []
    ∃ after, skipComment middle = .ok after ∧
      start.Reads (text ++ comment) (rest.drop comment.length) after ∧
      after.mark = middle.mark := by
  intro comment
  have begins : middle.beginsWith ['#'] = true ↔ rest.head? = some '#' := by
    rw [beginsWith, reads.rest_eq]
    cases rest with
    | nil => simp
    | cons c rest => simp [List.isPrefixOf, @eq_comm _ c]
  by_cases isComment : rest.head? = some '#'
  · obtain ⟨after, reading, further, mark⟩ := Lexeme.restOfLine_reads reads
    refine ⟨after, by rw [skipComment, if_pos (begins.2 isComment), reading], ?_, mark⟩
    simpa [comment, isComment] using further
  · refine ⟨middle, by rw [skipComment, if_neg (mt begins.1 isComment)], ?_, rfl⟩
    simpa [comment, isComment] using reads

theorem atMargin_follows (clear : lexer.reader.Clear) :
    ∃ after report, lexer.atMargin = .ok (after, report) ∧
      lexer.Follows (.atMargin lexer.reader.point.rest lexer.blocks) after report := by
  have begins : lexer.reader.Reads [] lexer.reader.point.rest lexer.reader.setMark :=
    (Reads.refl lexer.reader).setMark
  obtain ⟨white, running, reads, mark⟩ := begins.readWhile Text.isMargin
  obtain ⟨seen, peeking, reads, sameMark⟩ := reads.peek
  have mark := sameMark.trans mark
  rw [atMargin, Stride.atMargin]
  simp only [running, peeking, bind, Except.bind]
  generalize lexer.reader.point.rest.dropWhile Text.isMargin = rest at *
  cases rest with
  | nil => exact ⟨_, none, rfl, reads.drop, rfl, rfl, rfl, rfl⟩
  | cons c rest =>
    obtain ⟨line, skipping, reads, sameMark⟩ := skipComment_reads reads
    obtain ⟨ended, breaking, reads, nextMark⟩ := reads.lineBreak
    have mark := (nextMark.trans sameMark).trans mark
    simp only [skipping, breaking]
    by_cases blank : c = '#' ∨ Text.isBreak c = true
    · have comment : (if (c :: rest).head? = some '#' then Text.lineAhead (c :: rest) else []) =
          Text.lineAhead (c :: rest) := by
        by_cases isComment : c = '#'
        · simp [isComment]
        · simp [isComment, Text.lineAhead, blank.resolve_left isComment]
      rw [comment] at reads ⊢
      rw [if_pos blank]
      by_cases atEnd : Text.breakAhead
          ((c :: rest).drop (Text.lineAhead (c :: rest)).length) = []
      · have nothing := Text.breakAhead_drop_lineAhead atEnd
        rw [atEnd, nothing] at reads
        obtain ⟨last, peeking, reads, -⟩ := reads.peek
        refine ⟨lexer.moveTo last.drop .atEnd, none, ?_, ?_, ?_, rfl, rfl, rfl⟩
        · simp [atEnd, peeking]
          rfl
        · simpa [atEnd] using reads.drop
        · simp [moveTo, atEnd]
      · refine ⟨lexer.moveTo ended.drop .atMargin, none, ?_, ?_, ?_, rfl, rfl, rfl⟩
        · simp [atEnd]
          rfl
        · simpa using reads.drop
        · simp [moveTo, atEnd]
    · obtain ⟨noComment, noBreak⟩ := not_or.1 blank
      have nothing : Text.breakAhead (c :: rest) = [] := by
        simpa [Text.breakAhead_eq_nil] using noBreak
      simp only [List.head?_cons, Option.some.injEq, noComment, if_false, List.append_nil,
        List.length_nil, List.drop_zero, nothing, List.nil_append] at reads ⊢
      obtain ⟨last, peeking, reads, sameMark⟩ := reads.peek
      obtain ⟨after, report, opened, follows⟩ :=
        openLine_follows clear reads (sameMark.trans mark)
      refine ⟨after, report, ?_, by simpa [noBreak] using follows⟩
      simpa [peeking] using opened

theorem follows_lexeme {seen : Reader} {piece : Piece} {reading : Except Fault Reading}
    {mode : Mode} (clear : lexer.reader.Clear) (reads : lexer.reader.Reads [] rest seen)
    (yields : seen.Yields piece reading) :
    ∃ after report, lexer.lexeme mode reading = .ok (after, report) ∧
      lexer.Follows ⟨[piece], mode, lexer.blocks⟩ after report := by
  obtain ⟨after, read, takes⟩ := yields
  refine ⟨lexer.moveTo after mode, _, by rw [lexeme, read]; rfl,
    (Takes.of_reads clear reads).append takes, rfl, rfl, rfl, ?_⟩
  rw [Piece.reports_singleton, reads.source, reads.point]
  rfl

theorem inLine_follows (clear : lexer.reader.Clear) :
    ∃ after report, lexer.inLine = .ok (after, report) ∧
      lexer.Follows (.inLine lexer.reader.point.rest lexer.blocks) after report := by
  obtain ⟨seen, peeking, reads, -⟩ := (Reads.refl lexer.reader).peek
  have seenClear := reads.clear_of_nil clear
  have ahead := reads.rest_eq
  simp only [inLine, Stride.inLine]
  simp only [peeking, bind, Except.bind]
  generalize lexer.reader.point.rest = text at *
  cases text with
  | nil =>
    exact ⟨lexer.moveTo seen .atEnd, none, rfl, .of_reads clear reads, rfl, rfl, rfl, rfl⟩
  | cons c rest =>
    simp only [List.head?_cons, breakFollows, ahead, List.getElem?_cons_succ,
      ← List.head?_eq_getElem?]
    by_cases isBreak : Text.isBreak c = true
    · simp only [if_pos isBreak]
      exact follows_lexeme clear reads (ahead ▸ Lexeme.newline_yields seenClear)
    simp only [if_neg isBreak, Piece.ahead]
    by_cases isComment : c = '#'
    · simp only [if_pos isComment]
      exact follows_lexeme clear reads (ahead ▸ Lexeme.comment_yields seen)
    simp only [if_neg isComment]
    by_cases joins : c = '\\' ∧ rest.head?.any Text.isBreak = true
    · simp only [if_pos joins]
      exact follows_lexeme clear reads (Lexeme.continuation_yields ahead)
    simp only [if_neg joins]
    by_cases blank : Text.isBlank c = true
    · simp only [if_pos blank]
      exact follows_lexeme clear reads (ahead ▸ Lexeme.blanks_yields seen)
    simp only [if_neg blank]
    by_cases digit : Text.isDigit c = true
    · simp only [if_pos digit]
      exact follows_lexeme clear reads (ahead ▸ Lexeme.number_yields seenClear)
    simp only [if_neg digit]
    by_cases nameStart : Text.isNameStart c = true
    · simp only [if_pos nameStart]
      exact follows_lexeme clear reads (ahead ▸ Lexeme.name_yields seenClear)
    simp only [if_neg nameStart]
    by_cases quote : c = '\"' ∨ c = '\''
    · simp only [if_pos quote]
      exact follows_lexeme clear reads (Lexeme.string_yields seenClear ahead)
    simp only [if_neg quote]
    exact follows_lexeme clear reads (Lexeme.operator_yields seenClear ahead)

theorem endLine_takes (clear : start.Clear) :
    ∃ after, endLine start = .ok after ∧
      start.Takes (if start.lastCut.any fun kind => !kind.isLayout then [.cut .newline []] else [])
        after := by
  rw [endLine]
  split
  next => exact (Reads.refl start).cut clear .newline none
  next => exact ⟨start, rfl, .of_reads clear (.refl start)⟩

theorem atEnd_follows (clear : lexer.reader.Clear) :
    ∃ after report, lexer.atEnd = .ok (after, report) ∧
      lexer.Follows ⟨Piece.ending lexer.blocks lexer.reader.lastCut, .done, .empty⟩ after report := by
  obtain ⟨ended, ending, line⟩ := endLine_takes clear
  obtain ⟨closed, dedents, blocks⟩ :=
    Takes.cutMany (line.clear clear) .dedent lexer.blocks.size
  have both := line.append blocks
  obtain ⟨last, cutting, eof⟩ := (Reads.refl closed).cut (both.clear clear) .eof none
  refine ⟨{ lexer.moveTo last .done with blocks := .empty }, none, ?_, both.append eof, rfl, rfl, rfl, ?_⟩
  · simp only [atEnd, ending, Blocks.close_eq, dedents, cutting, bind, Except.bind]
    rfl
  · exact (Piece.reports_eq_nil _ _ fun _ => Piece.flaw_ending).symm

/-- A step raises no fault, and leads where the next stride leads. -/
theorem step_follows (clear : lexer.reader.Clear) :
    ∃ after report, lexer.step = .ok (after, report) ∧
      lexer.Follows lexer.prospect.stride after report := by
  rw [step, Prospect.stride, prospect]
  cases mode : lexer.mode with
  | atMargin => exact atMargin_follows clear
  | inLine => exact inLine_follows clear
  | atEnd => exact atEnd_follows clear
  | done => exact ⟨lexer, none, rfl, .of_reads clear (.refl _), mode, rfl, rfl, rfl⟩

end Lexer

end Offside
