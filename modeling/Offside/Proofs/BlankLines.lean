import Offside.Proofs.Insertions
import Offside.Proofs.LineBreakStyles

/-!
# Blank lines

A line without content can be inserted wherever a scan stands at the start of a line.  The scan goes
through it and stands at the start of a line again, with the same blocks open: what comes behind is
only moved.
-/

namespace Offside

open Text

namespace Text

theorem IsLineBreak.exists_last {ended rest : List Char} (isLineBreak : IsLineBreak ended rest) :
    ∃ before c, ended = before ++ [c] ∧ isBreak c = true := by
  rcases isLineBreak with rfl | rfl | ⟨rfl, -⟩
  · exact ⟨[], '\n', rfl, rfl⟩
  · exact ⟨['\r'], '\n', rfl, rfl⟩
  · exact ⟨[], '\r', rfl, rfl⟩

theorem BeginsLine.notFeed {front rest : List Char} (begins : BeginsLine front rest)
    (isReturn : front.getLast? = some '\r') : rest.head? ≠ some '\n' := by
  rcases begins with rfl | ⟨before, c, rfl, closes⟩
  · cases isReturn
  · obtain rfl : c = '\r' := by simpa using isReturn
    simpa [closesLine] using closes

namespace IsBlankLine

variable {line rest : List Char}

theorem ne_nil (isBlankLine : IsBlankLine line rest) : line ≠ [] := by
  obtain ⟨white, comment, ended, rfl, -, -, isLineBreak⟩ := isBlankLine
  simp [isLineBreak.ne_nil]

theorem breaksIn_eq (isBlankLine : IsBlankLine line rest) : breaksIn line rest = 1 := by
  obtain ⟨white, comment, ended, rfl, margin, isComment, isLineBreak⟩ := isBlankLine
  have noBreak : ∀ c ∈ white ++ comment, isBreak c = false :=
    List.forall_mem_append.2 ⟨fun c member => not_isBreak_of_isMargin (margin c member), isComment.2⟩
  rw [breaksIn_append, breaksIn_of_noBreak noBreak, isLineBreak.breaksIn_eq]

end IsBlankLine

end Text

namespace Prospect

variable {prospect after : Prospect} {pieces : List Piece} {line rest : List Char}

theorem moves_blankLine (isBlankLine : IsBlankLine line rest) (blocks : Blocks)
    (last : Option Kind) :
    Moves ⟨line ++ rest, blocks, .atMargin, last⟩ [.dropped line] ⟨rest, blocks, .atMargin, last⟩ := by
  obtain ⟨white, comment, ended, rfl, margin, isComment, isLineBreak⟩ := isBlankLine
  exact .blankLine margin isComment isLineBreak

/-! ## The start of a line -/

theorem Moves.exists_break (moves : prospect.Moves pieces after) (running : prospect.mode ≠ .done)
    (atMargin : after.mode = .atMargin) :
    ∃ piece before c, pieces = [piece] ∧ piece.text = before ++ [c] ∧ isBreak c = true := by
  cases moves with
  | ends | content | lexeme | stops | closes => cases atMargin
  | @blankLine white comment ended rest blocks last margin isComment isLineBreak =>
    obtain ⟨before, c, rfl, isBreak⟩ := isLineBreak.exists_last
    exact ⟨_, white ++ comment ++ before, c, rfl, (List.append_assoc ..).symm, isBreak⟩
  | newline isLineBreak =>
    obtain ⟨before, c, rfl, isBreak⟩ := isLineBreak.exists_last
    exact ⟨_, before, c, rfl, rfl, isBreak⟩
  | done => exact absurd rfl running

/-- A move to the start of a line stays the same if other text comes behind, unless a carriage
return and a line feed become one break. -/
theorem Moves.reseam (moves : prospect.Moves pieces after) (running : prospect.mode ≠ .done)
    (atMargin : after.mode = .atMargin) (other : List Char)
    (seam : (Piece.texts pieces).getLast? = some '\r' → other.head? ≠ some '\n') :
    Moves { prospect with text := Piece.texts pieces ++ other } pieces
      { after with text := other } := by
  cases moves with
  | ends | content | lexeme | stops | closes => cases atMargin
  | blankLine margin isComment isLineBreak =>
    have ends : IsLineBreak _ other := isLineBreak.of_seam fun isReturn => seam (by
      simp [Piece.dropped, isReturn])
    simpa [Piece.dropped] using Moves.blankLine margin isComment ends
  | newline isLineBreak =>
    have ends : IsLineBreak _ other := isLineBreak.of_seam (by simpa [Piece.cut] using seam)
    simpa [Piece.cut] using Moves.newline ends
  | done => exact absurd rfl running

end Prospect

namespace Trail

variable {first middle last : Prospect} {pieces more : List Piece} {other : List Char}

theorem cases_snoc (trail : Trail first pieces last) : first = last ∧ pieces = [] ∨
    ∃ middle front, Trail first front middle ∧ middle.mode ≠ .done ∧
      pieces = front ++ middle.stride.pieces ∧ last = middle.next := by
  induction trail with
  | refl => exact .inl ⟨rfl, rfl⟩
  | @stride prospect final others running further ih =>
    rcases ih with ⟨rfl, rfl⟩ | ⟨middle, front, upTo, goesOn, rfl, rfl⟩
    · exact .inr ⟨prospect, [], .refl _, running, by simp, rfl⟩
    · exact .inr ⟨middle, _, .stride running upTo, goesOn, by rw [List.append_assoc], rfl⟩

theorem exists_break (trail : Trail first pieces last) (atMargin : last.mode = .atMargin) :
    first = last ∧ pieces = [] ∨ ∃ front piece before c, pieces = front ++ [piece] ∧
      piece.text = before ++ [c] ∧ isBreak c = true := by
  rcases trail.cases_snoc with same | ⟨middle, front, -, running, rfl, rfl⟩
  · exact .inl same
  · obtain ⟨piece, before, c, alone, text, isBreak⟩ := middle.moves.exists_break running atMargin
    exact .inr ⟨front, piece, before, c, by rw [alone], text, isBreak⟩

theorem reseam (trail : Trail first pieces last) (atMargin : last.mode = .atMargin)
    (seam : (Piece.texts pieces).getLast? = some '\r' → other.head? ≠ some '\n') :
    Trail { first with text := Piece.texts pieces ++ other } pieces { last with text := other } := by
  rcases trail.cases_snoc with ⟨rfl, rfl⟩ | ⟨middle, front, upTo, running, rfl, rfl⟩
  · exact .refl _
  · have moves := middle.moves
    obtain ⟨piece, before, c, alone, text, isBreak⟩ := moves.exists_break running atMargin
    have covered : Piece.texts middle.stride.pieces = before ++ [c] := by simp [alone, text]
    have ahead : middle.text = before ++ c :: middle.next.text := by
      rw [middle.leads.text_eq, covered, List.append_assoc]
      rfl
    have here := upTo.replace (moves.isReading running (.inl atMargin)) ahead
      (.inl (isBlank_of_isBreak isBreak)) other (by simp)
    have ends := moves.reseam running atMargin other fun isReturn => seam (by
      rw [Piece.texts_append]
      exact List.mem_getLast?_append_of_mem_getLast? isReturn)
    have there := here.trans (by simpa [covered] using ends.trail running (.refl _))
    simpa [covered] using there

theorem rebase (trail : Trail first pieces middle) (inLine : middle.mode = .inLine)
    (further : Trail middle more last) (atMargin : last.mode = .atMargin) (other : List Char) :
    Piece.texts more ≠ [] ∧ Trail { first with text := Piece.texts (pieces ++ more) ++ other } pieces
      { middle with text := Piece.texts more ++ other } := by
  rcases further.exists_break atMargin with ⟨rfl, -⟩ | ⟨front, piece, before, c, rfl, text, isBreak⟩
  · simp [inLine] at atMargin
  · have ahead : middle.text = (Piece.texts front ++ before) ++ c :: last.text := by
      rw [further.text_eq]
      simp [text]
    have here := trail.replace (.inr inLine) ahead (.inl (isBlank_of_isBreak isBreak)) other
      (by simp)
    exact ⟨by simp [text], by simpa [text] using here⟩

end Trail

/-! ## Open blocks inside lines -/

/-- A scan of a source stands inside a line at an offset, with some blocks open. -/
def Source.StandsInLine (source : Source) (offset : Nat) (blocks : Blocks) : Prop :=
  ∃ taken lexer, Lexer.Visits source taken lexer ∧ lexer.mode = .inLine ∧
    lexer.reader.point.offset = offset ∧ lexer.blocks = blocks

theorem Source.standsInLine_iff {source : Source} {offset : Nat} {blocks : Blocks} :
    source.StandsInLine offset blocks ↔ ∃ pieces last, Trail (.start source.chars) pieces last ∧
      last.mode = .inLine ∧ width (Piece.texts pieces) = offset ∧ last.blocks = blocks := by
  constructor
  · rintro ⟨taken, lexer, visits, inLine, rfl, rfl⟩
    obtain ⟨pieces, along⟩ := visits.along
    have point := along.point
    rw [along.trail.advance_origin] at point
    exact ⟨pieces, lexer.prospect, along.trail, inLine, by rw [point]; rfl, rfl⟩
  · rintro ⟨pieces, last, trail, inLine, rfl, rfl⟩
    obtain ⟨taken, lexer, visits, same⟩ := trail.visits .start rfl
    obtain ⟨others, along⟩ := visits.along
    have point := along.point
    rw [along.trail.advance_origin] at point
    have covered : Piece.texts others = Piece.texts pieces := by
      have whole := along.trail.text_eq.symm.trans trail.text_eq
      rw [same] at whole
      exact List.append_cancel_right whole
    refine ⟨taken, lexer, visits, ?_, by rw [point, covered]; rfl, ?_⟩
    · rw [← inLine, ← same]
      rfl
    · rw [← same]
      rfl

section

variable {source other : Source} {front : List Piece} {margin : Prospect}
  {line rest : List Char}

theorem Source.standsInLine_inFront {before more : List Piece} {middle : Prospect}
    (trail : Trail (.start source.chars) before middle) (inLine : middle.mode = .inLine)
    (further : Trail middle more margin) (atMargin : margin.mode = .atMargin)
    (content : other.chars = Piece.texts (before ++ more) ++ rest) :
    width (Piece.texts before) < width (Piece.texts (before ++ more)) ∧
      other.StandsInLine (width (Piece.texts before)) middle.blocks := by
  obtain ⟨nonempty, rebased⟩ := trail.rebase inLine further atMargin rest
  have some := width_pos nonempty
  rw [← content] at rebased
  refine ⟨?_, standsInLine_iff.2 ⟨before, _, rebased, inLine, rfl, rfl⟩⟩
  rw [Piece.texts_append, width_append]
  exact Nat.lt_add_of_pos_right some

theorem Source.standsInLine_spread (trail : Trail (.start source.chars) front margin)
    (again : Trail (.start other.chars) front { margin with text := line ++ margin.text })
    (atMargin : margin.mode = .atMargin) (isBlankLine : IsBlankLine line margin.text)
    (offset : Nat) (blocks : Blocks) :
    other.StandsInLine offset blocks ↔ ∃ place, source.StandsInLine place blocks ∧ offset =
      if place < width (Piece.texts front) then place else place + width line := by
  have blank : Prospect.Moves { margin with text := line ++ margin.text } [.dropped line] margin := by
    have moves := Prospect.moves_blankLine isBlankLine margin.blocks margin.last
    rwa [← atMargin] at moves
  have running : { margin with text := line ++ margin.text }.mode ≠ .done := by simp [atMargin]
  have content : source.chars = Piece.texts front ++ margin.text := trail.text_eq
  have inserted : other.chars = Piece.texts front ++ (line ++ margin.text) := again.text_eq
  have moved (more : List Piece) : width (Piece.texts (front ++ ([.dropped line] ++ more))) =
      if width (Piece.texts (front ++ more)) < width (Piece.texts front)
      then width (Piece.texts (front ++ more))
      else width (Piece.texts (front ++ more)) + width line := by
    simp only [Piece.texts_append, Piece.texts_cons, Piece.texts_nil, Piece.dropped, List.append_nil,
      width_append]
    rw [if_neg (by omega)]
    omega
  constructor
  · intro stands
    obtain ⟨pieces, last, reached, inLine, rfl, rfl⟩ := standsInLine_iff.1 stands
    rcases again.compare reached with ⟨further, on, rfl⟩ | ⟨further, on, rfl⟩
    · cases on with
      | refl => simp [atMargin] at inLine
      | @stride _ _ more _ onward =>
        obtain ⟨stride, next⟩ := blank.eq
        rw [next] at onward
        rw [stride]
        exact ⟨_, standsInLine_iff.2 ⟨_, _, trail.trans onward, inLine, rfl, rfl⟩, moved more⟩
    · obtain ⟨before, stands⟩ := standsInLine_inFront reached inLine on atMargin content
      exact ⟨_, stands, (if_pos before).symm⟩
  · rintro ⟨place, stands, rfl⟩
    obtain ⟨pieces, last, reached, inLine, rfl, rfl⟩ := standsInLine_iff.1 stands
    rcases trail.compare reached with ⟨further, on, rfl⟩ | ⟨further, on, rfl⟩
    · have onward := again.trans (blank.trail running on)
      exact standsInLine_iff.2 ⟨_, _, onward, inLine, moved further, rfl⟩
    · obtain ⟨before, stands⟩ := standsInLine_inFront reached inLine on atMargin inserted
      rwa [if_pos before]

end

/-! ## Inserted lines -/

theorem Text.IsBlankLine.head?_append {line rest : List Char} (isBlankLine : IsBlankLine line rest)
    (notFeed : line.head? ≠ some '\n') : (line ++ rest).head? ≠ some '\n' := by
  obtain ⟨c, others, split⟩ := List.exists_cons_of_ne_nil isBlankLine.ne_nil
  rwa [split] at notFeed ⊢

/-- The pieces behind the start of a line stay the same behind a line inserted there. -/
theorem Source.spreads_blankLine {source other : Source} {front back : List Piece}
    {margin : Prospect} {line : List Char} (trail : Trail (.start source.chars) front margin)
    (again : Trail (.start other.chars) front { margin with text := line ++ margin.text })
    (atMargin : margin.mode = .atMargin) (runs : margin.Runs back)
    (isBlankLine : IsBlankLine line margin.text)
    (seam : (Piece.texts front).getLast? = some '\r' → (line ++ margin.text).head? ≠ some '\n') :
    source.Spreads other (width (Piece.texts front)) (width line) 1
      (Piece.tokens source (.origin source.chars) front)
      (Piece.tokens source (.between (Piece.texts front) margin.text) back)
      (Piece.reports source (.origin source.chars) front)
      (Piece.reports source (.between (Piece.texts front) margin.text) back) := by
  have begins := (trail.settled (Prospect.settled_start _)).begins atMargin
  have blank := Prospect.moves_blankLine isBlankLine margin.blocks margin.last
  rw [← atMargin] at blank
  have behind := (blank.runs (by simp [atMargin]) runs).behind again
  have sameBreaks : breaksIn (Piece.texts front) (line ++ margin.text) =
      breaksIn (Piece.texts front) margin.text :=
    breaksIn_of_seam fun isReturn => iff_of_false (seam isReturn) (begins.notFeed isReturn)
  have solid : ∀ piece ∈ front.getLast?, piece.text ≠ [] := by
    rcases trail.exists_break atMargin with ⟨-, rfl⟩ | ⟨front, piece, before, c, rfl, text, -⟩
    · simp
    · simp [text]
  exact source.spreads (runs.behind trail) behind trail.text_eq again.text_eq sameBreaks
    isBlankLine.breaksIn_eq (Piece.behind_dropped line back) solid

namespace Lexer

/-- Wherever a scan gets to the start of a line, a line of whitespace and perhaps a comment can be
inserted.  The tokens and the diagnostics are the same: those that begin in front of it stay where
they are, and those behind it are moved.  The same blocks are open inside every line. -/
theorem Visits.lex_blankLine {source : Source} {taken : List Token} {lexer : Lexer}
    (visits : Visits source taken lexer) (atMargin : lexer.mode = .atMargin) :
    ∃ front rest before after earlier later, source.chars = front ++ rest ∧
      width front = lexer.reader.point.offset ∧
      ∀ (other : Source) (line : List Char), IsBlankLine line rest →
        (front.getLast? = some '\r' → line.head? ≠ some '\n') →
        other.chars = front ++ (line ++ rest) →
        source.Spreads other (width front) (width line) 1 before after earlier later ∧
          ∀ offset blocks, other.StandsInLine offset blocks ↔
            ∃ place, source.StandsInLine place blocks ∧
              offset = if place < width front then place else place + width line := by
  obtain ⟨pieces, along⟩ := visits.along
  obtain ⟨back, runs⟩ := exists_runs along.clear
  have trail := along.trail
  have point := along.point
  rw [trail.advance_origin] at point
  have content : source.chars = Piece.texts pieces ++ lexer.prospect.text := trail.text_eq
  refine ⟨Piece.texts pieces, lexer.prospect.text,
    Piece.tokens source (.origin source.chars) pieces,
    Piece.tokens source (.between (Piece.texts pieces) lexer.prospect.text) back,
    Piece.reports source (.origin source.chars) pieces,
    Piece.reports source (.between (Piece.texts pieces) lexer.prospect.text) back, content,
    by rw [point]; rfl, fun other line isBlankLine seam inserted => ?_⟩
  have notFeed (isReturn : (Piece.texts pieces).getLast? = some '\r') :=
    isBlankLine.head?_append (seam isReturn)
  have again := trail.reseam atMargin notFeed
  rw [← inserted] at again
  exact ⟨source.spreads_blankLine trail again atMargin runs isBlankLine notFeed,
    source.standsInLine_spread trail again atMargin isBlankLine⟩

/-- A comment between two lines, farther in than either of them. -/
theorem Visits.lex_blankLine_comment :
    ∃ taken lexer, Visits ⟨0, "", "", ['x', '\n', ' ', 'y'], #[]⟩ taken lexer ∧
      lexer.mode = .atMargin ∧ IsBlankLine [' ', ' ', '#', '\n'] [' ', 'y'] ∧
      ∃ before after earlier later,
        Source.Spreads ⟨0, "", "", ['x', '\n', ' ', 'y'], #[]⟩
          ⟨1, "", "", ['x', '\n', ' ', ' ', '#', '\n', ' ', 'y'], #[]⟩ 2 4 1 before after earlier
          later := by
  have begun : Visits ⟨0, "", "", ['x', '\n', ' ', 'y'], #[]⟩ [] _ :=
    .step .start rfl (by decide) rfl
  have named := begun.step rfl (by decide) rfl
  have ended := Visits.step (named.handOut rfl) rfl (by decide) rfl
  have isBlankLine : IsBlankLine [' ', ' ', '#', '\n'] [' ', 'y'] :=
    ⟨[' ', ' '], ['#'], ['\n'], rfl, by simp [isMargin], by simp [IsComment, isBreak], .inl rfl⟩
  obtain ⟨front, rest, before, after, earlier, later, content, here, inserted⟩ :=
    ended.lex_blankLine rfl
  obtain ⟨rfl, rfl⟩ := @eq_of_width_eq ['x', '\n'] front [' ', 'y'] rest content here.symm
  obtain ⟨spreads, -⟩ := inserted ⟨1, "", "", _, #[]⟩ _ isBlankLine (by simp) rfl
  exact ⟨_, _, ended, rfl, isBlankLine, before, after, earlier, later, spreads⟩

end Lexer

end Offside
