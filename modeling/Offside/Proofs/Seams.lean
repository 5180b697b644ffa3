import Offside.Proofs.Moves

/-!
# Seams

A text can be cut in two wherever a scan of it stands at the start of a line.  What the scan has
given by then is what a scan of the first part gives in front of its end, and what is still to come
is what a lexer gives that begins at the second part with the same blocks open, moved behind the
first part.
-/

namespace Offside

open Text

namespace Text

theorem IsLineBreak.of_append {ended rest more : List Char}
    (isLineBreak : IsLineBreak ended (rest ++ more)) : IsLineBreak ended rest := by
  rcases isLineBreak with feed | both | ⟨single, notFeed⟩
  · exact .inl feed
  · exact .inr (.inl both)
  · refine .inr (.inr ⟨single, fun feed => notFeed ?_⟩)
    exact List.mem_head?_append_of_mem_head? feed

theorem fractionAhead_of_append {rest more : List Char}
    (none : fractionAhead (rest ++ more) = []) : fractionAhead rest = [] := by
  by_cases begins : rest.head? = some '.'
  · obtain ⟨others, rfl⟩ := List.head?_eq_some_iff.1 begins
    simp only [List.cons_append, fractionAhead, ite_eq_left_iff, List.cons_ne_nil, imp_false,
      Decidable.not_not] at none ⊢
    cases others with
    | nil => rfl
    | cons c others => simp_all [List.takeWhile_cons]
  · simp only [fractionAhead]
    split
    next => simp at begins
    next => rfl

/-! ## Breaks behind a seam -/

theorem breaksIn_congr (text : List Char) {rest other : List Char}
    (same : rest.head? = other.head?) : breaksIn text rest = breaksIn text other := by
  induction text with
  | nil => rfl
  | cons c text ih =>
    have first : (text ++ rest).head? = (text ++ other).head? := by
      rw [List.head?_append, List.head?_append, same]
    rw [breaksIn, breaksIn, ih, closesLine, closesLine, first]

theorem breaksIn_parts {text behind rest other : List Char}
    (same : breaksIn (text ++ behind) rest = breaksIn (text ++ behind) other) :
    breaksIn text (behind ++ rest) = breaksIn text (behind ++ other) ∧
      breaksIn behind rest = breaksIn behind other := by
  cases behind with
  | nil =>
    rw [List.append_nil] at same
    exact ⟨same, rfl⟩
  | cons c behind =>
    have first := @breaksIn_congr text (c :: behind ++ rest) (c :: behind ++ other) rfl
    rw [breaksIn_append, breaksIn_append, first] at same
    exact ⟨first, Nat.add_left_cancel same⟩

theorem BeginsLine.breaksIn_eq {front rest : List Char} (begins : BeginsLine front rest) :
    breaksIn front rest = breaksIn front [] := by
  rcases begins with rfl | ⟨before, c, rfl, closes⟩
  · rfl
  · have alone : closesLine c [] = true := by
      simp only [closesLine, Bool.or_eq_true, Bool.and_eq_true] at closes ⊢
      exact closes.imp id fun return_ => ⟨return_.1, rfl⟩
    rw [breaksIn_append, breaksIn_append]
    simp [breaksIn, closes, alone, @breaksIn_congr before (c :: rest) [c] rfl]

end Text

/-! ## The first part -/

theorem Piece.Precedes.of_append {piece : Piece} {rest more : List Char}
    (precedes : piece.Precedes (rest ++ more)) : piece.Precedes rest := by
  generalize whole : rest ++ more = behind at precedes
  have head {c : Char} (head : c ∈ rest.head?) : c ∈ behind.head? :=
    whole ▸ List.mem_head?_append_of_mem_head? head
  cases precedes with
  | comment inLine upTo => exact .comment inLine fun c h => upTo c (head h)
  | continuation isLineBreak =>
    subst whole
    exact .continuation isLineBreak.of_append
  | blanks nonempty blank upTo => exact .blanks nonempty blank fun c h => upTo c (head h)
  | digits isDigits upTo noFraction =>
    subst whole
    exact .digits isDigits (fun c h => upTo c (head h)) (fractionAhead_of_append noFraction)
  | float isFloat upTo => exact .float isFloat fun c h => upTo c (head h)
  | name isName upTo => exact .name isName fun c h => upTo c (head h)
  | string isLiteral => exact .string isLiteral
  | unclosed isQuote isOpen =>
    obtain ⟨rfl, -⟩ := List.append_eq_nil_iff.1 whole
    exact .unclosed isQuote isOpen
  | operator longest =>
    refine .operator fun other begins => longest other ?_
    rw [← whole, ← List.append_assoc]
    exact begins.trans (List.prefix_append ..)
  | stray notBlank notComment notContinued notDigit notName notQuote noOperator =>
    subst whole
    refine .stray notBlank notComment (fun same c h => notContinued same c (head h)) notDigit notName
      notQuote fun mark begins => noOperator mark ?_
    exact begins.trans (List.prefix_append (_ :: rest) more)

namespace Prospect

variable {prospect after : Prospect} {pieces : List Piece}

/-- A move that does not lead to the end stays the same if less comes behind it; but a line with
content needs some of it. -/
theorem Moves.of_append {rest more : List Char} (moves : prospect.Moves pieces after)
    (ahead : after.text = rest ++ more)
    (goesOn : after.mode = .atMargin ∨ after.mode = .inLine ∧ rest ≠ []) :
    Moves { prospect with text := Piece.texts pieces ++ rest } pieces { after with text := rest } := by
  cases moves with
  | ends | stops | closes | done => simp at goesOn
  | blankLine margin isComment isLineBreak =>
    subst ahead
    simpa [Piece.dropped] using Moves.blankLine margin isComment isLineBreak.of_append
  | content margin notMargin notComment notBreak =>
    obtain ⟨-, nonempty⟩ := goesOn.resolve_left (by simp)
    obtain ⟨c, others, rfl⟩ := List.exists_cons_of_ne_nil nonempty
    cases ahead
    rw [Piece.texts_indentation]
    exact .content margin notMargin notComment notBreak
  | newline isLineBreak =>
    subst ahead
    simpa [Piece.cut] using Moves.newline isLineBreak.of_append
  | lexeme precedes =>
    subst ahead
    simpa using Moves.lexeme precedes.of_append

end Prospect
namespace Trail

variable {first last : Prospect} {pieces : List Piece}

theorem toMargin (trail : Trail first pieces last) (atMargin : last.mode = .atMargin) :
    first.mode = .atMargin ∨ first.mode = .inLine ∧ Piece.texts pieces ≠ [] := by
  induction trail with
  | refl => exact .inl atMargin
  | @stride prospect final others running further ih =>
    have goesOn := ih atMargin
    have moves := prospect.moves
    generalize prospect.stride.pieces = pieces at *
    generalize prospect.next = after at *
    cases moves with
    | ends | stops | closes => simp at goesOn
    | blankLine | content => exact .inl rfl
    | newline isLineBreak => exact .inr ⟨rfl, by simp [Piece.cut, isLineBreak.ne_nil]⟩
    | lexeme =>
      obtain ⟨-, nonempty⟩ := goesOn.resolve_left (by simp)
      exact .inr ⟨rfl, by simp [nonempty]⟩
    | done => exact absurd rfl running

theorem upTo_margin (trail : Trail first pieces last) (atMargin : last.mode = .atMargin) :
    Trail { first with text := Piece.texts pieces } pieces { last with text := [] } := by
  induction trail with
  | refl => exact .refl _
  | @stride prospect final others running further ih =>
    have moves := prospect.moves.of_append further.text_eq (further.toMargin atMargin)
    rw [Piece.texts_append]
    exact moves.trail running (ih atMargin)

theorem isLayout (trail : Trail first pieces last)
    (layout : first.mode = .atMargin → IsLayout first.last) (atMargin : last.mode = .atMargin) :
    IsLayout last.last := by
  induction trail with
  | refl => exact layout atMargin
  | @stride prospect final others running further ih =>
    refine ih (fun nextAtMargin => ?_) atMargin
    have moves := prospect.moves
    generalize prospect.stride.pieces = pieces at *
    generalize prospect.next = after at *
    cases moves with
    | blankLine => exact layout rfl
    | newline => simp [IsLayout, Kind.isLayout]
    | ends | content | lexeme | stops | closes | done => cases nextAtMargin

end Trail

/-! ## The second part -/

namespace Prospect

theorem isUnended_lastKind (pieces : List Piece) {last other : Option Kind}
    (same : isUnended last = isUnended other) :
    isUnended (Piece.lastKind pieces last) = isUnended (Piece.lastKind pieces other) := by
  induction pieces generalizing last other with
  | nil => exact same
  | cons piece pieces ih =>
    rw [Piece.lastKind_cons, Piece.lastKind_cons]
    apply ih
    cases piece.kind with
    | none => exact same
    | some kind => rfl

theorem stride_relabel (prospect : Prospect) {other : Option Kind}
    (same : isUnended prospect.last = isUnended other) :
    { prospect with last := other }.stride = prospect.stride := by
  obtain ⟨text, blocks, mode, last⟩ := prospect
  cases mode with
  | atMargin | inLine | done => rfl
  | atEnd =>
    have ending : Piece.ending blocks other = Piece.ending blocks last := by
      rw [Piece.ending, Piece.ending]
      exact congrArg (fun unended => (if unended = true then _ else _) ++ _ ++ _) same.symm
    rw [stride, stride, ending]

end Prospect

/-- Of the kind cut last it only matters whether it leaves a line unended. -/
theorem Trail.relabel {first last : Prospect} {pieces : List Piece} (trail : Trail first pieces last)
    {other : Option Kind} (same : Prospect.isUnended first.last = Prospect.isUnended other) :
    ∃ behind, Trail { first with last := other } pieces { last with last := behind } := by
  induction trail generalizing other with
  | refl => exact ⟨other, .refl _⟩
  | @stride prospect final others running further ih =>
    have stride := prospect.stride_relabel same
    obtain ⟨behind, trail⟩ := ih (Prospect.isUnended_lastKind prospect.stride.pieces same)
    have next : { prospect with last := other }.next =
        { prospect.next with last := Piece.lastKind prospect.stride.pieces other } := by
      rw [Prospect.next, Prospect.next, stride]
    refine ⟨behind, ?_⟩
    rw [← stride]
    exact .stride running (next ▸ trail)
theorem Prospect.Runs.relabel {prospect : Prospect} {pieces : List Piece}
    (runs : prospect.Runs pieces) {other : Option Kind}
    (same : Prospect.isUnended prospect.last = Prospect.isUnended other) :
    { prospect with last := other }.Runs pieces := by
  obtain ⟨final, trail, done⟩ := runs
  obtain ⟨behind, trail⟩ := trail.relabel same
  exact ⟨_, trail, done⟩

/-! ## Moving tokens and diagnostics -/

/-- A span of one source as a span of another one that has `offset` bytes more in front of it. -/
def Span.moved (source : Source) (offset : Nat) (span : Span) : Span :=
  ⟨span.start + offset, span.stop + offset, source⟩

def Token.moved (source : Source) (offset lines : Nat) (token : Token) : Token :=
  ⟨token.kind, token.span.moved source offset, token.line + lines⟩

def Diagnostic.moved (source : Source) (offset lines : Nat) : Diagnostic → Diagnostic
  | strayCharacter span character line =>
    strayCharacter (span.moved source offset) character (line + lines)
  | integerTooLarge span line => integerTooLarge (span.moved source offset) (line + lines)
  | openString span line => openString (span.moved source offset) (line + lines)
  | unevenIndentation span line width =>
    unevenIndentation (span.moved source offset) (line + lines) width

theorem Flaw.moved_diagnostic (source : Source) (offset lines : Nat) (flaw : Flaw) (span : Span)
    (line : Nat) :
    (flaw.diagnostic span line).moved source offset lines =
      flaw.diagnostic (span.moved source offset) (line + lines) := by
  cases flaw <;> rfl

namespace Piece

theorem moved {pieces : List Piece} {front other rest behind : List Char} {offset lines : Nat}
    (whole source : Source) (offsets : width front = width other + offset)
    (linesBefore : breaksIn front (texts pieces ++ rest) =
      breaksIn other (texts pieces ++ behind) + lines)
    (same : breaksIn (texts pieces) rest = breaksIn (texts pieces) behind) :
    tokens whole (.between front (texts pieces ++ rest)) pieces =
        (tokens source (.between other (texts pieces ++ behind)) pieces).map
          (·.moved whole offset lines) ∧
      reports whole (.between front (texts pieces ++ rest)) pieces =
        (reports source (.between other (texts pieces ++ behind)) pieces).map
          (·.moved whole offset lines) := by
  induction pieces generalizing front other with
  | nil => exact ⟨rfl, rfl⟩
  | cons piece pieces ih =>
    obtain ⟨inPiece, further⟩ := @breaksIn_parts piece.text (texts pieces) rest behind same
    rw [texts_cons, List.append_assoc, List.append_assoc] at linesBefore ⊢
    have line : (Point.between front (piece.text ++ (texts pieces ++ rest))).line =
        (Point.between other (piece.text ++ (texts pieces ++ behind))).line + lines := by
      rw [Point.between, Point.between, linesBefore]
      exact (Nat.add_assoc ..).symm
    have span : piece.span whole (.between front (piece.text ++ (texts pieces ++ rest))) =
        (piece.span source (.between other (piece.text ++ (texts pieces ++ behind)))).moved whole
          offset := by
      rw [span_between, span_between, Span.moved]
      simp only [width_append, offsets, Nat.add_right_comm]
    obtain ⟨restTokens, restReports⟩ := @ih (front ++ piece.text) (other ++ piece.text)
      (by simp only [width_append, offsets, Nat.add_right_comm])
      (by rw [breaksIn_append, breaksIn_append, linesBefore, inPiece, Nat.add_right_comm]) further
    constructor
    · rw [tokens_between_cons, tokens_between_cons, restTokens, List.map_append, token?, token?,
        span, line]
      cases piece.kind <;> rfl
    · rw [reports, reports, Point.advance_between, Point.advance_between, restReports,
        List.map_append, report?, report?, span, line]
      cases piece.flaw with
      | none => rfl
      | some flaw => simp [Flaw.moved_diagnostic]

end Piece
/-! ## Scans of both parts -/

/-- The tokens at the end of a source that ends behind a line break: one for each open block, and
the end of the stream. -/
def Source.closing (source : Source) (depth : Nat) : List Token :=
  let span : Span := ⟨source.size, source.size, source⟩
  let line := 1 + breaksIn source.chars []
  List.replicate depth ⟨.dedent, span, line⟩ ++ [⟨.eof, span, line⟩]

/-- What a scan of a whole text gives up to the start of a line, a scan of the text up to there
gives in front of its end. -/
theorem Source.lex_upTo_margin {source : Source} {text : List Char} {pieces : List Piece}
    {last : Prospect} (trail : Trail (.start text) pieces last) (atMargin : last.mode = .atMargin)
    (content : source.chars = Piece.texts pieces) :
    source.lex = .ok (Piece.tokens source (.origin source.chars) pieces ++
        source.closing last.blocks.size,
      Piece.reports source (.origin source.chars) pieces) := by
  have isLayout := trail.isLayout (fun _ => by simp [Prospect.start, IsLayout]) atMargin
  have cut := trail.upTo_margin atMargin
  rw [← content, atMargin] at cut
  have runs := (Prospect.runs_of_nil last.blocks last.last).behind cut
  have flawless : ∀ piece ∈ Piece.dropped [] :: Piece.ending last.blocks last.last,
      piece.flaw = none :=
    List.forall_mem_cons.2 ⟨rfl, fun _ => Piece.flaw_ending⟩
  rw [Source.lex_eq runs, Piece.tokens_append, Piece.reports_append, ← content, Point.advance_whole,
    Piece.reports_eq_nil _ _ flawless, List.append_nil, Prospect.ending_of_isLayout _ isLayout,
    Piece.tokens, Piece.tokens_replicate_cut]
  rfl

/-- A lexer that begins at the start of a line, with blocks open. -/
def Lexer.resume (source : Source) (blocks : Blocks) : Lexer := { ofSource source with blocks }

namespace Lexer

variable {whole front back : Source} {taken : List Token} {lexer : Lexer}

theorem Along.parts {pieces : List Piece} (along : lexer.Along whole taken pieces)
    (content : whole.chars = front.chars ++ back.chars)
    (here : lexer.reader.point.offset = front.size) :
    front.chars = Piece.texts pieces ∧ back.chars = lexer.prospect.text := by
  have text : whole.chars = Piece.texts pieces ++ lexer.prospect.text := along.trail.text_eq
  have point := along.point
  rw [along.trail.advance_origin] at point
  apply eq_of_width_eq (content.symm.trans text)
  rw [point, Point.offset_between] at here
  exact here.symm

theorem Along.rest_whole {pieces : List Piece} (along : lexer.Along whole taken pieces) {σ : Type}
    (sink : Sink Diagnostic σ) (state : σ) :
    (ofSource whole).rest sink state =
      (sink.receiveAll state (Piece.reports whole (.origin whole.chars) pieces)).bind fun middle =>
        (lexer.rest sink middle).map fun (tokens, final) => (taken ++ tokens, final) := by
  obtain ⟨later, runs⟩ := exists_runs along.clear
  have ahead : lexer.Awaits _ _ := ⟨along.clear, later, runs, rfl, rfl⟩
  have all : (ofSource whole).Awaits
      (Piece.tokens whole (.origin whole.chars) (pieces ++ later))
      (Piece.reports whole (.origin whole.chars) (pieces ++ later)) :=
    ⟨Reader.clear_ofSource whole, _, runs.behind along.trail, rfl, rfl⟩
  rw [all.rest_eq, Piece.tokens_append, Piece.reports_append, ← along.tokens, ← along.point,
    Sink.receiveAll_append]
  cases sink.receiveAll state (Piece.reports whole (.origin whole.chars) pieces) with
  | error fault => rfl
  | ok middle =>
    simp only [Except.bind, ahead.rest_eq, along.sameSource]
    cases sink.receiveAll middle (Piece.reports whole lexer.reader.point later) with
    | error fault => rfl
    | ok final => simp only [Except.map, List.append_assoc]

section Seam

variable {pieces : List Piece} (along : lexer.Along whole taken pieces)
  (atMargin : lexer.mode = .atMargin) (content : whole.chars = front.chars ++ back.chars)
  (here : lexer.reader.point.offset = front.size)

include along atMargin content here

theorem Along.breaksIn_front : breaksIn front.chars back.chars = breaksIn front.chars [] := by
  obtain ⟨first, second⟩ := along.parts content here
  have begins := (along.trail.settled (Prospect.settled_start _)).begins atMargin
  rw [List.nil_append, ← first, ← second] at begins
  exact begins.breaksIn_eq

theorem Along.lex_front :
    ∃ before used, front.lex = .ok (before ++ front.closing lexer.blocks.size, used) ∧
      taken ++ lexer.reader.queue = before.map (·.moved whole 0 0) ∧
      Piece.reports whole (.origin whole.chars) pieces = used.map (·.moved whole 0 0) := by
  have sameBreaks := along.breaksIn_front atMargin content here
  obtain ⟨first, -⟩ := along.parts content here
  have moved := @Piece.moved pieces [] [] back.chars [] 0 0 whole front rfl rfl (first ▸ sameBreaks)
  rw [← first, List.append_nil, ← content, ← Point.origin_eq_between, ← Point.origin_eq_between]
    at moved
  exact ⟨_, _, Source.lex_upTo_margin along.trail atMargin first, along.tokens.trans moved.1, moved.2⟩

/-- Of the kind cut last a lexer that begins at the second part knows nothing, but behind a line
break that makes no difference. -/
theorem Along.resume_back :
    ∃ after others, (resume back lexer.blocks).Awaits after others ∧
      lexer.Awaits
        (lexer.reader.queue ++ after.map (·.moved whole front.size (breaksIn front.chars [])))
        (others.map (·.moved whole front.size (breaksIn front.chars []))) := by
  have sameBreaks := along.breaksIn_front atMargin content here
  obtain ⟨first, second⟩ := along.parts content here
  have point := along.point
  rw [along.trail.advance_origin, ← first, ← second] at point
  obtain ⟨later, runs⟩ := exists_runs along.clear
  have covered := runs.texts_eq (by simp [Prospect.Sound, prospect, atMargin])
  have isLayout := along.trail.isLayout (fun _ => by simp [Prospect.start, IsLayout]) atMargin
  have resumed := @Prospect.Runs.relabel _ _ runs none (Prospect.isUnended_eq_false_iff.2 isLayout)
  rw [← second, show lexer.prospect.mode = .atMargin from atMargin] at resumed
  have moved := @Piece.moved later front.chars [] [] [] front.size (breaksIn front.chars []) whole
    back (Nat.zero_add _).symm (by
      rw [List.append_nil, covered, ← second, sameBreaks]
      exact (Nat.zero_add _).symm) rfl
  rw [List.append_nil, covered, ← second, ← point, ← Point.origin_eq_between] at moved
  refine ⟨_, _, ⟨Reader.clear_ofSource back, later, resumed, rfl, rfl⟩, along.clear, later, runs, ?_⟩
  rw [along.sameSource]
  exact ⟨congrArg _ moved.1.symm, moved.2.symm⟩

end Seam

/-- Wherever a scan stands at the start of a line, the text can be cut in two.  What the scan has
given by then, to any sink, is what a scan of the first part gives in front of its end.  The rest is
what a lexer gives that begins at the second part with the same blocks open, moved behind the first
part. -/
theorem Visits.rest_of_seam (visits : Visits whole taken lexer) (atMargin : lexer.mode = .atMargin)
    (content : whole.chars = front.chars ++ back.chars)
    (here : lexer.reader.point.offset = front.size) :
    ∃ before used after others,
      front.lex = .ok (before ++ front.closing lexer.blocks.size, used) ∧
      taken ++ lexer.reader.queue = before.map (·.moved whole 0 0) ∧
      (∀ {σ : Type} (sink : Sink Diagnostic σ) (state : σ), (ofSource whole).rest sink state =
        (sink.receiveAll state (used.map (·.moved whole 0 0))).bind fun middle =>
          (lexer.rest sink middle).map fun (tokens, final) => (taken ++ tokens, final)) ∧
      (resume back lexer.blocks).rest .collect [] = .ok (after, others) ∧
      ∀ {σ : Type} (sink : Sink Diagnostic σ) (state : σ), lexer.rest sink state =
        (sink.receiveAll state
          (others.map (·.moved whole front.size (breaksIn front.chars [])))).map fun final =>
            (lexer.reader.queue ++
              after.map (·.moved whole front.size (breaksIn front.chars [])), final) := by
  obtain ⟨pieces, along⟩ := visits.along
  obtain ⟨before, used, lexed, tokens, reports⟩ := along.lex_front atMargin content here
  obtain ⟨after, others, resumed, awaits⟩ := along.resume_back atMargin content here
  refine ⟨before, used, after, others, lexed, tokens, fun sink state => ?_, ?_,
    awaits.rest_eq⟩
  · rw [← reports]
    exact along.rest_whole sink state
  · rw [resumed.rest_eq, Sink.receiveAll_collect]
    rfl

/-- A scan of two indented lines, behind the first one: one block is open there. -/
theorem Visits.rest_of_seam_block :
    ∃ taken lexer, Visits ⟨0, "", "", [' ', 'x', '\n', ' ', 'y'], #[]⟩ taken lexer ∧
      lexer.mode = .atMargin ∧ lexer.reader.point.offset = 3 ∧
      ∃ before used, Source.lex ⟨1, "", "", [' ', 'x', '\n'], #[]⟩ =
          .ok (before ++ Source.closing ⟨1, "", "", [' ', 'x', '\n'], #[]⟩ 1, used) ∧
        taken ++ lexer.reader.queue =
          before.map (·.moved ⟨0, "", "", [' ', 'x', '\n', ' ', 'y'], #[]⟩ 0 0) := by
  have indented : Visits ⟨0, "", "", [' ', 'x', '\n', ' ', 'y'], #[]⟩ [] _ :=
    .step .start rfl (by decide) rfl
  have named := Visits.step (indented.handOut rfl) rfl (by decide) rfl
  have ended := Visits.step (named.handOut rfl) rfl (by decide) rfl
  obtain ⟨before, used, after, others, lexed, tokens, -⟩ := @rest_of_seam _
    ⟨1, "", "", [' ', 'x', '\n'], #[]⟩ ⟨2, "", "", [' ', 'y'], #[]⟩ _ _ ended rfl rfl rfl
  exact ⟨_, _, ended, rfl, rfl, before, used, lexed, tokens⟩

end Lexer

end Offside
