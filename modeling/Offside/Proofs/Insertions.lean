import Offside.Proofs.Printing
import Offside.Proofs.Seams

/-!
# Other text behind a place

A scan does not look past whitespace or a backslash.  So up to some place it goes on as before if
other text comes behind, as long as that begins with one of them and the next character stays the
same; and what the scan gives behind the place is only moved.
-/

namespace Offside

open Text

namespace Text

theorem IsLineBreak.of_head? {ended rest other : List Char} (isLineBreak : IsLineBreak ended rest)
    (same : rest.head? = other.head?) : IsLineBreak ended other := by
  rw [IsLineBreak, ← same]
  exact isLineBreak

theorem IsLineBreak.of_seam {ended rest other : List Char} (isLineBreak : IsLineBreak ended rest)
    (seam : ended.getLast? = some '\r' → other.head? ≠ some '\n') : IsLineBreak ended other := by
  rcases isLineBreak with feed | both | ⟨rfl, -⟩
  · exact .inl feed
  · exact .inr (.inl both)
  · exact .inr (.inr ⟨rfl, seam rfl⟩)

theorem breaksIn_of_seam {text rest other : List Char}
    (seam : text.getLast? = some '\r' → (rest.head? = some '\n' ↔ other.head? = some '\n')) :
    breaksIn text rest = breaksIn text other := by
  rcases List.eq_nil_or_concat' text with rfl | ⟨before, c, rfl⟩
  · rfl
  · have closes : closesLine c rest = true ↔ closesLine c other = true := by
      simp only [closesLine, Bool.or_eq_true, Bool.and_eq_true, beq_iff_eq, bne_iff_ne]
      refine or_congr_right (and_congr_right fun isReturn => not_congr (seam ?_))
      rw [List.getLast?_concat, isReturn]
    rw [breaksIn_append, breaksIn_append, @breaksIn_congr before ([c] ++ rest) ([c] ++ other) rfl]
    simp [breaksIn, closes]

theorem breaksIn_of_noBreak {text : List Char} (noBreak : ∀ c ∈ text, isBreak c = false)
    (rest : List Char) : breaksIn text rest = 0 := by
  induction text with
  | nil => rfl
  | cons c text ih =>
    obtain ⟨first, others⟩ := List.forall_mem_cons.1 noBreak
    have opens : closesLine c (text ++ rest) = false := by
      simp only [isBreak, Bool.or_eq_false_iff, beq_eq_false_iff_ne] at first
      simp [closesLine, first]
    rw [breaksIn, opens, ih others]
    rfl

end Text

/-! ## Moves up to a place -/

namespace Piece

theorem IsSeparator.fractionAhead_append {inner : List Char} {c : Char}
    (separator : IsSeparator c) (others : List Char) (none : fractionAhead inner = []) :
    fractionAhead (inner ++ c :: others) = [] := by
  have notDigit := separator.isDigit_eq_false
  cases inner with
  | nil =>
    have notPoint : c ≠ '.' := by
      rintro rfl
      simp [IsSeparator, isBlank] at separator
    simp [fractionAhead, notPoint]
  | cons d inner =>
    by_cases isPoint : d = '.'
    · subst isPoint
      cases inner with
      | nil => simp [fractionAhead, notDigit]
      | cons e inner => simp_all [fractionAhead, List.takeWhile_cons]
    · simp [fractionAhead, isPoint]

theorem Precedes.replace {piece : Piece} {inner rest : List Char} {c : Char}
    (precedes : piece.Precedes (inner ++ rest)) (separator : IsSeparator c) (others : List Char)
    (same : (inner ++ rest).head? = (inner ++ c :: others).head?) :
    piece.Precedes (inner ++ c :: others) := by
  have within {mark : Operator} {front : List Char}
      (begins : mark.chars <+: front ++ (inner ++ c :: others)) :
      mark.chars <+: front ++ (inner ++ rest) := by
    rw [← List.append_assoc] at begins ⊢
    exact (separator.prefix_of_operator begins).trans (List.prefix_append ..)
  have noFraction (none : fractionAhead (inner ++ rest) = []) :
      fractionAhead (inner ++ c :: others) = [] :=
    separator.fractionAhead_append others (fractionAhead_of_append none)
  have left (nothing : inner ++ rest = []) : False := by
    rw [nothing] at same
    simp at same
  generalize inner ++ rest = behind at *
  generalize inner ++ c :: others = other at *
  cases precedes with
  | comment inLine upTo => exact .comment inLine (same ▸ upTo)
  | continuation isLineBreak => exact .continuation (isLineBreak.of_head? same)
  | blanks nonempty blank upTo => exact .blanks nonempty blank (same ▸ upTo)
  | digits isDigits upTo none => exact .digits isDigits (same ▸ upTo) (noFraction none)
  | float isFloat upTo => exact .float isFloat (same ▸ upTo)
  | name isName upTo => exact .name isName (same ▸ upTo)
  | string isLiteral => exact .string isLiteral
  | unclosed => exact (left rfl).elim
  | operator longest => exact .operator fun mark begins => longest mark (within begins)
  | @stray d _ notBlank notComment notContinued notDigit notName notQuote noOperator =>
    exact .stray notBlank notComment (same ▸ notContinued) notDigit notName notQuote
      fun mark begins => noOperator mark (@within mark [d] begins)

end Piece

namespace Prospect

variable {prospect after : Prospect} {pieces : List Piece}

def IsReading (prospect : Prospect) : Prop := prospect.mode = .atMargin ∨ prospect.mode = .inLine

theorem Moves.replace {inner rest : List Char} {c : Char}
    (moves : prospect.Moves pieces after) (isReading : after.IsReading)
    (ahead : after.text = inner ++ rest) (separator : Piece.IsSeparator c) (others : List Char)
    (same : (inner ++ rest).head? = (inner ++ c :: others).head?) :
    Moves { prospect with text := Piece.texts pieces ++ (inner ++ c :: others) } pieces
      { after with text := inner ++ c :: others } := by
  cases moves with
  | ends | stops | closes | done => simp [IsReading] at isReading
  | blankLine margin isComment isLineBreak =>
    subst ahead
    simpa [Piece.dropped] using Moves.blankLine margin isComment (isLineBreak.of_head? same)
  | @content white _ d blocks last margin notMargin notComment notBreak =>
    rw [← ahead] at same
    obtain ⟨behind, split⟩ := List.head?_eq_some_iff.1 same.symm
    rw [Piece.texts_indentation, split]
    exact .content margin notMargin notComment notBreak
  | newline isLineBreak =>
    subst ahead
    simpa [Piece.cut] using Moves.newline (isLineBreak.of_head? same)
  | lexeme precedes =>
    subst ahead
    simpa using Moves.lexeme (precedes.replace separator others same)

theorem Moves.runs {others : List Piece} (moves : prospect.Moves pieces after)
    (running : prospect.mode ≠ .done) (further : after.Runs others) :
    prospect.Runs (pieces ++ others) := by
  obtain ⟨final, trail, done⟩ := further
  exact ⟨final, moves.trail running trail, done⟩

theorem Moves.split_runs {others : List Piece} (moves : prospect.Moves pieces after)
    (running : prospect.mode ≠ .done) (runs : prospect.Runs others) :
    ∃ further, others = pieces ++ further ∧ after.Runs further := by
  obtain ⟨rfl, rfl⟩ := moves.eq
  exact runs_of_running running runs

theorem Moves.isReading (moves : prospect.Moves pieces after) (running : prospect.mode ≠ .done)
    (isReading : after.IsReading) : prospect.IsReading := by
  cases moves with
  | ends | stops | closes => simp [IsReading] at isReading
  | blankLine | content => exact .inl rfl
  | newline | lexeme => exact .inr rfl
  | done => exact absurd rfl running

end Prospect

namespace Trail

variable {first middle last : Prospect} {pieces others : List Piece}

theorem isReading (trail : Trail first pieces last) (isReading : last.IsReading) :
    first.IsReading := by
  induction trail with
  | refl => exact isReading
  | @stride prospect _ _ running _ ih => exact prospect.moves.isReading running (ih isReading)

/-- A trail up to some place stays the same if other text comes behind. -/
theorem replace {inner rest : List Char} {c : Char} (trail : Trail first pieces last)
    (isReading : last.IsReading) (ahead : last.text = inner ++ rest)
    (separator : Piece.IsSeparator c) (others : List Char)
    (same : (inner ++ rest).head? = (inner ++ c :: others).head?) :
    Trail { first with text := Piece.texts pieces ++ (inner ++ c :: others) } pieces
      { last with text := inner ++ c :: others } := by
  induction trail with
  | refl => exact .refl _
  | @stride prospect final between running further ih =>
    have text : prospect.next.text = (Piece.texts between ++ inner) ++ rest := by
      rw [further.text_eq, ahead, List.append_assoc]
    have moves := prospect.moves.replace (further.isReading isReading) text separator others (by
        rw [List.append_assoc, List.append_assoc, List.head?_append, same, ← List.head?_append])
    rw [List.append_assoc] at moves
    rw [Piece.texts_append, List.append_assoc]
    exact moves.trail running (ih isReading ahead)

theorem compare (trail : Trail first pieces middle) (other : Trail first others last) :
    (∃ further, Trail middle further last ∧ others = pieces ++ further) ∨
      ∃ further, Trail last further middle ∧ pieces = others ++ further := by
  induction trail generalizing others with
  | refl => exact .inl ⟨others, other, rfl⟩
  | @stride prospect final between running further ih =>
    cases other with
    | refl => exact .inr ⟨_, .stride running further, rfl⟩
    | stride _ rest =>
      rcases ih rest with ⟨more, on, rfl⟩ | ⟨more, on, rfl⟩
      · exact .inl ⟨more, on, by rw [List.append_assoc]⟩
      · exact .inr ⟨more, on, by rw [List.append_assoc]⟩

end Trail

/-! ## Contents on a trail -/

namespace Piece

theorem eq_of_token? {source : Source} {point : Point} {piece : Piece} {token : Token}
    (isToken : piece.token? source point = some token) : piece.kind = some token.kind ∧
      token.span = piece.span source point ∧ token.line = point.line := by
  obtain ⟨kind, isKind, rfl⟩ := Option.map_eq_some_iff.1 isToken
  exact ⟨isKind, rfl, rfl⟩

theorem split_of_tokens {source : Source} {point : Point} {pieces : List Piece}
    {xs ys : List Token} {token : Token} (split : tokens source point pieces = xs ++ token :: ys) :
    ∃ front piece back, pieces = front ++ piece :: back ∧
      piece.token? source (point.advance (texts front).length) = some token ∧
      tokens source point front = xs ∧
      tokens source (point.advance (texts (front ++ [piece])).length) back = ys := by
  induction pieces generalizing point xs with
  | nil => simp at split
  | cons piece pieces ih =>
    have behind : ∀ {xs}, tokens source (point.advance piece.text.length) pieces = xs ++ token :: ys →
        ∃ front other back, piece :: pieces = front ++ other :: back ∧
          other.token? source (point.advance (texts front).length) = some token ∧
          tokens source point front = (piece.token? source point).toList ++ xs ∧
          tokens source (point.advance (texts (front ++ [other])).length) back = ys := by
      intro xs split
      obtain ⟨front, other, back, rfl, isToken, before, after⟩ := ih split
      refine ⟨piece :: front, other, back, rfl, ?_, by rw [tokens, before], ?_⟩
      · rwa [texts_cons, List.length_append, Point.advance_add]
      · rwa [List.cons_append, texts_cons, List.length_append, Point.advance_add]
    rw [tokens] at split
    cases isToken : piece.token? source point with
    | none =>
      rw [isToken] at split behind
      exact behind split
    | some first =>
      rw [isToken, Option.toList_some, List.singleton_append] at split
      cases xs with
      | nil =>
        obtain ⟨same, left⟩ := List.cons.inj split
        exact ⟨[], piece, pieces, rfl, same ▸ isToken, rfl, by simpa using left⟩
      | cons x xs =>
        obtain ⟨rfl, further⟩ := List.cons.inj split
        rw [isToken] at behind
        exact behind further

end Piece

namespace Prospect

/-- A move that cuts a content goes through nothing else. -/
theorem Moves.content_alone {prospect after : Prospect} {pieces : List Piece} {piece : Piece}
    {kind : Kind} (moves : prospect.Moves pieces after) (member : piece ∈ pieces)
    (isToken : piece.kind = some kind) (isContent : kind.isContent = true) :
    pieces = [piece] ∧ ∃ rest blocks last, piece.Precedes rest ∧
      prospect = ⟨piece.text ++ rest, blocks, .inLine, last⟩ ∧
      after = ⟨rest, blocks, .inLine, some kind⟩ := by
  have other {layout : Kind} (notContent : layout.isContent = false) : piece.kind ≠ some layout := by
    intro same
    rw [isToken, Option.some.injEq] at same
    simp [← same, isContent] at notContent
  cases moves with
  | @lexeme piece rest blocks last precedes =>
    obtain rfl := List.mem_singleton.1 member
    exact ⟨rfl, rest, blocks, last, precedes, rfl, by rw [isToken, Option.some_or]⟩
  | ends | blankLine =>
    obtain rfl := List.mem_singleton.1 member
    cases isToken
  | newline =>
    obtain rfl := List.mem_singleton.1 member
    exact absurd rfl (other rfl)
  | content =>
    rcases Piece.kind_indentation member with none | indent | dedent
    · simp [isToken] at none
    · exact absurd indent (other rfl)
    · exact absurd dedent (other rfl)
  | closes =>
    rcases Piece.kind_ending member with newline | dedent | eof
    · exact absurd newline (other rfl)
    · exact absurd dedent (other rfl)
    · exact absurd eof (other rfl)
  | stops | done => cases member

end Prospect

theorem Trail.split_content {first last : Prospect} {front back : List Piece} {piece : Piece}
    {kind : Kind} (trail : Trail first (front ++ piece :: back) last)
    (isToken : piece.kind = some kind) (isContent : kind.isContent = true) :
    ∃ rest blocks before, piece.Precedes rest ∧
      Trail first front ⟨piece.text ++ rest, blocks, .inLine, before⟩ ∧
      Trail ⟨rest, blocks, .inLine, some kind⟩ back last := by
  generalize split : front ++ piece :: back = pieces at trail
  induction trail generalizing front with
  | refl => simp at split
  | @stride prospect final others running further ih =>
    have later {front : List Piece} (split : front ++ piece :: back = others) :
        ∃ rest blocks before, piece.Precedes rest ∧
          Trail prospect (prospect.stride.pieces ++ front)
            ⟨piece.text ++ rest, blocks, .inLine, before⟩ ∧
          Trail ⟨rest, blocks, .inLine, some kind⟩ back final := by
      obtain ⟨rest, blocks, before, precedes, upTo, behind⟩ := ih split
      exact ⟨rest, blocks, before, precedes, .stride running upTo, behind⟩
    rcases List.append_eq_append_iff.1 split with ⟨more, same, behind⟩ | ⟨more, rfl, behind⟩
    · cases more with
      | nil =>
        rw [List.append_nil] at same
        have split := @later [] behind
        rwa [List.append_nil, same] at split
      | cons other more =>
        obtain ⟨rfl, rfl⟩ := List.cons.inj behind
        have moves := prospect.moves
        rw [same] at moves
        obtain ⟨alone, rest, blocks, before, precedes, here, there⟩ :=
          moves.content_alone (by simp) isToken isContent
        obtain ⟨rfl, rfl⟩ : front = [] ∧ more = [] := by
          simpa [List.append_eq_singleton_iff] using alone
        rw [there] at further
        exact ⟨rest, blocks, before, precedes, here ▸ .refl _, further⟩
    · exact later behind.symm

/-- Where a content is cut behind some text: the piece it comes from, with the pieces in front of it
and those behind it. -/
structure Prospect.Cut (source : Source) (passed : List Char) (prospect : Prospect)
    (pieces : List Piece) (before : List Token) (token : Token) (after : List Token) where
  front : List Piece
  piece : Piece
  back : List Piece
  rest : List Char
  blocks : Blocks
  last : Option Kind
  split : pieces = front ++ [piece] ++ back
  isKind : piece.kind = some token.kind
  precedes : piece.Precedes rest
  upTo : Trail prospect front ⟨piece.text ++ rest, blocks, .inLine, last⟩
  onward : Runs ⟨rest, blocks, .inLine, some token.kind⟩ back
  isToken : piece.token? source (.between (passed ++ Piece.texts front) (piece.text ++ rest)) =
    some token
  inFront : Piece.tokens source (.between passed prospect.text) front = before
  behind : Piece.tokens source (.between (passed ++ Piece.texts (front ++ [piece])) rest) back = after

namespace Prospect

variable {source : Source} {passed : List Char} {prospect : Prospect} {pieces : List Piece}
  {before after : List Token} {token : Token}

theorem Runs.exists_cut (runs : prospect.Runs pieces)
    (tokens : Piece.tokens source (.between passed prospect.text) pieces = before ++ token :: after)
    (isContent : token.kind.isContent = true) :
    Nonempty (Cut source passed prospect pieces before token after) := by
  obtain ⟨front, piece, back, rfl, isToken, inFront, behind⟩ := Piece.split_of_tokens tokens
  obtain ⟨final, trail, done⟩ := runs
  have isKind := (Piece.eq_of_token? isToken).1
  obtain ⟨rest, blocks, last, precedes, upTo, onward⟩ := trail.split_content isKind isContent
  rw [upTo.text_eq, Point.advance_between] at isToken
  rw [upTo.text_eq, ← List.append_assoc, show Piece.texts front ++ piece.text =
    Piece.texts (front ++ [piece]) by simp, Point.advance_between] at behind
  exact ⟨front, piece, back, rest, blocks, last, List.append_cons .., isKind, precedes, upTo,
    ⟨final, onward, done⟩, isToken, inFront, behind⟩

namespace Cut

variable (cut : Cut source passed prospect pieces before token after)

theorem text_eq : prospect.text = Piece.texts (cut.front ++ [cut.piece]) ++ cut.rest := by
  rw [cut.upTo.text_eq]
  simp

theorem span_eq : token.span = ⟨width (passed ++ Piece.texts cut.front),
    width (passed ++ Piece.texts (cut.front ++ [cut.piece])), source⟩ := by
  rw [(Piece.eq_of_token? cut.isToken).2.1, Piece.span_between]
  simp

theorem nonempty : cut.piece.text ≠ [] := by
  obtain ⟨-, c, others, split, -⟩ := cut.precedes.begins cut.isKind
  simp [split]

theorem upToToken : Piece.tokens source (.between passed prospect.text) (cut.front ++ [cut.piece]) =
    before ++ [token] := by
  rw [Piece.tokens_append, cut.inFront, cut.upTo.text_eq, Point.advance_between,
    Piece.tokens_singleton, cut.isToken, Option.toList_some]

theorem reports_eq : Piece.reports source (.between passed prospect.text) pieces =
    Piece.reports source (.between passed prospect.text) (cut.front ++ [cut.piece]) ++
      Piece.reports source (.between (passed ++ Piece.texts (cut.front ++ [cut.piece])) cut.rest)
        cut.back := by
  conv_lhs => rw [cut.split, Piece.reports_append, cut.text_eq, Point.advance_between]
  rw [← cut.text_eq]

theorem upToReport : Piece.reports source (.between passed prospect.text) (cut.front ++ [cut.piece]) =
    Piece.reports source (.between passed prospect.text) cut.front ++
      (cut.piece.flaw.map fun flaw => flaw.diagnostic token.span token.line).toList := by
  obtain ⟨-, span, line⟩ := Piece.eq_of_token? cut.isToken
  rw [Piece.reports_append, cut.upTo.text_eq, Point.advance_between, Piece.reports_singleton,
    Piece.report?, span, line]

theorem report_mem {flaw : Flaw} (flawed : cut.piece.flaw = some flaw) :
    flaw.diagnostic token.span token.line ∈
      Piece.reports source (.between passed prospect.text) pieces := by
  rw [cut.reports_eq, cut.upToReport, flawed]
  simp

theorem through (closed : cut.piece.flaw ≠ some .unclosed) {c : Char}
    (separator : Piece.IsSeparator c) (notBreak : isBreak c = false) (others : List Char) :
    Trail { prospect with text := Piece.texts (cut.front ++ [cut.piece]) ++ c :: others }
      (cut.front ++ [cut.piece]) ⟨c :: others, cut.blocks, .inLine, some token.kind⟩ := by
  obtain ⟨d, more, split⟩ := List.exists_cons_of_ne_nil cut.nonempty
  have here := cut.upTo.replace (.inr rfl) rfl separator others (by rw [split]; rfl)
  have separated := cut.precedes.separated (by simp [cut.isKind]) closed separator
    (by simp [notBreak]) others
  have moves := @Moves.lexeme _ _ cut.blocks cut.last separated
  rw [cut.isKind, Option.some_or] at moves
  simpa using here.trans (moves.trail (by simp) (.refl _))

end Cut

end Prospect

theorem Prospect.Runs.spells {source : Source} {pieces : List Piece}
    (runs : (Prospect.start source.chars).Runs pieces) {token : Token}
    (member : token ∈ Piece.tokens source (.origin source.chars) pieces)
    (isContent : token.kind.isContent = true) (notError : token.kind ≠ .error) :
    ∃ text, token.chars = .ok text ∧ Spells text token.kind := by
  obtain ⟨before, after, split⟩ := List.append_of_mem member
  obtain ⟨cut⟩ : Nonempty (Cut source [] _ pieces before token after) :=
    runs.exists_cut split isContent
  refine ⟨cut.piece.text, ?_, cut.precedes.spells cut.isKind notError⟩
  rw [Token.chars, (Piece.eq_of_token? cut.isToken).2.1]
  exact Piece.chars_span cut.upTo.text_eq

/-! ## What lies behind an insertion -/

def AllStart (holds : Nat → Prop) (tokens : List Token) (reports : List Diagnostic) : Prop :=
  (∀ token ∈ tokens, holds token.span.start) ∧ ∀ report ∈ reports, holds report.span.start

namespace Piece

theorem allStart_between (source : Source) (front rest : List Char) {pieces : List Piece}
    {holds : Nat → Prop} (starts : ∀ before piece after, pieces = before ++ piece :: after →
      holds (width (front ++ texts before))) :
    AllStart holds (tokens source (.between front (texts pieces ++ rest)) pieces)
      (reports source (.between front (texts pieces ++ rest)) pieces) := by
  have here (before : List Piece) (piece : Piece) (after : List Piece) :
      ((Point.between front (texts (before ++ piece :: after) ++ rest)).advance
        (texts before).length).offset = width (front ++ texts before) := by
    rw [texts_append, List.append_assoc, Point.advance_between, Point.offset_between]
  constructor
  · intro token member
    obtain ⟨xs, ys, split⟩ := List.append_of_mem member
    obtain ⟨before, piece, after, rfl, isToken, -⟩ := split_of_tokens split
    rw [(eq_of_token? isToken).2.1, span, here]
    exact starts before piece after rfl
  · intro report member
    obtain ⟨xs, ys, split⟩ := List.append_of_mem member
    obtain ⟨before, piece, after, rfl, reported, -⟩ := split_of_reports split
    rw [span_report? reported, span, here]
    exact starts before piece after rfl

theorem allStart_behind (source : Source) (front rest : List Char) (pieces : List Piece) :
    AllStart (width front ≤ ·) (tokens source (.between front (texts pieces ++ rest)) pieces)
      (reports source (.between front (texts pieces ++ rest)) pieces) := by
  refine allStart_between source front rest fun before _ _ _ => ?_
  rw [width_append]
  exact Nat.le_add_right ..

theorem allStart_inFront (source : Source) (front rest : List Char) {pieces : List Piece}
    (solid : ∀ piece ∈ pieces.getLast?, piece.text ≠ []) :
    AllStart (· < width (front ++ texts pieces))
      (tokens source (.between front (texts pieces ++ rest)) pieces)
      (reports source (.between front (texts pieces ++ rest)) pieces) := by
  refine allStart_between source front rest fun before piece after split => ?_
  have nonempty : texts (piece :: after) ≠ [] := by
    obtain ⟨others, last, same⟩ := (piece :: after).eq_nil_or_concat'.resolve_left (by simp)
    have text := solid last (by rw [split, same]; simp)
    rw [same, texts_append]
    simp [text]
  have some := width_pos nonempty
  rw [split, texts_append, ← List.append_assoc, width_append _ (texts (piece :: after))]
  exact Nat.lt_add_of_pos_right some

theorem moved_front {source other : Source} {front : List Piece} {rest behind : List Char}
    (content : source.chars = texts front ++ rest) (inserted : other.chars = texts front ++ behind)
    (seam : breaksIn (texts front) behind = breaksIn (texts front) rest) :
    Piece.tokens other (.origin other.chars) front =
        (Piece.tokens source (.origin source.chars) front).map (·.moved other 0 0) ∧
      Piece.reports other (.origin other.chars) front =
        (Piece.reports source (.origin source.chars) front).map (·.moved other 0 0) := by
  have moved := @Piece.moved front [] [] behind rest 0 0 other source rfl rfl seam
  rwa [← inserted, ← content, ← Point.origin_eq_between, ← Point.origin_eq_between] at moved

/-- Pieces that begin with a gap and then give what others give behind the gap. -/
structure Behind (gap : List Char) (pieces others : List Piece) : Prop where
  tokens (source : Source) (point : Point) :
    tokens source point others = tokens source (point.advance gap.length) pieces
  reports (source : Source) (point : Point) :
    reports source point others = reports source (point.advance gap.length) pieces
  words : words others = words pieces

theorem Behind.refl (pieces : List Piece) : Behind [] pieces pieces :=
  ⟨fun _ _ => rfl, fun _ _ => rfl, rfl⟩

theorem Behind.drop {gap : List Char} {pieces others : List Piece} (behind : Behind gap pieces others)
    (text : List Char) : Behind (text ++ gap) pieces (dropped text :: others) where
  tokens source point := by
    rw [List.length_append, Point.advance_add]
    exact behind.tokens source _
  reports source point := by
    rw [List.length_append, Point.advance_add]
    exact behind.reports source _
  words := behind.words

theorem behind_dropped (text : List Char) (pieces : List Piece) :
    Behind text pieces (dropped text :: pieces) := by
  have behind := (Behind.refl pieces).drop text
  rwa [List.append_nil] at behind

theorem Behind.inserted {source other : Source} {front back others : List Piece}
    {gap rest text : List Char} (behind : Behind gap back others)
    (content : source.chars = texts front ++ text)
    (inserted : other.chars = texts front ++ (gap ++ rest))
    (seam : breaksIn (texts front) (gap ++ rest) = breaksIn (texts front) text) :
    Piece.tokens other (.origin other.chars) (front ++ others) =
        (Piece.tokens source (.origin source.chars) front).map (·.moved other 0 0) ++
          Piece.tokens other (.between (texts front ++ gap) rest) back ∧
      Piece.reports other (.origin other.chars) (front ++ others) =
        (Piece.reports source (.origin source.chars) front).map (·.moved other 0 0) ++
          Piece.reports other (.between (texts front ++ gap) rest) back := by
  obtain ⟨first, firstReports⟩ := moved_front content inserted seam
  have place : ((Point.origin other.chars).advance (texts front).length).advance gap.length =
      .between (texts front ++ gap) rest := by
    rw [inserted, Point.origin_eq_between, Point.advance_between, Point.advance_between,
      List.nil_append]
  constructor
  · rw [tokens_append, behind.tokens, place, first]
  · rw [reports_append, behind.reports, place, firstReports]

end Piece

/-- The scan of a source and that of another one which has the same tokens and diagnostics: those
that begin in front of a place are the same, and those behind it are moved. -/
structure Source.Spreads (source other : Source) (place offset lines : Nat)
    (before after : List Token) (earlier later : List Diagnostic) : Prop where
  lexed : source.lex = .ok (before ++ after, earlier ++ later)
  inFront : AllStart (· < place) before earlier
  behind : AllStart (place ≤ ·) after later
  spread : other.lex = .ok (before.map (·.moved other 0 0) ++ after.map (·.moved other offset lines),
    earlier.map (·.moved other 0 0) ++ later.map (·.moved other offset lines))
  words : ∃ words, (before ++ after).mapM Token.word = .ok words ∧
    (before.map (·.moved other 0 0) ++ after.map (·.moved other offset lines)).mapM Token.word =
      .ok words

/-- If a gap is inserted between two pieces, and the pieces behind it begin with the gap, then all
that is behind it is moved. -/
theorem Source.spreads {source other : Source} {front back others : List Piece}
    {gap rest : List Char} {lines : Nat} (runs : (Prospect.start source.chars).Runs (front ++ back))
    (again : (Prospect.start other.chars).Runs (front ++ others))
    (content : source.chars = Piece.texts front ++ rest)
    (inserted : other.chars = Piece.texts front ++ (gap ++ rest))
    (seam : breaksIn (Piece.texts front) (gap ++ rest) = breaksIn (Piece.texts front) rest)
    (inGap : breaksIn gap rest = lines) (behind : Piece.Behind gap back others)
    (solid : ∀ piece ∈ front.getLast?, piece.text ≠ []) :
    source.Spreads other (width (Piece.texts front)) (width gap) lines
      (Piece.tokens source (.origin source.chars) front)
      (Piece.tokens source (.between (Piece.texts front) rest) back)
      (Piece.reports source (.origin source.chars) front)
      (Piece.reports source (.between (Piece.texts front) rest) back) := by
  have covered : Piece.texts back = rest := by
    have whole := runs.texts_eq (Prospect.sound_start source.chars)
    rw [Piece.texts_append] at whole
    exact List.append_cancel_left (whole.trans content)
  have place : (Point.origin source.chars).advance (Piece.texts front).length =
      .between (Piece.texts front) rest := by
    rw [content, Point.origin_eq_between, Point.advance_between, List.nil_append]
  obtain ⟨otherTokens, otherReports⟩ := behind.inserted content inserted seam
  obtain ⟨further, furtherReports⟩ := @Piece.moved back (Piece.texts front ++ gap)
    (Piece.texts front) [] [] (width gap) lines other source (width_append ..)
    (by rw [List.append_nil, covered, breaksIn_append, seam, inGap]) rfl
  rw [List.append_nil, covered] at further furtherReports
  have tokens := Piece.tokens_append source (.origin source.chars) front back
  have reports := Piece.reports_append source (.origin source.chars) front back
  rw [place] at tokens reports
  rw [further] at otherTokens
  rw [furtherReports] at otherReports
  have inFront := Piece.allStart_inFront source [] rest solid
  have after := Piece.allStart_behind source (Piece.texts front) [] back
  rw [List.nil_append, ← content, ← Point.origin_eq_between] at inFront
  rw [List.append_nil, covered] at after
  refine ⟨?_, inFront, after, ?_, Piece.words (front ++ back), ?_, ?_⟩
  · rw [source.lex_eq runs, tokens, reports]
  · rw [other.lex_eq again, otherTokens, otherReports]
  · rw [← tokens]
    exact source.mapM_word runs
  · rw [← otherTokens, other.mapM_word again, Piece.words_append, Piece.words_append, behind.words]

end Offside
