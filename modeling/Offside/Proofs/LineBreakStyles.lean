import Mathlib.Data.List.Forall2
import Offside.Proofs.LineTable
import Offside.Proofs.Moves

/-!
# Styles of line breaks

A text whose lines end in line feeds can be spelled with carriage returns instead, alone or in front
of the line feeds.  A scan moves through both spellings alike: the texts of the pieces are spelled
differently, and nothing else is different.
-/

namespace Offside

open Text

namespace Text

def respell (ended text : List Char) : List Char :=
  text.flatMap fun c => if c = '\n' then ended else [c]

/-- What a line feed can be spelled as. -/
def IsStyle (ended : List Char) : Prop := ended = ['\r', '\n'] ∨ ended = ['\r']

variable {ended : List Char}

@[simp] theorem respell_nil : respell ended [] = [] := rfl

@[simp] theorem respell_append (xs ys : List Char) :
    respell ended (xs ++ ys) = respell ended xs ++ respell ended ys :=
  List.flatMap_append

@[simp] theorem respell_feed (text : List Char) :
    respell ended ('\n' :: text) = ended ++ respell ended text := rfl

@[simp] theorem respell_cons {c : Char} (notFeed : c ≠ '\n') (text : List Char) :
    respell ended (c :: text) = c :: respell ended text := by
  simp [respell, notFeed]

theorem respell_of_noBreak {text : List Char} (noBreak : ∀ c ∈ text, isBreak c = false) :
    respell ended text = text := by
  induction text with
  | nil => rfl
  | cons c text ih =>
    obtain ⟨first, others⟩ := List.forall_mem_cons.1 noBreak
    rw [respell_cons (by rintro rfl; cases first), ih others]

theorem IsLineBreak.breaksIn_eq {ended rest : List Char} (isLineBreak : IsLineBreak ended rest) :
    breaksIn ended rest = 1 := by
  rcases isLineBreak with rfl | rfl | ⟨rfl, single⟩
  · rfl
  · rfl
  · simp [breaksIn, closesLine, single]

theorem IsLineBreak.lineSoFar_append {ended front rest : List Char}
    (isLineBreak : IsLineBreak ended (front ++ rest)) (part : List Char) :
    lineSoFar part (ended ++ front) rest = lineSoFar [] front rest := by
  rcases isLineBreak with rfl | rfl | ⟨rfl, single⟩
  · rfl
  · rfl
  · have closes : closesLine '\r' (front ++ rest) = true := by
      rw [closesLine, bne_iff_ne.2 single]
      rfl
    exact if_pos closes

namespace IsStyle

variable (style : IsStyle ended)

include style

theorem head?_respell (text : List Char) :
    (respell ended text).head? = text.head?.map fun c => if c = '\n' then '\r' else c := by
  cases text with
  | nil => rfl
  | cons c text =>
    by_cases feed : c = '\n'
    · subst feed
      rcases style with rfl | rfl <;> rfl
    · simp [feed]

theorem upTo {text : List Char} {accepts : Char → Prop} (upTo : ∀ c ∈ text.head?, accepts c)
    (both : accepts '\n' → accepts '\r') : ∀ c ∈ (respell ended text).head?, accepts c := by
  intro c head
  rw [style.head?_respell] at head
  obtain ⟨d, first, rfl⟩ := Option.map_eq_some_iff.1 head
  split
  next feed => exact both (feed ▸ upTo d first)
  next => exact upTo d first

theorem head?_ne_feed (text : List Char) : (respell ended text).head? ≠ some '\n' := by
  intro head
  rw [style.head?_respell] at head
  obtain ⟨c, -, same⟩ := Option.map_eq_some_iff.1 head
  split at same
  next => cases same
  next notFeed => exact notFeed same

theorem isLineBreak (rest : List Char) : IsLineBreak ended (respell ended rest) := by
  have single := style.head?_ne_feed rest
  rcases style with rfl | rfl
  · exact .inr (.inl rfl)
  · exact .inr (.inr ⟨rfl, single⟩)

theorem takeWhile_respell {accepts : Char → Bool} (notFeed : accepts '\n' = false)
    (notReturn : accepts '\r' = false) (text : List Char) :
    (respell ended text).takeWhile accepts = text.takeWhile accepts := by
  induction text with
  | nil => rfl
  | cons c text ih =>
    by_cases feed : c = '\n'
    · subst feed
      rcases style with rfl | rfl <;> simp [notFeed, notReturn]
    · rw [respell_cons feed, List.takeWhile_cons, List.takeWhile_cons, ih]

theorem fractionAhead_respell (text : List Char) :
    fractionAhead (respell ended text) = fractionAhead text := by
  by_cases point : text.head? = some '.'
  · obtain ⟨others, rfl⟩ := List.head?_eq_some_iff.1 point
    rw [respell_cons (by decide), fractionAhead, fractionAhead, style.takeWhile_respell rfl rfl]
  · have none {text : List Char} (noPoint : text.head? ≠ some '.') : fractionAhead text = [] := by
      simp only [fractionAhead]
      split
      next => exact absurd rfl noPoint
      next => rfl
    rw [none point, none]
    intro head
    rw [style.head?_respell] at head
    obtain ⟨c, first, same⟩ := Option.map_eq_some_iff.1 head
    split at same
    next => cases same
    next => exact point (same ▸ first)

theorem prefix_respell {front text : List Char} (noBreak : ∀ c ∈ front, isBreak c = false)
    (begins : front <+: respell ended text) : front <+: text := by
  induction front generalizing text with
  | nil => exact List.nil_prefix
  | cons c front ih =>
    obtain ⟨notBreak, others⟩ := List.forall_mem_cons.1 noBreak
    cases text with
    | nil => exact begins
    | cons d text =>
      by_cases feed : d = '\n'
      · subst feed
        rcases style with rfl | rfl <;>
          obtain ⟨rfl, -⟩ := List.cons_prefix_cons.1 begins <;> cases notBreak
      · rw [respell_cons feed] at begins
        obtain ⟨rfl, further⟩ := List.cons_prefix_cons.1 begins
        exact List.cons_prefix_cons.2 ⟨rfl, ih others further⟩

theorem units_respell {quote : Char} {units : List Char} (isUnits : Units quote units)
    (isQuote : IsQuote quote) : Units quote (respell ended units) := by
  have notReturn : '\r' ≠ quote := by rcases isQuote with rfl | rfl <;> decide
  have notFeed : '\n' ≠ quote := by rcases isQuote with rfl | rfl <;> decide
  induction isUnits with
  | nil => exact .nil
  | @plain c units notBackslash notQuote isUnits ih =>
    by_cases feed : c = '\n'
    · subst feed
      rcases style with rfl | rfl
      · exact .plain (by decide) notReturn (.plain (by decide) notFeed ih)
      · exact .plain (by decide) notReturn ih
    · rw [respell_cons feed]
      exact .plain notBackslash notQuote ih
  | @escaped c units isUnits ih =>
    rw [respell_cons (by decide)]
    by_cases feed : c = '\n'
    · subst feed
      rcases style with rfl | rfl
      · exact .escaped (.plain (by decide) notFeed ih)
      · exact .escaped ih
    · rw [respell_cons feed]
      exact .escaped ih

/-! ## Lines in both spellings -/

theorem breaksIn_respell {front : List Char} (noReturn : ∀ c ∈ front, c ≠ '\r')
    (rest : List Char) :
    breaksIn (respell ended front) (respell ended rest) = breaksIn front rest := by
  induction front with
  | nil => rfl
  | cons c front ih =>
    obtain ⟨notReturn, others⟩ := List.forall_mem_cons.1 noReturn
    by_cases feed : c = '\n'
    · subst feed
      have one := (style.isLineBreak (front ++ rest)).breaksIn_eq
      rw [respell_feed, breaksIn_append, ih others, ← respell_append, one]
      rfl
    · rw [respell_cons feed, breaksIn, breaksIn, ih others]
      simp [closesLine, feed, notReturn]

theorem lineSoFar_respell {front : List Char} (noReturn : ∀ c ∈ front, c ≠ '\r')
    (part rest : List Char) :
    lineSoFar part (respell ended front) (respell ended rest) = lineSoFar part front rest := by
  induction front generalizing part with
  | nil => rfl
  | cons c front ih =>
    obtain ⟨notReturn, others⟩ := List.forall_mem_cons.1 noReturn
    by_cases feed : c = '\n'
    · subst feed
      have isLineBreak := style.isLineBreak (front ++ rest)
      rw [respell_append] at isLineBreak
      rw [respell_feed, isLineBreak.lineSoFar_append, ih others]
      rfl
    · rw [respell_cons feed, lineSoFar, lineSoFar, ih others, ih others]
      simp [closesLine, feed, notReturn]

end IsStyle

end Text

variable {ended : List Char}

def Piece.respell (ended : List Char) (piece : Piece) : Piece :=
  { piece with text := Text.respell ended piece.text }

namespace Piece

theorem respell_eq_self {piece : Piece} (noBreak : ∀ c ∈ piece.text, isBreak c = false) :
    piece.respell ended = piece := by
  rw [respell, respell_of_noBreak noBreak]

theorem map_respell_eq_self {pieces : List Piece}
    (noBreak : ∀ c ∈ texts pieces, isBreak c = false) :
    pieces.map (respell ended) = pieces := by
  have same : ∀ piece ∈ pieces, piece.respell ended = piece := fun piece member =>
    respell_eq_self fun c inText => noBreak c (List.mem_flatMap.2 ⟨piece, member, inText⟩)
  rw [List.map_congr_left same, List.map_id']

theorem noBreak_of_isDigits {digits : List Char} (isDigits : Number.isDigits digits = true) :
    ∀ c ∈ digits, isBreak c = false := fun c member =>
  notBreak_of_isNamePart (isNamePart_of_isDigit ((isDigits_iff.1 isDigits).2 c member))

theorem noBreak_of_isFloat {text : List Char} (isFloat : IsFloat text) :
    ∀ c ∈ text, isBreak c = false := by
  obtain ⟨whole, fraction, rfl, isDigits, fractionDigits⟩ := isFloat
  intro c member
  rcases List.mem_append.1 member with member | member
  · exact noBreak_of_isDigits isDigits c member
  · rcases List.mem_cons.1 member with rfl | member
    · rfl
    · exact noBreak_of_isDigits fractionDigits c member

theorem noBreak_of_isName {name : List Char} (isName : IsName name) :
    ∀ c ∈ name, isBreak c = false := by
  obtain ⟨first, others, rfl, start, parts⟩ := isName
  intro c member
  rcases List.mem_cons.1 member with rfl | member
  · exact notBreak_of_isNamePart (isNamePart_of_isNameStart start)
  · exact notBreak_of_isNamePart (parts c member)

theorem noBreak_operator (mark : Operator) : ∀ c ∈ mark.chars, isBreak c = false := by
  intro c member
  exact notBreak_of_notBlank (isBlank_eq_false_of_mem_operator member).1

/-- A piece in one spelling is the piece in another one. -/
theorem Precedes.respell {piece : Piece} {rest : List Char} (precedes : piece.Precedes rest)
    (style : IsStyle ended) (noReturn : ∀ c ∈ piece.text, c ≠ '\r') :
    (piece.respell ended).Precedes (Text.respell ended rest) := by
  cases precedes with
  | @comment line _ inLine upTo =>
    rw [respell_eq_self (by simpa [dropped, isBreak] using inLine)]
    exact .comment inLine (style.upTo upTo fun _ => rfl)
  | @continuation broken _ isLineBreak =>
    have feed : broken = ['\n'] := by
      rcases isLineBreak with rfl | rfl | ⟨rfl, -⟩
      · rfl
      · simp [dropped] at noReturn
      · simp [dropped] at noReturn
    subst feed
    have same : (dropped ['\\', '\n']).respell ended = dropped ('\\' :: ended) := by
      simp [Piece.respell, dropped]
    rw [same]
    exact .continuation (style.isLineBreak rest)
  | @blanks white _ nonempty blank upTo =>
    rw [respell_eq_self fun c member => (blank c member).2]
    exact .blanks nonempty blank (style.upTo upTo fun _ => .inr rfl)
  | @digits digits _ isDigits upTo noFraction =>
    rw [respell_eq_self (by rw [text_ofDigits]; exact noBreak_of_isDigits isDigits)]
    rw [← style.fractionAhead_respell] at noFraction
    exact .digits isDigits (style.upTo upTo fun _ => rfl) noFraction
  | float isFloat upTo =>
    rw [respell_eq_self (noBreak_of_isFloat isFloat)]
    exact .float isFloat (style.upTo upTo fun _ => rfl)
  | name isName upTo =>
    rw [respell_eq_self (noBreak_of_isName isName)]
    exact .name isName (style.upTo upTo fun _ => rfl)
  | string isLiteral =>
    obtain ⟨quote, units, rfl, isQuote, isUnits⟩ := isLiteral
    apply Precedes.string
    refine ⟨quote, _, ?_, isQuote, style.units_respell isUnits isQuote⟩
    have notFeed := ne_feed_of_notBreak (notBreak_of_isQuote isQuote)
    simp [cut, notFeed]
  | @unclosed quote text isQuote isOpen =>
    have notFeed := ne_feed_of_notBreak (notBreak_of_isQuote isQuote)
    have same : (flawed .unclosed (quote :: text)).respell ended =
        flawed .unclosed (quote :: Text.respell ended text) := by
      simp [Piece.respell, flawed, notFeed]
    rw [same]
    apply Precedes.unclosed isQuote
    obtain ⟨units, isUnits, rfl | rfl⟩ := isOpen
    · exact ⟨_, style.units_respell isUnits isQuote, .inl rfl⟩
    · exact ⟨_, style.units_respell isUnits isQuote, .inr (by simp)⟩
  | @operator mark _ longest =>
    have noBreak := noBreak_operator mark
    rw [respell_eq_self noBreak]
    apply Precedes.operator
    intro other begins
    apply longest other
    rw [← respell_of_noBreak noBreak, ← respell_append] at begins
    exact style.prefix_respell (noBreak_operator other) begins
  | @stray c _ notBlank notComment notContinued notDigit notName notQuote noOperator =>
    have notBreak := notBreak_of_notBlank notBlank
    have notFeed := ne_feed_of_notBreak notBreak
    rw [respell_eq_self (by simpa [flawed] using notBreak)]
    apply Precedes.stray notBlank notComment ?_ notDigit notName notQuote
    · intro mark begins
      rw [← respell_cons notFeed] at begins
      exact noOperator mark (style.prefix_respell (noBreak_operator mark) begins)
    · intro isBackslash
      exact style.upTo (notContinued isBackslash) id

end Piece

/-! ## Moves in both spellings -/

namespace Prospect

def respell (ended : List Char) (prospect : Prospect) : Prospect :=
  { prospect with text := Text.respell ended prospect.text }

theorem Moves.respell {prospect after : Prospect} {pieces : List Piece}
    (moves : prospect.Moves pieces after) (style : IsStyle ended)
    (noReturn : ∀ c ∈ prospect.text, c ≠ '\r') :
    (prospect.respell ended).Moves (pieces.map (.respell ended)) (after.respell ended) := by
  -- Whitespace at the margin and comments are spelled alike, so only line breaks and the texts of
  -- lexemes can be different.
  have same {white comment : List Char} (margin : ∀ c ∈ white, isMargin c = true)
      (isComment : IsComment comment) :
      Text.respell ended white = white ∧ Text.respell ended comment = comment :=
    ⟨respell_of_noBreak fun c member => not_isBreak_of_isMargin (margin c member),
      respell_of_noBreak isComment.2⟩
  have feed {broken rest : List Char} (isLineBreak : IsLineBreak broken rest)
      (noReturn : ∀ c ∈ broken, c ≠ '\r') : Text.respell ended broken = ended := by
    rcases isLineBreak with rfl | rfl | ⟨rfl, -⟩
    · simp
    · simp at noReturn
    · simp at noReturn
  cases moves with
  | @ends white comment blocks last margin isComment =>
    obtain ⟨sameWhite, sameComment⟩ := same margin isComment
    simpa [Prospect.respell, Piece.respell, Piece.dropped, sameWhite, sameComment] using
      @Moves.ends white comment blocks last margin isComment
  | @blankLine white comment broken rest blocks last margin isComment isLineBreak =>
    obtain ⟨sameWhite, sameComment⟩ := same margin isComment
    have sameBreak := feed isLineBreak fun c member => noReturn c (by simp [member])
    simpa [Prospect.respell, Piece.respell, Piece.dropped, sameWhite, sameComment, sameBreak] using
      @Moves.blankLine white comment ended _ blocks last margin isComment (style.isLineBreak rest)
  | @content white rest c blocks last margin notMargin notComment notBreak =>
    have noBreak : ∀ c ∈ white, isBreak c = false := fun c member =>
      not_isBreak_of_isMargin (margin c member)
    have notFeed := ne_feed_of_notBreak notBreak
    rw [Piece.map_respell_eq_self (by rwa [Piece.texts_indentation])]
    simpa [Prospect.respell, respell_of_noBreak noBreak, notFeed] using
      @Moves.content white (Text.respell ended rest) c blocks last margin notMargin notComment
        notBreak
  | @newline broken rest blocks last isLineBreak =>
    have sameBreak := feed isLineBreak fun c member => noReturn c (by simp [member])
    simpa [Prospect.respell, Piece.respell, Piece.cut, sameBreak] using
      @Moves.newline ended _ blocks last (style.isLineBreak rest)
  | @lexeme piece rest blocks last precedes =>
    have further := precedes.respell style fun c member => noReturn c (by simp [member])
    simp only [Prospect.respell, respell_append, List.map_cons, List.map_nil]
    exact .lexeme further
  | stops => exact .stops
  | @closes text blocks last =>
    rw [Piece.map_respell_eq_self (by simp)]
    exact .closes
  | done => exact .done

end Prospect

theorem Trail.respell {first last : Prospect} {pieces : List Piece} (trail : Trail first pieces last)
    (style : IsStyle ended) (noReturn : ∀ c ∈ first.text, c ≠ '\r') :
    Trail (first.respell ended) (pieces.map (.respell ended)) (last.respell ended) := by
  induction trail with
  | refl => exact .refl _
  | @stride prospect final others running further ih =>
    have moves := prospect.moves.respell style noReturn
    rw [List.map_append]
    apply moves.trail running
    apply ih
    intro c member
    apply noReturn c
    rw [prospect.leads.text_eq]
    exact List.mem_append_right _ member

/-! ## Scans in both spellings -/

/-- A span and the one of the same text in another spelling, at the same line and column. -/
structure Span.Respells (ended : List Char) (span other : Span) : Prop where
  position : ∃ position, span.position = .ok position ∧ other.position = .ok position
  text : ∃ text, span.chars = .ok text ∧ other.chars = .ok (respell ended text)

structure Token.Respells (ended : List Char) (token other : Token) : Prop where
  kind : token.kind = other.kind
  line : token.line = other.line
  span : token.span.Respells ended other.span

/-- A diagnostic and the same one in another spelling, with the same line, and with the same
character or width if it has one. -/
inductive Diagnostic.Respells (ended : List Char) : Diagnostic → Diagnostic → Prop where
  | intro {span other : Span} (flaw : Flaw) (line : Nat) (respells : span.Respells ended other) :
      Respells ended (flaw.diagnostic span line) (flaw.diagnostic other line)

section

variable {source other : Source} (style : IsStyle ended) (hasTable : source.HasTable)
  (otherTable : other.HasTable) (same : other.chars = Text.respell ended source.chars)
  (noReturn : ∀ c ∈ source.chars, c ≠ '\r')

include style hasTable otherTable same noReturn

theorem Span.respells_between {front text rest : List Char}
    (content : source.chars = front ++ text ++ rest) :
    Span.Respells ended ⟨width front, width (front ++ text), source⟩
      ⟨width (respell ended front), width (respell ended front ++ respell ended text), other⟩ where
  position := by
    have noReturn : ∀ c ∈ front, c ≠ '\r' := fun c member => noReturn c (by simp [content, member])
    rw [List.append_assoc] at content
    have here := hasTable.position?_eq content
    rw [content, respell_append] at same
    have there := otherTable.position?_eq same
    rw [style.lineSoFar_respell noReturn, Point.between, style.breaksIn_respell noReturn] at there
    refine ⟨_, by rw [Span.position, here]; rfl, ?_⟩
    rw [Span.position, there]
    rfl
  text := by
    refine ⟨text, source.slice_eq content, ?_⟩
    rw [content, respell_append, respell_append] at same
    exact other.slice_eq same

theorem Piece.respells {pieces : List Piece} {front rest : List Char}
    (content : source.chars = front ++ (texts pieces ++ rest)) :
    List.Forall₂ (Token.Respells ended)
        (tokens source (.between front (texts pieces ++ rest)) pieces)
        (tokens other (.between (Text.respell ended front) (Text.respell ended (texts pieces ++ rest)))
          (pieces.map (respell ended))) ∧
      List.Forall₂ (Diagnostic.Respells ended)
        (reports source (.between front (texts pieces ++ rest)) pieces)
        (reports other (.between (Text.respell ended front) (Text.respell ended (texts pieces ++ rest)))
          (pieces.map (respell ended))) := by
  induction pieces generalizing front with
  | nil => exact ⟨.nil, .nil⟩
  | cons piece pieces ih =>
    rw [texts_cons, List.append_assoc] at content ⊢
    have line : (Point.between front (piece.text ++ (texts pieces ++ rest))).line =
        (Point.between (Text.respell ended front)
          (Text.respell ended (piece.text ++ (texts pieces ++ rest)))).line := by
      rw [Point.between, Point.between, style.breaksIn_respell]
      exact fun c member => noReturn c (by simp [content, member])
    obtain ⟨others, otherReports⟩ := @ih (front ++ piece.text) (by rw [content, List.append_assoc])
    rw [respell_append] at line others otherReports ⊢
    have split : (piece.respell ended).text = Text.respell ended piece.text := rfl
    rw [← split] at others otherReports line ⊢
    have span : (piece.span source (.between front (piece.text ++ (texts pieces ++ rest)))).Respells
        ended ((piece.respell ended).span other (.between (Text.respell ended front)
          ((piece.respell ended).text ++ Text.respell ended (texts pieces ++ rest)))) := by
      rw [span_between, span_between]
      exact Span.respells_between style hasTable otherTable same noReturn
        (content.trans (List.append_assoc ..).symm)
    rw [List.map_cons, tokens_between_cons, tokens_between_cons, reports, reports,
      Point.advance_between, Point.advance_between]
    constructor
    · refine List.rel_append ?_ others
      rw [token?, token?, ← line, show (piece.respell ended).kind = piece.kind from rfl]
      cases piece.kind with
      | none => exact .nil
      | some kind => exact .cons ⟨rfl, rfl, span⟩ .nil
    · refine List.rel_append ?_ otherReports
      rw [report?, report?, ← line, show (piece.respell ended).flaw = piece.flaw from rfl]
      cases piece.flaw with
      | none => exact .nil
      | some flaw => exact .cons (.intro flaw _ span) .nil

end

/-- A text without carriage returns, and the same text with another break in place of every line
feed: a scan gives the same tokens and diagnostics, at the same lines and columns, only with the
breaks inside a token spelled differently. -/
theorem Source.lex_respells (style : IsStyle ended) (serial other : Nat)
    (path identifier content : String) (noReturn : ∀ c ∈ content.toList, c ≠ '\r') :
    ∃ tokens reports otherTokens otherReports,
      (ofContent serial path identifier content).lex = .ok (tokens, reports) ∧
      (ofContent other path identifier (.ofList (respell ended content.toList))).lex =
        .ok (otherTokens, otherReports) ∧
      List.Forall₂ (Token.Respells ended) tokens otherTokens ∧
      List.Forall₂ (Diagnostic.Respells ended) reports otherReports := by
  generalize of : ofContent serial path identifier content = source
  generalize otherOf :
    ofContent other path identifier (.ofList (respell ended content.toList)) = second
  have hasTable : source.HasTable := of ▸ hasTable_ofContent ..
  have otherTable : second.HasTable := otherOf ▸ hasTable_ofContent ..
  have same : second.chars = respell ended source.chars := by
    rw [← of, ← otherOf, ofContent, ofContent, String.toList_ofList]
  have noReturn : ∀ c ∈ source.chars, c ≠ '\r' := of ▸ noReturn
  obtain ⟨pieces, runs⟩ := source.exists_runs
  have otherRuns : (Prospect.start second.chars).Runs (pieces.map (.respell ended)) := by
    obtain ⟨final, trail, done⟩ := runs
    rw [same]
    exact ⟨_, trail.respell style noReturn, done⟩
  have covered : Piece.texts pieces = source.chars :=
    runs.texts_eq (Prospect.sound_start source.chars)
  obtain ⟨tokens, reports⟩ := @Piece.respells _ _ _ style hasTable otherTable same noReturn pieces []
    [] (by rw [List.append_nil, covered]; rfl)
  rw [List.append_nil, covered, ← same] at tokens reports
  refine ⟨_, _, _, _, source.lex_eq runs, second.lex_eq otherRuns, tokens, reports⟩

/-- A text of two lines, the second one indented, with both characters in place of each line feed. -/
theorem Source.lex_respells_both :
    IsStyle ['\r', '\n'] ∧ (∀ c ∈ "x\n y\n".toList, c ≠ '\r') ∧
      ∃ tokens reports otherTokens otherReports,
        (ofContent 0 "" "" "x\n y\n").lex = .ok (tokens, reports) ∧
        (ofContent 1 "" "" (.ofList (respell ['\r', '\n'] "x\n y\n".toList))).lex =
          .ok (otherTokens, otherReports) ∧
        List.Forall₂ (Token.Respells ['\r', '\n']) tokens otherTokens ∧
        List.Forall₂ (Diagnostic.Respells ['\r', '\n']) reports otherReports := by
  have style : IsStyle ['\r', '\n'] := .inl rfl
  have noReturn : ∀ c ∈ "x\n y\n".toList, c ≠ '\r' := by simp
  exact ⟨style, noReturn, lex_respells style 0 1 "" "" "x\n y\n" noReturn⟩

end Offside
