import Offside.Proofs.EndOfStream

/-!
# Coverage

The tokens of a scan and the gaps between them make up the text.  A gap holds nothing but
whitespace, comments, continued line breaks, and, at the start of a line, lines without content.
-/

namespace Offside

/-! ## What may be left out -/

namespace Text

/-- A gap in front of `ahead`.  Whole lines are left out only at the start of a line. -/
inductive Ignorable : (atStart : Bool) → (gap ahead : List Char) → Prop where
  | nil {atStart : Bool} {ahead : List Char} : Ignorable atStart [] ahead
  | skip {atStart : Bool} {text gap ahead : List Char} (skippable : Skippable text (gap ++ ahead))
      (further : Ignorable false gap ahead) : Ignorable atStart (text ++ gap) ahead
  | line {text gap ahead : List Char} (isBlankLine : IsBlankLine text (gap ++ ahead))
      (further : Ignorable true gap ahead) : Ignorable true (text ++ gap) ahead

theorem ignorable_of_ends {atStart inner : Bool} {white comment gap ahead : List Char}
    (margin : ∀ c ∈ white, isMargin c = true) (isComment : IsComment comment)
    (atEnd : [] = gap ++ ahead) (inside : Ignorable inner gap ahead) :
    Ignorable atStart (white ++ comment ++ gap) ahead := by
  obtain ⟨rfl, rfl⟩ := List.append_eq_nil_iff.1 atEnd.symm
  rw [List.append_assoc]
  refine .skip (skippable_of_isMargin margin _) ?_
  cases comment with
  | nil => exact .nil
  | cons c line =>
    exact .skip (.comment (by simp [isComment.1 c rfl]) isComment.2 (by simp)) .nil

end Text

/-! ## Texts with the tokens in them -/

/-- A token with its text and the gap in front of it. -/
structure Segment where
  gap : List Char
  text : List Char
  token : Token

namespace Segment

def whole (segment : Segment) : List Char := segment.gap ++ segment.text

/-- Whether a line starts directly behind a segment: its token ends one, and not at the end of the
text. -/
def endsLine (segment : Segment) : Bool :=
  segment.token.kind == .newline && !segment.text.isEmpty

end Segment

/-- Segments that cover what follows `front`, each at its place. -/
inductive Tiling (source : Source) : (atStart : Bool) → (front : List Char) → List Segment → Prop
    where
  | nil {atStart : Bool} {front : List Char} : Tiling source atStart front []
  | cons {atStart : Bool} {front : List Char} {segment : Segment} {segments : List Segment}
      (ignorable : Text.Ignorable atStart segment.gap
        (segment.text ++ segments.flatMap Segment.whole))
      (placed : segment.token.span =
        ⟨Text.width (front ++ segment.gap), Text.width (front ++ segment.whole), source⟩)
      (empty : segment.text = [] → segment.token.kind = .dedent ∨
        (segment.token.kind = .newline ∨ segment.token.kind = .eof) ∧
          segments.flatMap Segment.whole = [])
      (further : Tiling source segment.endsLine (front ++ segment.whole) segments) :
      Tiling source atStart front (segment :: segments)

namespace Tiling

variable {source : Source} {atStart : Bool} {front : List Char} {segments : List Segment}

theorem ordered (tiling : Tiling source atStart front segments) :
    ∀ segment ∈ segments, Text.width front ≤ segment.token.span.start ∧
      segment.token.span.start ≤ segment.token.span.stop := by
  induction tiling with
  | nil => simp
  | cons _ placed _ _ ih =>
    refine List.forall_mem_cons.2 ⟨?_, fun other member => ?_⟩
    · simp [placed, Segment.whole]
    · obtain ⟨behind, ordered⟩ := ih other member
      refine ⟨le_trans ?_ behind, ordered⟩
      simp

theorem source_eq (tiling : Tiling source atStart front segments) :
    ∀ segment ∈ segments, segment.token.span.source = source := by
  induction tiling with
  | nil => simp
  | cons _ placed _ _ ih =>
    intro segment member
    cases member with
    | head => rw [placed]
    | tail _ further => exact ih segment further

theorem disjoint (tiling : Tiling source atStart front segments) :
    (segments.map Segment.token).Pairwise fun a b => a.span.stop ≤ b.span.start := by
  induction tiling with
  | nil => exact .nil
  | cons _ placed _ further ih =>
    refine .cons (fun token member => ?_) ih
    obtain ⟨other, found, rfl⟩ := List.mem_map.1 member
    rw [placed]
    exact (further.ordered other found).1

theorem chars (tiling : Tiling source atStart front segments)
    (content : source.chars = front ++ segments.flatMap Segment.whole) :
    ∀ segment ∈ segments, segment.token.chars = .ok segment.text := by
  induction tiling with
  | nil => simp
  | @cons atStart front segment segments _ placed _ _ ih =>
    rw [List.flatMap_cons, ← List.append_assoc] at content
    refine List.forall_mem_cons.2 ⟨?_, ih content⟩
    rw [Segment.whole, ← List.append_assoc] at content placed
    rw [Token.chars, Span.chars, placed]
    exact Source.slice_eq content

end Tiling

/-! ## Pieces -/

/-- Pieces that lie behind `front` and cover `text`, at least one of which becomes a token. -/
def Covers (source : Source) (atStart : Bool) (front text : List Char) (pieces : List Piece) :
    Prop :=
  ∃ segments, segments ≠ [] ∧ Tiling source atStart front segments ∧
    segments.flatMap Segment.whole = text ∧
    segments.map Segment.token = Piece.tokens source (.between front text) pieces

namespace Covers

variable {source : Source} {atStart : Bool} {front text rest : List Char} {pieces : List Piece}

theorem eof : Covers source atStart front [] [.cut .eof []] := by
  refine ⟨[⟨[], [],
    ⟨.eof, ⟨Text.width front, Text.width front, source⟩, 1 + Text.breaksIn front []⟩⟩],
    List.cons_ne_nil _ _, .cons .nil ?_ (fun _ => .inr ⟨.inr rfl, rfl⟩) .nil, rfl, rfl⟩
  simp [Segment.whole]

theorem drop {inner : Bool} (covers : Covers source inner (front ++ text) rest pieces)
    (ignorable : ∀ gap ahead, rest = gap ++ ahead → Text.Ignorable inner gap ahead →
      Text.Ignorable atStart (text ++ gap) ahead) :
    Covers source atStart front (text ++ rest) (.dropped text :: pieces) := by
  -- The dropped text goes in front of the gap of the first segment behind it.  There is one, as at
  -- least the end of the stream is still to come.
  obtain ⟨segments, nonempty, tiling, whole, tokens⟩ := covers
  cases tiling with
  | nil => exact absurd rfl nonempty
  | @cons _ _ segment segments inside placed empty further =>
    have split : rest = segment.gap ++ (segment.text ++ segments.flatMap Segment.whole) := by
      rw [← whole, List.flatMap_cons, Segment.whole, List.append_assoc]
    refine ⟨⟨text ++ segment.gap, segment.text, segment.token⟩ :: segments,
      List.cons_ne_nil _ _, .cons (ignorable _ _ split inside) ?_ empty ?_, ?_, ?_⟩
    · simpa [Segment.whole] using placed
    · simpa [Segment.whole, Segment.endsLine] using further
    · simp [split, Segment.whole]
    · exact tokens.trans (Piece.tokens_between_cons source front rest (.dropped text) pieces).symm

theorem cut {piece : Piece} {kind : Kind} (isToken : piece.kind = some kind)
    (empty : piece.text = [] → kind = .dedent ∨ (kind = .newline ∨ kind = .eof) ∧ rest = [])
    (covers : Covers source (kind == .newline && !piece.text.isEmpty) (front ++ piece.text) rest
      pieces) :
    Covers source atStart front (piece.text ++ rest) (piece :: pieces) := by
  obtain ⟨segments, -, tiling, whole, tokens⟩ := covers
  refine ⟨⟨[], piece.text, ⟨kind, ⟨Text.width front, Text.width (front ++ piece.text), source⟩,
    1 + Text.breaksIn front (piece.text ++ rest)⟩⟩ :: segments, List.cons_ne_nil _ _,
    .cons .nil ?_ ?_ tiling, ?_, ?_⟩
  · simp [Segment.whole]
  · simpa [whole] using empty
  · simp [whole, Segment.whole]
  · rw [Piece.tokens_between_cons, ← tokens, Piece.token?, isToken, Piece.span_between]
    rfl

theorem dedents (count : Nat) (covers : ∀ atStart, Covers source atStart front text pieces)
    (atStart : Bool) :
    Covers source atStart front text (List.replicate count (.cut .dedent []) ++ pieces) := by
  induction count generalizing atStart with
  | zero => exact covers atStart
  | succ count ih =>
    refine @cut source atStart front text _ (.cut .dedent []) .dedent rfl (fun _ => .inl rfl) ?_
    simpa [Piece.cut] using ih false

theorem indentation {white : List Char} (margin : ∀ c ∈ white, Text.isMargin c = true)
    (blocks : Blocks) (covers : ∀ atStart, Covers source atStart (front ++ white) rest pieces)
    (atStart : Bool) :
    Covers source atStart front (white ++ rest)
      (Piece.indentation white (blocks.fit white.length).1 ++ pieces) := by
  have dropped : ∀ atStart, Covers source atStart front (white ++ rest) (.dropped white :: pieces) :=
    fun atStart => (covers false).drop fun gap ahead _ inside =>
      .skip (Text.skippable_of_isMargin margin _) inside
  have nothing : white = [] → (blocks.fit white.length).1 = .same ∨
      ∃ count, (blocks.fit white.length).1 = .closes count true := by
    rintro rfl
    exact blocks.fit_zero
  cases fit : (blocks.fit white.length).1 with
  | opens =>
    have nonempty : white ≠ [] := fun none => by simpa [fit] using nothing none
    exact @cut source atStart front rest _ (.cut .indent white) .indent rfl
      (fun none => absurd none nonempty) (covers _)
  | same => exact dropped atStart
  | closes count exact =>
    cases exact with
    | true =>
      rw [Piece.indentation, List.append_assoc]
      exact dedents count dropped atStart
    | false =>
      have nonempty : white ≠ [] := fun none => by simpa [fit] using nothing none
      rw [Piece.indentation, List.append_assoc]
      exact dedents count (fun atStart => @cut source atStart front rest _ (.uneven white) .indent
        rfl (fun none => absurd none nonempty) (covers _)) atStart

theorem ending (blocks : Blocks) (last : Option Kind) (atStart : Bool) :
    Covers source atStart front [] (Piece.ending blocks last) := by
  have closed : ∀ atStart, Covers source atStart front []
      (List.replicate blocks.size (.cut .dedent []) ++ [.cut .eof []]) :=
    dedents blocks.size fun _ => eof
  rw [Piece.ending, List.append_assoc]
  split
  next =>
    refine @cut source atStart front [] _ (.cut .newline []) .newline rfl
      (fun _ => .inr ⟨.inl rfl, rfl⟩) ?_
    simpa [Piece.cut] using closed _
  next => exact closed atStart

end Covers

variable {source : Source} {prospect next : Prospect} {pieces further : List Piece}

/-- A stride drops only what may be left out where it stands. -/
theorem Prospect.Leads.covers (leads : prospect.Leads pieces next)
    (notAtEnd : prospect.mode ≠ .atEnd) (running : prospect.mode ≠ .done)
    (covers : ∀ front atStart, (next.mode = .atMargin → atStart = true) →
      Covers source atStart front next.text further)
    (front : List Char) {atStart : Bool} (atMargin : prospect.mode = .atMargin → atStart = true) :
    Covers source atStart front prospect.text (pieces ++ further) := by
  cases leads with
  | @ends white comment _ _ margin isComment =>
    have covered : Covers source atStart front (white ++ comment ++ [])
        (.dropped (white ++ comment) :: further) :=
      (covers (front ++ (white ++ comment)) false (by simp)).drop fun _ _ =>
        Text.ignorable_of_ends margin isComment
    rwa [List.append_nil] at covered
  | @blankLine text _ _ _ isBlankLine =>
    obtain rfl := atMargin rfl
    exact (covers (front ++ text) true (fun _ => rfl)).drop fun gap ahead split =>
      .line (split ▸ isBlankLine)
  | @content white _ _ blocks _ margin =>
    exact Covers.indentation margin blocks (fun atStart => covers _ atStart (by simp)) atStart
  | @newline ended _ _ _ isLineBreak =>
    have nonempty := isLineBreak.ne_nil
    exact @Covers.cut source atStart front _ _ (.cut .newline ended) .newline rfl
      (fun none => absurd none nonempty) (covers _ _ fun _ => by simp [Piece.cut, nonempty])
  | @skip text _ _ _ skippable =>
    exact (covers (front ++ text) false (by simp)).drop fun gap ahead split inside =>
      .skip (split ▸ skippable) inside
  | token isToken _ nonempty =>
    exact Covers.cut isToken (fun none => absurd none nonempty) (covers _ _ (by simp))
  | stops => exact covers front atStart (by simp)
  | closes => exact absurd rfl notAtEnd
  | done => exact absurd rfl running

theorem Prospect.Runs.covers (runs : prospect.Runs pieces) (running : prospect.mode ≠ .done)
    (sound : prospect.Sound) (front : List Char) {atStart : Bool}
    (atMargin : prospect.mode = .atMargin → atStart = true) :
    Covers source atStart front prospect.text pieces := by
  obtain ⟨final, trail, done⟩ := runs
  induction trail generalizing front atStart with
  | refl => exact absurd done running
  | @stride prospect final further _ trail ih =>
    -- The end of the text is treated apart: behind it there is nothing left that could be covered.
    by_cases atEnd : prospect.mode = .atEnd
    · have nothing : prospect.text = [] := sound (.inl atEnd)
      have behind : prospect.next.mode = .done := by simp [Prospect.next, stride, atEnd]
      obtain rfl := runs_of_done behind ⟨final, trail, done⟩
      rw [nothing, List.append_nil, stride, atEnd]
      exact .ending prospect.blocks prospect.last atStart
    · have stays := (prospect.leads.not_eof atEnd running).1
      refine prospect.leads.covers atEnd running ?_ front atMargin
      intro front atStart atMargin
      exact ih stays (prospect.leads.sound sound) front atMargin done

/-- The tokens of a scan, each with its text and the gap in front of it, make up the whole content
of the source.  They are in order and do not overlap, the last one is the end of the stream, and
each gap holds only what may be left out there. -/
theorem Source.lex_covers (source : Source) :
    ∃ segments reports, source.lex = .ok (segments.map Segment.token, reports) ∧
      segments.flatMap Segment.whole = source.chars ∧
      Tiling source true [] segments ∧
      (∀ segment ∈ segments, segment.token.chars = .ok segment.text ∧
        segment.token.span.start ≤ segment.token.span.stop) ∧
      (segments.map Segment.token).Pairwise (fun a b => a.span.stop ≤ b.span.start) ∧
      ∃ others last, segments = others ++ [last] ∧ last.token.isEof = true := by
  obtain ⟨pieces, runs⟩ := source.exists_runs
  have running : (Prospect.start source.chars).mode ≠ .done := by simp [Prospect.start]
  obtain ⟨segments, -, tiling, whole, tokens⟩ :=
    @Prospect.Runs.covers source _ _ runs running (Prospect.sound_start source.chars) [] true
      fun _ => rfl
  obtain ⟨body, rfl, notEof⟩ := runs.eq_concat running
  obtain ⟨others, last, split, -, isEof, -⟩ :=
    @Piece.tokens_concat_eof source (.origin source.chars) body notEof
  have ending : segments.map Segment.token = others ++ [last] := tokens.trans split
  have lexed := source.lex_eq runs
  rw [split, ← ending] at lexed
  refine ⟨segments, _, lexed, whole, tiling, fun segment member =>
    ⟨tiling.chars whole.symm segment member, (tiling.ordered segment member).2⟩,
    tiling.disjoint, ?_⟩
  -- The segments are cut where their tokens are, in front of the last one.
  obtain ⟨front, back, rfl, -, behind⟩ := List.map_eq_append_iff.1 ending
  obtain ⟨segment, rfl, rfl⟩ := List.map_eq_singleton_iff.1 behind
  exact ⟨front, segment, rfl, isEof⟩

end Offside
