import Offside.Proofs.Placement
import Offside.Proofs.Flaws

/-!
# Lines of points, tokens and diagnostics

A reader counts lines as it goes, and a source looks them up in its table.  Both count the breaks
that end at or in front of an offset, so the line kept with a point, a token or a diagnostic is the
one that the source finds for it.
-/

namespace Offside

/-- A point between two characters of a source, on the line that the source finds for its offset. -/
structure Point.LocatedIn (source : Source) (point : Point) : Prop where
  boundary : Text.isBoundary source.chars point.offset = true
  line_eq : point.line = 1 + (Text.breakEnds 0 source.chars).countP (· ≤ point.offset)
  position : ∃ column, source.position? point.offset = .ok (some ⟨point.line, column⟩)

def Span.StartsOn (line : Nat) (span : Span) : Prop :=
  ∃ column, span.position = .ok ⟨line, column⟩

/-- A reader whose points, and the tokens cut by it, are on the lines that the source finds. -/
structure Reader.LocatedIn (source : Source) (reader : Reader) : Prop where
  point : reader.point.LocatedIn source
  start : reader.start.LocatedIn source
  mark : reader.mark.LocatedIn source
  queue : ∀ token ∈ reader.queue, token.span.StartsOn token.line
  notBelowZero : ∀ attempt, reader.outcome attempt ≠ .error .belowZero

section

variable {source : Source}

theorem Point.LiesIn.locatedIn {point : Point} (liesIn : point.LiesIn source.chars)
    (hasTable : source.HasTable) : point.LocatedIn source := by
  generalize content : source.chars = text at liesIn
  obtain ⟨front, rest⟩ := liesIn
  have position := hasTable.position?_eq content
  have count := Text.countP_breakEnds 0 front rest
  rw [Nat.zero_add] at count
  exact {
    boundary := Text.isBoundary_iff.2 ⟨front, rest, content, rfl⟩
    line_eq := by rw [content, Point.offset_between, count, Point.between]
    position := ⟨_, position⟩ }

theorem Span.BeginsOn.startsOn {span : Span} {line : Nat} (begins : span.BeginsOn source line)
    (hasTable : source.HasTable) : span.StartsOn line := by
  obtain ⟨sameSource, point, liesIn, offset, rfl⟩ := begins
  obtain ⟨column, position⟩ := (liesIn.locatedIn hasTable).position
  refine ⟨column, ?_⟩
  rw [Span.position, sameSource, ← offset, position]
  rfl

theorem Reader.Placed.locatedIn {reader : Reader} (placed : reader.Placed source)
    (hasTable : source.HasTable) : reader.LocatedIn source where
  point := placed.point.locatedIn hasTable
  start := placed.start.locatedIn hasTable
  mark := placed.mark.locatedIn hasTable
  queue token member := (placed.queue token member).startsOn hasTable
  notBelowZero attempt below := by
    have orderly := placed.outcome attempt
    rw [below] at orderly
    cases orderly with
    | fault other => exact other rfl

namespace Piece

variable {point : Point}

theorem span_beginsOn (liesIn : point.LiesIn source.chars) (piece : Piece) :
    (piece.span source point).BeginsOn source point.line :=
  ⟨rfl, point, liesIn, rfl, rfl⟩

theorem tokens_beginOn (liesIn : point.LiesIn source.chars) (pieces : List Piece) :
    ∀ token ∈ tokens source point pieces, token.span.BeginsOn source token.line := by
  induction pieces generalizing point with
  | nil => simp
  | cons piece pieces ih =>
    intro token member
    rcases List.mem_append.1 member with here | further
    · obtain ⟨kind, -, rfl⟩ := Option.map_eq_some_iff.1 (Option.mem_toList.1 here)
      exact span_beginsOn liesIn piece
    · exact ih (liesIn.advance _) token further

theorem reports_beginOn (liesIn : point.LiesIn source.chars) (pieces : List Piece) :
    ∀ report ∈ reports source point pieces, report.span.BeginsOn source report.line := by
  induction pieces generalizing point with
  | nil => simp
  | cons piece pieces ih =>
    intro report member
    rcases List.mem_append.1 member with here | further
    · obtain ⟨flaw, -, rfl⟩ := Option.map_eq_some_iff.1 (Option.mem_toList.1 here)
      cases flaw with
      | stray | tooLarge | unclosed | uneven => exact span_beginsOn liesIn piece
    · exact ih (liesIn.advance _) report further

end Piece

end

/-- Whatever is tried on a reader of a text, its points and its tokens are on the lines that the
source finds for their offsets, and so are all tokens and diagnostics of the text. -/
theorem Source.lines_agree (serial : Nat) (path identifier content : String) :
    (∀ attempts, ((Reader.ofSource (ofContent serial path identifier content)).attemptAll
        attempts).LocatedIn (ofContent serial path identifier content)) ∧
      ∃ tokens reports, (ofContent serial path identifier content).lex = .ok (tokens, reports) ∧
        (∀ token ∈ tokens, token.span.StartsOn token.line) ∧
        ∀ report ∈ reports, report.span.StartsOn report.line := by
  generalize of : ofContent serial path identifier content = source
  have hasTable : source.HasTable := of ▸ hasTable_ofContent serial path identifier content
  have origin := Point.liesIn_origin source.chars
  constructor
  · intro attempts
    exact ((Reader.placed_ofSource source).attemptAll attempts).locatedIn hasTable
  · obtain ⟨pieces, runs⟩ := source.exists_runs
    refine ⟨_, _, source.lex_eq runs, ?_, ?_⟩
    · intro token member
      exact (Piece.tokens_beginOn origin pieces token member).startsOn hasTable
    · intro report member
      exact (Piece.reports_beginOn origin pieces report member).startsOn hasTable

end Offside
