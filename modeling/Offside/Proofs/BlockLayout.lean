import Offside.Proofs.EndOfStream
import Offside.Proofs.Nesting

/-!
# The layout of blocks

A line with content opens and closes blocks by the width of its whitespace, and the end of the text
closes what is still open; nothing else does.  So the tokens that open and close blocks are
balanced, and at every moment they tell how many blocks are open.
-/

namespace Offside

open Text

/-! ## In front of a line -/

/-- The tokens that a line with content begins with: `front` is the text before the line, `white`
its whitespace and `line` its number. -/
def opening (source : Source) (front white : List Char) (line : Nat) (blocks : Blocks) :
    List Token :=
  let indent : Token := ⟨.indent, ⟨width front, width (front ++ white), source⟩, line⟩
  let dedent : Token := ⟨.dedent, ⟨width front, width front, source⟩, line⟩
  if white.length = blocks.innermost then []
  else if blocks.innermost < white.length then [indent]
  else
    List.replicate (blocks.levels.countP (white.length < ·)) dedent ++
      if white.length ∈ blocks.levels then [] else [indent]

/-- The levels that are open behind the whitespace of a line with content. -/
def levelsBehind (width : Nat) (blocks : Blocks) : List Nat :=
  if width = blocks.innermost then blocks.levels
  else if blocks.innermost < width then blocks.levels ++ [width]
  else
    blocks.levels.filter (· ≤ width) ++ if width ∈ blocks.levels then [] else [width]

namespace Piece

theorem tokens_replicate_cut (source : Source) (point : Point) (kind : Kind) (count : Nat)
    (pieces : List Piece) :
    tokens source point (List.replicate count (cut kind []) ++ pieces) =
      List.replicate count ⟨kind, ⟨point.offset, point.offset, source⟩, point.line⟩ ++
        tokens source point pieces := by
  induction count with
  | zero => rfl
  | succ count ih =>
    rw [List.replicate_succ, List.replicate_succ, List.cons_append, List.cons_append, tokens, ← ih]
    rfl

theorem tokens_of_kind (source : Source) (front rest : List Char) {piece : Piece} {kind : Kind}
    (isToken : piece.kind = some kind) :
    tokens source (.between front (piece.text ++ rest)) [piece] =
      [⟨kind, ⟨width front, width (front ++ piece.text), source⟩,
        1 + breaksIn front (piece.text ++ rest)⟩] := by
  rw [tokens_singleton, token?, isToken, span_between]
  rfl

theorem tokens_indentation (source : Source) {front white rest : List Char} {blocks : Blocks}
    (nested : blocks.Nested) :
    tokens source (.between front (white ++ rest))
        (indentation white (blocks.fit white.length).1) =
      opening source front white (1 + breaksIn front (white ++ rest)) blocks := by
  have count := Blocks.size_sub_upTo nested white.length
  have level := Blocks.innermost_upTo_eq nested white.length
  have indent := @tokens_of_kind source front rest (cut .indent white) .indent rfl
  have uneven := @tokens_of_kind source front rest (uneven white) .indent rfl
  have nothing : tokens source (.between front (white ++ rest)) [dropped white] = [] := rfl
  rw [opening, Blocks.fit]
  -- Widths are compared first; only where blocks are closed it matters whether the line returns
  -- to a level.
  by_cases same : white.length = blocks.innermost
  · simpa [same, indentation] using nothing
  by_cases wider : blocks.innermost < white.length
  · simp only [same, wider, indentation, if_true, if_false]
    exact indent
  by_cases member : white.length ∈ blocks.levels
  · simp only [same, wider, member, level.2 member, indentation, if_true, if_false, count,
      tokens_replicate_cut, nothing]
    rfl
  · simp only [same, wider, member, mt level.1 member, indentation, if_false, count,
      tokens_replicate_cut]
    exact congrArg _ uneven

end Piece

theorem levels_fit {blocks : Blocks} (nested : blocks.Nested) (width : Nat) :
    (blocks.fit width).2.levels = levelsBehind width blocks := by
  have level := Blocks.innermost_upTo_eq nested width
  have kept := Blocks.levels_upTo nested width
  rw [levelsBehind, Blocks.fit]
  by_cases same : width = blocks.innermost
  · simp [same]
  by_cases wider : blocks.innermost < width
  · simp [same, wider]
  by_cases member : width ∈ blocks.levels
  · simp [same, wider, member, level.2 member, kept]
  · simp [same, wider, member, mt level.1 member, kept]

/-! ## The number of open blocks -/

namespace Piece

def kinds (pieces : List Piece) : List Kind := pieces.filterMap kind

theorem kinds_append (xs ys : List Piece) : kinds (xs ++ ys) = kinds xs ++ kinds ys :=
  List.filterMap_append ..

theorem kinds_replicate_cut (kind : Kind) (count : Nat) :
    kinds (List.replicate count (cut kind [])) = List.replicate count kind := by
  simp [kinds, cut]

theorem kinds_ending (blocks : Blocks) (last : Option Kind) :
    kinds (ending blocks last) =
      (if last.any fun kind => !kind.isLayout then [.newline] else []) ++
        (List.replicate blocks.size .dedent ++ [.eof]) := by
  rw [ending, kinds_append, kinds_append, kinds_replicate_cut, List.append_assoc]
  split
  · rfl
  · rfl

theorem map_kind_tokens (source : Source) (point : Point) (pieces : List Piece) :
    (tokens source point pieces).map Token.kind = kinds pieces := by
  induction pieces generalizing point with
  | nil => rfl
  | cons piece pieces ih =>
    rw [tokens, List.map_append, ih, kinds, kinds, List.filterMap_cons]
    rw [token?]
    cases piece.kind <;> rfl

theorem depth?_indentation (white : List Char) (blocks : Blocks) :
    depth? blocks.size (kinds (indentation white (blocks.fit white.length).1)) =
      some (blocks.fit white.length).2.size := by
  have fewer := blocks.size_upTo_le white.length
  have closed : depth? blocks.size (List.replicate
      (blocks.size - (blocks.upTo white.length).size) .dedent) =
      some (blocks.upTo white.length).size := by
    rw [depth?_dedents (Nat.sub_le ..)]
    congr 1
    omega
  rw [Blocks.fit]
  split
  next =>
    rw [Blocks.size_enter]
    rfl
  split
  next => rfl
  simp only
  split
  next =>
    simp only [indentation, kinds_append, kinds_replicate_cut, depth?_append, closed]
    rfl
  next =>
    simp only [indentation, kinds_append, kinds_replicate_cut, depth?_append, closed,
      Blocks.size_enter]
    rfl

theorem depth?_ending (blocks : Blocks) (last : Option Kind) :
    depth? blocks.size (kinds (ending blocks last)) = some 0 := by
  have closed : depth? blocks.size (List.replicate blocks.size .dedent) = some 0 := by
    rw [depth?_dedents (Nat.le_refl _), Nat.sub_self]
  have ended : depth? blocks.size (kinds (if last.any fun kind => !kind.isLayout then
      [cut .newline []] else [])) = some blocks.size := by
    split <;> rfl
  rw [ending, kinds_append, kinds_append, kinds_replicate_cut, depth?_append, depth?_append, ended]
  simp only [Option.bind_some, closed]
  rfl

end Piece

namespace Prospect

variable {prospect next : Prospect} {pieces : List Piece}

theorem Leads.others (leads : prospect.Leads pieces next) (inLine : prospect.mode = .inLine) :
    (∀ kind ∈ Piece.kinds pieces, kind ≠ .indent ∧ kind ≠ .dedent) ∧
      next.blocks = prospect.blocks := by
  cases leads with
  | newline => simp [Piece.kinds, Piece.cut]
  | skip => simp [Piece.kinds, Piece.dropped]
  | @token piece rest kind _ _ isToken isContent =>
    refine ⟨?_, rfl⟩
    intro other member
    obtain rfl : other = kind := by simpa [Piece.kinds, isToken] using member
    constructor
    · rintro rfl
      cases isContent
    · rintro rfl
      cases isContent
  | stops => simp [Piece.kinds]
  | ends | blankLine | content | closes | done => cases inLine

theorem Leads.depth? (leads : prospect.Leads pieces next) :
    depth? prospect.blocks.size (Piece.kinds pieces) = some next.blocks.size := by
  have others := leads.others
  cases leads with
  | ends | blankLine | stops | done => rfl
  | @content white _ _ blocks => exact Piece.depth?_indentation white blocks
  | newline | skip | token => exact depth?_others _ (others rfl).1
  | @closes _ blocks last => exact Piece.depth?_ending blocks last

theorem Leads.nested (leads : prospect.Leads pieces next) (nested : prospect.blocks.Nested) :
    next.blocks.Nested := by
  cases leads with
  | ends | blankLine | newline | skip | token | stops | done => exact nested
  | @content white => exact Blocks.nested_fit nested white.length
  | closes => exact Blocks.nested_empty

theorem Leads.beginsLine (leads : prospect.Leads pieces next) (front : List Char)
    (atMargin : next.mode = .atMargin) : BeginsLine (front ++ Piece.texts pieces) next.text := by
  cases leads with
  | blankLine isBlankLine =>
    obtain ⟨white, comment, ended, rfl, -, -, isLineBreak⟩ := isBlankLine
    have begins := isLineBreak.beginsLine (front ++ white ++ comment)
    simpa [Piece.dropped] using begins
  | newline isLineBreak =>
    have begins := isLineBreak.beginsLine front
    simpa [Piece.cut] using begins
  | ends | content | skip | token | stops | closes | done => cases atMargin

end Prospect

/-- What holds of the blocks wherever a scan gets to: they are nested, the tokens of the pieces
tell how many are open, a stride at the start of a line begins a line, and none is open behind the
end. -/
structure Prospect.Settled (pieces : List Piece) (prospect : Prospect) : Prop where
  nested : prospect.blocks.Nested
  depth : depth? 0 (Piece.kinds pieces) = some prospect.blocks.size
  begins : prospect.mode = .atMargin → BeginsLine (Piece.texts pieces) prospect.text
  closed : prospect.mode = .done → prospect.blocks.size = 0

namespace Prospect

variable {prospect : Prospect} {pieces : List Piece}

theorem settled_start (text : List Char) : (start text).Settled [] :=
  ⟨Blocks.nested_empty, rfl, fun _ => .inl rfl, fun _ => rfl⟩

theorem Settled.next (settled : prospect.Settled pieces) (running : prospect.mode ≠ .done) :
    prospect.next.Settled (pieces ++ prospect.stride.pieces) where
  nested := prospect.leads.nested settled.nested
  depth := by
    rw [Piece.kinds_append, depth?_append, settled.depth]
    exact prospect.leads.depth?
  begins atMargin := by
    rw [Piece.texts_append]
    exact prospect.leads.beginsLine _ atMargin
  closed done := by
    by_cases atEnd : prospect.mode = .atEnd
    · rw [Prospect.next, stride, atEnd]
      rfl
    · exact absurd done (prospect.leads.not_eof atEnd running).1

end Prospect

theorem Trail.settled {first last : Prospect} {before pieces : List Piece}
    (trail : Trail first pieces last) (settled : first.Settled before) :
    last.Settled (before ++ pieces) := by
  -- The pieces so far are those of the trail up to here, so they grow with every stride.
  induction trail generalizing before with
  | refl => rwa [List.append_nil]
  | stride running _ ih =>
    rw [← List.append_assoc]
    exact ih (settled.next running)

/-! ## The steps of a scan -/

/-- What a step that cuts tokens does to the blocks, where `front` is the text behind the lexer. -/
inductive Lays (source : Source) (front : List Char) (lexer after : Lexer) (cut : List Token) :
    Prop where
  /-- In front of a line with content its whitespace decides. -/
  | content {white rest : List Char} {c : Char} (atMargin : lexer.mode = .atMargin)
      (ahead : lexer.reader.point.rest = white ++ c :: rest)
      (begins : BeginsLine front (white ++ c :: rest))
      (margin : ∀ d ∈ white, isMargin d = true) (notMargin : isMargin c = false)
      (notComment : c ≠ '#') (notBreak : isBreak c = false)
      (opens : cut =
        opening source front white (1 + breaksIn front (white ++ c :: rest)) lexer.blocks)
      (levels : after.blocks.levels = levelsBehind white.length lexer.blocks)
      (goesOn : after.mode = .inLine ∧ after.reader.point.rest = c :: rest)
  /-- A line without content leaves the blocks alone. -/
  | blank (atMargin : lexer.mode = .atMargin)
      (noContent : ∀ c ∈ (lexer.reader.point.rest.dropWhile isMargin).head?,
        c = '#' ∨ isBreak c = true)
      (nothing : cut = []) (same : after.blocks = lexer.blocks)
  /-- So does everything inside a line. -/
  | inLine (inLine : lexer.mode = .inLine)
      (others : ∀ token ∈ cut, token.kind ≠ .indent ∧ token.kind ≠ .dedent)
      (same : after.blocks = lexer.blocks)
  /-- At the end of the text every block is closed, and then the stream ends. -/
  | atEnd {ended : List Token} (atEnd : lexer.mode = .atEnd)
      (nothingAhead : lexer.reader.point.rest = [])
      (newline : ∀ token ∈ ended, token.kind = .newline)
      (closes : cut = ended ++
        List.replicate lexer.blocks.size
          ⟨.dedent, ⟨width front, width front, source⟩, 1 + breaksIn front []⟩ ++
        [⟨.eof, ⟨width front, width front, source⟩, 1 + breaksIn front []⟩])
      (closed : after.blocks.size = 0)

/-- The tokens at the end of a text: the end of its last line, one for each open block, and the end
of the stream. -/
theorem Piece.tokens_ending (source : Source) (point : Point) (blocks : Blocks)
    (last : Option Kind) :
    ∃ ended, (∀ token ∈ ended, token.kind = .newline) ∧
      tokens source point (ending blocks last) =
        ended ++ List.replicate blocks.size
            ⟨.dedent, ⟨point.offset, point.offset, source⟩, point.line⟩ ++
          [⟨.eof, ⟨point.offset, point.offset, source⟩, point.line⟩] := by
  rw [ending, List.append_assoc]
  split
  · refine ⟨[⟨.newline, ⟨point.offset, point.offset, source⟩, point.line⟩], by simp, ?_⟩
    rw [tokens_append, tokens_replicate_cut, List.append_assoc]
    rfl
  · refine ⟨[], by simp, ?_⟩
    rw [List.nil_append, tokens_replicate_cut]
    rfl

/-- Every stride does to the blocks what it should. -/
theorem Prospect.Leads.lays {source : Source} {lexer after : Lexer} {before pieces : List Piece}
    (leads : lexer.prospect.Leads pieces after.prospect)
    (settled : lexer.prospect.Settled before) (sound : lexer.prospect.Sound)
    (running : lexer.mode ≠ .done) :
    Lays source (Piece.texts before) lexer after
      (Piece.tokens source (.between (Piece.texts before) lexer.reader.point.rest) pieces) := by
  have others := leads.others
  have nested := settled.nested
  have begins := settled.begins
  have ahead : lexer.reader.point.rest = lexer.prospect.text := rfl
  have blocks : lexer.blocks = lexer.prospect.blocks := rfl
  have mode : lexer.mode = lexer.prospect.mode := rfl
  have behind : after.reader.point.rest = after.prospect.text := rfl
  have blocksBehind : after.blocks = after.prospect.blocks := rfl
  have modeBehind : after.mode = after.prospect.mode := rfl
  -- Both prospects are generalised, so that where the stride leads decides what stands in the two
  -- lexers.
  generalize lexer.prospect = first at *
  generalize after.prospect = second at *
  generalize Piece.texts before = front at *
  cases leads with
  | @ends white comment _ _ margin isComment =>
    refine .blank mode ?_ rfl (blocksBehind.trans blocks.symm)
    rw [ahead]
    simpa using @noContent_of_isComment white comment [] margin isComment (by simp)
  | blankLine isBlankLine =>
    obtain ⟨white, comment, ended, rfl, margin, isComment, isLineBreak⟩ := isBlankLine
    refine .blank mode ?_ rfl (blocksBehind.trans blocks.symm)
    rw [ahead, List.append_assoc]
    exact noContent_of_isComment margin isComment isLineBreak.isBreak_head?
  | @content white rest c _ _ margin notMargin notComment notBreak =>
    rw [ahead]
    refine .content mode ahead (begins rfl) margin notMargin notComment notBreak ?_ ?_
      ⟨modeBehind, behind⟩
    · rw [blocks]
      exact Piece.tokens_indentation source nested
    · rw [blocksBehind, blocks]
      exact levels_fit nested white.length
  | newline | skip | token | stops =>
    obtain ⟨others, same⟩ := others rfl
    refine .inLine mode ?_ (blocksBehind.trans (same.trans blocks.symm))
    intro token member
    apply others
    rw [← Piece.map_kind_tokens source (.between front lexer.reader.point.rest)]
    exact List.mem_map_of_mem member
  | @closes text opened last =>
    obtain rfl : text = [] := sound (.inl rfl)
    obtain rfl : lexer.blocks = opened := blocks
    obtain ⟨ended, newline, tokens⟩ :=
      Piece.tokens_ending source (.between front []) lexer.blocks last
    rw [ahead, tokens]
    exact .atEnd mode ahead newline rfl (by rw [blocksBehind]; rfl)
  | done => exact absurd mode running

namespace Lexer

variable {source : Source} {lexer after : Lexer} {report : Option Diagnostic}
  {pieces : List Piece}

/-- Wherever a scan gets to, the next step does to the blocks what it should.  The tokens so far
open and close blocks in pairs, up to the blocks that are open there, and behind the end of the
stream there are none. -/
theorem Visits.lays_out {taken : List Token} (visits : Visits source taken lexer) :
    (lexer.mode ≠ .done → ∃ front after report cut,
      source.chars = front ++ lexer.reader.point.rest ∧ lexer.step = .ok (after, report) ∧
      after.reader.queue = lexer.reader.queue ++ cut ∧ Lays source front lexer after cut) ∧
    Balanced ((taken ++ lexer.reader.queue).map Token.kind) lexer.blocks.size ∧
    (lexer.mode = .done → lexer.blocks.size = 0) := by
  obtain ⟨pieces, along⟩ := visits.along
  have settled := along.trail.settled (Prospect.settled_start source.chars)
  have sound := along.trail.sound (Prospect.sound_start source.chars)
  rw [List.nil_append] at settled
  have content : source.chars = Piece.texts pieces ++ lexer.reader.point.rest :=
    along.trail.text_eq
  have point : lexer.reader.point = .between (Piece.texts pieces) lexer.reader.point.rest := by
    have advanced := along.point
    rw [content, Point.origin_eq_between, Point.advance_between] at advanced
    exact advanced
  refine ⟨fun running => ?_, ?_, settled.closed⟩
  · obtain ⟨after, report, stepped, follows⟩ := step_follows along.clear
    refine ⟨_, after, report, _, content, stepped, follows.takes.queue, ?_⟩
    have same : lexer.reader.source = source := along.sameSource
    rw [same, point]
    have leads := lexer.prospect.leads
    rw [← follows.prospect] at leads
    exact leads.lays settled sound running
  · rw [along.tokens, Piece.map_kind_tokens]
    exact balanced_of_depth? settled.depth

/-- A scan of an indented name, at its start. -/
theorem Visits.lays_out_start :
    Visits ⟨0, "", "", [' ', 'x'], #[]⟩ [] (ofSource ⟨0, "", "", [' ', 'x'], #[]⟩) ∧
      ∃ front after report cut, [' ', 'x'] = front ++ [' ', 'x'] ∧
        (ofSource ⟨0, "", "", [' ', 'x'], #[]⟩).step = .ok (after, report) ∧
        after.reader.queue = cut ∧
        Lays ⟨0, "", "", [' ', 'x'], #[]⟩ front (ofSource ⟨0, "", "", [' ', 'x'], #[]⟩) after
          cut := by
  have visits : Visits ⟨0, "", "", [' ', 'x'], #[]⟩ [] (ofSource ⟨0, "", "", [' ', 'x'], #[]⟩) :=
    .start
  exact ⟨visits, (lays_out visits).1 (by decide)⟩

end Lexer

/-- The tokens of a source open and close blocks in pairs. -/
theorem Source.lex_balanced (source : Source) :
    ∃ tokens reports, source.lex = .ok (tokens, reports) ∧ Balanced (tokens.map Token.kind) 0 := by
  obtain ⟨pieces, runs⟩ := source.exists_runs
  obtain ⟨final, trail, done⟩ := runs
  have settled := trail.settled (Prospect.settled_start source.chars)
  refine ⟨_, _, source.lex_eq ⟨final, trail, done⟩, ?_⟩
  rw [Piece.map_kind_tokens, ← settled.closed done]
  exact balanced_of_depth? settled.depth

end Offside
