import Offside.Proofs.Lexemes

/-!
# Moves

A move is a stride told from the texts of its pieces and from what they precede, without a scan of
what is ahead.  Every stride is a move, and from a prospect there is no other; so a scan of one text
is carried over to another one by carrying over its moves.
-/

namespace Offside

open Text

namespace Prospect

/-- How a prospect moves on to the next one, with the pieces on the way. -/
inductive Moves : Prospect → List Piece → Prospect → Prop where
  | ends {white comment : List Char} {blocks : Blocks} {last : Option Kind}
      (margin : ∀ c ∈ white, isMargin c = true) (isComment : IsComment comment) :
      Moves ⟨white ++ comment, blocks, .atMargin, last⟩ [.dropped (white ++ comment)]
        ⟨[], blocks, .atEnd, last⟩
  | blankLine {white comment ended rest : List Char} {blocks : Blocks} {last : Option Kind}
      (margin : ∀ c ∈ white, isMargin c = true) (isComment : IsComment comment)
      (isLineBreak : IsLineBreak ended rest) :
      Moves ⟨white ++ comment ++ ended ++ rest, blocks, .atMargin, last⟩
        [.dropped (white ++ comment ++ ended)] ⟨rest, blocks, .atMargin, last⟩
  | content {white rest : List Char} {c : Char} {blocks : Blocks} {last : Option Kind}
      (margin : ∀ c ∈ white, isMargin c = true) (notMargin : isMargin c = false)
      (notComment : c ≠ '#') (notBreak : isBreak c = false) :
      Moves ⟨white ++ c :: rest, blocks, .atMargin, last⟩
        (Piece.indentation white (blocks.fit white.length).1)
        ⟨c :: rest, (blocks.fit white.length).2, .inLine,
          Piece.lastKind (Piece.indentation white (blocks.fit white.length).1) last⟩
  | newline {ended rest : List Char} {blocks : Blocks} {last : Option Kind}
      (isLineBreak : IsLineBreak ended rest) :
      Moves ⟨ended ++ rest, blocks, .inLine, last⟩ [.cut .newline ended]
        ⟨rest, blocks, .atMargin, some .newline⟩
  | lexeme {piece : Piece} {rest : List Char} {blocks : Blocks} {last : Option Kind}
      (precedes : piece.Precedes rest) :
      Moves ⟨piece.text ++ rest, blocks, .inLine, last⟩ [piece]
        ⟨rest, blocks, .inLine, piece.kind.or last⟩
  | stops {blocks : Blocks} {last : Option Kind} :
      Moves ⟨[], blocks, .inLine, last⟩ [] ⟨[], blocks, .atEnd, last⟩
  | closes {text : List Char} {blocks : Blocks} {last : Option Kind} :
      Moves ⟨text, blocks, .atEnd, last⟩ (Piece.ending blocks last)
        ⟨text, .empty, .done, some .eof⟩
  | done {text : List Char} {blocks : Blocks} {last : Option Kind} :
      Moves ⟨text, blocks, .done, last⟩ [] ⟨text, blocks, .done, last⟩

/-! ## Strides are moves -/

theorem moves_inLine (text : List Char) (blocks : Blocks) (last : Option Kind) :
    Moves ⟨text, blocks, .inLine, last⟩ (stride ⟨text, blocks, .inLine, last⟩).pieces
      (next ⟨text, blocks, .inLine, last⟩) := by
  cases text with
  | nil => exact .stops
  | cons c rest =>
    by_cases isBreak : isBreak c = true
    · obtain ⟨behind, split, isLineBreak⟩ := exists_isLineBreak rest isBreak
      have same : stride ⟨c :: rest, blocks, .inLine, last⟩ =
          ⟨[.cut .newline (breakAhead (c :: rest))], .atMargin, blocks⟩ := if_pos isBreak
      rw [next, same]
      generalize breakAhead (c :: rest) = ended at *
      rw [split]
      simpa [Piece.cut] using @Moves.newline ended behind blocks last isLineBreak
    · obtain ⟨behind, split, precedes⟩ := Piece.precedes_ahead rest (by simpa using isBreak)
      have same : stride ⟨c :: rest, blocks, .inLine, last⟩ =
          ⟨[.ahead c rest], .inLine, blocks⟩ := if_neg isBreak
      rw [next, same]
      generalize Piece.ahead c rest = piece at *
      rw [split]
      simpa using @Moves.lexeme piece behind blocks last precedes

theorem moves (prospect : Prospect) : prospect.Moves prospect.stride.pieces prospect.next := by
  obtain ⟨text, blocks, mode, last⟩ := prospect
  by_cases inLine : mode = .inLine
  · subst inLine
    exact moves_inLine text blocks last
  have leads := leads ⟨text, blocks, mode, last⟩
  generalize stride ⟨text, blocks, mode, last⟩ = stride at *
  generalize next ⟨text, blocks, mode, last⟩ = after at *
  generalize stride.pieces = pieces at *
  cases leads with
  | ends margin isComment => exact .ends margin isComment
  | blankLine isBlankLine =>
    obtain ⟨white, comment, ended, rfl, margin, isComment, isLineBreak⟩ := isBlankLine
    exact .blankLine margin isComment isLineBreak
  | content margin notMargin notComment notBreak =>
    exact .content margin notMargin notComment notBreak
  | newline | skip | token | stops => exact absurd rfl inLine
  | closes => exact .closes
  | done => exact .done

/-! ## Moves are strides -/

theorem stride_comment {white comment behind : List Char} (blocks : Blocks) (last : Option Kind)
    (margin : ∀ c ∈ white, isMargin c = true) (isComment : IsComment comment)
    (upTo : ∀ c ∈ behind.head?, isBreak c = true) :
    stride ⟨white ++ comment ++ behind, blocks, .atMargin, last⟩ =
      ⟨[.dropped (white ++ comment ++ breakAhead behind)],
        if breakAhead behind = [] then .atEnd else .atMargin, blocks⟩ := by
  have first : ∀ c ∈ (comment ++ behind).head?, c = '#' ∨ isBreak c = true := by
    cases comment with
    | nil => exact fun c head => .inr (upTo c head)
    | cons c comment =>
      intro d head
      obtain rfl : c = d := by simpa using head
      exact .inl (isComment.1 c rfl)
  have line : lineAhead (comment ++ behind) = comment := by
    apply (span_exact _ _).1
    · intro c member
      simp [isComment.2 c member]
    · intro c head
      simp [upTo c head]
  have split := @span_exact _ isMargin white (comment ++ behind) margin (by
    intro c head
    rcases first c head with rfl | isBreak
    · rfl
    · exact isMargin_of_isBreak isBreak)
  rw [List.append_assoc, stride]
  simp only [Stride.atMargin, split]
  cases whole : comment ++ behind with
  | nil =>
    obtain ⟨rfl, rfl⟩ := List.append_eq_nil_iff.1 whole
    simp [breakAhead]
  | cons c rest =>
    have blank := first c (by rw [whole]; rfl)
    rw [whole] at line
    simp only [blank, if_true, line]
    rw [← whole, List.drop_left]

theorem next_of_stride {text rest : List Char} {blocks : Blocks} {mode : Mode}
    {last : Option Kind} {stride : Stride} (same : Prospect.stride ⟨text, blocks, mode, last⟩ = stride)
    (covered : text = Piece.texts stride.pieces ++ rest) :
    next ⟨text, blocks, mode, last⟩ =
      ⟨rest, stride.blocks, stride.mode, Piece.lastKind stride.pieces last⟩ := by
  rw [next, same, covered, List.drop_left]

/-- A prospect has no move but its stride. -/
theorem Moves.eq {prospect after : Prospect} {pieces : List Piece}
    (moves : prospect.Moves pieces after) :
    prospect.stride.pieces = pieces ∧ prospect.next = after := by
  cases moves with
  | @ends white comment blocks last margin isComment =>
    have same := @stride_comment white comment [] blocks last margin isComment (by simp)
    rw [List.append_nil] at same
    exact ⟨by rw [same]; simp [breakAhead], next_of_stride same (by simp [breakAhead, Piece.dropped])⟩
  | @blankLine white comment ended rest blocks last margin isComment isLineBreak =>
    have same := @stride_comment white comment (ended ++ rest) blocks last margin isComment
      isLineBreak.isBreak_head?
    rw [isLineBreak.breakAhead_eq, if_neg isLineBreak.ne_nil, ← List.append_assoc] at same
    exact ⟨by rw [same], next_of_stride same (by simp [Piece.dropped])⟩
  | content margin notMargin notComment notBreak =>
    exact next_content _ _ margin notMargin notComment notBreak
  | @newline ended rest blocks last isLineBreak =>
    have same : stride ⟨ended ++ rest, blocks, .inLine, last⟩ =
        ⟨[.cut .newline ended], .atMargin, blocks⟩ := by
      have isEnd := isLineBreak.breakAhead_eq
      have isBreak := isLineBreak.isBreak_head?
      obtain ⟨c, others, rfl⟩ := List.exists_cons_of_ne_nil isLineBreak.ne_nil
      rw [List.cons_append] at isEnd ⊢
      rw [← isEnd]
      exact if_pos (isBreak c rfl)
    exact ⟨by rw [same], next_of_stride same (by simp [Piece.cut])⟩
  | @lexeme piece rest blocks last precedes =>
    have same : stride ⟨piece.text ++ rest, blocks, .inLine, last⟩ =
        ⟨[piece], .inLine, blocks⟩ := by
      obtain ⟨c, others, split, notBreak, same⟩ := precedes.ahead_eq
      rw [split, ← same]
      exact if_neg (by simp [notBreak])
    exact ⟨by rw [same], next_of_stride same (by simp)⟩
  | stops | done => exact ⟨rfl, rfl⟩
  | @closes text blocks last =>
    have behind := @next_of_stride text text blocks .atEnd last _ rfl (by simp [stride])
    exact ⟨rfl, behind.trans (by simp [stride, Piece.lastKind_ending])⟩

theorem Moves.trail {first middle last : Prospect} {pieces others : List Piece}
    (moves : first.Moves pieces middle) (running : first.mode ≠ .done)
    (further : Trail middle others last) : Trail first (pieces ++ others) last := by
  obtain ⟨rfl, rfl⟩ := moves.eq
  exact .stride running further

/-! ## The end of a text -/

/-- Whether the line under way is to be ended if the text ends here. -/
def isUnended (last : Option Kind) : Bool := last.any fun kind => !kind.isLayout

theorem isUnended_eq_false_iff {last : Option Kind} : isUnended last = false ↔ IsLayout last := by
  cases last with
  | none => simp [isUnended, IsLayout]
  | some kind => simp [isUnended, IsLayout]

theorem ending_of_isLayout (blocks : Blocks) {last : Option Kind} (isLayout : IsLayout last) :
    Piece.ending blocks last = List.replicate blocks.size (.cut .dedent []) ++ [.cut .eof []] := by
  have ended := isUnended_eq_false_iff.2 isLayout
  rw [isUnended] at ended
  simp [Piece.ending, ended]

theorem runs_of_nil (blocks : Blocks) (last : Option Kind) :
    Runs ⟨[], blocks, .atMargin, last⟩ (.dropped [] :: Piece.ending blocks last) := by
  have ends := @Moves.ends [] [] blocks last (by simp) ⟨by simp, by simp⟩
  have trail := ends.trail (by simp) (Moves.closes.trail (by simp) (.refl _))
  rw [List.append_nil, List.append_nil] at trail
  exact ⟨_, trail, rfl⟩

end Prospect

end Offside
