import Offside.Proofs.Insertions
import Offside.Proofs.LineBreakStyles

/-!
# Spacing

Behind a content of a line, whitespace and continued lines can be inserted.  They separate the
content from what comes behind it, which they never change: more whitespace joins the whitespace that
is there, and a continued line is left out like it.
-/

namespace Offside

open Text

namespace Text

/-- Whitespace that breaks no line, and backslashes with one line break behind each of them. -/
inductive IsSpacing : List Char → Prop where
  | nil : IsSpacing []
  | blank {c : Char} {gap : List Char} (blank : isBlank c = true) (notBreak : isBreak c = false)
      (further : IsSpacing gap) : IsSpacing (c :: gap)
  | continuation {ended gap : List Char} (isLineBreak : IsLineBreak ended gap)
      (further : IsSpacing gap) : IsSpacing ('\\' :: (ended ++ gap))

namespace IsSpacing

variable {gap other : List Char}

theorem separates (spacing : IsSpacing gap) (nonempty : gap ≠ []) :
    ∃ c others, gap = c :: others ∧ Piece.IsSeparator c ∧ isBreak c = false := by
  cases spacing with
  | nil => exact absurd rfl nonempty
  | blank blank notBreak => exact ⟨_, _, rfl, .inl blank, notBreak⟩
  | continuation => exact ⟨_, _, rfl, .inr rfl, rfl⟩

theorem append (spacing : IsSpacing gap) (further : IsSpacing other) : IsSpacing (gap ++ other) := by
  induction spacing with
  | nil => exact further
  | blank blank notBreak _ ih => exact .blank blank notBreak ih
  | @continuation ended gap isLineBreak _ ih =>
    rw [List.cons_append, List.append_assoc]
    refine .continuation ?_ ih
    cases gap with
    | cons c gap => exact isLineBreak.of_head? rfl
    | nil =>
      refine isLineBreak.of_seam fun _ feed => ?_
      obtain ⟨others, rfl⟩ := List.head?_eq_some_iff.1 feed
      obtain ⟨c, more, same, -, notBreak⟩ := further.separates (List.cons_ne_nil _ _)
      obtain rfl := (List.cons.inj same).1
      cases notBreak

end IsSpacing

end Text

/-! ## Scans of a gap -/

namespace Piece

theorem Behind.join {gap white : List Char} {pieces others : List Piece}
    (behind : Behind gap pieces (dropped white :: others)) (text : List Char) :
    Behind (text ++ gap) pieces (dropped (text ++ white) :: others) where
  tokens source point := by
    have same := behind.tokens source (point.advance text.length)
    rw [← Point.advance_add, ← List.length_append] at same
    rw [← same]
    simp [Piece.tokens, token?, dropped, Point.advance_add]
  reports source point := by
    have same := behind.reports source (point.advance text.length)
    rw [← Point.advance_add, ← List.length_append] at same
    rw [← same]
    simp [Piece.reports, report?, dropped, Point.advance_add]
  words := behind.words

end Piece

namespace Prospect

variable {pieces others : List Piece} {text gap rest : List Char} {c : Char} {blocks : Blocks}
  {last : Option Kind}

theorem Runs.blank (runs : Runs ⟨text, blocks, .inLine, last⟩ others) (blank : isBlank c = true)
    (notBreak : isBreak c = false) (behind : Piece.Behind gap pieces others) :
    ∃ more, Runs ⟨c :: text, blocks, .inLine, last⟩ more ∧ Piece.Behind (c :: gap) pieces more := by
  have whole := List.takeWhile_append_dropWhile (p := fun c => isBlank c && !isBreak c) (l := text)
  have all : ∀ c ∈ text.takeWhile fun c => isBlank c && !isBreak c,
      isBlank c = true ∧ isBreak c = false := by
    intro c member
    simpa using List.mem_takeWhile_imp member
  have upTo : ∀ c ∈ (text.dropWhile fun c => isBlank c && !isBreak c).head?,
      isBlank c = false ∨ isBreak c = true := by
    intro c head
    have stops := head?_dropWhile (fun c => isBlank c && !isBreak c) text c head
    rwa [Bool.and_eq_false_iff, Bool.not_eq_false'] at stops
  generalize text.takeWhile (fun c => isBlank c && !isBreak c) = white at *
  generalize text.dropWhile (fun c => isBlank c && !isBreak c) = further at *
  subst whole
  have joined := @Moves.lexeme _ further blocks last (.blanks (List.cons_ne_nil c white)
    (List.forall_mem_cons.2 ⟨⟨blank, notBreak⟩, all⟩) upTo)
  cases white with
  | nil => exact ⟨_, joined.runs (by simp) runs, behind.drop [c]⟩
  | cons d white =>
    have alone := @Moves.lexeme _ further blocks last (.blanks (List.cons_ne_nil d white) all upTo)
    obtain ⟨later, rfl, onward⟩ := alone.split_runs (by simp) runs
    exact ⟨_, joined.runs (by simp) onward, behind.join [c]⟩

/-- Spacing in front leaves no token, and what comes behind it stays the same. -/
theorem Runs.spaced (runs : Runs ⟨rest, blocks, .inLine, last⟩ pieces) (spacing : IsSpacing gap)
    (seam : gap.getLast? = some '\r' → rest.head? ≠ some '\n') :
    ∃ more, Runs ⟨gap ++ rest, blocks, .inLine, last⟩ more ∧ Piece.Behind gap pieces more := by
  induction spacing with
  | nil => exact ⟨pieces, runs, .refl pieces⟩
  | @blank c gap blank notBreak _ ih =>
    obtain ⟨others, further, behind⟩ := ih fun isReturn =>
      seam (@List.mem_getLast?_append_of_mem_getLast? _ [c] _ _ isReturn)
    exact further.blank blank notBreak behind
  | @continuation ended gap isLineBreak _ ih =>
    obtain ⟨others, further, behind⟩ := ih fun isReturn =>
      seam (@List.mem_getLast?_append_of_mem_getLast? _ ('\\' :: ended) _ _ isReturn)
    have ends : IsLineBreak ended (gap ++ rest) := by
      cases gap with
      | cons c gap => exact isLineBreak.of_head? rfl
      | nil =>
        refine isLineBreak.of_seam fun isReturn => seam ?_
        rw [List.append_nil]
        exact @List.mem_getLast?_append_of_mem_getLast? _ ['\\'] _ _ isReturn
    have moves := @Moves.lexeme _ _ blocks last (.continuation ends)
    refine ⟨_, ?_, behind.drop ('\\' :: ended)⟩
    rw [List.cons_append, List.append_assoc]
    exact moves.runs (by simp) further

end Prospect

/-! ## Gaps behind contents -/

theorem Piece.Precedes.notBreak_getLast? {piece : Piece} {rest : List Char}
    (precedes : piece.Precedes rest) (isToken : piece.kind ≠ none)
    (closed : piece.flaw ≠ some .unclosed) : ∀ c ∈ piece.text.getLast?, isBreak c = false := by
  intro c last
  have member := List.mem_of_getLast? last
  cases precedes with
  | comment | continuation | blanks => exact absurd rfl isToken
  | digits isDigits =>
    rw [Piece.text_ofDigits] at member
    exact noBreak_of_isDigits isDigits c member
  | float isFloat => exact noBreak_of_isFloat isFloat c member
  | name isName => exact noBreak_of_isName isName c member
  | string isLiteral =>
    obtain ⟨quote, units, rfl, isQuote, -⟩ := isLiteral
    rw [cut, ← List.cons_append, List.getLast?_concat] at last
    obtain rfl := Option.some.inj last
    exact notBreak_of_isQuote isQuote
  | unclosed => exact absurd rfl closed
  | operator => exact noBreak_operator _ c member
  | stray notBlank =>
    obtain rfl := List.mem_singleton.1 member
    exact notBreak_of_notBlank notBlank

theorem Prospect.Cut.breaksIn_eq {source : Source} {passed : List Char} {prospect : Prospect}
    {pieces : List Piece} {before after : List Token} {token : Token}
    (cut : Prospect.Cut source passed prospect pieces before token after)
    (closed : cut.piece.flaw ≠ some .unclosed) (rest other : List Char) :
    breaksIn (Piece.texts (cut.front ++ [cut.piece])) rest =
      breaksIn (Piece.texts (cut.front ++ [cut.piece])) other := by
  apply breaksIn_of_seam
  intro isReturn
  have kept := cut.precedes.notBreak_getLast? (by simp [cut.isKind]) closed
  obtain ⟨before, c, split⟩ := cut.piece.text.eq_nil_or_concat'.resolve_left cut.nonempty
  have notBreak := kept c (by simp [split])
  obtain rfl : c = '\r' := by simpa [split, ← List.append_assoc] using isReturn
  cases notBreak

/-- Whitespace and continued lines can be inserted behind any content of a line, unless it is a
string that stays open.  The tokens and the diagnostics are the same: those up to the content stay
where they are, and those behind it are moved. -/
theorem Source.lex_spaced {source : Source} {before after : List Token} {token : Token}
    {reports : List Diagnostic} (lexed : source.lex = .ok (before ++ token :: after, reports))
    (isContent : token.kind.isContent = true)
    (closed : .openString token.span token.line ∉ reports) :
    ∃ front rest earlier later, source.chars = front ++ rest ∧ width front = token.span.stop ∧
      ∀ (other : Source) (gap : List Char), IsSpacing gap → gap ≠ [] →
        (gap.getLast? = some '\r' → rest.head? ≠ some '\n') →
        other.chars = front ++ (gap ++ rest) →
        source.Spreads other token.span.stop (width gap) (breaksIn gap []) (before ++ [token]) after
          earlier later := by
  obtain ⟨pieces, runs, tokens, rfl⟩ := source.exists_of_lex lexed
  obtain ⟨cut⟩ : Nonempty (Prospect.Cut source [] _ pieces before token after) :=
    runs.exists_cut tokens.symm isContent
  have closed : cut.piece.flaw ≠ some .unclosed := fun unclosed => closed (cut.report_mem unclosed)
  have stop : token.span.stop = width (Piece.texts (cut.front ++ [cut.piece])) := by
    rw [cut.span_eq]
    rfl
  refine ⟨_, cut.rest, Piece.reports source (.origin source.chars) (cut.front ++ [cut.piece]),
    Piece.reports source (.between (Piece.texts (cut.front ++ [cut.piece])) cut.rest) cut.back,
    cut.text_eq, stop.symm, fun other gap spacing nonempty seam inserted => ?_⟩
  obtain ⟨more, again, behind⟩ := cut.onward.spaced spacing seam
  obtain ⟨c, others, rfl, separator, notBreak⟩ := spacing.separates nonempty
  have whole := again.behind (cut.through closed separator notBreak (others ++ cut.rest))
  rw [← List.cons_append, ← inserted] at whole
  have inGap : breaksIn (c :: others) cut.rest = breaksIn (c :: others) [] :=
    breaksIn_of_seam fun isReturn => by simp [seam isReturn]
  have spreads := Source.spreads (cut.split ▸ runs) whole cut.text_eq inserted
    (cut.breaksIn_eq closed _ _) inGap behind (by simp [cut.nonempty])
  have upToToken : Piece.tokens source (.origin source.chars) (cut.front ++ [cut.piece]) =
      before ++ [token] := cut.upToToken
  have further : Piece.tokens source (.between (Piece.texts (cut.front ++ [cut.piece])) cut.rest)
      cut.back = after := cut.behind
  rwa [upToToken, further, ← stop] at spreads

/-- A continued line between an operator and a name. -/
theorem Source.lex_spaced_continued :
    ∃ token after earlier later, token.kind = .operator .assign ∧
      IsSpacing ['\\', '\n', ' '] ∧
      Spreads ⟨0, "", "", ['=', 'y'], #[]⟩ ⟨1, "", "", ['=', '\\', '\n', ' ', 'y'], #[]⟩ 1 3 1
        [token] after earlier later := by
  have runs : (Prospect.start ['=', 'y']).Runs _ :=
    ⟨_, .stride (by decide) (.stride (by decide) (.stride (by decide) (.stride (by decide)
      (.stride (by decide) (.refl _))))), by decide⟩
  have spacing : IsSpacing ['\\', '\n', ' '] := .continuation (.inl rfl) (.blank rfl rfl .nil)
  have lexed : Source.lex ⟨0, "", "", ['=', 'y'], #[]⟩ = .ok ([] ++ _ :: _, []) :=
    @Source.lex_eq ⟨0, "", "", ['=', 'y'], #[]⟩ _ runs
  obtain ⟨front, rest, earlier, later, content, stop, spread⟩ := lex_spaced lexed rfl (by simp)
  obtain ⟨rfl, rfl⟩ := @eq_of_width_eq ['='] front ['y'] rest content stop.symm
  exact ⟨_, _, earlier, later, rfl, spacing,
    spread ⟨1, "", "", _, #[]⟩ _ spacing (by simp) (by simp) rfl⟩

end Offside
