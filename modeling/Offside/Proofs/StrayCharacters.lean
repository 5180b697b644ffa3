import Offside.Proofs.Calls
import Offside.Proofs.Spacing

/-!
# Stray characters

A character that begins no token is skipped alone.  Behind a content of its line, a scan goes on
behind it as it goes on behind a space: whatever separates it from the content is spacing, and with
the space in place of the character it still is.
-/

namespace Offside

open Text

theorem Text.isSpacing_of_blanks {white : List Char}
    (blank : ∀ c ∈ white, isBlank c = true ∧ isBreak c = false) : IsSpacing white := by
  induction white with
  | nil => exact .nil
  | cons c white ih =>
    obtain ⟨⟨isBlank, notBreak⟩, others⟩ := List.forall_mem_cons.1 blank
    exact .blank isBlank notBreak (ih others)

/-! ## Spacing between contents -/

namespace Piece

theorem Precedes.isSpacing_append {piece : Piece} {gap rest : List Char}
    (precedes : piece.Precedes (gap ++ rest)) (dropped : piece.kind = none) (spacing : IsSpacing gap)
    (onLine : ∃ c ∈ (gap ++ rest).head?, isBreak c = false) : IsSpacing (piece.text ++ gap) := by
  generalize whole : gap ++ rest = behind at precedes
  cases precedes with
  | comment inLine upTo =>
    obtain ⟨c, head, notBreak⟩ := onLine
    rw [whole] at head
    simp [upTo c head] at notBreak
  | continuation isLineBreak =>
    subst whole
    exact .continuation isLineBreak.of_append spacing
  | blanks nonempty blank => exact (isSpacing_of_blanks blank).append spacing
  | @digits digits =>
    rw [ofDigits] at dropped
    split at dropped
    · cases dropped
    · cases dropped
  | float | name | string | unclosed | operator | stray => cases dropped

end Piece

/-- What is dropped between two contents of a line is spacing, and it changes nothing else. -/
theorem Trail.isSpacing {first last : Prospect} {pieces : List Piece}
    (trail : Trail first pieces last) (firstInLine : first.mode = .inLine)
    (inLine : last.mode = .inLine) (dropped : ∀ piece ∈ pieces, piece.kind = none)
    (onLine : ∃ c ∈ last.text.head?, isBreak c = false) :
    IsSpacing (Piece.texts pieces) ∧ last.blocks = first.blocks ∧ last.last = first.last := by
  induction trail with
  | refl => exact ⟨.nil, rfl, rfl⟩
  | @stride prospect final others running further ih =>
    have text := further.text_eq
    have isReading := further.isReading (.inr inLine)
    have moves := prospect.moves
    generalize prospect.stride.pieces = pieces at *
    generalize prospect.next = after at *
    obtain ⟨here, behind⟩ := List.forall_mem_append.1 dropped
    cases moves with
    | ends | blankLine | content | closes | done => cases firstInLine
    | newline => cases here _ (.head _)
    | stops => simp [Prospect.IsReading] at isReading
    | @lexeme piece rest blocks last precedes =>
      have none := here _ (.head _)
      obtain ⟨spacing, sameBlocks, sameLast⟩ := ih rfl inLine behind onLine
      subst text
      refine ⟨?_, sameBlocks, by simp [sameLast, none]⟩
      rw [Piece.texts_append, Piece.texts_cons, Piece.texts_nil, List.append_nil]
      refine precedes.isSpacing_append none spacing ?_
      by_cases nothing : Piece.texts others = []
      · rwa [nothing, List.nil_append]
      · obtain ⟨c, more, split, -, notBreak⟩ := spacing.separates nothing
        exact ⟨c, by simp [split], notBreak⟩

/-! ## The report of a stray character -/

theorem Prospect.Runs.eq_of_span_eq {source : Source} {pieces : List Piece}
    (runs : (Prospect.start source.chars).Runs pieces) {a b : Diagnostic}
    (first : a ∈ Piece.reports source (.origin source.chars) pieces)
    (second : b ∈ Piece.reports source (.origin source.chars) pieces) (same : a.span = b.span) :
    a = b := by
  have covered : Piece.texts pieces = source.chars := runs.texts_eq (sound_start _)
  obtain ⟨final, trail, -⟩ := runs
  have behind := @Piece.reports_behind source [] [] pieces trail.labelled
  have apart := @Piece.reports_pairwise source [] [] pieces trail.labelled
  rw [List.append_nil, covered, ← Point.origin_eq_between] at behind apart
  have symmetric : Std.Symm fun a b : Diagnostic => a.span = b.span → a = b :=
    ⟨fun _ _ equal span => (equal span.symm).symm⟩
  have distinct : (Piece.reports source (.origin source.chars) pieces).Pairwise
      fun a b => a.span = b.span → a = b := by
    refine apart.imp_of_mem fun {a b} here _ ordered span => ?_
    have some := (behind a here).2
    rw [span] at some ordered
    exact absurd some (Nat.not_lt_of_le ordered)
  exact distinct.forall_of_forall (fun _ _ _ => rfl) first second same

namespace Piece

theorem Labelled.eq_of_stray {piece : Piece} {c : Char} (labelled : piece.Labelled)
    (stray : piece.flaw = some (.stray c)) : piece = flawed (.stray c) [c] := by
  cases labelled with
  | sound flawless => simp [flawless] at stray
  | stray =>
    cases stray
    rfl
  | tooLarge | unclosed | uneven => cases stray

theorem Labelled.exists_flaw {piece : Piece} (labelled : piece.Labelled)
    (isError : piece.kind = some .error) : ∃ flaw, piece.flaw = some flaw := by
  cases labelled with
  | sound _ notError => exact absurd isError notError
  | stray | tooLarge | unclosed | uneven => exact ⟨_, rfl⟩

end Piece

theorem Piece.Precedes.eq_nil_of_unclosed {piece : Piece} {rest : List Char}
    (precedes : piece.Precedes rest) (unclosed : piece.flaw = some .unclosed) : rest = [] := by
  cases precedes with
  | @digits digits =>
    rw [ofDigits] at unclosed
    split at unclosed
    · cases unclosed
    · cases unclosed
  | unclosed => rfl
  | comment | continuation | blanks | float | name | string | operator | stray => cases unclosed

namespace Prospect.Cut

variable {source : Source} {passed : List Char} {prospect : Prospect} {pieces : List Piece}
  {before after : List Token} {previous token : Token} {c : Char}

theorem eq_of_stray (cut : Cut source passed prospect pieces before token after)
    (isError : token.kind = .error) (labelled : cut.piece.Labelled)
    (alone : ∀ report ∈ Piece.reports source (.between passed prospect.text) pieces,
      report.span = token.span → report = .strayCharacter token.span c token.line) :
    cut.piece = .flawed (.stray c) [c] := by
  obtain ⟨flaw, flawed⟩ := labelled.exists_flaw (isError ▸ cut.isKind)
  have same := alone _ (cut.report_mem flawed)
  cases flaw with
  | stray d =>
    cases same rfl
    exact labelled.eq_of_stray flawed
  | tooLarge | unclosed | uneven => cases same rfl

theorem spaced (cut : Cut source passed prospect pieces before previous (token :: after))
    (next : Cut source (passed ++ Piece.texts (cut.front ++ [cut.piece]))
      ⟨cut.rest, cut.blocks, .inLine, some previous.kind⟩ cut.back [] token after)
    (isContent : previous.kind.isContent = true) (isToken : token.kind.isContent = true)
    (notBreak : ∃ c ∈ next.piece.text.head?, isBreak c = false) :
    IsSpacing (Piece.texts next.front) ∧
      Runs ⟨next.rest, cut.blocks, .inLine, some previous.kind⟩ next.back := by
  have dropped := Piece.kind_of_tokens_eq_nil next.inFront
  obtain ⟨spacing, blocks, -⟩ := next.upTo.isSpacing rfl rfl dropped (by
    obtain ⟨c, head, notBreak⟩ := notBreak
    exact ⟨c, List.mem_head?_append_of_mem_head? head, notBreak⟩)
  have sameBlocks : next.blocks = cut.blocks := blocks
  have same : isUnended (some token.kind) = isUnended (some previous.kind) := by
    simp [isUnended, Kind.not_isLayout_of_isContent _ isContent,
      Kind.not_isLayout_of_isContent _ isToken]
  have onward : Runs ⟨next.rest, next.blocks, .inLine, some previous.kind⟩ next.back :=
    next.onward.relabel same
  rw [sameBlocks] at onward
  exact ⟨spacing, onward⟩

end Prospect.Cut

/-! ## Spaces in place of stray characters -/

theorem Piece.moved_behind_space {c : Char} (notBreak : isBreak c = false) (source other : Source)
    (front : List Char) (pieces : List Piece) :
    tokens source (.between (front ++ [c]) (texts pieces)) pieces =
        (tokens other (.between (front ++ [' ']) (texts pieces)) pieces).map
          (·.moved source (c.utf8Size - 1) 0) ∧
      reports source (.between (front ++ [c]) (texts pieces)) pieces =
        (reports other (.between (front ++ [' ']) (texts pieces)) pieces).map
          (·.moved source (c.utf8Size - 1) 0) := by
  have moved := @Piece.moved pieces (front ++ [c]) (front ++ [' ']) [] [] (c.utf8Size - 1) 0 source
    other ?_ ?_ rfl
  · rwa [List.append_nil] at moved
  · have some := c.utf8Size_pos
    simp only [width_append, width_cons, width_nil, show ' '.utf8Size = 1 from rfl]
    omega
  · have first : breaksIn front (c :: texts pieces) = breaksIn front (' ' :: texts pieces) := by
      refine breaksIn_of_seam fun _ => iff_of_false ?_ (by simp)
      simpa using ne_feed_of_notBreak notBreak
    have second := @breaksIn_of_noBreak [c] (by simpa using notBreak) (texts pieces)
    have third := @breaksIn_of_noBreak [' '] (by simp; rfl) (texts pieces)
    rw [List.append_nil, breaksIn_append, breaksIn_append, second, third]
    exact first

/-- A stray character behind a content: the pieces up to the content, the spacing behind it, and the
pieces behind the character. -/
structure Source.StrayBehind (source : Source) (before : List Token) (previous token : Token)
    (after : List Token) (reports : List Diagnostic) (c : Char) where
  front : List Piece
  skipped : List Char
  back : List Piece
  rest : List Char
  blocks : Blocks
  content : source.chars = Piece.texts front ++ (skipped ++ c :: rest)
  notBreak : isBreak c = false
  spacing : IsSpacing skipped
  /-- The scan gets behind the content in front of any separator. -/
  through {d : Char} (separator : Piece.IsSeparator d) (notBreak : isBreak d = false)
    (others : List Char) : Trail (.start (Piece.texts front ++ d :: others)) front
      ⟨d :: others, blocks, .inLine, some previous.kind⟩
  sameBreaks (text other : List Char) :
    breaksIn (Piece.texts front) text = breaksIn (Piece.texts front) other
  onward : Prospect.Runs ⟨rest, blocks, .inLine, some previous.kind⟩ back
  span : token.span =
    ⟨width (Piece.texts front ++ skipped), width (Piece.texts front ++ skipped ++ [c]), source⟩
  inFront : Piece.tokens source (.origin source.chars) front = before ++ [previous]
  behind : Piece.tokens source (.between (Piece.texts front ++ skipped ++ [c]) rest) back = after
  reports_eq : reports = Piece.reports source (.origin source.chars) front ++
    .strayCharacter token.span c token.line ::
      Piece.reports source (.between (Piece.texts front ++ skipped ++ [c]) rest) back

section

variable {source : Source} {before after : List Token} {previous token : Token}
  {reports : List Diagnostic} {c : Char}

theorem Source.exists_strayBehind
    (lexed : source.lex = .ok (before ++ previous :: token :: after, reports))
    (isContent : previous.kind.isContent = true) (isError : token.kind = .error)
    (reported : .strayCharacter token.span c token.line ∈ reports) :
    Nonempty (source.StrayBehind before previous token after reports c) := by
  obtain ⟨pieces, runs, tokens, rfl⟩ := source.exists_of_lex lexed
  have isToken : token.kind.isContent = true := isError ▸ rfl
  obtain ⟨cut⟩ : Nonempty (Prospect.Cut source [] _ pieces before previous (token :: after)) :=
    runs.exists_cut tokens.symm isContent
  obtain ⟨next⟩ : Nonempty (Prospect.Cut source _ _ cut.back [] token after) :=
    cut.onward.exists_cut cut.behind isToken
  have labelled : ∀ piece ∈ pieces, piece.Labelled := by
    obtain ⟨final, trail, -⟩ := runs
    exact trail.labelled
  have whole := cut.reports_eq
  have stray : next.piece = .flawed (.stray c) [c] :=
    next.eq_of_stray isError (labelled _ (by simp [cut.split, next.split])) fun report own same =>
      runs.eq_of_span_eq (whole ▸ List.mem_append_right _ own) reported same
  have notBreak : isBreak c = false := by
    have kept := next.precedes.notBreak_getLast? (by simp [next.isKind])
      (by simp [stray, Piece.flawed])
    exact kept c (by simp [stray, Piece.flawed])
  obtain ⟨spacing, onward⟩ := cut.spaced next isContent isToken
    ⟨c, by simp [stray, Piece.flawed], notBreak⟩
  have flawed : next.piece.flaw = some (.stray c) := by rw [stray]; rfl
  have upTo : Piece.texts (next.front ++ [next.piece]) = Piece.texts next.front ++ [c] := by
    simp [stray, Piece.flawed]
  have between : cut.rest = Piece.texts next.front ++ c :: next.rest := by
    have ahead := next.text_eq
    rwa [upTo, List.append_assoc] at ahead
  have closed : cut.piece.flaw ≠ some .unclosed := by
    intro unclosed
    simp [cut.precedes.eq_nil_of_unclosed unclosed] at between
  refine ⟨cut.front ++ [cut.piece], Piece.texts next.front, next.back, next.rest, cut.blocks,
    cut.text_eq.trans (congrArg _ between), notBreak, spacing, cut.through closed,
    cut.breaksIn_eq closed, onward, ?_, cut.upToToken, ?_, ?_⟩
  · have span := next.span_eq
    rwa [upTo, ← List.append_assoc] at span
  · have behind := next.behind
    rwa [upTo, ← List.append_assoc] at behind
  · have further := next.reports_eq
    have none := Piece.reports_of_tokens_eq_nil
      (fun piece member => labelled piece (by simp [cut.split, next.split, member])) next.inFront
    rw [next.upToReport, none, upTo, ← List.append_assoc, flawed] at further
    exact whole.trans (congrArg _ further)

namespace Source.StrayBehind

variable (stray : source.StrayBehind before previous token after reports c)

theorem texts_back : Piece.texts stray.back = stray.rest :=
  stray.onward.texts_eq (by simp [Prospect.Sound])

/-- With a space in place of the character, the scan goes on behind it in the same way. -/
theorem exists_runs {other : Source}
    (replaced : other.chars = Piece.texts stray.front ++ ((stray.skipped ++ [' ']) ++ stray.rest)) :
    ∃ more, (Prospect.start other.chars).Runs (stray.front ++ more) ∧
      Piece.Behind (stray.skipped ++ [' ']) stray.back more := by
  have spacing := stray.spacing.append (.blank (c := ' ') rfl rfl .nil)
  obtain ⟨more, again, behind⟩ := stray.onward.spaced spacing (by simp)
  obtain ⟨d, others, split, separator, notBreak⟩ := spacing.separates (by simp)
  have through := stray.through separator notBreak (others ++ stray.rest)
  rw [← List.cons_append, ← split, ← replaced] at through
  exact ⟨more, again.behind through, behind⟩

theorem mapM_word : (before ++ previous :: after).mapM Token.word =
    .ok (Piece.words (stray.front ++ stray.back)) := by
  have inFront := @Piece.mapM_word_tokens source stray.front [] _ stray.content
  have behind := @Piece.mapM_word_tokens source stray.back
    (Piece.texts stray.front ++ stray.skipped ++ [c]) [] (by
      rw [List.append_nil, stray.texts_back, stray.content]
      simp)
  rw [← stray.content, ← Point.origin_eq_between, stray.inFront] at inFront
  rw [List.append_nil, stray.texts_back, stray.behind] at behind
  rw [List.append_cons, List.mapM_append, inFront, behind, Piece.words_append]
  rfl

end Source.StrayBehind

/-- A stray character behind a content of its line can be replaced by a space: its token and its
diagnostic are gone, everything up to the content stays where it is, and everything behind the
character is moved by what the space is narrower, and stays on its line. -/
theorem Source.lex_without_stray
    (lexed : source.lex = .ok (before ++ previous :: token :: after, reports))
    (isContent : previous.kind.isContent = true) (isError : token.kind = .error)
    (reported : .strayCharacter token.span c token.line ∈ reports) :
    ∃ front rest earlier later, source.chars = front ++ c :: rest ∧
      token.span = ⟨width front, width (front ++ [c]), source⟩ ∧
      reports = earlier ++ .strayCharacter token.span c token.line :: later ∧
      ∀ other : Source, other.chars = front ++ ' ' :: rest →
        ∃ others laters, other.lex = .ok ((before ++ [previous]).map (·.moved other 0 0) ++ others,
            earlier.map (·.moved other 0 0) ++ laters) ∧
          after = others.map (·.moved source (c.utf8Size - 1) 0) ∧
          later = laters.map (·.moved source (c.utf8Size - 1) 0) ∧
          ∃ words, (before ++ previous :: after).mapM Token.word = .ok words ∧
            ((before ++ [previous]).map (·.moved other 0 0) ++ others).mapM Token.word =
              .ok words := by
  obtain ⟨stray⟩ := exists_strayBehind lexed isContent isError reported
  refine ⟨Piece.texts stray.front ++ stray.skipped, stray.rest, _, _,
    by rw [stray.content, List.append_assoc], stray.span, stray.reports_eq, fun other replaced => ?_⟩
  rw [List.append_assoc, List.append_cons stray.skipped] at replaced
  obtain ⟨more, runs, behind⟩ := stray.exists_runs replaced
  obtain ⟨tokens, reports⟩ := behind.inserted stray.content replaced (stray.sameBreaks _ _)
  obtain ⟨further, furtherReports⟩ := Piece.moved_behind_space stray.notBreak source other
    (Piece.texts stray.front ++ stray.skipped) stray.back
  rw [stray.texts_back, stray.behind] at further
  rw [stray.texts_back] at furtherReports
  rw [stray.inFront, ← List.append_assoc] at tokens
  rw [← List.append_assoc] at reports
  refine ⟨_, _, ?_, further, furtherReports, _, stray.mapM_word, ?_⟩
  · rw [other.lex_eq runs, tokens, reports]
  · rw [← tokens, other.mapM_word runs, Piece.words_append, Piece.words_append, behind.words]

end

set_option maxRecDepth 4000 in
/-- A currency sign of three bytes between two names. -/
theorem Source.lex_without_stray_sign :
    ∃ previous token after others,
      Source.lex ⟨0, "", "", ['x', '€', 'y'], #[]⟩ =
        .ok ([] ++ previous :: token :: after, [.strayCharacter token.span '€' token.line]) ∧
      previous.kind.isContent = true ∧ token.kind = .error ∧
      Source.lex ⟨1, "", "", ['x', ' ', 'y'], #[]⟩ =
        .ok ([previous.moved ⟨1, "", "", ['x', ' ', 'y'], #[]⟩ 0 0] ++ others, []) ∧
      after = others.map (·.moved ⟨0, "", "", ['x', '€', 'y'], #[]⟩ 2 0) := by
  have runs : (Prospect.start ['x', '€', 'y']).Runs _ :=
    ⟨_, .stride (by decide) (.stride (by decide) (.stride (by decide) (.stride (by decide)
      (.stride (by decide) (.stride (by decide) (.refl _)))))), by decide⟩
  have lexed : Source.lex ⟨0, "", "", ['x', '€', 'y'], #[]⟩ = .ok ([] ++ _ :: _ :: _, [_]) :=
    @Source.lex_eq ⟨0, "", "", ['x', '€', 'y'], #[]⟩ _ runs
  obtain ⟨front, rest, earlier, later, content, span, reports, replaced⟩ :=
    lex_without_stray lexed rfl rfl (List.mem_singleton.2 rfl)
  have start : 1 = width front := congrArg Span.start span
  obtain ⟨rfl, same⟩ := @eq_of_width_eq ['x'] front _ _ content start
  obtain ⟨rfl⟩ := same
  obtain ⟨rfl, alone⟩ : earlier = [] ∧ later = [] := by
    have lengths := congrArg List.length reports
    simp only [List.length_append, List.length_cons, List.length_nil] at lengths
    exact ⟨List.length_eq_zero_iff.1 (by omega), List.length_eq_zero_iff.1 (by omega)⟩
  obtain ⟨others, laters, again, after, kept, -⟩ := replaced ⟨1, "", "", ['x', ' ', 'y'], #[]⟩ rfl
  obtain rfl : laters = [] := List.map_eq_nil_iff.1 (kept.symm.trans alone)
  exact ⟨_, _, _, others, lexed, rfl, rfl, again, after⟩

end Offside
