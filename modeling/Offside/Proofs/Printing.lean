import Mathlib.Data.List.Chain
import Mathlib.Data.List.Forall2
import Offside.Proofs.Flaws
import Offside.Proofs.Moves

/-!
# Printing tokens

The tokens of a text without errors can be printed line by line: the whitespace of the innermost
block in front, single spaces between the contents, and a line feed behind them.  A scan of what is
printed gives the tokens back, because every content stays what it is in front of a separator, and
the whitespace of every line is as wide as that of its block.
-/

namespace Offside

open Text

structure Word where
  kind : Kind
  text : List Char
  deriving DecidableEq, Repr

def Token.word (token : Token) : Except Fault Word :=
  token.chars.map fun text => ⟨token.kind, text⟩

namespace Word

/-- The text of words, line by line.  `margins` is the whitespace of the open blocks, innermost
first, and `begun` tells whether the line under way has content. -/
def printed : (margins : List (List Char)) → (begun : Bool) → List Word → List Char
  | _, _, [] => []
  | margins, begun, ⟨kind, text⟩ :: words =>
    match kind with
    | .indent => printed (text :: margins) begun words
    | .dedent => printed margins.tail begun words
    | .newline => (if begun then [] else margins.headD []) ++ '\n' :: printed margins false words
    | .eof => printed margins begun words
    | _ => (if begun then [' '] else margins.headD []) ++ (text ++ printed margins true words)

/-- Whether a token of one kind may come directly behind one of another kind, in a stream without
empty lines and without empty blocks. -/
def MayFollow (before after : Kind) : Prop :=
  (after = .newline → before.isLayout = false) ∧
    (before = .indent → after ≠ .dedent ∧ after ≠ .eof)

/-- The kinds of a stream without empty lines and without empty blocks. -/
def Gapless (kinds : List Kind) : Prop := kinds.head? ≠ some .newline ∧ kinds.IsChain MayFollow

/-- The same word, or the end of a line in another spelling. -/
def Matches (word other : Word) : Prop :=
  word.kind = other.kind ∧ (word.kind ≠ .newline → word.text = other.text)

/-- A word that stands for a piece of a line, with no flaw. -/
def IsContent (word : Word) : Prop :=
  ∃ rest, (Piece.cut word.kind word.text).Precedes rest

theorem Matches.refl (word : Word) : word.Matches word := ⟨rfl, fun _ => rfl⟩

theorem IsContent.begins {word : Word} (isContent : word.IsContent) :
    word.kind.isContent = true ∧
      ∃ c others, word.text = c :: others ∧ isBlank c = false ∧ c ≠ '#' := by
  obtain ⟨rest, precedes⟩ := isContent
  exact precedes.begins rfl

theorem IsContent.separated {word : Word} (isContent : word.IsContent) {c : Char}
    (separator : Piece.IsSeparator c) (others : List Char) :
    (Piece.cut word.kind word.text).Precedes (c :: others) := by
  obtain ⟨rest, precedes⟩ := isContent
  exact precedes.separated (by simp [Piece.cut]) (by simp [Piece.cut]) separator (fun _ => rfl) others

/-! ## Lines -/

/-- How the words in front of a line open and close blocks. -/
inductive Opens : (margins : List (List Char)) → List Word → (now : List (List Char)) → Prop where
  | indent {margins : List (List Char)} {white : List Char}
      (margin : ∀ c ∈ white, isMargin c = true)
      (wider : (margins.headD []).length < white.length) :
      Opens margins [⟨.indent, white⟩] (white :: margins)
  | dedents {margins : List (List Char)} {count : Nat} (within : count ≤ margins.length) :
      Opens margins (List.replicate count ⟨.dedent, []⟩) (margins.drop count)

def closing (depth : Nat) : List Word := List.replicate depth ⟨.dedent, []⟩ ++ [⟨.eof, []⟩]

/-- Words of lines with content, one line after the other. -/
inductive Laid : (margins : List (List Char)) → List Word → Prop where
  | ends {margins : List (List Char)} : Laid margins (closing margins.length)
  | line {margins now : List (List Char)} {layout contents rest : List Word} {ended : List Char}
      (opens : Opens margins layout now) (nonempty : contents ≠ [])
      (isContent : ∀ word ∈ contents, word.IsContent) (further : Laid now rest) :
      Laid margins (layout ++ (contents ++ ⟨.newline, ended⟩ :: rest))

end Word

/-- The blocks with some whitespace in front of their lines. -/
def Blocks.ofMargins (margins : List (List Char)) : Blocks := .above (margins.map List.length)

theorem Blocks.size_ofMargins (margins : List (List Char)) :
    (Blocks.ofMargins margins).size = margins.length := by
  simp [ofMargins]

theorem Blocks.innermost_ofMargins (margins : List (List Char)) :
    (ofMargins margins).innermost = (margins.headD []).length := by
  cases margins <;> simp [ofMargins]

theorem Blocks.ofMargins_drop (margins : List (List Char)) (count : Nat) :
    ofMargins (margins.drop count) = above ((margins.map List.length).drop count) := by
  simp [ofMargins, List.map_drop]

theorem Blocks.fit_drop {widths : List Nat} (nested : (above widths).Nested) {count : Nat}
    (within : count ≤ widths.length) :
    (above widths).fit (above (widths.drop count)).innermost =
      (if count = 0 then .same else .closes count true, above (widths.drop count)) := by
  obtain ⟨descending, positive⟩ := (nested_above widths).1 nested
  cases count with
  | zero => simp [fit]
  | succ count =>
    have split := List.take_append_drop (count + 1) widths
    have length : (widths.take (count + 1)).length = count + 1 :=
      List.length_take_of_le within
    generalize widths.take (count + 1) = outer at *
    generalize widths.drop (count + 1) = inner at *
    subst split
    have wider : ∀ width ∈ outer, (above inner).innermost < width := by
      intro width member
      cases inner with
      | nil => exact positive width (by simp [member])
      | cons first inner =>
        exact (List.pairwise_append.1 descending).2.2 width member first (.head _)
    have kept : (above (outer ++ inner)).upTo (above inner).innermost = above inner := by
      rw [upTo_above]
      apply congrArg above
      apply (span_exact _ _).2
      · simpa using wider
      · cases inner <;> simp
    obtain ⟨first, others, rfl⟩ := List.exists_cons_of_length_eq_add_one length
    have narrower : (above inner).innermost < (above (first :: others ++ inner)).innermost :=
      wider first (.head _)
    have closed : (above (first :: others ++ inner)).size - (above inner).size = count + 1 := by
      simp only [size_above, List.length_append, length]
      omega
    rw [fit, if_neg (Nat.not_lt_of_gt narrower), if_neg (Nat.ne_of_lt narrower), kept]
    simp only [if_true, closed]
    rfl

namespace Piece

def words (pieces : List Piece) : List Word :=
  pieces.filterMap fun piece => piece.kind.map fun kind => ⟨kind, piece.text⟩

@[simp] theorem words_nil : words [] = [] := rfl

@[simp] theorem words_append (xs ys : List Piece) : words (xs ++ ys) = words xs ++ words ys :=
  List.filterMap_append

@[simp] theorem words_dropped (text : List Char) (pieces : List Piece) :
    words (dropped text :: pieces) = words pieces := rfl

@[simp] theorem words_cut (kind : Kind) (text : List Char) (pieces : List Piece) :
    words (cut kind text :: pieces) = ⟨kind, text⟩ :: words pieces := rfl

@[simp] theorem words_replicate_cut (count : Nat) (kind : Kind) :
    words (List.replicate count (cut kind [])) = List.replicate count ⟨kind, []⟩ := by
  simp [words, cut]

end Piece

/-! ## What is printed -/

namespace Word

theorem printed_content {word : Word} (isContent : word.kind.isContent = true)
    (margins : List (List Char)) (begun : Bool) (words : List Word) :
    printed margins begun (word :: words) =
      (if begun then [' '] else margins.headD []) ++ (word.text ++ printed margins true words) := by
  obtain ⟨kind, text⟩ := word
  cases kind with
  | newline | indent | dedent | eof => cases isContent
  | _ => rfl

theorem printed_dedents {margins : List (List Char)} {count : Nat} (within : count ≤ margins.length)
    (outermost : List Char) (begun : Bool) (words : List Word) :
    printed (margins ++ [outermost]) begun (List.replicate count ⟨.dedent, []⟩ ++ words) =
      printed (margins.drop count ++ [outermost]) begun words := by
  induction count generalizing margins with
  | zero => rfl
  | succ count ih =>
    cases margins with
    | nil => simp at within
    | cons white margins => exact ih (Nat.le_of_succ_le_succ within)

theorem printed_closing (margins : List (List Char)) (outermost : List Char) :
    printed (margins ++ [outermost]) false (closing margins.length) = [] := by
  rw [closing, printed_dedents (Nat.le_refl _)]
  rfl

theorem headD_outermost (margins : List (List Char)) : (margins ++ [[]]).headD [] = margins.headD [] := by
  cases margins <;> rfl

theorem exists_separator {contents rest : List Word} {ended : List Char}
    (isContent : ∀ word ∈ contents, word.IsContent) (margins : List (List Char)) :
    ∃ c others, printed margins true (contents ++ ⟨.newline, ended⟩ :: rest) = c :: others ∧
      Piece.IsSeparator c := by
  cases contents with
  | nil => exact ⟨'\n', _, rfl, .inl rfl⟩
  | cons word contents =>
    rw [List.cons_append, printed_content (isContent word (.head _)).begins.1]
    exact ⟨' ', _, rfl, .inl rfl⟩

namespace Opens

variable {margins now : List (List Char)} {layout : List Word}

theorem printed_append (opens : Opens margins layout now) (words : List Word) :
    printed (margins ++ [[]]) false (layout ++ words) = printed (now ++ [[]]) false words := by
  cases opens with
  | indent => rfl
  | dedents within => exact printed_dedents within [] false words

theorem margin (opens : Opens margins layout now)
    (margin : ∀ white ∈ margins, ∀ c ∈ white, isMargin c = true) :
    ∀ white ∈ now, ∀ c ∈ white, isMargin c = true := by
  cases opens with
  | indent further => exact List.forall_mem_cons.2 ⟨further, margin⟩
  | dedents => exact fun white member => margin white (List.mem_of_mem_drop member)

theorem fit (opens : Opens margins layout now) (nested : (Blocks.ofMargins margins).Nested) :
    ((Blocks.ofMargins margins).fit (now.headD []).length).2 = .ofMargins now ∧
      (∀ piece ∈ Piece.indentation (now.headD [])
        ((Blocks.ofMargins margins).fit (now.headD []).length).1, piece.flaw = none) ∧
      Piece.words (Piece.indentation (now.headD [])
        ((Blocks.ofMargins margins).fit (now.headD []).length).1) = layout := by
  cases opens with
  | @indent white _ wider =>
    rw [← Blocks.innermost_ofMargins] at wider
    rw [Blocks.fit, List.headD_cons, if_pos wider]
    exact ⟨rfl, by simp [Piece.indentation, Piece.cut], rfl⟩
  | @dedents count within =>
    have fitted := @Blocks.fit_drop (margins.map List.length) nested count (by simpa)
    rw [← Blocks.ofMargins_drop, Blocks.innermost_ofMargins, ← Blocks.ofMargins] at fitted
    rw [fitted]
    by_cases none : count = 0
    · subst none
      exact ⟨rfl, by simp [Piece.indentation, Piece.dropped], rfl⟩
    · simp only [none, if_false, Piece.indentation, Piece.words_append, Piece.words_replicate_cut]
      refine ⟨trivial, fun piece member => ?_, by simp⟩
      rcases List.mem_append.1 member with member | member
      · rw [List.eq_of_mem_replicate member]
        rfl
      · rw [List.mem_singleton.1 member]
        rfl

end Opens

/-- The contents of a line that is under way are cut again, and the line is ended. -/
theorem trail_contents {contents : List Word} (isContent : ∀ word ∈ contents, word.IsContent)
    (margins : List (List Char)) (blocks : Blocks) (last : Option Kind) (ended : List Char)
    (rest : List Word) :
    ∃ pieces, Trail ⟨printed margins true (contents ++ ⟨.newline, ended⟩ :: rest), blocks, .inLine, last⟩
        pieces ⟨printed margins false rest, blocks, .atMargin, some .newline⟩ ∧
      (∀ piece ∈ pieces, piece.flaw = none) ∧
      Piece.words pieces = contents ++ [⟨.newline, ['\n']⟩] := by
  induction contents generalizing last with
  | nil =>
    have newline := @Prospect.Moves.newline ['\n'] (printed margins false rest) blocks last (.inl rfl)
    exact ⟨_, newline.trail (by simp) (.refl _), by simp [Piece.cut], rfl⟩
  | cons word contents ih =>
    obtain ⟨first, others⟩ := List.forall_mem_cons.1 isContent
    obtain ⟨pieces, trail, flawless, words⟩ := ih others (some word.kind)
    obtain ⟨isKind, c, behind, text, notBlank, -⟩ := first.begins
    obtain ⟨d, further, split, separator⟩ := @exists_separator contents rest ended others margins
    have precedes := first.separated separator further
    rw [← split] at precedes
    have blank : (Piece.dropped [' ']).Precedes
        (word.text ++ printed margins true (contents ++ ⟨.newline, ended⟩ :: rest)) := by
      refine .blanks (by simp) (by simp [isBlank, isBreak]) ?_
      rw [text]
      simp [notBlank]
    rw [List.cons_append, printed_content isKind]
    refine ⟨_, (Prospect.Moves.lexeme blank).trail (by simp)
      ((Prospect.Moves.lexeme precedes).trail (by simp) trail), ?_, ?_⟩
    · simpa [Piece.dropped, Piece.cut] using flawless
    · simp [words]

theorem Opens.trail_line {margins now : List (List Char)} {layout contents : List Word}
    (opens : Opens margins layout now) (nested : (Blocks.ofMargins margins).Nested)
    (margin : ∀ white ∈ now, ∀ c ∈ white, isMargin c = true) (nonempty : contents ≠ [])
    (isContent : ∀ word ∈ contents, word.IsContent) (last : Option Kind) (ended : List Char)
    (rest : List Word) :
    ∃ pieces, Trail
        ⟨printed (margins ++ [[]]) false (layout ++ (contents ++ ⟨.newline, ended⟩ :: rest)),
          .ofMargins margins, .atMargin, last⟩
        pieces ⟨printed (now ++ [[]]) false rest, .ofMargins now, .atMargin, some .newline⟩ ∧
      (∀ piece ∈ pieces, piece.flaw = none) ∧
      Piece.words pieces = layout ++ (contents ++ [⟨.newline, ['\n']⟩]) := by
  obtain ⟨word, contents, rfl⟩ := List.exists_cons_of_ne_nil nonempty
  obtain ⟨first, others⟩ := List.forall_mem_cons.1 isContent
  obtain ⟨isKind, c, behind, text, notBlank, notComment⟩ := first.begins
  obtain ⟨pieces, trail, flawless, words⟩ :=
    trail_contents others (now ++ [[]]) (.ofMargins now) (some word.kind) ended rest
  obtain ⟨d, further, split, separator⟩ := @exists_separator contents rest ended others (now ++ [[]])
  have precedes := first.separated separator further
  rw [← split] at precedes
  have notMargin : isMargin c = false := by
    cases isMargin : isMargin c with
    | true => simp [isBlank_of_isMargin isMargin] at notBlank
    | false => rfl
  have white : ∀ c ∈ now.headD [], isMargin c = true := by
    cases now with
    | nil => simp
    | cons white now => exact margin white (.head _)
  obtain ⟨blocks, flawlessLayout, layoutWords⟩ := opens.fit nested
  have content := @Prospect.Moves.content (now.headD [])
    (behind ++ printed (now ++ [[]]) true (contents ++ ⟨.newline, ended⟩ :: rest)) c
    (.ofMargins margins) last white notMargin notComment (notBreak_of_notBlank notBlank)
  rw [blocks, ← List.cons_append, ← text] at content
  rw [opens.printed_append, List.cons_append, printed_content isKind, headD_outermost]
  refine ⟨_, content.trail (by simp) ((Prospect.Moves.lexeme precedes).trail (by simp) trail), ?_, ?_⟩
  · exact List.forall_mem_append.2 ⟨flawlessLayout, List.forall_mem_cons.2 ⟨rfl, flawless⟩⟩
  · rw [Piece.words_append, layoutWords, List.singleton_append, Piece.words_cut, words]
    rfl

/-- A scan of printed lines gives their words back. -/
theorem Laid.runs {margins : List (List Char)} {words : List Word} (laid : Laid margins words)
    (nested : (Blocks.ofMargins margins).Nested)
    (margin : ∀ white ∈ margins, ∀ c ∈ white, isMargin c = true) {last : Option Kind}
    (isLayout : IsLayout last) :
    ∃ pieces, Prospect.Runs ⟨printed (margins ++ [[]]) false words, .ofMargins margins, .atMargin, last⟩
        pieces ∧
      (∀ piece ∈ pieces, piece.flaw = none) ∧ List.Forall₂ Matches words (Piece.words pieces) := by
  induction laid generalizing last with
  | @ends margins =>
    rw [printed_closing]
    refine ⟨_, Prospect.runs_of_nil _ last, List.forall_mem_cons.2 ⟨rfl, fun _ => Piece.flaw_ending⟩, ?_⟩
    rw [Piece.words_dropped, Prospect.ending_of_isLayout _ isLayout, Piece.words_append,
      Piece.words_replicate_cut, Blocks.size_ofMargins]
    exact List.forall₂_same.2 fun word _ => .refl word
  | @line margins now layout contents rest ended opens nonempty isContent laid ih =>
    have nestedNow : (Blocks.ofMargins now).Nested := by
      rw [← (opens.fit nested).1]
      exact Blocks.nested_fit nested _
    have marginNow := opens.margin margin
    obtain ⟨front, trail, flawless, words⟩ :=
      opens.trail_line nested marginNow nonempty isContent last ended rest
    obtain ⟨pieces, runs, others, same⟩ := @ih nestedNow marginNow (some .newline)
      (by simp [IsLayout, Kind.isLayout])
    refine ⟨_, runs.behind trail, List.forall_mem_append.2 ⟨flawless, others⟩, ?_⟩
    rw [Piece.words_append, words, List.append_assoc, List.append_assoc]
    have refl : ∀ words : List Word, List.Forall₂ Matches words words := fun words =>
      List.forall₂_same.2 fun word _ => .refl word
    exact List.rel_append (refl layout) (List.rel_append (refl contents)
      (.cons ⟨rfl, fun other => absurd rfl other⟩ same))

/-! ## Lines of a scan -/

/-- What is left of a line, with the lines behind it; `last` is the kind in front. -/
inductive LineRest (margins : List (List Char)) (last : Option Kind) : List Word → Prop where
  | ended {contents rest : List Word} {ended : List Char}
      (isContent : ∀ word ∈ contents, word.IsContent) (further : Laid margins rest) :
      LineRest margins last (contents ++ ⟨.newline, ended⟩ :: rest)
  /-- Nothing is left of the last line, which does not count if it has no content. -/
  | closing (isLayout : IsLayout last) : LineRest margins last (closing margins.length)

namespace Opens

variable {margins now : List (List Char)} {layout words : List Word}

theorem not_newline (opens : Opens margins layout now) {ended : List Char}
    (gapless : Gapless ((layout ++ ⟨.newline, ended⟩ :: words).map Word.kind)) : False := by
  obtain ⟨fresh, chain⟩ := gapless
  cases opens with
  | indent =>
    have follows := (List.isChain_cons_cons.1 chain).1
    cases follows.1 rfl
  | @dedents count within =>
    cases count with
    | zero => exact fresh rfl
    | succ count =>
      rw [List.map_append, List.map_replicate] at chain
      have follows := (List.isChain_append.1 chain).2.2 .dedent (by simp [List.getLast?_replicate])
        .newline rfl
      cases follows.1 rfl

theorem append_closing (opens : Opens margins layout now)
    (gapless : Gapless ((layout ++ closing now.length).map Word.kind)) :
    layout ++ closing now.length = closing margins.length := by
  cases opens with
  | indent =>
    have follows := (List.isChain_cons_cons.1 gapless.2).1
    exact absurd rfl (follows.2 rfl).1
  | @dedents count within =>
    rw [closing, closing, List.length_drop, ← List.append_assoc, List.replicate_append_replicate,
      Nat.add_sub_cancel' within]

theorem laid (opens : Opens margins layout now) (gapless : Gapless ((layout ++ words).map Word.kind))
    {last : Option Kind} (rest : LineRest now last words) : Laid margins (layout ++ words) := by
  cases rest with
  | @ended contents rest ended isContent further =>
    by_cases empty : contents = []
    · subst empty
      exact absurd gapless opens.not_newline
    · exact .line opens empty isContent further
  | closing isLayout =>
    rw [opens.append_closing gapless]
    exact .ends

theorem of_fit {white : List Char} (margin : ∀ c ∈ white, isMargin c = true)
    (flawless : ∀ piece ∈ Piece.indentation white
      ((Blocks.ofMargins margins).fit white.length).1, piece.flaw = none) :
    ∃ now, Opens margins (Piece.words (Piece.indentation white
        ((Blocks.ofMargins margins).fit white.length).1)) now ∧
      ((Blocks.ofMargins margins).fit white.length).2 = .ofMargins now := by
  rw [Blocks.fit] at flawless ⊢
  rw [Blocks.innermost_ofMargins] at flawless ⊢
  by_cases wider : (margins.headD []).length < white.length
  · rw [if_pos wider]
    exact ⟨_, .indent margin wider, rfl⟩
  rw [if_neg wider] at flawless ⊢
  by_cases same : white.length = (margins.headD []).length
  · rw [if_pos same]
    exact ⟨_, .dedents (Nat.zero_le _), rfl⟩
  rw [if_neg same] at flawless ⊢
  have kept : (Blocks.ofMargins margins).upTo white.length = .ofMargins (margins.drop
      ((Blocks.ofMargins margins).size - ((Blocks.ofMargins margins).upTo white.length).size)) := by
    rw [Blocks.ofMargins_drop, Blocks.ofMargins, Blocks.upTo_above, Blocks.size_above,
      Blocks.size_above]
    exact congrArg Blocks.above (List.suffix_iff_eq_drop.1 (List.dropWhile_suffix _))
  have within : (Blocks.ofMargins margins).size - ((Blocks.ofMargins margins).upTo white.length).size ≤
      margins.length := by
    rw [Blocks.size_ofMargins]
    exact Nat.sub_le _ _
  simp only at flawless ⊢
  split
  next =>
    rw [Piece.indentation, Piece.words_append, Piece.words_replicate_cut]
    exact ⟨_, List.append_nil _ ▸ .dedents within, kept⟩
  next uneven =>
    rw [if_neg uneven] at flawless
    have flaw := flawless (.uneven white) (by simp [Piece.indentation])
    cases flaw

end Opens

theorem Gapless.behind_newline {ended : List Char} {words : List Word}
    (chain : ((⟨.newline, ended⟩ :: words).map Word.kind).IsChain MayFollow) :
    Gapless (words.map Word.kind) := by
  refine ⟨fun head => ?_, chain.tail⟩
  obtain ⟨follows, -⟩ := List.isChain_cons.1 chain
  cases (follows .newline head).1 rfl

end Word

open Word Prospect

/-- What the words from a prospect on come to, in a stream without empty lines and empty blocks. -/
def Prospect.LaysOut (margins : List (List Char)) (prospect : Prospect) (words : List Word) : Prop :=
  match prospect.mode with
  | .atMargin => Gapless (words.map Word.kind) → Laid margins words
  | .inLine => LineRest margins prospect.last words
  | .atEnd =>
    words = (if isUnended prospect.last then [⟨.newline, []⟩] else []) ++ closing margins.length
  | .done => words = []

/-- A move puts its words in front of those behind it. -/
theorem Prospect.Moves.laysOut {prospect after : Prospect} {pieces others : List Piece}
    (moves : prospect.Moves pieces after) (running : prospect.mode ≠ .done)
    (flawless : ∀ piece ∈ pieces, piece.flaw = none)
    (chain : ((Piece.words pieces ++ Piece.words others).map Word.kind).IsChain MayFollow)
    (layout : prospect.mode = .atMargin → IsLayout prospect.last) {margins : List (List Char)}
    (blocks : prospect.blocks = .ofMargins margins)
    (further : (after.mode = .atMargin → IsLayout after.last) →
      ∀ {margins : List (List Char)}, after.blocks = .ofMargins margins →
        after.LaysOut margins (Piece.words others)) :
    prospect.LaysOut margins (Piece.words pieces ++ Piece.words others) := by
  cases moves with
  | @ends _ _ _ last =>
    have closes := further (by simp) blocks
    rw [LaysOut, isUnended_eq_false_iff.2 (layout rfl)] at closes
    intro _
    rw [closes]
    exact .ends
  | blankLine => exact further layout blocks
  | content margin notMargin notComment notBreak =>
    subst blocks
    obtain ⟨now, opens, nowBlocks⟩ := Opens.of_fit margin flawless
    intro gapless
    exact opens.laid gapless (further (by simp) nowBlocks)
  | newline isLineBreak =>
    have gapless := Gapless.behind_newline chain
    have laid := further (fun _ => by simp [IsLayout, Kind.isLayout]) blocks gapless
    exact @LineRest.ended _ _ [] _ _ (by simp) laid
  | @lexeme piece rest _ last precedes =>
    have behind := further (by simp) blocks
    obtain ⟨text, kind, flaw⟩ := piece
    obtain rfl : flaw = none := flawless _ (.head _)
    cases kind with
    | none => exact behind
    | some kind =>
      generalize Piece.words others = words at *
      cases behind with
      | @ended contents _ _ isContent laid =>
        refine @LineRest.ended _ _ (⟨kind, text⟩ :: contents) _ _ ?_ laid
        exact List.forall_mem_cons.2 ⟨⟨rest, precedes⟩, isContent⟩
      | closing isLayout =>
        have notLayout := kind.not_isLayout_of_isContent (precedes.begins rfl).1
        simp [isLayout kind rfl] at notLayout
  | @stops _ last =>
    have closes := further (by simp) blocks
    rw [LaysOut] at closes
    simp only at closes
    rw [closes]
    cases unended : isUnended last with
    | true => exact @LineRest.ended _ _ [] _ [] (by simp) .ends
    | false => exact .closing (isUnended_eq_false_iff.1 unended)
  | @closes _ _ last =>
    have nothing := @further (by simp) [] rfl
    rw [LaysOut] at nothing ⊢
    simp only at nothing ⊢
    subst blocks
    rw [nothing, List.append_nil, Piece.ending, Piece.words_append, Piece.words_append,
      Piece.words_replicate_cut, Blocks.size_ofMargins, List.append_assoc]
    rw [← isUnended]
    cases isUnended last <;> rfl
  | done => exact absurd rfl running

theorem Trail.laysOut {first last : Prospect} {pieces : List Piece} (trail : Trail first pieces last)
    (done : last.mode = .done) (flawless : ∀ piece ∈ pieces, piece.flaw = none)
    (chain : ((Piece.words pieces).map Word.kind).IsChain MayFollow)
    (layout : first.mode = .atMargin → IsLayout first.last) {margins : List (List Char)}
    (blocks : first.blocks = .ofMargins margins) :
    first.LaysOut margins (Piece.words pieces) := by
  induction trail generalizing margins with
  | refl =>
    rw [LaysOut, done]
    rfl
  | @stride prospect final others running further ih =>
    obtain ⟨here, behind⟩ := List.forall_mem_append.1 flawless
    rw [Piece.words_append] at chain ⊢
    have chainBehind : ((Piece.words others).map Word.kind).IsChain MayFollow := by
      rw [List.map_append] at chain
      exact chain.right_of_append
    exact prospect.moves.laysOut running here chain layout blocks (ih done behind chainBehind)

/-! ## Scans of what is printed -/

namespace Piece

variable {source : Source}

theorem mapM_word_tokens {pieces : List Piece} {front rest : List Char}
    (content : source.chars = front ++ (texts pieces ++ rest)) :
    (tokens source (.between front (texts pieces ++ rest)) pieces).mapM Token.word =
      .ok (words pieces) := by
  induction pieces generalizing front with
  | nil => rfl
  | cons piece pieces ih =>
    rw [texts_cons, List.append_assoc] at content ⊢
    have others := @ih (front ++ piece.text) (by rw [content, List.append_assoc])
    have chars := chars_span content
    rw [tokens_between_cons, List.mapM_append, others, token?]
    cases kind : piece.kind with
    | none => simp [words, kind]
    | some kind' =>
      have word : Token.word ⟨kind', piece.span source
          (.between front (piece.text ++ (texts pieces ++ rest))),
          (Point.between front (piece.text ++ (texts pieces ++ rest))).line⟩ =
          .ok ⟨kind', piece.text⟩ := by
        rw [Token.word, Token.chars, chars]
        rfl
      simp [words, kind, word]
      rfl

theorem flaw_of_reports_eq_nil {point : Point} {pieces : List Piece}
    (noReport : reports source point pieces = []) : ∀ piece ∈ pieces, piece.flaw = none := by
  induction pieces generalizing point with
  | nil => simp
  | cons piece pieces ih =>
    obtain ⟨first, others⟩ := List.append_eq_nil_iff.1 noReport
    refine List.forall_mem_cons.2 ⟨?_, ih others⟩
    simpa [report?] using first

theorem map_kind_words (pieces : List Piece) : (words pieces).map Word.kind = kinds pieces := by
  induction pieces with
  | nil => rfl
  | cons piece pieces ih =>
    rw [words, kinds, List.filterMap_cons, List.filterMap_cons]
    cases piece.kind with
    | none => exact ih
    | some kind => exact congrArg _ ih

end Piece

theorem Source.mapM_word {source : Source} {pieces : List Piece}
    (runs : (Prospect.start source.chars).Runs pieces) :
    (Piece.tokens source (.origin source.chars) pieces).mapM Token.word =
      .ok (Piece.words pieces) := by
  have covered : Piece.texts pieces = source.chars := runs.texts_eq (sound_start source.chars)
  have words := @Piece.mapM_word_tokens source pieces [] [] (by rw [List.append_nil, covered]; rfl)
  rwa [List.append_nil, covered] at words

/-- The tokens of a text without errors, empty lines and empty blocks can be printed, and a scan of
what is printed gives the same tokens; only the ends of lines can be spelled in another way. -/
theorem Source.lex_printed {source : Source} {tokens : List Token}
    (lexed : source.lex = .ok (tokens, [])) (gapless : Gapless (tokens.map Token.kind)) :
    ∃ words, tokens.mapM Token.word = .ok words ∧
      ∀ again : Source, again.chars = printed [[]] false words →
        ∃ others otherWords, again.lex = .ok (others, []) ∧
          others.mapM Token.word = .ok otherWords ∧ List.Forall₂ Matches words otherWords := by
  obtain ⟨pieces, runs⟩ := source.exists_runs
  rw [source.lex_eq runs] at lexed
  obtain ⟨rfl, noReport⟩ := Prod.mk.inj (Except.ok.inj lexed)
  rw [Piece.map_kind_tokens, ← Piece.map_kind_words] at gapless
  refine ⟨_, Source.mapM_word runs, fun again content => ?_⟩
  obtain ⟨final, trail, done⟩ := runs
  have laid := @Trail.laysOut _ _ _ trail done (Piece.flaw_of_reports_eq_nil noReport) gapless.2
    (fun _ => by simp [start, IsLayout]) [] rfl gapless
  obtain ⟨otherPieces, otherRuns, flawless, same⟩ :=
    @Laid.runs _ _ laid Blocks.nested_empty (by simp) none (by simp [IsLayout])
  have otherRuns : (start again.chars).Runs otherPieces := by
    rw [content]
    exact otherRuns
  refine ⟨_, _, ?_, Source.mapM_word otherRuns, same⟩
  rw [again.lex_eq otherRuns, Piece.reports_eq_nil _ _ flawless]

/-- A text of one indented line. -/
theorem Source.lex_printed_block :
    ∃ tokens words, Source.lex ⟨0, "", "", ['\t', 'x', '\n'], #[]⟩ = .ok (tokens, []) ∧
      Gapless (tokens.map Token.kind) ∧ tokens.mapM Token.word = .ok words ∧
      ∀ again : Source, again.chars = printed [[]] false words →
        ∃ others otherWords, again.lex = .ok (others, []) ∧
          others.mapM Token.word = .ok otherWords ∧ List.Forall₂ Matches words otherWords := by
  have runs : (start ['\t', 'x', '\n']).Runs _ :=
    ⟨_, .stride (by decide) (.stride (by decide) (.stride (by decide) (.stride (by decide)
      (.stride (by decide) (.refl _))))), by decide⟩
  have lexed : Source.lex ⟨0, "", "", ['\t', 'x', '\n'], #[]⟩ = .ok (_, []) :=
    @Source.lex_eq ⟨0, "", "", ['\t', 'x', '\n'], #[]⟩ _ runs
  have gapless : Gapless [.indent, .identifier, .newline, .dedent, .eof] := by
    simp [Gapless, MayFollow, Kind.isLayout]
  obtain ⟨words, spelled, again⟩ := Source.lex_printed lexed gapless
  exact ⟨_, words, lexed, gapless, spelled, again⟩

end Offside
