import Offside.Proofs.Lines
import Offside.Proofs.Pieces
import Offside.Lexer.Basic

/-!
# What lies ahead of a lexer

How a lexer goes on depends on four things only: the text ahead, the open blocks, its mode and the
kind it cut last.  They are its prospect.  A prospect determines the pieces of the next stride and
the prospect behind them, without regard to what is behind, to marks or to queues.
-/

namespace Offside

namespace Text

/-- The fraction that a text begins with, a point and digits; nothing if it begins with none. -/
def fractionAhead : List Char → List Char
  | '.' :: rest => if rest.takeWhile isDigit = [] then [] else '.' :: rest.takeWhile isDigit
  | _ => []

theorem fractionAhead_prefix (text : List Char) : fractionAhead text <+: text := by
  simp only [fractionAhead]
  split
  · split
    · exact List.nil_prefix
    · exact List.cons_prefix_cons.2 ⟨rfl, List.takeWhile_prefix _⟩
  · exact List.nil_prefix

end Text

namespace Piece

def dropped (text : List Char) : Piece := { text }

def cut (kind : Kind) (text : List Char) : Piece := { text, kind := some kind }

def flawed (flaw : Flaw) (text : List Char) : Piece :=
  { text, kind := some .error, flaw := some flaw }

/-- A run of digits without a fraction. -/
def ofDigits (digits : List Char) : Piece :=
  if (Number.int64? digits).isSome then cut .integer digits else flawed .tooLarge digits

def numberAhead (text : List Char) : Piece :=
  let digits := text.takeWhile Text.isDigit
  let fraction := Text.fractionAhead (text.dropWhile Text.isDigit)
  if fraction = [] then ofDigits digits else cut .float (digits ++ fraction)

def nameAhead (text : List Char) : Piece :=
  let name := text.takeWhile Text.isNamePart
  cut (Lexeme.nameKind name) name

def stringAhead (quote : Char) (rest : List Char) : Piece :=
  match Lexeme.closing? quote false 0 rest with
  | some count => cut .string (quote :: rest.take count)
  | none => flawed .unclosed (quote :: rest)

def operatorAhead (c : Char) (rest : List Char) : Piece :=
  match Operator.byLength.find? fun operator => operator.chars.isPrefixOf (c :: rest) with
  | some operator => cut (.operator operator) operator.chars
  | none => flawed (.stray c) [c]

/-- The piece that `c` begins inside a line. -/
def ahead (c : Char) (rest : List Char) : Piece :=
  if c = '#' then dropped (Text.lineAhead (c :: rest))
  else if c = '\\' ∧ rest.head?.any Text.isBreak then dropped (c :: Text.breakAhead rest)
  else if Text.isBlank c then
    dropped ((c :: rest).takeWhile fun c => Text.isBlank c && !Text.isBreak c)
  else if Text.isDigit c then numberAhead (c :: rest)
  else if Text.isNameStart c then nameAhead (c :: rest)
  else if c = '\"' ∨ c = '\'' then stringAhead c rest
  else operatorAhead c rest

/-- The whitespace of a line whose width lies between two levels. -/
def uneven (white : List Char) : Piece :=
  { text := white, kind := some .indent, flaw := some (.uneven white.length) }

theorem text_ofDigits (digits : List Char) : (ofDigits digits).text = digits := by
  rw [ofDigits]
  split <;> rfl

/-- A piece that begins what is ahead and becomes a content of its line. -/
structure Cuts (piece : Piece) (ahead : List Char) : Prop where
  begins : piece.text <+: ahead
  nonempty : piece.text ≠ []
  content : ∃ kind, piece.kind = some kind ∧ kind.isContent = true

theorem cuts_ofDigits {digits ahead : List Char} (begins : digits <+: ahead)
    (nonempty : digits ≠ []) : (ofDigits digits).Cuts ahead where
  begins := by rwa [text_ofDigits]
  nonempty := by rwa [text_ofDigits]
  content := by
    rw [ofDigits]
    split
    · exact ⟨_, rfl, rfl⟩
    · exact ⟨_, rfl, rfl⟩

theorem cuts_numberAhead {c : Char} (rest : List Char) (digit : Text.isDigit c = true) :
    (numberAhead (c :: rest)).Cuts (c :: rest) := by
  have whole := List.takeWhile_append_dropWhile (p := Text.isDigit) (l := c :: rest)
  have nonempty : (c :: rest).takeWhile Text.isDigit ≠ [] := by simp [digit]
  have fraction := Text.fractionAhead_prefix ((c :: rest).dropWhile Text.isDigit)
  unfold numberAhead
  simp only
  split
  · exact cuts_ofDigits (List.takeWhile_prefix _) nonempty
  · refine ⟨?_, by simp [cut, nonempty], _, rfl, rfl⟩
    rw [← List.prefix_append_right_inj ((c :: rest).takeWhile Text.isDigit), whole] at fraction
    exact fraction

theorem cuts_nameAhead {c : Char} (rest : List Char) (start : Text.isNameStart c = true) :
    (nameAhead (c :: rest)).Cuts (c :: rest) where
  begins := List.takeWhile_prefix _
  nonempty := by simp [nameAhead, cut, Text.isNamePart_of_isNameStart start]
  content := by
    refine ⟨_, rfl, ?_⟩
    rw [Lexeme.nameKind]
    split
    · rfl
    · rfl

theorem cuts_stringAhead (quote : Char) (rest : List Char) :
    (stringAhead quote rest).Cuts (quote :: rest) := by
  rw [stringAhead]
  split
  · refine ⟨?_, List.cons_ne_nil _ _, _, rfl, rfl⟩
    exact List.cons_prefix_cons.2 ⟨rfl, List.take_prefix _ _⟩
  · exact ⟨List.prefix_rfl, List.cons_ne_nil _ _, _, rfl, rfl⟩

theorem cuts_operatorAhead (c : Char) (rest : List Char) :
    (operatorAhead c rest).Cuts (c :: rest) := by
  rw [operatorAhead]
  split
  · rename_i operator found
    refine ⟨?_, operator.chars_ne_nil, _, rfl, rfl⟩
    have holds := List.find?_some found
    exact List.isPrefixOf_iff_prefix.1 holds
  · exact ⟨List.cons_prefix_cons.2 ⟨rfl, List.nil_prefix⟩, List.cons_ne_nil _ _, _, rfl, rfl⟩

theorem skippable_or_cuts (c : Char) (rest : List Char) :
    (∃ text behind, ahead c rest = dropped text ∧ c :: rest = text ++ behind ∧
        Text.Skippable text behind) ∨
      (ahead c rest).Cuts (c :: rest) := by
  rw [ahead]
  by_cases isComment : c = '#'
  · rw [if_pos isComment]
    refine .inl ⟨_, _, rfl, (Text.lineAhead_append_drop _).symm, .comment ?_ ?_ ?_⟩
    · simp [Text.lineAhead, isComment, show Text.isBreak '#' = false from rfl]
    · exact fun _ => Text.isBreak_of_mem_lineAhead
    · exact Text.isBreak_head?_drop_lineAhead
  rw [if_neg isComment]
  by_cases continues : c = '\\' ∧ rest.head?.any Text.isBreak
  · rw [if_pos continues]
    obtain ⟨rfl, isBreak⟩ := continues
    cases rest with
    | nil => cases isBreak
    | cons next rest =>
      obtain ⟨behind, split, isLineBreak⟩ := Text.exists_isLineBreak rest isBreak
      exact .inl ⟨_, behind, rfl, by rw [List.cons_append, ← split], .continuation isLineBreak⟩
  rw [if_neg continues]
  by_cases blank : Text.isBlank c = true
  · rw [if_pos blank]
    refine .inl ⟨_, _, rfl, List.takeWhile_append_dropWhile.symm, .blanks ?_⟩
    intro c member
    simpa using List.mem_takeWhile_imp member
  rw [if_neg blank]
  apply Or.inr
  by_cases digit : Text.isDigit c = true
  · rw [if_pos digit]
    exact cuts_numberAhead rest digit
  rw [if_neg digit]
  by_cases start : Text.isNameStart c = true
  · rw [if_pos start]
    exact cuts_nameAhead rest start
  rw [if_neg start]
  by_cases quote : c = '\"' ∨ c = '\''
  · rw [if_pos quote]
    exact cuts_stringAhead c rest
  · rw [if_neg quote]
    exact cuts_operatorAhead c rest

/-- The pieces of the whitespace in front of a line that fits the open blocks in some way. -/
def indentation (white : List Char) : Fit → List Piece
  | .opens => [cut .indent white]
  | .same => [dropped white]
  | .closes count true => List.replicate count (cut .dedent []) ++ [dropped white]
  | .closes count false => List.replicate count (cut .dedent []) ++ [uneven white]

@[simp] theorem texts_replicate_cut (kind : Kind) (count : Nat) :
    texts (List.replicate count (cut kind [])) = [] := by
  simp [texts, cut]

@[simp] theorem texts_indentation (white : List Char) (fit : Fit) :
    texts (indentation white fit) = white := by
  cases fit with
  | closes count exact => cases exact <;> simp [indentation, dropped, uneven]
  | _ => simp [indentation, cut, dropped]

theorem kind_indentation {white : List Char} {fit : Fit} {piece : Piece}
    (h : piece ∈ indentation white fit) :
    piece.kind = none ∨ piece.kind = some .indent ∨ piece.kind = some .dedent := by
  simp only [indentation] at h
  split at h
  next => simp_all [cut]
  next => simp_all [dropped]
  next =>
    rcases List.mem_append.1 h with h | h
    · simp [List.eq_of_mem_replicate h, cut]
    · simp_all [dropped]
  next =>
    rcases List.mem_append.1 h with h | h
    · simp [List.eq_of_mem_replicate h, cut]
    · simp_all [uneven]

/-- The empty pieces at the end of a text. -/
def ending (blocks : Blocks) (last : Option Kind) : List Piece :=
  (if last.any fun kind => !kind.isLayout then [cut .newline []] else []) ++
    List.replicate blocks.size (cut .dedent []) ++ [cut .eof []]

@[simp] theorem texts_ending (blocks : Blocks) (last : Option Kind) :
    texts (ending blocks last) = [] := by
  rw [ending, texts_append, texts_append, texts_replicate_cut]
  split
  · rfl
  · rfl

theorem lastKind_ending (blocks : Blocks) (last : Option Kind) :
    lastKind (ending blocks last) last = some .eof := by
  rw [ending, lastKind_append]
  rfl

end Piece

/-- What the further steps of a lexer depend on. -/
structure Prospect where
  text : List Char
  blocks : Blocks
  mode : Mode
  last : Option Kind
  deriving DecidableEq, Repr

/-- What one step comes to: the pieces it goes through, and the mode and the blocks behind them. -/
structure Stride where
  pieces : List Piece
  mode : Mode
  blocks : Blocks
  deriving DecidableEq, Repr

namespace Stride

def atMargin (text : List Char) (blocks : Blocks) : Stride :=
  let white := text.takeWhile Text.isMargin
  let rest := text.dropWhile Text.isMargin
  match rest with
  | [] => ⟨[.dropped white], .atEnd, blocks⟩
  | c :: _ =>
    if c = '#' ∨ Text.isBreak c then
      let comment := Text.lineAhead rest
      let ended := Text.breakAhead (rest.drop comment.length)
      ⟨[.dropped (white ++ comment ++ ended)], if ended = [] then .atEnd else .atMargin, blocks⟩
    else
      let fitted := blocks.fit white.length
      ⟨Piece.indentation white fitted.1, .inLine, fitted.2⟩

def inLine (text : List Char) (blocks : Blocks) : Stride :=
  match text with
  | [] => ⟨[], .atEnd, blocks⟩
  | c :: rest =>
    if Text.isBreak c then ⟨[.cut .newline (Text.breakAhead (c :: rest))], .atMargin, blocks⟩
    else ⟨[.ahead c rest], .inLine, blocks⟩

end Stride

namespace Prospect

def start (text : List Char) : Prospect := ⟨text, .empty, .atMargin, none⟩

def stride (prospect : Prospect) : Stride :=
  match prospect.mode with
  | .atMargin => .atMargin prospect.text prospect.blocks
  | .inLine => .inLine prospect.text prospect.blocks
  | .atEnd => ⟨Piece.ending prospect.blocks prospect.last, .done, .empty⟩
  | .done => ⟨[], .done, prospect.blocks⟩

def next (prospect : Prospect) : Prospect where
  text := prospect.text.drop (Piece.texts prospect.stride.pieces).length
  blocks := prospect.stride.blocks
  mode := prospect.stride.mode
  last := Piece.lastKind prospect.stride.pieces prospect.last

/-! ## Where strides lead -/

/-- How a prospect can lead to the next one, with the pieces on the way. -/
inductive Leads : Prospect → List Piece → Prospect → Prop where
  /-- At the start of a line, nothing more but whitespace and a comment. -/
  | ends {white comment : List Char} {blocks : Blocks} {last : Option Kind}
      (margin : ∀ c ∈ white, Text.isMargin c = true) (isComment : Text.IsComment comment) :
      Leads ⟨white ++ comment, blocks, .atMargin, last⟩ [.dropped (white ++ comment)]
        ⟨[], blocks, .atEnd, last⟩
  | blankLine {text rest : List Char} {blocks : Blocks} {last : Option Kind}
      (isBlankLine : Text.IsBlankLine text rest) :
      Leads ⟨text ++ rest, blocks, .atMargin, last⟩ [.dropped text] ⟨rest, blocks, .atMargin, last⟩
  /-- The whitespace of a line with content. -/
  | content {white rest : List Char} {c : Char} {blocks : Blocks} {last : Option Kind}
      (margin : ∀ c ∈ white, Text.isMargin c = true) (notMargin : Text.isMargin c = false)
      (notComment : c ≠ '#') (notBreak : Text.isBreak c = false) :
      Leads ⟨white ++ c :: rest, blocks, .atMargin, last⟩
        (Piece.indentation white (blocks.fit white.length).1)
        ⟨c :: rest, (blocks.fit white.length).2, .inLine,
          Piece.lastKind (Piece.indentation white (blocks.fit white.length).1) last⟩
  | newline {ended rest : List Char} {blocks : Blocks} {last : Option Kind}
      (isLineBreak : Text.IsLineBreak ended rest) :
      Leads ⟨ended ++ rest, blocks, .inLine, last⟩ [.cut .newline ended]
        ⟨rest, blocks, .atMargin, some .newline⟩
  | skip {text rest : List Char} {blocks : Blocks} {last : Option Kind}
      (skippable : Text.Skippable text rest) :
      Leads ⟨text ++ rest, blocks, .inLine, last⟩ [.dropped text] ⟨rest, blocks, .inLine, last⟩
  | token {piece : Piece} {rest : List Char} {kind : Kind} {blocks : Blocks} {last : Option Kind}
      (isToken : piece.kind = some kind) (isContent : kind.isContent = true)
      (nonempty : piece.text ≠ []) :
      Leads ⟨piece.text ++ rest, blocks, .inLine, last⟩ [piece] ⟨rest, blocks, .inLine, some kind⟩
  /-- The text ends inside a line. -/
  | stops {blocks : Blocks} {last : Option Kind} :
      Leads ⟨[], blocks, .inLine, last⟩ [] ⟨[], blocks, .atEnd, last⟩
  | closes {text : List Char} {blocks : Blocks} {last : Option Kind} :
      Leads ⟨text, blocks, .atEnd, last⟩ (Piece.ending blocks last)
        ⟨text, .empty, .done, some .eof⟩
  | done {text : List Char} {blocks : Blocks} {last : Option Kind} :
      Leads ⟨text, blocks, .done, last⟩ [] ⟨text, blocks, .done, last⟩

/-- A stride leads behind the text that its pieces cover. -/
theorem leads_of_stride {prospect : Prospect} {stride : Stride} {rest : List Char}
    (same : prospect.stride = stride) (covered : prospect.text = Piece.texts stride.pieces ++ rest)
    (leads : prospect.Leads stride.pieces
      ⟨rest, stride.blocks, stride.mode, Piece.lastKind stride.pieces prospect.last⟩) :
    prospect.Leads prospect.stride.pieces prospect.next := by
  rw [next, same, covered, List.drop_left]
  exact leads

theorem leads_atMargin (text : List Char) (blocks : Blocks) (last : Option Kind) :
    Leads ⟨text, blocks, .atMargin, last⟩ (stride ⟨text, blocks, .atMargin, last⟩).pieces
      (next ⟨text, blocks, .atMargin, last⟩) := by
  have whole := List.takeWhile_append_dropWhile (p := Text.isMargin) (l := text)
  have margin : ∀ c ∈ text.takeWhile Text.isMargin, Text.isMargin c = true :=
    fun _ => List.mem_takeWhile_imp
  have behind := List.head?_dropWhile_not Text.isMargin text
  have same : stride ⟨text, blocks, .atMargin, last⟩ = .atMargin text blocks := rfl
  -- What is ahead is cut into whitespace, a comment and a break; each is a text of its own from
  -- here on, so that the constructors fit.
  rw [Stride.atMargin] at same
  generalize text.takeWhile Text.isMargin = white at *
  generalize text.dropWhile Text.isMargin = rest at *
  subst whole
  cases rest with
  | nil =>
    have ends := @Leads.ends white [] blocks last margin ⟨by simp, by simp⟩
    rw [List.append_nil] at ends same ⊢
    exact @leads_of_stride _ _ [] same (by simp [Piece.dropped]) ends
  | cons c rest =>
    by_cases blank : c = '#' ∨ Text.isBreak c = true
    · have isComment := @Text.isComment_lineAhead c rest blank
      have line := Text.lineAhead_append_drop (c :: rest)
      have atEnd := @Text.breakAhead_drop_lineAhead (c :: rest)
      simp only [if_pos blank] at same
      generalize Text.lineAhead (c :: rest) = comment at *
      generalize (c :: rest).drop comment.length = behind at *
      obtain ⟨others, split⟩ := Text.breakAhead_prefix behind
      by_cases ends : Text.breakAhead behind = []
      · rw [atEnd ends, List.append_nil] at line
        subst line
        simp only [ends, List.append_nil, if_true] at same
        exact leads_of_stride same (by simp [Piece.dropped]) (.ends margin isComment)
      · have isEnd : Text.IsLineBreak (Text.breakAhead behind) others :=
          Text.isLineBreak_breakAhead (by rw [← split]) ends
        simp only [ends, if_false] at same
        generalize Text.breakAhead behind = ended at *
        rw [← line, split, ← List.append_assoc, ← List.append_assoc] at same ⊢
        exact leads_of_stride same (by simp [Piece.dropped])
          (.blankLine ⟨white, comment, ended, rfl, margin, isComment, isEnd⟩)
    · obtain ⟨notComment, notBreak⟩ := not_or.1 blank
      simp only [if_neg blank] at same
      exact leads_of_stride same (by simp)
        (.content margin (by simpa using behind) notComment (by simpa using notBreak))

theorem leads_inLine (text : List Char) (blocks : Blocks) (last : Option Kind) :
    Leads ⟨text, blocks, .inLine, last⟩ (stride ⟨text, blocks, .inLine, last⟩).pieces
      (next ⟨text, blocks, .inLine, last⟩) := by
  have same : stride ⟨text, blocks, .inLine, last⟩ = .inLine text blocks := rfl
  cases text with
  | nil => exact .stops
  | cons c rest =>
    simp only [Stride.inLine] at same
    by_cases isBreak : Text.isBreak c = true
    · obtain ⟨behind, split, isLineBreak⟩ := Text.exists_isLineBreak rest isBreak
      rw [if_pos isBreak] at same
      generalize Text.breakAhead (c :: rest) = ended at *
      rw [split] at same ⊢
      exact leads_of_stride same (by simp [Piece.cut]) (.newline isLineBreak)
    · rw [if_neg isBreak] at same
      rcases Piece.skippable_or_cuts c rest with ⟨text, behind, dropped, split, skippable⟩ |
        ⟨⟨behind, split⟩, nonempty, kind, isToken, isContent⟩
      · rw [dropped] at same
        rw [split] at same ⊢
        exact leads_of_stride same (by simp [Piece.dropped]) (.skip skippable)
      -- Which lexeme it is does not matter here, only that it cuts a token.
      · generalize Piece.ahead c rest = piece at *
        rw [← split] at same ⊢
        apply @leads_of_stride _ _ behind same (by simp)
        rw [Piece.lastKind_cons, isToken]
        exact .token isToken isContent nonempty

theorem leads (prospect : Prospect) : prospect.Leads prospect.stride.pieces prospect.next := by
  obtain ⟨text, blocks, mode, last⟩ := prospect
  cases mode with
  | atMargin => exact leads_atMargin text blocks last
  | inLine => exact leads_inLine text blocks last
  | atEnd =>
    refine @leads_of_stride _ _ text rfl ?_ ?_
    · simp [stride]
    · simp only [stride, Piece.lastKind_ending]
      exact .closes
  | done => exact .done

end Prospect

namespace Lexer

def prospect (lexer : Lexer) : Prospect :=
  ⟨lexer.reader.point.rest, lexer.blocks, lexer.mode, lexer.reader.lastCut⟩

end Lexer

end Offside
