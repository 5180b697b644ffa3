import Offside.Proofs.Quotation

/-!
# Quoted literals

The printed form of a text is a string literal in one line, and a scan of it finds nothing else.
Of the escapes in it a literal resolves those of line breaks, tabs, backslashes and quotes, and the
others stand for themselves.  So the text is the value of the literal exactly if it has no other
control characters.
-/

namespace Offside

open Text

namespace Text

/-! ## Values -/

/-- Whether a character is no control character, or one that a literal has an escape for. -/
def IsSpellable (c : Char) : Prop := isControl c = true → c = '\n' ∨ c = '\r' ∨ c = '\t'

instance : DecidablePred IsSpellable := fun c =>
  inferInstanceAs (Decidable (isControl c = true → c = '\n' ∨ c = '\r' ∨ c = '\t'))

/-- What a literal holds for the printed form of a character. -/
def reread (c : Char) : List Char := if IsSpellable c then [c] else quoteChar c

theorem unescape_append_plain {plain : List Char} (isPlain : ∀ c ∈ plain, c ≠ '\\')
    (rest : List Char) : unescape (plain ++ rest) = plain ++ unescape rest := by
  induction plain with
  | nil => rfl
  | cons c plain ih =>
    obtain ⟨notBackslash, others⟩ := List.forall_mem_cons.1 isPlain
    rw [List.cons_append, unescape_plain notBackslash, ih others, List.cons_append]

theorem escapeMeaning_of_quoteLetter? {c letter : Char} (found : quoteLetter? c = some letter) :
    escapeMeaning letter = if IsSpellable c then [c] else ['\\', letter] := by
  rw [quoteLetter?] at found
  split_ifs at found
  all_goals
    subst c
    cases found
    rfl

theorem not_isSpellable {c : Char} (noLetter : quoteLetter? c = none)
    (control : isControl c = true) : ¬ IsSpellable c := by
  intro spellable
  rcases spellable control with rfl | rfl | rfl
  · cases noLetter
  · cases noLetter
  · cases noLetter

theorem Written.unescape_append {c : Char} {shown : List Char} (written : Written c shown)
    (rest : List Char) :
    unescape (shown ++ rest) = (if IsSpellable c then [c] else shown) ++ unescape rest := by
  cases written with
  | plain notBackslash _ notControl =>
    rw [List.singleton_append, unescape_plain notBackslash, ite_self]
    rfl
  | letter found =>
    rw [List.cons_append, List.singleton_append, unescape, escapeMeaning_of_quoteLetter? found]
  | low noLetter control | high noLetter control =>
    rw [if_neg (not_isSpellable noLetter control), List.cons_append, List.cons_append, unescape,
      unescape_append_plain fun _ member => (plain_of_mem_hexPadded member).1]
    rfl

theorem unescape_quoteBody (text : List Char) :
    unescape (quoteBody text) = text.flatMap reread := by
  induction text with
  | nil => rfl
  | cons c text ih =>
    rw [quoteBody_cons, (written_quoteChar c).unescape_append, ih, List.flatMap_cons, reread]

theorem isSpellable_of_mem_reread {c d : Char} (member : d ∈ reread c) : IsSpellable d := by
  rw [reread] at member
  split at member
  next spellable =>
    obtain rfl := List.mem_singleton.1 member
    exact spellable
  next =>
    intro control
    rw [(written_quoteChar c).notControl d member] at control
    cases control

/-- A text is what a literal holds for its printed form if a literal has escapes for all its control
characters, and only then. -/
theorem unescape_quoteBody_eq_iff (text : List Char) :
    unescape (quoteBody text) = text ↔ ∀ c ∈ text, IsSpellable c := by
  rw [unescape_quoteBody]
  constructor
  · -- Whatever a literal holds for a printed form is spellable, and so is a text that comes back.
    intro same c member
    rw [← same] at member
    obtain ⟨d, -, member⟩ := List.mem_flatMap.1 member
    exact isSpellable_of_mem_reread member
  · intro spellable
    have alone : ∀ c ∈ text, reread c = [c] := fun c member => if_pos (spellable c member)
    rw [List.flatMap_congr alone, List.flatMap_singleton']

theorem isLiteral_quote (text : List Char) : IsLiteral (quote text) :=
  ⟨'\"', quoteBody text, rfl, .inl rfl, units_quoteBody text⟩

theorem noBreak_of_mem_quote {text : List Char} {c : Char} (member : c ∈ quote text) :
    isBreak c = false := by
  have notControl := notControl_of_mem_quote member
  cases isBreak : isBreak c with
  | false => rfl
  | true =>
    simp only [Text.isBreak, Bool.or_eq_true, beq_iff_eq] at isBreak
    rcases isBreak with rfl | rfl
    · cases notControl
    · cases notControl

end Text

/-! ## A literal alone -/

theorem Prospect.runs_of_isLiteral {text : List Char} (isLiteral : IsLiteral text) :
    (start text).Runs [.dropped [], .cut .string text, .cut .newline [], .cut .eof []] := by
  have lexeme := @Moves.lexeme _ [] .empty none (.string isLiteral)
  obtain ⟨quote, units, rfl, isQuote, -⟩ := isLiteral
  rw [Piece.cut, List.append_nil] at lexeme
  have margin : Moves (start (quote :: (units ++ [quote]))) [.dropped []]
      ⟨quote :: (units ++ [quote]), .empty, .inLine, none⟩ := by
    rcases isQuote with rfl | rfl
    · exact @Moves.content [] _ _ .empty none (by simp) rfl (by decide) rfl
    · exact @Moves.content [] _ _ .empty none (by simp) rfl (by decide) rfl
  -- One move for each mode: up to the literal, over it, to the end of the text and of the stream.
  have trail := margin.trail (by simp [start]) (lexeme.trail (by simp)
    (Moves.stops.trail (by simp) (Moves.closes.trail (by simp) (.refl _))))
  exact ⟨_, trail, rfl⟩

/-- A scan of a literal alone finds the literal, the end of its line and the end of the stream. -/
theorem Source.lex_of_isLiteral {source : Source} {text : List Char}
    (content : source.chars = text) (isLiteral : IsLiteral text) :
    source.lex = .ok ([⟨.string, ⟨0, width text, source⟩, 1⟩,
      ⟨.newline, ⟨width text, width text, source⟩, 1 + breaksIn text []⟩,
      ⟨.eof, ⟨width text, width text, source⟩, 1 + breaksIn text []⟩], []) := by
  have runs := Prospect.runs_of_isLiteral isLiteral
  subst content
  rw [source.lex_eq runs, Piece.reports_eq_nil source _ (by simp [Piece.dropped, Piece.cut])]
  simp only [Piece.tokens, Piece.token?, Piece.span, Piece.dropped, Piece.cut, List.length_nil,
    Point.advance, Point.advance_whole]
  rfl

theorem Token.string?_of_quote {token : Token} {text : List Char} (isString : token.kind = .string)
    (chars : token.chars = .ok (quote text)) :
    token.string? = .ok (some (unescape (quoteBody text))) := by
  simp only [string?, quoted?, chars, bind, Except.bind, if_pos isString, quote,
    unwrap_quoted (.inl rfl)]
  rfl

/-- A scan of the printed form of a text finds one string literal that covers all of it, and nothing
to report.  The value of the literal is the text exactly if the text has no control characters other
than line breaks and tabs. -/
theorem Source.lex_quote (source : Source) (text : List Char)
    (content : source.chars = quote text) :
    source.lex = .ok ([⟨.string, ⟨0, width (quote text), source⟩, 1⟩,
        ⟨.newline, ⟨width (quote text), width (quote text), source⟩, 1⟩,
        ⟨.eof, ⟨width (quote text), width (quote text), source⟩, 1⟩], []) ∧
      (Token.string? ⟨.string, ⟨0, width (quote text), source⟩, 1⟩ = .ok (some text) ↔
        ∀ c ∈ text, isControl c = true → c = '\n' ∨ c = '\r' ∨ c = '\t') := by
  constructor
  · have lexed := lex_of_isLiteral content (isLiteral_quote text)
    rwa [breaksIn_of_noBreak fun _ => noBreak_of_mem_quote] at lexed
  · have chars : source.slice (width []) (width ([] ++ quote text)) = .ok (quote text) :=
      slice_eq (by rw [content, List.append_nil, List.nil_append])
    have value := @Token.string?_of_quote ⟨.string, ⟨0, width (quote text), source⟩, 1⟩ text rfl
      chars
    rw [value, Except.ok.injEq, Option.some.injEq, unescape_quoteBody_eq_iff]
    rfl

/-- A text of quotes, backslashes and a line break is the value of its printed form. -/
theorem Source.lex_quote_escapes :
    ∃ (source : Source) (token : Token) (layout : List Token),
      source.chars = quote ['\"', '\\', '\n', '\''] ∧
      source.lex = .ok (token :: layout, []) ∧ token.kind = .string ∧
      token.string? = .ok (some ['\"', '\\', '\n', '\'']) := by
  obtain ⟨lexed, value⟩ := lex_quote ⟨0, "", "", quote ['\"', '\\', '\n', '\''], #[]⟩ _ rfl
  exact ⟨_, _, _, rfl, lexed, rfl, value.2 (by simp; decide)⟩

end Offside
