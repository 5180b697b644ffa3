import Mathlib.InformationTheory.Coding.UniquelyDecodable
import Offside.Proofs.Escapes
import Offside.Proofs.Insertions

/-!
# String literals

Where a literal ends and what it stands for are found by two walks over it.  The first one carries
along whether the next character is escaped, and the second one reads a backslash together with the
character behind it.  The runs of backslashes tell the same as either of them.
-/

namespace Offside

open Text

namespace Text

namespace Units

variable {quote : Char} {text : List Char}

theorem escapes_eq_false (isUnits : Units quote text) : escapes text = false := by
  induction isUnits with
  | nil => rfl
  | plain notBackslash _ _ ih => rw [escapes_plain notBackslash, ih]
  | escaped _ ih => rw [escapes_escaped, ih]

theorem escapes_of_quote (isUnits : Units quote text) (notBackslash : quote ≠ '\\')
    {before after : List Char} (split : text = before ++ quote :: after) : escapes before = true := by
  induction isUnits generalizing before with
  | nil => simp at split
  | @plain c rest plain notQuote _ ih =>
    cases before with
    | nil => exact absurd (List.cons.inj split).1 notQuote
    | cons d before =>
      obtain ⟨rfl, further⟩ := List.cons.inj split
      rw [escapes_plain plain, ih further]
  | @escaped c rest _ ih =>
    cases before with
    | nil => exact absurd (List.cons.inj split).1.symm notBackslash
    | cons d before =>
      obtain ⟨rfl, further⟩ := List.cons.inj split
      cases before with
      | nil => rfl
      | cons e before => rw [escapes_escaped, ih (List.cons.inj further).2]

end Units

theorem IsOpen.escapes_of_quote {quote : Char} {text : List Char} (isOpen : IsOpen quote text)
    (notBackslash : quote ≠ '\\') {before after : List Char}
    (split : text = before ++ quote :: after) : escapes before = true := by
  obtain ⟨units, isUnits, rfl | rfl⟩ := isOpen
  · exact isUnits.escapes_of_quote notBackslash split
  · -- The last backslash is not the quote, so the quote belongs to the units.
    rcases List.eq_nil_or_concat' after with rfl | ⟨others, last, rfl⟩
    · have same := (List.append_inj' split rfl).2
      exact absurd (List.cons.inj same).1.symm notBackslash
    · rw [← List.cons_append, ← List.append_assoc] at split
      exact isUnits.escapes_of_quote notBackslash (List.append_inj' split rfl).1

/-! ## Literals ahead -/

/-- A literal with its quotes, or an open one up to the end of the text, and the kind of its token:
the first quote behind an even number of backslashes closes it. -/
inductive LiteralAhead (quote : Char) (ahead : List Char) : (text : List Char) → Kind → Prop where
  | closed {inside behind : List Char} (split : ahead = inside ++ quote :: behind)
      (even : Even (backslashes inside))
      (first : ∀ before after, inside = before ++ quote :: after → ¬ Even (backslashes before)) :
      LiteralAhead quote ahead (quote :: (inside ++ [quote])) .string
  | unclosed (none : ∀ before behind, ahead = before ++ quote :: behind →
      ¬ Even (backslashes before)) : LiteralAhead quote ahead (quote :: ahead) .error

theorem IsQuote.ne_backslash {quote : Char} (isQuote : IsQuote quote) : quote ≠ '\\' := by
  rcases isQuote with rfl | rfl <;> decide

end Text

theorem Piece.literalAhead_stringAhead {quote : Char} (isQuote : IsQuote quote)
    (ahead : List Char) : ∃ kind, (stringAhead quote ahead).kind = some kind ∧
      LiteralAhead quote ahead (stringAhead quote ahead).text kind := by
  have odd {before : List Char} (escaped : escapes before = true) : ¬ Even (backslashes before) := by
    rw [← escapes_eq_false_iff, escaped]
    simp
  cases found : Lexeme.closing? quote false 0 ahead with
  | some count =>
    obtain ⟨inside, behind, rfl, -, isUnits⟩ := units_of_closing? found
    have isUnits : Units quote inside := isUnits
    rw [stringAhead_of_units isQuote isUnits]
    refine ⟨.string, rfl, .closed rfl ?_ fun before after split => odd ?_⟩
    · exact (escapes_eq_false_iff inside).1 isUnits.escapes_eq_false
    · exact isUnits.escapes_of_quote isQuote.ne_backslash split
  | none =>
    rw [stringAhead, found]
    exact ⟨.error, rfl, .unclosed fun before behind split =>
      odd ((isOpen_of_closing? found).escapes_of_quote isQuote.ne_backslash split)⟩

/-! ## Units of a literal -/

namespace Text

/-- A character other than the backslash and the quote, or a backslash and one character. -/
inductive IsUnit (quote : Char) : List Char → Prop where
  | plain {c : Char} (notBackslash : c ≠ '\\') (notQuote : c ≠ quote) : IsUnit quote [c]
  | escape (c : Char) : IsUnit quote ['\\', c]

def unitMeaning : List Char → List Char
  | ['\\', 'n'] => ['\n']
  | ['\\', 'r'] => ['\r']
  | ['\\', 't'] => ['\t']
  | ['\\', '0'] => ['\x00']
  | ['\\', '\\'] => ['\\']
  | ['\\', '\"'] => ['\"']
  | ['\\', '\''] => ['\'']
  | unit => unit

theorem unitMeaning_plain (c : Char) : unitMeaning [c] = [c] := by
  unfold unitMeaning
  split <;> simp_all

theorem unitMeaning_escape (c : Char) : unitMeaning ['\\', c] = escapeMeaning c := by
  unfold unitMeaning
  split <;> simp_all [escapeMeaning, escaped?]

namespace IsUnit

variable {quote : Char} {unit other : List Char}

theorem ne_nil (isUnit : IsUnit quote unit) : unit ≠ [] := by
  cases isUnit <;> simp

theorem eq_of_append {text behind : List Char} (isUnit : IsUnit quote unit)
    (isOther : IsUnit quote other) (same : unit ++ text = other ++ behind) :
    unit = other ∧ text = behind := by
  cases isUnit with
  | plain notBackslash =>
    cases isOther with
    | plain => simpa using same
    | escape => exact absurd (List.cons.inj same).1 notBackslash
  | escape c =>
    cases isOther with
    | plain notBackslash => exact absurd (List.cons.inj same).1.symm notBackslash
    | escape => simpa using same

end IsUnit

/-- A text is cut into units in only one way. -/
theorem uniquelyDecodable_units (quote : Char) :
    InformationTheory.UniquelyDecodable (IsUnit quote) := by
  intro units others isUnits areUnits same
  induction units generalizing others with
  | nil =>
    cases others with
    | nil => rfl
    | cons other others =>
      have nothing := (List.append_eq_nil_iff.1 same.symm).1
      exact absurd nothing (IsUnit.ne_nil (areUnits other (.head _)))
  | cons unit units ih =>
    obtain ⟨first, further⟩ := List.forall_mem_cons.1 isUnits
    cases others with
    | nil => exact absurd (List.append_eq_nil_iff.1 same).1 (IsUnit.ne_nil first)
    | cons other others =>
      obtain ⟨second, behind⟩ := List.forall_mem_cons.1 areUnits
      obtain ⟨rfl, rest⟩ := IsUnit.eq_of_append first second same
      rw [ih others further behind rest]

/-- Units can be told apart, and resolving their text resolves each of them. -/
theorem Units.exists_units {quote : Char} {text : List Char} (isUnits : Units quote text) :
    ∃ units : List (List Char), (∀ unit ∈ units, IsUnit quote unit) ∧ units.flatten = text ∧
      unescape text = units.flatMap unitMeaning := by
  induction isUnits with
  | nil => exact ⟨[], by simp, rfl, rfl⟩
  | @plain c _ notBackslash notQuote _ ih =>
    obtain ⟨units, areUnits, rfl, meaning⟩ := ih
    refine ⟨[c] :: units, List.forall_mem_cons.2 ⟨.plain notBackslash notQuote, areUnits⟩, rfl, ?_⟩
    rw [unescape_plain notBackslash, meaning, List.flatMap_cons, unitMeaning_plain]
    rfl
  | @escaped c _ _ ih =>
    obtain ⟨units, areUnits, rfl, meaning⟩ := ih
    refine ⟨['\\', c] :: units, List.forall_mem_cons.2 ⟨.escape c, areUnits⟩, rfl, ?_⟩
    rw [unescape, meaning, List.flatMap_cons, unitMeaning_escape]

end Text

/-! ## String tokens -/

theorem Token.unwrap_quoted {quote : Char} (isQuote : IsQuote quote) (content : List Char) :
    unwrap (quote :: (content ++ [quote])) = .ok content := by
  have single : quote.utf8Size = 1 := by rcases isQuote with rfl | rfl <;> rfl
  have stop : width (quote :: (content ++ [quote])) - 1 = width [quote] + width content := by
    simp only [width_cons, width_append, width_nil, single]
    omega
  have start : width [quote] = 1 := by simp [single]
  have sliced : slice? (quote :: (content ++ [quote])) (width [quote]) _ = some content :=
    slice?_append [quote] content [quote]
  rw [← stop, start] at sliced
  rw [unwrap, sliced]

theorem Prospect.Runs.isLiteral {source : Source} {pieces : List Piece}
    (runs : (Prospect.start source.chars).Runs pieces) {token : Token}
    (member : token ∈ Piece.tokens source (.origin source.chars) pieces)
    (isString : token.kind = .string) : ∃ text, token.chars = .ok text ∧ IsLiteral text := by
  obtain ⟨text, chars, spells⟩ := runs.spells member (by rw [isString]; rfl) (by simp [isString])
  rw [isString] at spells
  cases spells with
  | string isLiteral => exact ⟨text, chars, isLiteral⟩

/-- What a string token holds between its quotes: units, in which no backslash is left over, and
the value that they stand for one by one. -/
structure Token.Holds (token : Token) (quote : Char) (content : List Char)
    (units : List (List Char)) : Prop where
  isQuote : IsQuote quote
  chars : token.chars = .ok (quote :: (content ++ [quote]))
  quoted : token.quoted? = .ok (some content)
  areUnits : ∀ unit ∈ units, IsUnit quote unit
  flatten : units.flatten = content
  unique : ∀ others : List (List Char), (∀ unit ∈ others, IsUnit quote unit) →
    others.flatten = content → others = units
  even : Even (backslashes content)
  value : token.string? = .ok (some (units.flatMap unitMeaning))

theorem Token.holds_of_isLiteral {token : Token} {text : List Char} (isString : token.kind = .string)
    (chars : token.chars = .ok text) (isLiteral : IsLiteral text) :
    ∃ quote content units, token.Holds quote content units := by
  obtain ⟨quote, content, rfl, isQuote, isUnits⟩ := isLiteral
  obtain ⟨units, areUnits, flatten, meaning⟩ := isUnits.exists_units
  have quoted : token.quoted? = .ok (some content) := by
    simp only [quoted?, chars, bind, Except.bind, if_pos isString, unwrap_quoted isQuote]
    rfl
  refine ⟨quote, content, units, isQuote, chars, quoted, areUnits, flatten, ?_, ?_, ?_⟩
  · intro others areOthers same
    exact uniquelyDecodable_units quote others units areOthers areUnits (same.trans flatten.symm)
  · exact (escapes_eq_false_iff content).1 isUnits.escapes_eq_false
  · rw [string?, quoted, ← meaning]
    rfl

/-- Wherever a scan stands in front of a quote inside a line, a token begins that ends behind the
first quote with an even number of backslashes in front of it, or at the end of the text as an error.
Every string token of the scan has a content and a value: the content is made of units in just one
way, and the value is what they stand for. -/
theorem Source.lex_strings (source : Source) :
    ∃ tokens reports, source.lex = .ok (tokens, reports) ∧
      (∀ taken lexer quote ahead, Lexer.Visits source taken lexer → lexer.mode = .inLine →
        lexer.reader.point.rest = quote :: ahead → IsQuote quote →
        ∃ front text kind, source.chars = front ++ quote :: ahead ∧
          lexer.reader.point.offset = width front ∧ LiteralAhead quote ahead text kind ∧
          ⟨kind, ⟨width front, width (front ++ text), source⟩, lexer.reader.point.line⟩ ∈ tokens) ∧
      ∀ token ∈ tokens, token.kind = .string →
        ∃ quote content units, token.Holds quote content units := by
  obtain ⟨pieces, runs⟩ := source.exists_runs
  refine ⟨_, _, source.lex_eq runs, ?_, ?_⟩
  · intro taken lexer quote ahead visits inLine rest isQuote
    obtain ⟨before, along⟩ := visits.along
    obtain ⟨further, onward⟩ := Lexer.exists_runs along.clear
    obtain ⟨kind, isKind, literal⟩ := Piece.literalAhead_stringAhead isQuote ahead
    obtain ⟨behind, split, precedes⟩ := Piece.precedes_stringAhead ahead isQuote
    generalize Piece.stringAhead quote ahead = piece at *
    have here : lexer.prospect =
        ⟨piece.text ++ behind, lexer.blocks, .inLine, lexer.reader.lastCut⟩ := by
      rw [Lexer.prospect, rest, inLine, split]
    have trail := along.trail
    have point := along.point
    rw [here] at trail onward
    rw [trail.advance_origin] at point
    obtain ⟨after, rfl, -⟩ := (Prospect.Moves.lexeme precedes).split_runs (by simp) onward
    have content : source.chars = Piece.texts before ++ (piece.text ++ behind) := trail.text_eq
    refine ⟨Piece.texts before, piece.text, kind, by rw [content, ← split], by rw [point]; rfl,
      literal, ?_⟩
    rw [runs.unique (onward.behind trail), Piece.tokens_append, trail.advance_origin, point,
      List.singleton_append, Piece.tokens_between_cons, Piece.token?, isKind, Piece.span_between]
    simp
  · intro token member isString
    obtain ⟨text, chars, isLiteral⟩ := runs.isLiteral member isString
    exact Token.holds_of_isLiteral isString chars isLiteral

/-- An escaped quote does not close its literal, and stands for a quote. -/
theorem Source.lex_strings_escaped :
    ∃ tokens reports token,
      Source.lex ⟨0, "", "", ['\"', '\\', '\"', '\"'], #[]⟩ = .ok (tokens, reports) ∧
      token ∈ tokens ∧ token.kind = .string ∧ token.span.stop = 4 ∧
      token.Holds '\"' ['\\', '\"'] [['\\', '\"']] ∧ token.string? = .ok (some ['\"']) := by
  obtain ⟨tokens, reports, lexed, ends, values⟩ :=
    lex_strings ⟨0, "", "", ['\"', '\\', '\"', '\"'], #[]⟩
  obtain ⟨front, text, kind, content, start, literal, member⟩ :=
    ends [] _ '\"' ['\\', '\"', '\"'] (.step .start rfl (by decide) rfl) rfl rfl (.inl rfl)
  obtain ⟨rfl, -⟩ := @eq_of_width_eq [] front ['\"', '\\', '\"', '\"'] _ content start
  obtain ⟨rfl, rfl⟩ : text = ['\"', '\\', '\"', '\"'] ∧ kind = .string := by
    cases literal with
    | unclosed none => exact absurd (by decide) (none ['\\', '\"'] [] rfl)
    | @closed inside behind split even first =>
      rcases inside with - | ⟨c, - | ⟨d, - | ⟨e, inside⟩⟩⟩
      · simp at split
      · obtain ⟨rfl, -⟩ := List.cons.inj split
        exact absurd even (by decide)
      · cases split
        exact ⟨rfl, rfl⟩
      · simp at split
  obtain ⟨quote, held, units, holds⟩ := values _ member rfl
  have chars : _ = quote :: (held ++ [quote]) := Except.ok.inj holds.chars
  obtain ⟨rfl, same⟩ := List.cons.inj chars
  obtain rfl : ['\\', '\"'] = held := (List.append_inj' same rfl).1
  obtain rfl : [['\\', '\"']] = units :=
    holds.unique [['\\', '\"']] (by simpa using IsUnit.escape '\"') rfl
  exact ⟨tokens, reports, _, lexed, member, rfl, rfl, holds, holds.value⟩

end Offside
