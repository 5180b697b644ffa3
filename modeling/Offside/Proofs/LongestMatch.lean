import Offside.Proofs.Grammar
import Offside.Proofs.Scans

/-!
# Longest match

Inside a line the next token covers the longest text ahead that belongs to a language of the
lexical grammar.  Only if there is none, the token is an error.
-/

namespace Offside

open Text

/-- `text` is cut from what is ahead as a token of a kind, by longest match. -/
inductive Munch (ahead : List Char) : (text : List Char) → Kind → Prop where
  | longest {text : List Char} {kind : Kind} (begins : text <+: ahead) (spells : Spells text kind)
      (longest : ∀ other kind, other <+: ahead → Spells other kind → other.length ≤ text.length) :
      Munch ahead text kind
  /-- A string literal that is not closed covers all that is ahead. -/
  | unclosed {c : Char} (head : ahead.head? = some c) (isQuote : IsQuote c)
      (nothing : ∀ other kind, other <+: ahead → ¬ Spells other kind) : Munch ahead ahead .error
  /-- Any other text that belongs to no language is cut one character at a time. -/
  | stray {c : Char} (head : ahead.head? = some c) (notQuote : ¬ IsQuote c)
      (nothing : ∀ other kind, other <+: ahead → ¬ Spells other kind) : Munch ahead [c] .error

/-! ## Runs of characters -/

theorem length_le_takeWhile {accepts : Char → Bool} {other ahead : List Char}
    (begins : other <+: ahead) (accepted : ∀ c ∈ other, accepts c = true) :
    other.length ≤ (ahead.takeWhile accepts).length := by
  obtain ⟨more, rfl⟩ := begins
  rw [List.takeWhile_append_of_pos accepted, List.length_append]
  exact Nat.le_add_right ..

theorem Spells.begins_of_prefix {c : Char} {other rest : List Char} {kind : Kind}
    (begins : other <+: c :: rest) (spells : Spells other kind) : Begins c other := by
  cases other with
  | nil => exact absurd spells not_spells_nil
  | cons first others =>
    obtain ⟨rfl, -⟩ := List.cons_prefix_cons.1 begins
    exact spells.begins

theorem munch_name {c : Char} {rest : List Char} (notDigit : isDigit c = false)
    (start : isNameStart c = true) :
    Munch (c :: rest) ((c :: rest).takeWhile isNamePart)
      (Lexeme.nameKind ((c :: rest).takeWhile isNamePart)) := by
  refine .longest (List.takeWhile_prefix _) (spells_nameKind ?_) fun other kind begins spells => ?_
  · exact ⟨c, rest.takeWhile isNamePart, by simp [isNamePart_of_isNameStart start], start,
      fun _ => List.mem_takeWhile_imp⟩
  · have isName := spells.begins_of_prefix begins
    simp only [Begins, notDigit, start, Bool.false_eq_true, if_false, if_true] at isName
    obtain ⟨first, others, rfl, start, parts⟩ := isName
    refine length_le_takeWhile begins (List.forall_mem_cons.2 ⟨?_, parts⟩)
    exact isNamePart_of_isNameStart start

/-! ## Numerals -/

theorem isDigits_iff {text : List Char} :
    Number.isDigits text = true ↔ text ≠ [] ∧ ∀ c ∈ text, isDigit c = true := by
  simp [Number.isDigits]

theorem isDigits_takeWhile {text : List Char} (nonempty : text.takeWhile isDigit ≠ []) :
    Number.isDigits (text.takeWhile isDigit) = true :=
  isDigits_iff.2 ⟨nonempty, fun _ => List.mem_takeWhile_imp⟩

theorem fractionAhead_eq {text : List Char} (found : fractionAhead text ≠ []) :
    ∃ digits more, text = '.' :: (digits ++ more) ∧ fractionAhead text = '.' :: digits ∧
      Number.isDigits digits = true := by
  simp only [fractionAhead] at found ⊢
  split at found
  next rest =>
    split at found
    next => exact absurd rfl found
    next nonempty =>
      exact ⟨_, _, by rw [List.takeWhile_append_dropWhile], if_neg nonempty,
        isDigits_takeWhile nonempty⟩
  next => exact absurd rfl found

theorem fractionAhead_of_isFloat {other text : List Char} (isFloat : IsFloat other)
    (begins : other <+: text) :
    fractionAhead (text.dropWhile isDigit) ≠ [] ∧
      other.length ≤
        (text.takeWhile isDigit ++ fractionAhead (text.dropWhile isDigit)).length := by
  obtain ⟨whole, fraction, rfl, wholeDigits, fractionDigits⟩ := isFloat
  obtain ⟨more, rfl⟩ := begins
  obtain ⟨-, digits⟩ := isDigits_iff.1 wholeDigits
  obtain ⟨nonempty, others⟩ := isDigits_iff.1 fractionDigits
  rw [List.append_assoc, List.takeWhile_append_of_pos digits, List.dropWhile_append_of_pos digits]
  have point : isDigit '.' = false := rfl
  simp [point, fractionAhead, List.takeWhile_append_of_pos others, nonempty]

theorem spells_ofDigits {digits : List Char} (isDigits : Number.isDigits digits = true) :
    ∃ kind, (Piece.ofDigits digits).kind = some kind ∧ Spells digits kind := by
  rw [Piece.ofDigits]
  rw [Number.int64?_of_isDigits isDigits]
  by_cases inRange : (Number.digitsValue digits : Int) ≤ Number.maxInt64
  · rw [if_pos inRange]
    have small : Number.digitsValue digits ≤ 2 ^ 63 - 1 := by
      simp only [Number.maxInt64] at inRange
      omega
    exact ⟨_, rfl, .integer isDigits small⟩
  · rw [if_neg inRange]
    have large : 2 ^ 63 - 1 < Number.digitsValue digits := by
      simp only [Number.maxInt64] at inRange
      omega
    exact ⟨_, rfl, .tooLarge isDigits large⟩

theorem munch_number {c : Char} {rest : List Char} (digit : isDigit c = true) :
    ∃ kind, (Piece.numberAhead (c :: rest)).kind = some kind ∧
      Munch (c :: rest) (Piece.numberAhead (c :: rest)).text kind := by
  have whole := List.takeWhile_append_dropWhile (p := isDigit) (l := c :: rest)
  have isDigits : Number.isDigits ((c :: rest).takeWhile isDigit) = true :=
    isDigits_takeWhile (by simp [digit])
  have languages : ∀ other kind, other <+: c :: rest → Spells other kind →
      Number.isDigits other = true ∨ IsFloat other := by
    intro other kind begins spells
    simpa only [Begins, digit, if_true] using spells.begins_of_prefix begins
  rw [Piece.numberAhead]
  by_cases none : fractionAhead ((c :: rest).dropWhile isDigit) = []
  · simp only [none, if_true]
    obtain ⟨kind, isKind, spells⟩ := spells_ofDigits isDigits
    refine ⟨kind, isKind, ?_⟩
    rw [Piece.text_ofDigits]
    refine .longest (List.takeWhile_prefix _) spells ?_
    intro other kind begins spelled
    rcases languages other kind begins spelled with run | isFloat
    · exact length_le_takeWhile begins (isDigits_iff.1 run).2
    · exact absurd none (fractionAhead_of_isFloat isFloat begins).1
  · simp only [none, if_false]
    obtain ⟨digits, more, behind, fraction, fractionDigits⟩ := fractionAhead_eq none
    refine ⟨.float, rfl, .longest ⟨more, ?_⟩ (.float ?_) fun other kind begins spelled => ?_⟩
    · rw [behind] at whole
      rw [Piece.cut, fraction, List.append_assoc]
      exact whole
    · exact ⟨_, digits, by rw [Piece.cut, fraction], isDigits, fractionDigits⟩
    · rcases languages other kind begins spelled with run | isFloat
      · have shorter := length_le_takeWhile begins (isDigits_iff.1 run).2
        simp only [Piece.cut, List.length_append]
        omega
      · exact (fractionAhead_of_isFloat isFloat begins).2

/-! ## String literals -/

theorem closing?_of_units {quote : Char} {units : List Char} (notBackslash : quote ≠ '\\')
    (isUnits : Units quote units) (seen : Nat) (rest : List Char) :
    Lexeme.closing? quote false seen (units ++ quote :: rest) = some (seen + units.length + 1) := by
  induction isUnits generalizing seen with
  | nil => simp [Lexeme.closing?, notBackslash]
  | plain plain notQuote _ ih =>
    simp only [List.cons_append, Lexeme.closing?, plain, notQuote, if_false, Bool.false_eq_true]
    rw [ih]
    simp
    omega
  | escaped _ ih =>
    simp only [List.cons_append, Lexeme.closing?, if_true, Bool.false_eq_true, if_false]
    rw [ih]
    simp
    omega

/-- What stands in front of a closing quote that was found are units; a backslash right in front of
the text belongs to them. -/
theorem units_of_closing? {quote : Char} {escaped : Bool} {seen count : Nat} {text : List Char}
    (found : Lexeme.closing? quote escaped seen text = some count) :
    ∃ units rest, text = units ++ quote :: rest ∧ count = seen + units.length + 1 ∧
      Units quote (if escaped then '\\' :: units else units) := by
  fun_induction Lexeme.closing? quote escaped seen text with
  | case1 => cases found
  | case2 seen c rest ih =>
    obtain ⟨units, more, rfl, rfl, isUnits⟩ := ih found
    exact ⟨c :: units, more, rfl, by simp; omega, .escaped isUnits⟩
  | case3 escaped seen rest plain ih =>
    obtain ⟨units, more, rfl, rfl, isUnits⟩ := ih found
    exact ⟨'\\' :: units, more, rfl, by simp; omega, by rwa [if_neg plain]⟩
  | case4 escaped seen rest plain notBackslash =>
    exact ⟨[], rest, rfl, (Option.some.inj found).symm, by rw [if_neg plain]; exact .nil⟩
  | case5 escaped seen c rest plain notBackslash notQuote ih =>
    obtain ⟨units, more, rfl, rfl, isUnits⟩ := ih found
    exact ⟨c :: units, more, rfl, by simp; omega,
      by rw [if_neg plain]; exact .plain notBackslash notQuote isUnits⟩

theorem closing?_of_isLiteral {c : Char} {other rest : List Char} (isLiteral : IsLiteral other)
    (begins : other <+: c :: rest) :
    ∃ count, Lexeme.closing? c false 0 rest = some count ∧ other.length = count + 1 := by
  obtain ⟨quote, units, rfl, isQuote, isUnits⟩ := isLiteral
  have notBackslash : quote ≠ '\\' := by rcases isQuote with rfl | rfl <;> decide
  obtain ⟨rfl, more, rfl⟩ := List.cons_prefix_cons.1 begins
  have found := closing?_of_units notBackslash isUnits 0 more
  exact ⟨_, by rwa [List.append_assoc], by simp⟩

theorem munch_string {c : Char} {rest : List Char} (isQuote : IsQuote c) :
    ∃ kind, (Piece.stringAhead c rest).kind = some kind ∧
      Munch (c :: rest) (Piece.stringAhead c rest).text kind := by
  have literals : ∀ other kind, other <+: c :: rest → Spells other kind → IsLiteral other := by
    intro other kind begins spells
    simpa [Begins, not_begins_of_isQuote isQuote, isQuote] using spells.begins_of_prefix begins
  rw [Piece.stringAhead]
  cases found : Lexeme.closing? c false 0 rest with
  | some count =>
    obtain ⟨units, more, rfl, rfl, isUnits⟩ := units_of_closing? found
    have covered : (units ++ c :: more).take (0 + units.length + 1) = units ++ [c] := by
      rw [List.append_cons]
      exact List.take_left' (by simp)
    simp only [covered]
    refine ⟨.string, rfl, .longest ⟨more, by simp [Piece.cut]⟩
      (.string ⟨c, units, rfl, isQuote, isUnits⟩) fun other kind begins spells => ?_⟩
    obtain ⟨count, again, length⟩ :=
      closing?_of_isLiteral (literals other kind begins spells) begins
    rw [found] at again
    cases again
    simp [length, Piece.cut]
  | none =>
    refine ⟨.error, rfl, .unclosed rfl isQuote fun other kind begins spells => ?_⟩
    obtain ⟨count, again, -⟩ := closing?_of_isLiteral (literals other kind begins spells) begins
    rw [found] at again
    cases again

/-! ## Operators -/

theorem byLength_sorted :
    Operator.byLength.Pairwise fun a b => b.chars.length ≤ a.chars.length := by
  decide

theorem munch_operator {c : Char} {rest : List Char} (notDigit : isDigit c = false)
    (notName : isNameStart c = false) (notQuote : ¬ IsQuote c) :
    ∃ kind, (Piece.operatorAhead c rest).kind = some kind ∧
      Munch (c :: rest) (Piece.operatorAhead c rest).text kind := by
  have marks : ∀ other kind, other <+: c :: rest → Spells other kind →
      ∃ mark : Operator, other = mark.chars := by
    intro other kind begins spells
    simpa [Begins, notDigit, notName, notQuote] using spells.begins_of_prefix begins
  rw [Piece.operatorAhead]
  cases found : Operator.byLength.find? fun mark => mark.chars.isPrefixOf (c :: rest) with
  | some mark =>
    obtain ⟨holds, longer, shorter, split, tried⟩ := List.find?_eq_some_iff_append.1 found
    refine ⟨_, rfl, .longest (List.isPrefixOf_iff_prefix.1 holds) (.operator rfl) ?_⟩
    intro other kind begins spells
    obtain ⟨another, rfl⟩ := marks other kind begins spells
    have listed := another.mem_byLength
    have sorted := byLength_sorted
    rw [split] at listed sorted
    -- Those tried before are not ahead, and those behind the one found are not longer.
    rcases List.mem_append.1 listed with before | behind
    · have refused := tried another before
      simp [List.isPrefixOf_iff_prefix.2 begins] at refused
    · rcases List.mem_cons.1 behind with rfl | behind
      · exact le_rfl
      · exact (List.pairwise_cons.1 (List.pairwise_append.1 sorted).2.1).1 another behind
  | none =>
    refine ⟨.error, rfl, .stray rfl notQuote fun other kind begins spells => ?_⟩
    obtain ⟨mark, rfl⟩ := marks other kind begins spells
    have refused := List.find?_eq_none.1 found mark mark.mem_byLength
    exact refused (List.isPrefixOf_iff_prefix.2 begins)

/-! ## Inside a line -/

theorem munch_ahead {c : Char} {rest : List Char} (notBlank : isBlank c = false)
    (notComment : c ≠ '#') (notContinued : ¬ (c = '\\' ∧ rest.head?.any isBreak)) :
    ∃ kind, (Piece.ahead c rest).kind = some kind ∧
      Munch (c :: rest) (Piece.ahead c rest).text kind := by
  rw [Piece.ahead]
  rw [if_neg notComment, if_neg notContinued, if_neg (by simp [notBlank])]
  by_cases digit : isDigit c = true
  · rw [if_pos digit]
    exact munch_number digit
  rw [if_neg digit]
  rw [Bool.not_eq_true] at digit
  by_cases start : isNameStart c = true
  · rw [if_pos start]
    exact ⟨_, rfl, munch_name digit start⟩
  rw [if_neg start]
  rw [Bool.not_eq_true] at start
  by_cases quote : c = '\"' ∨ c = '\''
  · rw [if_pos quote]
    exact munch_string quote
  · rw [if_neg quote]
    exact munch_operator digit start quote

theorem Munch.begins {ahead text : List Char} {kind : Kind} (munch : Munch ahead text kind) :
    text <+: ahead := by
  cases munch with
  | longest begins => exact begins
  | unclosed => exact List.prefix_rfl
  | stray head =>
    obtain ⟨rest, rfl⟩ := List.head?_eq_some_iff.1 head
    exact ⟨rest, rfl⟩

/-- What is cut belongs to a language only as a token of the kind it is cut as. -/
theorem Munch.unique {ahead text : List Char} {kind other : Kind} (munch : Munch ahead text kind)
    (spells : Spells text other) : other = kind := by
  cases munch with
  | longest _ again => exact spells.unique again
  | unclosed _ _ nothing => exact absurd spells (nothing _ _ List.prefix_rfl)
  | stray head _ nothing =>
    obtain ⟨rest, rfl⟩ := List.head?_eq_some_iff.1 head
    exact absurd spells (nothing _ _ ⟨rest, rfl⟩)

/-- Wherever a scan gets to inside a line, in front of a character that begins neither whitespace
nor a comment nor a continued line, the next step cuts one token.  It begins right there and is cut
by longest match, and the next call hands it out unless other tokens wait. -/
theorem Lexer.Visits.cuts_longest {source : Source} {taken : List Token} {lexer : Lexer} {c : Char}
    {rest : List Char} (visits : Visits source taken lexer) (inLine : lexer.mode = .inLine)
    (ahead : lexer.reader.point.rest = c :: rest) (notBlank : isBlank c = false)
    (notComment : c ≠ '#') (notContinued : ¬ (c = '\\' ∧ rest.head?.any isBreak)) :
    ∃ front text token after report, source.chars = front ++ c :: rest ∧
      Munch (c :: rest) text token.kind ∧ (∀ kind, Spells text kind → kind = token.kind) ∧
      token.span = ⟨width front, width (front ++ text), source⟩ ∧
      lexer.step = .ok (after, report) ∧
      after.reader.queue = lexer.reader.queue ++ [token] ∧
      ∀ {σ : Type} (sink : Sink Diagnostic σ) (state : σ), sink.NeverFails →
        lexer.reader.queue = [] →
        ∃ further final, lexer.next sink state = .ok (some token, further, final) := by
  obtain ⟨pieces, along⟩ := visits.along
  obtain ⟨front, content, point⟩ := along.clear.placed
  obtain ⟨after, report, stepped, follows⟩ := step_follows along.clear
  obtain ⟨kind, isKind, munch⟩ := munch_ahead notBlank notComment notContinued
  have notBreak : isBreak c = false := by
    cases isBreak : isBreak c with
    | true => simp [isBlank_of_isBreak isBreak] at notBlank
    | false => rfl
  have stride : lexer.prospect.stride.pieces = [.ahead c rest] := by
    simp [prospect, Prospect.stride, inLine, ahead, Stride.inLine, notBreak]
  have same : lexer.reader.source = source := along.sameSource
  have queue : after.reader.queue = lexer.reader.queue ++
      [⟨kind, ⟨width front, width (front ++ (Piece.ahead c rest).text), source⟩,
        lexer.reader.point.line⟩] := by
    obtain ⟨behind, split⟩ := munch.begins
    rw [follows.takes.queue, stride, Piece.tokens_singleton, Piece.token?, isKind, same, point,
      ahead, ← split, Piece.span_between]
    rfl
  have pulled : ∀ {σ : Type} (sink : Sink Diagnostic σ) (state : σ), sink.NeverFails →
      lexer.reader.queue = [] → ∃ further final, lexer.next sink state =
        .ok (some ⟨kind, ⟨width front, width (front ++ (Piece.ahead c rest).text), source⟩,
          lexer.reader.point.line⟩, further, final) := by
    intro σ sink state never empty
    rw [empty, List.nil_append] at queue
    obtain ⟨final, received⟩ := never.receiveAll state report.toList
    have first := next_of_step sink state empty (by simp [inLine]) stepped
    rw [deliver_eq, received] at first
    exact ⟨_, final, first.trans (next_of_queue sink final queue)⟩
  exact ⟨front, _, _, after, report, by rw [← same, content, ahead], munch, fun _ => munch.unique,
    rfl, stepped, queue, pulled⟩

/-- A scan of two numerals with a range between them, in front of the first one. -/
theorem Lexer.Visits.cuts_longest_range :
    Visits ⟨0, "", "", ['1', '.', '.', '2'], #[]⟩ []
        ⟨.ofSource ⟨0, "", "", ['1', '.', '.', '2'], #[]⟩, .empty, .inLine, false⟩ ∧
      ∃ text token after report, Munch ['1', '.', '.', '2'] text token.kind ∧
        Lexer.step ⟨.ofSource ⟨0, "", "", ['1', '.', '.', '2'], #[]⟩, .empty, .inLine, false⟩ =
          .ok (after, report) ∧
        after.reader.queue = [token] ∧ token.span.start = 0 := by
  have visits : Visits ⟨0, "", "", ['1', '.', '.', '2'], #[]⟩ []
      ⟨.ofSource ⟨0, "", "", ['1', '.', '.', '2'], #[]⟩, .empty, .inLine, false⟩ :=
    .step .start rfl (by decide) rfl
  obtain ⟨front, text, token, after, report, content, munch, -, span, stepped, queue, -⟩ :=
    cuts_longest visits rfl rfl rfl (by decide) (by decide)
  obtain rfl : front = [] := List.self_eq_append_left.1 content
  exact ⟨visits, text, token, after, report, munch, stepped, queue, by rw [span]; rfl⟩

end Offside
