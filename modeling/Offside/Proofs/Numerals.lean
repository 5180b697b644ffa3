import Mathlib.Data.Nat.Digits.Defs
import Offside.Proofs.Insertions
import Offside.Proofs.Rounding

/-!
# Numerals

A run of digits that a scan meets inside a line is one token: with a point and digits behind it a
floating-point literal of any size, and else an integer literal or, beyond the range of signed
64-bit integers, an error.  A point with no digit behind it is left to what comes next.  The value
of a literal is that of its digits, however many zeros they begin with.
-/

namespace Offside

open Text

/-! ## Values -/

namespace Number

/-- The number that decimal digits stand for, the most significant one first. -/
def decimal (digits : List Char) : Nat := Nat.ofDigits 10 (digits.reverse.map digitValue)

theorem digitsValue_eq_decimal (digits : List Char) : digitsValue digits = decimal digits := by
  induction digits using List.reverseRecOn with
  | nil => rfl
  | append_singleton digits c ih =>
    rw [digitsValue_concat, ih, decimal, decimal, List.reverse_concat, List.map_cons,
      Nat.ofDigits_cons, Nat.add_comm]

theorem splitSign_of_isDigit {c : Char} (rest : List Char) (digit : isDigit c = true) :
    splitSign (c :: rest) = (false, c :: rest) := by
  rw [splitSign]
  · rintro rest ⟨rfl, -⟩
    cases digit
  · rintro rest ⟨rfl, -⟩
    cases digit

theorem toLower_of_isDigit {c : Char} (digit : isDigit c = true) :
    c.toLower ≠ 'i' ∧ c.toLower ≠ 'n' := by
  have all : ∀ n ∈ List.range' 48 10,
      (Char.ofNat n).toLower ≠ 'i' ∧ (Char.ofNat n).toLower ≠ 'n' := by
    decide
  obtain ⟨low, high⟩ := toNat_of_isDigit digit
  rw [← Char.ofNat_toNat c]
  exact all _ (by simp only [List.mem_range'_1]; omega)

theorem magnitudeBits?_of_isDigit {c : Char} (rest : List Char) (digit : isDigit c = true) :
    magnitudeBits? (c :: rest) =
      (scientific? (c :: rest)).map fun s => decimalBits s.mantissa s.exponent := by
  obtain ⟨notInfinite, notMissing⟩ := toLower_of_isDigit digit
  simp [magnitudeBits?, notInfinite, notMissing]

theorem scientific?_of_isDigits {whole fraction : List Char} (wholeDigits : isDigits whole = true)
    (fractionDigits : isDigits fraction = true) :
    scientific? (whole ++ '.' :: fraction) =
      some ⟨digitsValue (whole ++ fraction), -fraction.length⟩ := by
  obtain ⟨nonempty, digits⟩ := isDigits_iff.1 wholeDigits
  obtain ⟨taken, left⟩ := @span_exact _ isDigit whole ('.' :: fraction) digits (by simp; rfl)
  obtain ⟨all, nothing⟩ :=
    @span_exact _ isDigit fraction [] (isDigits_iff.1 fractionDigits).2 (by simp)
  rw [List.append_nil] at all nothing
  simp [scientific?, taken, left, fractionPart, all, nothing, nonempty, exponentPart?]

theorem floatBits?_of_isDigits {whole fraction : List Char} (wholeDigits : isDigits whole = true)
    (fractionDigits : isDigits fraction = true) :
    floatBits? (whole ++ '.' :: fraction) =
      some (UInt64.ofNat (decimalBits (decimal (whole ++ fraction)) (-fraction.length))) := by
  have scientific := scientific?_of_isDigits wholeDigits fractionDigits
  obtain ⟨c, rest, rfl⟩ := List.exists_cons_of_ne_nil (isDigits_iff.1 wholeDigits).1
  have digit := isDigit_of_isDigits wholeDigits
  rw [List.cons_append] at scientific ⊢
  rw [floatBits?, splitSign_of_isDigit _ digit]
  simp [magnitudeBits?_of_isDigit _ digit, scientific, digitsValue_eq_decimal]

/-- A fraction divides by a power of ten, and the quotient is rounded once. -/
theorem exists_nearest_of_isDigits {whole fraction : List Char} (wholeDigits : isDigits whole = true)
    (fractionDigits : isDigits fraction = true) :
    ∃ bits, floatBits? (whole ++ '.' :: fraction) = some (UInt64.ofNat bits) ∧
      Nearest (decimal (whole ++ fraction) / 10 ^ fraction.length) bits := by
  refine ⟨_, floatBits?_of_isDigits wholeDigits fractionDigits, ?_⟩
  have nearest := nearest_decimalBits (decimal (whole ++ fraction)) (-fraction.length)
  rwa [zpow_neg, zpow_natCast, ← div_eq_mul_inv] at nearest

theorem int64?_eq_decimal {digits : List Char} (isDigits : isDigits digits = true) :
    int64? digits =
      if decimal digits ≤ 2 ^ 63 - 1 then some (decimal digits : Int) else none := by
  rw [int64?_of_isDigits isDigits, digitsValue_eq_decimal]
  refine if_congr ?_ rfl rfl
  rw [maxInt64]
  omega

end Number

/-! ## One token -/

namespace Piece

theorem stop_le (source : Source) (front rest : List Char) (pieces : List Piece) :
    (∀ token ∈ tokens source (.between front (texts pieces ++ rest)) pieces,
      token.span.stop ≤ width (front ++ texts pieces)) ∧
    ∀ report ∈ reports source (.between front (texts pieces ++ rest)) pieces,
      report.span.stop ≤ width (front ++ texts pieces) := by
  have within (before : List Piece) (piece : Piece) (after : List Piece) :
      (piece.span source ((Point.between front (texts (before ++ piece :: after) ++ rest)).advance
        (texts before).length)).stop ≤ width (front ++ texts (before ++ piece :: after)) := by
    rw [texts_append, List.append_assoc, Point.advance_between, texts_cons, List.append_assoc,
      span_between]
    simp only [width_append]
    omega
  constructor
  · intro token member
    obtain ⟨xs, ys, split⟩ := List.append_of_mem member
    obtain ⟨before, piece, after, rfl, isToken, -⟩ := split_of_tokens split
    rw [(eq_of_token? isToken).2.1]
    exact within before piece after
  · intro report member
    obtain ⟨xs, ys, split⟩ := List.append_of_mem member
    obtain ⟨before, piece, after, rfl, reported, -⟩ := split_of_reports split
    rw [span_report? reported]
    exact within before piece after

end Piece

namespace Lexer

/-- A lexer cuts the text ahead of it in one step as one token, and goes on in front of `rest` with
nothing held.  Of all tokens and diagnostics of the source this token, and what the step reports,
are the only ones that cover any of the text. -/
structure Cuts (source : Source) (tokens : List Token) (reports : List Diagnostic) (lexer : Lexer)
    (text rest : List Char) (token : Token) (report : Option Diagnostic) : Prop where
  placed : ∃ front, source.chars = front ++ (text ++ rest) ∧
    lexer.reader.point = .between front (text ++ rest) ∧
    token.span = ⟨width front, width (front ++ text), source⟩
  line : token.line = lexer.reader.point.line
  stepped : ∃ after, lexer.step = .ok (after, report) ∧ after.mode = .inLine ∧
    after.reader.queue = lexer.reader.queue ++ [token] ∧
    after.reader.point = lexer.reader.point.advance text.length ∧
    after.reader.point.rest = rest ∧ after.reader.start = after.reader.point
  alone : ∃ before behind, tokens = before ++ token :: behind ∧
    (∀ other ∈ before, other.span.stop ≤ token.span.start) ∧
    ∀ other ∈ behind, token.span.stop ≤ other.span.start
  reported : ∃ earlier later, reports = earlier ++ (report.toList ++ later) ∧
    (∀ other ∈ earlier, other.span.stop ≤ token.span.start) ∧
    ∀ other ∈ later, token.span.stop ≤ other.span.start

variable {source : Source} {taken tokens : List Token} {reports : List Diagnostic} {lexer : Lexer}
  {before : List Piece} {piece : Piece} {rest : List Char} {token : Token}

theorem Along.step_piece (along : lexer.Along source taken before)
    (moves : lexer.prospect.Moves [piece]
      ⟨rest, lexer.blocks, .inLine, piece.kind.or lexer.reader.lastCut⟩)
    (isToken : piece.token? source lexer.reader.point = some token) :
    ∃ after, lexer.step = .ok (after, piece.report? source lexer.reader.point) ∧
      after.mode = .inLine ∧ after.reader.queue = lexer.reader.queue ++ [token] ∧
      after.reader.point = lexer.reader.point.advance piece.text.length ∧
      after.reader.point.rest = rest ∧ after.reader.start = after.reader.point := by
  obtain ⟨after, report, stepped, follows⟩ := step_follows along.clear
  obtain ⟨strides, leads⟩ := moves.eq
  have sameSource : lexer.reader.source = source := along.sameSource
  have queue := follows.takes.queue
  have reported := follows.report
  rw [strides, sameSource, Piece.tokens_singleton, isToken] at queue
  rw [strides, sameSource, Piece.reports_singleton] at reported
  obtain rfl : report = piece.report? source lexer.reader.point := by
    simpa using congrArg List.head? reported
  have point := follows.takes.point
  rw [strides, Piece.texts_cons, Piece.texts_nil, List.append_nil] at point
  have there := follows.prospect.trans leads
  exact ⟨after, stepped, congrArg Prospect.mode there, queue, point, congrArg Prospect.text there,
    follows.takes.start⟩

/-- Inside a line a piece that is ahead is cut as its token. -/
theorem Visits.cuts (visits : Visits source taken lexer)
    (lexed : source.lex = .ok (tokens, reports)) (inLine : lexer.mode = .inLine)
    (ahead : lexer.reader.point.rest = piece.text ++ rest) (precedes : piece.Precedes rest)
    (isToken : piece.token? source lexer.reader.point = some token) :
    token.chars = .ok piece.text ∧ lexer.Cuts source tokens reports piece.text rest token
      (piece.report? source lexer.reader.point) := by
  obtain ⟨before, along⟩ := visits.along
  obtain ⟨further, onward⟩ := exists_runs along.clear
  have moves := @Prospect.Moves.lexeme _ _ lexer.blocks lexer.reader.lastCut precedes
  have here : lexer.prospect =
      ⟨piece.text ++ rest, lexer.blocks, .inLine, lexer.reader.lastCut⟩ := by
    rw [prospect, ahead, inLine]
  rw [← here] at moves
  have trail := along.trail
  have whole : lexer.prospect.text = piece.text ++ rest := ahead
  have content : source.chars = Piece.texts before ++ lexer.prospect.text := trail.text_eq
  have point := along.point
  rw [trail.advance_origin, whole] at point
  rw [whole] at content
  obtain ⟨after, rfl, behind⟩ := moves.split_runs (by simp [here]) onward
  obtain rfl : Piece.texts after = rest := behind.texts_eq (by simp [Prospect.Sound])
  -- The tokens and diagnostics of the source are those in front of the piece, its own, and those
  -- behind it.
  have all := source.lex_eq (onward.behind trail)
  rw [lexed, Piece.tokens_append, Piece.reports_append, trail.advance_origin, whole,
    List.singleton_append, Piece.tokens_between_cons, Piece.reports_between_cons, ← point,
    isToken] at all
  obtain ⟨rfl, rfl⟩ := Prod.mk.inj (Except.ok.inj all)
  have inFront := Piece.stop_le source [] (piece.text ++ Piece.texts after) before
  rw [List.nil_append, ← content, ← Point.origin_eq_between] at inFront
  have atBack := Piece.allStart_behind source (Piece.texts before ++ piece.text) [] after
  rw [List.append_nil] at atBack
  obtain ⟨-, span, line⟩ := Piece.eq_of_token? isToken
  have chars := Piece.chars_span content
  rw [← point, ← span] at chars
  rw [point, Piece.span_between] at span
  have start : width (Piece.texts before) = token.span.start := by rw [span]
  have stop : width (Piece.texts before ++ piece.text) = token.span.stop := by rw [span]
  rw [start] at inFront
  rw [stop] at atBack
  exact ⟨chars, ⟨_, content, point, span⟩, line, along.step_piece moves isToken,
    ⟨_, _, rfl, inFront.1, atBack.1⟩, _, _, rfl, inFront.2, atBack.2⟩

end Lexer

/-! ## Values of tokens -/

namespace Token

variable {token : Token} {text : List Char}

theorem integer?_of_spells (chars : token.chars = .ok text) (spells : Spells text .integer)
    (isInteger : token.kind = .integer) :
    token.integer? = .ok (some (Number.decimal text : Int)) := by
  cases spells with
  | integer isDigits inRange =>
    rw [Number.digitsValue_eq_decimal] at inRange
    rw [integer?, if_pos isInteger, chars, Except.map, Number.int64?_eq_decimal isDigits,
      if_pos inRange]

theorem float?_of_isDigits {whole fraction : List Char}
    (chars : token.chars = .ok (whole ++ '.' :: fraction))
    (wholeDigits : Number.isDigits whole = true) (fractionDigits : Number.isDigits fraction = true)
    (isFloat : token.kind = .float) :
    token.float? = .ok (some (Float.ofBits (UInt64.ofNat
      (Number.decimalBits (Number.decimal (whole ++ fraction)) (-fraction.length))))) := by
  rw [float?, if_pos isFloat, chars, Except.map, Number.float?,
    Number.floatBits?_of_isDigits wholeDigits fractionDigits]
  rfl

/-- Only an integer literal has an integer value, and only a floating-point literal has a
floating-point value. -/
structure Valued (token : Token) : Prop where
  integer : ∃ value, token.integer? = .ok value ∧ (value.isSome = true ↔ token.kind = .integer)
  float : ∃ value, token.float? = .ok value ∧ (value.isSome = true ↔ token.kind = .float)

end Token

theorem Prospect.Runs.valued {source : Source} {pieces : List Piece}
    (runs : (Prospect.start source.chars).Runs pieces) {token : Token}
    (member : token ∈ Piece.tokens source (.origin source.chars) pieces) : token.Valued where
  integer := by
    by_cases isInteger : token.kind = .integer
    · obtain ⟨text, chars, spells⟩ :=
        runs.spells member (by rw [isInteger]; rfl) (by simp [isInteger])
      rw [isInteger] at spells
      exact ⟨_, Token.integer?_of_spells chars spells isInteger, by simp [isInteger]⟩
    · exact ⟨none, if_neg isInteger, by simp [isInteger]⟩
  float := by
    by_cases isFloat : token.kind = .float
    · obtain ⟨text, chars, spells⟩ := runs.spells member (by rw [isFloat]; rfl) (by simp [isFloat])
      rw [isFloat] at spells
      cases spells with
      | float digits =>
        obtain ⟨whole, fraction, rfl, wholeDigits, fractionDigits⟩ := digits
        exact ⟨_, Token.float?_of_isDigits chars wholeDigits fractionDigits isFloat,
          by simp [isFloat]⟩
    · exact ⟨none, if_neg isFloat, by simp [isFloat]⟩

/-! ## Runs of digits -/

/-- What a run of digits in front of `behind` is read as, with the text left over and the diagnostic
that is reported. -/
inductive Numeral (digits behind : List Char) (token : Token) :
    (text rest : List Char) → Option Diagnostic → Prop where
  | float {fraction rest : List Char} (split : behind = '.' :: (fraction ++ rest))
      (isDigits : Number.isDigits fraction = true) (upTo : ∀ c ∈ rest.head?, isDigit c = false)
      (isFloat : token.kind = .float)
      (value : token.float? = .ok (some (Float.ofBits (UInt64.ofNat
        (Number.decimalBits (Number.decimal (digits ++ fraction)) (-fraction.length)))))) :
      Numeral digits behind token (digits ++ '.' :: fraction) rest none
  | integer (noFraction : ∀ c rest, behind = '.' :: c :: rest → isDigit c = false)
      (inRange : Number.decimal digits ≤ 2 ^ 63 - 1) (isInteger : token.kind = .integer)
      (value : token.integer? = .ok (some (Number.decimal digits : Int))) :
      Numeral digits behind token digits behind none
  | tooLarge (noFraction : ∀ c rest, behind = '.' :: c :: rest → isDigit c = false)
      (outOfRange : 2 ^ 63 - 1 < Number.decimal digits) (isError : token.kind = .error) :
      Numeral digits behind token digits behind (some (.integerTooLarge token.span token.line))

namespace Text

theorem fractionAhead_cases (behind : List Char) :
    (∃ fraction rest, behind = '.' :: (fraction ++ rest) ∧ Number.isDigits fraction = true ∧
      ∀ c ∈ rest.head?, isDigit c = false) ∨
    fractionAhead behind = [] ∧ ∀ c rest, behind = '.' :: c :: rest → isDigit c = false := by
  by_cases none : fractionAhead behind = []
  · refine .inr ⟨none, ?_⟩
    rintro c rest rfl
    cases digit : isDigit c with
    | true => simp [fractionAhead, digit] at none
    | false => rfl
  · simp only [fractionAhead] at none
    split at none
    next others =>
      have nonempty : others.takeWhile isDigit ≠ [] := fun nothing => none (if_pos nothing)
      exact .inl ⟨_, _, by rw [List.takeWhile_append_dropWhile], isDigits_takeWhile nonempty,
        head?_dropWhile _ _⟩
    next => exact absurd rfl none

end Text

namespace Piece

theorem ofDigits_eq {digits : List Char} (isDigits : Number.isDigits digits = true) :
    ofDigits digits =
      if Number.decimal digits ≤ 2 ^ 63 - 1 then cut .integer digits
      else flawed .tooLarge digits := by
  rw [ofDigits, Number.int64?_eq_decimal isDigits]
  split
  next => rfl
  next => rfl

/-- A run of digits that ends in front of `behind` begins a piece that is read as a numeral. -/
theorem exists_numeral (source : Source) (point : Point) {digits behind : List Char}
    (isDigits : Number.isDigits digits = true) (upTo : ∀ c ∈ behind.head?, isDigit c = false) :
    ∃ (piece : Piece) (rest : List Char) (token : Token), digits ++ behind = piece.text ++ rest ∧
      piece.Precedes rest ∧ piece.token? source point = some token ∧
      (token.chars = .ok piece.text →
        Numeral digits behind token piece.text rest (piece.report? source point)) := by
  rcases fractionAhead_cases behind with
    ⟨fraction, rest, split, fractionDigits, ended⟩ | ⟨none, noFraction⟩
  · have isFloat : IsFloat (digits ++ '.' :: fraction) := ⟨_, _, rfl, isDigits, fractionDigits⟩
    refine ⟨cut .float (digits ++ '.' :: fraction), rest, _, by simp [split, cut],
      .float isFloat ended, rfl, fun chars => ?_⟩
    exact .float split fractionDigits ended rfl
      (Token.float?_of_isDigits chars isDigits fractionDigits rfl)
  · have precedes := Precedes.digits isDigits upTo none
    rw [ofDigits_eq isDigits] at precedes
    by_cases inRange : Number.decimal digits ≤ 2 ^ 63 - 1
    · rw [if_pos inRange] at precedes
      refine ⟨cut .integer digits, behind, _, rfl, precedes, rfl, fun chars => ?_⟩
      have spells := Spells.integer isDigits (by rwa [Number.digitsValue_eq_decimal])
      exact .integer noFraction inRange rfl (Token.integer?_of_spells chars spells rfl)
    · rw [if_neg inRange] at precedes
      refine ⟨flawed .tooLarge digits, behind, _, rfl, precedes, rfl, fun _ => ?_⟩
      exact .tooLarge noFraction (Nat.lt_of_not_le inRange) rfl

end Piece

/-- Every run of digits that a scan meets inside a line is cut as one numeral, in one step that
leaves alone what it does not read.  In every scan the tokens with an integer value are the
integer literals, and those with a floating-point value are the floating-point literals. -/
theorem Source.lex_numerals (source : Source) :
    ∃ tokens reports, source.lex = .ok (tokens, reports) ∧
      (∀ taken lexer digits behind, Lexer.Visits source taken lexer → lexer.mode = .inLine →
        lexer.reader.point.rest = digits ++ behind → Number.isDigits digits = true →
        (∀ c ∈ behind.head?, isDigit c = false) →
        ∃ text rest token report, digits ++ behind = text ++ rest ∧
          Numeral digits behind token text rest report ∧
          lexer.Cuts source tokens reports text rest token report) ∧
      ∀ token ∈ tokens, token.Valued := by
  obtain ⟨pieces, runs⟩ := source.exists_runs
  have lexed := source.lex_eq runs
  refine ⟨_, _, lexed, ?_, fun token member => runs.valued member⟩
  intro taken lexer digits behind visits inLine ahead isDigits upTo
  obtain ⟨piece, rest, token, split, precedes, isToken, numeral⟩ :=
    Piece.exists_numeral source lexer.reader.point isDigits upTo
  obtain ⟨chars, cuts⟩ := visits.cuts lexed inLine (ahead.trans split) precedes isToken
  exact ⟨_, rest, token, _, split, numeral chars, cuts⟩

/-- Zeros in front do not count, and a point without a digit behind it is left over. -/
theorem Source.lex_numerals_zeros :
    ∃ tokens reports token,
      Source.lex ⟨0, "", "", ['0', '0', '7', '.', 'x'], #[]⟩ = .ok (tokens, reports) ∧
      token ∈ tokens ∧ token.kind = .integer ∧ token.integer? = .ok (some 7) ∧
      token.span = ⟨0, 3, ⟨0, "", "", ['0', '0', '7', '.', 'x'], #[]⟩⟩ := by
  obtain ⟨tokens, reports, lexed, numerals, -⟩ :=
    lex_numerals ⟨0, "", "", ['0', '0', '7', '.', 'x'], #[]⟩
  obtain ⟨text, rest, token, report, -, numeral, cuts⟩ :=
    numerals [] _ ['0', '0', '7'] ['.', 'x'] (.step .start rfl (by decide) rfl) rfl rfl (by decide)
      (by simp; rfl)
  obtain ⟨before, behind, rfl, -⟩ := cuts.alone
  refine ⟨_, reports, token, lexed, by simp, ?_⟩
  cases numeral with
  | integer noFraction inRange isInteger value =>
    obtain ⟨front, content, -, span⟩ := cuts.placed
    obtain rfl : front = [] := List.self_eq_append_left.1 content
    exact ⟨isInteger, value, span⟩
  | float split isDigits =>
    obtain ⟨c, others, rfl⟩ := List.exists_cons_of_ne_nil (isDigits_iff.1 isDigits).1
    obtain ⟨rfl, -⟩ := List.cons.inj (List.cons.inj split).2
    exact absurd (Number.isDigit_of_isDigits isDigits) (by decide)
  | tooLarge noFraction outOfRange => exact absurd outOfRange (by decide)

end Offside
