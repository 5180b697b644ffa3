import Offside.Proofs.HollowLines
import Offside.Proofs.LongestMatch

/-!
# Lexemes and what comes behind them

Inside a line, what is ahead begins with one piece, and the piece ends where it does because of what
comes behind it: a name in front of a character that no name goes on with, an operator where no
longer one fits.  So whether a text is a piece can be told from the text and from what it precedes.
-/

namespace Offside

namespace Text

theorem span_exact {α : Type} {accepts : α → Bool} {run rest : List α}
    (inside : ∀ c ∈ run, accepts c = true) (upTo : ∀ c ∈ rest.head?, accepts c = false) :
    (run ++ rest).takeWhile accepts = run ∧ (run ++ rest).dropWhile accepts = rest := by
  rw [List.takeWhile_append_of_pos inside, List.dropWhile_append_of_pos inside]
  cases rest with
  | nil => simp
  | cons c rest => simp [upTo c rfl]

theorem head?_dropWhile (accepts : Char → Bool) (text : List Char) :
    ∀ c ∈ (text.dropWhile accepts).head?, accepts c = false := by
  intro c head
  have behind := List.head?_dropWhile_not accepts text
  rw [head] at behind
  simpa using behind

theorem notBreak_of_notBlank {c : Char} (notBlank : isBlank c = false) : isBreak c = false := by
  cases isBreak : isBreak c with
  | true => simp [isBlank_of_isBreak isBreak] at notBlank
  | false => rfl

theorem ne_feed_of_notBreak {c : Char} (notBreak : isBreak c = false) : c ≠ '\n' := by
  rintro rfl
  cases notBreak

theorem isMargin_of_isBreak {c : Char} (isBreak : isBreak c = true) : isMargin c = false := by
  cases margin : isMargin c with
  | true => simp [not_isBreak_of_isMargin margin] at isBreak
  | false => rfl

theorem isNamePart_of_isDigit {c : Char} (digit : isDigit c = true) : isNamePart c = true := by
  have ascii : c.toNat < 128 := by
    have bounds := toNat_of_isDigit digit
    omega
  simp [isNamePart, isAlphanumeric, isNumeric, ascii, digit]

theorem isNamePart_of_isBlank {c : Char} (blank : isBlank c = true) : isNamePart c = false := by
  have all : ∀ n ∈ [0x20, 0x85, 0xa0, 0x1680, 0x2028, 0x2029, 0x202f, 0x205f, 0x3000] ++
      List.range' 0x09 5 ++ List.range' 0x2000 11, isNamePart (Char.ofNat n) = false := by
    decide +kernel
  rw [← Char.ofNat_toNat c]
  apply all
  simp only [isBlank, Bool.or_eq_true, Bool.and_eq_true, beq_iff_eq, decide_eq_true_eq] at blank
  simp only [List.mem_append, List.mem_cons, List.not_mem_nil, List.mem_range'_1]
  omega

theorem isBlank_of_isNamePart {c : Char} (part : isNamePart c = true) : isBlank c = false := by
  cases blank : isBlank c with
  | true => simp [isNamePart_of_isBlank blank] at part
  | false => rfl

theorem notBreak_of_isNamePart {c : Char} (part : isNamePart c = true) : isBreak c = false :=
  notBreak_of_notBlank (isBlank_of_isNamePart part)

/-! ## Open literals -/

/-- What a quote has behind it if none closes it: units, and perhaps a last backslash. -/
def IsOpen (quote : Char) (text : List Char) : Prop :=
  ∃ units, Units quote units ∧ (text = units ∨ text = units ++ ['\\'])

theorem closing?_units_append {quote : Char} {units : List Char} (isUnits : Units quote units)
    (seen : Nat) (rest : List Char) :
    Lexeme.closing? quote false seen (units ++ rest) =
      Lexeme.closing? quote false (seen + units.length) rest := by
  induction isUnits generalizing seen with
  | nil => rfl
  | plain notBackslash notQuote _ ih =>
    simp only [List.cons_append, Lexeme.closing?, notBackslash, notQuote, if_false,
      Bool.false_eq_true]
    rw [ih, List.length_cons, Nat.add_assoc, Nat.add_comm 1]
  | escaped _ ih =>
    simp only [List.cons_append, Lexeme.closing?, if_true, if_false, Bool.false_eq_true]
    rw [ih, List.length_cons, List.length_cons, Nat.add_assoc, Nat.add_assoc, Nat.add_assoc,
      Nat.add_comm 1, Nat.add_comm 1]

theorem isOpen_of_closing? {quote : Char} {escaped : Bool} {seen : Nat} {text : List Char}
    (missing : Lexeme.closing? quote escaped seen text = none) :
    IsOpen quote (if escaped then '\\' :: text else text) := by
  fun_induction Lexeme.closing? quote escaped seen text with
  | case1 escaped seen =>
    cases escaped with
    | true => exact ⟨[], .nil, .inr rfl⟩
    | false => exact ⟨[], .nil, .inl rfl⟩
  | case2 seen c rest ih =>
    obtain ⟨units, isUnits, split⟩ := ih missing
    refine ⟨'\\' :: c :: units, .escaped isUnits, ?_⟩
    rcases split with rfl | split
    · exact .inl rfl
    · exact .inr (by simpa using split)
  | case3 escaped seen rest plain ih =>
    rw [if_neg plain]
    exact ih missing
  | case4 => cases missing
  | case5 escaped seen c rest plain notBackslash notQuote ih =>
    rw [if_neg plain]
    obtain ⟨units, isUnits, split⟩ := ih missing
    refine ⟨c :: units, .plain notBackslash notQuote isUnits, ?_⟩
    rcases split with rfl | split
    · exact .inl rfl
    · exact .inr (by simpa using split)

theorem IsOpen.closing?_eq_none {quote : Char} {text : List Char} (isOpen : IsOpen quote text) :
    Lexeme.closing? quote false 0 text = none := by
  obtain ⟨units, isUnits, rfl | rfl⟩ := isOpen
  · have ended := closing?_units_append isUnits 0 []
    rwa [List.append_nil] at ended
  · rw [closing?_units_append isUnits]
    rfl

end Text

open Text

namespace Piece

/-- A piece that what is ahead inside a line begins with, if `rest` comes behind its text. -/
inductive Precedes : Piece → List Char → Prop where
  | comment {line rest : List Char} (inLine : ∀ c ∈ line, isBreak c = false)
      (upTo : ∀ c ∈ rest.head?, isBreak c = true) : Precedes (dropped ('#' :: line)) rest
  | continuation {ended rest : List Char} (isLineBreak : IsLineBreak ended rest) :
      Precedes (dropped ('\\' :: ended)) rest
  | blanks {white rest : List Char} (nonempty : white ≠ [])
      (blank : ∀ c ∈ white, isBlank c = true ∧ isBreak c = false)
      (upTo : ∀ c ∈ rest.head?, isBlank c = false ∨ isBreak c = true) :
      Precedes (dropped white) rest
  | digits {digits rest : List Char} (isDigits : Number.isDigits digits = true)
      (upTo : ∀ c ∈ rest.head?, isDigit c = false) (noFraction : fractionAhead rest = []) :
      Precedes (ofDigits digits) rest
  | float {text rest : List Char} (isFloat : IsFloat text)
      (upTo : ∀ c ∈ rest.head?, isDigit c = false) : Precedes (cut .float text) rest
  | name {name rest : List Char} (isName : IsName name)
      (upTo : ∀ c ∈ rest.head?, isNamePart c = false) :
      Precedes (cut (Lexeme.nameKind name) name) rest
  | string {text rest : List Char} (isLiteral : IsLiteral text) : Precedes (cut .string text) rest
  | unclosed {quote : Char} {text : List Char} (isQuote : IsQuote quote)
      (isOpen : IsOpen quote text) : Precedes (flawed .unclosed (quote :: text)) []
  | operator {mark : Operator} {rest : List Char}
      (longest : ∀ other : Operator, other.chars <+: mark.chars ++ rest →
        other.chars.length ≤ mark.chars.length) :
      Precedes (cut (.operator mark) mark.chars) rest
  | stray {c : Char} {rest : List Char} (notBlank : isBlank c = false) (notComment : c ≠ '#')
      (notContinued : c = '\\' → ∀ d ∈ rest.head?, isBreak d = false)
      (notDigit : isDigit c = false) (notName : isNameStart c = false) (notQuote : ¬ IsQuote c)
      (noOperator : ∀ mark : Operator, ¬ mark.chars <+: c :: rest) :
      Precedes (flawed (.stray c) [c]) rest

/-! ## What is ahead precedes what is behind -/

theorem precedes_numberAhead {c : Char} (rest : List Char) (digit : isDigit c = true) :
    ∃ behind, c :: rest = (numberAhead (c :: rest)).text ++ behind ∧
      (numberAhead (c :: rest)).Precedes behind := by
  have whole := List.takeWhile_append_dropWhile (p := isDigit) (l := c :: rest)
  have upTo := head?_dropWhile isDigit (c :: rest)
  have isDigits : Number.isDigits ((c :: rest).takeWhile isDigit) = true :=
    isDigits_takeWhile (by simp [digit])
  rw [numberAhead]
  generalize (c :: rest).takeWhile isDigit = digits at *
  generalize (c :: rest).dropWhile isDigit = behind at *
  by_cases none : fractionAhead behind = []
  · simp only [none, if_true]
    exact ⟨behind, by rw [text_ofDigits, whole], .digits isDigits upTo none⟩
  · simp only [none, if_false]
    simp only [fractionAhead] at none ⊢
    split at none
    next others =>
      have nonempty : others.takeWhile isDigit ≠ [] := fun nothing => none (if_pos nothing)
      refine ⟨others.dropWhile isDigit, ?_, ?_⟩
      · rw [← whole, if_neg nonempty]
        simp [cut, List.takeWhile_append_dropWhile]
      · rw [if_neg nonempty]
        exact .float ⟨_, _, rfl, isDigits, isDigits_takeWhile nonempty⟩ (head?_dropWhile _ _)
    next => exact absurd rfl none

theorem precedes_stringAhead {quote : Char} (rest : List Char) (isQuote : IsQuote quote) :
    ∃ behind, quote :: rest = (stringAhead quote rest).text ++ behind ∧
      (stringAhead quote rest).Precedes behind := by
  rw [stringAhead]
  cases found : Lexeme.closing? quote false 0 rest with
  | some count =>
    obtain ⟨units, more, rfl, rfl, isUnits⟩ := units_of_closing? found
    have covered : (units ++ quote :: more).take (0 + units.length + 1) = units ++ [quote] := by
      rw [List.append_cons]
      exact List.take_left' (by simp)
    simp only [covered]
    exact ⟨more, by simp [cut], .string ⟨quote, units, rfl, isQuote, isUnits⟩⟩
  | none => exact ⟨[], by simp [flawed], .unclosed isQuote (isOpen_of_closing? found)⟩

theorem length_le_of_find? {text : List Char} {mark : Operator}
    (found : Operator.byLength.find? (fun mark => mark.chars.isPrefixOf text) = some mark)
    {other : Operator} (begins : other.chars <+: text) :
    other.chars.length ≤ mark.chars.length := by
  obtain ⟨-, longer, shorter, split, tried⟩ := List.find?_eq_some_iff_append.1 found
  have listed := other.mem_byLength
  have sorted := byLength_sorted
  rw [split] at listed sorted
  rcases List.mem_append.1 listed with before | behind
  · have refused := tried other before
    simp [List.isPrefixOf_iff_prefix.2 begins] at refused
  · rcases List.mem_cons.1 behind with rfl | behind
    · exact le_rfl
    · exact (List.pairwise_cons.1 (List.pairwise_append.1 sorted).2.1).1 other behind

/-- What a line goes on with precedes what comes behind it. -/
theorem precedes_ahead {c : Char} (rest : List Char) (notBreak : isBreak c = false) :
    ∃ behind, c :: rest = (ahead c rest).text ++ behind ∧ (ahead c rest).Precedes behind := by
  rw [ahead]
  by_cases isComment : c = '#'
  · subst isComment
    have line : lineAhead ('#' :: rest) = '#' :: lineAhead rest := by
      simp [lineAhead, notBreak]
    rw [if_pos rfl, line]
    refine ⟨rest.drop (lineAhead rest).length, ?_, .comment ?_ isBreak_head?_drop_lineAhead⟩
    · simp [dropped, lineAhead_append_drop]
    · exact fun _ => isBreak_of_mem_lineAhead
  rw [if_neg isComment]
  by_cases continues : c = '\\' ∧ rest.head?.any isBreak
  · rw [if_pos continues]
    obtain ⟨rfl, isBreak⟩ := continues
    cases rest with
    | nil => cases isBreak
    | cons next rest =>
      obtain ⟨behind, split, isLineBreak⟩ := exists_isLineBreak rest isBreak
      refine ⟨behind, ?_, .continuation isLineBreak⟩
      rw [dropped, List.cons_append, ← split]
  rw [if_neg continues]
  by_cases blank : isBlank c = true
  · rw [if_pos blank]
    refine ⟨(c :: rest).dropWhile fun c => isBlank c && !isBreak c, ?_, .blanks ?_ ?_ ?_⟩
    · exact (List.takeWhile_append_dropWhile (p := fun c => isBlank c && !isBreak c)).symm
    · simp [blank, notBreak]
    · intro d member
      simpa using List.mem_takeWhile_imp member
    · intro d head
      have stops := head?_dropWhile (fun c => isBlank c && !isBreak c) (c :: rest) d head
      rwa [Bool.and_eq_false_iff, Bool.not_eq_false'] at stops
  rw [if_neg blank]
  by_cases digit : isDigit c = true
  · rw [if_pos digit]
    exact precedes_numberAhead rest digit
  rw [if_neg digit]
  by_cases start : isNameStart c = true
  · rw [if_pos start]
    refine ⟨_, List.takeWhile_append_dropWhile.symm, .name ?_ (head?_dropWhile _ _)⟩
    exact ⟨c, rest.takeWhile isNamePart, by simp [isNamePart_of_isNameStart start], start,
      fun _ => List.mem_takeWhile_imp⟩
  rw [if_neg start]
  by_cases quote : c = '\"' ∨ c = '\''
  · rw [if_pos quote]
    exact precedes_stringAhead rest quote
  rw [if_neg quote, operatorAhead]
  cases found : Operator.byLength.find? fun mark => mark.chars.isPrefixOf (c :: rest) with
  | some mark =>
    have holds := List.find?_some found
    obtain ⟨behind, split⟩ := List.isPrefixOf_iff_prefix.1 holds
    refine ⟨behind, split.symm, .operator fun other begins => ?_⟩
    exact length_le_of_find? found (split ▸ begins)
  | none =>
    refine ⟨rest, rfl, .stray (by simpa using blank) isComment ?_ (by simpa using digit)
      (by simpa using start) quote fun mark begins => ?_⟩
    · intro isBackslash d head
      by_contra isBreak
      exact continues ⟨isBackslash, by rw [Option.mem_def.1 head]; simpa using isBreak⟩
    · exact List.find?_eq_none.1 found mark mark.mem_byLength (List.isPrefixOf_iff_prefix.2 begins)

/-! ## What precedes the text behind it is ahead -/

theorem ahead_of_isBlank {c : Char} (rest : List Char) (blank : isBlank c = true) :
    ahead c rest = dropped ((c :: rest).takeWhile fun c => isBlank c && !isBreak c) := by
  have notComment : c ≠ '#' := by rintro rfl; cases blank
  have notBackslash : c ≠ '\\' := by rintro rfl; cases blank
  rw [ahead, if_neg notComment, if_neg (by simp [notBackslash]), if_pos blank]

theorem ahead_of_digit {c : Char} (rest : List Char) (digit : isDigit c = true) :
    ahead c rest = numberAhead (c :: rest) := by
  have notBlank := isBlank_of_isNamePart (isNamePart_of_isDigit digit)
  have notComment : c ≠ '#' := by rintro rfl; cases digit
  have notBackslash : c ≠ '\\' := by rintro rfl; cases digit
  simp [ahead, notComment, notBackslash, notBlank, digit]

theorem ahead_of_nameStart {c : Char} (rest : List Char) (start : isNameStart c = true) :
    ahead c rest = nameAhead (c :: rest) := by
  have notBlank := isBlank_of_isNamePart (isNamePart_of_isNameStart start)
  have notDigit : isDigit c = false := by
    cases digit : isDigit c with
    | true => simp [not_isNameStart_of_isDigit digit] at start
    | false => rfl
  have notComment : c ≠ '#' := by rintro rfl; cases start
  have notBackslash : c ≠ '\\' := by rintro rfl; cases start
  simp [ahead, notComment, notBackslash, notBlank, notDigit, start]

theorem ahead_of_isQuote {c : Char} (rest : List Char) (isQuote : IsQuote c) :
    ahead c rest = stringAhead c rest := by
  rcases isQuote with rfl | rfl <;> rfl

theorem ahead_of_others {c : Char} {rest : List Char} (notComment : c ≠ '#')
    (notContinued : ¬ (c = '\\' ∧ rest.head?.any isBreak = true)) (notBlank : isBlank c = false)
    (notDigit : isDigit c = false) (notName : isNameStart c = false) (notQuote : ¬ IsQuote c) :
    ahead c rest = operatorAhead c rest := by
  rw [IsQuote] at notQuote
  rw [ahead, if_neg notComment, if_neg notContinued, if_neg (by simp [notBlank]),
    if_neg (by simp [notDigit]), if_neg (by simp [notName]), if_neg notQuote]

theorem ahead_of_operator {mark : Operator} {c : Char} {others : List Char} (rest : List Char)
    (spelled : mark.chars = c :: others) :
    isBreak c = false ∧ ahead c rest = operatorAhead c rest := by
  have all : ∀ mark : Operator, mark.chars.head?.all fun c =>
      !isBlank c && c != '#' && c != '\\' := by
    intro mark
    cases mark <;> decide
  have first := all mark
  rw [spelled] at first
  simp only [List.head?_cons, Option.all_some, Bool.and_eq_true, Bool.not_eq_true', bne_iff_ne]
    at first
  obtain ⟨⟨notBlank, notComment⟩, notBackslash⟩ := first
  obtain ⟨notDigit, notName, notQuote⟩ := Operator.begins spelled
  exact ⟨notBreak_of_notBlank notBlank,
    ahead_of_others notComment (by simp [notBackslash]) notBlank notDigit notName notQuote⟩

theorem operatorAhead_of_longest {mark : Operator} {c : Char} {rest behind : List Char}
    (whole : c :: rest = mark.chars ++ behind)
    (longest : ∀ other : Operator, other.chars <+: c :: rest →
      other.chars.length ≤ mark.chars.length) :
    operatorAhead c rest = cut (.operator mark) mark.chars := by
  have here : mark.chars <+: c :: rest := whole ▸ List.prefix_append ..
  rw [operatorAhead]
  cases found : Operator.byLength.find? fun other => other.chars.isPrefixOf (c :: rest) with
  | none =>
    have refused := List.find?_eq_none.1 found mark mark.mem_byLength
    exact absurd (List.isPrefixOf_iff_prefix.2 here) refused
  | some other =>
    -- Of two operators ahead the longer begins with the other, and equal texts are one operator.
    have holds := List.find?_some found
    have begins := List.isPrefixOf_iff_prefix.1 holds
    have short := longest other begins
    have long := length_le_of_find? found here
    have equal : other.chars = mark.chars :=
      (List.prefix_of_prefix_length_le begins here short).eq_of_length (Nat.le_antisymm short long)
    have same := Operator.find?_chars other
    rw [equal, Operator.find?_chars] at same
    simp only [Option.some.inj same]

theorem stringAhead_of_units {quote : Char} {units : List Char} (isQuote : IsQuote quote)
    (isUnits : Units quote units) (rest : List Char) :
    stringAhead quote (units ++ quote :: rest) = cut .string (quote :: (units ++ [quote])) := by
  have notBackslash : quote ≠ '\\' := by rcases isQuote with rfl | rfl <;> decide
  have covered : (units ++ quote :: rest).take (0 + units.length + 1) = units ++ [quote] := by
    rw [List.append_cons]
    exact List.take_left' (by simp)
  rw [stringAhead, closing?_of_units notBackslash isUnits]
  simp only [covered]

theorem notBreak_of_isQuote {c : Char} (isQuote : IsQuote c) : isBreak c = false := by
  rcases isQuote with rfl | rfl <;> rfl

theorem numberAhead_of_isDigits {digits rest : List Char}
    (isDigits : Number.isDigits digits = true) (upTo : ∀ c ∈ rest.head?, isDigit c = false) :
    numberAhead (digits ++ rest) =
      if fractionAhead rest = [] then ofDigits digits
      else cut .float (digits ++ fractionAhead rest) := by
  obtain ⟨taken, left⟩ := span_exact (isDigits_iff.1 isDigits).2 upTo
  rw [numberAhead, taken, left]

theorem fractionAhead_of_isDigits {digits rest : List Char}
    (isDigits : Number.isDigits digits = true) (upTo : ∀ c ∈ rest.head?, isDigit c = false) :
    fractionAhead ('.' :: (digits ++ rest)) = '.' :: digits := by
  obtain ⟨nonempty, all⟩ := isDigits_iff.1 isDigits
  rw [fractionAhead, (span_exact all upTo).1, if_neg nonempty]

theorem Precedes.ahead_eq {piece : Piece} {rest : List Char} (precedes : piece.Precedes rest) :
    ∃ c others, piece.text ++ rest = c :: others ∧ isBreak c = false ∧ ahead c others = piece := by
  cases precedes with
  | @comment line _ inLine upTo =>
    refine ⟨'#', line ++ rest, rfl, rfl, ?_⟩
    have taken : lineAhead ('#' :: line ++ rest) = '#' :: line := by
      apply (span_exact _ _).1
      · simpa [show isBreak '#' = false from rfl] using inLine
      · simpa using upTo
    rw [ahead, if_pos rfl, ← List.cons_append, taken]
  | @continuation ended _ isLineBreak =>
    refine ⟨'\\', ended ++ rest, rfl, rfl, ?_⟩
    obtain ⟨c, others, rfl⟩ := List.exists_cons_of_ne_nil isLineBreak.ne_nil
    have isBreak := isLineBreak.isBreak_head? c rfl
    rw [ahead, if_neg (by decide), if_pos ⟨rfl, by simpa using isBreak⟩, isLineBreak.breakAhead_eq]
  | @blanks white _ nonempty blank upTo =>
    obtain ⟨c, others, rfl⟩ := List.exists_cons_of_ne_nil nonempty
    obtain ⟨isBlank, notBreak⟩ := blank c (by simp)
    refine ⟨c, others ++ rest, rfl, notBreak, ?_⟩
    have taken : (c :: others ++ rest).takeWhile (fun c => Text.isBlank c && !Text.isBreak c) =
        c :: others := by
      apply (span_exact _ _).1
      · intro d member
        simp [blank d member]
      · intro d head
        rcases upTo d head with notBlank | isBreak
        · simp [notBlank]
        · simp [isBreak]
    rw [ahead_of_isBlank _ isBlank, ← List.cons_append, taken]
  | @digits digits _ isDigits upTo noFraction =>
    obtain ⟨c, others, rfl⟩ := List.exists_cons_of_ne_nil (isDigits_iff.1 isDigits).1
    have digit := Number.isDigit_of_isDigits isDigits
    refine ⟨c, others ++ rest, by rw [text_ofDigits]; rfl,
      notBreak_of_isNamePart (isNamePart_of_isDigit digit), ?_⟩
    rw [ahead_of_digit _ digit, ← List.cons_append, numberAhead_of_isDigits isDigits upTo,
      if_pos noFraction]
  | @float text _ isFloat upTo =>
    obtain ⟨whole, fraction, rfl, isDigits, fractionDigits⟩ := isFloat
    obtain ⟨c, others, rfl⟩ := List.exists_cons_of_ne_nil (isDigits_iff.1 isDigits).1
    have digit := Number.isDigit_of_isDigits isDigits
    refine ⟨c, others ++ '.' :: (fraction ++ rest), by simp [cut],
      notBreak_of_isNamePart (isNamePart_of_isDigit digit), ?_⟩
    rw [ahead_of_digit _ digit, ← List.cons_append, numberAhead_of_isDigits isDigits (by simp; rfl),
      fractionAhead_of_isDigits fractionDigits upTo, if_neg (List.cons_ne_nil _ _)]
  | @name name _ isName upTo =>
    obtain ⟨c, others, rfl, start, parts⟩ := isName
    have part := isNamePart_of_isNameStart start
    refine ⟨c, others ++ rest, rfl, notBreak_of_isNamePart part, ?_⟩
    have taken : (c :: others ++ rest).takeWhile isNamePart = c :: others :=
      (span_exact (List.forall_mem_cons.2 ⟨part, parts⟩) upTo).1
    rw [ahead_of_nameStart _ start, nameAhead, ← List.cons_append, taken]
  | string isLiteral =>
    obtain ⟨quote, units, rfl, isQuote, isUnits⟩ := isLiteral
    refine ⟨quote, units ++ quote :: rest, by simp [cut], notBreak_of_isQuote isQuote, ?_⟩
    rw [ahead_of_isQuote _ isQuote, stringAhead_of_units isQuote isUnits]
  | @unclosed quote text isQuote isOpen =>
    refine ⟨quote, text, by simp [flawed], notBreak_of_isQuote isQuote, ?_⟩
    rw [ahead_of_isQuote _ isQuote, stringAhead, isOpen.closing?_eq_none]
  | @operator mark _ longest =>
    obtain ⟨c, others, spelled⟩ := List.exists_cons_of_ne_nil mark.chars_ne_nil
    obtain ⟨notBreak, same⟩ := ahead_of_operator (others ++ rest) spelled
    have whole : c :: (others ++ rest) = mark.chars ++ rest := by rw [spelled, List.cons_append]
    refine ⟨c, others ++ rest, whole.symm, notBreak, ?_⟩
    rw [same]
    apply operatorAhead_of_longest whole
    rw [whole]
    exact longest
  | @stray c _ notBlank notComment notContinued notDigit notName notQuote noOperator =>
    refine ⟨c, rest, rfl, notBreak_of_notBlank notBlank, ?_⟩
    have notJoined : ¬ (c = '\\' ∧ rest.head?.any isBreak = true) := by
      rintro ⟨isBackslash, isBreak⟩
      obtain ⟨d, head, isBreak⟩ := (Option.any_eq_true _ _).1 isBreak
      simp [notContinued isBackslash d head] at isBreak
    have none : Operator.byLength.find? (fun mark => mark.chars.isPrefixOf (c :: rest)) = none := by
      rw [List.find?_eq_none]
      intro mark _ begins
      exact noOperator mark (List.isPrefixOf_iff_prefix.1 begins)
    rw [ahead_of_others notComment notJoined notBlank notDigit notName notQuote, operatorAhead, none]

/-! ## Separators -/

def IsSeparator (c : Char) : Prop := isBlank c = true ∨ c = '\\'

theorem IsSeparator.isNamePart_eq_false {c : Char} (separator : IsSeparator c) :
    isNamePart c = false := by
  rcases separator with blank | rfl
  · exact isNamePart_of_isBlank blank
  · rfl

theorem IsSeparator.isDigit_eq_false {c : Char} (separator : IsSeparator c) :
    isDigit c = false := by
  have noName := separator.isNamePart_eq_false
  cases digit : isDigit c with
  | true => simp [isNamePart_of_isDigit digit] at noName
  | false => rfl

theorem isBlank_eq_false_of_mem_operator {c : Char} {mark : Operator} (member : c ∈ mark.chars) :
    isBlank c = false ∧ c ≠ '\\' := by
  have all : (mark.chars.all fun d => !isBlank d && d != '\\') = true := by
    cases mark <;> rfl
  simpa using List.all_eq_true.1 all c member

theorem IsSeparator.not_mem_operator {c : Char} (separator : IsSeparator c) (mark : Operator) :
    c ∉ mark.chars := by
  intro member
  obtain ⟨notBlank, notBackslash⟩ := isBlank_eq_false_of_mem_operator member
  rcases separator with blank | same
  · simp [notBlank] at blank
  · exact notBackslash same

theorem IsSeparator.prefix_of_operator {c : Char} (separator : IsSeparator c) {mark : Operator}
    {front rest : List Char} (begins : mark.chars <+: front ++ c :: rest) :
    mark.chars <+: front := by
  rcases List.prefix_or_prefix_of_prefix begins (List.prefix_append front (c :: rest)) with
    short | ⟨tail, split⟩
  · exact short
  · rw [← split, List.prefix_append_right_inj] at begins
    cases tail with
    | nil =>
      rw [List.append_nil] at split
      exact split ▸ List.prefix_refl front
    | cons d tail =>
      obtain ⟨rfl, -⟩ := List.cons_prefix_cons.1 begins
      exact absurd (split ▸ List.mem_append_right _ (.head _)) (separator.not_mem_operator mark)

/-- A piece with content is the same in front of any separator; but a stray character is not one in
front of a line break, because it could continue the line. -/
theorem Precedes.separated {piece : Piece} {c : Char} {rest : List Char}
    (precedes : piece.Precedes rest) (isToken : piece.kind ≠ none)
    (closed : piece.flaw ≠ some .unclosed) (separator : IsSeparator c)
    (flawless : isBreak c = true → piece.flaw = none) (others : List Char) :
    piece.Precedes (c :: others) := by
  have notDigit := separator.isDigit_eq_false
  cases precedes with
  | comment | continuation | blanks => exact absurd rfl isToken
  | digits isDigits =>
    refine .digits isDigits (by simpa using notDigit) ?_
    have notPoint : c ≠ '.' := by
      rintro rfl
      simp [IsSeparator, isBlank] at separator
    simp [fractionAhead, notPoint]
  | float isFloat => exact .float isFloat (by simpa using notDigit)
  | name isName => exact .name isName (by simpa using separator.isNamePart_eq_false)
  | string isLiteral => exact .string isLiteral
  | unclosed => exact absurd rfl closed
  | operator longest =>
    refine .operator fun other begins => ?_
    exact (separator.prefix_of_operator begins).length_le
  | @stray d _ notBlank notComment _ notDigit notName notQuote noOperator =>
    refine .stray notBlank notComment ?_ notDigit notName notQuote fun mark begins => ?_
    · intro _ e head
      obtain rfl : c = e := by simpa using head
      cases isBreak : isBreak c with
      | true => cases flawless isBreak
      | false => rfl
    · have alone := @IsSeparator.prefix_of_operator c separator mark [d] others begins
      exact noOperator mark (alone.trans (List.prefix_append [d] rest))

/-- A piece that becomes a token is a content of its line, and it begins with a character that
stands neither in front of a line nor at the start of a comment. -/
theorem Precedes.begins {piece : Piece} {rest : List Char} {kind : Kind}
    (precedes : piece.Precedes rest) (isToken : piece.kind = some kind) :
    kind.isContent = true ∧
      ∃ c others, piece.text = c :: others ∧ isBlank c = false ∧ c ≠ '#' := by
  obtain ⟨c, others, whole, -, rfl⟩ := precedes.ahead_eq
  have skipped : isBlank c = true ∨ c = '#' → (ahead c others).kind = none := by
    rintro (blank | rfl)
    · rw [ahead_of_isBlank others blank]
      rfl
    · rfl
  rcases skippable_or_cuts c others with ⟨text, behind, same, -, -⟩ | ⟨-, nonempty, other, same, isContent⟩
  · rw [same] at isToken
    cases isToken
  · obtain ⟨d, more, split⟩ := List.exists_cons_of_ne_nil nonempty
    rw [split, List.cons_append, List.cons.injEq] at whole
    obtain rfl := whole.1
    rw [same] at isToken skipped
    cases isToken
    refine ⟨isContent, d, more, split, ?_, fun isComment => ?_⟩
    · cases blank : isBlank d with
      | true => cases skipped (.inl blank)
      | false => rfl
    · cases skipped (.inr isComment)

theorem Precedes.spells {piece : Piece} {rest : List Char} {kind : Kind}
    (precedes : piece.Precedes rest) (isKind : piece.kind = some kind) (notError : kind ≠ .error) :
    Spells piece.text kind := by
  cases precedes with
  | comment | continuation | blanks => cases isKind
  | @digits digits _ isDigits =>
    obtain ⟨other, isOther, spells⟩ := spells_ofDigits isDigits
    rw [text_ofDigits]
    exact Option.some.inj (isOther.symm.trans isKind) ▸ spells
  | float isFloat =>
    cases isKind
    exact .float isFloat
  | name isName =>
    cases isKind
    exact spells_nameKind isName
  | string isLiteral =>
    cases isKind
    exact .string isLiteral
  | operator =>
    cases isKind
    exact .operator rfl
  | unclosed | stray =>
    cases isKind
    exact absurd rfl notError

end Piece

end Offside
