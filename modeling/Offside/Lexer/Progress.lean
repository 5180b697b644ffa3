import Offside.Lexer.Basic

/-!
# Every step gets closer to the end

A lexeme reads at least one character, and a step that reads none changes to a mode that is
closer to the end.  So `Lexer.remaining` falls with every step, whatever state the lexer is
in, and the tokens come to an end.
-/

namespace Offside

namespace Reader

@[simp] theorem left_drop (reader : Reader) : reader.drop.left = reader.left := rfl

@[simp] theorem left_setMark (reader : Reader) : reader.setMark.left = reader.left := rfl

@[simp] theorem left_read (reader : Reader) : reader.read.2.left = reader.left - 1 := by
  simp [left, read]

theorem of_peek {reader : Reader} {seen : Option Char × Reader} (h : reader.peek = .ok seen) :
    seen.1 = reader.point.ahead? ∧ seen.2 = reader.goTo reader.point none := by
  rw [peek_eq] at h
  obtain rfl := Except.ok.inj h
  exact ⟨rfl, rfl⟩

theorem left_readWhile_le {reader : Reader} {accepts : Char → Bool} {run : Nat × Reader}
    (h : reader.readWhile accepts = .ok run) : run.2.left ≤ reader.left := by
  rw [readWhile_eq] at h
  obtain rfl := Except.ok.inj h
  simp [left]

theorem left_readWhile_lt {reader : Reader} {accepts : Char → Bool} {run : Nat × Reader} {c : Char}
    (ahead : reader.point.ahead? = some c) (accepted : accepts c = true)
    (h : reader.readWhile accepts = .ok run) : run.2.left < reader.left := by
  rw [readWhile_eq] at h
  obtain rfl := Except.ok.inj h
  cases hrest : reader.point.rest with
  | nil => simp [Point.ahead?, hrest] at ahead
  | cons d rest =>
    obtain rfl : d = c := by simpa [Point.ahead?, hrest] using ahead
    simp only [left, point_goTo, Point.rest_advance, Point.run, hrest, List.takeWhile_cons,
      accepted, if_true, List.length_drop, List.length_cons]
    omega

theorem left_readOneOf {reader : Reader} {valid : List Char} {tried : Bool × Reader}
    (h : reader.readOneOf valid = .ok tried) :
    (tried.1 = true → tried.2.left < reader.left) ∧
      (tried.1 = false → tried.2.left = reader.left) := by
  rw [readOneOf_eq] at h
  split at h
  next accepted =>
    obtain rfl := Except.ok.inj h
    cases hrest : reader.point.rest with
    | nil => simp [Point.ahead?, hrest] at accepted
    | cons => simp [left, read, hrest]
  next =>
    obtain rfl := Except.ok.inj h
    simp [left]

theorem left_readLiteral (reader : Reader) {literal : List Char} (nonempty : literal ≠ []) :
    ((reader.readLiteral literal).1 = true →
        (reader.readLiteral literal).2.left < reader.left) ∧
      ((reader.readLiteral literal).1 = false →
        (reader.readLiteral literal).2.left = reader.left) := by
  rw [readLiteral_eq]
  split
  next found =>
    have size := (List.isPrefixOf_iff_prefix.1 found).length_le
    have pos := List.length_pos_iff.2 nonempty
    simp only [left, point_goTo, Point.rest_advance, List.length_drop, true_implies,
      Bool.true_eq_false, false_implies, and_true]
    omega
  next => simp [left]

@[simp] theorem mark_goTo (reader : Reader) (point : Point) (undo : Option (Option Char)) :
    (reader.goTo point undo).mark = reader.mark := rfl

theorem mark_readWhile {reader : Reader} {accepts : Char → Bool} {run : Nat × Reader}
    (h : reader.readWhile accepts = .ok run) : run.2.mark = reader.mark := by
  rw [readWhile_eq] at h
  obtain rfl := Except.ok.inj h
  rfl

theorem mark_readOneOf {reader : Reader} {valid : List Char} {tried : Bool × Reader}
    (h : reader.readOneOf valid = .ok tried) : tried.2.mark = reader.mark := by
  rw [readOneOf_eq] at h
  split at h
  next => obtain rfl := Except.ok.inj h; rfl
  next => obtain rfl := Except.ok.inj h; rfl

theorem mark_readLiteral (reader : Reader) (literal : List Char) :
    (reader.readLiteral literal).2.mark = reader.mark := by
  rw [readLiteral_eq]
  split
  next => rfl
  next => rfl

theorem left_skip_le (count : Nat) (reader : Reader) : (reader.skip count).left ≤ reader.left := by
  induction count generalizing reader with
  | zero => exact Nat.le_refl _
  | succ count ih =>
    have step := ih reader.read.2
    rw [left_read] at step
    exact Nat.le_trans step (Nat.sub_le ..)

theorem left_cut {reader after : Reader} {kind : Kind} (h : reader.cut kind = .ok after) :
    after.left = reader.left := by
  obtain ⟨span, -, built⟩ := bind_eq_ok.1 h
  obtain rfl := pure_eq_ok.1 built
  rfl

theorem left_cutMany {kind : Kind} {count : Nat} {reader after : Reader}
    (h : cutMany kind count reader = .ok after) : after.left = reader.left := by
  induction count generalizing reader with
  | zero =>
    obtain rfl : reader = after := by simpa [cutMany] using h
    rfl
  | succ count ih =>
    obtain ⟨middle, first, others⟩ := bind_eq_ok.1 h
    rw [ih others, left_cut first]

theorem left_returnToMark {reader after : Reader} (h : reader.returnToMark = .ok after) :
    after.left = reader.mark.rest.length := by
  unfold returnToMark at h
  split at h
  next => simp at h
  next =>
    obtain rfl := Except.ok.inj h
    rfl

end Reader

/-! ## Lexemes -/

namespace Lexeme

open Reader

theorem left_lineBreak {reader : Reader} {ended : Bool × Reader}
    (h : lineBreak reader = .ok ended) :
    (ended.1 = true → ended.2.left < reader.left) ∧
      (ended.1 = false → ended.2.left = reader.left) := by
  have both := left_readLiteral reader (List.cons_ne_nil '\r' ['\n'])
  unfold lineBreak at h
  simp only at h
  split at h
  next found =>
    obtain rfl := Except.ok.inj h
    exact ⟨fun _ => both.1 found, fun missing => by simp [found] at missing⟩
  next missing =>
    rw [← both.2 (by simpa using missing)]
    exact left_readOneOf h

theorem mark_lineBreak {reader : Reader} {ended : Bool × Reader}
    (h : lineBreak reader = .ok ended) : ended.2.mark = reader.mark := by
  unfold lineBreak at h
  simp only at h
  split at h
  next =>
    obtain rfl := Except.ok.inj h
    exact mark_readLiteral ..
  next => rw [mark_readOneOf h, mark_readLiteral]

theorem lineBreak_of_isBreak {reader : Reader} {ended : Bool × Reader} {c : Char}
    (ahead : reader.point.ahead? = some c) (isBreak : Text.isBreak c = true)
    (h : lineBreak reader = .ok ended) : ended.1 = true := by
  unfold lineBreak at h
  simp only [readLiteral_eq] at h
  split at h
  next =>
    obtain rfl := Except.ok.inj h
    rfl
  next =>
    have valid : c = '\n' ∨ c = '\r' := by simpa [Text.isBreak] using isBreak
    rw [if_neg (by simp), readOneOf_eq, if_pos (by simp [ahead, valid])] at h
    obtain rfl := Except.ok.inj h
    rfl

theorem left_lineBreak_le {reader : Reader} {ended : Bool × Reader}
    (h : lineBreak reader = .ok ended) : ended.2.left ≤ reader.left := by
  cases found : ended.1 with
  | true => exact Nat.le_of_lt ((left_lineBreak h).1 found)
  | false => exact Nat.le_of_eq ((left_lineBreak h).2 found)

theorem left_cutOff {reader after : Reader} {kind : Kind} {reported report : Option Diagnostic}
    (h : (reader.cut kind >>= fun cutOff => pure (cutOff, reported)) = .ok (after, report)) :
    after.left = reader.left := by
  obtain ⟨cutOff, cutting, built⟩ := bind_eq_ok.1 h
  obtain ⟨rfl, -⟩ := Prod.mk.inj (pure_eq_ok.1 built)
  exact left_cut cutting

theorem left_newline {reader after : Reader} {report : Option Diagnostic} {c : Char}
    (ahead : reader.point.ahead? = some c) (isBreak : Text.isBreak c = true)
    (h : newline reader = .ok (after, report)) : after.left < reader.left := by
  obtain ⟨ended, breaking, h⟩ := bind_eq_ok.1 h
  rw [left_cutOff h]
  exact (left_lineBreak breaking).1 (lineBreak_of_isBreak ahead isBreak breaking)

theorem left_comment {reader after : Reader} {report : Option Diagnostic} {c : Char}
    (ahead : reader.point.ahead? = some c) (notBreak : Text.isBreak c = false)
    (h : comment reader = .ok (after, report)) : after.left < reader.left := by
  obtain ⟨rest, reading, built⟩ := bind_eq_ok.1 h
  obtain ⟨run, running, rfl⟩ := map_eq_ok.1 reading
  obtain ⟨rfl, -⟩ := Prod.mk.inj (pure_eq_ok.1 built)
  exact left_readWhile_lt ahead (by simp [notBreak]) running

theorem left_pos {reader : Reader} {c : Char} (ahead : reader.point.ahead? = some c) :
    0 < reader.left := by
  unfold left
  cases hrest : reader.point.rest with
  | nil => simp [Point.ahead?, hrest] at ahead
  | cons => simp

theorem left_continuation {reader after : Reader} {report : Option Diagnostic} {c : Char}
    (ahead : reader.point.ahead? = some c)
    (h : continuation reader = .ok (after, report)) : after.left < reader.left := by
  obtain ⟨joined, breaking, built⟩ := bind_eq_ok.1 h
  obtain ⟨rfl, -⟩ := Prod.mk.inj (pure_eq_ok.1 built)
  have rest := left_lineBreak_le breaking
  rw [left_read] at rest
  have pos := left_pos ahead
  rw [left_drop]
  omega

theorem left_blanks {reader after : Reader} {report : Option Diagnostic} {c : Char}
    (ahead : reader.point.ahead? = some c) (notBreak : Text.isBreak c = false)
    (blank : Text.isBlank c = true)
    (h : blanks reader = .ok (after, report)) : after.left < reader.left := by
  obtain ⟨white, running, built⟩ := bind_eq_ok.1 h
  obtain ⟨rfl, -⟩ := Prod.mk.inj (pure_eq_ok.1 built)
  exact left_readWhile_lt ahead (by simp [notBreak, blank]) running

theorem left_fraction_le {reader : Reader} {part : Bool × Reader}
    (h : fraction reader = .ok part) : part.2.left ≤ reader.left := by
  obtain ⟨point, trying, h⟩ := bind_eq_ok.1 h
  have shorter := left_readOneOf trying
  have sameMark := mark_readOneOf trying
  split at h
  next isPoint =>
    obtain ⟨digits, running, h⟩ := bind_eq_ok.1 h
    have further := left_readWhile_le running
    split at h
    next =>
      obtain rfl := pure_eq_ok.1 h
      exact Nat.le_trans further (Nat.le_of_lt (shorter.1 isPoint))
    next =>
      obtain ⟨back, returned, built⟩ := bind_eq_ok.1 h
      obtain rfl := pure_eq_ok.1 built
      rw [left_returnToMark returned, mark_readWhile running, sameMark]
      exact Nat.le_refl _
  next =>
    obtain ⟨back, returned, built⟩ := bind_eq_ok.1 h
    obtain rfl := pure_eq_ok.1 built
    rw [left_returnToMark returned, sameMark]
    exact Nat.le_refl _

theorem left_integer {reader after : Reader} {report : Option Diagnostic}
    (h : integer reader = .ok (after, report)) : after.left = reader.left := by
  obtain ⟨digits, -, h⟩ := bind_eq_ok.1 h
  split at h
  next =>
    exact left_cutOff h
  next =>
    obtain ⟨span, -, h⟩ := bind_eq_ok.1 h
    exact left_cutOff h

theorem left_number {reader after : Reader} {report : Option Diagnostic} {c : Char}
    (ahead : reader.point.ahead? = some c) (digit : Text.isDigit c = true)
    (h : number reader = .ok (after, report)) : after.left < reader.left := by
  obtain ⟨digits, running, h⟩ := bind_eq_ok.1 h
  obtain ⟨part, fractionRead, h⟩ := bind_eq_ok.1 h
  have shorter := left_readWhile_lt ahead digit running
  have further := left_fraction_le fractionRead
  split at h
  next =>
    rw [left_cutOff h]
    exact Nat.lt_of_le_of_lt further shorter
  next =>
    rw [left_integer h]
    exact Nat.lt_of_le_of_lt further shorter

theorem left_name {reader after : Reader} {report : Option Diagnostic} {c : Char}
    (ahead : reader.point.ahead? = some c) (nameStart : Text.isNameStart c = true)
    (h : name reader = .ok (after, report)) : after.left < reader.left := by
  obtain ⟨run, running, h⟩ := bind_eq_ok.1 h
  obtain ⟨text, -, h⟩ := bind_eq_ok.1 h
  rw [left_cutOff h]
  exact left_readWhile_lt ahead (Text.isNamePart_of_isNameStart nameStart) running

theorem left_string {quote : Char} {reader after : Reader} {report : Option Diagnostic} {c : Char}
    (ahead : reader.point.ahead? = some c)
    (h : string quote reader = .ok (after, report)) : after.left < reader.left := by
  have pos := left_pos ahead
  have behindQuote := left_read reader
  unfold string at h
  simp only at h
  split at h
  next count found =>
    rw [left_cutOff h]
    have further := left_skip_le count reader.read.2
    omega
  next =>
    obtain ⟨all, running, h⟩ := bind_eq_ok.1 h
    obtain ⟨span, -, h⟩ := bind_eq_ok.1 h
    rw [left_cutOff h]
    have further := left_readWhile_le running
    omega

theorem left_operator {reader after : Reader} {report : Option Diagnostic} {c : Char}
    (ahead : reader.point.ahead? = some c)
    (h : operator c reader = .ok (after, report)) : after.left < reader.left := by
  have pos := left_pos ahead
  obtain ⟨undo, moved⟩ := readFirst_snd Operator.byLength reader
  unfold operator at h
  simp only at h
  split at h
  next mark found =>
    rw [left_cutOff h, moved, found]
    have size := mark.length_chars
    simp only [Option.elim_some, left_goTo, Point.rest_advance, List.length_drop]
    unfold left at pos ⊢
    omega
  next missing =>
    obtain ⟨span, -, h⟩ := bind_eq_ok.1 h
    rw [left_cutOff h, left_read, moved, missing]
    simp only [Option.elim_none, left_goTo, Point.advance]
    unfold left at pos ⊢
    omega

end Lexeme

/-! ## Steps -/

namespace Lexer

open Reader

variable {lexer after : Lexer} {report : Option Diagnostic}

theorem remaining_lexeme_lt {mode : Mode} {start : Reader} {reading : Except Fault Reading}
    (inside : lexer.mode = .inLine) (same : start.left = lexer.reader.left)
    (shorter : ∀ reader report, reading = .ok (reader, report) → reader.left < start.left)
    (h : lexer.lexeme mode reading = .ok (after, report)) :
    after.remaining < lexer.remaining := by
  obtain ⟨⟨reader, reported⟩, read, built⟩ := map_eq_ok.1 h
  obtain ⟨rfl, -⟩ := Prod.mk.inj built
  have less := shorter reader reported read
  -- A character outweighs every rank, so it does not matter which mode comes next.
  have rank : modeRank mode ≤ 3 := by cases mode <;> decide
  have sameRank : modeRank lexer.mode = 2 := by rw [inside]; rfl
  simp only [remaining, moveTo, sameRank]
  omega

theorem remaining_inLine_lt (inside : lexer.mode = .inLine)
    (h : lexer.inLine = .ok (after, report)) : after.remaining < lexer.remaining := by
  obtain ⟨seen, peeking, h⟩ := bind_eq_ok.1 h
  obtain ⟨character, same⟩ := of_peek peeking
  simp only at h
  split at h
  next =>
    obtain ⟨rfl, -⟩ := Prod.mk.inj (Except.ok.inj h)
    simp [remaining, moveTo, modeRank, inside, left, same]
  next c found =>
    have ahead : seen.2.point.ahead? = some c := by simpa [same, ← character] using found
    have sameLeft : seen.2.left = lexer.reader.left := by simp [left, same]
    split at h
    next isBreak =>
      exact remaining_lexeme_lt inside sameLeft (fun _ _ => Lexeme.left_newline ahead isBreak) h
    next notBreak =>
    have notBreak : Text.isBreak c = false := by simpa using notBreak
    split at h
    next =>
      exact remaining_lexeme_lt inside sameLeft
        (fun _ _ => Lexeme.left_comment ahead notBreak) h
    next =>
    split at h
    next => exact remaining_lexeme_lt inside sameLeft (fun _ _ => Lexeme.left_continuation ahead) h
    next =>
    split at h
    next blank =>
      exact remaining_lexeme_lt inside sameLeft
        (fun _ _ => Lexeme.left_blanks ahead notBreak blank) h
    next =>
    split at h
    next digit =>
      exact remaining_lexeme_lt inside sameLeft (fun _ _ => Lexeme.left_number ahead digit) h
    next =>
    split at h
    next nameStart =>
      exact remaining_lexeme_lt inside sameLeft (fun _ _ => Lexeme.left_name ahead nameStart) h
    next =>
    split at h
    next =>
      exact remaining_lexeme_lt inside sameLeft
        (fun _ _ read => by simpa using Lexeme.left_string ahead read) h
    next =>
      exact remaining_lexeme_lt inside sameLeft
        (fun _ _ read => by simpa using Lexeme.left_operator ahead read) h

/-- Opening a line reads nothing beyond the indentation, which begins at the mark, and changes to
the mode inside a line. -/
theorem remaining_openLine_le {reader : Reader} {width : Nat} (bound : Nat)
    (ahead : reader.left ≤ bound) (marked : reader.mark.rest.length ≤ bound)
    (h : lexer.openLine reader width = .ok (after, report)) :
    after.remaining ≤ 4 * bound + 2 := by
  unfold openLine at h
  simp only at h
  split at h
  next =>
    obtain ⟨cutOff, cutting, built⟩ := map_eq_ok.1 h
    obtain ⟨rfl, -⟩ := Prod.mk.inj built
    have same := left_cut cutting
    simp only [remaining, moveTo, modeRank]
    omega
  next =>
    obtain ⟨rfl, -⟩ := Prod.mk.inj (Except.ok.inj h)
    simp only [remaining, moveTo, modeRank, left_drop]
    omega
  next count exact _ =>
    obtain ⟨span, -, h⟩ := bind_eq_ok.1 h
    obtain ⟨back, returned, h⟩ := bind_eq_ok.1 h
    obtain ⟨front, dedents, h⟩ := bind_eq_ok.1 h
    obtain ⟨behind, running, h⟩ := bind_eq_ok.1 h
    have white := left_readWhile_le running
    -- The whitespace is read a second time, from the mark on.
    rw [left_cutMany dedents, left_returnToMark returned] at white
    split at h
    next =>
      obtain ⟨rfl, -⟩ := Prod.mk.inj (pure_eq_ok.1 h)
      simp only [remaining, moveTo, modeRank, left_drop]
      omega
    next =>
      obtain ⟨cutOff, cutting, built⟩ := bind_eq_ok.1 h
      obtain ⟨rfl, -⟩ := Prod.mk.inj (pure_eq_ok.1 built)
      have same := left_cut cutting
      simp only [remaining, moveTo, modeRank]
      omega

theorem left_skipComment_le {reader rest : Reader} (h : skipComment reader = .ok rest) :
    rest.left ≤ reader.left := by
  unfold skipComment at h
  split at h
  next =>
    obtain ⟨run, running, rfl⟩ := map_eq_ok.1 h
    exact left_readWhile_le running
  next =>
    obtain rfl := Except.ok.inj h
    exact Nat.le_refl _

theorem mark_skipComment {reader rest : Reader} (h : skipComment reader = .ok rest) :
    rest.mark = reader.mark := by
  unfold skipComment at h
  split at h
  next =>
    obtain ⟨run, running, rfl⟩ := map_eq_ok.1 h
    exact mark_readWhile running
  next =>
    obtain rfl := Except.ok.inj h
    rfl

theorem remaining_atMargin_lt (start : lexer.mode = .atMargin)
    (h : lexer.atMargin = .ok (after, report)) : after.remaining < lexer.remaining := by
  -- The three ways out of the start of a line: the end of the text, a break, a line with content.
  have whole : lexer.remaining = 4 * lexer.reader.left + 3 := by
    simp [remaining, start, modeRank]
  obtain ⟨white, running, h⟩ := bind_eq_ok.1 h
  obtain ⟨seen, peeking, h⟩ := bind_eq_ok.1 h
  have behindWhite := left_readWhile_le running
  have sameMark := mark_readWhile running
  obtain ⟨-, same⟩ := of_peek peeking
  have sameLeft : seen.2.left = white.2.left := by simp [left, same]
  rw [left_setMark] at behindWhite
  rw [whole]
  split at h
  next =>
    obtain ⟨rfl, -⟩ := Prod.mk.inj (pure_eq_ok.1 h)
    simp only [remaining, moveTo, modeRank, left_drop]
    omega
  next =>
  obtain ⟨rest, skipping, h⟩ := bind_eq_ok.1 h
  obtain ⟨ended, breaking, h⟩ := bind_eq_ok.1 h
  have behindComment := left_skipComment_le skipping
  have behindBreak := Lexeme.left_lineBreak breaking
  split at h
  next found =>
    obtain ⟨rfl, -⟩ := Prod.mk.inj (pure_eq_ok.1 h)
    have shorter := behindBreak.1 found
    simp only [remaining, moveTo, modeRank, left_drop]
    omega
  next missing =>
  have sameBreak := behindBreak.2 (by simpa using missing)
  obtain ⟨next, peekingNext, h⟩ := bind_eq_ok.1 h
  obtain ⟨-, sameNext⟩ := of_peek peekingNext
  have leftNext : next.2.left = ended.2.left := by simp [left, sameNext]
  split at h
  next =>
    obtain ⟨rfl, -⟩ := Prod.mk.inj (pure_eq_ok.1 h)
    simp only [remaining, moveTo, modeRank, left_drop]
    omega
  next =>
    have marked : next.2.mark = lexer.reader.point := by
      rw [sameNext, mark_goTo, Lexeme.mark_lineBreak breaking, mark_skipComment skipping, same,
        mark_goTo, sameMark]
      rfl
    have bound := remaining_openLine_le lexer.reader.left (by omega)
      (Nat.le_of_eq (congrArg (·.rest.length) marked)) h
    omega

theorem remaining_atEnd_lt (atTheEnd : lexer.mode = .atEnd)
    (h : lexer.atEnd = .ok (after, report)) : after.remaining < lexer.remaining := by
  obtain ⟨ended, ending, h⟩ := bind_eq_ok.1 h
  obtain ⟨blocks, -, h⟩ := bind_eq_ok.1 h
  obtain ⟨closed, dedents, h⟩ := bind_eq_ok.1 h
  obtain ⟨cutOff, cutting, built⟩ := bind_eq_ok.1 h
  obtain ⟨rfl, -⟩ := Prod.mk.inj (pure_eq_ok.1 built)
  have sameLine : ended.left = lexer.reader.left := by
    unfold endLine at ending
    split at ending
    next => exact left_cut ending
    next => rw [Except.ok.inj ending]
  have same := left_cut cutting
  rw [left_cutMany dedents, sameLine] at same
  have sameRank : modeRank lexer.mode = 1 := by rw [atTheEnd]; rfl
  change 4 * cutOff.left + 0 < 4 * lexer.reader.left + modeRank lexer.mode
  rw [sameRank]
  omega

/-- Unless a lexer is done, a step brings it closer to the end. -/
theorem remaining_step_lt (running : lexer.mode ≠ .done)
    (h : lexer.step = .ok (after, report)) : after.remaining < lexer.remaining := by
  unfold step at h
  split at h
  next start => exact remaining_atMargin_lt start h
  next inside => exact remaining_inLine_lt inside h
  next atTheEnd => exact remaining_atEnd_lt atTheEnd h
  next isDone => exact absurd isDone running

end Lexer

end Offside
