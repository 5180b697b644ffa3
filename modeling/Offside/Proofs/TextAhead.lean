import Offside.Proofs.Lexemes
import Offside.Proofs.Placement

/-!
# Operations on the text ahead

What a reader answers and how far it goes depends on the characters ahead of it only: each of its
operations takes a beginning of them, and stands behind that on the line the breaks in it lead to.
What was undone once, or was only looked at, cannot be undone again before another step forward.
-/

namespace Offside

/-! ## What operations take -/

namespace Command

/-- What an operation answers when a text is ahead, how much of the text it takes, and what is left.
An operation that only looks takes nothing. -/
inductive Takes : Command → (ahead : List Char) → Answer → (taken rest : List Char) → Prop where
  | read (c : Char) (rest : List Char) : Takes .read (c :: rest) (.char (some c)) [c] rest
  | atEnd : Takes .read [] (.char none) [] []
  | peek (ahead : List Char) : Takes .peek ahead (.char ahead.head?) [] ahead
  /-- The characters ahead are counted from one. -/
  | peekAt (ahead : List Char) (n : Nat) :
      Takes (.peekAt (n + 1)) ahead (.char ahead[n]?) [] ahead
  | oneOf {c : Char} {valid : List Char} (rest : List Char) (isValid : c ∈ valid) :
      Takes (.readOneOf valid) (c :: rest) (.flag true) [c] rest
  | noneOf {valid ahead : List Char} (notValid : ∀ c ∈ ahead.head?, c ∉ valid) :
      Takes (.readOneOf valid) ahead (.flag false) [] ahead
  /-- All characters in front of the first one that is not accepted. -/
  | run {accepts : Char → Bool} {front rest : List Char} (accepted : ∀ c ∈ front, accepts c = true)
      (notFurther : ∀ c ∈ rest.head?, accepts c = false) :
      Takes (.readWhile accepts) (front ++ rest) (.count front.length) front rest
  | literal (literal rest : List Char) :
      Takes (.readLiteral literal) (literal ++ rest) (.flag true) literal rest
  | noLiteral {literal ahead : List Char} (differs : ¬literal <+: ahead) :
      Takes (.readLiteral literal) ahead (.flag false) [] ahead
  | beginsWith (literal ahead : List Char) :
      Takes (.beginsWith literal) ahead (.flag (decide (literal <+: ahead))) [] ahead

/-- Whether an operation is about the text ahead; there is no character zero places ahead. -/
def looksAhead : Command → Bool
  | .read | .peek | .readOneOf _ | .readWhile _ | .readLiteral _ | .beginsWith _ => true
  | .peekAt n => n != 0
  | _ => false

theorem exists_takes {command : Command} (looksAhead : command.looksAhead = true)
    (ahead : List Char) : ∃ answer taken rest, command.Takes ahead answer taken rest := by
  cases command with
  | read =>
    cases ahead with
    | nil => exact ⟨_, _, _, .atEnd⟩
    | cons c rest => exact ⟨_, _, _, .read c rest⟩
  | peek => exact ⟨_, _, _, .peek ahead⟩
  | peekAt n =>
    cases n with
    | zero => cases looksAhead
    | succ n => exact ⟨_, _, _, .peekAt ahead n⟩
  | readOneOf valid =>
    cases ahead with
    | nil => exact ⟨_, _, _, .noneOf (by simp)⟩
    | cons c rest =>
      by_cases isValid : c ∈ valid
      · exact ⟨_, _, _, .oneOf rest isValid⟩
      · exact ⟨_, _, _, .noneOf (by simpa using isValid)⟩
  | readWhile accepts =>
    have accepted : ∀ c ∈ ahead.takeWhile accepts, accepts c = true := fun _ =>
      List.mem_takeWhile_imp
    have takes := Takes.run accepted (Text.head?_dropWhile accepts ahead)
    rw [List.takeWhile_append_dropWhile] at takes
    exact ⟨_, _, _, takes⟩
  | readLiteral literal =>
    by_cases found : literal <+: ahead
    · obtain ⟨rest, rfl⟩ := found
      exact ⟨_, _, _, .literal literal rest⟩
    · exact ⟨_, _, _, .noLiteral found⟩
  | beginsWith literal => exact ⟨_, _, _, .beginsWith literal ahead⟩
  | _ => cases looksAhead

end Command

namespace Reader

variable {reader after : Reader} {command : Command} {answer : Answer}

theorem read_of_cons {c : Char} {rest : List Char} (standing : reader.point.rest = c :: rest) :
    reader.read = (some c, reader.goTo (reader.point.past [c] rest) (some (some c))) := by
  rw [read, Point.ahead?, standing, Point.step_eq_past standing]
  rfl

theorem read_of_nil (standing : reader.point.rest = []) :
    reader.read = (none, reader.goTo (reader.point.past [] []) (some none)) := by
  have stays : reader.point.step = reader.point.past [] [] := by
    have here := Point.past_nil reader.point
    rw [standing] at here
    rw [Point.step, standing, here]
  rw [read, Point.ahead?, standing, stays]
  rfl

theorem readOneOf_of_noneOf {valid : List Char}
    (notValid : ∀ c ∈ reader.point.rest.head?, c ∉ valid) :
    reader.readOneOf valid = .ok (false, reader.goTo reader.point none) := by
  have refused : reader.point.ahead?.any valid.contains = false := by
    rw [Point.ahead?, Option.any_eq_false]
    simpa using notValid
  rw [readOneOf_eq, refused]
  rfl

theorem readLiteral_of_differs {literal : List Char} (differs : ¬literal <+: reader.point.rest) :
    reader.readLiteral literal = (false, reader.goTo reader.point none) := by
  rw [readLiteral_eq, beginsWith, if_neg (by rwa [List.isPrefixOf_iff_prefix])]

/-- An operation answers what it takes from the text ahead, and the reader goes on behind that. -/
theorem run_of_takes {ahead taken rest : List Char} (takes : command.Takes ahead answer taken rest)
    (standing : reader.point.rest = ahead) :
    ∃ undo, reader.run command = .ok (answer, reader.goTo (reader.point.past taken rest) undo) := by
  cases takes with
  | read c => exact ⟨_, by rw [run, read_of_cons standing]⟩
  | atEnd => exact ⟨_, by rw [run, read_of_nil standing]⟩
  | peek =>
    subst standing
    exact ⟨none, by rw [run, peek_eq]; rfl⟩
  | peekAt =>
    subst standing
    exact ⟨reader.undo, rfl⟩
  | @oneOf c valid _ isValid =>
    have accepted : reader.point.ahead?.any valid.contains = true := by
      rw [Point.ahead?, standing]
      simpa using isValid
    exact ⟨_, by rw [run, readOneOf_eq, if_pos accepted, read_of_cons standing]; rfl⟩
  | noneOf notValid =>
    subst standing
    exact ⟨none, by rw [run, readOneOf_of_noneOf notValid]; rfl⟩
  | @run accepts _ _ accepted notFurther =>
    have count : reader.point.run accepts = taken.length := by
      rw [Point.run, standing, (Text.span_exact accepted notFurther).1]
    exact ⟨_, by rw [Reader.run, readWhile_eq, count, Point.advance_eq_past standing]; rfl⟩
  | literal =>
    have found : reader.beginsWith taken = true := by
      rw [beginsWith, standing, List.isPrefixOf_iff_prefix]
      exact List.prefix_append taken rest
    exact ⟨_, by rw [run, readLiteral_eq, if_pos found, Point.advance_eq_past standing]⟩
  | noLiteral differs =>
    subst standing
    exact ⟨none, by rw [run, readLiteral_of_differs differs]; rfl⟩
  | beginsWith literal =>
    subst standing
    have same : reader.beginsWith literal = decide (literal <+: reader.point.rest) := by
      rw [Bool.eq_iff_iff, beginsWith, List.isPrefixOf_iff_prefix, decide_eq_true_iff]
    exact ⟨reader.undo, by rw [run, same]; rfl⟩

end Reader

/-! ## What cannot be undone -/

namespace Command

/-- The operations that leave no step forward to undo. -/
inductive Spends : Command → (ahead : List Char) → Prop where
  | unread (ahead : List Char) : Spends .unread ahead
  | peek (ahead : List Char) : Spends .peek ahead
  | noneOf {valid ahead : List Char} (notValid : ∀ c ∈ ahead.head?, c ∉ valid) :
      Spends (.readOneOf valid) ahead
  | noLiteral {literal ahead : List Char} (differs : ¬literal <+: ahead) :
      Spends (.readLiteral literal) ahead
  | returnToMark (ahead : List Char) : Spends .returnToMark ahead

def stepsForward : Command → Bool
  | .read | .readOneOf _ | .readWhile _ | .readLiteral _ => true
  | _ => false

end Command

namespace Reader

variable {reader after : Reader} {command : Command} {answer : Answer}

theorem undo_unread (undone : reader.unread = .ok after) : after.undo = none := by
  rw [unread] at undone
  split at undone
  · cases undone
  · cases undone
    rfl
  · obtain ⟨back, -, rfl⟩ := map_eq_ok.1 undone
    rfl

theorem undo_returnToMark (returned : reader.returnToMark = .ok after) : after.undo = none := by
  rw [returnToMark] at returned
  split at returned
  · cases returned
  · cases returned
    rfl

theorem undo_cut {kind : Kind} (cuts : reader.cut kind = .ok after) : after.undo = reader.undo := by
  obtain ⟨span, -, rest⟩ := bind_eq_ok.1 cuts
  cases rest
  rfl

theorem undo_take (reader : Reader) : reader.take.2.undo = reader.undo := by
  rw [take]
  split <;> rfl

theorem undo_of_spends (spends : command.Spends reader.point.rest)
    (ran : reader.run command = .ok (answer, after)) : after.undo = none := by
  cases spends with
  | unread =>
    obtain ⟨back, undone, same⟩ := map_eq_ok.1 ran
    cases same
    exact undo_unread undone
  | peek =>
    rw [run, peek_eq] at ran
    cases ran
    rfl
  | noneOf notValid =>
    rw [run, readOneOf_of_noneOf notValid] at ran
    cases ran
    rfl
  | noLiteral differs =>
    rw [run, readLiteral_of_differs differs] at ran
    cases ran
    rfl
  | returnToMark =>
    obtain ⟨back, returned, same⟩ := map_eq_ok.1 ran
    cases same
    exact undo_returnToMark returned

theorem undo_run (still : command.stepsForward = false)
    (ran : reader.run command = .ok (answer, after)) :
    after.undo = none ∨ after.undo = reader.undo := by
  cases command with
  | read | readOneOf | readWhile | readLiteral => cases still
  | unread => exact .inl (undo_of_spends (.unread _) ran)
  | peek => exact .inl (undo_of_spends (.peek _) ran)
  | returnToMark => exact .inl (undo_of_spends (.returnToMark _) ran)
  | cut kind =>
    obtain ⟨further, cuts, same⟩ := map_eq_ok.1 ran
    cases same
    exact .inr (undo_cut cuts)
  | take =>
    cases ran
    exact .inr (undo_take reader)
  | peekAt | held | heldSpan =>
    obtain ⟨_, -, same⟩ := map_eq_ok.1 ran
    cases same
    exact .inr rfl
  | beginsWith | setMark | heldLine | drop | lastCut =>
    cases ran
    exact .inr rfl

theorem undo_performAll {commands : List Command} (spent : reader.undo = none)
    (still : ∀ command ∈ commands, command.stepsForward = false) :
    (reader.performAll commands).undo = none := by
  induction commands generalizing reader with
  | nil => exact spent
  | cons command commands ih =>
    obtain ⟨first, others⟩ := List.forall_mem_cons.1 still
    refine ih ?_ others
    rw [perform]
    split
    next ran =>
      rcases undo_run first ran with nothing | same
      · exact nothing
      · exact same.trans spent
    next => exact spent

theorem run_unread_of_spent (spent : reader.undo = none) :
    reader.run .unread = .error .nothingToUndo := by
  rw [run, unread, spent]
  rfl

/-- A reader whose operations are those on the list of the characters ahead of it. -/
structure Refines (source : Source) (ahead : List Char) (reader : Reader) : Prop where
  standing : Text.dropBytes? source.chars reader.point.offset = some ahead
  /-- Every operation that looks ahead takes some beginning of the text, if only the empty one. -/
  total : ∀ command : Command, command.looksAhead = true →
    ∃ answer taken rest, command.Takes ahead answer taken rest
  /-- The reader goes on behind what an operation takes, and all else but the step that could be
  undone stays. -/
  run : ∀ (command : Command) answer taken rest, command.Takes ahead answer taken rest →
    ∃ undo, reader.run command = .ok (answer, reader.goTo (reader.point.past taken rest) undo)
  unread : ∀ answer after, reader.run .read = .ok (answer, after) →
    after.run .unread = .ok (.done, reader.goTo reader.point none)
  /-- Behind an operation that leaves nothing to undo, undoing is a fault up to the next step
  forward, and changes nothing. -/
  spent : ∀ (command : Command) answer after between, command.Spends ahead →
    reader.run command = .ok (answer, after) →
    (∀ other ∈ between, other.stepsForward = false) →
    (after.performAll between).run .unread = .error .nothingToUndo ∧
      (after.performAll between).perform .unread = after.performAll between

/-- Whatever was tried on a reader before, its operations refine those on the characters ahead. -/
theorem refines_attemptAll (source : Source) (attempts : List Attempt) :
    ∃ ahead, ((ofSource source).attemptAll attempts).Refines source ahead := by
  have placed := (placed_ofSource source).attemptAll attempts
  generalize (ofSource source).attemptAll attempts = reader at placed
  refine ⟨reader.point.rest, {
    standing := placed.point.dropBytes?_eq
    total := fun _ looksAhead => Command.exists_takes looksAhead _
    run := fun _ _ _ _ takes => run_of_takes takes rfl
    unread := ?_
    spent := ?_ }⟩
  · intro answer after ran
    cases ran
    rw [Reader.run, unread_read]
    rfl
  · intro command answer after between spends ran still
    have fails := run_unread_of_spent (undo_performAll (undo_of_spends spends ran) still)
    exact ⟨fails, by rw [perform, fails]⟩

/-- Behind a character of two bytes a line break is ahead, which is read as a whole; looking at it
leaves nothing to undo. -/
theorem refines_attemptAll_break :
    ∃ reader after : Reader, reader =
        (ofSource ⟨0, "", "", ['é', '\r', '\n', 'x'], #[]⟩).attemptAll [.command .read] ∧
      reader.point.offset = 2 ∧ reader.run (.readLiteral ['\r', '\n']) = .ok (.flag true, after) ∧
      after.point = ⟨['x'], 4, 2⟩ ∧
      (reader.performAll [.peek, .setMark]).run .unread = .error .nothingToUndo := by
  obtain ⟨ahead, refines⟩ :=
    refines_attemptAll ⟨0, "", "", ['é', '\r', '\n', 'x'], #[]⟩ [.command .read]
  obtain rfl : ['\r', '\n', 'x'] = ahead := Option.some.inj refines.standing
  obtain ⟨undo, read⟩ := refines.run _ _ _ _ (.literal ['\r', '\n'] ['x'])
  obtain ⟨fails, -⟩ := refines.spent .peek _ _ [.setMark] (.peek _) rfl (by simp [Command.stepsForward])
  exact ⟨_, _, rfl, rfl, read, rfl, fails⟩

end Reader

end Offside
