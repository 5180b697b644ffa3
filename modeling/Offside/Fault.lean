/-!
# Faults

A fault is the misuse of an operation, or data that breaks what an operation relies on.  It is no
answer of the program: the operation that raises it has no result and changes nothing.
-/

namespace Offside

/-- What can go wrong besides the errors a source text can contain. -/
inductive Fault where
  /-- A step back without a step forward that it could undo. -/
  | nothingToUndo
  | zeroLookahead
  /-- A return to a place in front of the held text. -/
  | markBehindStart
  /-- A span of held text whose start lies behind the current place. -/
  | heldReversed
  /-- A step back to an offset or a line below zero. -/
  | belowZero
  | sinkFailed
  /-- A cut out of a text at offsets that are no ascending boundaries of it. -/
  | badSlice
  | noLines
  /-- A stack of levels without the outermost one. -/
  | noLevels
  /-- A producer named after a source whose identifier contains a NUL character. -/
  | badProducerName
  /-- A queue with room for more tokens than memory has addresses for. -/
  | queueTooLong
  deriving DecidableEq, Repr

namespace Fault

def message? : Fault → Option String
  | nothingToUndo => some "`backup` may only be called once per call of `next`"
  | zeroLookahead => some "lookahead distance starts at 1"
  | markBehindStart => some "cannot roll back over emitted text"
  | heldReversed => some "cursor positions are always on character boundaries"
  | sinkFailed => some "handler panics"
  | belowZero | badSlice | noLines | noLevels | badProducerName | queueTooLong => none

end Fault

/-! ## Results that may be faults -/

variable {α β : Type}

theorem bind_eq_ok {first : Except Fault α} {second : α → Except Fault β} {b : β} :
    (first >>= second) = .ok b ↔ ∃ a, first = .ok a ∧ second a = .ok b := by
  cases first <;> simp [bind, Except.bind]

theorem pure_eq_ok {a b : α} : (pure a : Except Fault α) = .ok b ↔ a = b := by
  simp [pure, Except.pure]

theorem map_eq_ok {first : Except Fault α} {f : α → β} {b : β} :
    first.map f = .ok b ↔ ∃ a, first = .ok a ∧ f a = b := by
  cases first <;> simp [Except.map]

end Offside
