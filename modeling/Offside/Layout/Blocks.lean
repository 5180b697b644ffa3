import Offside.Fault

/-!
# Open blocks

The levels of a text form a stack.  At its bottom lies the outermost level, which has width zero and
is never closed; every level above it is an open block.  The width of a new line either opens a
block, goes on with the innermost one, or closes all blocks that are wider.
-/

namespace Offside

/-- How the width of a new line fits the open blocks. -/
inductive Fit where
  | opens
  | same
  /-- The line closes `count` blocks.  If it is not `exact`, its width lies between two levels, and
  behind the closed blocks it opens one of that width. -/
  | closes (count : Nat) (exact : Bool)
  deriving DecidableEq, Repr

/-- A stack of levels, given by their widths, innermost first. -/
structure Blocks where
  stack : List Nat
  outermost : stack.getLast? = some 0
  deriving DecidableEq, Repr

namespace Blocks

def empty : Blocks := ⟨[0], rfl⟩

def innermost (blocks : Blocks) : Nat := blocks.stack.headD 0

/-- The widths of all levels, outermost first. -/
def levels (blocks : Blocks) : List Nat := blocks.stack.reverse

def size (blocks : Blocks) : Nat := blocks.stack.length - 1

/-- Number of open blocks; a fault if not even the outermost level is there. -/
def depth (blocks : Blocks) : Except Fault Nat :=
  if blocks.stack.length < 1 then .error .noLevels else .ok blocks.size

/-- Takes wider levels off a stack as long as there is another one below. -/
def pop (width : Nat) : List Nat → List Nat
  | first :: next :: rest =>
    if width < first then pop width (next :: rest) else first :: next :: rest
  | stack => stack

theorem getLast?_pop (width : Nat) (stack : List Nat) :
    (pop width stack).getLast? = stack.getLast? := by
  fun_induction pop width stack with
  | case1 first next rest wider ih => rw [ih, List.getLast?_cons_cons]
  | case2 => rfl
  | case3 => rfl

def upTo (blocks : Blocks) (width : Nat) : Blocks where
  stack := pop width blocks.stack
  outermost := (getLast?_pop width blocks.stack).trans blocks.outermost

def enter (blocks : Blocks) (width : Nat) : Blocks where
  stack := width :: blocks.stack
  outermost := by simp [List.getLast?_cons, blocks.outermost]

/-- Compares the width of a new line with the open blocks, and opens and closes blocks as it
says. -/
def fit (blocks : Blocks) (width : Nat) : Fit × Blocks :=
  if blocks.innermost < width then (.opens, blocks.enter width)
  else if width = blocks.innermost then (.same, blocks)
  else
    let kept := blocks.upTo width
    let count := blocks.size - kept.size
    if kept.innermost = width then (.closes count true, kept)
    else (.closes count false, kept.enter width)

def close (blocks : Blocks) : Except Fault (Nat × Blocks) :=
  blocks.depth.map fun count =>
    (count, ⟨blocks.stack.getLast?.toList, by simp [blocks.outermost]⟩)

/-! ## Blocks above the outermost level -/

/-- The blocks of some widths, innermost first. -/
def above (widths : List Nat) : Blocks := ⟨widths ++ [0], List.getLast?_concat⟩

def widths (blocks : Blocks) : List Nat := blocks.stack.dropLast

@[simp] theorem widths_above (widths : List Nat) : (above widths).widths = widths :=
  List.dropLast_concat

@[simp] theorem above_widths (blocks : Blocks) : above blocks.widths = blocks := by
  obtain ⟨stack, outermost⟩ := blocks
  obtain ⟨widths, rfl⟩ := List.getLast?_eq_some_iff.1 outermost
  simp [above, Blocks.widths]

theorem exists_above (blocks : Blocks) : ∃ widths, blocks = above widths :=
  ⟨blocks.widths, blocks.above_widths.symm⟩

@[simp] theorem size_above (widths : List Nat) : (above widths).size = widths.length := by
  simp [size, above]

@[simp] theorem innermost_above (widths : List Nat) :
    (above widths).innermost = widths.headD 0 := by
  cases widths with
  | nil => rfl
  | cons => rfl

@[simp] theorem levels_above (widths : List Nat) : (above widths).levels = 0 :: widths.reverse := by
  simp [levels, above]

theorem pop_concat (width : Nat) (widths : List Nat) :
    pop width (widths ++ [0]) = widths.dropWhile (width < ·) ++ [0] := by
  induction widths with
  | nil => rfl
  | cons first rest ih =>
    -- The outermost level lies below, so there always is another one.
    have nonempty : rest ++ [0] ≠ [] := by simp
    obtain ⟨next, others, below⟩ := List.exists_cons_of_ne_nil nonempty
    rw [List.cons_append, List.dropWhile_cons, below, pop, ← below, ih]
    by_cases wider : width < first
    · simp [wider]
    · simp [wider]

@[simp] theorem upTo_above (widths : List Nat) (width : Nat) :
    (above widths).upTo width = above (widths.dropWhile (width < ·)) := by
  simp only [upTo, above, mk.injEq]
  exact pop_concat width widths

@[simp] theorem enter_above (widths : List Nat) (width : Nat) :
    (above widths).enter width = above (width :: widths) := rfl

/-- There always is an outermost level, so the number of blocks can be told. -/
theorem depth_eq (blocks : Blocks) : blocks.depth = .ok blocks.size := by
  obtain ⟨widths, rfl⟩ := blocks.exists_above
  simp [depth, above]

theorem close_eq (blocks : Blocks) : blocks.close = .ok (blocks.size, empty) := by
  simp [close, empty, depth_eq, Except.map, blocks.outermost]

/-! ## Levels -/

@[simp] theorem length_levels (blocks : Blocks) : blocks.levels.length = blocks.size + 1 := by
  obtain ⟨widths, rfl⟩ := blocks.exists_above
  simp

@[simp] theorem head?_levels (blocks : Blocks) : blocks.levels.head? = some 0 := by
  rw [levels, List.head?_reverse, blocks.outermost]

@[simp] theorem innermost_enter (blocks : Blocks) (width : Nat) :
    (blocks.enter width).innermost = width := rfl

@[simp] theorem levels_enter (blocks : Blocks) (width : Nat) :
    (blocks.enter width).levels = blocks.levels ++ [width] := by
  simp [levels, enter]

@[simp] theorem size_enter (blocks : Blocks) (width : Nat) :
    (blocks.enter width).size = blocks.size + 1 := by
  obtain ⟨widths, rfl⟩ := blocks.exists_above
  simp

theorem size_upTo_le (blocks : Blocks) (width : Nat) : (blocks.upTo width).size ≤ blocks.size := by
  obtain ⟨widths, rfl⟩ := blocks.exists_above
  simpa using (List.dropWhile_suffix _).length_le

theorem innermost_upTo_le (blocks : Blocks) (width : Nat) :
    (blocks.upTo width).innermost ≤ width := by
  obtain ⟨widths, rfl⟩ := blocks.exists_above
  rw [upTo_above, innermost_above]
  induction widths with
  | nil => simp
  | cons first rest ih =>
    rw [List.dropWhile_cons]
    split
    next => exact ih
    next narrow => simpa using narrow

theorem fit_zero (blocks : Blocks) :
    (blocks.fit 0).1 = .same ∨ ∃ count, (blocks.fit 0).1 = .closes count true := by
  have outermost : (blocks.upTo 0).innermost = 0 := Nat.le_zero.1 (innermost_upTo_le blocks 0)
  by_cases same : 0 = blocks.innermost
  · simp [fit, ← same]
  · simp [fit, same, outermost]

end Blocks

end Offside
