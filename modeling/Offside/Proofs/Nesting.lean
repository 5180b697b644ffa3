import Offside.Layout.Blocks
import Offside.Token.Kind

/-!
# Nested blocks

The levels of open blocks ascend.  So the width of a line divides them: the blocks that a line
closes are the levels wider than the line, and the line fits exactly if its width is a level.
Opening and closing blocks counts up and down.
-/

namespace Offside

namespace Blocks

variable {blocks : Blocks}

/-- Every level is wider than the one outside of it. -/
def Nested (blocks : Blocks) : Prop := blocks.levels.Pairwise (· < ·)

theorem nested_above (widths : List Nat) :
    (above widths).Nested ↔ widths.Pairwise (· > ·) ∧ ∀ width ∈ widths, 0 < width := by
  simp [Nested, List.pairwise_reverse, and_comm]

theorem nested_empty : empty.Nested := by simp [Nested, levels, empty]

theorem levels_upTo (nested : blocks.Nested) (width : Nat) :
    (blocks.upTo width).levels = blocks.levels.filter (· ≤ width) := by
  obtain ⟨widths, rfl⟩ := blocks.exists_above
  obtain ⟨descending, -⟩ := (nested_above widths).1 nested
  clear nested
  -- The first level that is not wider is kept, and so are those behind it, which are narrower.
  have kept : widths.dropWhile (width < ·) = widths.filter (· ≤ width) := by
    induction widths with
    | nil => rfl
    | cons first rest ih =>
      obtain ⟨narrower, further⟩ := List.pairwise_cons.1 descending
      rw [List.dropWhile_cons]
      by_cases wider : width < first
      · simpa [wider] using ih further
      · have all : ∀ other ∈ first :: rest, decide (other ≤ width) = true := by
          simp only [List.forall_mem_cons, decide_eq_true_eq]
          exact ⟨by omega, fun other member => by have := narrower other member; omega⟩
        rw [List.filter_eq_self.2 all]
        simp [wider]
  simp [kept]

theorem nested_upTo (nested : blocks.Nested) (width : Nat) : (blocks.upTo width).Nested := by
  rw [Nested, levels_upTo nested]
  exact nested.filter _

theorem size_sub_upTo (nested : blocks.Nested) (width : Nat) :
    blocks.size - (blocks.upTo width).size = blocks.levels.countP (width < ·) := by
  have split := List.length_eq_countP_add_countP (l := blocks.levels) fun level =>
    decide (width < level)
  have kept := congrArg List.length (levels_upTo nested width)
  rw [← List.countP_eq_length_filter, length_levels] at kept
  rw [length_levels] at split
  simp only [decide_eq_true_eq, Nat.not_lt] at split
  omega

theorem innermost_mem_levels (blocks : Blocks) : blocks.innermost ∈ blocks.levels := by
  obtain ⟨widths, rfl⟩ := blocks.exists_above
  cases widths <;> simp

theorem le_innermost (nested : blocks.Nested) :
    ∀ level ∈ blocks.levels, level ≤ blocks.innermost := by
  obtain ⟨widths, rfl⟩ := blocks.exists_above
  obtain ⟨descending, -⟩ := (nested_above widths).1 nested
  cases widths with
  | nil => simp
  | cons first rest =>
    simp only [levels_above, innermost_above, List.headD_cons, List.forall_mem_cons,
      List.mem_reverse]
    exact ⟨Nat.zero_le _, Nat.le_refl _, fun level member =>
      Nat.le_of_lt ((List.pairwise_cons.1 descending).1 level member)⟩

theorem innermost_upTo_eq (nested : blocks.Nested) (width : Nat) :
    (blocks.upTo width).innermost = width ↔ width ∈ blocks.levels := by
  have left := (blocks.upTo width).innermost_mem_levels
  have widest := le_innermost (nested_upTo nested width)
  rw [levels_upTo nested] at left widest
  constructor
  · intro same
    exact same ▸ (List.mem_filter.1 left).1
  · intro level
    exact Nat.le_antisymm (innermost_upTo_le blocks width)
      (widest width (List.mem_filter.2 ⟨level, by simp⟩))

theorem nested_enter (nested : blocks.Nested) {width : Nat} (wider : blocks.innermost < width) :
    (blocks.enter width).Nested := by
  rw [Nested, levels_enter]
  refine List.pairwise_append.2
    ⟨nested, List.pairwise_singleton _ _, fun level member other last => ?_⟩
  rw [List.mem_singleton.1 last]
  exact Nat.lt_of_le_of_lt (le_innermost nested level member) wider

theorem nested_fit (nested : blocks.Nested) (width : Nat) : (blocks.fit width).2.Nested := by
  rw [fit]
  split
  next wider => exact nested_enter nested wider
  split
  next => exact nested
  simp only
  have le := innermost_upTo_le blocks width
  split
  next => exact nested_upTo nested width
  next uneven => exact nested_enter (nested_upTo nested width) (Nat.lt_of_le_of_ne le uneven)

end Blocks

/-! ## Counting -/

/-- How many blocks are open behind tokens of some kinds; none if a block is closed where there is
none to close. -/
def depth? (opened : Nat) : List Kind → Option Nat
  | [] => some opened
  | kind :: kinds =>
    if kind = .indent then depth? (opened + 1) kinds
    else if kind = .dedent then if opened = 0 then none else depth? (opened - 1) kinds
    else depth? opened kinds

theorem depth?_append (opened : Nat) (xs ys : List Kind) :
    depth? opened (xs ++ ys) = (depth? opened xs).bind fun opened => depth? opened ys := by
  induction xs generalizing opened with
  | nil => rfl
  | cons kind xs ih =>
    simp only [List.cons_append, depth?]
    split
    next => exact ih _
    split
    next =>
      split
      next => rfl
      next => exact ih _
    next => exact ih _

theorem depth?_dedents {opened count : Nat} (enough : count ≤ opened) :
    depth? opened (List.replicate count .dedent) = some (opened - count) := by
  induction count generalizing opened with
  | zero => rfl
  | succ count ih =>
    have further := @ih (opened - 1) (by omega)
    have some : opened ≠ 0 := by omega
    simp only [List.replicate_succ, depth?, reduceCtorEq, some, if_true, if_false, further]
    congr 1
    omega

theorem depth?_others (opened : Nat) {kinds : List Kind}
    (others : ∀ kind ∈ kinds, kind ≠ .indent ∧ kind ≠ .dedent) :
    depth? opened kinds = some opened := by
  induction kinds with
  | nil => rfl
  | cons kind kinds ih =>
    obtain ⟨⟨notIndent, notDedent⟩, others⟩ := List.forall_mem_cons.1 others
    rw [depth?, if_neg notIndent, if_neg notDedent, ih others]

theorem count_of_depth? {opened after : Nat} {kinds : List Kind}
    (depth : depth? opened kinds = some after) :
    opened + kinds.count .indent = after + kinds.count .dedent := by
  induction kinds generalizing opened with
  | nil =>
    cases depth
    rfl
  | cons kind kinds ih =>
    rw [depth?] at depth
    split at depth
    next isIndent =>
      have counted := ih depth
      simp [isIndent]
      omega
    next notIndent =>
    split at depth
    next isDedent =>
      split at depth
      next => cases depth
      next =>
        have counted := ih depth
        simp [isDedent]
        omega
    next notDedent =>
      rw [List.count_cons_of_ne notIndent, List.count_cons_of_ne notDedent]
      exact ih depth

/-- Nowhere on the way more blocks have been closed than opened. -/
theorem count_prefix_of_depth? {opened after : Nat} {front kinds : List Kind}
    (depth : depth? opened kinds = some after) (begins : front <+: kinds) :
    front.count .dedent ≤ opened + front.count .indent := by
  obtain ⟨back, rfl⟩ := begins
  rw [depth?_append] at depth
  obtain ⟨between, first, -⟩ := Option.bind_eq_some_iff.1 depth
  have counted := count_of_depth? first
  omega

/-- Tokens of these kinds open and close blocks so that `opened` are open in the end, and none is
closed before it has been opened. -/
structure Balanced (kinds : List Kind) (opened : Nat) : Prop where
  total : kinds.count .indent = kinds.count .dedent + opened
  early : ∀ front, front <+: kinds → front.count .dedent ≤ front.count .indent

theorem balanced_of_depth? {opened : Nat} {kinds : List Kind}
    (depth : depth? 0 kinds = some opened) : Balanced kinds opened where
  total := by
    have counted := count_of_depth? depth
    omega
  early front begins := by
    have counted := count_prefix_of_depth? depth begins
    omega

end Offside
