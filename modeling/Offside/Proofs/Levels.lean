import Mathlib.Data.List.Infix
import Offside.Proofs.BlockLayout

/-!
# Levels behind lines

A line closes the levels wider than itself and leaves its own width as a level.  So behind any lines
the levels are, besides the outermost one, the least widths of the lines from some line on: a width
is still a level exactly if no narrower line has come after it.
-/

namespace Offside

/-- The least of the widths from some line on. -/
def IsSuffixMinimum (widths : List Nat) (level : Nat) : Prop :=
  ∃ last, last <:+ widths ∧ last.min? = some level

theorem not_isSuffixMinimum_nil (level : Nat) : ¬ IsSuffixMinimum [] level := by
  rintro ⟨last, isSuffix, least⟩
  rw [List.suffix_nil.1 isSuffix] at least
  cases least

theorem min?_concat (widths : List Nat) (width : Nat) :
    (widths ++ [width]).min? = some (widths.min?.elim width (min · width)) := by
  induction widths with
  | nil => rfl
  | cons first rest ih =>
    rw [List.cons_append, List.min?_cons, List.min?_cons, ih]
    cases rest.min? <;> simp [Nat.min_assoc]

/-- One more line keeps the minima that are not wider, and replaces the others by its own width. -/
theorem isSuffixMinimum_concat (widths : List Nat) (width level : Nat) :
    IsSuffixMinimum (widths ++ [width]) level ↔
      level = width ∨ IsSuffixMinimum widths level ∧ level ≤ width := by
  constructor
  · rintro ⟨last, isSuffix, least⟩
    rcases List.suffix_concat_iff.1 isSuffix with rfl | ⟨front, rfl, isFront⟩
    · cases least
    -- Without lines in front the minimum is the new width, and else the smaller one of the two.
    rw [min?_concat, Option.some.injEq] at least
    cases found : front.min? with
    | none =>
      rw [found] at least
      exact .inl least.symm
    | some other =>
      rw [found, Option.elim_some] at least
      rcases Nat.le_total other width with kept | replaced
      · rw [Nat.min_eq_left kept] at least
        exact .inr ⟨⟨front, isFront, by rw [found, least]⟩, least ▸ kept⟩
      · rw [Nat.min_eq_right replaced] at least
        exact .inl least.symm
  · rintro (rfl | ⟨⟨last, isSuffix, least⟩, notWider⟩)
    · exact ⟨[level], List.suffix_append .., rfl⟩
    · refine ⟨last ++ [width], List.suffix_concat_iff.2 (.inr ⟨last, rfl, isSuffix⟩), ?_⟩
      rw [min?_concat, least, Option.elim_some, Nat.min_eq_left notWider]

namespace Blocks

variable {blocks : Blocks}

/-! ## One line -/

theorem mem_levels_fit (nested : blocks.Nested) (width level : Nat) :
    level ∈ (blocks.fit width).2.levels ↔
      level = width ∨ level ∈ blocks.levels ∧ level ≤ width := by
  have widest := le_innermost nested
  have innermost := blocks.innermost_mem_levels
  rw [levels_fit nested, levelsBehind]
  by_cases same : width = blocks.innermost
  · subst same
    rw [if_pos rfl]
    refine ⟨fun member => .inr ⟨member, widest level member⟩, ?_⟩
    rintro (rfl | ⟨member, -⟩)
    · exact innermost
    · exact member
  by_cases wider : blocks.innermost < width
  · have all (member : level ∈ blocks.levels) : level ≤ width :=
      Nat.le_trans (widest level member) (Nat.le_of_lt wider)
    simp only [same, wider, if_true, if_false, List.mem_append, List.mem_singleton]
    exact ⟨fun either => either.symm.imp_right fun member => ⟨member, all member⟩,
      fun either => (either.imp_right And.left).symm⟩
  · by_cases isLevel : width ∈ blocks.levels
    · simp only [same, wider, isLevel, if_true, if_false, List.append_nil, List.mem_filter,
        decide_eq_true_eq]
      refine ⟨.inr, ?_⟩
      rintro (rfl | kept)
      · exact ⟨isLevel, Nat.le_refl _⟩
      · exact kept
    · simp only [same, wider, isLevel, if_false, List.mem_append, List.mem_filter,
        decide_eq_true_eq, List.mem_singleton]
      exact or_comm

theorem fit_fst (nested : blocks.Nested) (width : Nat) :
    (blocks.fit width).1 =
      if blocks.innermost < width then .opens
      else if width = blocks.innermost then .same
      else .closes (blocks.levels.countP (width < ·)) (decide (width ∈ blocks.levels)) := by
  have count := size_sub_upTo nested width
  have level := innermost_upTo_eq nested width
  rw [fit]
  split
  next => rfl
  split
  next => rfl
  simp only
  split
  next returns => simp only [count, level.1 returns, decide_true]
  next uneven => simp only [count, mt level.2 uneven, decide_false]

/-- How a line is answered for: as opening a block, as going on with one, or as closing the levels
that are wider. -/
structure Answers (blocks : Blocks) (width : Nat) (fit : Fit) : Prop where
  opens_iff : fit = .opens ↔ ∀ level ∈ blocks.levels, level < width
  same_iff : fit = .same ↔ width ∈ blocks.levels ∧ ∀ level ∈ blocks.levels, level ≤ width
  closes : (∃ level ∈ blocks.levels, width < level) →
    fit = .closes (blocks.levels.countP (width < ·)) (decide (width ∈ blocks.levels))
  /-- A line closes every level that is wider, and never the outermost one. -/
  count : (∃ level ∈ blocks.levels, width < level) →
    0 < blocks.levels.countP (width < ·) ∧ blocks.levels.countP (width < ·) ≤ blocks.size

theorem countP_levels_le (blocks : Blocks) (width : Nat) :
    blocks.levels.countP (width < ·) ≤ blocks.size := by
  obtain ⟨widths, rfl⟩ := blocks.exists_above
  rw [levels_above, List.countP_cons_of_neg (by simp), List.countP_reverse, size_above]
  exact List.countP_le_length

theorem answers_fit (nested : blocks.Nested) (width : Nat) :
    blocks.Answers width (blocks.fit width).1 := by
  have widest := le_innermost nested
  have innermost := blocks.innermost_mem_levels
  have wider : (∀ level ∈ blocks.levels, level < width) ↔ blocks.innermost < width :=
    ⟨fun all => all _ innermost, fun wider level member =>
      Nat.lt_of_le_of_lt (widest level member) wider⟩
  have same : (width ∈ blocks.levels ∧ ∀ level ∈ blocks.levels, level ≤ width) ↔
      width = blocks.innermost := by
    refine ⟨fun ⟨isLevel, all⟩ => Nat.le_antisymm (widest width isLevel) (all _ innermost), ?_⟩
    rintro rfl
    exact ⟨innermost, widest⟩
  have narrower : (∃ level ∈ blocks.levels, width < level) ↔ width < blocks.innermost :=
    ⟨fun ⟨level, member, wider⟩ => Nat.lt_of_lt_of_le wider (widest level member),
      fun narrower => ⟨_, innermost, narrower⟩⟩
  refine ⟨?_, ?_, fun some => ?_, fun some => ⟨?_, countP_levels_le blocks width⟩⟩
  · rw [wider, fit_fst nested]
    split
    next opens => simp [opens]
    next notWider => split <;> simp [notWider]
  · rw [same, fit_fst nested]
    split
    next opens => simp [Nat.ne_of_gt opens]
    next => split <;> simp_all
  · have less := narrower.1 some
    rw [fit_fst nested, if_neg (Nat.not_lt_of_gt less), if_neg (Nat.ne_of_lt less)]
  · exact List.countP_pos_iff.2 (by simpa using some)

/-! ## Any lines -/

/-- The blocks that are open behind lines with content of some widths. -/
def behind (widths : List Nat) : Blocks :=
  widths.foldl (fun blocks width => (blocks.fit width).2) empty

theorem behind_concat (widths : List Nat) (width : Nat) :
    behind (widths ++ [width]) = ((behind widths).fit width).2 :=
  List.foldl_concat ..

theorem nested_behind (widths : List Nat) : (behind widths).Nested := by
  induction widths using List.reverseRecOn with
  | nil => exact nested_empty
  | append_singleton widths width ih =>
    rw [behind_concat]
    exact nested_fit ih width

theorem mem_levels_behind (widths : List Nat) (level : Nat) :
    level ∈ (behind widths).levels ↔ level = 0 ∨ IsSuffixMinimum widths level := by
  induction widths using List.reverseRecOn generalizing level with
  | nil => simp [behind, empty, levels, not_isSuffixMinimum_nil]
  | append_singleton widths width ih =>
    rw [behind_concat, mem_levels_fit (nested_behind widths), ih, isSuffixMinimum_concat,
      or_and_right, or_left_comm]
    refine or_congr_left (and_iff_left_of_imp ?_)
    rintro rfl
    exact Nat.zero_le width

theorem size_eq_countP_levels (nested : blocks.Nested) :
    blocks.size = blocks.levels.countP (0 < ·) := by
  obtain ⟨widths, rfl⟩ := blocks.exists_above
  have positive := ((nested_above widths).1 nested).2
  rw [levels_above, List.countP_cons_of_neg (by simp), List.countP_reverse, size_above, eq_comm,
    List.countP_eq_length]
  simpa using positive

/-- Behind lines of any widths the levels ascend from the outermost one, and the others are the
least widths from some line on.  A further line is answered for by comparing it with the levels.
The number of open blocks can be told, and it counts the levels besides the outermost one, which is
what is left when all blocks are closed. -/
theorem levels_behind (widths : List Nat) :
    (behind widths).levels.Pairwise (· < ·) ∧ (behind widths).levels.head? = some 0 ∧
      (∀ level, level ∈ (behind widths).levels ↔ level = 0 ∨ IsSuffixMinimum widths level) ∧
      (∀ width, (behind widths).Answers width ((behind widths).fit width).1) ∧
      (behind widths).levels.length = (behind widths).size + 1 ∧
      (behind widths).size = (behind widths).levels.countP (0 < ·) ∧
      (behind widths).depth = .ok (behind widths).size ∧
      ∃ closed, (behind widths).close = .ok ((behind widths).size, closed) ∧
        closed.levels = [0] := by
  have nested := nested_behind widths
  exact ⟨nested, head?_levels _, mem_levels_behind widths, answers_fit nested, length_levels _,
    size_eq_countP_levels nested, depth_eq _, empty, close_eq _, rfl⟩

/-- The third line is uneven: it closes both blocks and opens one of its own width. -/
example : (behind [4, 8, 2, 6]).levels = [0, 2, 6] := rfl

end Blocks

end Offside
