import Offside.Proofs.Points
import Offside.Source.Span

/-!
# The line table

The lines of a text follow one another without gaps, so bisection finds the one that an offset
lies on.  The table of a source thus counts lines as a point does that walks over the text.
-/

namespace Offside

namespace Text

/-! ## Line breaks -/

/-- The offsets at which the line breaks of a text end, for a text that begins at `offset`. -/
def breakEnds (offset : Nat) : List Char → List Nat
  | [] => []
  | '\r' :: '\n' :: rest => (offset + 2) :: breakEnds (offset + 2) rest
  | c :: rest =>
    if isBreak c then (offset + 1) :: breakEnds (offset + 1) rest
    else breakEnds (offset + c.utf8Size) rest

theorem breakEnds_cons (offset : Nat) (c : Char) (rest : List Char) :
    breakEnds offset (c :: rest) =
      if closesLine c rest then (offset + c.utf8Size) :: breakEnds (offset + c.utf8Size) rest
      else breakEnds (offset + c.utf8Size) rest := by
  by_cases both : c = '\r' ∧ rest.head? = some '\n'
  · obtain ⟨others, rfl⟩ := List.head?_eq_some_iff.1 both.2
    obtain rfl := both.1
    have feed : breakEnds (offset + 1) ('\n' :: others) =
        (offset + 1 + 1) :: breakEnds (offset + 1 + 1) others := by
      simp [breakEnds, isBreak]
    simp [breakEnds, closesLine, show Char.utf8Size '\r' = 1 from rfl, feed]
  · have single : ∀ others, c = '\r' → rest = '\n' :: others → False := by
      intro others isReturn feed
      exact both ⟨isReturn, by simp [feed]⟩
    rw [breakEnds.eq_3 offset c rest single]
    by_cases isFeed : c = '\n'
    · subst isFeed
      rfl
    by_cases isReturn : c = '\r'
    · subst isReturn
      have closes : closesLine '\r' rest = true := by simpa [closesLine] using both
      rw [if_pos closes]
      rfl
    · simp [isBreak, closesLine, isFeed, isReturn]

theorem lt_of_mem_breakEnds {offset : Nat} {text : List Char} :
    ∀ stop ∈ breakEnds offset text, offset < stop := by
  induction text generalizing offset with
  | nil => simp [breakEnds]
  | cons c rest ih =>
    intro stop member
    have further := @ih (offset + c.utf8Size) stop
    have pos := c.utf8Size_pos
    rw [breakEnds_cons] at member
    split at member
    · rcases List.mem_cons.1 member with rfl | member
      · omega
      · have := further member
        omega
    · have := further member
      omega

/-- The breaks inside the front of a text are those that end at or in front of its end. -/
theorem countP_breakEnds (offset : Nat) (front rest : List Char) :
    (breakEnds offset (front ++ rest)).countP (· ≤ offset + width front) = breaksIn front rest := by
  induction front generalizing offset with
  | nil =>
    rw [breaksIn, List.countP_eq_zero]
    intro stop member within
    have behind := lt_of_mem_breakEnds stop member
    have within := of_decide_eq_true within
    rw [width_nil] at within
    omega
  | cons c front ih =>
    have others := ih (offset + c.utf8Size)
    rw [Nat.add_assoc, ← width_cons] at others
    rw [List.cons_append, breakEnds_cons, breaksIn]
    split
    · rw [List.countP_cons_of_pos (by simp), others, Nat.add_comm]
    · rw [others, Nat.zero_add]

example : breakEnds 0 ['a', '\r', '\n', 'b', '\r', 'c'] = [3, 5] := by decide

/-! ## Lines one behind the other -/

theorem length_lineExtentsFrom (start offset : Nat) (text : List Char) :
    (lineExtentsFrom start offset text).length = breaksIn text [] + 1 := by
  induction text generalizing start offset with
  | nil => rfl
  | cons c rest ih =>
    simp only [lineExtentsFrom, breaksIn, List.append_nil]
    split
    · rw [List.length_cons, ih]
      omega
    · rw [ih, Nat.zero_add]

theorem ordered_of_mem_lineExtentsFrom {start offset : Nat} {text : List Char} {extent : Extent}
    (begun : start ≤ offset) (member : extent ∈ lineExtentsFrom start offset text) :
    start ≤ extent.start ∧ extent.start ≤ extent.stop := by
  induction text generalizing start offset with
  | nil =>
    obtain rfl := List.mem_singleton.1 member
    exact ⟨Nat.le_refl _, begun⟩
  | cons c rest ih =>
    rw [lineExtentsFrom] at member
    split at member
    · rcases List.mem_cons.1 member with rfl | member
      · exact ⟨Nat.le_refl _, Nat.le_trans begun (Nat.le_add_right _ _)⟩
      · obtain ⟨behind, ordered⟩ := ih (Nat.le_refl _) member
        exact ⟨by omega, ordered⟩
    · exact ih (Nat.le_trans begun (Nat.le_add_right _ _)) member

theorem pairwise_lineExtentsFrom {start offset : Nat} (text : List Char) (begun : start ≤ offset) :
    (lineExtentsFrom start offset text).Pairwise fun a b => a.stop ≤ b.start := by
  induction text generalizing start offset with
  | nil => exact List.pairwise_singleton _ _
  | cons c rest ih =>
    rw [lineExtentsFrom]
    split
    · apply List.Pairwise.cons
      · intro extent member
        exact (ordered_of_mem_lineExtentsFrom (Nat.le_refl _) member).1
      · exact ih (Nat.le_refl _)
    · exact ih (Nat.le_trans begun (Nat.le_add_right _ _))

/-! ## The line around an offset -/

/-- The extent of the line on which `front` ends and `rest` begins, of which `part` has been passed.
Only at the end of the text is nothing of the line ahead. -/
inductive AroundLine : (front rest part : List Char) → Extent → Prop where
  | intro {passed part line others : List Char} (upTo : line = [] → others = []) :
      AroundLine (passed ++ part) (line ++ others) part
        ⟨width passed, width (passed ++ part ++ line)⟩

theorem AroundLine.contains {front rest part : List Char} {extent : Extent}
    (around : AroundLine front rest part extent) (nonempty : rest ≠ []) :
    extent.contains (width front) = true := by
  obtain ⟨upTo⟩ := around
  rename_i passed line others
  have ahead : line ≠ [] := by
    intro none
    exact nonempty (by rw [none, upTo none, List.append_nil])
  have pos := width_pos ahead
  simp only [Extent.contains, width_append, Bool.and_eq_true, decide_eq_true_eq]
  omega

theorem head?_lineExtentsFrom (start offset : Nat) (text : List Char) :
    ∃ line others, text = line ++ others ∧ (line = [] → others = []) ∧
      (lineExtentsFrom start offset text).head? = some ⟨start, offset + width line⟩ := by
  induction text generalizing offset with
  | nil => exact ⟨[], [], rfl, id, rfl⟩
  | cons c rest ih =>
    rw [lineExtentsFrom]
    split
    · exact ⟨[c], rest, rfl, by simp, rfl⟩
    · obtain ⟨line, others, rfl, -, head⟩ := ih (offset + c.utf8Size)
      refine ⟨c :: line, others, rfl, by simp, ?_⟩
      rw [head, width_cons, Nat.add_assoc]

/-- What a line holds in front of a place: `part`, if the line was under way with that, and the text
from there on, or only what comes behind the last break in that text. -/
def lineSoFar (part : List Char) : (front rest : List Char) → List Char
  | [], _ => part
  | c :: front, rest =>
    if closesLine c (front ++ rest) then lineSoFar [] front rest
    else lineSoFar (part ++ [c]) front rest

theorem getElem?_lineExtentsFrom (passed part front rest : List Char) :
    ∃ extent, AroundLine (passed ++ part ++ front) rest (lineSoFar part front rest) extent ∧
      (lineExtentsFrom (width passed) (width (passed ++ part)) (front ++ rest))[breaksIn front rest]? =
        some extent := by
  induction front generalizing passed part with
  | nil =>
    obtain ⟨line, others, rfl, upTo, head⟩ :=
      head?_lineExtentsFrom (width passed) (width (passed ++ part)) rest
    rw [List.append_nil]
    refine ⟨_, .intro upTo, ?_⟩
    rw [List.nil_append, breaksIn, ← List.head?_eq_getElem?, head, ← width_append]
  | cons c front ih =>
    have next : width (passed ++ part) + c.utf8Size = width (passed ++ part ++ [c]) := by
      rw [width_append (passed ++ part), width_cons, width_nil, Nat.add_zero]
    have split : passed ++ part ++ c :: front = passed ++ part ++ [c] ++ front := by simp
    rw [List.cons_append, lineExtentsFrom, breaksIn, lineSoFar, next, split]
    by_cases closes : closesLine c (front ++ rest) = true
    · have behind := ih (passed ++ part ++ [c]) []
      rw [List.append_nil] at behind
      rw [if_pos closes, if_pos closes, if_pos closes, Nat.add_comm 1]
      simpa only [List.getElem?_cons_succ] using behind
    · have further := ih passed (part ++ [c])
      rw [← List.append_assoc] at further
      rw [if_neg closes, if_neg closes, if_neg closes, Nat.zero_add]
      exact further

theorem exists_aroundLine (front rest : List Char) :
    ∃ extent, AroundLine front rest (lineSoFar [] front rest) extent ∧
      (lineExtents (front ++ rest))[breaksIn front rest]? = some extent :=
  getElem?_lineExtentsFrom [] [] front rest

end Text

namespace Source

/-! ## Finding the line -/

/-- Bisection ends at the line whose index divides the lines behind the offset from the others. -/
theorem bisect_eq {lines : Array Extent} {offset base size index : Nat} (above : base ≤ index)
    (below : index < base + size) (inside : base + size ≤ lines.size)
    (divides : ∀ i extent, lines[i]? = some extent →
      (lineOrdering extent offset = .gt ↔ index < i)) :
    bisect lines offset base size = index := by
  -- The index stays in the window: the part that is dropped lies on the other side of it.
  fun_induction bisect lines offset base size with
  | case1 base size single => omega
  | case2 base size several half middle behind ih =>
    obtain ⟨extent, here, ordering⟩ := Option.map_eq_some_iff.1 behind
    have less : index < middle := (divides middle extent here).1 ordering
    exact ih above (by omega) (by omega)
  | case3 base size several half middle notBehind ih =>
    have within : middle < lines.size := by omega
    have here : lines[middle]? = some lines[middle] := Array.getElem?_eq_getElem within
    have reached : middle ≤ index := by
      apply Nat.le_of_not_lt
      intro less
      apply notBehind
      rw [here, Option.map_some, (divides middle _ here).2 less]
    exact ih reached (by omega) (by omega)

structure InOrder (extents : List Extent) : Prop where
  ordered : ∀ extent ∈ extents, extent.start ≤ extent.stop
  follow : extents.Pairwise fun a b => a.stop ≤ b.start

theorem inOrder_lineExtents (text : List Char) : InOrder (Text.lineExtents text) where
  ordered _ member := (Text.ordered_of_mem_lineExtentsFrom (Nat.le_refl 0) member).2
  follow := Text.pairwise_lineExtentsFrom text (Nat.le_refl 0)

section

variable {extents : List Extent} {index offset : Nat} {extent : Extent}

theorem InOrder.lineOrdering_eq_gt_iff (inOrder : InOrder extents)
    (here : extents[index]? = some extent) (contains : extent.contains offset = true) {i : Nat}
    {other : Extent} (there : extents[i]? = some other) :
    lineOrdering other offset = .gt ↔ index < i := by
  obtain ⟨inside, rfl⟩ := List.getElem?_eq_some_iff.1 here
  obtain ⟨inside', rfl⟩ := List.getElem?_eq_some_iff.1 there
  have follow := List.pairwise_iff_getElem.1 inOrder.follow
  have ordered := inOrder.ordered _ (List.getElem_mem inside')
  simp only [Extent.contains, Bool.and_eq_true, decide_eq_true_eq] at contains
  -- A line with a higher index begins behind the one that holds the offset, one with a lower ends
  -- in front of it.
  rcases Nat.lt_trichotomy index i with less | rfl | greater
  · have behind := follow index i inside inside' less
    have apart : extents[i].contains offset = false := by
      simp only [Extent.contains, Bool.and_eq_false_iff, decide_eq_false_iff_not]
      omega
    rw [lineOrdering, apart, if_neg Bool.false_ne_true, if_pos (by omega)]
    exact iff_of_true rfl less
  · have holds : extents[index].contains offset = true := by
      simp only [Extent.contains, Bool.and_eq_true, decide_eq_true_eq]
      omega
    rw [lineOrdering, if_pos holds]
    exact iff_of_false (by simp) (Nat.lt_irrefl _)
  · have before := follow i index inside' inside greater
    rw [lineOrdering]
    split
    · exact iff_of_false (by simp) (by omega)
    · rw [if_neg (by omega)]
      exact iff_of_false (by simp) (by omega)

theorem InOrder.findLine?_eq (inOrder : InOrder extents) (here : extents[index]? = some extent)
    (contains : extent.contains offset = true) :
    findLine? extents.toArray offset = some index := by
  obtain ⟨inside, -⟩ := List.getElem?_eq_some_iff.1 here
  have found : bisect extents.toArray offset 0 extents.toArray.size = index := by
    apply bisect_eq (Nat.zero_le _)
    · rw [Nat.zero_add, List.size_toArray]
      exact inside
    · exact Nat.le_of_eq (Nat.zero_add _)
    · intro i other there
      exact inOrder.lineOrdering_eq_gt_iff here contains (by simpa using there)
  rw [findLine?, found]
  simp [here, contains]

end

/-! ## Positions -/

theorem charsBefore_append (limit offset : Nat) (xs ys : List Char)
    (reaches : limit = offset + Text.width xs) :
    Text.charsBefore limit offset (xs ++ ys) = xs.length := by
  induction xs generalizing offset with
  | nil =>
    cases ys with
    | nil => rfl
    | cons c ys =>
      rw [List.nil_append, Text.charsBefore, if_neg (by rw [reaches, Text.width_nil]; omega)]
      rfl
  | cons c xs ih =>
    have pos := c.utf8Size_pos
    rw [Text.width_cons] at reaches
    rw [List.cons_append, Text.charsBefore, if_pos (by omega), ih _ (by omega), List.length_cons]

/-- Whether the line table of a source is the one of its content. -/
def HasTable (source : Source) : Prop := source.lines = (Text.lineExtents source.chars).toArray

theorem hasTable_ofContent (serial : Nat) (path identifier content : String) :
    (ofContent serial path identifier content).HasTable := rfl

variable {source : Source} {front rest : List Char}

theorem HasTable.lineIndex?_eq (hasTable : source.HasTable) (content : source.chars = front ++ rest) :
    source.lineIndex? (Text.width front) = .ok (some (Text.breaksIn front rest)) := by
  rw [HasTable, content] at hasTable
  rw [lineIndex?, Source.size, hasTable, content]
  cases rest with
  | nil =>
    have lines : (Text.lineExtents (front ++ [])).length = Text.breaksIn front [] + 1 := by
      rw [List.append_nil, Text.lineExtents, Text.length_lineExtentsFrom]
    rw [if_pos (by simp), if_neg (by simp [Text.lineExtents_ne_nil]), List.size_toArray, lines]
    rfl
  | cons c rest =>
    obtain ⟨extent, around, here⟩ := Text.exists_aroundLine front (c :: rest)
    have pos := Text.width_pos (List.cons_ne_nil c rest)
    rw [if_neg (by rw [Text.width_append]; omega)]
    rw [(inOrder_lineExtents _).findLine?_eq here (around.contains (List.cons_ne_nil c rest))]

/-- Between two characters a source finds the line that a point has which walks there; the column
counts the characters of the line in front. -/
theorem HasTable.position?_eq (hasTable : source.HasTable) (content : source.chars = front ++ rest) :
    source.position? (Text.width front) =
      .ok (some ⟨(Point.between front rest).line, (Text.lineSoFar [] front rest).length + 1⟩) := by
  obtain ⟨extent, around, here⟩ := Text.exists_aroundLine front rest
  generalize Text.lineSoFar [] front rest = inLine at *
  have boundary : Text.isBoundary source.chars (Text.width front) = true :=
    Text.isBoundary_iff.2 ⟨front, rest, content, rfl⟩
  have lines : source.lines[Text.breaksIn front rest]? = some extent := by
    rw [hasTable, content, List.getElem?_toArray, here]
  obtain ⟨upTo⟩ := around
  rename_i passed line others
  have slice : source.slice (Text.width passed) (Text.width (passed ++ inLine ++ line)) =
      .ok (inLine ++ line) := by
    rw [List.append_assoc passed]
    apply @Source.slice_eq _ _ _ others
    rw [content]
    simp only [List.append_assoc]
  have column : Text.charsBefore (Text.width (passed ++ inLine)) (Text.width passed)
      (inLine ++ line) = inLine.length :=
    charsBefore_append _ _ _ _ (Text.width_append _ _)
  simp only [position?, boundary, hasTable.lineIndex?_eq content, bind, Except.bind, pure, Except.pure,
    Bool.not_true, Bool.false_eq_true, if_false, lines, slice, column, Point.between, Nat.add_comm 1]

end Source

end Offside
