import Mathlib.Data.List.Chain
import Mathlib.Data.Prod.Lex
import Offside.Proofs.Lines
import Offside.Proofs.Lookups

/-!
# Ranges of lines and positions on them

The line table of a text cuts it into its lines, one behind the other, of which each but the last
ends with its line break.  A position is a place on one of these lines, and positions come in the
order of the offsets they stand for.
-/

namespace Offside

namespace Text

/-! ## The lines of a text -/

/-- The lines of a text: each but the last one ends with its only line break, and the last one has
none. -/
inductive IsLines : (lines : List (List Char)) → (text : List Char) → Prop where
  | last {line : List Char} (noBreak : ∀ c ∈ line, isBreak c = false) : IsLines [line] line
  | ended {line ended rest : List Char} {others : List (List Char)}
      (noBreak : ∀ c ∈ line, isBreak c = false) (isLineBreak : IsLineBreak ended rest)
      (further : IsLines others rest) : IsLines ((line ++ ended) :: others) (line ++ ended ++ rest)

def extentsFrom (start : Nat) : List (List Char) → List Extent
  | [] => []
  | text :: others => ⟨start, start + width text⟩ :: extentsFrom (start + width text) others

variable {lines : List (List Char)} {text : List Char}

theorem exists_isLines (text : List Char) : ∃ lines, IsLines lines text := by
  have whole := lineAhead_append_drop text
  have noBreak : ∀ c ∈ lineAhead text, isBreak c = false := fun _ => isBreak_of_mem_lineAhead
  cases behind : text.drop (lineAhead text).length with
  | nil =>
    rw [behind, List.append_nil] at whole
    rw [whole] at noBreak
    exact ⟨[text], .last noBreak⟩
  | cons c rest =>
    have isBreak := isBreak_head?_drop_lineAhead c (by rw [behind]; rfl)
    obtain ⟨others, split, isLineBreak⟩ := exists_isLineBreak rest isBreak
    rw [behind, split, ← List.append_assoc] at whole
    have shorter : others.length < text.length := by
      have some := List.length_pos_iff.2 isLineBreak.ne_nil
      rw [← whole, List.length_append, List.length_append]
      omega
    obtain ⟨lines, further⟩ := exists_isLines others
    have isLines := IsLines.ended noBreak isLineBreak further
    rw [whole] at isLines
    exact ⟨_, isLines⟩
termination_by text.length

theorem IsLines.ne_nil (isLines : IsLines lines text) : lines ≠ [] := by
  cases isLines with
  | last | ended => exact List.cons_ne_nil _ _

theorem IsLines.flatten_eq (isLines : IsLines lines text) : lines.flatten = text := by
  induction isLines with
  | last => exact List.flatten_singleton
  | ended _ _ _ ih => rw [List.flatten_cons, ih]

theorem IsLines.getElem? (isLines : IsLines lines text) {index : Nat} {line : List Char}
    (here : lines[index]? = some line) :
    ∃ body ended, line = body ++ ended ∧ (∀ c ∈ body, isBreak c = false) ∧
      (ended = [] ∧ index + 1 = lines.length ∨ ∃ rest, IsLineBreak ended rest) := by
  induction isLines generalizing index with
  | @last body noBreak =>
    obtain ⟨inside, rfl⟩ := List.getElem?_eq_some_iff.1 here
    obtain rfl : index = 0 := by simpa using inside
    exact ⟨body, [], (List.append_nil body).symm, noBreak, .inl ⟨rfl, rfl⟩⟩
  | @ended body ended rest others noBreak isLineBreak _ ih =>
    cases index with
    | zero =>
      cases here
      exact ⟨body, ended, rfl, noBreak, .inr ⟨rest, isLineBreak⟩⟩
    | succ index =>
      rw [List.getElem?_cons_succ] at here
      obtain ⟨body, ended, split, noBreak, last⟩ := ih here
      refine ⟨body, ended, split, noBreak, last.imp_left fun atEnd => ⟨atEnd.1, ?_⟩⟩
      rw [List.length_cons, atEnd.2]

/-! ## Their extents -/

theorem closesLine_of_notBreak {c : Char} (notBreak : isBreak c = false) (rest : List Char) :
    closesLine c rest = false := by
  simp only [isBreak, Bool.or_eq_false_iff, beq_eq_false_iff_ne] at notBreak
  simp [closesLine, notBreak]

theorem lineExtentsFrom_append {line : List Char} (noBreak : ∀ c ∈ line, isBreak c = false)
    (start offset : Nat) (rest : List Char) :
    lineExtentsFrom start offset (line ++ rest) =
      lineExtentsFrom start (offset + width line) rest := by
  induction line generalizing offset with
  | nil => rfl
  | cons c line ih =>
    obtain ⟨first, others⟩ := List.forall_mem_cons.1 noBreak
    rw [List.cons_append, lineExtentsFrom, closesLine_of_notBreak first, if_neg Bool.false_ne_true,
      ih others, width_cons, Nat.add_assoc]

theorem IsLineBreak.lineExtentsFrom_append {ended rest : List Char}
    (isLineBreak : IsLineBreak ended rest) (start offset : Nat) :
    lineExtentsFrom start offset (ended ++ rest) =
      ⟨start, offset + width ended⟩ ::
        lineExtentsFrom (offset + width ended) (offset + width ended) rest := by
  rcases isLineBreak with rfl | rfl | ⟨rfl, single⟩
  · rfl
  · rfl
  · have closes : closesLine '\r' rest = true := by simpa [closesLine] using single
    rw [List.singleton_append, lineExtentsFrom, if_pos closes]
    rfl

/-- The line table holds the extents of the lines. -/
theorem IsLines.lineExtentsFrom_eq (isLines : IsLines lines text) (start : Nat) :
    lineExtentsFrom start start text = extentsFrom start lines := by
  induction isLines generalizing start with
  | last noBreak =>
    have whole := lineExtentsFrom_append noBreak start start []
    rw [List.append_nil] at whole
    exact whole
  | ended noBreak isLineBreak _ ih =>
    rw [List.append_assoc, Text.lineExtentsFrom_append noBreak, isLineBreak.lineExtentsFrom_append,
      Nat.add_assoc, ← width_append, ih, extentsFrom]

example : lineExtents ['a', '\r', 'b', '\r', '\n'] =
    extentsFrom 0 [['a', '\r'], ['b', '\r', '\n'], []] := by
  decide

theorem getElem?_extentsFrom (start : Nat) (lines : List (List Char)) (index : Nat) :
    (extentsFrom start lines)[index]? = lines[index]?.map fun line =>
      ⟨start + width (lines.take index).flatten,
        start + width ((lines.take index).flatten ++ line)⟩ := by
  induction lines generalizing start index with
  | nil => rfl
  | cons line lines ih =>
    cases index with
    | zero => rfl
    | succ index =>
      rw [extentsFrom, List.getElem?_cons_succ, ih, List.getElem?_cons_succ]
      simp only [List.take_succ_cons, List.flatten_cons, width_append, Nat.add_assoc]

theorem isChain_extentsFrom (start : Nat) (lines : List (List Char)) :
    (extentsFrom start lines).IsChain fun a b => a.stop = b.start := by
  induction lines generalizing start with
  | nil => exact .nil
  | cons line lines ih =>
    have further := ih (start + width line)
    cases lines with
    | nil => exact .singleton _
    | cons next lines => exact .cons_cons rfl further

theorem head?_extentsFrom (start : Nat) (nonempty : lines ≠ []) :
    (extentsFrom start lines).head?.map Extent.start = some start := by
  cases lines with
  | nil => exact absurd rfl nonempty
  | cons line lines => rfl

theorem getLast?_extentsFrom (start : Nat) (nonempty : lines ≠ []) :
    (extentsFrom start lines).getLast?.map Extent.stop = some (start + width lines.flatten) := by
  induction lines generalizing start with
  | nil => exact absurd rfl nonempty
  | cons line lines ih =>
    cases lines with
    | nil => simp [extentsFrom]
    | cons next lines =>
      have further := ih (start + width line) (List.cons_ne_nil next lines)
      rw [extentsFrom, List.flatten_cons, width_append, ← Nat.add_assoc, ← further]
      rfl

theorem flatten_eq_of_getElem? {index : Nat} {line : List Char}
    (here : lines[index]? = some line) :
    lines.flatten =
      (lines.take index).flatten ++ line ++ (lines.drop (index + 1)).flatten := by
  obtain ⟨inside, rfl⟩ := List.getElem?_eq_some_iff.1 here
  have split : lines = lines.take index ++ lines[index] :: lines.drop (index + 1) := by
    rw [← List.drop_eq_getElem_cons inside, List.take_append_drop]
  rw [List.append_assoc, ← List.flatten_cons, ← List.flatten_append, ← split]

theorem IsLines.getElem?_eq (isLines : IsLines lines text) {index : Nat}
    {passed line others : List Char} (whole : text = passed ++ line ++ others)
    (found : (extentsFrom 0 lines)[index]? = some ⟨width passed, width (passed ++ line)⟩) :
    lines[index]? = some line ∧ (index + 1 = lines.length → others = []) := by
  rw [getElem?_extentsFrom] at found
  obtain ⟨here, inLines, extent_eq⟩ := Option.map_eq_some_iff.1 found
  simp only [Extent.mk.injEq, Nat.zero_add] at extent_eq
  have split := flatten_eq_of_getElem? inLines
  rw [isLines.flatten_eq, whole] at split
  rw [List.append_assoc, List.append_assoc] at split
  obtain ⟨rfl, from_here⟩ := eq_of_width_eq split extent_eq.1.symm
  rw [width_append, width_append, Nat.add_left_cancel_iff] at extent_eq
  obtain ⟨rfl, rfl⟩ := eq_of_width_eq from_here extent_eq.2.symm
  refine ⟨inLines, fun last => ?_⟩
  rw [last, List.drop_length, List.flatten_nil]

/-! ## Lines under way -/

theorem lineSoFar_append (part front back rest : List Char) :
    lineSoFar part (front ++ back) rest =
      lineSoFar (lineSoFar part front (back ++ rest)) back rest := by
  induction front generalizing part with
  | nil => rfl
  | cons c front ih =>
    rw [List.cons_append, lineSoFar, lineSoFar, List.append_assoc]
    split
    · exact ih []
    · exact ih (part ++ [c])

theorem lineSoFar_of_breaksIn_eq_zero {front rest : List Char} (none : breaksIn front rest = 0)
    (part : List Char) : lineSoFar part front rest = part ++ front := by
  induction front generalizing part with
  | nil => rw [lineSoFar, List.append_nil]
  | cons c front ih =>
    rw [breaksIn, Nat.add_eq_zero_iff] at none
    have closes : closesLine c (front ++ rest) ≠ true := by
      intro closes
      rw [if_pos closes] at none
      exact absurd none.1 Nat.one_ne_zero
    rw [lineSoFar, if_neg closes, ih none.2, List.append_assoc]
    rfl

end Text

/-! ## Positions in order -/

/-- A position in the lexicographic order: first the line, then the column. -/
def Position.key (position : Position) : Nat ×ₗ Nat := toLex (position.line, position.column)

namespace Source

/-- The position between two texts that make up a source. -/
def positionBetween (front rest : List Char) : Position :=
  ⟨1 + Text.breaksIn front rest, (Text.lineSoFar [] front rest).length + 1⟩

theorem key_positionBetween_lt {inside : List Char} (nonempty : inside ≠ [])
    (front rest : List Char) :
    (positionBetween front (inside ++ rest)).key < (positionBetween (front ++ inside) rest).key := by
  rw [Position.key, Position.key, Prod.Lex.toLex_lt_toLex]
  simp only [positionBetween, Text.breaksIn_append, Text.lineSoFar_append]
  -- Either a break ends in between, or all that is in between is on the same line.
  rcases Nat.eq_zero_or_pos (Text.breaksIn inside rest) with none | some
  · have longer := List.length_pos_iff.2 nonempty
    rw [Text.lineSoFar_of_breaksIn_eq_zero none, none, List.length_append]
    exact .inr ⟨rfl, by omega⟩
  · exact .inl (by omega)

variable {source : Source} {lines : List (List Char)} {offset : Nat}

theorem position?_eq_none (outside : Text.isBoundary source.chars offset = false) :
    source.position? offset = .ok none := by
  rw [position?, outside]
  rfl

/-- A source whose line table cuts its content into lines. -/
structure Lined (source : Source) (lines : List (List Char)) : Prop where
  isLines : Text.IsLines lines source.chars
  flatten : lines.flatten = source.chars
  /-- Lines are looked up by their numbers, which begin with one. -/
  line? : ∀ number, source.line? number = .ok
    (if number = 0 then none else lines[number - 1]?.map String.ofList)
  first : source.lines.toList.head?.map Extent.start = some 0
  contiguous : source.lines.toList.IsChain fun a b => a.stop = b.start
  last : source.lines.toList.getLast?.map Extent.stop = some source.size
  boundaries : ∀ extent ∈ source.lines.toList, Text.isBoundary source.chars extent.start = true ∧
    Text.isBoundary source.chars extent.stop = true

/-- A place on a line: the number of the line whose extent holds the offset, the last line for the
end of the text, and the column behind all characters of the line in front of the offset. -/
def OnLine (source : Source) (offset : Nat) (position : Position) : Prop :=
  ∃ extent, 0 < position.line ∧ source.lines[position.line - 1]? = some extent ∧
    (offset < source.size → extent.contains offset = true) ∧
    (offset = source.size → position.line = source.lines.size) ∧
    ∃ part, source.slice extent.start offset = .ok part ∧ position.column = part.length + 1

/-- A source that finds the positions of all boundaries of its content, and of no other offset. -/
structure Locates (source : Source) : Prop where
  isSome : ∀ offset, ∃ position, source.position? offset = .ok position ∧
    (position.isSome = true ↔ Text.isBoundary source.chars offset = true ∧ offset ≤ source.size)
  onLine : ∀ offset position, source.position? offset = .ok (some position) →
    source.OnLine offset position
  increasing : ∀ a b first second, source.position? a = .ok (some first) →
    source.position? b = .ok (some second) → (a < b ↔ first.key < second.key)
  injective : ∀ a b position, source.position? a = .ok (some position) →
    source.position? b = .ok (some position) → a = b

namespace HasTable

theorem lines_eq (hasTable : source.HasTable) (isLines : Text.IsLines lines source.chars) :
    source.lines.toList = Text.extentsFrom 0 lines := by
  rw [hasTable, Text.lineExtents, isLines.lineExtentsFrom_eq]

theorem lined (hasTable : source.HasTable) (isLines : Text.IsLines lines source.chars) :
    source.Lined lines := by
  have table := hasTable.lines_eq isLines
  have whole := isLines.flatten_eq
  have here : ∀ (index : Nat) (extent : Extent), (Text.extentsFrom 0 lines)[index]? = some extent →
      ∃ front line rest, lines[index]? = some line ∧ source.chars = front ++ line ++ rest ∧
        extent = ⟨Text.width front, Text.width (front ++ line)⟩ := by
    intro index extent found
    rw [Text.getElem?_extentsFrom] at found
    obtain ⟨line, inLines, rfl⟩ := Option.map_eq_some_iff.1 found
    exact ⟨_, line, _, inLines, whole ▸ Text.flatten_eq_of_getElem? inLines, by simp⟩
  exact {
    isLines
    flatten := whole
    line? := by
      intro number
      cases number with
      | zero => rfl
      | succ index =>
        rw [Source.line?, ← Array.getElem?_toList, table, if_neg (Nat.succ_ne_zero index)]
        show _ = Except.ok (lines[index]?.map String.ofList)
        cases found : (Text.extentsFrom 0 lines)[index]? with
        | none =>
          rw [Text.getElem?_extentsFrom, Option.map_eq_none_iff] at found
          rw [found]
          rfl
        | some extent =>
          obtain ⟨front, line, rest, inLines, content, rfl⟩ := here index extent found
          rw [inLines]
          show (source.slice _ _).map _ = _
          rw [Source.slice_eq content]
          rfl
    first := by
      rw [table, Text.head?_extentsFrom 0 isLines.ne_nil]
    contiguous := by
      rw [table]
      exact Text.isChain_extentsFrom 0 lines
    last := by
      rw [table, Text.getLast?_extentsFrom 0 isLines.ne_nil, whole, Nat.zero_add]
      rfl
    boundaries := by
      intro extent member
      rw [table] at member
      obtain ⟨index, found⟩ := List.mem_iff_getElem?.1 member
      obtain ⟨front, line, rest, -, content, rfl⟩ := here index extent found
      constructor
      · exact Text.isBoundary_iff.2 ⟨front, line ++ rest, by rw [content, List.append_assoc], rfl⟩
      · exact Text.isBoundary_iff.2 ⟨front ++ line, rest, content, rfl⟩ }

/-- An offset with a position lies between two texts, and the position says which. -/
theorem eq_positionBetween (hasTable : source.HasTable) {position : Position}
    (found : source.position? offset = .ok (some position)) :
    ∃ front rest, source.chars = front ++ rest ∧ Text.width front = offset ∧
      position = positionBetween front rest := by
  cases boundary : Text.isBoundary source.chars offset with
  | false =>
    rw [position?_eq_none boundary] at found
    cases found
  | true =>
    obtain ⟨front, rest, content, rfl⟩ := Text.isBoundary_iff.1 boundary
    rw [hasTable.position?_eq content] at found
    cases found
    exact ⟨front, rest, content, rfl, rfl⟩

/-- The later of two boundaries has the later position. -/
theorem key_lt (hasTable : source.HasTable) {a b : Nat} {first second : Position}
    (atFirst : source.position? a = .ok (some first))
    (atSecond : source.position? b = .ok (some second)) (less : a < b) :
    first.key < second.key := by
  obtain ⟨front, rest, content, rfl, rfl⟩ := hasTable.eq_positionBetween atFirst
  obtain ⟨through, behind, again, rfl, rfl⟩ := hasTable.eq_positionBetween atSecond
  rw [content] at again
  rcases List.append_eq_append_iff.1 again with ⟨inside, rfl, rfl⟩ | ⟨inside, rfl, rfl⟩
  · apply key_positionBetween_lt
    rintro rfl
    rw [List.append_nil] at less
    exact Nat.lt_irrefl _ less
  · rw [Text.width_append] at less
    omega

theorem onLine (hasTable : source.HasTable) {front rest : List Char}
    (content : source.chars = front ++ rest) :
    source.OnLine (Text.width front) (positionBetween front rest) := by
  obtain ⟨extent, around, here⟩ := Text.exists_aroundLine front rest
  have table := hasTable
  rw [HasTable, content] at table
  have size : source.size = Text.width front + Text.width rest := by
    rw [Source.size, content, Text.width_append]
  have found : source.lines[(positionBetween front rest).line - 1]? = some extent := by
    rw [table, List.getElem?_toArray, positionBetween, Nat.add_sub_cancel_left, here]
  refine ⟨extent, Nat.add_pos_left Nat.one_pos _, found, fun inside => around.contains ?_,
    fun atEnd => ?_, ?_⟩
  · rintro rfl
    rw [size, Text.width_nil] at inside
    exact Nat.lt_irrefl _ inside
  · have none : rest = [] := by
      by_contra some
      have pos := Text.width_pos some
      omega
    subst none
    rw [positionBetween, table, List.size_toArray, List.append_nil, Text.lineExtents,
      Text.length_lineExtentsFrom, Nat.add_comm]
  · rw [positionBetween]
    generalize Text.lineSoFar [] front rest = part at around
    obtain ⟨-⟩ := around
    exact ⟨part, Source.slice_eq content, rfl⟩

theorem locates (hasTable : source.HasTable) : source.Locates where
  isSome offset := by
    cases boundary : Text.isBoundary source.chars offset with
    | false => exact ⟨none, position?_eq_none boundary, by simp⟩
    | true =>
      obtain ⟨front, rest, content, rfl⟩ := Text.isBoundary_iff.1 boundary
      refine ⟨_, hasTable.position?_eq content, ?_⟩
      have inside : Text.width front ≤ source.size := by
        rw [Source.size, content, Text.width_append]
        exact Nat.le_add_right _ _
      simp [inside]
  onLine offset position found := by
    obtain ⟨front, rest, content, rfl, rfl⟩ := hasTable.eq_positionBetween found
    exact hasTable.onLine content
  increasing a b first second atFirst atSecond := by
    constructor
    · exact hasTable.key_lt atFirst atSecond
    · intro less
      rcases Nat.lt_trichotomy a b with before | rfl | behind
      · exact before
      · rw [atFirst] at atSecond
        cases atSecond
        exact absurd less (lt_irrefl _)
      · exact absurd less (hasTable.key_lt atSecond atFirst behind).asymm
  injective a b position atFirst atSecond := by
    rcases Nat.lt_trichotomy a b with before | same | behind
    · exact absurd (hasTable.key_lt atFirst atSecond before) (lt_irrefl _)
    · exact same
    · exact absurd (hasTable.key_lt atSecond atFirst behind) (lt_irrefl _)

end HasTable

/-- The line table of a text holds the extents of its lines, and it finds a position for the
boundaries of the text and for no other offset.  The position names the line that holds the
boundary and counts the characters of the line in front of it; a later boundary has a later
position. -/
theorem lined_and_locates (serial : Nat) (path identifier content : String) :
    (∃ lines, (ofContent serial path identifier content).Lined lines) ∧
      (ofContent serial path identifier content).Locates := by
  have hasTable := hasTable_ofContent serial path identifier content
  obtain ⟨lines, isLines⟩ :=
    Text.exists_isLines (ofContent serial path identifier content).chars
  exact ⟨⟨lines, hasTable.lined isLines⟩, hasTable.locates⟩

end Source

end Offside
