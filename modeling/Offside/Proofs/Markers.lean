import Offside.Diagnostic.Render
import Offside.Proofs.LineRanges

/-!
# Lines shown and marked

An excerpt shows the line that a span begins on, without its line break, and marks the characters of
the span on it.  The marker is right but for one kind of span: it is measured up to the first line
feed, so it runs over a carriage return that ends the line alone.
-/

namespace Offside

namespace Text

variable {line ended rest text : List Char}

theorem IsLineBreak.isBreak_of_mem (isLineBreak : IsLineBreak ended rest) :
    ∀ c ∈ ended, isBreak c = true := by
  rcases isLineBreak with rfl | rfl | ⟨rfl, -⟩ <;> simp [isBreak]

theorem isBreak_of_mem_ended (isEnd : ended = [] ∨ ∃ others, IsLineBreak ended others) :
    ∀ c ∈ ended, isBreak c = true := by
  rcases isEnd with rfl | ⟨others, isLineBreak⟩
  · simp
  · exact isLineBreak.isBreak_of_mem

theorem trimBreaks_append (noBreak : ∀ c ∈ line, isBreak c = false)
    (breaks : ∀ c ∈ ended, isBreak c = true) : trimBreaks (line ++ ended) = line := by
  have same : (fun c => c == '\n' || c == '\r') = isBreak := rfl
  have behind : (ended.reverse ++ line.reverse).dropWhile isBreak = line.reverse := by
    rw [List.dropWhile_append_of_pos fun c member => breaks c (List.mem_reverse.1 member)]
    cases reversed : line.reverse with
    | nil => rfl
    | cons c others =>
      have inLine : c ∈ line := List.mem_reverse.1 (reversed ▸ List.mem_cons_self)
      rw [List.dropWhile_cons, noBreak c inLine, if_neg Bool.false_ne_true]
  rw [trimBreaks, same, List.reverse_append, behind, List.reverse_reverse]

/-! ## Characters on a line -/

def withOffsets (offset : Nat) : List Char → List (Nat × Char)
  | [] => []
  | c :: rest => (offset, c) :: withOffsets (offset + c.utf8Size) rest

theorem withOffsets_append (offset : Nat) (front back : List Char) :
    withOffsets offset (front ++ back) =
      withOffsets offset front ++ withOffsets (offset + width front) back := by
  induction front generalizing offset with
  | nil => rfl
  | cons c front ih =>
    rw [List.cons_append, withOffsets, withOffsets, ih, width_cons, Nat.add_assoc]
    rfl

theorem bounds_of_mem_withOffsets {offset : Nat} {text : List Char} {place : Nat × Char}
    (member : place ∈ withOffsets offset text) :
    offset ≤ place.1 ∧ place.1 < offset + width text := by
  induction text generalizing offset with
  | nil => cases member
  | cons c text ih =>
    have pos := c.utf8Size_pos
    rw [width_cons]
    rcases List.mem_cons.1 member with rfl | further
    · exact ⟨Nat.le_refl _, by omega⟩
    · have bounds := ih further
      omega

theorem map_withOffsets (offset : Nat) (text : List Char) :
    (withOffsets offset text).map Prod.snd = text := by
  induction text generalizing offset with
  | nil => rfl
  | cons c text ih => rw [withOffsets, List.map_cons, ih]

def isBetween (start stop : Nat) (accepts : Char → Bool) (place : Nat × Char) : Bool :=
  decide (start ≤ place.1) && decide (place.1 < stop) && accepts place.2

section

variable {start stop offset : Nat} (accepts : Char → Bool)

theorem countP_outside (outside : offset + width text ≤ start ∨ stop ≤ offset) :
    (withOffsets offset text).countP (isBetween start stop accepts) = 0 := by
  rw [List.countP_eq_zero]
  intro place member
  have bounds := bounds_of_mem_withOffsets member
  simp only [isBetween, Bool.and_eq_true, decide_eq_true_eq]
  omega

theorem countP_inside (first : start ≤ offset) (last : offset + width text ≤ stop) :
    (withOffsets offset text).countP (isBetween start stop accepts) = text.countP accepts := by
  conv_rhs => rw [← map_withOffsets offset text, List.countP_map]
  apply List.countP_congr
  intro place member
  have bounds := bounds_of_mem_withOffsets member
  simp only [isBetween, Bool.and_eq_true, decide_eq_true_eq, Function.comp_apply]
  exact ⟨And.right, fun accepted => ⟨by omega, accepted⟩⟩

theorem countP_withOffsets (front inside rest : List Char) :
    (withOffsets 0 (front ++ inside ++ rest)).countP
        (isBetween (width front) (width (front ++ inside)) accepts) =
      inside.countP accepts := by
  rw [withOffsets_append, withOffsets_append, List.countP_append, List.countP_append, Nat.zero_add,
    Nat.zero_add, countP_outside accepts (.inl (Nat.le_of_eq (Nat.zero_add _))),
    countP_inside accepts (Nat.le_refl _) (Nat.le_of_eq (width_append front inside).symm),
    countP_outside accepts (.inr (Nat.le_refl _)), Nat.zero_add, Nat.add_zero]

end

/-! ## Up to a break, up to a line feed -/

theorem lineAhead_append (noBreak : ∀ c ∈ line, isBreak c = false)
    (upTo : ∀ c ∈ rest.head?, isBreak c = true) : lineAhead (line ++ rest) = line := by
  have none : lineAhead rest = [] := by
    cases rest with
    | nil => rfl
    | cons c rest => rw [lineAhead, List.takeWhile_cons, upTo c rfl]; rfl
  rw [lineAhead, List.takeWhile_append_of_pos fun c member => by rw [noBreak c member]; rfl,
    ← lineAhead, none, List.append_nil]

theorem isBreak_of_head? (breaks : ∀ c ∈ ended, isBreak c = true) (last : ended = [] → rest = []) :
    ∀ c ∈ (ended ++ rest).head?, isBreak c = true := by
  intro c head
  cases ended with
  | nil =>
    rw [last rfl] at head
    cases head
  | cons d ended =>
    cases head
    exact breaks c List.mem_cons_self

theorem lineAhead_prefix (text rest : List Char) : lineAhead text <+: lineAhead (text ++ rest) := by
  induction text with
  | nil => exact List.nil_prefix
  | cons c text ih =>
    by_cases isBreak : isBreak c = true
    · simp [lineAhead, isBreak]
    · simpa [lineAhead, isBreak] using ih

theorem countP_notBreak {inside more : List Char} (noBreak : ∀ c ∈ line, isBreak c = false)
    (breaks : ∀ c ∈ ended, isBreak c = true) (whole : inside ++ more = line ++ ended) :
    inside.countP (fun c => !isBreak c) = (lineAhead inside).length := by
  have all {part : List Char} (noBreak : ∀ c ∈ part, isBreak c = false) :
      part.countP (fun c => !isBreak c) = part.length := by
    rw [List.countP_eq_length]
    intro c member
    rw [noBreak c member]
    rfl
  rcases List.append_eq_append_iff.1 whole with ⟨back, rfl, -⟩ | ⟨back, rfl, rfl⟩
  · have inLine : ∀ c ∈ inside, isBreak c = false :=
      fun c member => noBreak c (List.mem_append_left back member)
    have same : lineAhead inside = inside := by
      simpa using @lineAhead_append inside [] inLine (by simp)
    rw [all inLine, same]
  · have inBreak : ∀ c ∈ back, isBreak c = true :=
      fun c member => breaks c (List.mem_append_left more member)
    have none : back.countP (fun c => !isBreak c) = 0 := by
      rw [List.countP_eq_zero]
      intro c member
      simp [inBreak c member]
    rw [lineAhead_append noBreak fun c head => inBreak c (List.mem_of_mem_head? head),
      List.countP_append, all noBreak, none, Nat.add_zero]

theorem upToLineFeed_append (noBreak : ∀ c ∈ line, isBreak c = false) (rest : List Char) :
    upToLineFeed (line ++ rest) = line ++ upToLineFeed rest := by
  induction line with
  | nil => rfl
  | cons c line ih =>
    obtain ⟨first, others⟩ := List.forall_mem_cons.1 noBreak
    simp only [isBreak, Bool.or_eq_false_iff, beq_eq_false_iff_ne] at first
    rw [List.cons_append, upToLineFeed, ih others, List.cons_append]
    · exact fun feed => first.1 feed
    · exact fun _ carriageReturn _ => first.2 carriageReturn

theorem upToLineFeed_return (single : rest.head? ≠ some '\n') :
    upToLineFeed ('\r' :: rest) = '\r' :: upToLineFeed rest := by
  rw [upToLineFeed]
  · simp
  · rintro behind - rfl
    exact single rfl

/-- Whether the first break of a text is a carriage return alone, and the text up to its first line
feed has other characters than this one. -/
def PassesReturn (text : List Char) : Prop :=
  ∃ line rest, text = line ++ '\r' :: rest ∧ (∀ c ∈ line, isBreak c = false) ∧
    rest.head? ≠ some '\n' ∧ (line = [] → rest ≠ [] ∧ ¬['\r', '\n'] <+: rest)

/-- The line that ends with the carriage return does not depend on what comes behind the text. -/
theorem PassesReturn.lineAhead_append (passes : PassesReturn text) (rest : List Char) :
    lineAhead (text ++ rest) = lineAhead text := by
  obtain ⟨line, behind, rfl, noBreak, -⟩ := passes
  rw [List.append_assoc, Text.lineAhead_append noBreak (by simp [isBreak]),
    Text.lineAhead_append noBreak (by simp [isBreak])]

theorem upToLineFeed_eq_nil_iff :
    upToLineFeed text = [] ↔ text = [] ∨ text.head? = some '\n' ∨ ['\r', '\n'] <+: text := by
  fun_cases upToLineFeed text with
  | case1 => simp
  | case2 => simp
  | case3 rest => simp
  | case4 c rest notFeed notBoth =>
    simp only [List.cons_ne_nil, List.head?_cons, Option.some.injEq, false_or, false_iff, not_or]
    refine ⟨notFeed, fun both => ?_⟩
    obtain ⟨behind, split⟩ := both
    cases split
    exact notBoth behind rfl rfl

end Text

namespace Excerpt

variable {text : List Char}

theorem lt_markerLength_of_passesReturn (passes : Text.PassesReturn text) :
    max 1 (Text.lineAhead text).length < markerLength text := by
  obtain ⟨line, rest, rfl, noBreak, single, further⟩ := passes
  have ahead : Text.lineAhead (line ++ '\r' :: rest) = line :=
    Text.lineAhead_append noBreak (by simp [Text.isBreak])
  rw [markerLength, ahead, Text.upToLineFeed_append noBreak, Text.upToLineFeed_return single,
    List.length_append, List.length_cons]
  cases line with
  | cons c line =>
    rw [List.length_cons]
    omega
  | nil =>
    have some : Text.upToLineFeed rest ≠ [] := by
      rw [Ne, Text.upToLineFeed_eq_nil_iff]
      exact fun none => none.elim (further rfl).1 fun none => none.elim single (further rfl).2
    have pos := List.length_pos_iff.2 some
    rw [List.length_nil]
    omega

theorem markerLength_of_not_passesReturn (stops : ¬Text.PassesReturn text) :
    markerLength text = max 1 (Text.lineAhead text).length := by
  have noBreak : ∀ c ∈ Text.lineAhead text, Text.isBreak c = false :=
    fun _ => Text.isBreak_of_mem_lineAhead
  have whole := Text.lineAhead_append_drop text
  suffices marked : max (Text.upToLineFeed text).length 1 = max (Text.lineAhead text).length 1 by
    rw [markerLength, marked, Nat.max_comm]
  conv_lhs => rw [← whole, Text.upToLineFeed_append noBreak, List.length_append]
  cases behind : text.drop (Text.lineAhead text).length with
  | nil => rfl
  | cons c rest =>
    have isBreak := Text.isBreak_head?_drop_lineAhead c (by rw [behind]; rfl)
    obtain ⟨others, split, isLineBreak⟩ := Text.exists_isLineBreak rest isBreak
    rw [behind] at whole
    rw [split] at whole ⊢
    rcases isLineBreak with feed | both | ⟨single, notFeed⟩
    · rw [feed]
      rfl
    · rw [both]
      rfl
    · -- A carriage return alone is passed, so it has to be all that is marked.
      rw [single] at whole ⊢
      have further : Text.lineAhead text = [] ∧ Text.upToLineFeed others = [] := by
        by_contra other
        apply stops
        refine ⟨_, others, whole.symm, noBreak, notFeed, fun none => ?_⟩
        have some := mt (And.intro none) other
        rw [Text.upToLineFeed_eq_nil_iff, not_or, not_or] at some
        exact ⟨some.1, some.2.2⟩
      rw [List.singleton_append, Text.upToLineFeed_return notFeed, further.1, further.2]
      rfl

end Excerpt

/-! ## The line that a span begins on -/

/-- The line around a place between `front` and `rest`: what it says without its break, and what
lies ahead of it, up to its break and in its break. -/
structure LineAround (source : Source) (front rest line ahead behind : List Char)
    (extent : Extent) : Prop where
  found : source.lines[Text.breaksIn front rest]? = some extent
  start : extent.start ≤ Text.width front
  stop : extent.stop = Text.width (front ++ ahead ++ behind)
  line? : ∃ ended, source.line? (1 + Text.breaksIn front rest) =
      .ok (some (String.ofList (line ++ ended))) ∧
    (ended = [] ∨ ∃ others, Text.IsLineBreak ended others)
  noBreak : ∀ c ∈ line, Text.isBreak c = false
  aheadNoBreak : ∀ c ∈ ahead, Text.isBreak c = false
  breaks : ∀ c ∈ behind, Text.isBreak c = true
  split : ∃ others, rest = ahead ++ behind ++ others ∧ (behind = [] → others = [])
  joined : ahead ≠ [] → line = Text.lineSoFar [] front rest ++ ahead

theorem Source.HasTable.exists_lineAround {source : Source} (hasTable : source.HasTable)
    {front rest : List Char} (content : source.chars = front ++ rest) :
    ∃ line ahead behind extent, LineAround source front rest line ahead behind extent := by
  obtain ⟨lines, isLines⟩ := Text.exists_isLines source.chars
  obtain ⟨extent, around, here⟩ := Text.exists_aroundLine front rest
  have found : source.lines[Text.breaksIn front rest]? = some extent := by
    rw [hasTable, content, List.getElem?_toArray, here]
  have lined := (hasTable.lined isLines).line? (1 + Text.breaksIn front rest)
  rw [if_neg (by omega), Nat.add_sub_cancel_left] at lined
  have inTable := found
  rw [← Array.getElem?_toList, hasTable.lines_eq isLines] at inTable
  generalize soFar : Text.lineSoFar [] front rest = part at around
  obtain ⟨upTo⟩ := around
  rename_i passed line others
  obtain ⟨inLines, last⟩ := @Text.IsLines.getElem?_eq _ _ isLines _ passed (part ++ line) others
    (by rw [content]; simp only [List.append_assoc]) (by rw [← List.append_assoc]; exact inTable)
  obtain ⟨body, ended, split, noBreak, isEnd⟩ := isLines.getElem? inLines
  rw [inLines, split] at lined
  have shown := isEnd.imp_left And.left
  have breaks := Text.isBreak_of_mem_ended shown
  have atEnd : ended = [] → others = [] := by
    rintro rfl
    rcases isEnd with ⟨-, atLast⟩ | ⟨_, isLineBreak⟩
    · exact last atLast
    · exact absurd rfl isLineBreak.ne_nil
  have starts : Text.width passed ≤ Text.width (passed ++ part) := by
    rw [Text.width_append]
    exact Nat.le_add_right _ _
  rcases List.append_eq_append_iff.1 split with ⟨ahead, rfl, rfl⟩ | ⟨inBreak, rfl, rfl⟩
  · exact ⟨part ++ ahead, ahead, ended, _, {
      found
      start := starts
      stop := by simp only [List.append_assoc]
      line? := ⟨ended, lined, shown⟩
      noBreak
      aheadNoBreak := fun c member => noBreak c (List.mem_append_right part member)
      breaks
      split := ⟨others, rfl, atEnd⟩
      joined := fun _ => by rw [soFar] }⟩
  · exact ⟨body, [], line, _, {
      found
      start := starts
      stop := by simp only [List.append_assoc, List.nil_append]
      line? := ⟨inBreak ++ line, lined, shown⟩
      noBreak
      aheadNoBreak := by simp
      breaks := fun c member => breaks c (List.mem_append_right inBreak member)
      split := ⟨others, rfl, upTo⟩
      joined := fun some => absurd rfl some }⟩

/-- Number of the characters of a span on a line, its line break left out. -/
def Span.countOn (span : Span) (extent : Extent) : Nat :=
  (Text.withOffsets 0 span.source.chars).countP fun place =>
    decide (span.start ≤ place.1) && decide (place.1 < span.stop) && extent.contains place.1 &&
      !Text.isBreak place.2

section

variable {span : Span} {front inside rest line ahead behind : List Char} {extent : Extent}

theorem Span.countOn_eq {common more : List Char} (start : Text.width front = span.start)
    (content : span.source.chars = front ++ common ++ more) (first : extent.start ≤ span.start)
    (both : min span.stop extent.stop = Text.width (front ++ common)) :
    span.countOn extent = common.countP fun c => !Text.isBreak c := by
  rw [countOn, content, ← Text.countP_withOffsets _ front common more]
  apply List.countP_congr
  intro place _
  simp only [Extent.contains, Text.isBetween, Bool.and_eq_true, decide_eq_true_eq]
  exact and_congr_left fun _ => by omega

/-- On the line that a span begins on lies what it has in front of its first break. -/
theorem LineAround.countOn_eq
    (around : LineAround span.source front (inside ++ rest) line ahead behind extent)
    (content : span.source.chars = front ++ inside ++ rest) (start : Text.width front = span.start)
    (stop : Text.width (front ++ inside) = span.stop) :
    span.countOn extent = (Text.lineAhead inside).length := by
  obtain ⟨others, split, last⟩ := around.split
  have first : extent.start ≤ span.start := start ▸ around.start
  rcases List.append_eq_append_iff.1 split with ⟨more, whole, rfl⟩ | ⟨more, rfl, rfl⟩
  · have both : min span.stop extent.stop = Text.width (front ++ inside) := by
      rw [around.stop, List.append_assoc, whole, ← List.append_assoc, Text.width_append, stop]
      exact Nat.min_eq_left (Nat.le_add_right _ _)
    rw [Span.countOn_eq start content first both]
    exact Text.countP_notBreak around.aheadNoBreak around.breaks whole.symm
  · have both : min span.stop extent.stop = Text.width (front ++ (ahead ++ behind)) := by
      rw [around.stop, ← stop, List.append_assoc front ahead, ← List.append_assoc front,
        Text.width_append (front ++ (ahead ++ behind))]
      exact Nat.min_eq_right (Nat.le_add_right _ _)
    rw [List.append_assoc, List.append_assoc, ← List.append_assoc front] at content
    have upTo := Text.isBreak_of_head? around.breaks fun none =>
      (List.append_eq_nil_iff.1 (last none)).1
    rw [Span.countOn_eq start content first both, List.append_assoc,
      Text.lineAhead_append around.aheadNoBreak upTo,
      Text.countP_notBreak around.aheadNoBreak around.breaks (List.append_nil (ahead ++ behind)),
      Text.lineAhead_append around.aheadNoBreak
        fun c head => around.breaks c (List.mem_of_mem_head? head)]

theorem LineAround.lineAhead_eq {source : Source}
    (around : LineAround source front rest line ahead behind extent) :
    Text.lineAhead rest = ahead := by
  obtain ⟨others, rfl, last⟩ := around.split
  rw [List.append_assoc]
  exact Text.lineAhead_append around.aheadNoBreak (Text.isBreak_of_head? around.breaks last)

end

/-! ## Rows of an excerpt -/

/-- The first line of a span: where the span begins, the extent of the line there, and what the line
says without its break. -/
structure Span.FirstLine (span : Span) (position : Position) (extent : Extent)
    (line : List Char) : Prop where
  begins : span.position = .ok position
  onLine : span.source.OnLine span.start position
  found : span.source.lines[position.line - 1]? = some extent
  line? : ∃ ended, span.source.line? position.line = .ok (some (String.ofList (line ++ ended))) ∧
    (ended = [] ∨ ∃ others, Text.IsLineBreak ended others)
  noBreak : ∀ c ∈ line, Text.isBreak c = false

namespace Excerpt

def heading (view : View) (path : String) (position : Position) : String :=
  " " ++ Style.bold view.colored (some .cyan) "-->" ++ " " ++ Path.shown view.directory path ++
    ":" ++ toString position.line ++ ":" ++ toString position.column ++ "\n" ++
    fill (toString position.line).length ' ' ++ " " ++ Style.bold view.colored (some .cyan) "|"

def lineRow (view : View) (number : Nat) (line : List Char) : String :=
  Style.bold view.colored (some .cyan) (toString number) ++ " " ++
    Style.bold view.colored (some .cyan) "|" ++ " " ++ String.ofList line

/-- The marker under a source line, behind a gutter as wide as its number. -/
def markerRow (view : View) (number blanks carets : Nat) : String :=
  fill (toString number).length ' ' ++ " " ++ Style.bold view.colored (some .cyan) "|" ++ " " ++
    fill blanks ' ' ++ Style.bold view.colored (some .red) (fill carets '^')

def footer (help : Option String) : String :=
  match help with
  | some help => "\n\n" ++ help
  | none => ""

theorem sourceLine_append {line ended : List Char} (noBreak : ∀ c ∈ line, Text.isBreak c = false)
    (breaks : ∀ c ∈ ended, Text.isBreak c = true) :
    sourceLine (some (String.ofList (line ++ ended))) = String.ofList line := by
  rw [sourceLine, Option.getD_some, String.toList_ofList, Text.trimBreaks_append noBreak breaks]

theorem render_eq {span : Span} {position : Position} {extent : Extent} {line text : List Char}
    (first : span.FirstLine position extent line) (chars : span.chars = .ok text) (view : View)
    (help : Option String) :
    render view span help = .ok (heading view span.source.path position ++ "\n" ++
      lineRow view position.line line ++ "\n" ++
      markerRow view position.line (position.column - 1) (markerLength text) ++ footer help) := by
  obtain ⟨ended, found, isEnd⟩ := first.line?
  have breaks := Text.isBreak_of_mem_ended isEnd
  cases help <;> simp only [render, first.begins, found, chars, bind, Except.bind, pure,
    Except.pure, sourceLine_append first.noBreak breaks, heading, lineRow, markerRow, footer,
    String.append_assoc]

end Excerpt

/-- An excerpt that shows the first line of a span and a row of carets under it, which stand behind
as many blanks as the line has characters in front of the span. -/
structure Excerpt.Marks (view : View) (span : Span) (help : Option String) (position : Position)
    (extent : Extent) (line : List Char) (carets : Nat) : Prop where
  firstLine : span.FirstLine position extent line
  rendered : render view span help = .ok (heading view span.source.path position ++ "\n" ++
    lineRow view position.line line ++ "\n" ++
    markerRow view position.line (position.column - 1) carets ++ footer help)
  /-- There is a caret for each character of the span on the line, and at least one. -/
  length : ∀ text, span.chars = .ok text →
    (carets = max 1 (span.countOn extent) ↔ ¬Text.PassesReturn text)
  /-- The carets stand under the line if the span has a character there. -/
  underLine : ∀ text, span.chars = .ok text → 0 < span.countOn extent →
    (position.column - 1 + carets ≤ line.length ↔ ¬Text.PassesReturn text)

/-- The excerpt of a sound span shows the line that the span begins on and marks what lies on it,
unless the marker passes a carriage return. -/
theorem Span.Sound.marked {span : Span} (sound : span.Sound) (view : View) (help : Option String) :
    (∃ text, span.chars = .ok text) ∧
      ∃ position extent line carets,
        Excerpt.Marks view span help position extent line carets := by
  obtain ⟨⟨ordered, -⟩, first, second⟩ := Span.between?_eq_some_iff.1 sound.between
  obtain ⟨front, inside, rest, content, start, stop⟩ := Text.exists_between ordered first second
  have split : span.source.chars = front ++ (inside ++ rest) := by
    rw [content, List.append_assoc]
  have chars : span.chars = .ok inside := by
    rw [Span.chars, ← start, ← stop, Source.slice_eq content]
  obtain ⟨line, ahead, behind, extent, around⟩ := sound.hasTable.exists_lineAround split
  have count := around.countOn_eq content start stop
  have firstLine : span.FirstLine (Source.positionBetween front (inside ++ rest)) extent line := {
    begins := by
      rw [Span.position, ← start, sound.hasTable.position?_eq split]
      rfl
    onLine := start ▸ sound.hasTable.onLine split
    found := by
      rw [← around.found]
      exact congrArg (span.source.lines[·]?) (Nat.add_sub_cancel_left _ _)
    line? := around.line?
    noBreak := around.noBreak }
  refine ⟨⟨inside, chars⟩, _, extent, line, Excerpt.markerLength inside, {
    firstLine
    rendered := Excerpt.render_eq firstLine chars view help
    length := fun text found => ?_
    underLine := fun text found some => ?_ }⟩
  · cases chars.symm.trans found
    rw [count]
    constructor
    · intro same passes
      exact (Excerpt.lt_markerLength_of_passesReturn passes).ne' same
    · exact Excerpt.markerLength_of_not_passesReturn
  · cases chars.symm.trans found
    have within := (Text.lineAhead_prefix inside rest).length_le
    rw [count] at some
    rw [around.lineAhead_eq] at within
    have joined := around.joined (List.length_pos_iff.1 (Nat.lt_of_lt_of_le some within))
    rw [joined, List.length_append, Source.positionBetween, Nat.add_sub_cancel]
    constructor
    · intro fits passes
      have longer := Excerpt.lt_markerLength_of_passesReturn passes
      rw [← passes.lineAhead_append rest, around.lineAhead_eq] at longer
      omega
    · intro stops
      rw [Excerpt.markerLength_of_not_passesReturn stops]
      omega

/-- A span over a line break and a character on either side. -/
theorem Span.Sound.marked_over_break :
    ∃ span : Span, span = ⟨1, 5, .ofContent 0 "test.gs" "test.gs" "ab\r\ncd"⟩ ∧ span.Sound ∧
      (∃ text, span.chars = .ok text) ∧ ∃ position extent line carets,
        Excerpt.Marks ⟨false, "/"⟩ span none position extent line carets := by
  refine ⟨_, rfl, ?_⟩
  have sound : Span.Sound ⟨1, 5, .ofContent 0 "test.gs" "test.gs" "ab\r\ncd"⟩ :=
    ⟨rfl, by decide⟩
  exact ⟨sound, sound.marked _ _⟩

/-- Of a span over a carriage return that ends a line alone, one character lies on that line, but
the marker has three carets. -/
theorem Excerpt.render_over_return :
    ∃ span : Span, span = ⟨0, 3, .ofContent 0 "test.gs" "test.gs" "a\rb"⟩ ∧ span.Sound ∧
      span.FirstLine ⟨1, 1⟩ ⟨0, 2⟩ ['a'] ∧ span.countOn ⟨0, 2⟩ = 1 ∧
      render ⟨false, "/"⟩ span none = .ok " --> test.gs:1:1\n  |\n1 | a\n  | ^^^" := by
  refine ⟨_, rfl, ⟨rfl, by decide⟩, ?_, by decide, by decide +kernel⟩
  exact {
    begins := by decide +kernel
    onLine := ⟨⟨0, 2⟩, by decide, rfl, by decide, by decide, [], rfl, rfl⟩
    found := rfl
    line? := ⟨['\r'], rfl, .inr ⟨['b'], .inr (.inr ⟨rfl, by decide⟩)⟩⟩
    noBreak := List.forall_mem_singleton.2 rfl }

end Offside
