import Offside.Proofs.Coverage
import Offside.Proofs.LineTable

/-!
# Look-ups that cannot fault

A source answers every question about its lines and positions if its line table is the one of its
content, and a span has a text exactly if its ends are boundaries in ascending order.  All that is
made from a text is of this kind.
-/

namespace Offside

/-! ## Parts of a text -/

namespace Text

theorem exists_between {text : List Char} {start stop : Nat} (ordered : start ≤ stop)
    (first : isBoundary text start = true) (second : isBoundary text stop = true) :
    ∃ front inside rest, text = front ++ inside ++ rest ∧ width front = start ∧
      width (front ++ inside) = stop := by
  obtain ⟨front, behind, split, rfl⟩ := isBoundary_iff.1 first
  obtain ⟨through, rest, split', rfl⟩ := isBoundary_iff.1 second
  rw [split] at split'
  rcases List.append_eq_append_iff.1 split' with ⟨inside, rfl, rfl⟩ | ⟨inside, rfl, rfl⟩
  · exact ⟨front, inside, rest, by rw [split, List.append_assoc], rfl, rfl⟩
  · -- The second boundary is in front of the first one, so nothing lies between them.
    have empty : inside = [] := by
      apply Decidable.byContradiction
      intro nonempty
      have pos := width_pos nonempty
      rw [width_append] at ordered
      omega
    subst empty
    exact ⟨through, [], behind, by simpa using split, by simp, by simp⟩

theorem exists_of_mem_lineExtentsFrom {passed part text : List Char} {extent : Extent}
    (member : extent ∈ lineExtentsFrom (width passed) (width (passed ++ part)) text) :
    ∃ front line rest, passed ++ part ++ text = front ++ line ++ rest ∧
      extent = ⟨width front, width (front ++ line)⟩ := by
  induction text generalizing passed part with
  | nil =>
    obtain rfl := List.mem_singleton.1 member
    exact ⟨passed, part, [], rfl, rfl⟩
  | cons c text ih =>
    have next : width (passed ++ part) + c.utf8Size = width (passed ++ part ++ [c]) := by
      rw [width_append (passed ++ part), width_cons, width_nil, Nat.add_zero]
    rw [lineExtentsFrom, next] at member
    rw [List.append_cons]
    split at member
    · rcases List.mem_cons.1 member with rfl | further
      · exact ⟨passed, part ++ [c], text, by simp, by rw [List.append_assoc]⟩
      · have behind := @ih (passed ++ part ++ [c]) []
        rw [List.append_nil] at behind
        exact behind further
    · rw [List.append_assoc passed]
      apply ih
      rw [← List.append_assoc]
      exact member

end Text

/-! ## Answers -/

structure Source.Answers (source : Source) : Prop where
  line : ∀ number, ∃ text, source.line? number = .ok text
  position : ∀ offset, ∃ position, source.position? offset = .ok position

/-- A span that has a text and a position, of a source in which no look-up faults. -/
structure Span.Answers (span : Span) : Prop where
  source : span.source.Answers
  text : ∃ text, span.text = .ok text
  position : ∃ position, span.position = .ok position

/-- A span that `Span.between?` makes, of a source whose line table is the one of its content. -/
structure Span.Sound (span : Span) : Prop where
  hasTable : span.source.HasTable
  between : Span.between? span.source span.start span.stop = some span

/-! ## What is needed for them -/

theorem Source.HasTable.answers {source : Source} (hasTable : source.HasTable) :
    source.Answers where
  line number := by
    cases number with
    | zero => exact ⟨none, rfl⟩
    | succ index =>
      rw [line?]
      cases found : source.lines[index]? with
      | none => exact ⟨none, rfl⟩
      | some extent =>
        have member : extent ∈ Text.lineExtentsFrom (Text.width []) (Text.width ([] ++ []))
            source.chars := by
          rw [hasTable, List.getElem?_toArray] at found
          exact List.mem_of_getElem? found
        obtain ⟨front, line, rest, content, rfl⟩ := Text.exists_of_mem_lineExtentsFrom member
        refine ⟨some (String.ofList line), ?_⟩
        show (source.slice _ _).map _ = _
        rw [Source.slice_eq content]
        rfl
  position offset := by
    cases boundary : Text.isBoundary source.chars offset with
    | false => exact ⟨none, by rw [position?, boundary]; rfl⟩
    | true =>
      obtain ⟨front, rest, content, rfl⟩ := Text.isBoundary_iff.1 boundary
      exact ⟨_, hasTable.position?_eq content⟩

theorem Span.between?_eq_some_iff {span : Span} :
    Span.between? span.source span.start span.stop = some span ↔
      (span.start ≤ span.stop ∧ span.stop ≤ span.source.size) ∧
        Text.isBoundary span.source.chars span.start = true ∧
          Text.isBoundary span.source.chars span.stop = true := by
  rw [Span.between?]
  simp only [Bool.and_eq_true, decide_eq_true_eq, and_assoc, ite_eq_left_iff, reduceCtorEq,
    imp_false, Decidable.not_not]

/-- A span has a text exactly if `Span.between?` would make it. -/
theorem Span.text_eq_ok_iff {span : Span} :
    (∃ text, span.text = .ok text) ↔
      Span.between? span.source span.start span.stop = some span := by
  rw [Span.between?_eq_some_iff]
  constructor
  · rintro ⟨text, found⟩
    obtain ⟨inside, sliced, -⟩ := map_eq_ok.1 found
    rw [Span.chars, Source.slice] at sliced
    split at sliced
    · rename_i within
      cases sliced
      obtain ⟨front, rest, content, first, second⟩ := Text.eq_append_of_slice? within
      have starts : Text.isBoundary span.source.chars span.start = true := by
        rw [Text.isBoundary_iff]
        exact ⟨front, inside ++ rest, by rw [content, List.append_assoc], first⟩
      have stops : Text.isBoundary span.source.chars span.stop = true := by
        rw [Text.isBoundary_iff]
        exact ⟨front ++ inside, rest, content, second⟩
      refine ⟨?_, starts, stops⟩
      rw [Source.size, content]
      simp only [Text.width_append] at second ⊢
      omega
    · cases sliced
  · rintro ⟨⟨ordered, -⟩, first, second⟩
    obtain ⟨front, inside, rest, content, start, stop⟩ :=
      Text.exists_between ordered first second
    refine ⟨String.ofList inside, ?_⟩
    rw [Span.text, Span.chars, ← start, ← stop, Source.slice_eq content]
    rfl

theorem Span.Sound.answers {span : Span} (sound : span.Sound) : span.Answers where
  source := sound.hasTable.answers
  text := Span.text_eq_ok_iff.2 sound.between
  position := by
    obtain ⟨-, first, -⟩ := Span.between?_eq_some_iff.1 sound.between
    obtain ⟨front, rest, content, start⟩ := Text.isBoundary_iff.1 first
    rw [Span.position, ← start, sound.hasTable.position?_eq content]
    exact ⟨_, rfl⟩

/-- The tokens of a text are sound: that they have a text at all says that their ends fit. -/
theorem Source.HasTable.sound_of_lex {source : Source} (hasTable : source.HasTable)
    {tokens : List Token} {reports : List Diagnostic} (lexed : source.lex = .ok (tokens, reports)) :
    ∀ token ∈ tokens, token.span.Sound := by
  obtain ⟨pieces, runs, rfl, -⟩ := source.exists_of_lex lexed
  have running : (Prospect.start source.chars).mode ≠ .done := by simp [Prospect.start]
  obtain ⟨segments, -, tiling, whole, cut⟩ :=
    @Prospect.Runs.covers source _ _ runs running (Prospect.sound_start source.chars) [] true
      fun _ => rfl
  intro token member
  have member : token ∈ segments.map Segment.token := cut ▸ member
  obtain ⟨segment, inside, rfl⟩ := List.mem_map.1 member
  have chars := tiling.chars whole.symm segment inside
  have placed := tiling.source_eq segment inside
  constructor
  · rw [placed]
    exact hasTable
  · apply Span.text_eq_ok_iff.1
    rw [Span.text, ← Token.chars, chars]
    exact ⟨_, rfl⟩

end Offside
