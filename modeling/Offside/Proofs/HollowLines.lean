import Offside.Proofs.BlockLayout
import Offside.Proofs.StreamGrammar

/-!
# Hollow lines

At the start of a line only spaces, tabs, a comment and a break are looked for, but inside a line
other whitespace and continued line breaks are left out as well.  So a line can be hollow: it opens
and closes blocks by its width and has an end, and there is no content in it.  The lines of a stream
are full exactly if no line is hollow; the last line of a text may be if it opens no block.
-/

namespace Offside

namespace Text

/-! ## Texts without content -/

/-- Inside a line, nothing is ahead but what may be left out, up to a line break or to the end of
the text; that is `behind`. -/
inductive Hollow : (text behind : List Char) → Prop where
  | ended {behind : List Char} (upTo : ∀ c ∈ behind.head?, isBreak c = true) :
      Hollow behind behind
  | blank {c : Char} {rest behind : List Char} (blank : isBlank c = true)
      (notBreak : isBreak c = false) (further : Hollow rest behind) : Hollow (c :: rest) behind
  | comment {line behind : List Char} (inLine : ∀ c ∈ line, isBreak c = false)
      (upTo : ∀ c ∈ behind.head?, isBreak c = true) : Hollow ('#' :: (line ++ behind)) behind
  | continuation {ended rest behind : List Char} (isLineBreak : IsLineBreak ended rest)
      (further : Hollow rest behind) : Hollow ('\\' :: (ended ++ rest)) behind

/-- A line that begins at the margin, with content as far as can be told there, is hollow.  It
matters if the line is ended by a break or opens a block. -/
def OpensHollow (text : List Char) (blocks : Blocks) : Prop :=
  ∃ white c rest behind, text = white ++ c :: rest ∧ (∀ d ∈ white, isMargin d = true) ∧
    isMargin c = false ∧ c ≠ '#' ∧ isBreak c = false ∧ Hollow (c :: rest) behind ∧
    (behind ≠ [] ∨ white.length ∉ blocks.levels)

theorem dropWhile_line {line behind : List Char} (inLine : ∀ c ∈ line, isBreak c = false)
    (upTo : ∀ c ∈ behind.head?, isBreak c = true) :
    (line ++ behind).dropWhile (fun c => !isBreak c) = behind := by
  rw [List.dropWhile_append_of_pos fun c member => by simp [inLine c member]]
  cases behind with
  | nil => rfl
  | cons c behind => simp [upTo c rfl]

theorem IsLineBreak.breakAhead_eq {ended rest : List Char} (isLineBreak : IsLineBreak ended rest) :
    breakAhead (ended ++ rest) = ended := by
  rcases isLineBreak with rfl | rfl | ⟨rfl, single⟩
  · rfl
  · rfl
  · simp [breakAhead, single, isBreak]

theorem Hollow.upTo {text behind : List Char} (hollow : Hollow text behind) :
    ∀ c ∈ behind.head?, isBreak c = true := by
  induction hollow with
  | ended upTo => exact upTo
  | blank _ _ _ ih => exact ih
  | comment _ upTo => exact upTo
  | continuation _ _ ih => exact ih

theorem Hollow.eq_of_upTo {text behind : List Char} (hollow : Hollow text behind)
    (upTo : ∀ c ∈ text.head?, isBreak c = true) : behind = text := by
  cases hollow with
  | ended => rfl
  | blank _ notBreak => simp [notBreak] at upTo
  | comment | continuation => cases upTo _ rfl

theorem Skippable.hollow {text rest behind : List Char} (skippable : Skippable text rest)
    (hollow : Hollow rest behind) : Hollow (text ++ rest) behind := by
  cases skippable with
  | blanks isBlank =>
    induction text with
    | nil => exact hollow
    | cons c text ih =>
      obtain ⟨⟨blank, notBreak⟩, others⟩ := List.forall_mem_cons.1 isBlank
      exact .blank blank notBreak (ih others)
  | comment begins inLine upTo =>
    obtain ⟨line, rfl⟩ := List.head?_eq_some_iff.1 begins
    obtain rfl := hollow.eq_of_upTo upTo
    exact .comment (List.forall_mem_cons.1 inLine).2 upTo
  | continuation isLineBreak => exact .continuation isLineBreak hollow

theorem Hollow.of_blank {c : Char} {rest behind : List Char} (hollow : Hollow (c :: rest) behind)
    (blank : isBlank c = true) (notBreak : isBreak c = false) : Hollow rest behind := by
  cases hollow with
  | ended upTo => simp [upTo c rfl] at notBreak
  | blank _ _ further => exact further
  | comment | continuation => cases blank

theorem Hollow.of_comment {rest behind : List Char} (hollow : Hollow ('#' :: rest) behind) :
    behind = rest.dropWhile fun c => !isBreak c := by
  cases hollow with
  | ended upTo => cases upTo '#' rfl
  | blank blank => cases blank
  | comment inLine upTo => rw [dropWhile_line inLine upTo]

theorem Hollow.of_continuation {rest behind : List Char} (hollow : Hollow ('\\' :: rest) behind) :
    ∃ others, rest = breakAhead rest ++ others ∧ Hollow others behind := by
  cases hollow with
  | ended upTo => cases upTo '\\' rfl
  | blank blank => cases blank
  | @continuation ended others _ isLineBreak further =>
    exact ⟨others, by rw [isLineBreak.breakAhead_eq], further⟩

theorem Skippable.of_hollow {text rest behind : List Char} (skippable : Skippable text rest)
    (hollow : Hollow (text ++ rest) behind) : Hollow rest behind := by
  cases skippable with
  | blanks isBlank =>
    induction text with
    | nil => exact hollow
    | cons c text ih =>
      obtain ⟨⟨blank, notBreak⟩, others⟩ := List.forall_mem_cons.1 isBlank
      exact ih (hollow.of_blank blank notBreak) others
  | comment begins inLine upTo =>
    obtain ⟨line, rfl⟩ := List.head?_eq_some_iff.1 begins
    obtain ⟨-, inLine⟩ := List.forall_mem_cons.1 inLine
    rw [List.cons_append] at hollow
    have same := hollow.of_comment
    rw [dropWhile_line inLine upTo] at same
    rw [same]
    exact .ended upTo
  | continuation isLineBreak =>
    rw [List.cons_append] at hollow
    obtain ⟨others, split, further⟩ := hollow.of_continuation
    rw [isLineBreak.breakAhead_eq] at split
    rw [List.append_cancel_left split]
    exact further

end Text

open Text

/-! ## The kinds of a line -/

theorem Kind.not_isLayout_of_isContent (kind : Kind) (isContent : kind.isContent = true) :
    kind.isLayout = false := by
  cases kind with
  | newline | indent | dedent => cases isContent
  | _ => rfl

def IsLayout (last : Option Kind) : Prop := ∀ kind ∈ last, kind.isLayout = true

namespace Piece

theorem kind_ahead_of_hollow {c : Char} {rest behind : List Char}
    (hollow : Hollow (c :: rest) behind) (notBreak : isBreak c = false) :
    (ahead c rest).kind = none := by
  rw [ahead]
  split
  next => rfl
  next notComment =>
  split
  next => rfl
  next notContinued =>
  cases hollow with
  | ended upTo => simp [upTo c rfl] at notBreak
  | blank blank => rw [if_pos blank]; rfl
  | comment => exact absurd rfl notComment
  | continuation isLineBreak =>
    exfalso
    apply notContinued
    obtain ⟨first, others, rfl⟩ := List.exists_cons_of_ne_nil isLineBreak.ne_nil
    exact ⟨rfl, isLineBreak.isBreak_head? first rfl⟩

theorem isLayout_lastKind {pieces : List Piece} {last : Option Kind} (isLayout : IsLayout last)
    (layout : ∀ piece ∈ pieces, IsLayout piece.kind) : IsLayout (lastKind pieces last) := by
  induction pieces generalizing last with
  | nil => exact isLayout
  | cons piece pieces ih =>
    obtain ⟨first, others⟩ := List.forall_mem_cons.1 layout
    apply ih _ others
    cases kind : piece.kind with
    | none => simpa [kind] using isLayout
    | some kind' => simpa [kind] using first

theorem isLayout_indentation {white : List Char} {fit : Fit} {last : Option Kind}
    (isLayout : IsLayout last) : IsLayout (lastKind (indentation white fit) last) := by
  apply isLayout_lastKind isLayout
  intro piece member
  rcases kind_indentation member with none | indent | dedent
  · simp [IsLayout, none]
  · simp [IsLayout, indent, Kind.isLayout]
  · simp [IsLayout, dedent, Kind.isLayout]

theorem walk_indentation {white : List Char} {blocks : Blocks} (nested : blocks.Nested) :
    Standing.front.walk (kinds (indentation white (blocks.fit white.length).1)) =
      some (if white.length ∈ blocks.levels then .front else .opened) := by
  have level := Blocks.innermost_upTo_eq nested white.length
  have widest := Blocks.le_innermost nested white.length
  rw [Blocks.fit]
  by_cases wider : blocks.innermost < white.length
  · have noLevel : white.length ∉ blocks.levels := fun member => by
      have := widest member
      omega
    rw [if_pos wider, if_neg noLevel]
    rfl
  rw [if_neg wider]
  by_cases same : white.length = blocks.innermost
  · have isLevel : white.length ∈ blocks.levels := same ▸ blocks.innermost_mem_levels
    rw [if_pos same, if_pos isLevel]
    rfl
  rw [if_neg same]
  by_cases member : white.length ∈ blocks.levels
  · simp only [level.2 member, member, if_true, indentation, kinds_append, kinds_replicate_cut,
      Standing.walk_dedents]
    rfl
  · simp only [mt level.1 member, member, if_false, indentation, kinds_append,
      kinds_replicate_cut, Standing.walk_dedents]
    rfl

theorem kinds_ending_of_isLayout (blocks : Blocks) {last : Option Kind} (isLayout : IsLayout last) :
    kinds (ending blocks last) = List.replicate blocks.size .dedent ++ [.eof] := by
  rw [kinds_ending]
  cases last with
  | none => rfl
  | some kind => simp [isLayout kind rfl]

end Piece

/-! ## Streams without hollow lines -/

namespace Prospect

variable {prospect next : Prospect} {pieces : List Piece} {standing : Standing}

/-- Where a walk over the kinds so far stands, as long as no hollow line has been opened. -/
inductive Stands : Prospect → Standing → Prop where
  | atMargin {text : List Char} {blocks : Blocks} {last : Option Kind} (isLayout : IsLayout last) :
      Stands ⟨text, blocks, .atMargin, last⟩ .front
  | front {text : List Char} {blocks : Blocks} {last : Option Kind} (isLayout : IsLayout last)
      (full : ∀ behind, Hollow text behind → behind = []) :
      Stands ⟨text, blocks, .inLine, last⟩ .front
  | opened {text : List Char} {blocks : Blocks} {last : Option Kind}
      (full : ∀ behind, ¬ Hollow text behind) : Stands ⟨text, blocks, .inLine, last⟩ .opened
  | inside {text : List Char} {blocks : Blocks} {kind : Kind} (isContent : kind.isContent = true) :
      Stands ⟨text, blocks, .inLine, some kind⟩ .inside
  | atEnd {text : List Char} {blocks : Blocks} {last : Option Kind} (isLayout : IsLayout last) :
      Stands ⟨text, blocks, .atEnd, last⟩ .front
  | unended {text : List Char} {blocks : Blocks} {kind : Kind} (isContent : kind.isContent = true) :
      Stands ⟨text, blocks, .atEnd, some kind⟩ .inside
  | done {text : List Char} {blocks : Blocks} {last : Option Kind} :
      Stands ⟨text, blocks, .done, last⟩ .ended

theorem Stands.walk_ending {text : List Char} {blocks : Blocks} {last : Option Kind}
    (stands : Stands ⟨text, blocks, .atEnd, last⟩ standing) :
    standing.walk (Piece.kinds (Piece.ending blocks last)) = some .ended := by
  cases stands with
  | atEnd isLayout =>
    rw [Piece.kinds_ending_of_isLayout _ isLayout, Standing.walk_dedents]
    rfl
  | @unended _ _ kind isContent =>
    have notLayout := kind.not_isLayout_of_isContent isContent
    rw [Piece.kinds_ending]
    simp only [Option.any_some, notLayout, Bool.not_false, if_true, List.cons_append,
      List.nil_append]
    rw [Standing.walk_cons _ rfl, Standing.walk_dedents]
    rfl

theorem Leads.stands (leads : prospect.Leads pieces next) (stands : prospect.Stands standing)
    (nested : prospect.blocks.Nested)
    (full : prospect.mode = .atMargin → ¬ OpensHollow prospect.text prospect.blocks) :
    ∃ after, standing.walk (Piece.kinds pieces) = some after ∧ next.Stands after := by
  cases leads with
  | ends =>
    cases stands with
    | atMargin isLayout => exact ⟨.front, rfl, .atEnd isLayout⟩
  | blankLine =>
    cases stands with
    | atMargin isLayout => exact ⟨.front, rfl, .atMargin isLayout⟩
  | @content white rest c blocks last margin notMargin notComment notBreak =>
    cases stands with
    | atMargin isLayout =>
      refine ⟨_, Piece.walk_indentation nested, ?_⟩
      -- On a level of the blocks a hollow line may still be the last one; a new level needs content.
      by_cases level : white.length ∈ blocks.levels
      · rw [if_pos level]
        apply Stands.front (Piece.isLayout_indentation isLayout)
        intro behind hollow
        by_contra nonempty
        exact full rfl ⟨white, c, rest, behind, rfl, margin, notMargin, notComment, notBreak,
          hollow, .inl nonempty⟩
      · rw [if_neg level]
        apply Stands.opened
        intro behind hollow
        exact full rfl ⟨white, c, rest, behind, rfl, margin, notMargin, notComment, notBreak,
          hollow, .inr level⟩
  | newline isLineBreak =>
    have ended := Hollow.ended isLineBreak.isBreak_head?
    cases stands with
    | front _ full => simpa [isLineBreak.ne_nil] using full _ ended
    | opened full => exact absurd ended (full _)
    | inside => exact ⟨.front, rfl, .atMargin (by simp [IsLayout, Kind.isLayout])⟩
  | skip skippable =>
    cases stands with
    | front isLayout full =>
      exact ⟨.front, rfl, .front isLayout fun _ hollow => full _ (skippable.hollow hollow)⟩
    | opened full =>
      exact ⟨.opened, rfl, .opened fun _ hollow => full _ (skippable.hollow hollow)⟩
    | inside isContent => exact ⟨.inside, rfl, .inside isContent⟩
  | @token piece rest kind _ _ isToken isContent =>
    refine ⟨.inside, ?_, .inside isContent⟩
    have running : standing ≠ .ended := by
      rintro rfl
      cases stands
    rw [show Piece.kinds [piece] = [kind] by simp [Piece.kinds, isToken],
      Standing.walk_cons _ (Standing.after?_content running isContent)]
    rfl
  | stops =>
    cases stands with
    | front isLayout => exact ⟨.front, rfl, .atEnd isLayout⟩
    | opened full => exact absurd (.ended (by simp)) (full [])
    | inside isContent => exact ⟨.inside, rfl, .unended isContent⟩
  | closes => exact ⟨.ended, stands.walk_ending, .done⟩
  | done =>
    cases stands with
    | done => exact ⟨.ended, rfl, .done⟩

end Prospect

/-- If no hollow line is opened on the way, a walk over the kinds of a trail gets to its end. -/
theorem Trail.stands {first last : Prospect} {pieces : List Piece} {standing : Standing}
    (trail : Trail first pieces last) (stands : first.Stands standing)
    (nested : first.blocks.Nested)
    (full : ∀ {middle : Prospect} {before : List Piece}, Trail first before middle →
      middle.mode = .atMargin → ¬ OpensHollow middle.text middle.blocks) :
    ∃ after, standing.walk (Piece.kinds pieces) = some after ∧ last.Stands after := by
  induction trail generalizing standing with
  | refl => exact ⟨standing, rfl, stands⟩
  | @stride prospect final pieces running trail ih =>
    obtain ⟨middle, walked, further⟩ := prospect.leads.stands stands nested (full (.refl _))
    obtain ⟨after, others, last⟩ := ih further (prospect.leads.nested nested)
      fun trail => full (.stride running trail)
    refine ⟨after, ?_, last⟩
    rw [Piece.kinds_append, Standing.walk_append, walked]
    exact others

/-! ## Streams with a hollow line -/

namespace Prospect

/-- The kinds in front of a line: a walk over them can only stand in front of its content. -/
def LeadsToFront (kinds : List Kind) : Prop :=
  ∀ after, Standing.front.walk kinds = some after → after = .front

theorem Leads.toFront {prospect after : Prospect} {pieces : List Piece} {before : List Kind}
    (leads : prospect.Leads pieces after) (toFront : prospect.mode = .atMargin → LeadsToFront before)
    (atMargin : after.mode = .atMargin) :
    LeadsToFront (before ++ Piece.kinds pieces) := by
  cases leads with
  | blankLine => simpa [Piece.kinds, Piece.dropped] using toFront rfl
  | newline =>
    intro after walked
    simp only [Piece.kinds, Piece.cut, List.filterMap_cons, List.filterMap_nil,
      Standing.walk_append, Standing.walk] at walked
    obtain ⟨middle, -, ended⟩ := Option.bind_eq_some_iff.1 walked
    obtain ⟨last, newline, same⟩ := Option.bind_eq_some_iff.1 ended
    cases same
    exact Standing.after?_newline newline
  | ends | content | skip | token | stops | closes | done => cases atMargin

theorem next_of_hollow {text behind : List Char} {blocks : Blocks} {last : Option Kind}
    (hollow : Hollow text behind) (more : ¬ ∀ c ∈ text.head?, isBreak c = true) :
    Piece.kinds (stride ⟨text, blocks, .inLine, last⟩).pieces = [] ∧
      ∃ rest, next ⟨text, blocks, .inLine, last⟩ = ⟨rest, blocks, .inLine, last⟩ ∧
        Hollow rest behind := by
  cases text with
  | nil => simp at more
  | cons c rest =>
    have notBreak : isBreak c = false := by simpa using more
    have pieces : (stride ⟨c :: rest, blocks, .inLine, last⟩).pieces = [.ahead c rest] := by
      simp [stride, Stride.inLine, notBreak]
    have noKind := Piece.kind_ahead_of_hollow hollow notBreak
    have leads := leads ⟨c :: rest, blocks, .inLine, last⟩
    refine ⟨by simp [pieces, Piece.kinds, noKind], ?_⟩
    rw [pieces] at leads
    -- The text is generalized because no case of the relation is about a text in this form.
    generalize whole : c :: rest = text at *
    generalize Piece.ahead c rest = piece at *
    generalize next ⟨text, blocks, .inLine, last⟩ = after at *
    cases leads with
    | newline isLineBreak => simp [Piece.cut] at noKind
    | skip skippable => exact ⟨_, rfl, skippable.of_hollow hollow⟩
    | token isToken => simp [noKind] at isToken

theorem Runs.of_hollow {prospect : Prospect} {pieces : List Piece} {behind : List Char}
    (runs : prospect.Runs pieces) (inLine : prospect.mode = .inLine)
    (hollow : Hollow prospect.text behind) :
    ∃ further, Piece.kinds pieces = Piece.kinds further ∧
      Runs ⟨behind, prospect.blocks, .inLine, prospect.last⟩ further := by
  obtain ⟨final, trail, done⟩ := runs
  induction trail with
  | refl =>
    rw [inLine] at done
    cases done
  | @stride prospect final pieces running trail ih =>
    obtain ⟨text, blocks, mode, last⟩ := prospect
    cases inLine
    by_cases upTo : ∀ c ∈ text.head?, isBreak c = true
    · obtain rfl := hollow.eq_of_upTo upTo
      exact ⟨_, rfl, final, .stride running trail, done⟩
    · obtain ⟨nothing, rest, same, further⟩ := next_of_hollow hollow upTo
      rw [same] at ih
      obtain ⟨others, kinds, runs⟩ := ih rfl further done
      exact ⟨others, by rw [Piece.kinds_append, nothing, kinds, List.nil_append], runs⟩

theorem Runs.kinds_at_break {text : List Char} {blocks : Blocks} {last : Option Kind}
    {pieces : List Piece} (runs : Runs ⟨text, blocks, .inLine, last⟩ pieces)
    (isBreak : ∀ c ∈ text.head?, isBreak c = true) (nonempty : text ≠ []) :
    ∃ kinds, Piece.kinds pieces = .newline :: kinds := by
  obtain ⟨c, rest, rfl⟩ := List.exists_cons_of_ne_nil nonempty
  obtain ⟨further, rfl, -⟩ := runs_of_running (by simp) runs
  refine ⟨Piece.kinds further, ?_⟩
  rw [Piece.kinds_append]
  simp [stride, Stride.inLine, isBreak c rfl, Piece.kinds, Piece.cut]

theorem next_content {white rest : List Char} {c : Char} (blocks : Blocks) (last : Option Kind)
    (margin : ∀ d ∈ white, isMargin d = true) (notMargin : isMargin c = false)
    (notComment : c ≠ '#') (notBreak : isBreak c = false) :
    (stride ⟨white ++ c :: rest, blocks, .atMargin, last⟩).pieces =
        Piece.indentation white (blocks.fit white.length).1 ∧
      next ⟨white ++ c :: rest, blocks, .atMargin, last⟩ =
        ⟨c :: rest, (blocks.fit white.length).2, .inLine,
          Piece.lastKind (Piece.indentation white (blocks.fit white.length).1) last⟩ := by
  have taken : (white ++ c :: rest).takeWhile isMargin = white := by
    rw [List.takeWhile_append_of_pos margin]
    simp [notMargin]
  have left : (white ++ c :: rest).dropWhile isMargin = c :: rest := by
    rw [List.dropWhile_append_of_pos margin]
    simp [notMargin]
  have same : stride ⟨white ++ c :: rest, blocks, .atMargin, last⟩ =
      ⟨Piece.indentation white (blocks.fit white.length).1, .inLine,
        (blocks.fit white.length).2⟩ := by
    simp [stride, Stride.atMargin, taken, left, notComment, notBreak]
  rw [next, same]
  simp

theorem not_walk_opened_ending (blocks : Blocks) (last : Option Kind) :
    Standing.opened.walk (Piece.kinds (Piece.ending blocks last)) = none := by
  rw [Piece.kinds_ending]
  split
  · rfl
  · cases blocks.size with
    | zero => rfl
    | succ size => rfl

/-- Behind an opened hollow line a walk does not get to the end. -/
theorem Runs.not_walk_of_opensHollow {prospect : Prospect} {pieces : List Piece}
    (runs : prospect.Runs pieces) (atMargin : prospect.mode = .atMargin)
    (nested : prospect.blocks.Nested) (hollow : OpensHollow prospect.text prospect.blocks) :
    Standing.front.walk (Piece.kinds pieces) = none := by
  obtain ⟨text, blocks, mode, last⟩ := prospect
  cases atMargin
  obtain ⟨white, c, rest, behind, rfl, margin, notMargin, notComment, notBreak, hollow, matters⟩ :=
    hollow
  obtain ⟨further, rfl, inLine⟩ := runs_of_running (by simp) runs
  have content := @next_content white rest c blocks last margin notMargin notComment notBreak
  rw [content.2] at inLine
  -- Nothing is cut from the hollow text, so behind the indentation comes what is behind that text.
  obtain ⟨others, kinds, behindRuns⟩ := inLine.of_hollow rfl hollow
  rw [content.1, Piece.kinds_append, kinds, Standing.walk_append, Piece.walk_indentation nested]
  simp only [Option.bind_some]
  by_cases atEnd : behind = []
  · -- At the end of the text the line has opened a block, and no content comes.
    subst atEnd
    have noLevel : white.length ∉ blocks.levels := by simpa using matters
    rw [if_neg noLevel, behindRuns.eq_ending]
    exact not_walk_opened_ending _ _
  · obtain ⟨more, ended⟩ := behindRuns.kinds_at_break hollow.upTo atEnd
    rw [ended]
    split
    · rfl
    · rfl

end Prospect

theorem Trail.toFront {first last : Prospect} {pieces : List Piece} {before : List Kind}
    (trail : Trail first pieces last)
    (toFront : first.mode = .atMargin → Prospect.LeadsToFront before)
    (atMargin : last.mode = .atMargin) :
    Prospect.LeadsToFront (before ++ Piece.kinds pieces) := by
  induction trail generalizing before with
  | refl =>
    simpa [Piece.kinds] using toFront atMargin
  | @stride prospect _ _ _ _ ih =>
    rw [Piece.kinds_append, ← List.append_assoc]
    exact ih (prospect.leads.toFront toFront) atMargin

/-! ## The lines of a scan -/

theorem Lexer.Visits.stride {source : Source} {taken : List Token} {lexer : Lexer}
    (visits : Visits source taken lexer) (running : lexer.mode ≠ .done) :
    ∃ taken after, Visits source taken after ∧ after.prospect = lexer.prospect.next := by
  -- The tokens that wait are handed out first, by induction on the queue.
  generalize waiting : lexer.reader.queue = queue
  induction queue generalizing taken lexer with
  | nil =>
    obtain ⟨pieces, along⟩ := visits.along
    obtain ⟨after, report, stepped, follows⟩ := step_follows along.clear
    exact ⟨taken, after, visits.step waiting running stepped, follows.prospect⟩
  | cons token rest ih =>
    obtain ⟨taken, after, further, same⟩ := ih (visits.handOut waiting) running rfl
    exact ⟨taken, after, further, same⟩

theorem Trail.visits {source : Source} {first last : Prospect} {pieces : List Piece}
    (trail : Trail first pieces last) {taken : List Token} {lexer : Lexer}
    (visits : Lexer.Visits source taken lexer) (here : lexer.prospect = first) :
    ∃ taken after, Lexer.Visits source taken after ∧ after.prospect = last := by
  induction trail generalizing taken lexer with
  | refl => exact ⟨taken, lexer, visits, here⟩
  | stride running _ ih =>
    subst here
    obtain ⟨taken, after, further, same⟩ := visits.stride running
    exact ih further same

/-- The lines of a stream are full exactly if the scan never opens a hollow line that is ended by a
break or opens a block. -/
theorem Source.lex_fullLines_iff (source : Source) :
    ∃ tokens reports, source.lex = .ok (tokens, reports) ∧
      (FullLines (tokens.map Token.kind) ↔
        ∀ taken lexer, Lexer.Visits source taken lexer → lexer.mode = .atMargin →
          ¬ OpensHollow lexer.reader.point.rest lexer.blocks) := by
  obtain ⟨pieces, runs⟩ := source.exists_runs
  refine ⟨_, _, source.lex_eq runs, ?_⟩
  rw [Piece.map_kind_tokens, ← Standing.walk_eq_ended_iff]
  constructor
  · intro walked taken lexer visits atMargin hollow
    obtain ⟨before, along⟩ := visits.along
    obtain ⟨behind, further⟩ := Lexer.exists_runs along.clear
    have nested := (along.trail.settled (Prospect.settled_start source.chars)).nested
    have front := @Trail.toFront _ _ _ [] along.trail fun _ after walked =>
      (Option.some.inj walked).symm
    rw [runs.unique (further.behind along.trail), Piece.kinds_append, Standing.walk_append] at walked
    obtain ⟨middle, first, second⟩ := Option.bind_eq_some_iff.1 walked
    obtain rfl := front atMargin middle first
    rw [further.not_walk_of_opensHollow atMargin nested hollow] at second
    cases second
  · intro full
    obtain ⟨final, trail, done⟩ := runs
    -- Every point of the trail is visited by a lexer, so none of them opens a hollow line.
    have visited : ∀ {middle : Prospect} {before : List Piece},
        Trail (.start source.chars) before middle → middle.mode = .atMargin →
          ¬ OpensHollow middle.text middle.blocks := by
      intro middle before trail atMargin
      obtain ⟨taken, lexer, visits, same⟩ := trail.visits (.start) rfl
      subst same
      exact full taken lexer visits atMargin
    obtain ⟨after, walked, stands⟩ :=
      trail.stands (.atMargin (by simp [IsLayout])) Blocks.nested_empty visited
    cases stands with
    | done => exact walked
    | _ => cases done

/-- A line that holds a space, a form feed and a break opens a block and ends, and there is no
content in it. -/
theorem Source.lex_hollow :
    ∃ tokens reports, Source.lex ⟨0, "", "", [' ', '\x0c', '\n'], #[]⟩ = .ok (tokens, reports) ∧
      tokens.map Token.kind = [.indent, .newline, .dedent, .eof] ∧
      ¬ FullLines (tokens.map Token.kind) := by
  have runs : (Prospect.start [' ', '\x0c', '\n']).Runs _ :=
    ⟨_, .stride (by decide) (.stride (by decide) (.stride (by decide) (.stride (by decide)
      (.stride (by decide) (.refl _))))), by decide⟩
  have kinds := Piece.map_kind_tokens ⟨0, "", "", [' ', '\x0c', '\n'], #[]⟩
    (.origin [' ', '\x0c', '\n'])
  refine ⟨_, _, @Source.lex_eq ⟨0, "", "", [' ', '\x0c', '\n'], #[]⟩ _ runs, ?_⟩
  rw [kinds]
  decide

end Offside
