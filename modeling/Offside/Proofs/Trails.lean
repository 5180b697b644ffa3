import Offside.Lexer.Run
import Offside.Proofs.Strides

/-!
# Trails

A trail is a sequence of strides, with the pieces on the way.  From every prospect there is a trail
to the end of the stream, because every step of a lexer brings it closer; and the pieces of a trail
cover the text between its ends, so nothing is lost and nothing is read twice.
-/

namespace Offside

/-- From one prospect to another, by strides that go through pieces. -/
inductive Trail : Prospect → List Piece → Prospect → Prop where
  | refl (prospect : Prospect) : Trail prospect [] prospect
  | stride {prospect final : Prospect} {pieces : List Piece} (running : prospect.mode ≠ .done)
      (further : Trail prospect.next pieces final) :
      Trail prospect (prospect.stride.pieces ++ pieces) final

namespace Trail

variable {first middle last : Prospect} {pieces others : List Piece}

theorem trans (front : Trail first pieces middle) (back : Trail middle others last) :
    Trail first (pieces ++ others) last := by
  induction front with
  | refl => exact back
  | stride running _ ih =>
    rw [List.append_assoc]
    exact .stride running (ih back)

theorem snoc (front : Trail first pieces middle) (running : middle.mode ≠ .done) :
    Trail first (pieces ++ middle.stride.pieces) middle.next := by
  have one := Trail.stride running (.refl middle.next)
  rw [List.append_nil] at one
  exact front.trans one

end Trail

/-! ## Lexers with a given prospect -/

namespace Lexer

variable {lexer after : Lexer} {report : Option Diagnostic}

theorem Follows.prospect (follows : lexer.Follows lexer.prospect.stride after report) :
    after.prospect = lexer.prospect.next := by
  have text := follows.takes.rest_eq
  have last := follows.takes.lastCut
  simp only [Lexer.prospect, Prospect.next] at *
  rw [text, last, follows.mode, follows.blocks]

end Lexer

namespace Prospect

/-- The pieces that all further strides go through, up to the end of the stream. -/
def Runs (prospect : Prospect) (pieces : List Piece) : Prop :=
  ∃ final, Trail prospect pieces final ∧ final.mode = .done

def Sound (prospect : Prospect) : Prop :=
  prospect.mode = .atEnd ∨ prospect.mode = .done → prospect.text = []

end Prospect

theorem Lexer.exists_runs {lexer : Lexer} (clear : lexer.reader.Clear) :
    ∃ pieces, lexer.prospect.Runs pieces := by
  by_cases running : lexer.mode = .done
  · exact ⟨[], _, .refl _, running⟩
  · obtain ⟨after, report, stepped, follows⟩ := step_follows clear
    have closer := remaining_step_lt running stepped
    obtain ⟨pieces, final, trail, done⟩ := exists_runs (follows.takes.clear clear)
    rw [follows.prospect] at trail
    exact ⟨_, final, .stride running trail, done⟩
termination_by lexer.remaining

theorem Source.exists_runs (source : Source) :
    ∃ pieces, (Prospect.start source.chars).Runs pieces :=
  @Lexer.exists_runs (.ofSource source) (Reader.clear_ofSource source)

namespace Prospect

variable {prospect : Prospect} {pieces : List Piece}

theorem runs_of_done (done : prospect.mode = .done) (runs : prospect.Runs pieces) :
    pieces = [] := by
  obtain ⟨final, trail, -⟩ := runs
  cases trail with
  | refl => rfl
  | stride running => exact absurd done running

theorem runs_of_running (running : prospect.mode ≠ .done) (runs : prospect.Runs pieces) :
    ∃ further, pieces = prospect.stride.pieces ++ further ∧ prospect.next.Runs further := by
  obtain ⟨final, trail, done⟩ := runs
  cases trail with
  | refl => exact absurd done running
  | stride _ further => exact ⟨_, rfl, final, further, done⟩

/-- All strides up to the end of the stream go through the same pieces. -/
theorem Runs.unique {prospect : Prospect} {pieces others : List Piece}
    (runs : prospect.Runs pieces) (again : prospect.Runs others) : pieces = others := by
  obtain ⟨final, trail, done⟩ := runs
  induction trail generalizing others with
  | refl => exact (runs_of_done done again).symm
  | stride running _ ih =>
    obtain ⟨further, rfl, behind⟩ := runs_of_running running again
    rw [ih behind done]

theorem Runs.eq_ending {blocks : Blocks} {last : Option Kind}
    (runs : Runs ⟨[], blocks, .inLine, last⟩ pieces) : pieces = Piece.ending blocks last := by
  obtain ⟨further, rfl, atEnd⟩ := runs_of_running (by simp) runs
  obtain ⟨others, rfl, done⟩ := runs_of_running (by simp [next, stride, Stride.inLine]) atEnd
  obtain rfl := runs_of_done rfl done
  simp [next, stride, Stride.inLine]

theorem Runs.behind {first prospect : Prospect} {before pieces : List Piece}
    (runs : prospect.Runs pieces) (trail : Trail first before prospect) :
    first.Runs (before ++ pieces) := by
  obtain ⟨final, further, done⟩ := runs
  exact ⟨final, trail.trans further, done⟩

/-! ## Texts of a trail -/

theorem Leads.text_eq {next : Prospect} (leads : prospect.Leads pieces next) :
    prospect.text = Piece.texts pieces ++ next.text := by
  cases leads with
  | ends => simp [Piece.dropped]
  | blankLine | skip => simp [Piece.dropped]
  | content | token => simp
  | newline => simp [Piece.cut]
  | closes => simp
  | stops | done => rfl

theorem sound_start (text : List Char) : (start text).Sound := by
  intro atEnd
  rcases atEnd with atEnd | done
  · cases atEnd
  · cases done

theorem Leads.sound {next : Prospect} (leads : prospect.Leads pieces next)
    (sound : prospect.Sound) : next.Sound := by
  intro atEnd
  cases leads with
  | ends | stops => rfl
  | blankLine | content | newline | skip | token => simp at atEnd
  | closes => exact sound (.inl rfl)
  | done => exact sound (.inr rfl)

end Prospect

namespace Trail

variable {first last : Prospect} {pieces : List Piece}

theorem sound (trail : Trail first pieces last) (sound : first.Sound) : last.Sound := by
  induction trail with
  | refl => exact sound
  | @stride prospect _ _ _ _ ih => exact ih (prospect.leads.sound sound)

theorem text_eq (trail : Trail first pieces last) :
    first.text = Piece.texts pieces ++ last.text := by
  induction trail with
  | refl => rfl
  | @stride prospect _ _ _ _ ih =>
    rw [prospect.leads.text_eq, ih, Piece.texts_append, List.append_assoc]

theorem advance_origin {text : List Char} (trail : Trail (.start text) pieces last) :
    (Point.origin text).advance (Piece.texts pieces).length =
      .between (Piece.texts pieces) last.text := by
  have whole : text = Piece.texts pieces ++ last.text := trail.text_eq
  rw [whole, Point.origin_eq_between, Point.advance_between, List.nil_append]

end Trail

theorem Prospect.Runs.texts_eq {prospect : Prospect} {pieces : List Piece}
    (runs : prospect.Runs pieces) (sound : prospect.Sound) :
    Piece.texts pieces = prospect.text := by
  obtain ⟨final, trail, done⟩ := runs
  have nothing := trail.sound sound (.inr done)
  rw [trail.text_eq, nothing, List.append_nil]

end Offside
