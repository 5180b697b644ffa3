import Offside.Proofs.Calls

/-!
# Tokens and their explanations

At every moment of a scan the diagnostics received and the tokens handed out explain each other.
Every error token has been reported before it is handed out, and every uneven line together with the
first of its dedents.
-/

namespace Offside

namespace Lexer

variable {σ : Type}

/-- The tokens that `count` calls of `next` answer with, and the lexer and the sink's state behind
them. -/
def calls (sink : Sink Diagnostic σ) :
    (count : Nat) → (state : σ) → (lexer : Lexer) → Except Fault (List Token × Lexer × σ)
  | 0, state, lexer => .ok ([], lexer, state)
  | count + 1, state, lexer => do
    let pulled ← lexer.next sink state
    let others ← calls sink count pulled.2.2 pulled.2.1
    return (pulled.1.toList ++ others.1, others.2)

variable {source : Source} {taken : List Token} {received : List Diagnostic} {lexer : Lexer}

/-- The `count` calls answer with the first tokens awaited, and lead to between two calls. -/
theorem calls_eq {tokens : List Token} {reports : List Diagnostic}
    (between : Between source taken received lexer) (visits : Visits source taken lexer)
    (awaits : lexer.Awaits tokens reports) (count : Nat) :
    ∃ after used others, reports = used ++ others ∧ (tokens.length ≤ count → others = []) ∧
      (∀ state, lexer.calls Sink.collect count state =
        .ok (tokens.take count, after, state ++ used)) ∧
      Between source (taken ++ tokens.take count) (received ++ used) after := by
  induction count generalizing lexer taken received tokens reports with
  | zero =>
    refine ⟨lexer, [], reports, rfl, ?_, fun state => by simp [calls], by simpa using between⟩
    intro short
    obtain rfl := List.length_eq_zero_iff.1 (Nat.le_zero.1 short)
    exact awaits.reports_eq_nil
  | succ count ih =>
    obtain ⟨answer, middle, report, call⟩ := between.call visits
    obtain ⟨rfl, -, others, rfl, behind⟩ := call.awaits awaits
    have pulled : ∀ state, lexer.next Sink.collect state =
        .ok (tokens.head?, middle, state ++ report.toList) := by
      intro state
      rw [call.next, deliver_eq, Sink.receiveAll_collect]
      rfl
    obtain ⟨after, used, left, rfl, nothing, further, last⟩ :=
      ih call.between (visits.next (pulled [])) behind
    have first : tokens.head?.toList ++ tokens.tail.take count = tokens.take (count + 1) := by
      cases tokens with
      | nil => simp
      | cons token tokens => rfl
    refine ⟨after, report.toList ++ used, left, by rw [List.append_assoc], ?_, fun state => ?_, ?_⟩
    · intro short
      apply nothing
      rw [List.length_tail]
      omega
    · rw [calls, pulled]
      simp only [bind, Except.bind, further, ← first, List.append_assoc]
      rfl
    · rw [← first, ← List.append_assoc, ← List.append_assoc]
      exact last

/-! ## Error tokens -/

theorem Along.handed_out {before : List Piece} {pieces : List Piece}
    (along : lexer.Along source taken (before ++ pieces))
    (begun : (Piece.tokens source (.origin source.chars) before).length < taken.length) :
    ∃ handed, handed ≠ [] ∧ taken = Piece.tokens source (.origin source.chars) before ++ handed ∧
      Piece.tokens source ((Point.origin source.chars).advance (Piece.texts before).length) pieces =
        handed ++ lexer.reader.queue := by
  have tokens := along.tokens
  rw [Piece.tokens_append] at tokens
  rcases List.append_eq_append_iff.1 tokens with ⟨others, split, -⟩ | ⟨handed, split, behind⟩
  · rw [split, List.length_append] at begun
    omega
  · refine ⟨handed, ?_, split, behind⟩
    rintro rfl
    rw [split, List.append_nil] at begun
    omega

theorem Between.no_error_waits (between : Between source taken received lexer) :
    lexer.reader.queue.filter Token.isError = [] := by
  cases between with
  | idle _ empty => rw [empty]; rfl
  | @waiting before prospect trail along _ begun =>
    obtain ⟨handed, some, -, cut⟩ := along.handed_out begun
    rw [List.filter_eq_nil_iff]
    intro token waits isError
    have isError : token.kind = .error := by simpa [Token.isError] using isError
    -- An error token would be the only one of its stride, and it would have been handed out.
    obtain ⟨piece, member, kind⟩ := Piece.exists_of_mem_tokens
      (cut ▸ List.mem_append_right handed waits)
    have alone := prospect.leads.error_alone member (isError ▸ kind)
    rw [alone, Piece.tokens_singleton, Piece.token?, kind] at cut
    have single := congrArg List.length cut
    have first := List.length_pos_of_ne_nil some
    have last := List.length_pos_of_mem waits
    rw [List.length_append] at single
    simp at single
    omega

/-- The error tokens handed out and the diagnostics received go together, uneven lines apart. -/
theorem Between.explained (between : Between source taken received lexer) :
    List.Forall₂ Explains (taken.filter Token.isError)
      (received.filter fun report => !report.isUneven) := by
  have noError := between.no_error_waits
  obtain ⟨pieces, along, rfl⟩ := between.along
  have content : source.chars = [] ++ (Piece.texts pieces ++ lexer.prospect.text) :=
    along.trail.text_eq
  have all := Piece.forall₂_explains along.trail.labelled content
  rw [List.nil_append] at content
  rwa [← content, ← Point.origin_eq_between, ← along.tokens, List.filter_append, noError,
    List.append_nil] at all

/-! ## Uneven lines -/

theorem Between.explained_uneven {pieces : List Piece}
    (between : Between source taken received lexer)
    (runs : (Prospect.start source.chars).Runs pieces) :
    List.Forall₂ Explains
      (unevenIndents taken.length false (Piece.tokens source (.origin source.chars) pieces))
      (received.filter Diagnostic.isUneven) := by
  cases between with
  | @idle before along empty reported =>
    obtain ⟨behind, further⟩ := Lexer.exists_runs along.clear
    have tokens := along.tokens
    rw [empty, List.append_nil] at tokens
    obtain ⟨indents, after, here, -, explained, fresh⟩ :=
      @Trail.passes source _ _ _ along.trail taken.length false [] rfl (fun _ => rfl)
    simp only [Prospect.start, ← Point.origin_eq_between, ← tokens, Nat.sub_self, le_refl,
      true_imp_iff] at here explained
    have rest := further.unevenIndents_eq_nil along.trail.text_eq fresh
    rw [runs.unique (further.behind along.trail), Piece.tokens_append, ← tokens, here,
      along.trail.advance_origin, rest, List.append_nil, reported]
    exact explained
  | @waiting before prospect trail along next begun reported =>
    obtain ⟨behind, further⟩ := Lexer.exists_runs along.clear
    obtain ⟨handed, some, split, cut⟩ := along.handed_out begun
    obtain ⟨indents, middle, here, -, explained, fresh⟩ :=
      @Trail.passes source _ _ _ trail taken.length false [] rfl (fun _ => rfl)
    obtain ⟨after, ⟨more, there, -, explainedMore⟩, fresh⟩ := @Prospect.Leads.passes source prospect
      _ _ (taken.length - (Piece.tokens source (.origin source.chars) before).length) middle _
      prospect.leads (fun _ => Prospect.labelled_stride) trail.text_eq fresh
    simp only [Prospect.start, ← Point.origin_eq_between] at here explained
    have rest := further.unevenIndents_eq_nil along.trail.text_eq (next ▸ fresh)
    rw [trail.advance_origin] at cut
    -- The tokens handed out end inside the last stride, so behind it none of them is left.
    have all : taken.length - (Piece.tokens source (.origin source.chars) before).length -
        (Piece.tokens source (.between (Piece.texts before) prospect.text)
          prospect.stride.pieces).length = 0 := by
      rw [cut, split]
      simp
    rw [runs.unique (further.behind along.trail), Piece.tokens_append, along.trail.advance_origin,
      Piece.tokens_append, trail.advance_origin, List.append_assoc, here, there, all, rest,
      List.append_nil, reported, Piece.reports_append, trail.advance_origin, List.filter_append]
    refine List.rel_append (explained begun.le) (explainedMore (.inl ?_))
    omega

end Lexer

/-- After any number of calls, the diagnostics received explain the error tokens handed out, one by
one and in order, and apart from them exactly the uneven lines whose dedents have begun.  Over the
whole scan they lie one behind the other, and an open string is the last of them: it reaches up to
the end, where only its line, the blocks and the stream are ended. -/
theorem Source.lex_explained (source : Source) :
    ∃ tokens reports, source.lex = .ok (tokens, reports) ∧
      (∀ count, ∃ after received others, reports = received ++ others ∧
        (Lexer.ofSource source).calls Sink.collect count [] =
          .ok (tokens.take count, after, received) ∧
        List.Forall₂ Explains ((tokens.take count).filter Token.isError)
          (received.filter fun report => !report.isUneven) ∧
        List.Forall₂ Explains (unevenIndents count false tokens)
          (received.filter Diagnostic.isUneven) ∧
        (tokens.length ≤ count → others = [])) ∧
      (∀ report ∈ reports, report.span.start < report.span.stop) ∧
      (reports.Pairwise fun a b => a.span.stop ≤ b.span.start) ∧
      ∀ before span line after, reports = before ++ .openString span line :: after →
        after = [] ∧ span.stop = source.size ∧
          ∃ earlier token closing count, tokens = earlier ++ token :: closing ∧
            Explains token (.openString span line) ∧
            closing.map Token.kind = .newline :: (List.replicate count .dedent ++ [.eof]) := by
  obtain ⟨pieces, runs⟩ := source.exists_runs
  have awaits : (Lexer.ofSource source).Awaits _ _ :=
    ⟨Reader.clear_ofSource source, pieces, runs, rfl, rfl⟩
  obtain ⟨final, trail, done⟩ := id runs
  have labelled := trail.labelled
  have whole : source.chars = Piece.texts pieces ++ final.text := trail.text_eq
  have origin : Point.origin source.chars = .between [] (Piece.texts pieces ++ final.text) := by
    rw [← whole, Point.origin_eq_between]
  refine ⟨_, _, source.lex_eq runs, fun count => ?_, ?_, ?_, fun before span line after split => ?_⟩
  · obtain ⟨after, received, others, split, all, called, between⟩ :=
      Lexer.calls_eq (Lexer.between_ofSource source) .start awaits count
    have uneven := between.explained_uneven runs
    simp only [List.nil_append, List.length_take] at uneven
    exact ⟨after, received, others, split, called [], between.explained,
      unevenIndents_min .. ▸ uneven, all⟩
  · rw [origin]
    intro report member
    exact (Piece.reports_behind labelled report member).2
  · rw [origin]
    exact Piece.reports_pairwise labelled
  · exact runs.openString split

end Offside
