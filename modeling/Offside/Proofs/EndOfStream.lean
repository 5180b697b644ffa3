import Offside.Proofs.Scans

/-!
# The end of the stream

Every scan ends: after finitely many tokens comes the end of the stream, and nothing after it.  On
the way no operation of the reader is misused, so a scan fails only if its sink does.
-/

namespace Offside

/-! ## The last piece -/

namespace Prospect

variable {prospect : Prospect} {pieces : List Piece}

theorem Leads.not_eof {next : Prospect} (leads : prospect.Leads pieces next)
    (notAtEnd : prospect.mode ≠ .atEnd) (running : prospect.mode ≠ .done) :
    next.mode ≠ .done ∧ ∀ piece ∈ pieces, piece.kind ≠ some .eof := by
  cases leads with
  | ends | blankLine | skip => simp [Piece.dropped]
  | content =>
    refine ⟨by simp, ?_⟩
    intro piece member
    rcases Piece.kind_indentation member with kind | kind | kind <;> simp [kind]
  | newline => simp [Piece.cut]
  | token isToken isContent =>
    refine ⟨by simp, ?_⟩
    intro piece member eof
    rw [List.mem_singleton.1 member, isToken] at eof
    cases eof
    cases isContent
  | stops => simp
  | closes => exact absurd rfl notAtEnd
  | done => exact absurd rfl running

theorem Runs.eq_concat (runs : prospect.Runs pieces) (running : prospect.mode ≠ .done) :
    ∃ body, pieces = body ++ [.cut .eof []] ∧ ∀ piece ∈ body, piece.kind ≠ some .eof := by
  obtain ⟨final, trail, done⟩ := runs
  induction trail with
  | refl => exact absurd done running
  | @stride prospect final further _ trail ih =>
    by_cases atEnd : prospect.mode = .atEnd
    · have behind : prospect.next.mode = .done := by simp [next, stride, atEnd]
      obtain rfl := runs_of_done behind ⟨final, trail, done⟩
      refine ⟨_, by rw [List.append_nil, stride, atEnd]; rfl, fun piece member => ?_⟩
      rcases List.mem_append.1 member with member | member
      · split at member <;> simp_all [Piece.cut]
      · simp [List.eq_of_mem_replicate member, Piece.cut]
    · obtain ⟨stays, others⟩ := prospect.leads.not_eof atEnd running
      obtain ⟨body, rfl, further⟩ := ih stays done
      refine ⟨prospect.stride.pieces ++ body, by simp, fun piece member => ?_⟩
      rcases List.mem_append.1 member with member | member
      · exact others piece member
      · exact further piece member

end Prospect

theorem Piece.exists_of_mem_tokens {source : Source} {point : Point} {pieces : List Piece}
    {token : Token} (h : token ∈ tokens source point pieces) :
    ∃ piece ∈ pieces, piece.kind = some token.kind := by
  induction pieces generalizing point with
  | nil => cases h
  | cons piece pieces ih =>
    rcases List.mem_append.1 h with h | h
    · obtain ⟨kind, found, rfl⟩ := Option.map_eq_some_iff.1 (Option.mem_toList.1 h)
      exact ⟨piece, by simp, found⟩
    · obtain ⟨other, member, found⟩ := ih h
      exact ⟨other, by simp [member], found⟩

theorem Piece.tokens_concat_eof (source : Source) {point : Point} {body : List Piece}
    (notEof : ∀ piece ∈ body, piece.kind ≠ some .eof) :
    ∃ tokens last, Piece.tokens source point (body ++ [.cut .eof []]) = tokens ++ [last] ∧
      (∀ token ∈ tokens, token.isEof = false) ∧ last.isEof = true ∧ last.span.isEmpty = true := by
  refine ⟨_, _, tokens_append .., fun token member => ?_, rfl, ?_⟩
  · obtain ⟨piece, member, kind⟩ := exists_of_mem_tokens member
    have other := notEof piece member
    rw [kind] at other
    simpa [Token.isEof] using other
  · simp [Piece.span, Piece.cut, Span.isEmpty, Point.advance]

namespace Lexer

variable {σ : Type}

/-- What `count` calls of `next` answer, each with whether the lexer is finished afterwards. -/
def pulls (sink : Sink Diagnostic σ) :
    (count : Nat) → (state : σ) → (lexer : Lexer) → Except Fault (List (Option Token × Bool))
  | 0, _, _ => .ok []
  | count + 1, state, lexer => do
    let pulled ← lexer.next sink state
    let others ← pulls sink count pulled.2.2 pulled.2.1
    return (pulled.1, pulled.2.1.finished) :: others

/-- The tokens that are left of a stream: the end of the stream is the last one of them, and once it
is gone the lexer is finished. -/
inductive EndsWithEof : (tokens : List Token) → (finished : Bool) → Prop where
  | gone : EndsWithEof [] true
  | last {token : Token} {finished : Bool} (isEof : token.isEof = true) :
      EndsWithEof [token] finished
  | cons {token : Token} {tokens : List Token} {finished : Bool} (notEof : token.isEof = false)
      (further : EndsWithEof tokens false) : EndsWithEof (token :: tokens) finished

theorem EndsWithEof.concat {body : List Token} {token : Token} (finished : Bool)
    (notEof : ∀ token ∈ body, token.isEof = false) (isEof : token.isEof = true) :
    EndsWithEof (body ++ [token]) finished := by
  induction body generalizing finished with
  | nil => exact .last isEof
  | cons first body ih =>
    obtain ⟨first, others⟩ := List.forall_mem_cons.1 notEof
    exact .cons first (ih false others)

theorem EndsWithEof.tail {tokens : List Token} {finished : Bool} (ends : EndsWithEof tokens finished) :
    EndsWithEof tokens.tail (tokens.head?.elim finished Token.isEof) ∧
      tokens.head?.elim finished Token.isEof = decide (tokens.length ≤ 1) := by
  cases ends with
  | gone => exact ⟨.gone, rfl⟩
  | last isEof => exact ⟨by simpa [isEof] using .gone, by simp [isEof]⟩
  | cons notEof further =>
    refine ⟨by simpa [notEof] using further, ?_⟩
    cases further <;> simp [notEof]

/-- The `i`-th call takes the `i`-th token awaited, and the lexer is finished with the last one. -/
theorem pulls_eq {sink : Sink Diagnostic σ} (never : sink.NeverFails) (count : Nat) (state : σ)
    {lexer : Lexer} {tokens : List Token} {reports : List Diagnostic}
    (awaits : lexer.Awaits tokens reports) (ends : EndsWithEof tokens lexer.finished) :
    lexer.pulls sink count state =
      .ok ((List.range count).map fun i => (tokens[i]?, decide (tokens.length ≤ i + 1))) := by
  -- One call takes the first token awaited and leaves a lexer that awaits the others.
  induction count generalizing state lexer tokens reports with
  | zero => rfl
  | succ count ih =>
    obtain ⟨after, used, others, rfl, -, behind, finished, pulled⟩ := next_eq awaits
    obtain ⟨final, received⟩ := never.receiveAll state used
    have taken := pulled sink state
    rw [received] at taken
    obtain ⟨further, last⟩ := ends.tail
    rw [← finished] at further last
    have rest := ih final behind further
    rw [pulls, taken]
    simp only [Except.map, bind, Except.bind, rest, List.range_succ_eq_map, List.map_cons,
      List.map_map, last, pure, Except.pure]
    congr 2
    · rw [List.head?_eq_getElem?]
    · apply List.map_congr_left
      intro i _
      simp [List.getElem?_tail]

/-- However often a scan of a source is asked for a token, with a sink that takes every diagnostic,
no operation is misused.  There are finitely many tokens, one for each call; the last one and only
that one is the end of the stream, and it is empty.  The lexer is finished exactly when it has been
handed out, and every later call answers that there is no token. -/
theorem pulls_ofSource {sink : Sink Diagnostic σ} (never : sink.NeverFails) (source : Source)
    (state : σ) :
    (ofSource source).finished = false ∧
      ∃ body last, (∀ token ∈ body, token.isEof = false) ∧ last.isEof = true ∧
        last.span.isEmpty = true ∧
        ∀ count, (ofSource source).pulls sink count state =
          .ok ((List.range count).map fun i =>
            ((body ++ [last])[i]?, decide (body.length ≤ i))) := by
  obtain ⟨pieces, runs⟩ := source.exists_runs
  obtain ⟨body, rfl, notEof⟩ := runs.eq_concat (by simp [Prospect.start])
  obtain ⟨body, last, split, notEof, isEof, isEmpty⟩ := Piece.tokens_concat_eof source notEof
  have awaits : (ofSource source).Awaits (body ++ [last]) _ :=
    ⟨Reader.clear_ofSource source, _, runs, split.symm, rfl⟩
  refine ⟨rfl, body, last, notEof, isEof, isEmpty, fun count => ?_⟩
  rw [pulls_eq never count state awaits (.concat _ notEof isEof)]
  simp

/-- A scan of a stray character and an open string, the diagnostics collected. -/
theorem pulls_collect :
    (Sink.collect : Sink Diagnostic (List Diagnostic)).NeverFails ∧
      ∃ body last, (∀ token ∈ body, token.isEof = false) ∧ last.isEof = true ∧
        last.span.isEmpty = true ∧
        ∀ count, (ofSource ⟨0, "", "", ['$', '\'', 'x'], #[]⟩).pulls Sink.collect count [] =
          .ok ((List.range count).map fun i =>
            ((body ++ [last])[i]?, decide (body.length ≤ i))) :=
  ⟨Sink.neverFails_collect, (pulls_ofSource Sink.neverFails_collect _ []).2⟩

end Lexer

end Offside
