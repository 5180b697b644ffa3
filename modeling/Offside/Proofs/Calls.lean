import Offside.Proofs.UnevenLines

/-!
# Between two calls

Whatever a lexer has reported belongs to tokens of which the first has been handed out: a call
carries out steps only until a token is ready, and at most one of these steps reports something.
-/

namespace Offside

/-! ## Strides and their first tokens -/

namespace Piece

variable {source : Source} {point : Point} {pieces : List Piece}

theorem Labelled.kind_of_flawed {piece : Piece} (labelled : piece.Labelled)
    (flawed : piece.flaw ≠ none) : piece.kind ≠ none := by
  cases labelled with
  | sound flawless => exact absurd flawless flawed
  | stray | tooLarge | unclosed | uneven => simp [Piece.flawed, Piece.uneven]

theorem kind_of_tokens_eq_nil (noToken : tokens source point pieces = []) :
    ∀ piece ∈ pieces, piece.kind = none := by
  intro piece member
  cases kind : piece.kind with
  | none => rfl
  | some kind' =>
    have found : kind' ∈ kinds pieces := List.mem_filterMap.2 ⟨piece, member, kind⟩
    rw [← map_kind_tokens source point, noToken] at found
    cases found

theorem reports_of_tokens_eq_nil (labelled : ∀ piece ∈ pieces, piece.Labelled)
    (noToken : tokens source point pieces = []) : reports source point pieces = [] := by
  apply reports_eq_nil
  intro piece member
  by_contra flawed
  exact (labelled piece member).kind_of_flawed flawed (kind_of_tokens_eq_nil noToken piece member)

end Piece

theorem Prospect.Leads.error_alone {prospect next : Prospect} {pieces : List Piece} {piece : Piece}
    (leads : prospect.Leads pieces next) (member : piece ∈ pieces)
    (isError : piece.kind = some .error) : pieces = [piece] := by
  cases leads with
  | content =>
    rcases Piece.kind_indentation member with kind | kind | kind <;> simp [isError] at kind
  | closes =>
    rcases Piece.kind_ending member with kind | kind | kind <;> simp [isError] at kind
  | ends | blankLine | newline | skip | token => rw [List.mem_singleton.1 member]
  | stops | done => cases member

namespace Lexer

/-- A lexer between two calls of `next`, with the tokens it has handed out and the diagnostics it has
reported. -/
inductive Between (source : Source) (taken : List Token) (received : List Diagnostic)
    (lexer : Lexer) : Prop where
  /-- All tokens so far have been handed out. -/
  | idle {pieces : List Piece} (along : lexer.Along source taken pieces)
      (empty : lexer.reader.queue = [])
      (reported : received = Piece.reports source (.origin source.chars) pieces)
  /-- Of the tokens of the last stride, at least one has been handed out. -/
  | waiting {before : List Piece} {prospect : Prospect}
      (trail : Trail (.start source.chars) before prospect)
      (along : lexer.Along source taken (before ++ prospect.stride.pieces))
      (next : lexer.prospect = prospect.next)
      (begun : (Piece.tokens source (.origin source.chars) before).length < taken.length)
      (reported : received =
        Piece.reports source (.origin source.chars) (before ++ prospect.stride.pieces))

variable {source : Source} {taken : List Token} {received : List Diagnostic} {lexer : Lexer}

theorem Between.along (between : Between source taken received lexer) :
    ∃ pieces, lexer.Along source taken pieces ∧
      received = Piece.reports source (.origin source.chars) pieces := by
  cases between with
  | idle along _ reported => exact ⟨_, along, reported⟩
  | waiting _ along _ _ reported => exact ⟨_, along, reported⟩

theorem between_ofSource (source : Source) : Between source [] [] (ofSource source) :=
  .idle ⟨Reader.clear_ofSource source, rfl, .refl _, rfl, rfl⟩ rfl rfl

theorem Along.handOut {pieces : List Piece} {token : Token} {rest : List Token}
    (along : lexer.Along source taken pieces) (waits : lexer.reader.queue = token :: rest) :
    (lexer.handOut token { lexer.reader with queue := rest }).Along source (taken ++ [token])
      pieces where
  clear := ⟨along.clear.start, along.clear.placed⟩
  sameSource := along.sameSource
  trail := along.trail
  point := along.point
  tokens := by
    rw [← along.tokens, waits, List.append_assoc]
    rfl

/-- A call of `next`: its answer, the lexer behind it and the one diagnostic that it may report. -/
structure Call (source : Source) (taken : List Token) (received : List Diagnostic) (lexer : Lexer)
    (answer : Option Token) (after : Lexer) (report : Option Diagnostic) : Prop where
  next : ∀ {σ : Type} (sink : Sink Diagnostic σ) (state : σ), lexer.next sink state =
    (deliver sink state report).map fun final => (answer, after, final)
  between : Between source (taken ++ answer.toList) (received ++ report.toList) after
  /-- When something is reported, all tokens of the text in front have been handed out. -/
  reported : ∀ diagnostic ∈ report, ∃ middle behind, Visits source taken middle ∧
    middle.reader.queue = [] ∧ middle.step = .ok (behind, some diagnostic)

theorem Along.call {lexer : Lexer} {pieces : List Piece}
    (along : lexer.Along source taken pieces) (visits : Visits source taken lexer)
    (empty : lexer.reader.queue = []) :
    ∃ answer after report,
      Call source taken (Piece.reports source (.origin source.chars) pieces) lexer answer after
        report := by
  by_cases done : lexer.mode = .done
  · refine ⟨none, lexer, none, fun sink state => ?_, ?_, by simp⟩
    · rw [next, Reader.take, empty]
      simp only [dif_pos done]
      rfl
    · simpa using Between.idle along empty rfl
  obtain ⟨after, report, stepped, follows⟩ := step_follows along.clear
  have further := along.follows done follows
  have visited := visits.step empty done stepped
  have closer := remaining_step_lt done stepped
  have reports : Piece.reports source (.origin source.chars)
      (pieces ++ lexer.prospect.stride.pieces) =
      Piece.reports source (.origin source.chars) pieces ++ report.toList := by
    rw [Piece.reports_append, ← along.point, follows.report, ← along.sameSource, Lexer.source]
  cases waits : after.reader.queue with
  | nil =>
    have noToken := follows.takes.queue
    rw [waits, empty, List.nil_append] at noToken
    have noReport := follows.report
    rw [Piece.reports_of_tokens_eq_nil (fun _ => Prospect.labelled_stride) noToken.symm,
      Option.toList_eq_nil_iff] at noReport
    subst noReport
    rw [Option.toList_none, List.append_nil] at reports
    obtain ⟨answer, final, report, pulled, between, reported⟩ := further.call visited waits
    refine ⟨answer, final, report, fun sink state => ?_, reports ▸ between, reported⟩
    rw [next_of_step sink state empty done stepped]
    exact pulled sink state
  | cons first rest =>
    refine ⟨some first, after.handOut first { after.reader with queue := rest }, report,
      fun sink state => ?_, ?_, fun diagnostic member => ?_⟩
    · rw [next_of_step sink state empty done stepped]
      cases deliver sink state report with
      | error fault => rfl
      | ok final => exact next_of_queue sink final waits
    · refine .waiting along.trail (further.handOut waits) follows.prospect ?_ reports.symm
      rw [← along.tokens, empty]
      simp
    · exact ⟨lexer, after, visits, empty, by rw [stepped, Option.mem_def.1 member]⟩
termination_by lexer.remaining

/-- Every call leads from between two calls to between two calls. -/
theorem Between.call (between : Between source taken received lexer)
    (visits : Visits source taken lexer) :
    ∃ answer after report, Call source taken received lexer answer after report := by
  cases waits : lexer.reader.queue with
  | nil =>
    obtain ⟨pieces, along, rfl⟩ := between.along
    exact along.call visits waits
  | cons first rest =>
    cases between with
    | idle _ empty =>
      rw [empty] at waits
      cases waits
    | waiting trail along next begun reported =>
      refine ⟨some first, _, none, fun sink state => next_of_queue sink state waits, ?_, by simp⟩
      refine .waiting trail (along.handOut waits) next ?_ (by simpa using reported)
      rw [Option.toList_some, List.length_append]
      omega

theorem Awaits.reports_eq_nil {reports : List Diagnostic} (awaits : lexer.Awaits [] reports) :
    reports = [] := by
  obtain ⟨pieces, ⟨final, trail, -⟩, none, rfl⟩ := awaits.ahead
  exact Piece.reports_of_tokens_eq_nil trail.labelled (List.append_eq_nil_iff.1 none.symm).2

/-- A call answers with the first token awaited, and the first of the diagnostics awaited is
reported if any is. -/
theorem Call.awaits {answer : Option Token} {after : Lexer} {report : Option Diagnostic}
    {tokens : List Token} {reports : List Diagnostic}
    (call : Call source taken received lexer answer after report)
    (awaits : lexer.Awaits tokens reports) :
    answer = tokens.head? ∧ after.finished = tokens.head?.elim lexer.finished Token.isEof ∧
      ∃ others, reports = report.toList ++ others ∧ after.Awaits tokens.tail others := by
  obtain ⟨final, used, others, split, -, behind, finished, pulled⟩ := next_eq awaits
  have same := (call.next Sink.collect []).symm.trans (pulled Sink.collect [])
  rw [deliver_eq, Sink.receiveAll_collect, Sink.receiveAll_collect] at same
  cases same
  exact ⟨rfl, finished, others, split, behind⟩

end Lexer

end Offside
