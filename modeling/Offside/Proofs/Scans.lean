import Offside.Proofs.Trails
import Offside.Tokens

/-!
# Scans

A lexer awaits the tokens that wait in its queue and those of the pieces ahead of it.  Steps leave
these tokens alone, and pulling takes the first of them, whatever the sink does with the
diagnostics.  So the tokens of a source are those of the pieces it is cut into.
-/

namespace Offside

namespace Lexer

variable {σ : Type} {lexer : Lexer} {token : Token} {tokens : List Token}
  {reports : List Diagnostic}

/-- `tokens` are all that a lexer will hand out, and `reports` all that it will report. -/
structure Awaits (lexer : Lexer) (tokens : List Token) (reports : List Diagnostic) : Prop where
  clear : lexer.reader.Clear
  ahead : ∃ pieces, lexer.prospect.Runs pieces ∧
    tokens = lexer.reader.queue ++ Piece.tokens lexer.source lexer.reader.point pieces ∧
    reports = Piece.reports lexer.source lexer.reader.point pieces

namespace Awaits

theorem of_done (awaits : lexer.Awaits tokens reports) (done : lexer.mode = .done) :
    tokens = lexer.reader.queue ∧ reports = [] := by
  obtain ⟨pieces, runs, rfl, rfl⟩ := awaits.ahead
  obtain rfl := Prospect.runs_of_done done runs
  simp

theorem step (awaits : lexer.Awaits tokens reports) (running : lexer.mode ≠ .done) :
    ∃ after report others, lexer.step = .ok (after, report) ∧ after.finished = lexer.finished ∧
      reports = report.toList ++ others ∧ after.Awaits tokens others := by
  obtain ⟨pieces, runs, rfl, rfl⟩ := awaits.ahead
  obtain ⟨further, rfl, behind⟩ := Prospect.runs_of_running running runs
  obtain ⟨after, report, stepped, follows⟩ := step_follows awaits.clear
  have takes := follows.takes
  refine ⟨after, report, Piece.reports after.source after.reader.point further, stepped,
    follows.finished, ?_, takes.clear awaits.clear, further, ?_, ?_, rfl⟩
  · rw [follows.report, Piece.reports_append, source, source, takes.source, takes.point]
  · rwa [follows.prospect]
  · rw [takes.queue, Piece.tokens_append, source, source, takes.source, takes.point,
      List.append_assoc]

theorem handOut {first : Token} {rest : List Token} (awaits : lexer.Awaits tokens reports)
    (queue : lexer.reader.queue = first :: rest) :
    tokens.head? = some first ∧
      (lexer.handOut first { lexer.reader with queue := rest }).Awaits tokens.tail reports := by
  obtain ⟨pieces, runs, rfl, reported⟩ := awaits.ahead
  rw [queue]
  exact ⟨rfl, ⟨awaits.clear.start, awaits.clear.placed⟩, pieces, runs, rfl, reported⟩

end Awaits

theorem next_of_queue {first : Token} {rest : List Token} (sink : Sink Diagnostic σ) (state : σ)
    (waiting : lexer.reader.queue = first :: rest) :
    lexer.next sink state =
      .ok (some first, lexer.handOut first { lexer.reader with queue := rest }, state) := by
  rw [next, Reader.take, waiting]

theorem next_of_step {after : Lexer} {report : Option Diagnostic} (sink : Sink Diagnostic σ)
    (state : σ) (empty : lexer.reader.queue = []) (running : lexer.mode ≠ .done)
    (stepped : lexer.step = .ok (after, report)) :
    lexer.next sink state = (deliver sink state report).bind fun state => after.next sink state := by
  rw [next, Reader.take, empty]
  simp only [dif_neg running]
  split
  next failed => rw [stepped] at failed; cases failed
  next behind => rw [stepped] at behind; cases behind; rfl

theorem deliver_eq (sink : Sink Diagnostic σ) (state : σ) (report : Option Diagnostic) :
    deliver sink state report = sink.receiveAll state report.toList := by
  cases report with
  | none => rfl
  | some report => cases received : sink.receive state report <;>
      simp [deliver, Sink.receiveAll, received]

/-- Pulling takes the first token awaited, and there is none only if nothing is left to report.
Whether the sink gives up or not, it receives a first part of the diagnostics. -/
theorem next_eq {lexer : Lexer} {tokens : List Token} {reports : List Diagnostic}
    (awaits : lexer.Awaits tokens reports) :
    ∃ after used others, reports = used ++ others ∧ (tokens = [] → others = []) ∧
      after.Awaits tokens.tail others ∧
      after.finished = tokens.head?.elim lexer.finished Token.isEof ∧
      ∀ {σ : Type} (sink : Sink Diagnostic σ) (state : σ), lexer.next sink state =
        (sink.receiveAll state used).map fun final => (tokens.head?, after, final) := by
  by_cases queue : lexer.reader.queue = []
  · by_cases done : lexer.mode = .done
    · obtain ⟨rfl, rfl⟩ := awaits.of_done done
      refine ⟨lexer, [], [], rfl, fun _ => rfl, ?_, by rw [queue]; rfl, fun sink state => ?_⟩
      · rwa [queue] at awaits ⊢
      · rw [next, Reader.take, queue]
        simp only [dif_pos done]
        rfl
    · obtain ⟨middle, report, others, stepped, finished, rfl, further⟩ := awaits.step done
      -- Every step brings the lexer closer to its end, which is what the recursion is on.
      have closer := remaining_step_lt done stepped
      obtain ⟨after, used, left, rfl, nothing, behind, last, pulled⟩ := next_eq further
      refine ⟨after, report.toList ++ used, left, by rw [List.append_assoc], nothing, behind,
        by rw [last, finished], fun sink state => ?_⟩
      rw [next_of_step sink state queue done stepped, deliver_eq, Sink.receiveAll_append]
      cases sink.receiveAll state report.toList with
      | error fault => rfl
      | ok middle => exact pulled sink middle
  · obtain ⟨first, rest, waiting⟩ := List.exists_cons_of_ne_nil queue
    obtain ⟨head, behind⟩ := awaits.handOut waiting
    refine ⟨_, [], reports, rfl, ?_, behind, by rw [head]; rfl, fun sink state => ?_⟩
    · rintro rfl
      cases head
    · rw [next_of_queue sink state waiting, head]
      rfl
termination_by lexer.remaining

theorem drain_of_next {after : Lexer} {token : Option Token} {state final : σ}
    {sink : Sink Diagnostic σ} (pulled : lexer.next sink state = .ok (token, after, final)) :
    lexer.drain sink state = token.elim (.ok ([], after, final)) fun token =>
      (after.drain sink final).map fun (tokens, final) => (token :: tokens, final) := by
  rw [drain]
  split
  next failed => rw [pulled] at failed; cases failed
  next ended => rw [pulled] at ended; cases ended; rfl
  next taken => rw [pulled] at taken; cases taken; rfl

theorem drain_of_fault {fault : Fault} {state : σ} {sink : Sink Diagnostic σ}
    (failed : lexer.next sink state = .error fault) : lexer.drain sink state = .error fault := by
  rw [drain]
  split
  next again => rw [failed] at again; cases again; rfl
  next ended => rw [failed] at ended; cases ended
  next taken => rw [failed] at taken; cases taken

theorem drain_eq {lexer : Lexer} {tokens : List Token} {reports : List Diagnostic}
    (awaits : lexer.Awaits tokens reports) :
    ∃ after, after.Awaits [] [] ∧ ∀ {σ : Type} (sink : Sink Diagnostic σ) (state : σ),
      lexer.drain sink state =
        (sink.receiveAll state reports).map fun final => (tokens, after, final) := by
  induction tokens generalizing lexer reports with
  | nil =>
    obtain ⟨after, used, others, rfl, nothing, behind, -, pulled⟩ := next_eq awaits
    obtain rfl := nothing rfl
    refine ⟨after, behind, fun sink state => ?_⟩
    rw [List.append_nil]
    have pulled := pulled sink state
    cases received : sink.receiveAll state used with
    | error fault => exact drain_of_fault (by rw [pulled, received]; rfl)
    | ok final => rw [drain_of_next (by rw [pulled, received]; rfl)]; rfl
  | cons token tokens ih =>
    obtain ⟨middle, used, others, rfl, -, behind, -, pulled⟩ := next_eq awaits
    obtain ⟨after, last, drained⟩ := ih behind
    refine ⟨after, last, fun sink state => ?_⟩
    have pulled := pulled sink state
    rw [Sink.receiveAll_append]
    cases received : sink.receiveAll state used with
    | error fault => exact drain_of_fault (by rw [pulled, received]; rfl)
    | ok final =>
      rw [drain_of_next (by rw [pulled, received]; rfl)]
      simp only [List.head?_cons, Option.elim, drained, Except.bind]
      cases sink.receiveAll final others <;> rfl

theorem Awaits.rest_eq (awaits : lexer.Awaits tokens reports) (sink : Sink Diagnostic σ)
    (state : σ) :
    lexer.rest sink state =
      (sink.receiveAll state reports).map fun final => (tokens, final) := by
  obtain ⟨after, -, drained⟩ := drain_eq awaits
  rw [Lexer.rest, drained]
  cases sink.receiveAll state reports <;> rfl

/-! ## Lexers on the way -/

/-- The lexers that pulling from a source goes through, each with the tokens that were handed out
before. -/
inductive Visits (source : Source) : List Token → Lexer → Prop where
  | start : Visits source [] (ofSource source)
  /-- A step is carried out only if no token waits. -/
  | step {taken : List Token} {lexer after : Lexer} {report : Option Diagnostic}
      (visits : Visits source taken lexer) (empty : lexer.reader.queue = [])
      (running : lexer.mode ≠ .done) (stepped : lexer.step = .ok (after, report)) :
      Visits source taken after
  | handOut {taken rest : List Token} {lexer : Lexer} {token : Token}
      (visits : Visits source taken lexer) (waiting : lexer.reader.queue = token :: rest) :
      Visits source (taken ++ [token]) (lexer.handOut token { lexer.reader with queue := rest })

theorem Visits.next {source : Source} {taken : List Token} {lexer after : Lexer}
    {token : Option Token} {sink : Sink Diagnostic σ} {state final : σ}
    (visits : Visits source taken lexer)
    (pulled : lexer.next sink state = .ok (token, after, final)) :
    Visits source (taken ++ token.toList) after := by
  -- Along the recursion of `next`: each of its steps finds the queue empty.
  fun_induction Lexer.next sink state lexer with
  | case1 state lexer first rest waits =>
    cases pulled
    rw [Reader.take] at waits
    split at waits
    next => cases waits
    next waiting => cases waits; exact visits.handOut waiting
  | case2 =>
    cases pulled
    rwa [Option.toList_none, List.append_nil]
  | case3 => cases pulled
  | case4 state lexer rest waits running middle report stepped ih =>
    obtain ⟨between, -, further⟩ := bind_eq_ok.1 pulled
    refine ih between (visits.step ?_ running stepped) further
    rw [Reader.take] at waits
    split at waits
    next empty => exact empty
    next => cases waits

/-- A lexer has got to where it stands by a trail from the start of a source, and the tokens handed
out and those that wait are the tokens of its pieces. -/
structure Along (lexer : Lexer) (source : Source) (taken : List Token) (pieces : List Piece) :
    Prop where
  clear : lexer.reader.Clear
  sameSource : lexer.source = source
  trail : Trail (.start source.chars) pieces lexer.prospect
  point : lexer.reader.point = (Point.origin source.chars).advance (Piece.texts pieces).length
  tokens : taken ++ lexer.reader.queue = Piece.tokens source (.origin source.chars) pieces

theorem Along.follows {source : Source} {taken : List Token} {pieces : List Piece}
    {lexer after : Lexer} {report : Option Diagnostic} (along : lexer.Along source taken pieces)
    (running : lexer.mode ≠ .done) (follows : lexer.Follows lexer.prospect.stride after report) :
    after.Along source taken (pieces ++ lexer.prospect.stride.pieces) where
  clear := follows.takes.clear along.clear
  sameSource := by rw [← along.sameSource, Lexer.source, follows.takes.source, Lexer.source]
  trail := by
    rw [follows.prospect]
    exact along.trail.snoc running
  point := by
    rw [follows.takes.point, along.point, Piece.texts_append, List.length_append, Point.advance_add]
  tokens := by
    rw [follows.takes.queue, ← List.append_assoc, along.tokens, Piece.tokens_append, ← along.point,
      ← along.sameSource, Lexer.source]

theorem Visits.along {source : Source} {taken : List Token} {lexer : Lexer}
    (visits : Visits source taken lexer) : ∃ pieces, lexer.Along source taken pieces := by
  induction visits with
  | start => exact ⟨[], Reader.clear_ofSource source, rfl, .refl _, rfl, rfl⟩
  | step _ _ running stepped ih =>
    obtain ⟨pieces, along⟩ := ih
    obtain ⟨after, report, again, follows⟩ := step_follows along.clear
    rw [stepped] at again
    cases again
    exact ⟨_, along.follows running follows⟩
  | handOut _ waiting ih =>
    obtain ⟨pieces, along⟩ := ih
    refine ⟨pieces, ⟨along.clear.start, along.clear.placed⟩, along.sameSource, along.trail,
      along.point, ?_⟩
    rw [← along.tokens, waiting, List.append_assoc]
    rfl

end Lexer

/-- The tokens of a source are those of its pieces, and so are the diagnostics. -/
theorem Source.lex_eq {source : Source} {pieces : List Piece}
    (runs : (Prospect.start source.chars).Runs pieces) :
    source.lex = .ok (Piece.tokens source (.origin source.chars) pieces,
      Piece.reports source (.origin source.chars) pieces) := by
  have awaits : (Lexer.ofSource source).Awaits _ _ :=
    ⟨Reader.clear_ofSource source, pieces, runs, rfl, rfl⟩
  rw [lex, awaits.rest_eq, Sink.receiveAll_collect]
  rfl

theorem Source.exists_of_lex (source : Source) {tokens : List Token} {reports : List Diagnostic}
    (lexed : source.lex = .ok (tokens, reports)) :
    ∃ pieces, (Prospect.start source.chars).Runs pieces ∧
      tokens = Piece.tokens source (.origin source.chars) pieces ∧
      reports = Piece.reports source (.origin source.chars) pieces := by
  obtain ⟨pieces, runs⟩ := source.exists_runs
  rw [source.lex_eq runs] at lexed
  cases lexed
  exact ⟨pieces, runs, rfl, rfl⟩

theorem Source.awaits_of_lex (source : Source) {tokens : List Token} {reports : List Diagnostic}
    (lexed : source.lex = .ok (tokens, reports)) : (Lexer.ofSource source).Awaits tokens reports := by
  obtain ⟨pieces, runs, rfl, rfl⟩ := source.exists_of_lex lexed
  exact ⟨Reader.clear_ofSource source, pieces, runs, rfl, rfl⟩

theorem Tokens.ofSource_eq {σ : Type} {source : Source} {tokens : List Token}
    {reports : List Diagnostic} (lexed : source.lex = .ok (tokens, reports))
    (sink : Sink Diagnostic σ) (state : σ) :
    ofSource sink state source =
      (sink.receiveAll state reports).map fun final => (⟨tokens⟩, final) := by
  rw [ofSource, (source.awaits_of_lex lexed).rest_eq]
  cases sink.receiveAll state reports <;> rfl

end Offside
