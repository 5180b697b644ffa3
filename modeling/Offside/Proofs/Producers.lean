import Offside.Proofs.Explanations
import Offside.Relay

/-!
# Producers

A producer pulls the tokens of a source one by one.  As long as its sink takes the diagnostics, it
gets all tokens; when the sink gives up, it has got those in front of the text in question.
-/

namespace Offside

theorem exists_of_forall₂ {α β : Type} {related : α → β → Prop} {xs : List α} {ys : List β}
    (all : List.Forall₂ related xs ys) {x : α} (member : x ∈ xs) : ∃ y ∈ ys, related x y := by
  induction all with
  | nil => cases member
  | cons first _ ih =>
    cases member with
    | head => exact ⟨_, .head _, first⟩
    | tail _ member =>
      obtain ⟨y, found, same⟩ := ih member
      exact ⟨y, .tail _ found, same⟩

/-! ## Lexers on the way -/

namespace Lexer

variable {source : Source} {tokens taken : List Token} {reports used : List Diagnostic}
  {lexer : Lexer}

/-- A lexer that has handed out the first of the tokens of its source, and reported the first of the
diagnostics. -/
structure Midway (source : Source) (tokens : List Token) (reports : List Diagnostic)
    (taken : List Token) (used : List Diagnostic) (lexer : Lexer) : Prop where
  visits : Visits source taken lexer
  between : Between source taken used lexer
  ahead : ∃ rest others, lexer.Awaits rest others ∧ tokens = taken ++ rest ∧
    reports = used ++ others

theorem midway_ofSource (source : Source) :
    ∃ tokens reports, source.lex = .ok (tokens, reports) ∧ EndsWithEof tokens false ∧
      (ofSource source).Midway source tokens reports [] [] := by
  obtain ⟨pieces, runs⟩ := source.exists_runs
  obtain ⟨body, rfl, notEof⟩ := runs.eq_concat (by simp [Prospect.start])
  obtain ⟨body, last, split, notEof, isEof, -⟩ := Piece.tokens_concat_eof source notEof
  refine ⟨_, _, source.lex_eq runs, split ▸ .concat false notEof isEof, .start,
    between_ofSource source, _, _, ⟨Reader.clear_ofSource source, _, runs, rfl, rfl⟩, rfl, rfl⟩

theorem Midway.call (midway : lexer.Midway source tokens reports taken used) :
    ∃ answer after report, Call source taken used lexer answer after report ∧
      after.Midway source tokens reports (taken ++ answer.toList) (used ++ report.toList) ∧
      (answer = none → taken = tokens ∧ used = reports ∧ report = none) := by
  obtain ⟨rest, others, awaits, rfl, rfl⟩ := midway.ahead
  obtain ⟨answer, after, report, call⟩ := midway.between.call midway.visits
  obtain ⟨rfl, -, left, rfl, behind⟩ := call.awaits awaits
  have pulled := call.next Sink.discard ()
  have visits : Visits source (taken ++ rest.head?.toList) after := by
    cases report with
    | none => exact midway.visits.next pulled
    | some report => exact midway.visits.next pulled
  refine ⟨_, after, report, call, ⟨visits, call.between, rest.tail, left, behind, ?_, ?_⟩, ?_⟩
  · cases rest with
    | nil => simp
    | cons token rest => simp
  · rw [List.append_assoc]
  · intro none
    obtain rfl := List.head?_eq_none_iff.1 none
    obtain ⟨noReport, noOthers⟩ := List.append_eq_nil_iff.1 awaits.reports_eq_nil
    rw [noReport, noOthers]
    exact ⟨by simp, by simp, Option.toList_eq_nil_iff.1 noReport⟩

theorem Midway.rest (midway : lexer.Midway source tokens reports taken used) :
    ∃ rest, tokens = taken ++ rest ∧ lexer.rest Sink.discard () = .ok (rest, ()) := by
  obtain ⟨rest, others, awaits, split, -⟩ := midway.ahead
  obtain ⟨after, -, drained⟩ := drain_eq awaits
  have never : (Sink.discard : Sink Diagnostic Unit).NeverFails := fun _ _ => ⟨(), rfl⟩
  obtain ⟨⟨⟩, received⟩ := never.receiveAll () others
  refine ⟨rest, split, ?_⟩
  rw [Lexer.rest, drained, received]
  rfl

theorem Midway.explained (midway : lexer.Midway source tokens reports taken used) :
    ∀ token ∈ taken, token.isError = true → ∃ report ∈ used, Explains token report := by
  intro token member isError
  obtain ⟨report, found, explains⟩ := exists_of_forall₂ midway.between.explained
    (List.mem_filter.2 ⟨member, isError⟩)
  exact ⟨report, (List.mem_filter.1 found).1, explains⟩

end Lexer

/-! ## The end of the stream -/

namespace Lexer.EndsWithEof

theorem eq_nil_behind {before after : List Token} {token : Token} {finished : Bool}
    (ends : EndsWithEof (before ++ token :: after) finished) (isEof : token.isEof = true) :
    after = [] := by
  induction before generalizing finished with
  | nil =>
    cases ends with
    | last => rfl
    | cons notEof => simp [isEof] at notEof
  | cons first before ih =>
    rw [List.cons_append] at ends
    generalize split : before ++ token :: after = rest at *
    cases ends with
    | last => simp at split
    | cons _ further => exact ih further

theorem exists_isEof {tokens : List Token} (ends : EndsWithEof tokens false) :
    ∃ token ∈ tokens, token.isEof = true := by
  generalize unfinished : false = finished at ends
  induction ends with
  | gone => cases unfinished
  | last isEof => exact ⟨_, by simp, isEof⟩
  | cons _ _ ih =>
    obtain ⟨token, member, isEof⟩ := ih rfl
    exact ⟨token, by simp [member], isEof⟩

end Lexer.EndsWithEof

/-! ## What a producer has done -/

namespace Producer

variable {σ : Type} {source : Source} {sink : Sink Diagnostic σ} {init state : σ}
  {tokens taken : List Token} {reports used : List Diagnostic} {producer : Producer σ}

def hand : Producer σ → List Token
  | sending token _ _ => [token]
  | pulling .. | stopped .. => []

def fault? : Producer σ → Option Fault
  | stopped _ fault => fault
  | pulling .. | sending .. => none

/-- The tokens that a producer has still to send: the one in its hand and those its lexer has not
handed out. -/
def ahead : Producer σ → Except Fault (List Token)
  | pulling lexer _ => (lexer.rest Sink.discard ()).map Prod.fst
  | sending token lexer _ => (lexer.rest Sink.discard ()).map fun rest => token :: rest.1
  | stopped .. => .ok []

/-- A producer has got the tokens `taken` from its lexer, the one in its hand included, and its sink
has received the diagnostics `used`. -/
inductive Serves (source : Source) (sink : Sink Diagnostic σ) (init : σ) (tokens : List Token)
    (reports : List Diagnostic) : List Token → List Diagnostic → Producer σ → Prop where
  | pulling {taken : List Token} {used : List Diagnostic} {lexer : Lexer} {state : σ}
      (midway : lexer.Midway source tokens reports taken used)
      (received : sink.receiveAll init used = .ok state) :
      Serves source sink init tokens reports taken used (.pulling lexer state)
  | sending {taken : List Token} {used : List Diagnostic} {token : Token} {lexer : Lexer}
      {state : σ} (midway : lexer.Midway source tokens reports (taken ++ [token]) used)
      (received : sink.receiveAll init used = .ok state) :
      Serves source sink init tokens reports (taken ++ [token]) used (.sending token lexer state)
  | ended {lexer : Lexer} {state : σ} (midway : lexer.Midway source tokens reports tokens reports)
      (received : sink.receiveAll init reports = .ok state) :
      Serves source sink init tokens reports tokens reports (.stopped state none)
  /-- The sink does not take the next diagnostic.  All tokens of the text in front of it have been
  handed out by then. -/
  | gaveUp {taken : List Token} {used others : List Diagnostic} {lexer middle behind : Lexer}
      {report : Diagnostic} {state : σ} {fault : Fault}
      (midway : lexer.Midway source tokens reports taken used)
      (received : sink.receiveAll init used = .ok state)
      (refused : sink.receive state report = .error fault)
      (split : reports = used ++ report :: others) (visits : Lexer.Visits source taken middle)
      (empty : middle.reader.queue = []) (stepped : middle.step = .ok (behind, some report)) :
      Serves source sink init tokens reports taken used (.stopped state (some fault))

namespace Serves

theorem midway (serves : producer.Serves source sink init tokens reports taken used) :
    ∃ lexer : Lexer, lexer.Midway source tokens reports taken used := by
  cases serves with
  | pulling midway | sending midway | ended midway | gaveUp midway => exact ⟨_, midway⟩

theorem received (serves : producer.Serves source sink init tokens reports taken used) :
    sink.receiveAll init used = .ok producer.state := by
  cases serves with
  | pulling _ received | sending _ received | ended _ received | gaveUp _ received =>
    exact received

theorem send {token : Token} {lexer : Lexer}
    (serves : (Producer.sending token lexer state).Serves source sink init tokens reports taken used) :
    (Producer.pulling lexer state).Serves source sink init tokens reports taken used := by
  cases serves with
  | sending midway received => exact .pulling midway received

/-- Pulling, a producer gets the next token, or it stops. -/
theorem pull {lexer : Lexer}
    (serves : (Producer.pulling lexer state).Serves source sink init tokens reports taken used) :
    ∃ used, (Producer.pull sink lexer state).Serves source sink init tokens reports
      (taken ++ (Producer.pull sink lexer state).hand) used := by
  cases serves with | pulling midway received =>
  obtain ⟨answer, after, report, call, further, ended⟩ := midway.call
  have pulled := call.next sink state
  -- The sink is asked before the token is sent, so a refusal keeps the token back.
  cases delivered : Lexer.deliver sink state report with
  | ok final =>
    have all : sink.receiveAll init (used ++ report.toList) = .ok final := by
      rw [Sink.receiveAll_append, received]
      exact (Lexer.deliver_eq ..).symm.trans delivered
    rw [delivered] at pulled
    cases answer with
    | some token =>
      have sends : Producer.pull sink lexer state = .sending token after final := by
        rw [Producer.pull, pulled]
        rfl
      rw [sends]
      exact ⟨_, .sending further all⟩
    | none =>
      have stops : Producer.pull sink lexer state = .stopped final none := by
        rw [Producer.pull, pulled]
        rfl
      obtain ⟨rfl, rfl, rfl⟩ := ended rfl
      rw [Option.toList_none, List.append_nil] at all
      rw [stops, hand, List.append_nil]
      exact ⟨_, .ended midway all⟩
  | error fault =>
    have stops : Producer.pull sink lexer state = .stopped state (some fault) := by
      rw [Producer.pull, pulled, delivered]
      rfl
    rw [stops, hand, List.append_nil]
    cases report with
    | none => cases delivered
    | some report =>
      obtain ⟨middle, behind, visits, empty, stepped⟩ := call.reported report rfl
      obtain ⟨-, others, -, -, split⟩ := further.ahead
      rw [List.append_assoc] at split
      exact ⟨_, .gaveUp midway received delivered split visits empty stepped⟩

/-- What is ahead of a producer makes up for the tokens that it has not sent, unless it has stopped
early. -/
theorem ahead (serves : producer.Serves source sink init tokens reports (taken ++ producer.hand)
    used) :
    ∃ ahead rest, producer.ahead = .ok ahead ∧ tokens = taken ++ ahead ++ rest ∧
      (producer.fault? = none → rest = []) := by
  generalize whole : taken ++ producer.hand = all at serves
  cases serves with
  | pulling midway =>
    rw [hand, List.append_nil] at whole
    obtain ⟨ahead, split, left⟩ := midway.rest
    exact ⟨ahead, [], by rw [Producer.ahead, left]; rfl, by simpa [whole] using split, fun _ => rfl⟩
  | @sending _ _ token lexer state midway =>
    obtain ⟨rfl, -⟩ := List.append_inj' whole rfl
    obtain ⟨ahead, split, left⟩ := midway.rest
    exact ⟨token :: ahead, [], by rw [Producer.ahead, left]; rfl, by simpa using split,
      fun _ => rfl⟩
  | ended =>
    rw [hand, List.append_nil] at whole
    exact ⟨[], [], rfl, by simp [whole], fun _ => rfl⟩
  | gaveUp midway =>
    rw [hand, List.append_nil] at whole
    obtain ⟨rest, -, -, split, -⟩ := midway.ahead
    exact ⟨[], rest, rfl, by simpa [whole] using split, fun none => by cases none⟩

theorem fault?_eq_none (serves : producer.Serves source sink init tokens reports tokens used) :
    producer.fault? = none := by
  generalize whole : tokens = taken at serves
  cases serves with
  | pulling | sending | ended => rfl
  | gaveUp midway _ _ split =>
    -- The diagnostic that was refused would be left, but a lexer without tokens reports nothing.
    obtain ⟨rest, others, awaits, same, behind⟩ := midway.ahead
    obtain rfl : rest = [] := by simpa [whole] using same
    rw [awaits.reports_eq_nil, split] at behind
    simp at behind

theorem nothing_behind {before behind : List Token} {last : Token}
    (serves : producer.Serves source sink init tokens reports (before ++ last :: behind) used)
    (ends : Lexer.EndsWithEof tokens false) (isEof : last.isEof = true) :
    behind = [] ∧ before ++ [last] = tokens ∧ producer.fault? = none := by
  obtain ⟨lexer, midway⟩ := serves.midway
  obtain ⟨rest, -, -, rfl, -⟩ := midway.ahead
  have all := ends
  rw [List.append_assoc, List.cons_append] at all
  obtain ⟨rfl, rfl⟩ := List.append_eq_nil_iff.1 (all.eq_nil_behind isEof)
  rw [List.append_nil] at serves ⊢
  exact ⟨rfl, rfl, serves.fault?_eq_none⟩

end Serves

end Producer

end Offside
