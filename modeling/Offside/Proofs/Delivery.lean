import Offside.Proofs.Interleavings

/-!
# Delivery of tokens

A relay of a source delivers what a scan of it gives, in every order of steps: all tokens if the sink
takes all diagnostics, and otherwise those in front of the text in question and then the fault.
-/

namespace Offside

namespace Relay

variable {σ : Type} {source : Source} {sink : Sink Diagnostic σ} {init : σ} {tokens : List Token}
  {reports : List Diagnostic} {replies : List Reply} {first relay : Relay σ}

/-! ## Calls with the producer ahead -/

theorem Reaches.settle (reaches : Reaches sink first replies relay) :
    Reaches sink first replies (relay.settle sink) := by
  fun_induction Relay.settle sink relay with
  | case1 relay after moved ih => exact ih (reaches.produce moved)
  | case2 => exact reaches

theorem produce?_settle (sink : Sink Diagnostic σ) (relay : Relay σ) :
    (relay.settle sink).produce? sink = none := by
  fun_induction Relay.settle sink relay with
  | case1 _ _ _ ih => exact ih
  | case2 _ stays => exact stays

theorem consumer_settle (sink : Sink Diagnostic σ) (relay : Relay σ) :
    (relay.settle sink).consumer = relay.consumer := by
  fun_induction Relay.settle sink relay with
  | case1 relay after moved ih =>
    rw [ih]
    unfold produce? at moved
    split at moved
    next => rw [← Option.some.inj moved]
    next =>
      split at moved
      next => rw [← Option.some.inj moved]
      next => cases moved
    next => cases moved
  | case2 => rfl

theorem InStep.goes (inStep : relay.InStep source sink init tokens reports replies)
    (stays : relay.produce? sink = none) : relay.waits .blocking = false := by
  by_cases running : relay.isDone = false
  · rcases inStep.progress running with ⟨after, moved⟩ | ⟨goes, -⟩
    · rw [stays] at moved
      cases moved
    · exact goes
  · have done : relay.consumer = .finished := by simpa [isDone] using running
    rw [waits, done]

theorem joining_of_consume (unfinished : relay.consume.1 = none) :
    ∃ last, relay.consume.2.consumer = .joining last := by
  obtain ⟨capacity, producer, queue, consumer⟩ := relay
  cases consumer with
  | finished => cases unfinished
  | joining last =>
    cases producer with
    | stopped => cases unfinished
    | pulling | sending => exact ⟨last, rfl⟩
  | receiving =>
    cases taken : take? ⟨capacity, producer, queue, .receiving⟩ with
    | some first =>
      obtain ⟨token, after⟩ := first
      rw [consume_of_take rfl taken] at unfinished ⊢
      by_cases isEof : token.isEof = true
      · rw [if_pos isEof]
        exact ⟨some token, rfl⟩
      · rw [if_neg isEof] at unfinished
        cases unfinished
    | none =>
      cases producer with
      | stopped => exact ⟨none, by simp only [consume, taken]⟩
      | pulling | sending => simp [consume, taken] at unfinished

/-- The calls of a consumer that always lets the producer go ahead are among those in any order. -/
theorem Reaches.receive_settled {capacity : Nat}
    (reaches : Reaches sink (ofSource source capacity init) replies relay) :
    Reaches sink (ofSource source capacity init) (replies ++ [(relay.receive sink).1])
      (relay.receive sink).2 := by
  obtain ⟨tokens, reports, -, ends, midway⟩ := Lexer.midway_ofSource source
  have ahead := reaches.settle
  have goes := (ahead.inStep ends midway).goes (produce?_settle sink relay)
  have called := ahead.receive .blocking goes
  have joins := @joining_of_consume _ (relay.settle sink)
  rw [Relay.receive]
  generalize relay.settle sink = settled at *
  cases consumed : settled.consume with | mk reply middle =>
  rw [consumed] at called joins
  cases reply with
  | some reply => exact called
  | none =>
    -- The producer goes on until it has stopped, and then the call is over.
    rw [Option.toList_none, List.append_nil] at called
    obtain ⟨last, joining⟩ := joins rfl
    have ended := called.settle
    have goes := (ended.inStep ends midway).goes (produce?_settle sink middle)
    have answered := ended.receive .blocking goes
    rw [waits, consumer_settle, joining] at goes
    simp only
    generalize middle.settle sink = stopped at *
    cases consumed : stopped.consume with | mk reply after =>
    rw [consumed] at goes answered
    cases reply with
    | some reply => exact answered
    | none => cases goes

/-! ## What is delivered -/

/-- What holds of a relay that `first` has come to, with the replies on the way. -/
structure Delivers (source : Source) (sink : Sink Diagnostic σ) (init : σ) (tokens : List Token)
    (reports : List Diagnostic) (first : Relay σ) (replies : List Reply) (relay : Relay σ) : Prop where
  /-- The tokens received, those in the queue and those ahead of the producer are all tokens, unless
  the producer has stopped early. -/
  stream : ∃ ahead rest, relay.producer.ahead = .ok ahead ∧
    tokens = relay.received replies ++ relay.queue ++ ahead ++ rest ∧
    (relay.producer.fault? = none → rest = [])
  /-- No error token is received before the sink has its diagnostic. -/
  explained : ∃ used others, reports = used ++ others ∧
    sink.receiveAll init used = .ok relay.producer.state ∧
    ∀ token ∈ relay.received replies, token.isError = true → ∃ report ∈ used, Explains token report
  /-- The producer stops early only where its sink gives up.  What has been sent by then are all
  tokens in front of the text that is reported. -/
  gaveUp : ∀ fault, relay.producer.fault? = some fault → ∃ used report others middle behind,
    reports = used ++ report :: others ∧ sink.receiveAll init used = .ok relay.producer.state ∧
    sink.receive relay.producer.state report = .error fault ∧
    Lexer.Visits source (relay.received replies ++ relay.queue) middle ∧
    middle.reader.queue = [] ∧ middle.step = .ok (behind, some report)
  /-- The consumer is finished once it has answered with the end of the stream or raised a fault. -/
  done_iff : relay.isDone = true ↔
    (∃ token ∈ Reply.tokens replies, token.isEof = true) ∨ Reply.faults replies ≠ []
  /-- The fault of the producer is raised once, by the call with which the consumer is finished. -/
  faults : Reply.faults replies = if relay.isDone = true then relay.producer.fault?.toList else []
  /-- A finished consumer has received everything, and it stays finished. -/
  done : relay.isDone = true →
    relay.queue = [] ∧ relay.produce? sink = none ∧ relay.consume = (some .finished, relay) ∧
    (∀ receiving, relay.waits receiving = false) ∧
    (relay.producer.fault? = none → Reply.tokens replies = tokens ∧
      sink.receiveAll init reports = .ok relay.producer.state)
  /-- Until then the producer can take a step, or a receive call does not have to wait. -/
  goes : relay.isDone = false →
    (∃ after, relay.produce? sink = some after) ∨ relay.waits .blocking = false
  completes : ∃ further after, Reaches sink first (replies ++ further) after ∧ after.isDone = true

theorem InStep.stream (inStep : relay.InStep source sink init tokens reports replies) :
    ∃ ahead rest, relay.producer.ahead = .ok ahead ∧
      tokens = relay.received replies ++ relay.queue ++ ahead ++ rest ∧
      (relay.producer.fault? = none → rest = []) := by
  obtain ⟨used, serves⟩ := inStep.serves
  exact serves.ahead

theorem InStep.explained (inStep : relay.InStep source sink init tokens reports replies) :
    ∃ used others, reports = used ++ others ∧
      sink.receiveAll init used = .ok relay.producer.state ∧
      ∀ token ∈ relay.received replies, token.isError = true →
        ∃ report ∈ used, Explains token report := by
  obtain ⟨used, serves⟩ := inStep.serves
  obtain ⟨lexer, midway⟩ := serves.midway
  obtain ⟨rest, others, -, -, split⟩ := midway.ahead
  refine ⟨used, others, split, serves.received, fun token member => ?_⟩
  exact midway.explained token (List.mem_append_left _ (List.mem_append_left _ member))

theorem InStep.gaveUp (inStep : relay.InStep source sink init tokens reports replies) (fault : Fault)
    (early : relay.producer.fault? = some fault) :
    ∃ used report others middle behind, reports = used ++ report :: others ∧
      sink.receiveAll init used = .ok relay.producer.state ∧
      sink.receive relay.producer.state report = .error fault ∧
      Lexer.Visits source (relay.received replies ++ relay.queue) middle ∧
      middle.reader.queue = [] ∧ middle.step = .ok (behind, some report) := by
  obtain ⟨used, serves⟩ := inStep.serves
  generalize relay.received replies ++ relay.queue = sent at *
  generalize relay.producer = producer at *
  cases producer with
  | pulling | sending => cases early
  | stopped state last =>
    obtain rfl : last = some fault := early
    rw [Producer.hand, List.append_nil] at serves
    cases serves with
    | gaveUp _ received refused split visits empty stepped =>
      exact ⟨used, _, _, _, _, split, received, refused, visits, empty, stepped⟩

theorem InStep.done_iff (inStep : relay.InStep source sink init tokens reports replies) :
    relay.isDone = true ↔
      (∃ token ∈ Reply.tokens replies, token.isEof = true) ∨ Reply.faults replies ≠ [] := by
  have none : (∀ token ∈ Reply.tokens replies, token.isEof = false) → Reply.faults replies = [] →
      ¬ ((∃ token ∈ Reply.tokens replies, token.isEof = true) ∨ Reply.faults replies ≠ []) := by
    rintro noEof noFault (⟨token, member, isEof⟩ | fault)
    · simp [noEof token member] at isEof
    · exact fault noFault
  cases inStep.agrees with
  | receiving noEof noFault | failing noEof noFault | joining _ noEof noFault =>
    exact iff_of_false (by simp [isDone]) (none noEof noFault)
  | ended isEof member => exact iff_of_true rfl (.inl ⟨_, member, isEof⟩)
  | failed _ once => exact iff_of_true rfl (.inr (by simp [once]))

theorem InStep.done (inStep : relay.InStep source sink init tokens reports replies)
    (done : relay.isDone = true) :
    relay.queue = [] ∧ relay.produce? sink = none ∧ relay.consume = (some .finished, relay) ∧
      (∀ receiving, relay.waits receiving = false) ∧
      (relay.producer.fault? = none → Reply.tokens replies = tokens ∧
        sink.receiveAll init reports = .ok relay.producer.state) := by
  obtain ⟨used, serves⟩ := inStep.serves
  cases inStep.agrees with
  | receiving | joining | failing => cases done
  | failed => exact ⟨rfl, rfl, rfl, fun _ => rfl, fun none => by cases none⟩
  | ended =>
    refine ⟨rfl, rfl, rfl, fun _ => rfl, fun _ => ?_⟩
    simp only [received, Consumer.inHand, Producer.hand, List.append_nil] at serves
    generalize Reply.tokens replies = sent at *
    cases serves with
    | ended _ received => exact ⟨rfl, received⟩

theorem Reaches.delivered {capacity : Nat} (ends : Lexer.EndsWithEof tokens false)
    (midway : (Lexer.ofSource source).Midway source tokens reports [] [])
    (reaches : Reaches sink (ofSource source capacity init) replies relay) :
    Delivers source sink init tokens reports (ofSource source capacity init) replies relay := by
  have inStep := reaches.inStep ends midway
  exact {
    stream := inStep.stream
    explained := inStep.explained
    gaveUp := inStep.gaveUp
    done_iff := inStep.done_iff
    faults := by
      cases inStep.agrees with
      | receiving _ noFault | joining _ _ noFault | failing _ noFault | ended _ _ noFault =>
        exact noFault
      | failed _ once => exact once
    done := inStep.done
    goes := fun running => (inStep.progress running).imp id And.left
    completes := reaches.completes ends inStep }

/-- Nothing but the length of the queue and the name of the producer keeps a relay from starting. -/
theorem start_eq_ok_iff {capacity : Nat} :
    start source capacity init = .ok first ↔
      48 * capacity ≤ 2 ^ 63 - 8 ∧ '\x00' ∉ source.identifier.toList ∧
        first = ofSource source capacity init := by
  rw [start]
  split
  next tooLong =>
    have beyond : ¬ 48 * capacity ≤ 2 ^ 63 - 8 := by
      change (2 ^ 63 - 8) / 48 < capacity at tooLong
      omega
    simp only [beyond, reduceCtorEq, false_and]
  next fits =>
    have within : 48 * capacity ≤ 2 ^ 63 - 8 := by
      change ¬ (2 ^ 63 - 8) / 48 < capacity at fits
      omega
    split
    next unnamed =>
      have isPart := List.contains_iff_mem.1 unnamed
      simp only [within, isPart, reduceCtorEq, not_true, false_and, and_false]
    next named =>
      have noPart := mt List.contains_iff_mem.2 named
      rw [Except.ok.injEq, eq_comm]
      simp only [within, noPart, not_false_iff, true_and]

/-- Whatever the order in which a producer and a consumer take their steps, and whatever the
capacity of the queue between them, the relay delivers what a scan of the source gives.  It starts if
the queue fits into memory and the identifier of the source can name a producer. -/
theorem delivers (source : Source) (capacity : Nat) (sink : Sink Diagnostic σ) (init : σ) :
    (∀ first, start source capacity init = .ok first ↔
      48 * capacity ≤ 2 ^ 63 - 8 ∧ '\x00' ∉ source.identifier.toList ∧
        first = ofSource source capacity init) ∧
    ∃ tokens reports, source.lex = .ok (tokens, reports) ∧
      ∀ replies relay, Reaches sink (ofSource source capacity init) replies relay →
        Delivers source sink init tokens reports (ofSource source capacity init) replies relay := by
  obtain ⟨tokens, reports, scanned, ends, midway⟩ := Lexer.midway_ofSource source
  exact ⟨fun _ => start_eq_ok_iff, tokens, reports, scanned,
    fun _ _ reaches => reaches.delivered ends midway⟩

end Relay

end Offside
