import Offside.Proofs.Producers

/-!
# Interleavings of a relay

Producer and consumer of a relay take their steps in any order.  Whatever the order, the tokens
received, those on the way and those still to come are the tokens of the source, some step can be
taken until the consumer is finished, and what it has received by then does not depend on the order.

A consumer that goes away for good takes no more steps, so it needs no step of its own here.
-/

namespace Offside

/-! ## Replies and calls -/

namespace Reply

def token? : Reply → Option Token
  | token received => some received
  | notYet | finished | raised _ => none

def fault? : Reply → Option Fault
  | raised fault => some fault
  | token _ | notYet | finished => none

def tokens (replies : List Reply) : List Token := replies.filterMap token?

def faults (replies : List Reply) : List Fault := replies.filterMap fault?

theorem tokens_concat (replies : List Reply) (reply : Reply) :
    tokens (replies ++ [reply]) = tokens replies ++ reply.token?.toList := by
  rw [tokens, tokens, List.filterMap_append]
  cases reply <;> rfl

theorem faults_concat (replies : List Reply) (reply : Reply) :
    faults (replies ++ [reply]) = faults replies ++ reply.fault?.toList := by
  rw [faults, faults, List.filterMap_append]
  cases reply <;> rfl

end Reply

inductive Receiving where
  /-- Waits until there is a token or there will be none. -/
  | blocking
  /-- Answers at once if there is no token yet. -/
  | polling
  deriving DecidableEq, Repr

def Consumer.inHand : Consumer → List Token
  | joining last => last.toList
  | receiving | finished => []

namespace Relay

variable {σ : Type} {source : Source} {sink : Sink Diagnostic σ} {init : σ} {tokens : List Token}
  {reports : List Diagnostic} {replies : List Reply} {relay after : Relay σ}

/-- Whether a receive call has to wait, be it for a token or for the producer to stop. -/
def waits (relay : Relay σ) (receiving : Receiving) : Bool :=
  match relay.consumer, relay.consume.1 with
  | .receiving, some .notYet => receiving == .blocking
  | .joining _, none => true
  | _, _ => false

/-- What a relay can come to, and the replies on the way.  A call that has to wait takes no step. -/
inductive Reaches (sink : Sink Diagnostic σ) (first : Relay σ) : List Reply → Relay σ → Prop where
  | start : Reaches sink first [] first
  | produce {replies : List Reply} {relay after : Relay σ} (reaches : Reaches sink first replies relay)
      (moved : relay.produce? sink = some after) : Reaches sink first replies after
  | receive {replies : List Reply} {relay : Relay σ} (reaches : Reaches sink first replies relay)
      (receiving : Receiving) (goes : relay.waits receiving = false) :
      Reaches sink first (replies ++ relay.consume.1.toList) relay.consume.2

def received (relay : Relay σ) (replies : List Reply) : List Token :=
  Reply.tokens replies ++ relay.consumer.inHand

/-! ## What every step preserves -/

/-- What the replies so far and the state of the consumer tell. -/
inductive Agrees (replies : List Reply) : Relay σ → Prop where
  | receiving {capacity : Nat} {producer : Producer σ} {queue : List Token}
      (noEof : ∀ token ∈ Reply.tokens replies, token.isEof = false)
      (noFault : Reply.faults replies = []) :
      Agrees replies ⟨capacity, producer, queue, .receiving⟩
  /-- The end has been taken, and nothing is on the way. -/
  | joining {capacity : Nat} {producer : Producer σ} {last : Token} (isEof : last.isEof = true)
      (noEof : ∀ token ∈ Reply.tokens replies, token.isEof = false)
      (noFault : Reply.faults replies = []) (idle : producer.hand = []) :
      Agrees replies ⟨capacity, producer, [], .joining (some last)⟩
  | failing {capacity : Nat} {state : σ} {fault : Fault}
      (noEof : ∀ token ∈ Reply.tokens replies, token.isEof = false)
      (noFault : Reply.faults replies = []) :
      Agrees replies ⟨capacity, .stopped state (some fault), [], .joining none⟩
  | ended {capacity : Nat} {state : σ} {last : Token} (isEof : last.isEof = true)
      (member : last ∈ Reply.tokens replies)
      (noFault : Reply.faults replies = []) :
      Agrees replies ⟨capacity, .stopped state none, [], .finished⟩
  | failed {capacity : Nat} {state : σ} {fault : Fault}
      (noEof : ∀ token ∈ Reply.tokens replies, token.isEof = false)
      (once : Reply.faults replies = [fault]) :
      Agrees replies ⟨capacity, .stopped state (some fault), [], .finished⟩

/-- A relay has gone on in step with its source. -/
structure InStep (source : Source) (sink : Sink Diagnostic σ) (init : σ) (tokens : List Token)
    (reports : List Diagnostic) (replies : List Reply) (relay : Relay σ) : Prop where
  serves : ∃ used, relay.producer.Serves source sink init tokens reports
    (relay.received replies ++ relay.queue ++ relay.producer.hand) used
  agrees : relay.Agrees replies

theorem InStep.produce (ends : Lexer.EndsWithEof tokens false)
    (inStep : relay.InStep source sink init tokens reports replies)
    (moved : relay.produce? sink = some after) :
    after.InStep source sink init tokens reports replies := by
  obtain ⟨⟨used, serves⟩, agrees⟩ := inStep
  obtain ⟨capacity, producer, queue, consumer⟩ := relay
  cases producer with
  | stopped => cases moved
  | pulling lexer state =>
    obtain rfl := Option.some.inj moved
    obtain ⟨used, further⟩ := serves.pull
    simp only [Producer.hand, List.append_nil] at further
    refine ⟨⟨used, further⟩, ?_⟩
    cases agrees with
    | receiving noEof noFault => exact .receiving noEof noFault
    | joining isEof noEof noFault =>
      simp only [received, Consumer.inHand, Option.toList_some, List.append_nil, List.append_assoc,
        List.singleton_append] at further
      exact .joining isEof noEof noFault (further.nothing_behind ends isEof).1
  | sending token lexer state =>
    simp only [produce?] at moved
    split at moved
    · obtain rfl := Option.some.inj moved
      refine ⟨⟨used, ?_⟩, ?_⟩
      · simpa [received, Producer.hand] using serves.send
      · cases agrees with
        | receiving noEof noFault => exact .receiving noEof noFault
        | joining _ _ _ idle => cases idle
    · cases moved

theorem serves_take {front : List Token} {used : List Diagnostic} {token : Token}
    (serves : relay.producer.Serves source sink init tokens reports
      (front ++ relay.queue ++ relay.producer.hand) used)
    (taken : relay.take? = some (token, after)) :
    after.consumer = relay.consumer ∧ after.producer.Serves source sink init tokens reports
      (front ++ token :: (after.queue ++ after.producer.hand)) used := by
  obtain ⟨capacity, producer, queue, consumer⟩ := relay
  cases queue with
  | cons first rest =>
    obtain ⟨rfl, rfl⟩ := Prod.mk.inj (Option.some.inj taken)
    exact ⟨rfl, by simpa using serves⟩
  | nil =>
    cases producer with
    | pulling | stopped => cases taken
    | sending first lexer state =>
      simp only [take?] at taken
      split at taken
      · obtain ⟨rfl, rfl⟩ := Prod.mk.inj (Option.some.inj taken)
        exact ⟨rfl, by simpa [Producer.hand] using serves.send⟩
      · cases taken

theorem consume_of_take {token : Token} (receiving : relay.consumer = .receiving)
    (taken : relay.take? = some (token, after)) :
    relay.consume = if token.isEof = true then
      (none, { after with consumer := .joining (some token) })
    else (some (.token token), after) := by
  simp only [consume, receiving, taken]

theorem InStep.take {token : Token} (ends : Lexer.EndsWithEof tokens false)
    (inStep : relay.InStep source sink init tokens reports replies)
    (receiving : relay.consumer = .receiving) (taken : relay.take? = some (token, after)) :
    relay.consume.2.InStep source sink init tokens reports
      (replies ++ relay.consume.1.toList) := by
  obtain ⟨⟨used, serves⟩, agrees⟩ := inStep
  have step := consume_of_take receiving taken
  rw [received, receiving, Consumer.inHand, List.append_nil] at serves
  obtain ⟨same, further⟩ := serves_take serves taken
  rw [receiving] at same
  obtain ⟨capacity, producer, queue, consumer⟩ := after
  cases same
  cases agrees with
  | receiving noEof noFault =>
    -- The end of the stream stays in the hand of the consumer until the producer has stopped.
    by_cases isEof : token.isEof = true
    · rw [step, if_pos isEof]
      obtain ⟨nothing, -, -⟩ := further.nothing_behind ends isEof
      obtain ⟨rfl, idle⟩ := List.append_eq_nil_iff.1 nothing
      rw [Option.toList_none, List.append_nil]
      exact ⟨⟨used, by simpa [received, Consumer.inHand] using further⟩,
        .joining isEof noEof noFault idle⟩
    · rw [step, if_neg isEof]
      rw [Option.toList_some]
      refine ⟨⟨used, ?_⟩, .receiving ?_ ?_⟩
      · simpa [received, Reply.tokens_concat, Reply.token?, Consumer.inHand] using further
      · rw [Reply.tokens_concat]
        intro other member
        rcases List.mem_append.1 member with earlier | here
        · exact noEof other earlier
        · cases List.mem_singleton.1 here
          exact Bool.eq_false_iff.2 isEof
      · simpa [Reply.faults_concat, Reply.fault?] using noFault
  | joining | failing | ended | failed => cases receiving

theorem InStep.concat (inStep : relay.InStep source sink init tokens reports replies)
    {reply : Reply} (noToken : reply.token? = none) (noFault : reply.fault? = none) :
    relay.InStep source sink init tokens reports (replies ++ [reply]) := by
  have sameTokens : Reply.tokens (replies ++ [reply]) = Reply.tokens replies := by
    rw [Reply.tokens_concat, noToken, Option.toList_none, List.append_nil]
  have sameFaults : Reply.faults (replies ++ [reply]) = Reply.faults replies := by
    rw [Reply.faults_concat, noFault, Option.toList_none, List.append_nil]
  obtain ⟨serves, agrees⟩ := inStep
  refine ⟨by rwa [received, sameTokens], ?_⟩
  cases agrees with
  | receiving noEof noFault => exact .receiving (sameTokens ▸ noEof) (sameFaults ▸ noFault)
  | joining isEof noEof noFault idle =>
    exact .joining isEof (sameTokens ▸ noEof) (sameFaults ▸ noFault) idle
  | failing noEof noFault => exact .failing (sameTokens ▸ noEof) (sameFaults ▸ noFault)
  | ended isEof member noFault =>
    exact .ended isEof (sameTokens ▸ member) (sameFaults ▸ noFault)
  | failed noEof once => exact .failed (sameTokens ▸ noEof) (sameFaults ▸ once)

/-- A producer that stops without a fault has sent the end of the stream, and if nothing is left in
the queue the consumer has got it. -/
theorem InStep.exists_isEof {capacity : Nat} {state : σ} (ends : Lexer.EndsWithEof tokens false)
    (inStep : InStep source sink init tokens reports replies
      ⟨capacity, .stopped state none, [], .receiving⟩) :
    ∃ token ∈ Reply.tokens replies, token.isEof = true := by
  obtain ⟨used, serves⟩ := inStep.serves
  obtain ⟨last, member, isEof⟩ := ends.exists_isEof
  obtain ⟨ahead, rest, nothing, whole, all⟩ := serves.ahead
  cases nothing
  rw [whole, all rfl] at member
  exact ⟨last, by simpa [received, Consumer.inHand] using member, isEof⟩

theorem InStep.consume (ends : Lexer.EndsWithEof tokens false)
    (inStep : relay.InStep source sink init tokens reports replies) :
    relay.consume.2.InStep source sink init tokens reports
      (replies ++ relay.consume.1.toList) := by
  cases agrees : inStep.agrees with
  | @receiving capacity producer queue noEof noFault =>
    cases taken : take? ⟨capacity, producer, queue, .receiving⟩ with
    | some first => exact inStep.take ends rfl taken
    | none =>
      cases producer with
      | pulling | sending =>
        simp only [Relay.consume, taken]
        exact inStep.concat rfl rfl
      | stopped state fault =>
        simp only [Relay.consume, taken, Option.toList_none, List.append_nil]
        cases queue with
        | cons first rest => cases taken
        | nil =>
          cases fault with
          | some fault => exact ⟨inStep.serves, .failing noEof noFault⟩
          | none =>
            obtain ⟨last, member, isEof⟩ := inStep.exists_isEof ends
            simp [noEof last member] at isEof
  | @joining capacity producer last isEof noEof noFault idle =>
    cases producer with
    | pulling | sending =>
      simp only [Relay.consume, Option.toList_none, List.append_nil]
      exact inStep
    | stopped state fault =>
      obtain ⟨used, serves⟩ := inStep.serves
      have tail := serves
      simp only [received, Consumer.inHand, Option.toList_some, Producer.hand, List.append_nil] at tail
      -- With the end of the stream taken, the sink has taken all diagnostics.
      obtain ⟨-, -, stopped⟩ := tail.nothing_behind ends isEof
      obtain rfl : fault = none := stopped
      simp only [Relay.consume, joinReply, Option.toList_some]
      refine ⟨⟨used, ?_⟩, .ended isEof ?_ ?_⟩
      · simpa [received, Reply.tokens_concat, Reply.token?, Consumer.inHand] using serves
      · simp [Reply.tokens_concat, Reply.token?]
      · simpa [Reply.faults_concat, Reply.fault?] using noFault
  | @failing capacity state fault noEof noFault =>
    obtain ⟨used, serves⟩ := inStep.serves
    simp only [Relay.consume, joinReply, Option.toList_some]
    refine ⟨⟨used, ?_⟩, .failed ?_ ?_⟩
    · simpa [received, Reply.tokens_concat, Reply.token?, Consumer.inHand] using serves
    · simpa [Reply.tokens_concat, Reply.token?] using noEof
    · simp [Reply.faults_concat, Reply.fault?, noFault]
  | ended isEof member noFault => exact inStep.concat rfl rfl
  | failed noEof once => exact inStep.concat rfl rfl

theorem Reaches.inStep {capacity : Nat} (ends : Lexer.EndsWithEof tokens false)
    (midway : (Lexer.ofSource source).Midway source tokens reports [] [])
    (reaches : Reaches sink (ofSource source capacity init) replies relay) :
    relay.InStep source sink init tokens reports replies := by
  induction reaches with
  | start => exact ⟨⟨[], .pulling midway rfl⟩, .receiving (by simp [Reply.tokens]) rfl⟩
  | produce _ moved ih => exact ih.produce ends moved
  | receive _ _ _ ih => exact ih.consume ends

/-! ## There is always a step -/

theorem goes_of_take {token : Token} (receiving : relay.consumer = .receiving)
    (taken : relay.take? = some (token, after)) :
    relay.waits .blocking = false ∧ Before relay.consume.2.measure relay.measure := by
  rw [waits, receiving, consume_of_take receiving taken]
  by_cases isEof : token.isEof = true
  · rw [if_pos isEof]
    exact ⟨rfl, take?_before taken _⟩
  · rw [if_neg isEof]
    exact ⟨rfl, take?_before taken after.consumer⟩

/-- Until the consumer is finished, the producer or a receive call can take a step, and the relay gets
closer to its end. -/
theorem InStep.progress (inStep : relay.InStep source sink init tokens reports replies)
    (running : relay.isDone = false) :
    (∃ after, relay.produce? sink = some after) ∨
      relay.waits .blocking = false ∧ Before relay.consume.2.measure relay.measure := by
  cases inStep.agrees with
  | @receiving capacity producer queue =>
    cases queue with
    | cons token rest => exact .inr (goes_of_take rfl rfl)
    | nil =>
      cases producer with
      | pulling => exact .inl ⟨_, rfl⟩
      | sending token lexer state =>
        -- A queue that holds nothing at all hands tokens over only while a call waits for one.
        by_cases room : 0 < capacity
        · exact .inl ⟨_, if_pos room⟩
        · exact .inr (goes_of_take rfl (if_pos (Nat.eq_zero_of_not_pos room)))
      | stopped => exact .inr ⟨rfl, .right _ (.right _ Nat.one_lt_two)⟩
  | @joining capacity producer last isEof _ _ idle =>
    cases producer with
    | pulling => exact .inl ⟨_, rfl⟩
    | sending => cases idle
    | stopped => exact .inr ⟨rfl, .right _ (.right _ Nat.one_pos)⟩
  | failing => exact .inr ⟨rfl, .right _ (.right _ Nat.one_pos)⟩
  | ended | failed => cases running

theorem Reaches.completes {first : Relay σ} (ends : Lexer.EndsWithEof tokens false)
    {relay : Relay σ} {replies : List Reply}
    (inStep : relay.InStep source sink init tokens reports replies)
    (reaches : Reaches sink first replies relay) :
    ∃ further after, Reaches sink first (replies ++ further) after ∧ after.isDone = true := by
  by_cases running : relay.isDone = false
  · rcases inStep.progress running with ⟨after, moved⟩ | ⟨goes, closer⟩
    · have closer : Before after.measure relay.measure := .left _ _ (produce?_before moved)
      exact Reaches.completes ends (inStep.produce ends moved) (reaches.produce moved)
    · obtain ⟨further, after, reached, done⟩ :=
        Reaches.completes ends (inStep.consume ends) (reaches.receive .blocking goes)
      rw [List.append_assoc] at reached
      exact ⟨_, after, reached, done⟩
  · exact ⟨[], relay, by rwa [List.append_nil], by simpa using running⟩
termination_by relay.measure
decreasing_by
  · exact closer
  · exact closer

end Relay

end Offside
