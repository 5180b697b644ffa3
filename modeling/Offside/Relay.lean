import Offside.Lexer.Run

/-!
# Relays of tokens

A producer cuts a source and sends its tokens through a queue of bounded length; a consumer takes
them out.  With capacity zero a token passes from hand to hand.  Producer and consumer take their
steps in any order: `produce?` is a step of the one and `consume` a step of the other.

On receiving the end of the stream the consumer waits for the producer to stop.  A producer whose
sink gave up stops early; the tokens sent before still arrive, then its fault is raised, once.
-/

namespace Offside

inductive Producer (σ : Type) where
  /-- It is going to pull the next token. -/
  | pulling (lexer : Lexer) (state : σ)
  /-- It has a token to send. -/
  | sending (token : Token) (lexer : Lexer) (state : σ)
  /-- It has stopped, with a fault if its sink gave up. -/
  | stopped (state : σ) (fault : Option Fault)

inductive Consumer where
  | receiving
  /-- It waits for the producer to stop and will answer with the token in hand. -/
  | joining (last : Option Token)
  | finished
  deriving DecidableEq, Repr

inductive Reply where
  | token (token : Token)
  | notYet
  /-- There are no more tokens. -/
  | finished
  | raised (fault : Fault)
  deriving DecidableEq, Repr

/-- Both ends of a relay and the queue between them. -/
structure Relay (σ : Type) where
  capacity : Nat
  producer : Producer σ
  queue : List Token
  consumer : Consumer

namespace Producer

variable {σ : Type}

def state : Producer σ → σ
  | pulling _ state => state
  | sending _ _ state => state
  | stopped state _ => state

def pull (sink : Sink Diagnostic σ) (lexer : Lexer) (state : σ) : Producer σ :=
  match lexer.next sink state with
  | .ok (some token, after, final) => .sending token after final
  | .ok (none, _, final) => .stopped final none
  | .error fault => .stopped state (some fault)

/-- What a producer has before it: what its lexer has, then the tokens ready in it, then the
token in hand. -/
def measure : Producer σ → Nat × Nat × Nat
  | pulling lexer _ => (lexer.remaining, lexer.reader.queue.length, 1)
  | sending _ lexer _ => (lexer.remaining, lexer.reader.queue.length, 2)
  | stopped .. => (0, 0, 0)

/-- The order in which the measure falls. -/
def Before : Nat × Nat × Nat → Nat × Nat × Nat → Prop :=
  Prod.Lex (· < ·) (Prod.Lex (· < ·) (· < ·))

theorem before_pulling {s t : Lexer} {i j : Nat}
    (h : s.remaining < t.remaining ∨
      s.remaining = t.remaining ∧ s.reader.queue.length < t.reader.queue.length) :
    Before (s.remaining, s.reader.queue.length, i) (t.remaining, t.reader.queue.length, j) := by
  rcases h with less | ⟨same, less⟩
  · exact .left _ _ less
  · rw [same]
    exact .right _ (.left _ _ less)

theorem before_last (m n : Nat) {i j : Nat} (h : i < j) : Before (m, n, i) (m, n, j) :=
  .right _ (.right _ h)

theorem stopped_before (m n i : Nat) : Before (0, 0, 0) (m, n, i + 1) := by
  cases m with
  | zero =>
    cases n with
    | zero => exact before_last 0 0 (Nat.succ_pos i)
    | succ n => exact .right _ (.left _ _ (Nat.succ_pos n))
  | succ m => exact .left _ _ (Nat.succ_pos m)

theorem pull_before (sink : Sink Diagnostic σ) (lexer : Lexer) (state : σ) :
    Before (pull sink lexer state).measure (pulling lexer state).measure := by
  unfold pull
  split
  next pulled => exact before_pulling (Lexer.next_lt pulled)
  next => exact stopped_before _ _ 0
  next => exact stopped_before _ _ 0

end Producer

namespace Relay

variable {σ : Type}

/-- A relay whose producer is about to cut a source. -/
def ofSource (source : Source) (capacity : Nat) (state : σ) : Relay σ :=
  ⟨capacity, .pulling (Lexer.ofSource source) state, [], .receiving⟩

/-- The most tokens that a queue can have room for.  A place in it takes 48 bytes, and all places
lie in one block of memory, of at most `2 ^ 63 - 8` bytes. -/
def maxCapacity : Nat := (Nat.pow 2 63 - 8) / 48

/-- Makes the queue and starts a producer, which is named after the identifier of its source; a NUL
character cannot be part of its name. -/
def start (source : Source) (capacity : Nat) (state : σ) : Except Fault (Relay σ) :=
  if maxCapacity < capacity then .error .queueTooLong
  else if source.identifier.toList.contains '\x00' then .error .badProducerName
  else .ok (ofSource source capacity state)

def isDone (relay : Relay σ) : Bool := relay.consumer == .finished

/-- A step of the producer: it pulls a token, or it puts the token in hand into the queue if there
is room.  There is none while it has to wait and after it has stopped. -/
def produce? (sink : Sink Diagnostic σ) (relay : Relay σ) : Option (Relay σ) :=
  match relay.producer with
  | .pulling lexer state => some { relay with producer := .pull sink lexer state }
  | .sending token lexer state =>
    if relay.queue.length < relay.capacity then
      some { relay with producer := .pulling lexer state, queue := relay.queue ++ [token] }
    else none
  | .stopped .. => none

/-- The oldest token that can be taken: from the queue or, with capacity zero, from the hand of the
producer. -/
def take? (relay : Relay σ) : Option (Token × Relay σ) :=
  match relay.queue, relay.producer with
  | token :: rest, _ => some (token, { relay with queue := rest })
  | [], .sending token lexer state =>
    if relay.capacity = 0 then
      some (token, { relay with producer := .pulling lexer state })
    else none
  | [], _ => none

def joinReply (last : Option Token) : Option Fault → Reply
  | some fault => .raised fault
  | none =>
    match last with
    | some token => .token token
    | none => .finished

/-- A step of the consumer, and the reply if the call is over with it. -/
def consume (relay : Relay σ) : Option Reply × Relay σ :=
  match relay.consumer with
  | .finished => (some .finished, relay)
  | .joining last =>
    match relay.producer with
    | .stopped _ fault => (some (joinReply last fault), { relay with consumer := .finished })
    | _ => (none, relay)
  | .receiving =>
    match relay.take? with
    | some (token, after) =>
      -- the end is handed on only after the producer has stopped
      if token.isEof then (none, { after with consumer := .joining (some token) })
      else (some (.token token), after)
    | none =>
      match relay.producer with
      | .stopped .. => (none, { relay with consumer := .joining none })
      | _ => (some .notYet, relay)

/-! ## Receiving with the producer ahead -/

theorem produce?_before {sink : Sink Diagnostic σ} {relay after : Relay σ}
    (h : relay.produce? sink = some after) :
    Producer.Before after.producer.measure relay.producer.measure := by
  unfold produce? at h
  split at h
  next lexer state hp =>
    obtain rfl := Option.some.inj h
    rw [hp]
    exact Producer.pull_before sink lexer state
  next token lexer state hp =>
    split at h
    next =>
      obtain rfl := Option.some.inj h
      rw [hp]
      exact Producer.before_last _ _ (by decide)
    next => simp at h
  next => simp at h

/-- The relay after the producer has gone as far as it can by itself. -/
def settle (sink : Sink Diagnostic σ) (relay : Relay σ) : Relay σ :=
  match _moved : relay.produce? sink with
  | some after => settle sink after
  | none => relay
termination_by relay.producer.measure
decreasing_by exact produce?_before _moved

/-- A receive call, with the producer running ahead whenever the consumer would have to wait. -/
def receive (sink : Sink Diagnostic σ) (relay : Relay σ) : Reply × Relay σ :=
  match (relay.settle sink).consume with
  | (some reply, after) => (reply, after)
  | (none, waiting) =>
    match (waiting.settle sink).consume with
    | (some reply, after) => (reply, after)
    | (none, after) => (.notYet, after)

/-! ## Receiving to the end -/

def consumerRank : Consumer → Nat
  | .receiving => 2
  | .joining _ => 1
  | .finished => 0

/-- What a relay has before it: what its producer has, the tokens in the queue, the consumer. -/
def measure (relay : Relay σ) : (Nat × Nat × Nat) × Nat × Nat :=
  (relay.producer.measure, relay.queue.length, consumerRank relay.consumer)

/-- The order in which the measure falls. -/
def Before : (Nat × Nat × Nat) × Nat × Nat → (Nat × Nat × Nat) × Nat × Nat → Prop :=
  Prod.Lex Producer.Before (Prod.Lex (· < ·) (· < ·))

theorem before_trans {a b c : (Nat × Nat × Nat) × Nat × Nat} (first : Before a b)
    (second : Before b c) : Before a c := by
  simp only [Before, Producer.Before, Prod.lex_def] at first second ⊢
  obtain ⟨⟨a₁, a₂, a₃⟩, a₄, a₅⟩ := a
  obtain ⟨⟨b₁, b₂, b₃⟩, b₄, b₅⟩ := b
  obtain ⟨⟨c₁, c₂, c₃⟩, c₄, c₅⟩ := c
  simp only [Prod.mk.injEq] at first second ⊢
  omega

theorem take?_before {relay after : Relay σ} {token : Token}
    (h : relay.take? = some (token, after)) (consumer : Consumer) :
    Before { after with consumer := consumer }.measure relay.measure := by
  unfold take? at h
  split at h
  next rest _ queue =>
    obtain ⟨rfl, rfl⟩ := Prod.mk.inj (Option.some.inj h)
    refine .right _ (.left _ _ ?_)
    simp [queue]
  next lexer state queue producer =>
    split at h
    next =>
      obtain ⟨rfl, rfl⟩ := Prod.mk.inj (Option.some.inj h)
      refine .left _ _ ?_
      rw [producer]
      exact Producer.before_last _ _ (by decide)
    next => simp at h
  next => simp at h

/-- A step of the consumer gets closer to the end, or it changes nothing. -/
theorem consume_le {relay after : Relay σ} {reply : Option Reply}
    (h : relay.consume = (reply, after)) :
    after = relay ∨ Before after.measure relay.measure := by
  unfold consume at h
  split at h
  next => exact .inl (Prod.mk.inj h).2.symm
  next last joining =>
    split at h
    next =>
      obtain ⟨-, rfl⟩ := Prod.mk.inj h
      refine .inr (.right _ (.right _ ?_))
      simp [joining, consumerRank]
    next => exact .inl (Prod.mk.inj h).2.symm
  next receiving =>
    split at h
    next token taken hTake =>
      split at h
      next =>
        obtain ⟨-, rfl⟩ := Prod.mk.inj h
        exact .inr (take?_before hTake _)
      next =>
        obtain ⟨-, rfl⟩ := Prod.mk.inj h
        exact .inr (take?_before hTake _)
    next =>
      split at h
      next =>
        obtain ⟨-, rfl⟩ := Prod.mk.inj h
        refine .inr (.right _ (.right _ ?_))
        simp [receiving, consumerRank]
      next => exact .inl (Prod.mk.inj h).2.symm

theorem consume_before {relay after : Relay σ} {token : Token}
    (h : relay.consume = (some (.token token), after)) : Before after.measure relay.measure := by
  rcases consume_le h with rfl | less
  next =>
    unfold consume at h
    split at h
    next => simp at h
    next last joining =>
      split at h
      next =>
        have same := congrArg Relay.consumer (Prod.mk.inj h).2
        simp [joining] at same
      next => simp at h
    next receiving =>
      split at h
      next other taken hTake =>
        split at h
        next => simp at h
        next =>
          obtain ⟨-, rfl⟩ := Prod.mk.inj h
          exact take?_before hTake taken.consumer
      next => split at h <;> simp at h
  next => exact less

theorem settle_le (sink : Sink Diagnostic σ) (relay : Relay σ) :
    relay.settle sink = relay ∨ Before (relay.settle sink).measure relay.measure := by
  fun_induction settle sink relay with
  | case1 relay after moved ih =>
    have first : Before after.measure relay.measure := .left _ _ (produce?_before moved)
    rcases ih with same | further
    · rw [same]
      exact .inr first
    · exact .inr (before_trans further first)
  | case2 relay => exact .inl rfl

theorem before_of_le {a b c : Relay σ} (first : Before a.measure b.measure)
    (second : b = c ∨ Before b.measure c.measure) : Before a.measure c.measure := by
  rcases second with rfl | less
  · exact first
  · exact before_trans first less

theorem receive_before {sink : Sink Diagnostic σ} {relay after : Relay σ} {token : Token}
    (h : relay.receive sink = (.token token, after)) :
    Before after.measure relay.measure := by
  have settled := settle_le sink relay
  unfold receive at h
  split at h
  next reply middle consumed =>
    obtain ⟨rfl, rfl⟩ := Prod.mk.inj h
    exact before_of_le (consume_before consumed) settled
  next waiting consumed =>
    split at h
    next reply middle consumedAgain =>
      obtain ⟨rfl, rfl⟩ := Prod.mk.inj h
      have second := before_of_le (consume_before consumedAgain) (settle_le sink waiting)
      exact before_of_le (before_of_le second (consume_le consumed)) settled
    next => simp at h

/-- Number of tokens a consumer still gets by receiving until there is none, unless the fault of
the producer is raised on the way; and the relay after that. -/
def drain (sink : Sink Diagnostic σ) (relay : Relay σ) : Except Fault Nat × Relay σ :=
  match _received : relay.receive sink with
  | (.token _, after) =>
    let rest := drain sink after
    (rest.1.map (· + 1), rest.2)
  | (.raised fault, after) => (.error fault, after)
  | (_, after) => (.ok 0, after)
termination_by relay.measure
decreasing_by exact receive_before _received

end Relay

end Offside
