import Offside.Fault

/-!
# Sinks

A sink takes items one at a time, each as it comes up.  It keeps a state, and it may give up
with a fault; then its state stays as it was.
-/

namespace Offside

/-- A consumer of items of type `α` with a state of type `σ`. -/
structure Sink (α σ : Type) where
  receive : σ → α → Except Fault σ

namespace Sink

variable {α β σ : Type}

def collect : Sink α (List α) where
  receive received item := .ok (received ++ [item])

def discard : Sink α Unit where
  receive _ _ := .ok ()

/-- Notes whether there has been any item; an outer layer may show each one as it comes. -/
def notice : Sink α Bool where
  receive _ _ := .ok true

/-- Collects up to `limit` items and gives up on the next one. -/
def collectAtMost (limit : Nat) : Sink α (List α) where
  receive received item :=
    if received.length < limit then .ok (received ++ [item]) else .error .sinkFailed

/-- Passes items on in another form, and notes whether there has been any. -/
def via (sink : Sink β σ) (convert : α → β) : Sink α (σ × Bool) where
  receive state item := (sink.receive state.1 (convert item)).map fun after => (after, true)

def NeverFails (sink : Sink α σ) : Prop :=
  ∀ state item, ∃ after, sink.receive state item = .ok after

def receiveAll (sink : Sink α σ) (state : σ) (items : List α) : Except Fault σ :=
  items.foldlM sink.receive state

theorem receiveAll_append (sink : Sink α σ) (state : σ) (xs ys : List α) :
    sink.receiveAll state (xs ++ ys) =
      (sink.receiveAll state xs).bind fun state => sink.receiveAll state ys := by
  simp only [receiveAll, List.foldlM_append]
  rfl

theorem NeverFails.receiveAll {sink : Sink α σ} (never : sink.NeverFails) (state : σ)
    (items : List α) : ∃ after, sink.receiveAll state items = .ok after := by
  induction items generalizing state with
  | nil => exact ⟨state, rfl⟩
  | cons item items ih =>
    obtain ⟨middle, received⟩ := never state item
    obtain ⟨after, others⟩ := ih middle
    exact ⟨after, bind_eq_ok.2 ⟨middle, received, others⟩⟩

theorem neverFails_collect : (collect : Sink α (List α)).NeverFails := fun _ _ => ⟨_, rfl⟩

theorem receiveAll_collect (received items : List α) :
    collect.receiveAll received items = .ok (received ++ items) := by
  induction items generalizing received with
  | nil => rw [List.append_nil]; rfl
  | cons item items ih =>
    rw [List.append_cons]
    exact ih (received ++ [item])

end Sink

end Offside
