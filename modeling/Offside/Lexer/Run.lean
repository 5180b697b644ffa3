import Offside.Lexer.Progress

/-!
# Pulling tokens

`next` carries out steps until a token is ready and hands it out; `drain` pulls until there is
none left.  Both end for every lexer, because every step gets closer to the end.
-/

namespace Offside

namespace Lexer

variable {σ : Type}

def handOut (lexer : Lexer) (token : Token) (rest : Reader) : Lexer :=
  { lexer with reader := rest, finished := token.isEof }

def deliver (sink : Sink Diagnostic σ) (state : σ) : Option Diagnostic → Except Fault σ
  | none => .ok state
  | some report => sink.receive state report

/-- The next token, and the lexer and the sink's state after it. -/
def next (sink : Sink Diagnostic σ) (state : σ) (lexer : Lexer) :
    Except Fault (Option Token × Lexer × σ) :=
  match lexer.reader.take with
  | (some token, rest) => .ok (some token, lexer.handOut token rest, state)
  | (none, _) =>
    if _running : lexer.mode = .done then .ok (none, lexer, state)
    else
      match _stepped : lexer.step with
      | .error fault => .error fault
      | .ok (after, report) =>
        (deliver sink state report).bind fun state => next sink state after
termination_by lexer.remaining
decreasing_by exact remaining_step_lt _running _stepped

/-- A token that was handed out is gone: either the queue is shorter, or steps were taken. -/
theorem next_lt {sink : Sink Diagnostic σ} {state final : σ} {lexer after : Lexer}
    {token : Token} (h : lexer.next sink state = .ok (some token, after, final)) :
    after.remaining < lexer.remaining ∨
      after.remaining = lexer.remaining ∧
        after.reader.queue.length < lexer.reader.queue.length := by
  fun_induction next sink state lexer with
  | case1 state lexer token' rest taken =>
    obtain ⟨-, rfl, -⟩ : token' = token ∧ lexer.handOut token' rest = after ∧ state = final := by
      simpa using h
    unfold Reader.take at taken
    split at taken
    next => simp at taken
    next first others queue =>
      obtain ⟨-, rfl⟩ := Prod.mk.inj taken
      refine .inr ⟨rfl, ?_⟩
      simp [handOut, queue]
  | case2 state lexer rest taken running => simp at h
  | case3 state lexer rest taken running fault stepped => simp at h
  | case4 state lexer rest taken running middle report stepped ih =>
    obtain ⟨state', -, h⟩ := bind_eq_ok.1 h
    have less := remaining_step_lt running stepped
    rcases ih state' h with further | ⟨same, -⟩
    · exact .inl (Nat.lt_trans further less)
    · exact .inl (same ▸ less)

def drain (sink : Sink Diagnostic σ) (state : σ) (lexer : Lexer) :
    Except Fault (List Token × Lexer × σ) :=
  match _pulled : lexer.next sink state with
  | .error fault => .error fault
  | .ok (none, final) => .ok ([], final)
  | .ok (some token, after, state) =>
    (drain sink state after).map fun (tokens, final) => (token :: tokens, final)
termination_by (lexer.remaining, lexer.reader.queue.length)
decreasing_by
  rcases next_lt _pulled with less | ⟨same, shorter⟩
  · exact .left _ _ less
  · rw [same]
    exact .right _ shorter

def rest (sink : Sink Diagnostic σ) (state : σ) (lexer : Lexer) :
    Except Fault (List Token × σ) :=
  (lexer.drain sink state).map fun (tokens, _, final) => (tokens, final)

end Lexer

def Source.lex (source : Source) : Except Fault (List Token × List Diagnostic) :=
  (Lexer.ofSource source).rest Sink.collect []

end Offside
