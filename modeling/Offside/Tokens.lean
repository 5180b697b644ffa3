import Offside.Lexer.Run
import Offside.Store.Basic

/-!
# Streams of tokens

The complete list of tokens of a source, ending with the end of the stream.  From a text, or from a
path and a store, a stream is made only if the text has no diagnostic; every diagnostic goes to the
sink.
-/

namespace Offside

structure Tokens where
  toList : List Token
  deriving DecidableEq, Repr, Inhabited

namespace Tokens

variable {σ : Type}

/-- The tokens of a source; diagnostics go to the sink. -/
def ofSource (sink : Sink Diagnostic σ) (state : σ) (source : Source) :
    Except Fault (Tokens × σ) :=
  ((Lexer.ofSource source).rest sink state).map fun (tokens, final) => (⟨tokens⟩, final)

/-- Whether some token covers text that no lexical rule accepts. -/
def anyError (stream : Tokens) : Bool := stream.toList.any fun token => token.kind == .error

def size (stream : Tokens) : Nat := stream.toList.length

def text (stream : Tokens) : Except Fault String :=
  (stream.toList.mapM Token.text).map String.join

def eofIndex? (stream : Tokens) : Option Nat := stream.toList.findIdx? Token.isEof

/-- Whether two streams have equal tokens, their sources taken by identity. -/
def same (a b : Tokens) : Bool :=
  a.size == b.size && (a.toList.zip b.toList).all fun (s, t) => s.same t

/-- Whether the first two tokens are tokens of the same source. -/
def firstShareSource (stream : Tokens) : Bool :=
  match stream.toList with
  | a :: b :: _ => a.span.source.serial == b.span.source.serial
  | _ => false

end Tokens

/-- The positions of a list's items in ascending order of the items; equal items keep their
places. -/
def sortedIndices {α : Type} (order : α → α → Ordering) (items : List α) : List Nat :=
  (items.zipIdx.mergeSort fun a b => (order a.1 b.1).isLE).map Prod.snd

/-! ## Tokens of faultless texts -/

variable {σ : Type}

/-- The tokens of a source, or the failure that some diagnostic was reported. -/
def Tokens.strict (sink : Sink Failure σ) (state : σ) (source : Source) :
    Except Fault (Except Failure Tokens × σ) := do
  let (stream, final, reported) ←
    ofSource (sink.via Failure.lexical) (state, false) source
  return (if reported then .error .faulty else .ok stream, final)

def Tokens.strictOfText (sink : Sink Failure σ) (state : σ) (serial : Nat)
    (identifier content : String) : Except Fault (Except Failure Tokens × σ) :=
  strict sink state (Source.ofText serial identifier content)

/-- The tokens of the source at a path; a source that cannot be read fails as its store says. -/
def Tokens.strictOfPath (sink : Sink Failure σ) (state : σ) (store : Store) (serial : Nat)
    (path identifier : String) : Except Fault (Except Failure Tokens × σ) :=
  match Source.read serial path identifier store with
  | .ok source => strict sink state source
  | .error failure => .ok (.error failure, state)

end Offside
