import Offside.Proofs.Decoding
import Offside.Proofs.Locations

/-!
# Streams that come back from data

What is written is read back with a source of its own for each token: the tokens are copies, equal
in all but the serial numbers of their sources, which data do not hold.  The numbers of a stream
that was made from a text never outgrow the text, so such a stream is always read back.
-/

namespace Offside

/-! ## Sources of their own -/

/-- A token of a source that differs in its serial number alone. -/
def Token.renumber (token : Token) (serial : Nat) : Token :=
  { token with span := { token.span with source := { token.span.source with serial } } }

/-- Tokens of sources under serial numbers from `serial` on. -/
def Tokens.renumberFrom (serial : Nat) : List Token → List Token
  | [] => []
  | token :: rest => token.renumber serial :: renumberFrom (serial + 1) rest

/-- Tokens that are equal but for the serial numbers of their sources. -/
structure Token.Copies (copy token : Token) : Prop where
  kind : copy.kind = token.kind
  start : copy.span.start = token.span.start
  stop : copy.span.stop = token.span.stop
  line : copy.line = token.line
  text : copy.text = token.text
  path : copy.span.source.path = token.span.source.path
  identifier : copy.span.source.identifier = token.span.source.identifier
  content : copy.span.source.content = token.span.source.content
  lines : copy.span.source.lines = token.span.source.lines

/-- A stream of copies, each with a source of its own, that is written as the first one is. -/
structure Tokens.Copies (serial : Nat) (copy stream : Tokens) : Prop where
  size : copy.size = stream.size
  tokens : List.Forall₂ Token.Copies copy.toList stream.toList
  serials : copy.toList.map Token.serial = List.range' serial stream.size
  encode : copy.encode = stream.encode

namespace Token

variable {token : Token} {serial : Nat}

@[simp] theorem serial_renumber : (token.renumber serial).serial = serial := rfl

@[simp] theorem encode_renumber : (token.renumber serial).encode = token.encode := rfl

theorem copies_renumber (token : Token) (serial : Nat) : (token.renumber serial).Copies token :=
  ⟨rfl, rfl, rfl, rfl, rfl, rfl, rfl, rfl, rfl⟩

theorem Fits.renumber (fits : token.Fits) (serial : Nat) : (token.renumber serial).Fits :=
  ⟨⟨fits.span.start, fits.span.stop, fits.span.source⟩, fits.line⟩

end Token

namespace Tokens

@[simp] theorem length_renumberFrom (serial : Nat) (tokens : List Token) :
    (renumberFrom serial tokens).length = tokens.length := by
  induction tokens generalizing serial with
  | nil => rfl
  | cons token tokens ih => rw [renumberFrom, List.length_cons, ih, List.length_cons]

theorem forall₂_renumberFrom (serial : Nat) (tokens : List Token) :
    List.Forall₂ Token.Copies (renumberFrom serial tokens) tokens := by
  induction tokens generalizing serial with
  | nil => exact .nil
  | cons token tokens ih => exact .cons (token.copies_renumber serial) (ih (serial + 1))

theorem map_serial_renumberFrom (serial : Nat) (tokens : List Token) :
    (renumberFrom serial tokens).map Token.serial = List.range' serial tokens.length := by
  induction tokens generalizing serial with
  | nil => rfl
  | cons token tokens ih =>
    rw [renumberFrom, List.map_cons, ih, Token.serial_renumber, List.length_cons,
      List.range'_succ]

theorem map_encode_renumberFrom (serial : Nat) (tokens : List Token) :
    (renumberFrom serial tokens).map Token.encode = tokens.map Token.encode := by
  induction tokens generalizing serial with
  | nil => rfl
  | cons token tokens ih =>
    rw [renumberFrom, List.map_cons, ih, Token.encode_renumber, List.map_cons]

theorem fitFrom_renumberFrom {tokens : List Token} (fit : ∀ token ∈ tokens, token.Fits)
    (serial : Nat) : FitFrom serial (renumberFrom serial tokens) where
  fits := by
    induction tokens generalizing serial with
    | nil => simp [renumberFrom]
    | cons token tokens ih =>
      obtain ⟨first, others⟩ := List.forall_mem_cons.1 fit
      exact List.forall_mem_cons.2 ⟨first.renumber serial, ih others (serial + 1)⟩
  serials := by rw [map_serial_renumberFrom, length_renumberFrom]

/-- Every stream whose numbers data can hold is read back as a stream of copies. -/
theorem exists_copies {stream : Tokens} (fit : ∀ token ∈ stream.toList, token.Fits)
    (serial : Nat) :
    ∃ copy, decode? serial stream.encode = some copy ∧ copy.Copies serial stream := by
  have encode : encode ⟨renumberFrom serial stream.toList⟩ = stream.encode := by
    rw [Tokens.encode, map_encode_renumberFrom, Tokens.encode]
  refine ⟨⟨renumberFrom serial stream.toList⟩, ?_, {
    size := length_renumberFrom serial stream.toList
    tokens := forall₂_renumberFrom serial stream.toList
    serials := map_serial_renumberFrom serial stream.toList
    encode }⟩
  rw [← encode]
  exact decode?_encode (fitFrom_renumberFrom fit serial)

end Tokens

/-! ## Numbers of a text -/

theorem Text.breaksIn_le_width (front rest : List Char) :
    Text.breaksIn front rest ≤ Text.width front := by
  induction front with
  | nil => exact Nat.le_refl 0
  | cons c front ih =>
    have pos := c.utf8Size_pos
    rw [Text.breaksIn, Text.width_cons]
    split <;> omega

namespace Source

variable {source : Source}

theorem HasTable.fits (hasTable : source.HasTable) (bound : source.size ≤ Data.maxNatural) :
    source.Fits := by
  intro extent member
  have inTable : extent ∈ Text.lineExtentsFrom (Text.width []) (Text.width ([] ++ []))
      source.chars := by
    rw [hasTable] at member
    exact member
  obtain ⟨front, line, rest, content, rfl⟩ := Text.exists_of_mem_lineExtentsFrom inTable
  have size : source.size = Text.width (front ++ line) + Text.width rest := by
    rw [Source.size, ← Text.width_append, ← content, List.nil_append, List.nil_append]
  rw [Text.width_append] at size
  constructor
  · show Text.width front ≤ _
    omega
  · show Text.width (front ++ line) ≤ _
    rw [Text.width_append]
    omega

theorem HasTable.fits_of_lex (hasTable : source.HasTable) (bound : source.size < Data.maxNatural)
    {tokens : List Token} {reports : List Diagnostic} (lexed : source.lex = .ok (tokens, reports)) :
    ∀ token ∈ tokens, token.Fits := by
  intro token member
  have sound := hasTable.sound_of_lex lexed token member
  obtain ⟨⟨ordered, inside⟩, -⟩ := Span.between?_eq_some_iff.1 sound.between
  obtain ⟨pieces, -, rfl, -⟩ := source.exists_of_lex lexed
  obtain ⟨sameSource, point, liesIn, -, line⟩ :=
    Piece.tokens_beginOn (Point.liesIn_origin source.chars) pieces token member
  rw [sameSource] at inside
  refine ⟨⟨by omega, by omega, ?_⟩, ?_⟩
  · rw [sameSource]
    exact hasTable.fits (Nat.le_of_lt bound)
  · rw [← line]
    generalize whole : source.chars = text at liesIn
    obtain ⟨front, rest⟩ := liesIn
    have breaks := Text.breaksIn_le_width front rest
    have size : source.size = Text.width front + Text.width rest := by
      rw [Source.size, whole, Text.width_append]
    show 1 + Text.breaksIn front rest ≤ _
    omega

/-- The token stream of a text, which every sink that takes all diagnostics lets through, is read
back from what it is written as, and what is read back is written in the same way again. -/
theorem reads_back (path identifier content : String)
    (bound : content.utf8ByteSize < Data.maxNatural) (serial first : Nat) :
    ∃ stream,
      (∀ {σ : Type} (sink : Sink Diagnostic σ) (state : σ), sink.NeverFails → ∃ final,
        Tokens.ofSource sink state (ofContent serial path identifier content) =
          .ok (stream, final)) ∧
      (∀ token ∈ stream.toList, ∃ text, token.text = .ok text) ∧
      ∃ copy, Tokens.decode? first stream.encode = some copy ∧ copy.Copies first stream := by
  have size : (ofContent serial path identifier content).size < Data.maxNatural := by
    rw [Source.size]
    exact Text.width_toList content ▸ bound
  have hasTable := hasTable_ofContent serial path identifier content
  generalize ofContent serial path identifier content = source at *
  obtain ⟨pieces, runs⟩ := source.exists_runs
  have lexed := source.lex_eq runs
  refine ⟨⟨_⟩, fun sink state never => ?_, fun token member => ?_,
    Tokens.exists_copies (hasTable.fits_of_lex size lexed) first⟩
  · obtain ⟨final, received⟩ := never.receiveAll state _
    exact ⟨final, by rw [Tokens.ofSource_eq lexed, received]; rfl⟩
  · exact (hasTable.sound_of_lex lexed token member).answers.text

/-- A text with a character of two bytes, a block and an open string comes back. -/
theorem reads_back_open_string : ("é\r\n  'x" : String).utf8ByteSize < Data.maxNatural ∧
    ∃ stream,
      (∀ {σ : Type} (sink : Sink Diagnostic σ) (state : σ), sink.NeverFails → ∃ final,
        Tokens.ofSource sink state (ofContent 0 "test.gs" "test.gs" "é\r\n  'x") =
          .ok (stream, final)) ∧
      (∀ token ∈ stream.toList, ∃ text, token.text = .ok text) ∧
      ∃ copy, Tokens.decode? 1 stream.encode = some copy ∧ copy.Copies 1 stream := by
  have bound : ("é\r\n  'x" : String).utf8ByteSize < Data.maxNatural := by decide
  exact ⟨bound, reads_back "test.gs" "test.gs" "é\r\n  'x" bound 0 1⟩

end Source

end Offside
