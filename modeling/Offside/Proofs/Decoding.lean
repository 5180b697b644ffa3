import Offside.Proofs.Lookups
import Offside.Data

/-!
# What decoding accepts

Decoding looks at the shape of data and at the size of its numbers, and at nothing else: every
value whose numbers fit is accepted, whether its offsets and its line table fit its content or not.
Where they do, as in all that is made from a text, no look-up faults.
-/

namespace Offside

/-! ## Reading fields -/

namespace Data

theorem natural?_natural {n : Nat} (fits : n ≤ maxNatural) : (natural n).natural? = some n :=
  if_pos fits

theorem le_of_natural? {data : Data} {n : Nat} (read : data.natural? = some n) :
    n ≤ maxNatural := by
  cases data with
  | natural m =>
    rw [natural?] at read
    split at read
    · cases read
      assumption
    · cases read
  | null | bool | otherNumber | text | list | record => cases read

end Data

theorem Extent.of_decode? {data : Data} {extent : Extent}
    (read : Extent.decode? data = some extent) :
    ∃ start stop, data.exactFields? ["start", "end"] = some [start, stop] ∧
      start.natural? = some extent.start ∧ stop.natural? = some extent.stop := by
  simp only [Extent.decode?, bind, Option.bind_eq_some_iff] at read
  obtain ⟨fields, found, read⟩ := read
  split at read
  · rename_i start stop
    simp only [pure, Option.bind_eq_some_iff, Option.some.injEq] at read
    obtain ⟨first, readStart, second, readStop, rfl⟩ := read
    exact ⟨start, stop, found, readStart, readStop⟩
  · cases read

theorem Source.of_decode? {serial : Nat} {data : Data} {source : Source}
    (read : Source.decode? serial data = some source) :
    ∃ path identifier content lines items,
      data.fields? ["path", "identifier", "content", "lines"] =
        some [path, identifier, content, lines] ∧
      path.text? = some source.path ∧ identifier.text? = some source.identifier ∧
      content.text? = some source.content ∧ lines.list? = some items ∧
      items.mapM Extent.decode? = some source.lines.toList ∧ source.serial = serial := by
  simp only [Source.decode?, bind, Option.bind_eq_some_iff] at read
  obtain ⟨fields, found, read⟩ := read
  split at read
  · rename_i path identifier content lines
    simp only [pure, Option.bind_eq_some_iff, Option.some.injEq] at read
    obtain ⟨items, readItems, extents, readExtents, first, readPath, second, readIdentifier,
      third, readContent, rfl⟩ := read
    refine ⟨path, identifier, content, lines, items, found, readPath, readIdentifier, ?_,
      readItems, readExtents, rfl⟩
    rw [readContent, Source.content, String.ofList_toList]
  · cases read

theorem Span.of_decode? {serial : Nat} {data : Data} {span : Span}
    (read : Span.decode? serial data = some span) :
    ∃ start stop source,
      data.fields? ["start", "end", "source_file"] = some [start, stop, source] ∧
      start.natural? = some span.start ∧ stop.natural? = some span.stop ∧
      Source.decode? serial source = some span.source := by
  simp only [Span.decode?, bind, Option.bind_eq_some_iff] at read
  obtain ⟨fields, found, read⟩ := read
  split at read
  · rename_i start stop source
    simp only [pure, Option.bind_eq_some_iff, Option.some.injEq] at read
    obtain ⟨first, readStart, second, readStop, third, readSource, rfl⟩ := read
    exact ⟨start, stop, source, found, readStart, readStop, readSource⟩
  · cases read

theorem Token.of_decode? {serial : Nat} {data : Data} {token : Token}
    (read : Token.decode? serial data = some token) :
    ∃ kind span line, data.fields? ["kind", "span", "line"] = some [kind, span, line] ∧
      Kind.decode? kind = some token.kind ∧ Span.decode? serial span = some token.span ∧
      line.natural? = some token.line := by
  simp only [Token.decode?, bind, Option.bind_eq_some_iff] at read
  obtain ⟨fields, found, read⟩ := read
  split at read
  · rename_i kind span line
    simp only [pure, Option.bind_eq_some_iff, Option.some.injEq] at read
    obtain ⟨first, readKind, second, readSpan, third, readLine, rfl⟩ := read
    exact ⟨kind, span, line, found, readKind, readSpan, readLine⟩
  · cases read

theorem Tokens.of_decode? {serial : Nat} {data : Data} {stream : Tokens}
    (read : Tokens.decode? serial data = some stream) :
    ∃ tokens items, data.fields? ["tokens"] = some [tokens] ∧ tokens.list? = some items ∧
      Token.decodeAll? serial items = some stream.toList := by
  simp only [Tokens.decode?, bind, Option.bind_eq_some_iff] at read
  obtain ⟨fields, found, read⟩ := read
  split at read
  · rename_i tokens
    simp only [pure, Option.bind_eq_some_iff, Option.some.injEq] at read
    obtain ⟨items, readItems, all, readAll, rfl⟩ := read
    exact ⟨tokens, items, found, readItems, readAll⟩
  · cases read

/-! ## Numbers that fit -/

structure Extent.Fits (extent : Extent) : Prop where
  start : extent.start ≤ Data.maxNatural
  stop : extent.stop ≤ Data.maxNatural

/-- A source whose line table data can hold, be it the one of its content or not. -/
def Source.Fits (source : Source) : Prop := ∀ extent ∈ source.lines.toList, extent.Fits

structure Span.Fits (span : Span) : Prop where
  start : span.start ≤ Data.maxNatural
  stop : span.stop ≤ Data.maxNatural
  source : span.source.Fits

structure Token.Fits (token : Token) : Prop where
  span : token.span.Fits
  line : token.line ≤ Data.maxNatural

def Token.serial (token : Token) : Nat := token.span.source.serial

/-- Tokens whose numbers data can hold, their sources under serial numbers from `serial` on. -/
structure Tokens.FitFrom (serial : Nat) (tokens : List Token) : Prop where
  fits : ∀ token ∈ tokens, token.Fits
  serials : tokens.map Token.serial = List.range' serial tokens.length

/-! ## What was written is read back -/

theorem Extent.decode?_encode {extent : Extent} (fits : extent.Fits) :
    Extent.decode? extent.encode = some extent := by
  have fields : extent.encode.exactFields? ["start", "end"] =
      some [.natural extent.start, .natural extent.stop] := rfl
  simp only [Extent.decode?, fields, bind, Option.bind_some, pure,
    Data.natural?_natural fits.start, Data.natural?_natural fits.stop]

theorem Extent.mapM_decode?_encode {extents : List Extent}
    (fit : ∀ extent ∈ extents, extent.Fits) :
    (extents.map Extent.encode).mapM Extent.decode? = some extents := by
  induction extents with
  | nil => rfl
  | cons extent extents ih =>
    obtain ⟨first, others⟩ := List.forall_mem_cons.1 fit
    rw [List.map_cons, List.mapM_cons, Extent.decode?_encode first, ih others]
    rfl

theorem Source.decode?_encode {source : Source} (fits : source.Fits) :
    Source.decode? source.serial source.encode = some source := by
  have fields : source.encode.fields? ["path", "identifier", "content", "lines"] =
      some [.text source.path, .text source.identifier, .text source.content,
        .list (source.lines.toList.map Extent.encode)] := rfl
  simp only [Source.decode?, fields, bind, Option.bind_some, pure, Data.list?, Data.text?,
    Extent.mapM_decode?_encode fits, Source.content, String.toList_ofList, Array.toArray_toList]

theorem Span.decode?_encode {span : Span} (fits : span.Fits) :
    Span.decode? span.source.serial span.encode = some span := by
  have fields : span.encode.fields? ["start", "end", "source_file"] =
      some [.natural span.start, .natural span.stop, span.source.encode] := rfl
  simp only [Span.decode?, fields, bind, Option.bind_some, pure,
    Data.natural?_natural fits.start, Data.natural?_natural fits.stop,
    Source.decode?_encode fits.source]

theorem Kind.decode?_encode (kind : Kind) : Kind.decode? kind.encode = some kind := by
  cases kind with
  | keyword word =>
    show ((Keyword.ofLabel? word.label).bind fun word => some (Kind.keyword word)) = _
    rw [Keyword.ofLabel?_label, Option.bind_some]
  | operator mark =>
    show ((Operator.ofLabel? mark.label).bind fun mark => some (Kind.operator mark)) = _
    rw [Operator.ofLabel?_label, Option.bind_some]
  | identifier | integer | float | string | newline | indent | dedent | error | eof => rfl

theorem Token.decode?_encode {token : Token} (fits : token.Fits) :
    Token.decode? token.serial token.encode = some token := by
  have fields : token.encode.fields? ["kind", "span", "line"] =
      some [token.kind.encode, token.span.encode, .natural token.line] := rfl
  simp only [Token.decode?, Token.serial, fields, bind, Option.bind_some, pure,
    Kind.decode?_encode, Span.decode?_encode fits.span, Data.natural?_natural fits.line]

theorem Token.decodeAll?_encode {serial : Nat} {tokens : List Token}
    (fit : Tokens.FitFrom serial tokens) :
    Token.decodeAll? serial (tokens.map Token.encode) = some tokens := by
  induction tokens generalizing serial with
  | nil => rfl
  | cons token tokens ih =>
    obtain ⟨first, others⟩ := List.forall_mem_cons.1 fit.fits
    have serials := fit.serials
    rw [List.map_cons, List.length_cons, List.range'_succ] at serials
    obtain ⟨here, further⟩ := List.cons.inj serials
    have readFirst := Token.decode?_encode first
    rw [here] at readFirst
    simp only [List.map_cons, Token.decodeAll?, readFirst, ih ⟨others, further⟩, bind,
      Option.bind_some, pure]

theorem Tokens.decode?_encode {serial : Nat} {stream : Tokens}
    (fit : Tokens.FitFrom serial stream.toList) :
    Tokens.decode? serial stream.encode = some stream := by
  have fields : stream.encode.fields? ["tokens"] =
      some [.list (stream.toList.map Token.encode)] := rfl
  simp only [Tokens.decode?, fields, bind, Option.bind_some, pure, Data.list?,
    Token.decodeAll?_encode fit]

/-! ## What is read fits -/

theorem Extent.fits_of_decode? {data : Data} {extent : Extent}
    (read : Extent.decode? data = some extent) : extent.Fits := by
  obtain ⟨start, stop, -, readStart, readStop⟩ := Extent.of_decode? read
  exact ⟨Data.le_of_natural? readStart, Data.le_of_natural? readStop⟩

theorem Extent.fits_of_mapM {items : List Data} {extents : List Extent}
    (read : items.mapM Extent.decode? = some extents) : ∀ extent ∈ extents, extent.Fits := by
  induction items generalizing extents with
  | nil =>
    cases read
    simp
  | cons item items ih =>
    rw [List.mapM_cons] at read
    simp only [bind, pure, Option.bind_eq_some_iff, Option.some.injEq] at read
    obtain ⟨extent, readFirst, others, readOthers, rfl⟩ := read
    exact List.forall_mem_cons.2 ⟨Extent.fits_of_decode? readFirst, ih readOthers⟩

section

variable {serial : Nat} {data : Data}

theorem Source.fits_of_decode? {source : Source} (read : Source.decode? serial data = some source) :
    source.serial = serial ∧ source.Fits := by
  obtain ⟨-, -, -, -, items, -, -, -, -, -, readExtents, numbered⟩ := Source.of_decode? read
  exact ⟨numbered, Extent.fits_of_mapM readExtents⟩

theorem Span.fits_of_decode? {span : Span} (read : Span.decode? serial data = some span) :
    span.source.serial = serial ∧ span.Fits := by
  obtain ⟨start, stop, source, -, readStart, readStop, readSource⟩ := Span.of_decode? read
  obtain ⟨numbered, fits⟩ := Source.fits_of_decode? readSource
  exact ⟨numbered, Data.le_of_natural? readStart, Data.le_of_natural? readStop, fits⟩

theorem Token.fits_of_decode? {token : Token} (read : Token.decode? serial data = some token) :
    token.serial = serial ∧ token.Fits := by
  obtain ⟨kind, span, line, -, -, readSpan, readLine⟩ := Token.of_decode? read
  obtain ⟨numbered, fits⟩ := Span.fits_of_decode? readSpan
  exact ⟨numbered, fits, Data.le_of_natural? readLine⟩

theorem Token.fitFrom_of_decodeAll? {items : List Data} {tokens : List Token}
    (read : Token.decodeAll? serial items = some tokens) : Tokens.FitFrom serial tokens := by
  induction items generalizing serial tokens with
  | nil =>
    cases read
    exact ⟨by simp, rfl⟩
  | cons item items ih =>
    simp only [Token.decodeAll?, bind, pure, Option.bind_eq_some_iff, Option.some.injEq] at read
    obtain ⟨token, readFirst, others, readOthers, rfl⟩ := read
    obtain ⟨numbered, fits⟩ := Token.fits_of_decode? readFirst
    obtain ⟨further, serials⟩ := ih readOthers
    refine ⟨List.forall_mem_cons.2 ⟨fits, further⟩, ?_⟩
    rw [List.map_cons, List.length_cons, List.range'_succ, numbered, serials]

theorem Tokens.fitFrom_of_decode? {stream : Tokens}
    (read : Tokens.decode? serial data = some stream) : Tokens.FitFrom serial stream.toList := by
  obtain ⟨tokens, items, -, -, readAll⟩ := Tokens.of_decode? read
  exact Token.fitFrom_of_decodeAll? readAll

/-! ## What is accepted -/

theorem Source.accepted_iff {source : Source} :
    (∃ data, Source.decode? serial data = some source) ↔
      source.serial = serial ∧ source.Fits := by
  constructor
  · intro ⟨data, read⟩
    exact Source.fits_of_decode? read
  · intro ⟨numbered, fits⟩
    exact ⟨source.encode, numbered ▸ Source.decode?_encode fits⟩

theorem Span.accepted_iff {span : Span} :
    (∃ data, Span.decode? serial data = some span) ↔
      span.source.serial = serial ∧ span.Fits := by
  constructor
  · intro ⟨data, read⟩
    exact Span.fits_of_decode? read
  · intro ⟨numbered, fits⟩
    exact ⟨span.encode, numbered ▸ Span.decode?_encode fits⟩

theorem Token.accepted_iff {token : Token} :
    (∃ data, Token.decode? serial data = some token) ↔ token.serial = serial ∧ token.Fits := by
  constructor
  · intro ⟨data, read⟩
    exact Token.fits_of_decode? read
  · intro ⟨numbered, fits⟩
    exact ⟨token.encode, numbered ▸ Token.decode?_encode fits⟩

theorem Tokens.accepted_iff {stream : Tokens} :
    (∃ data, Tokens.decode? serial data = some stream) ↔
      Tokens.FitFrom serial stream.toList := by
  constructor
  · intro ⟨data, read⟩
    exact Tokens.fitFrom_of_decode? read
  · intro fit
    exact ⟨stream.encode, Tokens.decode?_encode fit⟩

end

/-- Decoding accepts exactly the values whose numbers fit, whatever those numbers are.  A source
with the line table of its content answers every question, and so does a span of it that
`Span.between?` would make, such as the span of any token of a text; any other span has no text. -/
theorem Data.accepts_what_fits (serial : Nat) :
    (∀ source, (∃ data, Source.decode? serial data = some source) ↔
        source.serial = serial ∧ source.Fits) ∧
      (∀ span, (∃ data, Span.decode? serial data = some span) ↔
        span.source.serial = serial ∧ span.Fits) ∧
      (∀ token, (∃ data, Token.decode? serial data = some token) ↔
        token.serial = serial ∧ token.Fits) ∧
      (∀ stream, (∃ data, Tokens.decode? serial data = some stream) ↔
        Tokens.FitFrom serial stream.toList) ∧
      (∀ source : Source, source.HasTable → source.Answers ∧
        ∃ tokens reports, source.lex = .ok (tokens, reports) ∧
          ∀ token ∈ tokens, token.span.Sound) ∧
      (∀ span : Span, (∃ text, span.text = .ok text) ↔
        Span.between? span.source span.start span.stop = some span) ∧
      ∀ span : Span, span.Sound → span.Answers := by
  refine ⟨fun _ => Source.accepted_iff, fun _ => Span.accepted_iff, fun _ => Token.accepted_iff,
    fun _ => Tokens.accepted_iff, ?_, fun _ => Span.text_eq_ok_iff, fun _ => Span.Sound.answers⟩
  intro source hasTable
  obtain ⟨pieces, runs⟩ := source.exists_runs
  have lexed := source.lex_eq runs
  exact ⟨hasTable.answers, _, _, lexed, hasTable.sound_of_lex lexed⟩

/-- A span of one character of two bytes is accepted, and no look-up in it faults. -/
theorem Data.accepts_what_fits_two_bytes :
    ∃ span : Span, span = ⟨0, 2, .ofContent 7 "" "" "é"⟩ ∧ span.Fits ∧ span.Sound ∧
      (∃ data, Span.decode? 7 data = some span) ∧ span.Answers := by
  refine ⟨_, rfl, ?_⟩
  generalize whole : (⟨0, 2, .ofContent 7 "" "" "é"⟩ : Span) = span
  have fits : span.Fits := by
    rw [← whole]
    refine ⟨by decide, by decide, fun extent member => ?_⟩
    obtain rfl : extent = ⟨0, 2⟩ := List.mem_singleton.1 member
    exact ⟨by decide, by decide⟩
  have sound : span.Sound := by
    rw [← whole]
    exact ⟨rfl, by decide⟩
  obtain ⟨-, spans, -, -, -, -, answers⟩ := Data.accepts_what_fits 7
  exact ⟨fits, sound, (spans span).2 ⟨by rw [← whole]; rfl, fits⟩, answers span sound⟩

/-- A span that reaches behind the end of its content, of a source without lines, is accepted. -/
theorem Span.decode?_beyond_end :
    ∃ span, Span.decode? 0
        (.record [("start", .natural 0), ("end", .natural 5), ("source_file",
          .record [("path", .text ""), ("identifier", .text ""), ("content", .text ""),
            ("lines", .list [])])]) = some span ∧
      ¬span.source.HasTable ∧ Span.between? span.source span.start span.stop = none ∧
      span.text = .error .badSlice ∧ span.source.position? 0 = .error .noLines ∧
      span.position = .error .noLines := by
  refine ⟨⟨0, 5, ⟨0, "", "", [], #[]⟩⟩, ?_, ?_, rfl, rfl, rfl, rfl⟩
  · rfl
  · intro hasTable
    cases hasTable

end Offside
