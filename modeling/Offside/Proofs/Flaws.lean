import Mathlib.Data.List.Forall2
import Offside.Proofs.BlockLayout
import Offside.Proofs.LongestMatch

/-!
# Flaws and reports

The flaw of a piece is reported on the way to its token, so error tokens and reports go together, one
by one and in order.  The report of an uneven line goes with the indent behind its dedents.
-/

namespace Offside

open Text

theorem Blocks.closes_pos {blocks : Blocks} {width count : Nat} {exact : Bool}
    (closes : (blocks.fit width).1 = .closes count exact) : 0 < count := by
  obtain ⟨widths, rfl⟩ := blocks.exists_above
  by_cases wider : (above widths).innermost < width
  · simp only [fit, wider, if_true] at closes
    cases closes
  by_cases same : width = (above widths).innermost
  · simp only [fit, ← same, Nat.lt_irrefl, if_true, if_false] at closes
    cases closes
  have fewer : ((above widths).upTo width).size < (above widths).size := by
    rw [innermost_above] at wider same
    cases widths with
    | nil =>
      simp only [List.headD_nil] at wider same
      omega
    | cons first rest =>
      have narrower : width < first := by
        simp only [List.headD_cons] at wider same
        omega
      have others := (List.dropWhile_suffix (width < ·) (l := rest)).length_le
      simp only [upTo_above, size_above, List.dropWhile_cons, narrower, decide_true, if_true,
        List.length_cons]
      omega
  simp only [fit, wider, same, if_false] at closes
  split at closes
  · cases closes
    omega
  · cases closes
    omega

namespace Piece

/-! ## Pieces with flaws -/

/-- How the flaw of a piece goes together with its kind and its text. -/
inductive Labelled : Piece → Prop where
  | sound {piece : Piece} (flawless : piece.flaw = none) (notError : piece.kind ≠ some .error) :
      Labelled piece
  | stray {c : Char} (notDigit : isDigit c = false) (notQuote : ¬ IsQuote c) :
      Labelled (flawed (.stray c) [c])
  | tooLarge {digits : List Char} (isDigits : Number.isDigits digits = true) :
      Labelled (flawed .tooLarge digits)
  | unclosed {quote : Char} {rest : List Char} (isQuote : IsQuote quote) :
      Labelled (flawed .unclosed (quote :: rest))
  | uneven {white : List Char} (nonempty : white ≠ []) : Labelled (uneven white)

theorem labelled_dropped (text : List Char) : (dropped text).Labelled := .sound rfl (by simp [dropped])

theorem labelled_cut {kind : Kind} (notError : kind ≠ .error) (text : List Char) :
    (cut kind text).Labelled :=
  .sound rfl fun same => notError (Option.some.inj same)

theorem labelled_numberAhead {c : Char} (rest : List Char) (digit : isDigit c = true) :
    (numberAhead (c :: rest)).Labelled := by
  rw [numberAhead]
  split
  · rw [ofDigits]
    split
    · exact labelled_cut (by simp) _
    · exact .tooLarge (isDigits_takeWhile (by simp [digit]))
  · exact labelled_cut (by simp) _

theorem labelled_nameAhead (text : List Char) : (nameAhead text).Labelled := by
  apply labelled_cut
  rw [Lexeme.nameKind]
  split
  · simp
  · simp

theorem labelled_stringAhead {quote : Char} (rest : List Char) (isQuote : IsQuote quote) :
    (stringAhead quote rest).Labelled := by
  rw [stringAhead]
  split
  · exact labelled_cut (by simp) _
  · exact .unclosed isQuote

theorem labelled_operatorAhead {c : Char} (rest : List Char) (notDigit : isDigit c = false)
    (notQuote : ¬ IsQuote c) : (operatorAhead c rest).Labelled := by
  rw [operatorAhead]
  split
  · exact labelled_cut (by simp) _
  · exact .stray notDigit notQuote

theorem labelled_ahead (c : Char) (rest : List Char) : (ahead c rest).Labelled := by
  rw [ahead]
  split
  next => exact labelled_dropped _
  split
  next => exact labelled_dropped _
  split
  next => exact labelled_dropped _
  split
  next digit => exact labelled_numberAhead rest digit
  next notDigit =>
  split
  next => exact labelled_nameAhead _
  split
  next quote => exact labelled_stringAhead rest quote
  next notQuote => exact labelled_operatorAhead rest (by simpa using notDigit) notQuote

theorem labelled_of_mem_replicate {kind : Kind} (notError : kind ≠ .error) {count : Nat}
    {piece : Piece} (member : piece ∈ List.replicate count (cut kind [])) : piece.Labelled := by
  rw [List.eq_of_mem_replicate member]
  exact labelled_cut notError []

theorem labelled_indentation {white : List Char} {blocks : Blocks} {piece : Piece}
    (member : piece ∈ indentation white (blocks.fit white.length).1) : piece.Labelled := by
  have zero := blocks.fit_zero
  cases fit : (blocks.fit white.length).1 with
  | opens =>
    simp only [fit, indentation, List.mem_singleton] at member
    exact member ▸ labelled_cut (by simp) white
  | same =>
    simp only [fit, indentation, List.mem_singleton] at member
    exact member ▸ labelled_dropped white
  | closes count exact =>
    rw [fit] at member
    cases exact with
    | true =>
      rcases List.mem_append.1 member with closed | last
      · exact labelled_of_mem_replicate (by simp) closed
      · exact List.mem_singleton.1 last ▸ labelled_dropped white
    | false =>
      rcases List.mem_append.1 member with closed | last
      · exact labelled_of_mem_replicate (by simp) closed
      · rw [List.mem_singleton.1 last]
        apply Labelled.uneven
        rintro rfl
        rw [List.length_nil] at fit
        simp [fit] at zero

theorem kind_ending {blocks : Blocks} {last : Option Kind} {piece : Piece}
    (member : piece ∈ ending blocks last) :
    piece.kind = some .newline ∨ piece.kind = some .dedent ∨ piece.kind = some .eof := by
  rw [ending] at member
  rcases List.mem_append.1 member with member | eof
  · rcases List.mem_append.1 member with line | closed
    · split at line
      · exact .inl (List.mem_singleton.1 line ▸ rfl)
      · cases line
    · exact .inr (.inl (List.eq_of_mem_replicate closed ▸ rfl))
  · exact .inr (.inr (List.mem_singleton.1 eof ▸ rfl))

theorem labelled_ending {blocks : Blocks} {last : Option Kind} {piece : Piece}
    (member : piece ∈ ending blocks last) : piece.Labelled := by
  apply Labelled.sound (flaw_ending member)
  rcases kind_ending member with kind | kind | kind <;> simp [kind]

end Piece

theorem Prospect.labelled_stride {prospect : Prospect} {piece : Piece}
    (member : piece ∈ prospect.stride.pieces) : piece.Labelled := by
  obtain ⟨text, blocks, mode, last⟩ := prospect
  cases mode with
  | atMargin =>
    simp only [stride, Stride.atMargin] at member
    split at member
    · exact List.mem_singleton.1 member ▸ Piece.labelled_dropped _
    · split at member
      · exact List.mem_singleton.1 member ▸ Piece.labelled_dropped _
      · exact Piece.labelled_indentation member
  | inLine =>
    simp only [stride, Stride.inLine] at member
    split at member
    · cases member
    · split at member
      · exact List.mem_singleton.1 member ▸ Piece.labelled_cut (by simp) _
      · exact List.mem_singleton.1 member ▸ Piece.labelled_ahead _ _
  | atEnd => exact Piece.labelled_ending member
  | done => cases member

theorem Trail.labelled {first last : Prospect} {pieces : List Piece}
    (trail : Trail first pieces last) : ∀ piece ∈ pieces, piece.Labelled := by
  induction trail with
  | refl => simp
  | stride _ _ ih =>
    intro piece member
    rcases List.mem_append.1 member with here | further
    · exact Prospect.labelled_stride here
    · exact ih piece further

/-! ## What is reported with a token -/

def Token.isError (token : Token) : Bool := token.kind == .error

def Diagnostic.isUneven : Diagnostic → Bool
  | unevenIndentation .. => true
  | _ => false

/-- A diagnostic says what is wrong with the text of a token, at its span and its line. -/
inductive Explains (token : Token) : Diagnostic → Prop where
  | stray {c : Char} (isError : token.kind = .error) (chars : token.chars = .ok [c])
      (notDigit : isDigit c = false) (notQuote : ¬ IsQuote c) :
      Explains token (.strayCharacter token.span c token.line)
  | tooLarge {digits : List Char} (isError : token.kind = .error)
      (chars : token.chars = .ok digits) (isDigits : Number.isDigits digits = true) :
      Explains token (.integerTooLarge token.span token.line)
  | unclosed {quote : Char} {rest : List Char} (isError : token.kind = .error)
      (chars : token.chars = .ok (quote :: rest)) (isQuote : IsQuote quote) :
      Explains token (.openString token.span token.line)
  /-- The width of an indent is the number of its characters. -/
  | uneven {white : List Char} (isIndent : token.kind = .indent) (chars : token.chars = .ok white) :
      Explains token (.unevenIndentation token.span token.line white.length)

namespace Piece

variable {source : Source} {front rest : List Char} {piece : Piece} {pieces : List Piece}

theorem reports_between_cons (source : Source) (front rest : List Char) (piece : Piece)
    (pieces : List Piece) :
    reports source (.between front (piece.text ++ rest)) (piece :: pieces) =
      (piece.report? source (.between front (piece.text ++ rest))).toList ++
        reports source (.between (front ++ piece.text) rest) pieces := by
  rw [reports, Point.advance_between]

theorem chars_span (content : source.chars = front ++ (piece.text ++ rest)) :
    (piece.span source (.between front (piece.text ++ rest))).chars = .ok piece.text := by
  rw [← List.append_assoc] at content
  rw [span_between, Span.chars]
  exact Source.slice_eq content

theorem explained (labelled : piece.Labelled)
    (content : source.chars = front ++ (piece.text ++ rest)) :
    List.Forall₂ Explains
      ((piece.token? source (.between front (piece.text ++ rest))).toList.filter Token.isError)
      ((piece.report? source (.between front (piece.text ++ rest))).toList.filter
        fun report => !report.isUneven) := by
  have chars := chars_span content
  cases labelled with
  | sound flawless notError =>
    cases kind : piece.kind with
    | none => simp [token?, report?, kind, flawless]
    | some kind' =>
      have other : kind' ≠ .error := fun same => notError (same ▸ kind)
      simp [token?, report?, kind, flawless, Token.isError, other]
  | stray notDigit notQuote => exact .cons (.stray rfl chars notDigit notQuote) .nil
  | tooLarge isDigits => exact .cons (.tooLarge rfl chars isDigits) .nil
  | unclosed isQuote => exact .cons (.unclosed rfl chars isQuote) .nil
  | uneven => exact .nil

/-- The error tokens of pieces and their reports go together one by one, uneven lines apart. -/
theorem forall₂_explains (labelled : ∀ piece ∈ pieces, piece.Labelled)
    (content : source.chars = front ++ (texts pieces ++ rest)) :
    List.Forall₂ Explains
      ((tokens source (.between front (texts pieces ++ rest)) pieces).filter Token.isError)
      ((reports source (.between front (texts pieces ++ rest)) pieces).filter
        fun report => !report.isUneven) := by
  induction pieces generalizing front with
  | nil => exact .nil
  | cons piece pieces ih =>
    obtain ⟨first, others⟩ := List.forall_mem_cons.1 labelled
    rw [texts_cons, List.append_assoc] at content ⊢
    rw [tokens_between_cons, reports_between_cons, List.filter_append, List.filter_append]
    exact List.rel_append (explained first content) (ih others (by simp [content]))

/-! ## Where reports lie -/

theorem Labelled.nonempty (labelled : piece.Labelled) (flawed : piece.flaw ≠ none) :
    piece.text ≠ [] := by
  cases labelled with
  | sound flawless => exact absurd flawless flawed
  | stray | unclosed => exact List.cons_ne_nil _ _
  | tooLarge isDigits => exact (isDigits_iff.1 isDigits).1
  | uneven nonempty => exact nonempty

theorem span_report? {report : Diagnostic} {point : Point}
    (reported : piece.report? source point = some report) : report.span = piece.span source point := by
  obtain ⟨flaw, -, rfl⟩ := Option.map_eq_some_iff.1 reported
  cases flaw with
  | stray | tooLarge | unclosed | uneven => rfl

theorem reports_behind (labelled : ∀ piece ∈ pieces, piece.Labelled) :
    ∀ report ∈ reports source (.between front (texts pieces ++ rest)) pieces,
      width front ≤ report.span.start ∧ report.span.start < report.span.stop := by
  induction pieces generalizing front with
  | nil => simp
  | cons piece pieces ih =>
    obtain ⟨first, others⟩ := List.forall_mem_cons.1 labelled
    intro report member
    rw [texts_cons, List.append_assoc, reports_between_cons] at member
    rcases List.mem_append.1 member with here | further
    · have reported := Option.mem_toList.1 here
      have flawed : piece.flaw ≠ none := fun none => by simp [report?, none] at reported
      have some := width_pos (first.nonempty flawed)
      rw [span_report? reported, span_between]
      simp only [width_append]
      omega
    · obtain ⟨behind, some⟩ := ih others report further
      rw [width_append] at behind
      exact ⟨by omega, some⟩

theorem reports_pairwise (labelled : ∀ piece ∈ pieces, piece.Labelled) :
    (reports source (.between front (texts pieces ++ rest)) pieces).Pairwise
      fun a b => a.span.stop ≤ b.span.start := by
  induction pieces generalizing front with
  | nil => exact .nil
  | cons piece pieces ih =>
    obtain ⟨-, others⟩ := List.forall_mem_cons.1 labelled
    rw [texts_cons, List.append_assoc, reports_between_cons]
    refine List.pairwise_append.2 ⟨?_, ih others, fun a here b further => ?_⟩
    · cases piece.report? source _ with
      | none => exact .nil
      | some report => exact List.pairwise_singleton ..
    · rw [span_report? (Option.mem_toList.1 here), span_between]
      exact (reports_behind others b further).1

end Piece

/-! ## Open strings -/

namespace Piece

theorem Labelled.kind_of_unclosed {piece : Piece} (labelled : piece.Labelled)
    (unclosed : piece.flaw = some .unclosed) : piece.kind = some .error := by
  cases labelled with
  | sound flawless => simp [flawless] at unclosed
  | unclosed => rfl
  | stray | tooLarge | uneven => cases unclosed

theorem ahead_of_unclosed {c : Char} {rest : List Char}
    (unclosed : (ahead c rest).flaw = some .unclosed) :
    ahead c rest = flawed .unclosed (c :: rest) := by
  rw [ahead] at unclosed
  split at unclosed
  next => cases unclosed
  next notComment =>
  split at unclosed
  next => cases unclosed
  next notJoined =>
  split at unclosed
  next => cases unclosed
  next notBlank =>
  split at unclosed
  next =>
    rw [numberAhead, ofDigits] at unclosed
    split at unclosed
    · split at unclosed
      · cases unclosed
      · cases unclosed
    · cases unclosed
  next notDigit =>
  split at unclosed
  next => cases unclosed
  next notName =>
  split at unclosed
  next quote =>
    rw [ahead, if_neg notComment, if_neg notJoined, if_neg notBlank, if_neg notDigit,
      if_neg notName, if_pos quote]
    rw [stringAhead] at unclosed ⊢
    split at unclosed
    · cases unclosed
    · rfl
  next =>
    rw [operatorAhead] at unclosed
    split at unclosed
    · cases unclosed
    · cases unclosed

theorem tokens_split {source : Source} {point : Point} {before after : List Piece} {piece : Piece}
    {token : Token}
    (isToken : piece.token? source (point.advance (texts before).length) = some token) :
    tokens source point (before ++ piece :: after) = tokens source point before ++
      token :: tokens source (point.advance (texts (before ++ [piece])).length) after := by
  rw [tokens_append, tokens, isToken, ← Point.advance_add, texts_append, List.length_append]
  simp

theorem split_of_reports {source : Source} {point : Point} {pieces : List Piece}
    {xs ys : List Diagnostic} {report : Diagnostic}
    (split : reports source point pieces = xs ++ report :: ys) :
    ∃ before piece after, pieces = before ++ piece :: after ∧
      piece.report? source (point.advance (texts before).length) = some report ∧
      reports source (point.advance (texts (before ++ [piece])).length) after = ys := by
  induction pieces generalizing point xs with
  | nil => simp at split
  | cons piece pieces ih =>
    have behind : ∀ {xs}, reports source (point.advance piece.text.length) pieces = xs ++ report :: ys →
        ∃ before other after, piece :: pieces = before ++ other :: after ∧
          other.report? source (point.advance (texts before).length) = some report ∧
          reports source (point.advance (texts (before ++ [other])).length) after = ys := by
      intro xs split
      obtain ⟨before, other, after, rfl, reported, left⟩ := ih split
      refine ⟨piece :: before, other, after, rfl, ?_, ?_⟩
      · rwa [texts_cons, List.length_append, Point.advance_add]
      · rwa [List.cons_append, texts_cons, List.length_append, Point.advance_add]
    rw [reports] at split
    cases reported : piece.report? source point with
    | none =>
      rw [reported] at split
      exact behind split
    | some first =>
      rw [reported, Option.toList_some, List.singleton_append] at split
      cases xs with
      | nil =>
        obtain ⟨same, left⟩ := List.cons.inj split
        exact ⟨[], piece, pieces, rfl, same ▸ reported, by simpa using left⟩
      | cons x xs => exact behind (List.cons.inj split).2

end Piece

namespace Prospect

variable {prospect : Prospect} {pieces : List Piece}

theorem stride_of_unclosed {piece : Piece} (member : piece ∈ prospect.stride.pieces)
    (unclosed : piece.flaw = some .unclosed) :
    ∃ blocks, prospect.stride = ⟨[piece], .inLine, blocks⟩ ∧ piece.text = prospect.text := by
  have isError := (labelled_stride member).kind_of_unclosed unclosed
  obtain ⟨text, blocks, mode, last⟩ := prospect
  cases mode with
  | atMargin =>
    simp only [stride, Stride.atMargin] at member
    split at member
    · cases List.mem_singleton.1 member ▸ unclosed
    · split at member
      · cases List.mem_singleton.1 member ▸ unclosed
      · rcases Piece.kind_indentation member with kind | kind | kind <;> simp [isError] at kind
  | inLine =>
    cases text with
    | nil => cases member
    | cons c rest =>
      by_cases isBreak : isBreak c = true
      · simp only [stride, Stride.inLine, if_pos isBreak, List.mem_singleton] at member
        cases member ▸ unclosed
      · simp only [stride, Stride.inLine, if_neg isBreak, List.mem_singleton] at member ⊢
        subst member
        rw [Piece.ahead_of_unclosed unclosed]
        exact ⟨blocks, rfl, rfl⟩
  | atEnd => simp [Piece.flaw_ending member] at unclosed
  | done => cases member

theorem Runs.of_unclosed {before after : List Piece} {piece : Piece} (runs : prospect.Runs pieces)
    (split : pieces = before ++ piece :: after) (unclosed : piece.flaw = some .unclosed) :
    ∃ blocks, after = Piece.ending blocks (some .error) := by
  obtain ⟨final, trail, done⟩ := runs
  induction trail generalizing before with
  | refl => simp at split
  | @stride prospect final further running trail ih =>
    rcases List.append_eq_append_iff.1 split with ⟨others, rfl, behind⟩ | ⟨others, same, behind⟩
    · exact ih behind done
    cases others with
    | nil => exact @ih [] behind.symm done
    | cons first others =>
      cases behind
      have member : piece ∈ prospect.stride.pieces := by simp [same]
      have isError := (labelled_stride member).kind_of_unclosed unclosed
      obtain ⟨blocks, stride, covers⟩ := stride_of_unclosed member unclosed
      rw [stride] at same
      obtain ⟨rfl, -, rfl⟩ : before = [] ∧ piece = piece ∧ others = [] := by
        simpa [List.cons_eq_append_iff] using same
      have next : prospect.next = ⟨[], blocks, .inLine, some .error⟩ := by
        simp [Prospect.next, stride, covers, isError]
      rw [next] at trail
      exact ⟨blocks, Runs.eq_ending ⟨final, trail, done⟩⟩

/-- A string that stays open reaches up to the end of the text.  Its report is the last one, and
behind its token only the line, the blocks and the stream are ended. -/
theorem Runs.openString {source : Source} (runs : (start source.chars).Runs pieces)
    {before after : List Diagnostic} {span : Span} {line : Nat}
    (split : Piece.reports source (.origin source.chars) pieces =
      before ++ .openString span line :: after) :
    after = [] ∧ span.stop = source.size ∧
      ∃ earlier token closing count,
        Piece.tokens source (.origin source.chars) pieces = earlier ++ token :: closing ∧
        Explains token (.openString span line) ∧
        closing.map Token.kind = .newline :: (List.replicate count .dedent ++ [.eof]) := by
  obtain ⟨front, piece, behind, rfl, reported, left⟩ := Piece.split_of_reports split
  obtain ⟨flaw, unclosed, same⟩ := Option.map_eq_some_iff.1 reported
  cases flaw with
  | stray | tooLarge | uneven => cases same
  | unclosed =>
    obtain ⟨blocks, rfl⟩ := runs.of_unclosed rfl unclosed
    obtain ⟨final, trail, done⟩ := runs
    have labelled := trail.labelled piece (by simp)
    have content : source.chars = Piece.texts front ++ (piece.text ++ []) := by
      have whole := trail.text_eq
      rw [(trail.sound (sound_start _)) (.inr done)] at whole
      simpa [start] using whole
    have point : (Point.origin source.chars).advance (Piece.texts front).length =
        .between (Piece.texts front) (piece.text ++ []) := by
      rw [content, Point.origin_eq_between, Point.advance_between, List.nil_append]
    have chars := Piece.chars_span content
    have isToken : piece.token? source ((Point.origin source.chars).advance
        (Piece.texts front).length) =
        some ⟨.error, piece.span source (.between (Piece.texts front) (piece.text ++ [])),
          (Point.between (Piece.texts front) (piece.text ++ [])).line⟩ := by
      rw [point, Piece.token?, labelled.kind_of_unclosed unclosed]
      rfl
    rw [point] at same
    cases labelled with
    | sound flawless => simp [flawless] at unclosed
    | stray | tooLarge | uneven => cases unclosed
    | unclosed isQuote =>
      cases same
      refine ⟨?_, ?_, _, _, _, blocks.size, Piece.tokens_split isToken,
        .unclosed rfl chars isQuote, ?_⟩
      · rw [← left]
        exact Piece.reports_eq_nil _ _ fun _ => Piece.flaw_ending
      · rw [Piece.span_between, Source.size, content]
        simp
      · rw [Piece.map_kind_tokens, Piece.kinds_ending]
        rfl

end Prospect

end Offside
