import Mathlib.Data.List.Chain
import Offside.Proofs.Seams
import Offside.Proofs.UnevenLines
import Offside.Tokens

/-!
# All tokens or none

A text has a stream if nothing in it was reported.  That shows in the tokens: every report goes with
an error token or with an indent behind a dedent, so a stream that is given has neither, and one with
either of them is held back.  Whether the text was given or read from a store makes no difference.
-/

namespace Offside

/-! ## Sinks that pass items on -/

namespace Sink

variable {α β σ : Type}

theorem receiveAll_cons (sink : Sink α σ) (state : σ) (item : α) (items : List α) :
    sink.receiveAll state (item :: items) =
      (sink.receive state item).bind fun state => sink.receiveAll state items := rfl

theorem receiveAll_via (sink : Sink β σ) (convert : α → β) (state : σ) (noted : Bool)
    (items : List α) :
    (sink.via convert).receiveAll (state, noted) items =
      (sink.receiveAll state (items.map convert)).map fun after =>
        (after, noted || !items.isEmpty) := by
  induction items generalizing state noted with
  | nil => cases noted <;> rfl
  | cons item items ih =>
    have first : (sink.via convert).receive (state, noted) item =
        (sink.receive state (convert item)).map fun after => (after, true) := rfl
    rw [List.map_cons, receiveAll_cons, receiveAll_cons, first]
    cases sink.receive state (convert item) with
    | error fault => rfl
    | ok after =>
      show (sink.via convert).receiveAll (after, true) items =
        (sink.receiveAll after (items.map convert)).map _
      rw [ih, Bool.true_or, List.isEmpty_cons, Bool.not_false, Bool.or_true]

end Sink

/-! ## Reports and tokens -/

/-- Whether an indent comes directly behind a dedent. -/
def Token.IsUneven (a b : Token) : Prop := a.kind = .dedent ∧ b.kind = .indent

def Tokens.Even (tokens : List Token) : Prop := tokens.IsChain fun a b => ¬a.IsUneven b

theorem unevenIndents_eq_nil_iff {count : Nat} {begun : Bool} {tokens : List Token}
    (all : tokens.length ≤ count) :
    unevenIndents count begun tokens = [] ↔
      (begun = true → ∀ token ∈ tokens.head?, token.kind ≠ .indent) ∧ Tokens.Even tokens := by
  induction tokens generalizing count begun with
  | nil => simp [unevenIndents, Tokens.Even]
  | cons token tokens ih =>
    rw [List.length_cons] at all
    have further {begun : Bool} := @ih (count - 1) begun (by omega)
    have some : 0 < count := by omega
    rw [unevenIndents, Tokens.Even, List.isChain_cons, ← Tokens.Even]
    by_cases isDedent : token.kind = .dedent
    · rw [if_pos isDedent, further]
      simp [isDedent, some, Token.IsUneven]
    · by_cases isIndent : token.kind = .indent
      · cases begun <;> simp [isIndent, further, Token.IsUneven]
      · simp [isDedent, isIndent, further, Token.IsUneven]

namespace Source

variable {source : Source} {tokens : List Token} {reports : List Diagnostic}

/-- Over a whole text, the error tokens and the uneven lines are those that are reported. -/
theorem explained_of_lex (lexed : source.lex = .ok (tokens, reports)) :
    List.Forall₂ Explains (tokens.filter Token.isError)
        (reports.filter fun report => !report.isUneven) ∧
      List.Forall₂ Explains (unevenIndents tokens.length false tokens)
        (reports.filter Diagnostic.isUneven) := by
  obtain ⟨pieces, ⟨final, trail, -⟩, rfl, rfl⟩ := source.exists_of_lex lexed
  have content : source.chars = [] ++ (Piece.texts pieces ++ final.text) := trail.text_eq
  have errors := Piece.forall₂_explains trail.labelled content
  rw [List.nil_append] at content
  rw [← content, ← Point.origin_eq_between] at errors
  obtain ⟨indents, after, here, -, uneven, -⟩ :=
    @Trail.passes source _ _ _ trail (Piece.tokens source (.origin source.chars) pieces).length
      false [] rfl fun _ => rfl
  simp only [Prospect.start, ← Point.origin_eq_between, Nat.sub_self] at here uneven
  have all := here []
  rw [unevenIndents, List.append_nil, List.append_nil] at all
  exact ⟨errors, all ▸ uneven (Nat.le_refl _)⟩

theorem anyError_eq_false_iff (lexed : source.lex = .ok (tokens, reports)) :
    Tokens.anyError ⟨tokens⟩ = false ↔ ∀ report ∈ reports, report.isUneven = true := by
  have errors := (explained_of_lex lexed).1.length_eq
  have none : Tokens.anyError ⟨tokens⟩ = false ↔ tokens.filter Token.isError = [] := by
    rw [List.filter_eq_nil_iff]
    exact List.any_eq_false
  rw [none, ← List.length_eq_zero_iff, errors, List.length_eq_zero_iff, List.filter_eq_nil_iff]
  simp

theorem even_iff (lexed : source.lex = .ok (tokens, reports)) :
    Tokens.Even tokens ↔ ∀ report ∈ reports, report.isUneven = false := by
  have indents := (explained_of_lex lexed).2.length_eq
  have nothing := @unevenIndents_eq_nil_iff _ false tokens (Nat.le_refl _)
  rw [← List.length_eq_zero_iff, indents, List.length_eq_zero_iff,
    List.filter_eq_nil_iff] at nothing
  simpa using nothing.symm

theorem reports_eq_nil_iff (lexed : source.lex = .ok (tokens, reports)) :
    reports = [] ↔ Tokens.anyError ⟨tokens⟩ = false ∧ Tokens.Even tokens := by
  rw [anyError_eq_false_iff lexed, even_iff lexed]
  constructor
  · rintro rfl
    exact ⟨by simp, by simp⟩
  · rintro ⟨allUneven, allEven⟩
    refine List.eq_nil_iff_forall_not_mem.2 fun report member => ?_
    have isUneven := allUneven report member
    rw [allEven report member] at isUneven
    cases isUneven

theorem lex_moved (lexed : source.lex = .ok (tokens, reports)) {other : Source}
    (same : other.chars = source.chars) :
    other.lex = .ok (tokens.map (·.moved other 0 0), reports.map (·.moved other 0 0)) := by
  obtain ⟨pieces, runs, rfl, rfl⟩ := source.exists_of_lex lexed
  have content : source.chars = Piece.texts pieces ++ _ := runs.choose_spec.1.text_eq
  obtain ⟨sameTokens, sameReports⟩ := @Piece.moved pieces [] [] _ _ 0 0 other source rfl rfl rfl
  rw [← content, ← Point.origin_eq_between] at sameTokens sameReports
  rw [← same] at runs
  rw [other.lex_eq runs, same, sameTokens, sameReports]

end Source

/-! ## Outcomes -/

namespace Tokens

variable {σ : Type} {source : Source} {tokens : List Token} {reports : List Diagnostic}

/-- The sink receives all diagnostics, whether it gives up on one of them or not, and the answer
depends on whether there was any. -/
theorem strict_eq (lexed : source.lex = .ok (tokens, reports)) (sink : Sink Failure σ) (state : σ) :
    strict sink state source =
      (sink.receiveAll state (reports.map Failure.lexical)).map fun final =>
        (if reports.isEmpty then .ok ⟨tokens⟩ else .error .faulty, final) := by
  rw [strict, ofSource_eq lexed, Sink.receiveAll_via]
  cases sink.receiveAll state (reports.map Failure.lexical) with
  | error fault => rfl
  | ok final =>
    cases reports <;> rfl

/-- How a source is answered for, whose tokens and diagnostics these are: with all tokens if there
is no diagnostic, and otherwise with a failure.  The sink has received the diagnostics by then. -/
structure AllOrNothing (source : Source) (sink : Sink Failure σ) (state : σ) (tokens : List Token)
    (reports : List Diagnostic) (answer : Except Failure Tokens) (final : σ) : Prop where
  lex : source.lex = .ok (tokens, reports)
  stream : ∀ {τ : Type} (other : Sink Diagnostic τ) (first : τ), other.NeverFails →
    ∃ last, ofSource other first source = .ok (⟨tokens⟩, last)
  received : sink.receiveAll state (reports.map Failure.lexical) = .ok final
  all_iff : answer = .ok ⟨tokens⟩ ↔ reports = []
  nothing_iff : answer = .error .faulty ↔ reports ≠ []
  /-- A stream that is given shows nothing that would have been reported. -/
  faultless_iff : reports = [] ↔ anyError ⟨tokens⟩ = false ∧ Even tokens
  error : anyError ⟨tokens⟩ = true → answer = .error .faulty
  /-- Uneven lines are enough for a failure. -/
  uneven : reports ≠ [] → (∀ report ∈ reports, report.isUneven = true) →
    anyError ⟨tokens⟩ = false ∧ answer = .error .faulty

theorem strict_allOrNothing (lexed : source.lex = .ok (tokens, reports)) {sink : Sink Failure σ}
    (never : sink.NeverFails) (state : σ) :
    ∃ answer final, strict sink state source = .ok (answer, final) ∧
      AllOrNothing source sink state tokens reports answer final := by
  obtain ⟨final, received⟩ := never.receiveAll state (reports.map Failure.lexical)
  have answered := strict_eq lexed sink state
  rw [received, Except.map] at answered
  have faultless := Source.reports_eq_nil_iff lexed
  generalize of : (if reports.isEmpty then .ok ⟨tokens⟩ else .error .faulty : Except Failure Tokens) =
    answer at answered
  have nothing_iff : answer = .error .faulty ↔ reports ≠ [] := by
    rw [← of]
    cases reports <;> simp
  refine ⟨answer, final, answered, {
    lex := lexed
    stream := fun other first never => ?_
    received
    all_iff := ?_
    nothing_iff
    faultless_iff := faultless
    error := fun anyError => ?_
    uneven := fun some allUneven => ?_ }⟩
  · obtain ⟨last, taken⟩ := never.receiveAll first reports
    exact ⟨last, by rw [ofSource_eq lexed, taken]; rfl⟩
  · rw [← of]
    cases reports <;> simp
  · apply nothing_iff.2
    intro none
    rw [(faultless.1 none).1] at anyError
    cases anyError
  · exact ⟨(Source.anyError_eq_false_iff lexed).2 allUneven, nothing_iff.2 some⟩

/-- A text is tokenized as a whole or not at all, and the sink receives each of its diagnostics.  A
store from which the text can be read makes no difference; a failure to read it is handed on. -/
theorem strict_all_or_nothing {sink : Sink Failure σ} (never : sink.NeverFails) (state : σ)
    (serial : Nat) (identifier content : String) :
    ∃ tokens reports,
      (∃ answer final, strictOfText sink state serial identifier content = .ok (answer, final) ∧
        AllOrNothing (.ofText serial identifier content) sink state tokens reports answer final) ∧
      (∀ (store : Store) (path : String) (handed : Handed String),
        store.textAt path = .ok handed → handed.value = content → ∃ answer final,
          strictOfPath sink state store serial path identifier = .ok (answer, final) ∧
          AllOrNothing (.ofContent serial path identifier content) sink state
            (tokens.map (·.moved (.ofContent serial path identifier content) 0 0))
            (reports.map (·.moved (.ofContent serial path identifier content) 0 0)) answer final) ∧
      ∀ (store : Store) (path : String) (failure : Failure), store.textAt path = .error failure →
        strictOfPath sink state store serial path identifier = .ok (.error failure, state) := by
  obtain ⟨pieces, runs⟩ := (Source.ofText serial identifier content).exists_runs
  have lexed := Source.lex_eq runs
  refine ⟨_, _, strict_allOrNothing lexed never state, fun store path handed found same => ?_,
    fun store path failure failed => ?_⟩
  · have read : Source.read serial path identifier store =
        .ok (.ofContent serial path identifier content) := by
      rw [Source.read, found, ← same]
      rfl
    have moved := @Source.lex_moved _ _ _ lexed (.ofContent serial path identifier content) rfl
    rw [strictOfPath, read]
    exact strict_allOrNothing moved never state
  · rw [strictOfPath, Source.read, failed]
    rfl

/-- A text in which a line closes a block without returning to the level of an outer one, and
nothing else is wrong. -/
theorem strict_all_or_nothing_uneven :
    (Sink.collect : Sink Failure (List Failure)).NeverFails ∧ ∃ tokens reports answer final,
      strictOfText Sink.collect [] 0 "test.gs" "a\n  b\n c" = .ok (answer, final) ∧
      AllOrNothing (.ofText 0 "test.gs" "a\n  b\n c") Sink.collect [] tokens reports answer final ∧
      anyError ⟨tokens⟩ = false ∧ answer = .error .faulty := by
  have runs : (Prospect.start (Source.ofText 0 "test.gs" "a\n  b\n c").chars).Runs _ :=
    ⟨_, .stride (by decide) (.stride (by decide) (.stride (by decide) (.stride (by decide)
      (.stride (by decide) (.stride (by decide) (.stride (by decide) (.stride (by decide)
      (.stride (by decide) (.stride (by decide) (.refl _)))))))))), by decide⟩
  obtain ⟨tokens, reports, ⟨answer, final, answered, all⟩, -⟩ :=
    strict_all_or_nothing Sink.neverFails_collect [] 0 "test.gs" "a\n  b\n c"
  have lexed := all.lex
  rw [Source.lex_eq runs] at lexed
  obtain ⟨rfl, rfl⟩ := Prod.mk.inj (Except.ok.inj lexed)
  exact ⟨Sink.neverFails_collect, _, _, answer, final, answered, all,
    all.uneven (by decide) (by decide)⟩

end Tokens

end Offside
