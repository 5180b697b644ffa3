import Offside.Proofs.EndOfStream
import Offside.Proofs.Flaws

/-!
# Uneven lines

An uneven line begins with dedents and an indent, and it is reported before the first of them is
handed out.  So the uneven lines reported so far are those of which a dedent has been handed out.
-/

namespace Offside

/-- The indents behind runs of dedents, of a stream whose first `count` tokens have been handed out.
Only the runs count that have begun among these; `begun` says whether the tokens in front end with
such a run. -/
def unevenIndents : (count : Nat) → (begun : Bool) → List Token → List Token
  | _, _, [] => []
  | count, begun, token :: tokens =>
    if token.kind = .dedent then unevenIndents (count - 1) (begun || 0 < count) tokens
    else if token.kind = .indent ∧ begun then token :: unevenIndents (count - 1) false tokens
    else unevenIndents (count - 1) false tokens

/-- Tokens go by, with uneven lines that are reported.  They count if some of the tokens have been
handed out. -/
def Passes (count : Nat) (begun : Bool) (tokens : List Token) (reports : List Diagnostic)
    (after : Bool) : Prop :=
  ∃ indents,
    (∀ others, unevenIndents count begun (tokens ++ others) =
      indents ++ unevenIndents (count - tokens.length) after others) ∧
    (count = 0 → indents = []) ∧
    (0 < count ∨ tokens = [] → List.Forall₂ Explains indents (reports.filter Diagnostic.isUneven))

section

variable {count : Nat} {begun : Bool} {tokens others : List Token} {reports : List Diagnostic}

theorem unevenIndents_dedents {token : Token} (isDedent : token.kind = .dedent) (closed : Nat)
    (others : List Token) :
    unevenIndents count begun (List.replicate closed token ++ others) =
      unevenIndents (count - closed) (begun || (0 < closed && 0 < count)) others := by
  induction closed generalizing count begun with
  | zero => simp
  | succ closed ih =>
    rw [List.replicate_succ, List.cons_append, unevenIndents, if_pos isDedent, ih]
    congr 1
    · omega
    · cases count with
      | zero => simp
      | succ count => simp

theorem unevenIndents_min (count : Nat) (begun : Bool) (tokens : List Token) :
    unevenIndents (min count tokens.length) begun tokens = unevenIndents count begun tokens := by
  induction tokens generalizing count begun with
  | nil => rfl
  | cons token tokens ih =>
    have fewer : min count (tokens.length + 1) - 1 = min (count - 1) tokens.length := by omega
    have some : (0 < min count (tokens.length + 1)) ↔ 0 < count := by omega
    simp only [unevenIndents, List.length_cons, fewer, some, ih]

theorem Passes.nil (even : reports.filter Diagnostic.isUneven = []) :
    Passes count begun [] reports begun :=
  ⟨[], fun _ => rfl, fun _ => rfl, fun _ => even ▸ .nil⟩

theorem Passes.other {token : Token} (notDedent : token.kind ≠ .dedent)
    (notUneven : token.kind = .indent → begun = false)
    (even : reports.filter Diagnostic.isUneven = []) :
    Passes count begun [token] reports false := by
  refine ⟨[], fun others => ?_, fun _ => rfl, fun _ => even ▸ .nil⟩
  have notIndent : ¬ (token.kind = .indent ∧ begun = true) := by
    rintro ⟨isIndent, begun⟩
    simp [notUneven isIndent] at begun
  rw [List.singleton_append, unevenIndents, if_neg notDedent, if_neg notIndent]
  rfl

theorem passes_of_no_indent (noIndent : ∀ token ∈ tokens, token.kind ≠ .indent)
    (even : reports.filter Diagnostic.isUneven = []) :
    ∃ after, Passes count begun tokens reports after := by
  have flat : ∃ after, ∀ others, unevenIndents count begun (tokens ++ others) =
      unevenIndents (count - tokens.length) after others := by
    clear even
    induction tokens generalizing count begun with
    | nil => exact ⟨begun, fun _ => rfl⟩
    | cons token tokens ih =>
      obtain ⟨notIndent, further⟩ := List.forall_mem_cons.1 noIndent
      obtain ⟨after, same⟩ :=
        @ih (count - 1) (if token.kind = .dedent then begun || 0 < count else false) further
      refine ⟨after, fun others => ?_⟩
      rw [List.length_cons, Nat.add_comm, ← Nat.sub_sub, ← same, List.cons_append, unevenIndents]
      by_cases isDedent : token.kind = .dedent
      · simp [isDedent]
      · simp [isDedent, notIndent]
  obtain ⟨after, same⟩ := flat
  exact ⟨after, [], same, fun _ => rfl, fun _ => even ▸ .nil⟩

end

open Text

namespace Piece

variable {source : Source} {count : Nat} {begun : Bool} {front white rest : List Char}

theorem passes_of_kinds {pieces : List Piece} {point : Point}
    (noIndent : ∀ piece ∈ pieces, piece.kind ≠ some .indent)
    (even : (reports source point pieces).filter Diagnostic.isUneven = []) :
    ∃ after, Passes count begun (tokens source point pieces) (reports source point pieces) after := by
  apply passes_of_no_indent _ even
  intro token member isIndent
  obtain ⟨piece, found, kind⟩ := exists_of_mem_tokens member
  exact noIndent piece found (kind.trans (congrArg some isIndent))

theorem even_ending (source : Source) (point : Point) (blocks : Blocks) (last : Option Kind) :
    (reports source point (ending blocks last)).filter Diagnostic.isUneven = [] := by
  rw [reports_eq_nil _ _ fun _ => flaw_ending]
  rfl

theorem Labelled.even {piece : Piece} (labelled : piece.Labelled)
    (notIndent : piece.kind ≠ some .indent) (point : Point) :
    (reports source point [piece]).filter Diagnostic.isUneven = [] := by
  rw [reports_singleton]
  cases labelled with
  | sound flawless => simp [report?, flawless]
  | stray | tooLarge | unclosed => rfl
  | uneven => exact absurd rfl notIndent

theorem explained_uneven (content : source.chars = front ++ (white ++ rest)) :
    ∃ indent report, (uneven white).token? source (.between front (white ++ rest)) = some indent ∧
      (uneven white).report? source (.between front (white ++ rest)) = some report ∧
      indent.kind = .indent ∧ report.isUneven = true ∧ Explains indent report :=
  ⟨_, _, rfl, rfl, rfl, rfl, .uneven rfl (@chars_span source front rest (uneven white) content)⟩

theorem passes_indentation (content : source.chars = front ++ (white ++ rest)) (blocks : Blocks)
    (fresh : begun = false) :
    ∃ after, Passes count begun
      (tokens source (.between front (white ++ rest))
        (indentation white (blocks.fit white.length).1))
      (reports source (.between front (white ++ rest))
        (indentation white (blocks.fit white.length).1)) after := by
  cases fit : (blocks.fit white.length).1 with
  | opens =>
    have cut := @tokens_of_kind source front rest (cut .indent white) .indent rfl
    exact ⟨false, cut ▸ .other (by simp) (fun _ => fresh) rfl⟩
  | same => exact ⟨begun, .nil rfl⟩
  | closes closed exact =>
    have some := Blocks.closes_pos fit
    cases exact with
    | true =>
      apply passes_of_kinds
      · intro piece member
        rcases List.mem_append.1 member with closed | last
        · simp [List.eq_of_mem_replicate closed, cut]
        · simp [List.mem_singleton.1 last, dropped]
      · rw [indentation, reports_append, reports_replicate_cut]
        rfl
    | false =>
      obtain ⟨indent, report, isToken, reported, isIndent, isUneven, explains⟩ :=
        explained_uneven content
      rw [indentation, tokens_replicate_cut, tokens_singleton, isToken, reports_append,
        reports_replicate_cut, texts_replicate_cut, List.nil_append, List.length_nil, Point.advance,
        reports_singleton, reported]
      -- The uneven line counts as soon as the first of its dedents does.
      refine ⟨false, if 0 < count then [indent] else [], fun others => ?_, fun none => by simp [none],
        fun more => ?_⟩
      · rw [List.append_assoc, unevenIndents_dedents rfl, fresh]
        by_cases more : 0 < count
        · simp [unevenIndents, isIndent, more, some, Nat.sub_sub]
        · simp [unevenIndents, isIndent, more, Nat.sub_sub]
      · have more : 0 < count := by simpa using more
        simp only [if_pos more, Option.toList_some, List.filter_cons, isUneven, if_true]
        exact .cons explains .nil

end Piece

namespace Prospect

variable {source : Source} {prospect next : Prospect} {pieces : List Piece} {count : Nat}
  {begun : Bool} {front : List Char}

theorem Leads.passes (leads : prospect.Leads pieces next)
    (labelled : ∀ piece ∈ pieces, piece.Labelled) (content : source.chars = front ++ prospect.text)
    (fresh : prospect.mode = .atMargin → begun = false) :
    ∃ after, Passes count begun (Piece.tokens source (.between front prospect.text) pieces)
        (Piece.reports source (.between front prospect.text) pieces) after ∧
      (next.mode = .atMargin → after = false) := by
  cases leads with
  | ends | skip | stops | done => exact ⟨begun, .nil rfl, by simp⟩
  | blankLine => exact ⟨begun, .nil rfl, fun _ => fresh rfl⟩
  | content =>
    obtain ⟨after, passes⟩ := Piece.passes_indentation content _ (fresh rfl)
    exact ⟨after, passes, by simp⟩
  | @newline ended rest =>
    have cut := @Piece.tokens_of_kind source front rest (.cut .newline ended) .newline rfl
    exact ⟨false, cut ▸ .other (by simp) (by simp) rfl, fun _ => rfl⟩
  | @token piece rest kind _ _ isToken isContent =>
    have notIndent : piece.kind ≠ some .indent := by
      rw [isToken]
      rintro ⟨⟩
      cases isContent
    obtain ⟨after, passes⟩ := Piece.passes_of_kinds (by simpa using notIndent)
      ((labelled piece (by simp)).even notIndent _)
    exact ⟨after, passes, by simp⟩
  | @closes _ blocks last =>
    have noIndent : ∀ piece ∈ Piece.ending blocks last, piece.kind ≠ some .indent := by
      intro piece member
      rcases Piece.kind_ending member with kind | kind | kind <;> simp [kind]
    obtain ⟨after, passes⟩ := Piece.passes_of_kinds noIndent (Piece.even_ending _ _ _ _)
    exact ⟨after, passes, by simp⟩

end Prospect

/-- Along a trail on which all tokens have been handed out, all uneven lines count.  On one on which
no token has been handed out none of them does. -/
theorem Trail.passes {source : Source} {first last : Prospect} {pieces : List Piece}
    (trail : Trail first pieces last) {count : Nat} {begun : Bool} {front : List Char}
    (content : source.chars = front ++ first.text)
    (fresh : first.mode = .atMargin → begun = false) :
    ∃ indents after,
      (∀ others, unevenIndents count begun
          (Piece.tokens source (.between front first.text) pieces ++ others) =
        indents ++ unevenIndents
          (count - (Piece.tokens source (.between front first.text) pieces).length) after others) ∧
      (count = 0 → indents = []) ∧
      ((Piece.tokens source (.between front first.text) pieces).length ≤ count →
        List.Forall₂ Explains indents ((Piece.reports source (.between front first.text)
          pieces).filter Diagnostic.isUneven)) ∧
      (last.mode = .atMargin → after = false) := by
  -- By induction on the trail: a run of dedents never goes on from one line to the next.
  induction trail generalizing count begun front with
  | refl => exact ⟨[], begun, fun _ => rfl, fun _ => rfl, fun _ => .nil, fresh⟩
  | @stride prospect final pieces running _ ih =>
    obtain ⟨middle, ⟨indents, here, none, explained⟩, fresh⟩ := @Prospect.Leads.passes source
      prospect _ _ count begun front prospect.leads (fun _ => Prospect.labelled_stride) content fresh
    have text := prospect.leads.text_eq
    rw [text] at content here explained ⊢
    rw [Piece.tokens_append, Piece.reports_append, Point.advance_between]
    rw [← List.append_assoc] at content
    generalize Piece.tokens source _ prospect.stride.pieces = tokens at *
    obtain ⟨more, after, further, noMore, explainedMore, fresh⟩ :=
      @ih (count - tokens.length) middle _ content fresh
    generalize Piece.tokens source _ pieces = rest at *
    refine ⟨indents ++ more, after, fun others => ?_, ?_, ?_, fresh⟩
    · rw [List.append_assoc, here, further, List.append_assoc, List.length_append, Nat.sub_sub]
    · rintro rfl
      rw [none rfl, noMore (Nat.zero_sub _), List.nil_append]
    · intro all
      rw [List.length_append] at all
      rw [List.filter_append]
      refine List.rel_append (explained ?_) (explainedMore (by omega))
      cases tokens with
      | nil => exact .inr rfl
      | cons token tokens =>
        rw [List.length_cons] at all
        exact .inl (by omega)

theorem Prospect.Runs.unevenIndents_eq_nil {source : Source} {prospect : Prospect}
    {pieces : List Piece} (runs : prospect.Runs pieces) {begun : Bool} {front : List Char}
    (content : source.chars = front ++ prospect.text)
    (fresh : prospect.mode = .atMargin → begun = false) :
    unevenIndents 0 begun (Piece.tokens source (.between front prospect.text) pieces) = [] := by
  obtain ⟨final, trail, -⟩ := runs
  obtain ⟨indents, after, here, none, -⟩ := @Trail.passes _ _ _ _ trail 0 _ _ content fresh
  have all := here []
  rw [none rfl, List.append_nil, List.nil_append] at all
  exact all

end Offside
