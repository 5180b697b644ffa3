import Offside.Proofs.Lookups
import Offside.Proofs.TextAhead

/-!
# Held text

The held text begins where the last token was cut or text was dropped.  A reader could only get in
front of that by undoing a step that was taken before the cut: that is possible, and nothing else
leads there.  As long as it is not done, the held text can be told at any time, and tokens are taken
in the order in which they stand in the source.
-/

namespace Offside

/-! ## Tokens in order -/

structure InOrder (tokens : List Token) : Prop where
  ascending : ∀ token ∈ tokens, token.span.start ≤ token.span.stop
  disjoint : tokens.Pairwise fun a b => a.span.stop ≤ b.span.start

theorem InOrder.concat {tokens : List Token} {token : Token} (inOrder : InOrder tokens)
    (ascending : token.span.start ≤ token.span.stop)
    (behind : ∀ other ∈ tokens, other.span.stop ≤ token.span.start) :
    InOrder (tokens ++ [token]) where
  ascending := by
    simpa [or_imp, forall_and] using ⟨inOrder.ascending, ascending⟩
  disjoint := by
    rw [List.pairwise_append]
    exact ⟨inOrder.disjoint, List.pairwise_singleton _ _, by simpa using behind⟩

theorem InOrder.front {tokens others : List Token} (inOrder : InOrder (tokens ++ others)) :
    InOrder tokens where
  ascending token member := inOrder.ascending token (List.mem_append_left _ member)
  disjoint := (List.pairwise_append.1 inOrder.disjoint).1

/-! ## Points in order -/

theorem Point.LiesIn.le_of_lt_step {text : List Char} {point back : Point} {c : Char}
    (liesIn : point.LiesIn text) (behind : back.LiesIn text) (ahead : back.ahead? = some c)
    (before : point.offset < back.step.offset) : point.offset ≤ back.offset := by
  obtain ⟨front, inside, rest, whole, start, stop⟩ :=
    Text.exists_between (Nat.le_of_lt before) liesIn.isBoundary behind.step.isBoundary
  obtain ⟨through, split, offset⟩ := behind.exists_front
  obtain ⟨others, standing⟩ := List.head?_eq_some_iff.1 ahead
  have same : front ++ inside = through ++ [c] := by
    rw [split, standing, List.append_cons] at whole
    refine (Text.eq_of_width_eq whole.symm ?_).1
    rw [stop, Point.step_eq_past standing, Point.past, offset, Text.width_append]
  rcases List.eq_nil_or_concat' inside with rfl | ⟨shorter, last, rfl⟩
  · rw [List.append_nil, start] at stop
    exact absurd stop before.ne
  · rw [← List.append_assoc] at same
    obtain ⟨rfl, -⟩ := List.append_inj' same rfl
    rw [← start, offset, Text.width_append]
    exact Nat.le_add_right _ _

namespace Reader

variable {source : Source} {reader after : Reader}

/-! ## Readers that stand behind the start of the held text -/

/-- A reader that can tell the text it holds, and its span, and can cut it off. -/
structure Holds (reader : Reader) : Prop where
  ordered : reader.start.offset ≤ reader.point.offset
  held : ∃ text, reader.held = .ok text
  heldSpan : reader.heldSpan = .ok ⟨reader.start.offset, reader.point.offset, reader.source⟩
  cut : ∀ kind, ∃ after, reader.cut kind = .ok after

theorem Placed.holds (placed : reader.Placed source)
    (ordered : reader.start.offset ≤ reader.point.offset) : reader.Holds := by
  have sameSource := placed.sameSource
  subst sameSource
  have first := placed.start.isBoundary
  have second := placed.point.isBoundary
  obtain ⟨front, inside, rest, content, start, stop⟩ := Text.exists_between ordered first second
  have within : reader.point.offset ≤ reader.source.size := by
    rw [← stop, Source.size, content, Text.width_append (front ++ inside)]
    exact Nat.le_add_right _ _
  have heldSpan : reader.heldSpan =
      .ok ⟨reader.start.offset, reader.point.offset, reader.source⟩ := by
    have between := @Span.between?_eq_some_iff
      ⟨reader.start.offset, reader.point.offset, reader.source⟩
    rw [Reader.heldSpan, between.2 ⟨⟨ordered, within⟩, first, second⟩]
  refine ⟨ordered, ⟨inside, ?_⟩, heldSpan, fun kind => ?_⟩
  · rw [held, ← start, ← stop, Source.slice_eq content]
  · rw [Reader.cut, heldSpan]
    exact ⟨_, rfl⟩

/-- There is a character that could be undone, but nothing is held. -/
def Overreaches (reader : Reader) : Prop :=
  (∃ c, reader.undo = some (some c)) ∧ reader.start.offset = reader.point.offset

/-- The token that an attempt takes. -/
def taken? (reader : Reader) : Attempt → Option Token
  | .command .take => reader.take.1
  | _ => none

def takenAll (reader : Reader) : List Attempt → List Token
  | [] => []
  | attempt :: attempts =>
    (reader.taken? attempt).toList ++ takenAll (reader.attempt attempt) attempts

/-- A reader that has not got in front of its held text, from which tokens were taken in order. -/
structure Tidy (source : Source) (out : List Token) (reader : Reader) : Prop where
  placed : reader.Placed source
  ordered : reader.start.offset ≤ reader.point.offset
  inOrder : InOrder (out ++ reader.queue)
  behind : ∀ token ∈ out ++ reader.queue, token.span.stop ≤ reader.start.offset

theorem tidy_ofSource (source : Source) : (ofSource source).Tidy source [] where
  placed := placed_ofSource source
  ordered := Nat.le_refl _
  inOrder := ⟨by simp [ofSource], by simp [ofSource]⟩
  behind := by simp [ofSource]

/-! ## What an attempt may move -/

/-- A reader that is only moved, and not in front of the held text. -/
inductive Moved (reader : Reader) : Reader → Prop where
  | goTo (point : Point) (undo : Option (Option Char))
      (ordered : reader.start.offset ≤ point.offset) : Moved reader (reader.goTo point undo)

theorem moved_of_looksAhead {command : Command} {answer : Answer}
    (ordered : reader.start.offset ≤ reader.point.offset) (looksAhead : command.looksAhead = true)
    (ran : reader.run command = .ok (answer, after)) : Moved reader after := by
  obtain ⟨_, taken, rest, takes⟩ := Command.exists_takes looksAhead reader.point.rest
  obtain ⟨undo, found⟩ := run_of_takes takes rfl
  cases found.symm.trans ran
  exact .goTo _ undo (Nat.le_trans ordered (Nat.le_add_right _ _))

theorem moved_of_tryRun {accepts : Char → Option Bool} {ahead : List Char}
    (standing : reader.point.rest = ahead) (ordered : reader.start.offset ≤ reader.point.offset)
    (tried : tryRun accepts ahead reader = .ok after) : Moved reader after := by
  induction ahead generalizing reader with
  | nil =>
    rw [tryRun, read_of_nil standing] at tried
    cases tried
    exact .goTo _ _ (Nat.le_trans ordered (Nat.le_add_right _ _))
  | cons c rest ih =>
    -- The character has been read when the predicate is asked, also when that gives up on it.
    have further : reader.start.offset ≤ (reader.point.past [c] rest).offset :=
      Nat.le_trans ordered (Nat.le_add_right _ _)
    rw [tryRun, read_of_cons standing] at tried
    split at tried
    · obtain ⟨point, undo, ordered⟩ := ih rfl further tried
      exact .goTo point undo ordered
    · have undone := unread_read reader
      rw [read_of_cons standing] at undone
      cases undone.symm.trans tried
      exact .goTo _ _ ordered
    · cases tried
      exact .goTo _ _ further

theorem Placed.moved_of_unread (placed : reader.Placed source)
    (ordered : reader.start.offset ≤ reader.point.offset) (steady : ¬reader.Overreaches)
    (undone : reader.unread = .ok after) : Moved reader after := by
  rw [Reader.unread] at undone
  cases undo : reader.undo with
  | none =>
    rw [undo] at undone
    cases undone
  | some last =>
    have reached := placed.undo last undo
    rw [undo] at undone
    rw [Overreaches, undo] at steady
    generalize standing : reader.point = point at *
    cases reached with
    | stayed =>
      cases undone
      exact .goTo _ _ (standing ▸ ordered)
    | @stepped back c liesIn ahead =>
      simp only [Point.stepBack_step ahead, Except.map, Except.ok.injEq] at undone
      subst undone
      have apart : reader.start.offset ≠ back.step.offset := fun same => steady ⟨⟨c, rfl⟩, same⟩
      exact .goTo _ _ (placed.start.le_of_lt_step liesIn ahead (Nat.lt_of_le_of_ne ordered apart))

theorem Placed.unread_of_overreaches (placed : reader.Placed source)
    (overreaches : reader.Overreaches) :
    ∃ after, reader.unread = .ok after ∧ after.point.offset < after.start.offset := by
  obtain ⟨⟨c, undo⟩, nothingHeld⟩ := overreaches
  have reached := placed.undo _ undo
  generalize standing : reader.point = point at *
  cases reached with
  | @stepped back c liesIn ahead =>
    refine ⟨reader.goTo back none, ?_, ?_⟩
    · simp only [Reader.unread, undo, standing, Point.stepBack_step ahead, Except.map]
    · obtain ⟨rest, ahead⟩ := List.head?_eq_some_iff.1 ahead
      change back.offset < reader.start.offset
      rw [nothingHeld, Point.step_eq_past ahead]
      exact Nat.lt_add_of_pos_right (Text.width_pos (by simp))

namespace Tidy

variable {out : List Token}

theorem moved (tidy : reader.Tidy source out) (placed : after.Placed source)
    (moved : Moved reader after) : after.Tidy source out := by
  obtain ⟨point, undo, ordered⟩ := moved
  exact ⟨placed, ordered, tidy.inOrder, tidy.behind⟩

theorem cut (tidy : reader.Tidy source out) {kind : Kind} (placed : after.Placed source)
    (cuts : reader.cut kind = .ok after) : after.Tidy source out := by
  have heldSpan := (tidy.placed.holds tidy.ordered).heldSpan
  rw [Reader.cut, heldSpan] at cuts
  cases cuts
  refine ⟨placed, Nat.le_refl _, ?_, ?_⟩
  · rw [← List.append_assoc]
    exact tidy.inOrder.concat tidy.ordered tidy.behind
  · rw [← List.append_assoc]
    intro token member
    rcases List.mem_append.1 member with before | new
    · exact Nat.le_trans (tidy.behind token before) tidy.ordered
    · rw [List.mem_singleton.1 new]

theorem take (tidy : reader.Tidy source out) :
    reader.take.2.Tidy source (out ++ reader.take.1.toList) := by
  have placed := tidy.placed.take
  rw [Reader.take] at placed ⊢
  split at placed
  · simpa using tidy
  · rename_i token rest queue
    have inOrder := tidy.inOrder
    have behind := tidy.behind
    rw [queue, ← List.singleton_append, ← List.append_assoc] at inOrder behind
    exact ⟨placed, tidy.ordered, inOrder, behind⟩

/-- What succeeds keeps a reader tidy, as long as no step in front of the held text is undone. -/
theorem outcome (tidy : reader.Tidy source out) {attempt : Attempt}
    (steady : attempt = .command .unread → ¬reader.Overreaches)
    (tried : reader.outcome attempt = .ok after) :
    after.Tidy source (out ++ (reader.taken? attempt).toList) := by
  have placed : after.Placed source := by
    have orderly := tidy.placed.outcome attempt
    rw [tried] at orderly
    cases orderly with
    | ok placed => exact placed
  cases attempt with
  | readTrying accepts =>
    rw [taken?, Option.toList_none, List.append_nil]
    · exact tidy.moved placed (moved_of_tryRun rfl tidy.ordered tried)
    · simp
  | command command =>
    obtain ⟨⟨answer, _⟩, ran, rfl⟩ := map_eq_ok.1 tried
    cases command with
    | take =>
      cases ran
      exact tidy.take
    | cut kind =>
      obtain ⟨_, cuts, same⟩ := map_eq_ok.1 ran
      cases same
      simpa [taken?] using tidy.cut placed cuts
    | unread =>
      obtain ⟨_, undone, same⟩ := map_eq_ok.1 ran
      cases same
      simpa [taken?] using
        tidy.moved placed (tidy.placed.moved_of_unread tidy.ordered (steady rfl) undone)
    | returnToMark =>
      obtain ⟨_, returned, same⟩ := map_eq_ok.1 ran
      cases same
      rw [Reader.returnToMark] at returned
      split at returned
      · cases returned
      · rename_i notInFront
        cases returned
        simpa [taken?] using tidy.moved placed (.goTo _ none (Nat.le_of_not_lt notInFront))
    | drop =>
      cases ran
      simp only [taken?, Option.toList_none, List.append_nil]
      exact { tidy with
        placed
        ordered := Nat.le_refl _
        behind := fun token member => Nat.le_trans (tidy.behind token member) tidy.ordered }
    | setMark =>
      cases ran
      simp only [taken?, Option.toList_none, List.append_nil]
      exact { tidy with placed }
    | read | peek | readOneOf | readWhile | readLiteral | beginsWith =>
      simpa [taken?] using tidy.moved placed (moved_of_looksAhead tidy.ordered rfl ran)
    | peekAt n =>
      cases n with
      | zero => cases ran
      | succ n => simpa [taken?] using tidy.moved placed (moved_of_looksAhead tidy.ordered rfl ran)
    | held | heldSpan =>
      obtain ⟨_, -, same⟩ := map_eq_ok.1 ran
      cases same
      simpa [taken?] using tidy
    | heldLine | lastCut =>
      cases ran
      simpa [taken?] using tidy

theorem attempt (tidy : reader.Tidy source out) {attempt : Attempt}
    (steady : attempt = .command .unread → ¬reader.Overreaches) :
    (reader.attempt attempt).Tidy source (out ++ (reader.taken? attempt).toList) := by
  rw [Reader.attempt]
  split
  next tried => exact tidy.outcome steady tried
  next fault fails =>
    have nothing : reader.taken? attempt = none := by
      unfold taken?
      split
      · cases fails
      · rfl
    simpa [nothing] using tidy

theorem attemptAll (tidy : reader.Tidy source out) {attempts : List Attempt}
    (steady : ∀ front, front ++ [.command .unread] <+: attempts →
      ¬(reader.attemptAll front).Overreaches) :
    (reader.attemptAll attempts).Tidy source (out ++ reader.takenAll attempts) := by
  induction attempts generalizing reader out with
  | nil => simpa [takenAll, Reader.attemptAll] using tidy
  | cons attempt attempts ih =>
    have first : attempt = .command .unread → ¬reader.Overreaches := by
      rintro rfl
      exact steady [] (List.prefix_append _ _)
    have further := ih (tidy.attempt first) fun front within =>
      steady (attempt :: front) (List.cons_prefix_cons.2 ⟨rfl, within⟩)
    rwa [List.append_assoc] at further

end Tidy

/-- A reader gets in front of the text it holds exactly if a step is undone while nothing is held.
Otherwise, at every moment the held text can be told and cut off, and the tokens taken stand one
behind the other. -/
theorem holds_iff_steady (source : Source) (attempts : List Attempt) :
    ((∀ front, front <+: attempts → ((ofSource source).attemptAll front).Holds) ∧
        InOrder ((ofSource source).takenAll attempts)) ↔
      ∀ front, front ++ [.command .unread] <+: attempts →
        ¬((ofSource source).attemptAll front).Overreaches := by
  constructor
  · rintro ⟨holds, -⟩ front within overreaches
    obtain ⟨after, undone, inFront⟩ :=
      ((placed_ofSource source).attemptAll front).unread_of_overreaches overreaches
    have same : (ofSource source).attemptAll (front ++ [.command .unread]) = after := by
      rw [Reader.attemptAll, List.foldl_concat, ← Reader.attemptAll, Reader.attempt, outcome, run,
        undone]
      rfl
    have ordered := (holds _ within).ordered
    rw [same] at ordered
    exact Nat.not_lt.2 ordered inFront
  · intro steady
    refine ⟨fun front within => ?_, ?_⟩
    · have tidy := (tidy_ofSource source).attemptAll fun others before =>
        steady others (before.trans within)
      exact tidy.placed.holds tidy.ordered
    · exact ((tidy_ofSource source).attemptAll steady).inOrder.front

/-- A character is read, and after it has been dropped the step over it is undone: no attempt is a
fault, but then the held text ends before it begins and cannot be told.  When it was cut off as a
token instead, it can be dropped in that state and then be cut off once more. -/
theorem holds_fails_behind_start :
    ∃ source, source = Source.ofText 0 "test.gs" "a" ∧
      (∃ after : Reader, [Attempt.command .read, .command .drop, .command .unread].foldlM outcome
          (ofSource source) = .ok after ∧
        after.point.offset < after.start.offset ∧ after.held = .error .badSlice ∧
        after.heldSpan = .error .heldReversed ∧
        ∀ kind, after.cut kind = .error .heldReversed) ∧
      ∃ attempts, attempts = [Attempt.command .read, .command (.cut .identifier),
          .command .unread, .command .drop, .command .read, .command (.cut .identifier),
          .command .take, .command .take] ∧
        (∃ after, attempts.foldlM outcome (ofSource source) = .ok after) ∧
        ((ofSource source).takenAll attempts).map
          (fun token => (token.span.start, token.span.stop)) = [(0, 1), (0, 1)] := by
  refine ⟨_, rfl, ⟨_, rfl, by decide, rfl, rfl, fun _ => rfl⟩, _, rfl, ⟨_, rfl⟩, rfl⟩

end Reader

end Offside
