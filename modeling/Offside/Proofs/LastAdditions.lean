import Mathlib.Data.List.Induction
import Offside.Proofs.NormalForms
import Offside.Store.Files

/-!
# Additions to a memory

What a memory answers depends on its additions through the normal forms of their paths only.  A read
gives what was added last under the normal form of its path, and an addition whose path has none
might as well not have been made.
-/

namespace Offside

namespace Memory

/-! ## Additions -/

namespace Addition

def names? (addition : Addition) : Option (List Path.Segment) :=
  addition.path.bind fun path => Path.resolve? path.toList

def form? (addition : Addition) : Option (List Char) :=
  addition.path.bind fun path => Path.normal? path.toList

theorem form?_eq (addition : Addition) : addition.form? = addition.names?.map Path.join := by
  cases path : addition.path <;> simp [form?, names?, path, Path.normal?]

theorem form?_eq_join_iff {path : List Char} {names : List Path.Segment}
    (resolved : Path.resolve? path = some names) (addition : Addition) :
    addition.form? = some (Path.join names) ↔ addition.names? = some names := by
  rw [form?_eq]
  constructor
  · intro same
    obtain ⟨others, found, joined⟩ := Option.map_eq_some_iff.1 same
    obtain ⟨text, -, other⟩ := Option.bind_eq_some_iff.1 found
    rw [found, Path.join_injective other resolved joined]
  · intro found
    rw [found, Option.map_some]

end Addition

theorem receive_of_form?_eq_none {addition : Addition} (formless : addition.form? = none)
    (memory : Memory) : memory.receive addition = memory := by
  rw [Addition.form?_eq, Option.map_eq_none_iff, Addition.names?] at formless
  rw [receive]
  split
  next path isPath =>
    rw [isPath, Option.bind_some] at formless
    rw [add, formless]
  next => rfl

/-- An addition changes what is found under the names of its path, and nothing else. -/
theorem find?_receive (memory : Memory) (addition : Addition) (names : List Path.Segment) :
    (memory.receive addition).find? names =
      if addition.names? = some names then some addition.content else memory.find? names := by
  rw [receive, Addition.names?]
  cases addition.path with
  | none => simp
  | some path =>
    cases resolved : Path.resolve? path.toList with
    | none => simp [add, resolved]
    | some others =>
      by_cases same : names = others
      · simp [add, resolved, find?, same]
      · have differ : (names == others) = false := beq_eq_false_iff_ne.2 same
        simp [add, resolved, find?, List.lookup_cons, differ, Ne.symm same]

theorem find?_ofAdditions (additions : List Addition) (names : List Path.Segment) :
    (ofAdditions additions).find? names =
      (additions.reverse.find? fun addition => addition.names? = some names).map
        Addition.content := by
  induction additions using List.reverseRecOn with
  | nil => rfl
  | append_singleton additions addition ih =>
    rw [ofAdditions, List.foldl_append, List.foldl_cons, List.foldl_nil, find?_receive,
      ← ofAdditions, ih, List.reverse_concat, List.find?_cons]
    by_cases here : addition.names? = some names <;> simp [here]

/-! ## Reads -/

/-- The content that was added last under a normal form. -/
inductive LastAdded (form : List Char) : List Addition → String → Prop where
  | last (before : List Addition) {addition : Addition} {after : List Addition}
      (isForm : addition.form? = some form) (noneLater : ∀ later ∈ after, later.form? ≠ some form) :
      LastAdded form (before ++ addition :: after) addition.content

variable {additions : List Addition} {path : List Char} {names : List Path.Segment}

theorem find?_eq_some_iff (resolved : Path.resolve? path = some names) {content : String} :
    (ofAdditions additions).find? names = some content ↔
      LastAdded (Path.join names) additions content := by
  rw [find?_ofAdditions, Option.map_eq_some_iff]
  constructor
  · rintro ⟨addition, found, rfl⟩
    obtain ⟨here, after, before, split, noneLater⟩ := List.find?_eq_some_iff_append.1 found
    have order : additions = before.reverse ++ addition :: after.reverse := by
      simpa using congrArg List.reverse split
    rw [order]
    refine .last _ ((addition.form?_eq_join_iff resolved).2 (by simpa using here)) ?_
    intro later member
    rw [Ne, later.form?_eq_join_iff resolved]
    simpa using noneLater later (List.mem_reverse.1 member)
  · rintro ⟨before, isForm, noneLater⟩
    refine ⟨_, List.find?_eq_some_iff_append.2 ⟨?_, _, before.reverse,
      by rw [List.reverse_append, List.reverse_cons, List.append_assoc]; rfl, ?_⟩, rfl⟩
    · simpa using (Addition.form?_eq_join_iff resolved _).1 isForm
    · intro later member
      have other := noneLater later (List.mem_reverse.1 member)
      rw [Ne, later.form?_eq_join_iff resolved] at other
      simpa using other

theorem find?_eq_none_iff (resolved : Path.resolve? path = some names) :
    (ofAdditions additions).find? names = none ↔
      ∀ addition ∈ additions, addition.form? ≠ some (Path.join names) := by
  simp [find?_ofAdditions, Addition.form?_eq_join_iff resolved]

/-- What a read of a path gives after additions. -/
inductive Answers (additions : List Addition) (path : String) :
    Except Failure (Handed String) → Prop where
  | escapes (escapes : Path.Escapes path.toList) :
      Answers additions path (.error (.io "Invalid path"))
  | found {form : List Char} {content : String} (isForm : Path.normal? path.toList = some form)
      (last : LastAdded form additions content) : Answers additions path (.ok ⟨content, true⟩)
  | missing {form : List Char} (isForm : Path.normal? path.toList = some form)
      (noneAdded : ∀ addition ∈ additions, addition.form? ≠ some form) :
      Answers additions path (.error (.io "File not found"))

theorem textAt_eq (memory : Memory) (path : String) :
    memory.store.textAt path =
      match Path.resolve? path.toList with
      | none => .error (.io "Invalid path")
      | some names =>
        match memory.find? names with
        | some content => .ok ⟨content, true⟩
        | none => .error (.io "File not found") := by
  change ((memory.read path).mapError ReadError.failure).map _ = _
  rw [read]
  cases Path.resolve? path.toList with
  | none => rfl
  | some names =>
    cases found : memory.find? names with
    | none =>
      simp only [found]
      rfl
    | some content => simp [found, Except.mapError, Except.map]

theorem textAt_eq_iff {path : String} {answer : Except Failure (Handed String)} :
    (ofAdditions additions).store.textAt path = answer ↔ Answers additions path answer := by
  rw [textAt_eq]
  constructor
  · rintro rfl
    cases resolved : Path.resolve? path.toList with
    | none => exact .escapes (Path.resolve?_eq_none_iff.1 resolved)
    | some names =>
      have isForm : Path.normal? path.toList = some (Path.join names) := by
        rw [Path.normal?, resolved, Option.map_some]
      cases found : (ofAdditions additions).find? names with
      | none =>
        simp only [found]
        exact .missing isForm ((find?_eq_none_iff resolved).1 found)
      | some content =>
        simp only [found]
        exact .found isForm ((find?_eq_some_iff resolved).1 found)
  · rintro (escapes | ⟨isForm, last⟩ | ⟨isForm, noneAdded⟩)
    · rw [Path.resolve?_eq_none_iff.2 escapes]
    · obtain ⟨names, resolved, rfl⟩ := Option.map_eq_some_iff.1 isForm
      simp only [resolved, (find?_eq_some_iff resolved).2 last]
    · obtain ⟨names, resolved, rfl⟩ := Option.map_eq_some_iff.1 isForm
      simp only [resolved, (find?_eq_none_iff resolved).2 noneAdded]

theorem bytesAt_eq (memory : Memory) (path : String) : memory.store.bytesAt path =
    (memory.store.textAt path).map fun text => ⟨text.value.toUTF8.data.toList, text.lent⟩ := by
  simp only [store]
  cases memory.read path <;> rfl

/-- A memory answers a read by what was added last under the normal form of its path.  That form
has the names left when each `..` has cancelled the name before it; a path without one leads out of
the root, and an addition under such a path changes nothing.  Bytes are those of the text, and a
path that goes on from another one goes on from its normal form. -/
theorem reads_last_added :
    (∀ additions path answer, (ofAdditions additions).store.textAt path = answer ↔
        Answers additions path answer) ∧
      (∀ before addition after, addition.form? = none →
        ofAdditions (before ++ addition :: after) = ofAdditions (before ++ after)) ∧
      (∀ memory : Memory, ∀ path, memory.store.bytesAt path =
        (memory.store.textAt path).map fun text => ⟨text.value.toUTF8.data.toList, text.lent⟩) ∧
      (∀ path form, Path.normal? path = some form ↔
        ∃ names, Path.Leaves path names ∧ Path.join names = form) ∧
      (∀ path other names others, Path.Leaves path names → Path.Leaves other others →
        Path.join names = Path.join others → names = others) ∧
      (∀ path, Path.normal? path = none ↔ Path.Escapes path) ∧
      (∀ path, (Path.normal? path).bind Path.normal? = Path.normal? path) ∧
      ∀ front back, Path.normal? (front ++ '/' :: back) =
        (Path.normal? front).bind fun form => Path.normal? (form ++ '/' :: back) := by
  refine ⟨fun _ _ _ => textAt_eq_iff, ?_, bytesAt_eq, fun _ _ => Path.normal?_eq_some_iff, ?_,
    fun _ => Path.normal?_eq_none_iff, Path.normal?_normal?, Path.normal?_append_slash⟩
  · intro before addition after formless
    rw [ofAdditions, List.foldl_append, List.foldl_cons, receive_of_form?_eq_none formless,
      ← List.foldl_append, ← ofAdditions]
  · intro path other names others leaves areLeft joined
    exact Path.join_injective (Path.resolve?_eq_some_iff.2 leaves)
      (Path.resolve?_eq_some_iff.2 areLeft) joined

/-- Of two additions under one normal form the later one is read, and one under a path that leads out
of the root makes no difference. -/
theorem reads_last_added_again :
    Addition.form? ⟨some "../b", "3"⟩ = none ∧
      ofAdditions [⟨some "a/../b", "1"⟩, ⟨some "./b", "2"⟩, ⟨some "../b", "3"⟩] =
        ofAdditions [⟨some "a/../b", "1"⟩, ⟨some "./b", "2"⟩] ∧
      (ofAdditions [⟨some "a/../b", "1"⟩, ⟨some "./b", "2"⟩]).store.textAt "x//../b" =
        .ok ⟨"2", true⟩ := by
  obtain ⟨reads, ignored, -⟩ := reads_last_added
  have formless : Addition.form? ⟨some "../b", "3"⟩ = none := by decide
  have isForm : Path.normal? "x//../b".toList = some ['b'] := by decide
  refine ⟨formless, ignored [_, _] _ [] formless, (reads _ _ _).2 ?_⟩
  exact .found isForm (.last [⟨some "a/../b", "1"⟩] (by decide) (by decide))

end Memory

end Offside
