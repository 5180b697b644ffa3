import Offside.Token.Kind
import Mathlib.Data.List.Basic

/-!
# The grammar of streams

In a stream without empty lines every line has content: dedents and perhaps an indent stand in front
of it, and the end of the line behind it.  Behind the last line come dedents and the end of the
stream.  A walk over the kinds, one after the other, tells whether a stream is of this form.
-/

namespace Offside

/-- Lines with content: each one is `dedent* indent? content+ newline`. -/
inductive Lines : List Kind → Prop where
  | nil : Lines []
  | cons {opened content rest : List Kind} (closed : Nat) (opens : opened = [] ∨ opened = [.indent])
      (nonempty : content ≠ []) (isContent : ∀ kind ∈ content, kind.isContent = true)
      (further : Lines rest) :
      Lines (List.replicate closed .dedent ++ (opened ++ (content ++ .newline :: rest)))

/-- Lines with content, then the end of all blocks and of the stream. -/
def FullLines (kinds : List Kind) : Prop :=
  ∃ lines closed, Lines lines ∧ kinds = lines ++ (List.replicate closed .dedent ++ [.eof])

/-! ## Walking over kinds -/

/-- Where a walk stands. -/
inductive Standing where
  /-- In front of the content of a line, with no block just opened. -/
  | front
  /-- Behind an indent. -/
  | opened
  | inside
  | ended
  deriving DecidableEq, Repr

namespace Standing

def after? : Standing → Kind → Option Standing
  | front, .dedent => some front
  | front, .indent => some opened
  | front, .eof => some ended
  | inside, .newline => some front
  | ended, _ => none
  | _, kind => if kind.isContent then some inside else none

theorem after?_content {standing : Standing} {kind : Kind} (running : standing ≠ ended)
    (isContent : kind.isContent = true) : standing.after? kind = some inside := by
  cases standing with
  | ended => exact absurd rfl running
  | front | opened | inside =>
    cases kind with
    | newline | indent | dedent | eof => cases isContent
    | _ => rfl

theorem after?_newline {standing next : Standing} (h : standing.after? .newline = some next) :
    next = front := by
  cases standing with
  | inside => exact (Option.some.inj h).symm
  | front | opened | ended => cases h

def walk : Standing → List Kind → Option Standing
  | standing, [] => some standing
  | standing, kind :: kinds => (standing.after? kind).bind fun next => next.walk kinds

theorem walk_append (standing : Standing) (xs ys : List Kind) :
    standing.walk (xs ++ ys) = (standing.walk xs).bind fun next => next.walk ys := by
  induction xs generalizing standing with
  | nil => rfl
  | cons kind xs ih =>
    rw [List.cons_append, walk, walk]
    cases standing.after? kind with
    | none => rfl
    | some next => exact ih next

theorem walk_cons {standing next : Standing} {kind : Kind} (kinds : List Kind)
    (h : standing.after? kind = some next) : standing.walk (kind :: kinds) = next.walk kinds := by
  rw [walk, h]
  rfl

@[simp] theorem walk_dedents (count : Nat) (kinds : List Kind) :
    front.walk (List.replicate count .dedent ++ kinds) = front.walk kinds := by
  induction count with
  | zero => rfl
  | succ count ih => exact ih

theorem walk_content {standing : Standing} {content : List Kind} (kinds : List Kind)
    (running : standing ≠ ended) (nonempty : content ≠ [])
    (isContent : ∀ kind ∈ content, kind.isContent = true) :
    standing.walk (content ++ kinds) = inside.walk kinds := by
  induction content generalizing standing with
  | nil => exact absurd rfl nonempty
  | cons kind content ih =>
    obtain ⟨first, others⟩ := List.forall_mem_cons.1 isContent
    rw [List.cons_append, walk_cons _ (after?_content running first)]
    cases content with
    | nil => rfl
    | cons next content => exact ih (by simp) (by simp) others

/-! ## What a walk accepts -/

theorem walk_lines {lines : List Kind} (isLines : Lines lines) (kinds : List Kind) :
    front.walk (lines ++ kinds) = front.walk kinds := by
  induction isLines with
  | nil => rfl
  | cons closed opens nonempty isContent _ ih =>
    simp only [List.append_assoc, List.cons_append, walk_dedents]
    cases opens with
    | inl none =>
      subst none
      rw [List.nil_append, walk_content _ (by simp) nonempty isContent]
      exact ih
    | inr one =>
      subst one
      rw [List.cons_append, List.nil_append, walk_cons _ rfl,
        walk_content _ (by simp) nonempty isContent]
      exact ih

theorem of_walk_inside {kinds : List Kind} (h : inside.walk kinds = some ended) :
    ∃ content rest, kinds = content ++ .newline :: rest ∧
      (∀ kind ∈ content, kind.isContent = true) ∧ front.walk rest = some ended := by
  induction kinds with
  | nil => cases h
  | cons kind kinds ih =>
    by_cases isContent : kind.isContent = true
    · rw [walk_cons _ (after?_content (by simp) isContent)] at h
      obtain ⟨content, rest, rfl, others, behind⟩ := ih h
      exact ⟨kind :: content, rest, rfl, List.forall_mem_cons.2 ⟨isContent, others⟩, behind⟩
    · cases kind with
      | newline => exact ⟨[], kinds, rfl, by simp, h⟩
      | indent | dedent | eof => cases h
      | _ => exact absurd rfl isContent

theorem of_walk_opened {kinds : List Kind} (h : opened.walk kinds = some ended) :
    ∃ content rest, kinds = content ++ .newline :: rest ∧ content ≠ [] ∧
      (∀ kind ∈ content, kind.isContent = true) ∧ front.walk rest = some ended := by
  cases kinds with
  | nil => cases h
  | cons kind kinds =>
    by_cases isContent : kind.isContent = true
    · rw [walk_cons _ (after?_content (by simp) isContent)] at h
      obtain ⟨content, rest, rfl, others, behind⟩ := of_walk_inside h
      exact ⟨kind :: content, rest, rfl, by simp, List.forall_mem_cons.2 ⟨isContent, others⟩,
        behind⟩
    · cases kind with
      | newline | indent | dedent | eof => cases h
      | _ => exact absurd rfl isContent

theorem walk_ended {kinds : List Kind} (h : ended.walk kinds = some ended) : kinds = [] := by
  cases kinds with
  | nil => rfl
  | cons kind kinds => cases h

theorem of_walk_front {kinds : List Kind} (h : front.walk kinds = some ended) :
    ∃ closed behind, kinds = List.replicate closed .dedent ++ behind ∧
      (behind = [.eof] ∨ ∃ opened content rest, (opened = [] ∨ opened = [.indent]) ∧
        behind = opened ++ (content ++ .newline :: rest) ∧ content ≠ [] ∧
        (∀ kind ∈ content, kind.isContent = true) ∧ front.walk rest = some ended) := by
  induction kinds with
  | nil => cases h
  | cons kind kinds ih =>
    by_cases isContent : kind.isContent = true
    · rw [walk_cons _ (after?_content (by simp) isContent)] at h
      obtain ⟨content, rest, rfl, others, behind⟩ := of_walk_inside h
      exact ⟨0, _, rfl, .inr ⟨[], kind :: content, rest, .inl rfl, rfl, by simp,
        List.forall_mem_cons.2 ⟨isContent, others⟩, behind⟩⟩
    · cases kind with
      | dedent =>
        obtain ⟨closed, behind, rfl, further⟩ := ih h
        exact ⟨closed + 1, behind, rfl, further⟩
      | indent =>
        obtain ⟨content, rest, rfl, nonempty, others, behind⟩ := of_walk_opened h
        exact ⟨0, _, rfl, .inr ⟨[.indent], content, rest, .inr rfl, rfl, nonempty, others, behind⟩⟩
      | eof =>
        obtain rfl := walk_ended h
        exact ⟨0, _, rfl, .inl rfl⟩
      | newline => cases h
      | _ => exact absurd rfl isContent

theorem fullLines_of_walk {kinds : List Kind} (h : front.walk kinds = some ended) :
    FullLines kinds := by
  obtain ⟨closed, behind, split, last | line⟩ := of_walk_front h
  · exact ⟨[], closed, .nil, by rw [split, last, List.nil_append]⟩
  · obtain ⟨opened, content, rest, opens, whole, nonempty, isContent, further⟩ := line
    have shorter : rest.length < kinds.length := by
      rw [split, whole]
      simp only [List.length_append, List.length_cons]
      omega
    obtain ⟨lines, others, isLines, ending⟩ := fullLines_of_walk further
    refine ⟨_, others, .cons closed opens nonempty isContent isLines, ?_⟩
    rw [split, whole, ending]
    simp
termination_by kinds.length

/-- The streams of full lines are those that a walk accepts. -/
theorem walk_eq_ended_iff {kinds : List Kind} :
    front.walk kinds = some ended ↔ FullLines kinds := by
  constructor
  · intro h
    exact fullLines_of_walk h
  · rintro ⟨lines, closed, isLines, rfl⟩
    rw [walk_lines isLines, walk_dedents]
    rfl

end Standing

instance : DecidablePred FullLines := fun _ => decidable_of_iff _ Standing.walk_eq_ended_iff

end Offside
