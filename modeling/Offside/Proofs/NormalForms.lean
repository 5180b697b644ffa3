import Mathlib.Logic.Relation
import Offside.Path

/-!
# Normal forms of paths

The normal form of a path can be reached by cancelling: a name and the `..` right behind it go,
wherever they stand, until only names are left.  Following the path from the root finds the same
names, and it fails exactly if some front of the path goes up more often than it goes down.
-/

namespace Offside.Path

/-! ## Cancelling -/

/-- A segment that is neither the place itself nor the one above. -/
structure IsName (segment : Segment) : Prop where
  notHere : isHere segment = false
  notUp : isUp segment = false

/-- A name and the `..` right behind it cancel each other. -/
inductive Cancels : List Segment → List Segment → Prop where
  | pair (front back : List Segment) {name : Segment} (isName : IsName name) :
      Cancels (front ++ name :: ['.', '.'] :: back) (front ++ back)

/-- The names that are left of a path when each `..` has cancelled the name before it. -/
structure Leaves (path : List Char) (names : List Segment) : Prop where
  cancels : Relation.ReflTransGen Cancels (components path) names
  areNames : ∀ name ∈ names, IsName name

/-- A path leads out of the root if some front of it has more `..` than names. -/
def Escapes (path : List Char) : Prop :=
  ∃ front, front <+: components path ∧ front.countP (fun s => !isUp s) < front.countP isUp

/-- The normal form of a path, which is a path again. -/
def normal? (path : List Char) : Option (List Char) := (resolve? path).map join

variable {path other : List Char} {segment : Segment} {place inner names others : List Segment}

theorem notHere_of_mem_components (member : segment ∈ components path) :
    isHere segment = false := by
  simpa using (List.mem_filter.1 member).2

theorem eq_up_of_isUp (up : isUp segment = true) : segment = ['.', '.'] := by
  simpa [isUp] using up

/-! ## Following a path -/

theorem follow_filter (place segments : List Segment) :
    follow place (segments.filter fun segment => !isHere segment) = follow place segments := by
  fun_induction follow place segments with
  | case1 => rfl
  | case2 place segment rest here ih => simp [here, ih]
  | case3 segment rest here up => simp [here, follow, up]
  | case4 segment rest here up name outer ih => simp [here, follow, up, ih]
  | case5 place segment rest here up ih => simp [here, follow, up, ih]

theorem resolve?_eq (path : List Char) :
    resolve? path = (follow [] (components path)).map List.reverse := by
  rw [resolve?, components, follow_filter]

theorem follow_names (place : List Segment) (areNames : ∀ name ∈ names, IsName name) :
    follow place names = some (names.reverse ++ place) := by
  induction names generalizing place with
  | nil => rfl
  | cons name names ih =>
    obtain ⟨isName, areNames⟩ := List.forall_mem_cons.1 areNames
    simp [follow, isName.notHere, isName.notUp, ih (name :: place) areNames]

theorem follow_pair {name : Segment} (isName : IsName name) (place back : List Segment) :
    follow place (name :: ['.', '.'] :: back) = follow place back := by
  have notHere : isHere ['.', '.'] = false := rfl
  have up : isUp ['.', '.'] = true := rfl
  simp [follow, isName.notHere, isName.notUp, notHere, up]

/-- What cancels makes no difference to where segments lead. -/
theorem Cancels.follow_eq {segments shorter : List Segment} (cancels : Cancels segments shorter)
    (place : List Segment) : follow place segments = follow place shorter := by
  obtain ⟨front, back, isName⟩ := cancels
  rw [follow_append, follow_append]
  exact congrArg _ (funext fun inner => follow_pair isName inner back)

theorem follow_of_cancels {segments : List Segment}
    (cancels : Relation.ReflTransGen Cancels segments names) (place : List Segment) :
    follow place segments = follow place names := by
  induction cancels with
  | refl => rfl
  | tail _ once ih => rw [ih, once.follow_eq]

/-- Each `..` that is followed cancels the name that leads to the place it is followed from. -/
theorem cancels_of_follow {segments : List Segment} (areNames : ∀ name ∈ place, IsName name)
    (noneHere : ∀ segment ∈ segments, isHere segment = false)
    (followed : follow place segments = some inner) :
    Relation.ReflTransGen Cancels (place.reverse ++ segments) inner.reverse ∧
      ∀ name ∈ inner, IsName name := by
  fun_induction follow place segments with
  | case1 place =>
    cases followed
    exact ⟨by rw [List.append_nil], areNames⟩
  | case2 place segment rest here => simp [here] at noneHere
  | case3 => cases followed
  | case4 segment rest here up name outer ih =>
    obtain ⟨isName, areNames⟩ := List.forall_mem_cons.1 areNames
    obtain ⟨further, inside⟩ := ih areNames (List.forall_mem_cons.1 noneHere).2 followed
    refine ⟨?_, inside⟩
    rw [eq_up_of_isUp up, List.reverse_cons, List.append_assoc, List.singleton_append]
    exact .head (.pair outer.reverse rest isName) further
  | case5 place segment rest here up ih =>
    have isName : IsName segment := ⟨by simpa using here, by simpa using up⟩
    have further := ih (List.forall_mem_cons.2 ⟨isName, areNames⟩)
      (List.forall_mem_cons.1 noneHere).2 followed
    rwa [List.reverse_cons, List.append_assoc] at further

/-- Following a path finds exactly the names that cancelling leaves. -/
theorem resolve?_eq_some_iff : resolve? path = some names ↔ Leaves path names := by
  rw [resolve?_eq]
  constructor
  · intro resolved
    obtain ⟨inner, followed, rfl⟩ := Option.map_eq_some_iff.1 resolved
    obtain ⟨cancels, areNames⟩ :=
      cancels_of_follow (by simp) (fun _ => notHere_of_mem_components) followed
    exact ⟨cancels, by simpa using areNames⟩
  · intro ⟨cancels, areNames⟩
    rw [follow_of_cancels cancels, follow_names [] areNames]
    simp

theorem exists_prefix_cons {holds : List Segment → Prop} {rest : List Segment} :
    (∃ front, front <+: segment :: rest ∧ holds front) ↔
      holds [] ∨ ∃ front, front <+: rest ∧ holds (segment :: front) := by
  simp only [List.prefix_cons_iff, or_and_right, exists_or, exists_eq_left]
  refine or_congr_right ⟨?_, ?_⟩
  · rintro ⟨-, ⟨front, rfl, within⟩, held⟩
    exact ⟨front, within, held⟩
  · rintro ⟨front, within, held⟩
    exact ⟨_, ⟨front, rfl, within⟩, held⟩

/-- From a place, segments lead out of the root if some front of them goes up more often than the
place is deep and that front goes down. -/
theorem follow_eq_none_iff {segments : List Segment}
    (noneHere : ∀ segment ∈ segments, isHere segment = false) :
    follow place segments = none ↔ ∃ front, front <+: segments ∧
      place.length + front.countP (fun s => !isUp s) < front.countP isUp := by
  fun_induction follow place segments with
  | case1 place => simp
  | case2 place segment rest here => simp [here] at noneHere
  | case3 segment rest here up =>
    exact iff_of_true rfl ⟨[segment], by simp, by simp [up]⟩
  | case4 segment rest here up name outer ih =>
    rw [ih (List.forall_mem_cons.1 noneHere).2, exists_prefix_cons, or_iff_right (by simp)]
    refine exists_congr fun front => and_congr_right fun _ => ?_
    simp only [List.countP_cons, List.length_cons, up]
    simp
    omega
  | case5 place segment rest here up ih =>
    rw [ih (List.forall_mem_cons.1 noneHere).2, exists_prefix_cons, or_iff_right (by simp)]
    refine exists_congr fun front => and_congr_right fun _ => ?_
    simp [up]
    omega

theorem resolve?_eq_none_iff : resolve? path = none ↔ Escapes path := by
  rw [resolve?_eq, Option.map_eq_none_iff,
    follow_eq_none_iff fun _ => notHere_of_mem_components]
  simp [Escapes]

/-! ## Normal forms as paths -/

theorem segments_of_notSlash (notSlash : '/' ∉ path) : segments path = [path] := by
  induction path with
  | nil => rfl
  | cons c rest ih =>
    rw [segments, if_neg (List.ne_of_not_mem_cons notSlash).symm,
      ih (List.not_mem_of_not_mem_cons notSlash)]

theorem notSlash_of_mem_segments (member : segment ∈ segments path) : '/' ∉ segment := by
  induction path generalizing segment with
  | nil => simp_all [segments]
  | cons c rest ih =>
    rw [segments] at member
    split at member
    next =>
      rcases List.mem_cons.1 member with rfl | further
      · simp
      · exact ih further
    next notSlash =>
      cases split : segments rest with
      | nil => exact absurd split (segments_ne_nil rest)
      | cons first others =>
        rw [split] at member ih
        rcases List.mem_cons.1 member with rfl | further
        · exact List.not_mem_cons_of_ne_of_not_mem (Ne.symm notSlash) (ih (.head _))
        · exact ih (.tail _ further)

theorem segments_join (nonempty : names ≠ []) (notSlash : ∀ name ∈ names, '/' ∉ name) :
    segments (join names) = names := by
  induction names with
  | nil => exact absurd rfl nonempty
  | cons name names ih =>
    obtain ⟨first, others⟩ := List.forall_mem_cons.1 notSlash
    cases names with
    | nil => exact segments_of_notSlash first
    | cons second names =>
      rw [join, segments_append_slash, segments_of_notSlash first, ih (by simp) others]
      · rfl
      · simp

theorem Leaves.sublist (leaves : Leaves path names) : names.Sublist (components path) := by
  obtain ⟨cancels, -⟩ := leaves
  induction cancels with
  | refl => exact .refl _
  | tail _ once ih =>
    obtain ⟨front, back, -⟩ := once
    exact ((List.sublist_append_right [_, ['.', '.']] back).append_left front).trans ih

theorem resolve?_join (resolved : resolve? path = some names) :
    resolve? (join names) = some names := by
  have leaves := resolve?_eq_some_iff.1 resolved
  have notSlash : ∀ name ∈ names, '/' ∉ name := fun name member =>
    notSlash_of_mem_segments (List.mem_filter.1 (leaves.sublist.mem member)).1
  -- The root has no names, but its path has one segment, which is empty.
  by_cases nonempty : names = []
  · rw [nonempty]
    rfl
  · rw [resolve?, segments_join nonempty notSlash, follow_names [] leaves.areNames]
    simp

theorem join_injective (resolved : resolve? path = some names)
    (others_resolved : resolve? other = some others) (same : join names = join others) :
    names = others := by
  have again := resolve?_join resolved
  rw [same, resolve?_join others_resolved] at again
  exact (Option.some.inj again).symm

theorem normal?_eq_some_iff {form : List Char} :
    normal? path = some form ↔ ∃ names, Leaves path names ∧ join names = form := by
  simp only [normal?, Option.map_eq_some_iff, resolve?_eq_some_iff]

theorem normal?_eq_none_iff : normal? path = none ↔ Escapes path := by
  rw [normal?, Option.map_eq_none_iff, resolve?_eq_none_iff]

theorem normal?_normal? (path : List Char) : (normal? path).bind normal? = normal? path := by
  rw [normal?]
  cases resolved : resolve? path with
  | none => rfl
  | some names => rw [Option.map_some, Option.bind_some, normal?, resolve?_join resolved]; rfl

theorem resolve?_append_slash (front back : List Char) :
    resolve? (front ++ '/' :: back) = (resolve? front).bind fun names =>
      (follow names.reverse (segments back)).map List.reverse := by
  rw [resolve?, segments_append_slash, follow_append, resolve?]
  cases follow [] (segments front) with
  | none => rfl
  | some place => rw [Option.bind_some, Option.map_some, Option.bind_some, List.reverse_reverse]

theorem normal?_append_slash (front back : List Char) :
    normal? (front ++ '/' :: back) =
      (normal? front).bind fun form => normal? (form ++ '/' :: back) := by
  rw [normal?, normal?, resolve?_append_slash]
  cases resolved : resolve? front with
  | none => rfl
  | some names =>
    rw [Option.map_some, Option.bind_some, Option.bind_some, normal?, resolve?_append_slash,
      resolve?_join resolved, Option.bind_some]

example : normal? ['a', '/', '.', '/', 'b', '/', '/', '.', '.', '/', 'c'] =
    some ['a', '/', 'c'] := by decide

end Offside.Path
