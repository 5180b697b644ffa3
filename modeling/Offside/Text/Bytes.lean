/-!
# Byte offsets into a text

Offsets count the bytes of the UTF-8 form.  A text is a list of characters here; an offset that
falls inside a character or beyond the end belongs to no position of it.
-/

namespace Offside.Text

/-- Number of bytes of the UTF-8 form. -/
def width : List Char → Nat
  | [] => 0
  | c :: rest => c.utf8Size + width rest

@[simp] theorem width_nil : width [] = 0 := rfl

@[simp] theorem width_cons (c : Char) (rest : List Char) :
    width (c :: rest) = c.utf8Size + width rest := rfl

@[simp] theorem width_append (xs ys : List Char) : width (xs ++ ys) = width xs + width ys := by
  induction xs with
  | nil => simp
  | cons c xs ih => simp [ih, Nat.add_assoc]

theorem width_eq_size_utf8Encode (text : List Char) : width text = text.utf8Encode.size := by
  induction text with
  | nil => simp
  | cons c rest ih =>
    rw [List.utf8Encode_cons, ByteArray.size_append, width_cons, ih, List.utf8Encode_singleton]
    simp

theorem width_toList (s : String) : width s.toList = s.utf8ByteSize := by
  rw [width_eq_size_utf8Encode, ← String.toByteArray_ofList, String.ofList_toList]
  rfl

/-- What is left behind the first `n` bytes, if a character ends there. -/
def dropBytes? : List Char → Nat → Option (List Char)
  | text, 0 => some text
  | [], _ + 1 => none
  | c :: rest, n + 1 => if c.utf8Size ≤ n + 1 then dropBytes? rest (n + 1 - c.utf8Size) else none

/-- The first `n` bytes as text, if a character ends there. -/
def takeBytes? : List Char → Nat → Option (List Char)
  | _, 0 => some []
  | [], _ + 1 => none
  | c :: rest, n + 1 =>
    if c.utf8Size ≤ n + 1 then (takeBytes? rest (n + 1 - c.utf8Size)).map (c :: ·) else none

/-- Whether a character starts or the text ends at byte `n`. -/
def isBoundary (text : List Char) (n : Nat) : Bool := (dropBytes? text n).isSome

def slice? (text : List Char) (start stop : Nat) : Option (List Char) :=
  if start ≤ stop then (dropBytes? text start).bind (takeBytes? · (stop - start)) else none

@[simp] theorem dropBytes?_zero (text : List Char) : dropBytes? text 0 = some text := by
  cases text <;> rfl

@[simp] theorem takeBytes?_zero (text : List Char) : takeBytes? text 0 = some [] := by
  cases text <;> rfl

@[simp] theorem dropBytes?_append (xs ys : List Char) :
    dropBytes? (xs ++ ys) (width xs) = some ys := by
  induction xs with
  | nil => simp
  | cons c xs ih =>
    have pos := c.utf8Size_pos
    obtain ⟨k, hk⟩ : ∃ k, c.utf8Size + width xs = k + 1 := ⟨c.utf8Size + width xs - 1, by omega⟩
    rw [List.cons_append, width_cons, hk, dropBytes?, if_pos (by omega)]
    rw [show k + 1 - c.utf8Size = width xs by omega, ih]

@[simp] theorem takeBytes?_append (xs ys : List Char) :
    takeBytes? (xs ++ ys) (width xs) = some xs := by
  induction xs with
  | nil => simp
  | cons c xs ih =>
    have pos := c.utf8Size_pos
    obtain ⟨k, hk⟩ : ∃ k, c.utf8Size + width xs = k + 1 := ⟨c.utf8Size + width xs - 1, by omega⟩
    rw [List.cons_append, width_cons, hk, takeBytes?, if_pos (by omega)]
    rw [show k + 1 - c.utf8Size = width xs by omega, ih, Option.map_some]

theorem eq_append_of_dropBytes? {text rest : List Char} {n : Nat}
    (h : dropBytes? text n = some rest) : ∃ front, text = front ++ rest ∧ width front = n := by
  fun_induction dropBytes? text n with
  | case1 text => exact ⟨[], by simp_all⟩
  | case2 => simp at h
  | case3 c tail n fits ih =>
    obtain ⟨front, rfl, hw⟩ := ih h
    exact ⟨c :: front, rfl, by simp only [width_cons, hw]; omega⟩
  | case4 => simp at h

theorem eq_append_of_takeBytes? {text front : List Char} {n : Nat}
    (h : takeBytes? text n = some front) : ∃ rest, text = front ++ rest ∧ width front = n := by
  fun_induction takeBytes? text n generalizing front with
  | case1 text =>
    cases h
    exact ⟨text, rfl, rfl⟩
  | case2 => simp at h
  | case3 c tail n fits ih =>
    obtain ⟨taken, within, rfl⟩ := Option.map_eq_some_iff.1 h
    obtain ⟨rest, rfl, hw⟩ := ih within
    exact ⟨rest, rfl, by simp only [width_cons, hw]; omega⟩
  | case4 => simp at h

/-- An offset is a boundary exactly if the text splits there. -/
theorem isBoundary_iff {text : List Char} {n : Nat} :
    isBoundary text n = true ↔ ∃ front rest, text = front ++ rest ∧ width front = n := by
  constructor
  · intro h
    obtain ⟨rest, hrest⟩ := Option.isSome_iff_exists.1 h
    obtain ⟨front, rfl, hw⟩ := eq_append_of_dropBytes? hrest
    exact ⟨front, rest, rfl, hw⟩
  · rintro ⟨front, rest, rfl, rfl⟩
    simp [isBoundary]

theorem slice?_append (xs ys zs : List Char) :
    slice? (xs ++ ys ++ zs) (width xs) (width xs + width ys) = some ys := by
  simp [slice?, List.append_assoc]

theorem eq_append_of_slice? {text inside : List Char} {start stop : Nat}
    (h : slice? text start stop = some inside) :
    ∃ front rest, text = front ++ inside ++ rest ∧ width front = start ∧
      width (front ++ inside) = stop := by
  rw [slice?] at h
  split at h
  · obtain ⟨behind, dropped, taken⟩ := Option.bind_eq_some_iff.1 h
    obtain ⟨front, rfl, hfront⟩ := eq_append_of_dropBytes? dropped
    obtain ⟨rest, rfl, hinside⟩ := eq_append_of_takeBytes? taken
    refine ⟨front, rest, (List.append_assoc front inside rest).symm, hfront, ?_⟩
    rw [width_append]
    omega
  · cases h

end Offside.Text
