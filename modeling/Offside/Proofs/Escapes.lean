import Mathlib.Algebra.Group.Nat.Even
import Mathlib.Data.List.Induction
import Offside.Text.Escape

/-!
# Escapes

Whether a character is escaped is told by the run of backslashes in front of it.  A text that ends
in an even number of backslashes ends between two escapes: each of its own is complete, and none
reaches into what comes behind.  Such a text and the one behind it can be resolved apart from each
other.
-/

namespace Offside.Text

/-! ## Runs of backslashes -/

def backslashes (text : List Char) : Nat := (text.reverse.takeWhile (· == '\\')).length

/-- Whether a character behind a text is escaped, if the first one of the text is not. -/
def escapes (text : List Char) : Bool := text.foldl (fun escaped c => !escaped && c == '\\') false

theorem backslashes_concat (text : List Char) (c : Char) :
    backslashes (text ++ [c]) = if c = '\\' then backslashes text + 1 else 0 := by
  by_cases isBackslash : c = '\\' <;> simp [backslashes, isBackslash]

theorem escapes_eq_false_iff (text : List Char) :
    escapes text = false ↔ Even (backslashes text) := by
  induction text using List.reverseRecOn with
  | nil => simp [escapes, backslashes]
  | append_singleton text c ih =>
    have step : escapes (text ++ [c]) = (!escapes text && c == '\\') := by
      simp [escapes]
    rw [step, backslashes_concat]
    by_cases isBackslash : c = '\\'
    · rw [if_pos isBackslash, Nat.even_add_one, ← ih]
      simp [isBackslash]
    · simp [isBackslash]

theorem escapes_plain {c : Char} (notBackslash : c ≠ '\\') (rest : List Char) :
    escapes (c :: rest) = escapes rest := by
  have plain : (c == '\\') = false := beq_eq_false_iff_ne.2 notBackslash
  simp [escapes, plain]

theorem escapes_escaped (c : Char) (rest : List Char) :
    escapes ('\\' :: c :: rest) = escapes rest := by
  simp [escapes]

/-! ## Between two escapes -/

theorem unescape_plain {c : Char} (notBackslash : c ≠ '\\') (rest : List Char) :
    unescape (c :: rest) = c :: unescape rest := by
  rw [unescape]
  · exact fun isBackslash _ => notBackslash isBackslash
  · exact fun _ _ isBackslash _ => notBackslash isBackslash

theorem isPlain_append (front back : List Char) :
    isPlain (front ++ back) = (isPlain front && isPlain back) := by
  simp [isPlain, Bool.decide_or]

/-- Where no character is left to be escaped, resolving goes on behind a text as it would begin
there. -/
theorem unescape_append {front : List Char} (between : escapes front = false)
    (back : List Char) : unescape (front ++ back) = unescape front ++ unescape back := by
  fun_induction unescape front with
  | case1 => rfl
  | case2 => cases between
  | case3 c rest ih =>
    -- An escape is taken off as a whole, so behind it the text is still cut between two escapes.
    rw [escapes_escaped] at between
    rw [List.cons_append, List.cons_append, unescape, ih between, List.append_assoc]
  | case4 c rest notAlone notEscape ih =>
    have notBackslash : c ≠ '\\' := by
      intro isBackslash
      cases rest with
      | nil => exact notAlone isBackslash rfl
      | cons d rest => exact notEscape d rest isBackslash rfl
    rw [escapes_plain notBackslash] at between
    rw [List.cons_append, unescape_plain notBackslash, ih between, List.cons_append]

/-- Behind an even number of backslashes, also none, a text can be cut in two and each part resolved
for itself.  The whole is the text that was given exactly if both parts are. -/
theorem resolve_append {front : List Char} (even : Even (backslashes front)) (back : List Char) :
    (resolve (front ++ back)).text = (resolve front).text ++ (resolve back).text ∧
      (resolve (front ++ back)).isGiven = ((resolve front).isGiven && (resolve back).isGiven) := by
  have between := (escapes_eq_false_iff front).2 even
  constructor
  · rw [text_resolve, text_resolve, text_resolve, unescape_append between]
  · rw [isGiven_resolve, isGiven_resolve, isGiven_resolve, isPlain_append]

/-- A cut behind an escaped backslash; the letter behind it is none that an escape needs. -/
theorem resolve_append_backslash :
    Even (backslashes ['a', '\\', '\\']) ∧
      resolve (['a', '\\', '\\'] ++ ['n']) = ⟨['a', '\\', 'n'], false⟩ ∧
      (resolve ['a', '\\', '\\']).text ++ (resolve ['n']).text = ['a', '\\', 'n'] := by
  have even : Even (backslashes ['a', '\\', '\\']) := by decide
  obtain ⟨text, isGiven⟩ := resolve_append even ['n']
  exact ⟨even, rfl, text.symm.trans rfl⟩

/-- An odd number of backslashes ends inside an escape. -/
example : unescape (['\\'] ++ ['n']) ≠ unescape ['\\'] ++ unescape ['n'] := by decide

end Offside.Text
