/-!
# Escapes in string literals

Inside a literal a backslash and the character behind it form one unit.  Seven units stand for
another character; every other one, and a backslash with nothing behind it, stands for itself.
-/

namespace Offside.Text

def escaped? (c : Char) : Option Char :=
  if c = 'n' then some '\n'
  else if c = 'r' then some '\r'
  else if c = 't' then some '\t'
  else if c = '0' then some '\x00'
  else if c = '\\' then some '\\'
  else if c = '\"' then some '\"'
  else if c = '\'' then some '\''
  else none

/-- What a backslash and `c` stand for: one character, or both of them as written. -/
def escapeMeaning (c : Char) : List Char :=
  match escaped? c with
  | some d => [d]
  | none => ['\\', c]

def unescape : List Char → List Char
  | [] => []
  | ['\\'] => ['\\']
  | '\\' :: c :: rest => escapeMeaning c ++ unescape rest
  | c :: rest => c :: unescape rest

/-- Whether resolving leaves the text as it is because nothing in it begins an escape. -/
def isPlain (text : List Char) : Bool := !text.contains '\\'

structure Resolved where
  text : List Char
  /-- Whether this is the text that was given, and none had to be made. -/
  isGiven : Bool
  deriving DecidableEq, Repr

def resolve (text : List Char) : Resolved :=
  if isPlain text then ⟨text, true⟩ else ⟨unescape text, false⟩

theorem unescape_of_isPlain {text : List Char} (h : isPlain text = true) :
    unescape text = text := by
  induction text with
  | nil => rfl
  | cons c rest ih =>
    have hc : c ≠ '\\' := by
      rintro rfl
      simp [isPlain] at h
    have hrest : isPlain rest = true := by
      simp only [isPlain, List.contains_cons, Bool.not_or, Bool.and_eq_true] at h ⊢
      exact h.2
    rw [unescape, ih hrest]
    · intro hslash; exact absurd hslash hc
    · intro d tail hslash; exact absurd hslash hc

theorem text_resolve (text : List Char) : (resolve text).text = unescape text := by
  rw [resolve]
  split
  next plain => exact (unescape_of_isPlain plain).symm
  next => rfl

theorem isGiven_resolve (text : List Char) : (resolve text).isGiven = isPlain text := by
  rw [resolve]
  split <;> simp_all

end Offside.Text
