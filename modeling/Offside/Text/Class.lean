import Offside.Text.Alphabetic
import Offside.Text.Numeric
import Offside.Text.Extending
import Offside.Text.Invisible

/-!
# Character classes

The classes a lexer and a printer of source text ask for.  Below U+0080 every class is a plain
rule, so closed facts about ASCII characters reduce; beyond it a table of ranges decides.
-/

namespace Offside.Text

/-- Membership in a list of closed ranges that are in ascending order. -/
def inRanges : List (Nat × Nat) → Nat → Bool
  | [], _ => false
  | (low, high) :: rest, n => low ≤ n && (n ≤ high || inRanges rest n)

def isDigit (c : Char) : Bool := '0' ≤ c && c ≤ '9'

def isAsciiLetter (c : Char) : Bool := ('a' ≤ c && c ≤ 'z') || ('A' ≤ c && c ≤ 'Z')

/-- The characters with the Unicode property Alphabetic. -/
def isAlphabetic (c : Char) : Bool :=
  if c.toNat < 128 then isAsciiLetter c else inRanges alphabeticRanges c.toNat

/-- The characters of the general categories Nd, Nl and No. -/
def isNumeric (c : Char) : Bool :=
  if c.toNat < 128 then isDigit c else inRanges numericRanges c.toNat

def isAlphanumeric (c : Char) : Bool := isAlphabetic c || isNumeric c

/-- The characters with the Unicode property White_Space. -/
def isBlank (c : Char) : Bool :=
  let n := c.toNat
  n == 0x20 || (0x09 ≤ n && n ≤ 0x0d) || n == 0x85 || n == 0xa0 || n == 0x1680 ||
    (0x2000 ≤ n && n ≤ 0x200a) || n == 0x2028 || n == 0x2029 || n == 0x202f || n == 0x205f ||
    n == 0x3000

def isMargin (c : Char) : Bool := c == ' ' || c == '\t'

def isBreak (c : Char) : Bool := c == '\n' || c == '\r'

def isControl (c : Char) : Bool :=
  let n := c.toNat
  n < 0x20 || (0x7f ≤ n && n ≤ 0x9f)

/-- The halfwidth sound marks: the letters with the Unicode property Grapheme_Extend.  Unlike all
else with that property they stand in a place of their own. -/
def isSoundMark (c : Char) : Bool :=
  let n := c.toNat
  n == 0xff9e || n == 0xff9f

/-- The Hangul fillers: the letters with the Unicode property Default_Ignorable_Code_Point.  Unlike
all other letters they show nothing. -/
def isFiller (c : Char) : Bool :=
  let n := c.toNat
  n == 0x115f || n == 0x1160 || n == 0x3164 || n == 0xffa0

/-- The characters that attach to the one before: those with the Unicode property Grapheme_Extend
that are no letters. -/
def isExtending (c : Char) : Bool := inRanges extendingRanges c.toNat && !isSoundMark c

/-- The characters with a shape of their own, and the plain space. -/
def isVisible (c : Char) : Bool :=
  if c.toNat < 128 then 0x20 ≤ c.toNat && c.toNat < 0x7f
  else !(inRanges invisibleRanges c.toNat || isFiller c)

def isNameStart (c : Char) : Bool := c == '_' || isAlphabetic c

def isNamePart (c : Char) : Bool := c == '_' || isAlphanumeric c

theorem isNamePart_of_isNameStart {c : Char} (h : isNameStart c = true) : isNamePart c = true := by
  simp only [isNameStart, Bool.or_eq_true] at h
  simp only [isNamePart, isAlphanumeric, Bool.or_eq_true]
  rcases h with h | h
  · exact .inl h
  · exact .inr (.inl h)

theorem toNat_of_isDigit {c : Char} (h : isDigit c = true) : 48 ≤ c.toNat ∧ c.toNat ≤ 57 := by
  simpa [isDigit, Char.le_def, UInt32.le_iff_toNat_le] using h

theorem not_isNameStart_of_isDigit {c : Char} (h : isDigit c = true) : isNameStart c = false := by
  obtain ⟨low, high⟩ := toNat_of_isDigit h
  have ascii : c.toNat < 128 := by omega
  simp only [isNameStart, isAlphabetic, ascii, if_true, isAsciiLetter, Bool.or_eq_false_iff,
    Bool.and_eq_false_iff, decide_eq_false_iff_not, Char.le_def, UInt32.le_iff_toNat_le,
    beq_eq_false_iff_ne]
  refine ⟨?_, .inl ?_, .inl ?_⟩
  · rintro rfl
    exact absurd h (by decide)
  · show ¬ (97 ≤ c.toNat)
    omega
  · show ¬ (65 ≤ c.toNat)
    omega

theorem isBlank_of_isBreak {c : Char} (h : isBreak c = true) : isBlank c = true := by
  simp only [isBreak, Bool.or_eq_true, beq_iff_eq] at h
  rcases h with rfl | rfl <;> rfl

theorem isBlank_of_isMargin {c : Char} (h : isMargin c = true) : isBlank c = true := by
  simp only [isMargin, Bool.or_eq_true, beq_iff_eq] at h
  rcases h with rfl | rfl <;> rfl

theorem not_isBreak_of_isMargin {c : Char} (h : isMargin c = true) : isBreak c = false := by
  simp only [isMargin, Bool.or_eq_true, beq_iff_eq] at h
  rcases h with rfl | rfl <;> rfl

end Offside.Text
