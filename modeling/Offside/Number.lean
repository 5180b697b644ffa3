import Offside.Text.Class

/-!
# Numerals

The value of a run of decimal digits, the numerals of signed 64-bit integers, and those of
floating-point numbers: an optional sign, then `inf`, `infinity` or `nan` in any case, or digits with
an optional point and an optional exponent, where at least one digit stands before or behind the
point and an exponent has a digit.

The value of a floating-point numeral is the binary number of 64 bits that is nearest to it, by exact
arithmetic on natural numbers.  Of two nearest ones the one with an even significand is taken; what
is too large becomes infinity, what is too small zero or a subnormal number.
-/

namespace Offside.Number

/-! ## Integers -/

def digitValue (c : Char) : Nat := c.toNat - '0'.toNat

def digitsValue (digits : List Char) : Nat :=
  digits.foldl (fun n c => 10 * n + digitValue c) 0

def maxInt64 : Int := 9223372036854775807

def minInt64 : Int := -9223372036854775808

def isDigits (text : List Char) : Bool := !text.isEmpty && text.all Text.isDigit

/-- An optional sign, and what follows it; the flag says that the sign is a minus. -/
def splitSign : List Char → Bool × List Char
  | '-' :: rest => (true, rest)
  | '+' :: rest => (false, rest)
  | text => (false, text)

/-- The value of a numeral, an optional sign and digits, if it is a signed 64-bit integer. -/
def int64? (text : List Char) : Option Int :=
  let (negative, digits) := splitSign text
  if isDigits digits then
    let size : Int := digitsValue digits
    let value := if negative then -size else size
    if minInt64 ≤ value ∧ value ≤ maxInt64 then some value else none
  else none

theorem digitsValue_concat (digits : List Char) (c : Char) :
    digitsValue (digits ++ [c]) = 10 * digitsValue digits + digitValue c := by
  simp [digitsValue]

theorem int64?_of_isDigits {digits : List Char} (h : isDigits digits = true) :
    int64? digits =
      if (digitsValue digits : Int) ≤ maxInt64 then some (digitsValue digits : Int) else none := by
  have noSign : splitSign digits = (false, digits) := by
    cases digits with
    | nil => rfl
    | cons c rest =>
      simp only [isDigits, List.isEmpty_cons, Bool.not_false, List.all_cons, Bool.true_and,
        Bool.and_eq_true] at h
      have hc := h.1
      unfold splitSign
      split
      next r heq =>
        obtain ⟨rfl, -⟩ := List.cons.inj heq
        exact absurd hc (by decide)
      next r heq =>
        obtain ⟨rfl, -⟩ := List.cons.inj heq
        exact absurd hc (by decide)
      next => rfl
  have low : minInt64 ≤ (digitsValue digits : Int) :=
    Int.le_trans (by decide) (Int.natCast_nonneg _)
  simp [int64?, noSign, h, low]

/-! ## Rounding to binary64 -/

/-- The quotient rounded to the nearest natural number, an exact half to the even neighbour. -/
def roundDiv (num den : Nat) : Nat :=
  let quotient := num / den
  let twice := 2 * (num % den)
  if twice < den then quotient
  else if den < twice then quotient + 1
  else if quotient % 2 = 0 then quotient else quotient + 1

/-- `num / den` divided by two to the power of `scale`, rounded. -/
def roundScaled (num den : Nat) (scale : Int) : Nat :=
  if 0 ≤ scale then roundDiv num (den * Nat.pow 2 scale.toNat)
  else roundDiv (num * Nat.pow 2 (-scale).toNat) den

/-- The exponent of the last place of a significand of 53 bits for `num / den`, not below the one
of the subnormal numbers. -/
def lastPlace (num den : Nat) : Int :=
  let guess : Int := (num.log2 : Int) - den.log2 - 52
  let small :=
    if 0 ≤ guess then decide (num < den * Nat.pow 2 (guess.toNat + 52))
    else decide (num * Nat.pow 2 (-guess).toNat < den * Nat.pow 2 52)
  max (if small then guess - 1 else guess) (-1074)

def infinityBits : Nat := 0x7ff * Nat.pow 2 52

/-- The bits of the number nearest to `num / den`.  Exponent and significand are added, so a
significand that rounds up to the next power of two carries into the exponent. -/
def nearestBits (num den : Nat) : Nat :=
  if num = 0 then 0
  else
    let place := lastPlace num den
    min ((place + 1074).toNat * Nat.pow 2 52 + roundScaled num den place) infinityBits

def decimalPlaces (n : Nat) : Nat := (Nat.toDigits 10 n).length

/-- The bits of the number nearest to `mantissa` times ten to the power of `exponent`.  A number
of more than 310 places before the point is infinite, and one that begins more than 330 places
behind it is zero, so no power beyond these is ever formed. -/
def decimalBits (mantissa : Nat) (exponent : Int) : Nat :=
  if mantissa = 0 then 0
  else
    let magnitude := decimalPlaces mantissa + exponent
    if 310 < magnitude then infinityBits
    else if magnitude < -330 then 0
    else if 0 ≤ exponent then nearestBits (mantissa * Nat.pow 10 exponent.toNat) 1
    else nearestBits mantissa (Nat.pow 10 (-exponent).toNat)

/-! ## Floating-point numerals -/

structure Scientific where
  mantissa : Nat
  exponent : Int
  deriving DecidableEq, Repr

def exponentPart? : List Char → Option Int
  | [] => some 0
  | c :: rest =>
    if c = 'e' ∨ c = 'E' then
      let (negative, digits) := splitSign rest
      if isDigits digits then
        let size : Int := digitsValue digits
        some (if negative then -size else size)
      else none
    else none

def fractionPart : List Char → List Char × List Char
  | '.' :: rest => (rest.takeWhile Text.isDigit, rest.dropWhile Text.isDigit)
  | text => ([], text)

def scientific? (text : List Char) : Option Scientific :=
  let whole := text.takeWhile Text.isDigit
  let (fraction, rest) := fractionPart (text.dropWhile Text.isDigit)
  if whole.isEmpty ∧ fraction.isEmpty then none
  else (exponentPart? rest).map fun exponent =>
    ⟨digitsValue (whole ++ fraction), exponent - fraction.length⟩

def magnitudeBits? (text : List Char) : Option Nat :=
  let lower := text.map Char.toLower
  if lower = ['i', 'n', 'f'] ∨ lower = ['i', 'n', 'f', 'i', 'n', 'i', 't', 'y'] then
    some infinityBits
  else if lower = ['n', 'a', 'n'] then some (infinityBits + Nat.pow 2 51)
  else (scientific? text).map fun s => decimalBits s.mantissa s.exponent

/-- The bits of a numeral; a minus sets the uppermost one, also where the numeral says that it is
not a number. -/
def floatBits? (text : List Char) : Option UInt64 :=
  let (negative, rest) := splitSign text
  (magnitudeBits? rest).map fun bits =>
    UInt64.ofNat (if negative then bits + Nat.pow 2 63 else bits)

/-- The floating-point number nearest to what a numeral says.  It does not tell the sign of what is
not a number; the bits do. -/
def float? (text : List Char) : Option Float := (floatBits? text).map Float.ofBits

end Offside.Number
