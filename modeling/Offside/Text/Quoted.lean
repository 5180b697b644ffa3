import Offside.Text.Class

/-!
# Quoted text

The printed form of a text between double quotes.  A backslash begins an escape: a letter for the
usual control characters, `x` and two digits for the other ASCII ones, `u` and four digits for
the control characters above.  A reader beside the printer takes the form apart again.

A literal is the form in which a character or a text is shown to a programmer: with escapes for the
quotes, for the usual control characters, and, by code point, for all characters that would not
show.
-/

namespace Offside.Text

/-! ## Hexadecimal numerals -/

def hexDigit (n : Nat) : Char :=
  if n < 10 then Char.ofNat ('0'.toNat + n) else Char.ofNat ('a'.toNat + (n - 10))

def hexValue? (c : Char) : Option Nat :=
  if '0' ≤ c ∧ c ≤ '9' then some (c.toNat - '0'.toNat)
  else if 'a' ≤ c ∧ c ≤ 'f' then some (c.toNat - 'a'.toNat + 10)
  else none

/-- The last `places` digits of `n`, leading zeros included. -/
def hexPadded : (places n : Nat) → List Char
  | 0, _ => []
  | places + 1, n => hexPadded places (n / 16) ++ [hexDigit (n % 16)]

/-- Number of digits of `n` without leading zeros; zero has one. -/
def hexPlaces (n : Nat) : Nat := n.log2 / 4 + 1

def hexNumeral (n : Nat) : List Char := hexPadded (hexPlaces n) n

def hexRead? (digits : List Char) : Option Nat :=
  digits.foldlM (fun n c => (hexValue? c).map (16 * n + ·)) 0

theorem hexValue?_hexDigit {n : Nat} (h : n < 16) : hexValue? (hexDigit n) = some n := by
  revert n
  decide

theorem hexRead?_hexPadded {places n : Nat} (h : n < Nat.pow 16 places) :
    hexRead? (hexPadded places n) = some n := by
  replace h : n < 16 ^ places := h
  induction places generalizing n with
  | zero => simp_all [hexRead?, hexPadded]
  | succ places ih =>
    have fits : n / 16 < 16 ^ places := by
      rw [Nat.div_lt_iff_lt_mul (by omega)]
      rwa [Nat.pow_succ] at h
    have last := hexValue?_hexDigit (Nat.mod_lt n (by omega : 16 > 0))
    have front := ih fits
    unfold hexRead? at front ⊢
    rw [hexPadded, List.foldlM_append, front]
    simp [last, Nat.div_add_mod]

/-! ## Quoted text -/

/-- The letter that stands for a character behind a backslash, if it has one. -/
def quoteLetter? (c : Char) : Option Char :=
  if c = '\x07' then some 'a'
  else if c = '\x08' then some 'b'
  else if c = '\x0c' then some 'f'
  else if c = '\n' then some 'n'
  else if c = '\r' then some 'r'
  else if c = '\t' then some 't'
  else if c = '\x0b' then some 'v'
  else if c = '\\' then some '\\'
  else if c = '\"' then some '\"'
  else none

def quotedBy? (letter : Char) : Option Char :=
  if letter = 'a' then some '\x07'
  else if letter = 'b' then some '\x08'
  else if letter = 'f' then some '\x0c'
  else if letter = 'n' then some '\n'
  else if letter = 'r' then some '\r'
  else if letter = 't' then some '\t'
  else if letter = 'v' then some '\x0b'
  else if letter = '\\' then some '\\'
  else if letter = '\"' then some '\"'
  else none

def quoteChar (c : Char) : List Char :=
  match quoteLetter? c with
  | some letter => ['\\', letter]
  | none =>
    if isControl c then
      if c.toNat < 0x80 then '\\' :: 'x' :: hexPadded 2 c.toNat
      else '\\' :: 'u' :: hexPadded 4 c.toNat
    else [c]

def quoteBody (text : List Char) : List Char := text.flatMap quoteChar

def quote (text : List Char) : List Char := '\"' :: (quoteBody text ++ ['\"'])

/-- Reads the inside of quotes up to the closing quote and returns the text with what follows. -/
def unquoteBody? : List Char → Option (List Char × List Char)
  | [] => none
  | '\"' :: rest => some ([], rest)
  | '\\' :: 'x' :: a :: b :: rest => do
    let n ← hexRead? [a, b]
    let (text, rest) ← unquoteBody? rest
    return (Char.ofNat n :: text, rest)
  | '\\' :: 'u' :: a :: b :: c :: d :: rest => do
    let n ← hexRead? [a, b, c, d]
    let (text, rest) ← unquoteBody? rest
    return (Char.ofNat n :: text, rest)
  | '\\' :: letter :: rest => do
    let c ← quotedBy? letter
    let (text, rest) ← unquoteBody? rest
    return (c :: text, rest)
  | c :: rest => do
    let (text, rest) ← unquoteBody? rest
    return (c :: text, rest)

def unquote? : List Char → Option (List Char)
  | '\"' :: body =>
    match unquoteBody? body with
    | some (text, []) => some text
    | _ => none
  | _ => none

@[simp] theorem quoteBody_nil : quoteBody [] = [] := rfl

@[simp] theorem quoteBody_cons (c : Char) (rest : List Char) :
    quoteBody (c :: rest) = quoteChar c ++ quoteBody rest := rfl

/-! ## Literals -/

def codePoint (c : Char) : List Char := ['\\', 'u', '\x7b'] ++ hexNumeral c.toNat ++ ['\x7d']

/-- One character inside a literal that stands between the given quotes; the other kind of quote
needs no escape. -/
def literalChar (quote c : Char) : List Char :=
  if c = '\x00' then ['\\', '0']
  else if c = '\t' then ['\\', 't']
  else if c = '\r' then ['\\', 'r']
  else if c = '\n' then ['\\', 'n']
  else if c = '\\' ∨ c = quote then ['\\', c]
  else if isExtending c then codePoint c
  else if isVisible c then [c]
  else codePoint c

def charLiteral (c : Char) : String :=
  String.ofList ('\'' :: (literalChar '\'' c ++ ['\'']))

def textLiteral (text : String) : String :=
  String.ofList ('\"' :: (text.toList.flatMap (literalChar '\"') ++ ['\"']))

end Offside.Text
