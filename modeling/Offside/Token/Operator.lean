/-!
# Operators

The operators and punctuation marks of the language, each with its spelling, its label in
structured output and the name of its token.
-/

namespace Offside

inductive Operator where
  | ellipsis
  | doubleColon
  | arrow
  | fatArrow
  | equal
  | notEqual
  | lessEqual
  | greaterEqual
  | booleanAnd
  | booleanOr
  | increment
  | decrement
  | plusAssign
  | minusAssign
  | starAssign
  | slashAssign
  | percentAssign
  | concatAssign
  | power
  | range
  | plus
  | minus
  | star
  | slash
  | percent
  | assign
  | less
  | greater
  | bang
  | dot
  | comma
  | colon
  | semicolon
  | parenOpen
  | parenClose
  | bracketOpen
  | bracketClose
  | braceOpen
  | braceClose
  | at_
  | question
  | ampersand
  | pipe
  | caret
  | tilde
  deriving DecidableEq, Repr, Inhabited

namespace Operator

def all : List Operator :=
  [.ellipsis, .doubleColon, .arrow, .fatArrow, .equal, .notEqual, .lessEqual, .greaterEqual,
    .booleanAnd, .booleanOr, .increment, .decrement, .plusAssign, .minusAssign, .starAssign,
    .slashAssign, .percentAssign, .concatAssign, .power, .range, .plus, .minus, .star, .slash,
    .percent, .assign, .less, .greater, .bang, .dot, .comma, .colon, .semicolon, .parenOpen,
    .parenClose, .bracketOpen, .bracketClose, .braceOpen, .braceClose, .at_, .question,
    .ampersand, .pipe, .caret, .tilde]

def chars : Operator → List Char
  | ellipsis => ['.', '.', '.']
  | doubleColon => [':', ':']
  | arrow => ['-', '>']
  | fatArrow => ['=', '>']
  | equal => ['=', '=']
  | notEqual => ['!', '=']
  | lessEqual => ['<', '=']
  | greaterEqual => ['>', '=']
  | booleanAnd => ['&', '&']
  | booleanOr => ['|', '|']
  | increment => ['+', '+']
  | decrement => ['-', '-']
  | plusAssign => ['+', '=']
  | minusAssign => ['-', '=']
  | starAssign => ['*', '=']
  | slashAssign => ['/', '=']
  | percentAssign => ['%', '=']
  | concatAssign => ['.', '=']
  | power => ['*', '*']
  | range => ['.', '.']
  | plus => ['+']
  | minus => ['-']
  | star => ['*']
  | slash => ['/']
  | percent => ['%']
  | assign => ['=']
  | less => ['<']
  | greater => ['>']
  | bang => ['!']
  | dot => ['.']
  | comma => [',']
  | colon => [':']
  | semicolon => [';']
  | parenOpen => ['(']
  | parenClose => [')']
  | bracketOpen => ['[']
  | bracketClose => [']']
  | braceOpen => ['\x7b']
  | braceClose => ['\x7d']
  | at_ => ['@']
  | question => ['?']
  | ampersand => ['&']
  | pipe => ['|']
  | caret => ['^']
  | tilde => ['~']

def text (operator : Operator) : String := String.ofList operator.chars

def label : Operator → String
  | ellipsis => "Ellipsis"
  | doubleColon => "DoubleColon"
  | arrow => "Arrow"
  | fatArrow => "FatArrow"
  | equal => "Equal"
  | notEqual => "NotEqual"
  | lessEqual => "LessEqual"
  | greaterEqual => "GreaterEqual"
  | booleanAnd => "BooleanAnd"
  | booleanOr => "BooleanOr"
  | increment => "Increment"
  | decrement => "Decrement"
  | plusAssign => "PlusAssign"
  | minusAssign => "MinusAssign"
  | starAssign => "StarAssign"
  | slashAssign => "SlashAssign"
  | percentAssign => "PercentAssign"
  | concatAssign => "ConcatAssign"
  | power => "Power"
  | range => "Range"
  | plus => "Plus"
  | minus => "Minus"
  | star => "Star"
  | slash => "Slash"
  | percent => "Percent"
  | assign => "Assign"
  | less => "Less"
  | greater => "Greater"
  | bang => "Bang"
  | dot => "Dot"
  | comma => "Comma"
  | colon => "Colon"
  | semicolon => "Semicolon"
  | parenOpen => "ParenOpen"
  | parenClose => "ParenClose"
  | bracketOpen => "BracketOpen"
  | bracketClose => "BracketClose"
  | braceOpen => "BraceOpen"
  | braceClose => "BraceClose"
  | at_ => "At"
  | question => "Question"
  | ampersand => "Ampersand"
  | pipe => "Pipe"
  | caret => "Caret"
  | tilde => "Tilde"

def name : Operator → String
  | ellipsis => "T_ELLIPSIS"
  | doubleColon => "T_FUNCTION_PROTOTYPE"
  | arrow => "T_FUNCTION_GLYPH"
  | fatArrow => "T_DOUBLE_ARROW"
  | equal => "T_EQUAL"
  | notEqual => "T_NOT_EQUAL"
  | lessEqual => "T_LT_EQUAL"
  | greaterEqual => "T_GT_EQUAL"
  | booleanAnd => "T_BOOLEAN_AND"
  | booleanOr => "T_BOOLEAN_OR"
  | increment => "T_INCREMENT"
  | decrement => "T_DECREMENT"
  | plusAssign => "T_PLUS_ASSIGN"
  | minusAssign => "T_MINUS_ASSIGN"
  | starAssign => "T_MUL_ASSIGN"
  | slashAssign => "T_DIV_ASSIGN"
  | percentAssign => "T_MOD_ASSIGN"
  | concatAssign => "T_CONCAT_ASSIGN"
  | power => "T_POWER"
  | range => "T_RANGE"
  | plus => "T_PLUS"
  | minus => "T_MINUS"
  | star => "T_MUL"
  | slash => "T_DIV"
  | percent => "T_MOD"
  | assign => "T_ASSIGN"
  | less => "T_LT"
  | greater => "T_GT"
  | bang => "T_BANG"
  | dot => "T_DOT"
  | comma => "T_COMMA"
  | colon => "T_COLON"
  | semicolon => "T_SEMICOLON"
  | parenOpen => "T_PAREN_OPEN"
  | parenClose => "T_PAREN_CLOSE"
  | bracketOpen => "T_BRACKET_OPEN"
  | bracketClose => "T_BRACKET_CLOSE"
  | braceOpen => "T_BRACE_OPEN"
  | braceClose => "T_BRACE_CLOSE"
  | at_ => "T_AT"
  | question => "T_QUESTION"
  | ampersand => "T_AMPERSAND"
  | pipe => "T_PIPE"
  | caret => "T_CARET"
  | tilde => "T_TILDE"

def rank (operator : Operator) : Nat := all.idxOf operator

def ofLength (n : Nat) : List Operator := all.filter fun operator => operator.chars.length == n

/-- Every operator, longer ones first and those of one length in the order of declaration.  The
first of them that a text begins with is the longest one it begins with. -/
def byLength : List Operator := ofLength 3 ++ ofLength 2 ++ ofLength 1

def ofLabel? (label : String) : Option Operator := all.find? fun operator => operator.label == label

theorem mem_all (operator : Operator) : operator ∈ all := by cases operator <;> decide

theorem ofLabel?_label (operator : Operator) : ofLabel? operator.label = some operator := by
  cases operator <;> decide

theorem length_chars (operator : Operator) :
    operator.chars.length = 1 ∨ operator.chars.length = 2 ∨ operator.chars.length = 3 := by
  cases operator <;> decide

theorem chars_ne_nil (operator : Operator) : operator.chars ≠ [] := by
  intro empty
  simpa [empty] using operator.length_chars

theorem mem_byLength (operator : Operator) : operator ∈ byLength := by
  simp only [byLength, ofLength, List.mem_append, List.mem_filter, mem_all, true_and,
    beq_iff_eq]
  rcases operator.length_chars with h | h | h <;> simp [h]

end Operator

end Offside
