/-!
# Keywords

The reserved words of the language, each with its spelling, its label in structured output and the
name of its token.
-/

namespace Offside

inductive Keyword where
  | class_
  | extends_
  | does
  | is
  | function
  | if_
  | elseIf
  | else_
  | unless_
  | for_
  | foreach
  | in_
  | while_
  | break_
  | continue_
  | return_
  | echo
  | new
  | true_
  | false_
  | null
  | and
  | or
  | not
  deriving DecidableEq, Repr, Inhabited

namespace Keyword

def all : List Keyword :=
  [.class_, .extends_, .does, .is, .function, .if_, .elseIf, .else_, .unless_, .for_, .foreach,
    .in_, .while_, .break_, .continue_, .return_, .echo, .new, .true_, .false_, .null, .and,
    .or, .not]

def chars : Keyword → List Char
  | class_ => ['c', 'l', 'a', 's', 's']
  | extends_ => ['e', 'x', 't', 'e', 'n', 'd', 's']
  | does => ['d', 'o', 'e', 's']
  | is => ['i', 's']
  | function => ['f', 'u', 'n', 'c', 't', 'i', 'o', 'n']
  | if_ => ['i', 'f']
  | elseIf => ['e', 'l', 's', 'e', 'i', 'f']
  | else_ => ['e', 'l', 's', 'e']
  | unless_ => ['u', 'n', 'l', 'e', 's', 's']
  | for_ => ['f', 'o', 'r']
  | foreach => ['f', 'o', 'r', 'e', 'a', 'c', 'h']
  | in_ => ['i', 'n']
  | while_ => ['w', 'h', 'i', 'l', 'e']
  | break_ => ['b', 'r', 'e', 'a', 'k']
  | continue_ => ['c', 'o', 'n', 't', 'i', 'n', 'u', 'e']
  | return_ => ['r', 'e', 't', 'u', 'r', 'n']
  | echo => ['e', 'c', 'h', 'o']
  | new => ['n', 'e', 'w']
  | true_ => ['t', 'r', 'u', 'e']
  | false_ => ['f', 'a', 'l', 's', 'e']
  | null => ['n', 'u', 'l', 'l']
  | and => ['a', 'n', 'd']
  | or => ['o', 'r']
  | not => ['n', 'o', 't']

def text (keyword : Keyword) : String := String.ofList keyword.chars

def label : Keyword → String
  | class_ => "Class"
  | extends_ => "Extends"
  | does => "Does"
  | is => "Is"
  | function => "Function"
  | if_ => "If"
  | elseIf => "ElseIf"
  | else_ => "Else"
  | unless_ => "Unless"
  | for_ => "For"
  | foreach => "Foreach"
  | in_ => "In"
  | while_ => "While"
  | break_ => "Break"
  | continue_ => "Continue"
  | return_ => "Return"
  | echo => "Echo"
  | new => "New"
  | true_ => "True"
  | false_ => "False"
  | null => "Null"
  | and => "And"
  | or => "Or"
  | not => "Not"

def name : Keyword → String
  | class_ => "T_CLASS"
  | extends_ => "T_EXTENDS"
  | does => "T_DOES"
  | is => "T_IS"
  | function => "T_FUNCTION"
  | if_ => "T_IF"
  | elseIf => "T_ELSEIF"
  | else_ => "T_ELSE"
  | unless_ => "T_UNLESS"
  | for_ => "T_FOR"
  | foreach => "T_FOREACH"
  | in_ => "T_IN"
  | while_ => "T_WHILE"
  | break_ => "T_BREAK"
  | continue_ => "T_CONTINUE"
  | return_ => "T_RETURN"
  | echo => "T_ECHO"
  | new => "T_NEW"
  | true_ => "T_TRUE"
  | false_ => "T_FALSE"
  | null => "T_NULL"
  | and => "T_AND"
  | or => "T_OR"
  | not => "T_NOT"

def rank (keyword : Keyword) : Nat := all.idxOf keyword

def ofChars? (text : List Char) : Option Keyword := all.find? fun keyword => keyword.chars == text

def ofLabel? (label : String) : Option Keyword := all.find? fun keyword => keyword.label == label

def unknownMessage : String := "invalid string representation of keyword."

theorem mem_all (keyword : Keyword) : keyword ∈ all := by cases keyword <;> decide

/-- A spelling belongs to one keyword, and each keyword is found by its own. -/
theorem ofChars?_chars (keyword : Keyword) : ofChars? keyword.chars = some keyword := by
  cases keyword <;> decide

theorem ofLabel?_label (keyword : Keyword) : ofLabel? keyword.label = some keyword := by
  cases keyword <;> decide

end Keyword

end Offside
