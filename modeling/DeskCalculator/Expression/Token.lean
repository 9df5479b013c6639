import DeskCalculator.Value.Basic

namespace DeskCalculator

inductive LexemeKind where
  | number
  | operator
  | function
  | constant
  | openParen
  | closeParen
  | factorial
  | finish
  deriving DecidableEq, Repr

namespace LexemeKind

def all : List LexemeKind :=
  [.number, .operator, .function, .constant, .openParen, .closeParen, .factorial, .finish]

def name : LexemeKind → String
  | .number => "number"
  | .operator => "operator"
  | .function => "function"
  | .constant => "constant"
  | .openParen => "lparen"
  | .closeParen => "rparen"
  | .factorial => "factorial"
  | .finish => "eof"

def ofName? (s : String) : Option LexemeKind :=
  all.find? (·.name = s)

end LexemeKind

structure Lexeme where
  kind : LexemeKind
  value : Value
  deriving Repr

namespace Lexeme

def number (x : Binary64) : Lexeme :=
  ⟨.number, .real x⟩

def operator (symbol : String) : Lexeme :=
  ⟨.operator, .text symbol⟩

def function (name : String) : Lexeme :=
  ⟨.function, .text name⟩

def constant (name : String) : Lexeme :=
  ⟨.constant, .text name⟩

def openParen : Lexeme :=
  ⟨.openParen, .text "("⟩

def closeParen : Lexeme :=
  ⟨.closeParen, .text ")"⟩

def factorial : Lexeme :=
  ⟨.factorial, .text "!"⟩

def finish : Lexeme :=
  ⟨.finish, .null⟩

def symbol? (lexeme : Lexeme) : Option String :=
  match lexeme.kind, lexeme.value with
  | .operator, .scalar (.text symbol) => some symbol
  | _, _ => none

end Lexeme

structure Token where
  lexeme : Lexeme
  position : Int
  deriving Repr

namespace Token

def kind (t : Token) : LexemeKind :=
  t.lexeme.kind

def value (t : Token) : Value :=
  t.lexeme.value

end Token

end DeskCalculator
