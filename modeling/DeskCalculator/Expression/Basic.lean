import DeskCalculator.Value.Basic

namespace DeskCalculator

inductive Expression where
  | literal (value : Value)
  | unary (symbol : String) (operand : Expression)
  | binary (symbol : String) (left right : Expression)
  | call (function : Value) (argument : Expression)
  | factorial (operand : Expression)
  | unknown (printed : String)
  deriving Repr

end DeskCalculator
