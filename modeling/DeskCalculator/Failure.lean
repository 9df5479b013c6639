import DeskCalculator.Converter.Category
import DeskCalculator.Number.Basic

namespace DeskCalculator

inductive ErrorKind where
  | lexError
  | parseError
  | domainError
  | divisionByZero
  | overflowError
  | unknownUnit
  | unknownCategory
  deriving DecidableEq, Repr

namespace ErrorKind

def all : List ErrorKind :=
  [.lexError, .parseError, .domainError, .divisionByZero, .overflowError, .unknownUnit,
    .unknownCategory]

def name : ErrorKind → String
  | .lexError => "lex_error"
  | .parseError => "parse_error"
  | .domainError => "domain_error"
  | .divisionByZero => "division_by_zero"
  | .overflowError => "overflow_error"
  | .unknownUnit => "unknown_unit"
  | .unknownCategory => "unknown_category"

end ErrorKind

inductive ParseReason where
  | emptyExpression
  | nestedTooDeeply
  | unexpected (lexeme : Value)
  | operandExpected (lexeme : Value)
  | parenExpected (function : Value)
  | factorialOfNonLiteral
  | emptyParentheses
  | unmatchedOpen
  | unmatchedClose
  | unexpectedEnd
  deriving Repr

def ParseReason.message : ParseReason → String
  | .emptyExpression => "Empty expression"
  | .nestedTooDeeply => "Expression nested too deeply"
  | .unexpected lexeme => "Unexpected token " ++ lexeme.literal
  | .operandExpected lexeme => "Expected operand, got " ++ lexeme.literal
  | .parenExpected function => "Expected '(' after function " ++ function.literal
  | .factorialOfNonLiteral => "Factorial applies only to a numeric literal"
  | .emptyParentheses => "Empty parentheses"
  | .unmatchedOpen => "Unmatched '('"
  | .unmatchedClose => "Unmatched ')'"
  | .unexpectedEnd => "Unexpected end of expression"

inductive DomainCause where
  | factorial (argument : Value)
  | notPositive (function : String) (argument : Value)
  | negativeRoot (argument : Value)
  | undefinedAngle (function : String) (argument : Value)
  | fractionalPower (base exponent : Value)
  deriving Repr

namespace DomainCause

def message : DomainCause → String
  | .factorial x => "Factorial requires a non-negative integer, got " ++ x.plain
  | .notPositive f x => f ++ " requires a positive argument, got " ++ x.plain
  | .negativeRoot x => "sqrt requires a non-negative argument, got " ++ x.plain
  | .undefinedAngle f x => f ++ " is undefined for " ++ x.plain
  | .fractionalPower x y =>
      x.plain ++ " cannot be raised to the fractional power " ++ y.plain

def function : DomainCause → String
  | .factorial _ => "!"
  | .notPositive f _ => f
  | .negativeRoot _ => "sqrt"
  | .undefinedAngle f _ => f
  | .fractionalPower _ _ => "^"

def argument : DomainCause → Value
  | .factorial x => x
  | .notPositive _ x => x
  | .negativeRoot x => x
  | .undefinedAngle _ x => x
  | .fractionalPower x _ => x

end DomainCause

inductive DivisionCause where
  | quotient (dividend : Value)
  | reciprocal
  | negativePower
  deriving Repr

namespace DivisionCause

def message : DivisionCause → String
  | .negativePower => "Zero cannot be raised to a negative power"
  | _ => "Cannot divide by zero"

def context : DivisionCause → Entries
  | .quotient x => [(.text "dividend", x)]
  | .reciprocal => [(.text "operation", .text "reciprocal")]
  | .negativePower => []

end DivisionCause

inductive OverflowCause where
  | operation (name : String)
  | power (base exponent : Value)
  | factorial (argument : Number)
  | numeral (position digits : Nat)
  | display (value : Binary64)
  deriving Repr

namespace OverflowCause

def message : OverflowCause → String
  | .operation name => "Result of " ++ name ++ " is out of range"
  | .power _ _ => "Result of ^ is out of range"
  | .factorial x => "Factorial of " ++ toString x.floor ++ " is out of range"
  | .numeral position _ => "Number at position " ++ toString position ++ " is out of range"
  | .display _ => "Result is not a finite number"

def context : OverflowCause → Entries
  | .operation name => [(.text "operation", .text name)]
  | .power x y => [(.text "operation", .text "^"), (.text "base", x), (.text "exponent", y)]
  | .factorial x => [(.text "operation", .text "!"), (.text "argument", x.toValue)]
  | .numeral position digits => [(.text "position", .nat position), (.text "digits", .nat digits)]
  | .display x => [(.text "value", .text x.literal)]

end OverflowCause

inductive Fault where
  | unexpectedChar (position : Nat) (char : Char)
  | malformed (position : Int) (reason : ParseReason)
  | domain (cause : DomainCause)
  | divisionByZero (cause : DivisionCause)
  | overflow (cause : OverflowCause)
  | unknownUnit (category : Category) (unit : Value)
  | unknownCategory (category : Value)

namespace Fault

def kind : Fault → ErrorKind
  | .unexpectedChar _ _ => .lexError
  | .malformed _ _ => .parseError
  | .domain _ => .domainError
  | .divisionByZero _ => .divisionByZero
  | .overflow _ => .overflowError
  | .unknownUnit _ _ => .unknownUnit
  | .unknownCategory _ => .unknownCategory

def message : Fault → String
  | .unexpectedChar position c =>
      "Unexpected character " ++ Text.quoted (String.singleton c) ++ " at position "
        ++ toString position
  | .malformed position reason => reason.message ++ " at position " ++ toString position
  | .domain cause => cause.message
  | .divisionByZero cause => cause.message
  | .overflow cause => cause.message
  | .unknownUnit category unit =>
      "Unknown unit " ++ unit.literal ++ " for category " ++ Text.quoted category.name
  | .unknownCategory category => "Unknown conversion category " ++ category.literal

def context : Fault → Entries
  | .divisionByZero cause => cause.context
  | .overflow cause => cause.context
  | _ => []

def details : Fault → List (String × Value)
  | .unexpectedChar position c =>
      [("position", .nat position), ("char", .text (String.singleton c))]
  | .malformed position reason =>
      [("position", .int position), ("reason", .text reason.message)]
  | .domain cause =>
      [("function", .text cause.function), ("argument", cause.argument)]
  | .divisionByZero _ => []
  | .overflow _ => []
  | .unknownUnit category unit => [("category", .text category.name), ("unit", unit)]
  | .unknownCategory category => [("category", category)]

end Fault

inductive Invalid where
  | digit (text : String)
  | constant (name : String)
  | operand (text : String)
  | symbol (text : String)
  | operator (name : String)
  | action (name : Value)
  | numeral (text : String)
  | settings (complaints : List String)
  deriving Repr

def Invalid.message : Invalid → String
  | .digit text => "Not a digit: " ++ Text.quoted text
  | .constant name => "Unknown constant: " ++ Text.quoted name
  | .operand text => "Invalid operand text " ++ Text.quoted text
  | .symbol text => "Unknown binary operator " ++ Text.quoted text
  | .operator name => Text.quoted name ++ " is not a valid Operator"
  | .action name => "Unknown calculator action: " ++ name.literal
  | .numeral text => "could not convert string to float: " ++ Text.quoted text
  | .settings complaints => "Invalid configuration: " ++ "; ".intercalate complaints

inductive Misuse where
  | notNumber (kind : Kind)
  | notConvertible (kind : Kind)
  | notComparable (symbol : String) (kind : Kind)
  | notNegatable (kind : Kind)
  | notJoinable (left right : Kind)
  | notRepeatable (count : Kind)
  | operands (symbol : String) (left right : Kind)
  | notSearchable (kind : Kind)
  | noParts (kind : Kind)
  | noNamedParts (kind : Kind)
  | noKey (kind : Kind)
  | noMember (kind : Kind) (name : String)
  | noLevel (name : String)
  | wrongKind (expected kind : Kind)
  | missingKey (key : Value)
  | indexOutOfRange (kind : Kind)
  | tooLarge
  | infinite
  | quotientTooLarge
  | powerTooLarge
  | countTooLarge
  | textTooLong
  | noRoom
  | zeroDivisor
  | notDecimal
  | unknownNode (printed : String)
  deriving Repr

namespace Misuse

def name : Misuse → String
  | .noMember _ _ => "AttributeError"
  | .noLevel _ => "AttributeError"
  | .missingKey _ => "KeyError"
  | .indexOutOfRange _ => "IndexError"
  | .tooLarge => "OverflowError"
  | .infinite => "OverflowError"
  | .quotientTooLarge => "OverflowError"
  | .powerTooLarge => "OverflowError"
  | .countTooLarge => "OverflowError"
  | .textTooLong => "OverflowError"
  | .noRoom => "MemoryError"
  | .zeroDivisor => "ZeroDivisionError"
  | .notDecimal => "InvalidOperation"
  | _ => "TypeError"

def message : Misuse → String
  | .notNumber k => "must be real number, not " ++ k.name
  | .notConvertible k => "float() argument must be a string or a real number, not '" ++ k.name ++ "'"
  | .notComparable symbol k =>
      "'" ++ symbol ++ "' not supported between instances of '" ++ k.name ++ "' and 'int'"
  | .notNegatable k => "bad operand type for unary -: '" ++ k.name ++ "'"
  | .notJoinable left right =>
      "can only concatenate " ++ left.name ++ " (not \"" ++ right.name ++ "\") to " ++ left.name
  | .notRepeatable count => "can't multiply sequence by non-int of type '" ++ count.name ++ "'"
  | .operands symbol left right =>
      "unsupported operand type(s) for " ++ symbol ++ ": '" ++ left.name ++ "' and '" ++ right.name
        ++ "'"
  | .notSearchable k => "argument of type '" ++ k.name ++ "' is not iterable"
  | .noParts k => "'" ++ k.name ++ "' object is not subscriptable"
  | .noNamedParts .text => "string indices must be integers, not 'str'"
  | .noNamedParts k => k.name ++ " indices must be integers or slices, not str"
  | .noKey k => "unhashable type: '" ++ k.name ++ "'"
  | .noMember k name => "'" ++ k.name ++ "' object has no attribute '" ++ name ++ "'"
  | .noLevel name => "module 'logging' has no attribute '" ++ name ++ "'"
  | .wrongKind expected k => "expected " ++ expected.name ++ ", not " ++ k.name
  | .missingKey key => key.literal
  | .indexOutOfRange .text => "string index out of range"
  | .indexOutOfRange k => k.name ++ " index out of range"
  | .tooLarge => "int too large to convert to float"
  | .infinite => "cannot convert float infinity to integer"
  | .powerTooLarge => "(34, 'Numerical result out of range')"
  | .quotientTooLarge => "integer division result too large for a float"
  | .countTooLarge => "cannot fit 'int' into an index-sized integer"
  | .textTooLong => "repeated string is too long"
  | .noRoom => ""
  | .zeroDivisor => "float division by zero"
  | .notDecimal => "[<class 'decimal.ConversionSyntax'>]"
  | .unknownNode printed => "Unknown AST node " ++ printed

end Misuse

inductive Failure where
  | fault (f : Fault)
  | invalid (i : Invalid)
  | misuse (m : Misuse)

namespace Failure

def kindName : Failure → String
  | .fault f => f.kind.name
  | .invalid _ => "ValueError"
  | .misuse m => m.name

def message : Failure → String
  | .fault f => f.message
  | .invalid i => i.message
  | .misuse m => m.message

end Failure

end DeskCalculator
