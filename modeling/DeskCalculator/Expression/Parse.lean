import DeskCalculator.Expression.Basic
import DeskCalculator.Expression.Scan
import DeskCalculator.Number.Quantity
import DeskCalculator.Value.Part

namespace DeskCalculator

abbrev Parser := List Token → Except Failure (Expression × List Token)

def nestingLimit : Nat := 100

namespace Parser

-- expression := term (("+" | "-") term)*
-- term       := unary (("*" | "/") unary)*
-- unary      := "-" NUMBER "!" ["^" unary] | "-" unary | power
-- power      := primary ["^" unary]
-- primary    := NUMBER ["!"] | CONSTANT | FUNCTION "(" expression ")" | "(" expression ")"
-- Every way from one rule back to itself leads through `unary`, so a bound on nested unaries
-- bounds the whole descent.

def malformed {α : Type} (position : Int) (reason : ParseReason) : Except Failure α :=
  .error (.fault (.malformed position reason))

def exhausted {α : Type} : Except Failure α :=
  .error (.misuse (.indexOutOfRange .list))

def chainRest (symbols : List String) (operand : Parser) :
    (fuel : Nat) → (left : Expression) → Parser
  | 0, _, _ => exhausted
  | _ + 1, _, [] => exhausted
  | fuel + 1, left, t :: ts =>
      match t.lexeme.symbol? with
      | some symbol =>
          if symbols.contains symbol then do
            let (right, rest) ← operand ts
            chainRest symbols operand fuel (.binary symbol left right) rest
          else .ok (left, t :: ts)
      | none => .ok (left, t :: ts)

-- Each step takes an operator off the tokens, so their number bounds the steps.
def chain (symbols : List String) (operand : Parser) : Parser := fun ts => do
  let (left, rest) ← operand ts
  chainRest symbols operand (rest.length + 1) left rest

def term (unary : Parser) : Parser :=
  chain ["*", "/"] unary

def expression (unary : Parser) : Parser :=
  chain ["+", "-"] (term unary)

def group (unary : Parser) (paren : Token) : Parser
  | [] => exhausted
  | t :: ts =>
      if t.kind = .closeParen then malformed t.position .emptyParentheses
      else do
        let (node, rest) ← expression unary (t :: ts)
        match rest with
        | [] => exhausted
        | u :: us =>
            if u.kind = .closeParen then return (node, us)
            else malformed paren.position .unmatchedOpen

def constant (name : Value) : Except Failure Binary64 := do
  match ← name.lookUp constant? with
  | some x => return x
  | none => .error (.misuse (.missingKey name))

def atom (unary : Parser) : Parser
  | [] => exhausted
  | t :: ts =>
      match t.kind with
      | .number =>
          match ts with
          | [] => exhausted
          | u :: us =>
              if u.kind = .factorial then .ok (.factorial (.literal t.value), us)
              else .ok (.literal t.value, u :: us)
      | .constant => do
          let x ← constant t.value
          return (.literal (.real x), ts)
      | .function =>
          match ts with
          | [] => exhausted
          | u :: us =>
              if u.kind = .openParen then do
                let (argument, rest) ← group unary u us
                return (.call t.value argument, rest)
              else malformed u.position (.parenExpected t.value)
      | .openParen => group unary t ts
      | .finish => malformed t.position .unexpectedEnd
      | .closeParen => malformed t.position .unmatchedClose
      | _ => malformed t.position (.operandExpected t.value)

def primary (unary : Parser) : Parser := fun ts => do
  let (node, rest) ← atom unary ts
  match rest with
  | [] => exhausted
  | u :: _ =>
      if u.kind = .factorial then malformed u.position .factorialOfNonLiteral
      else return (node, rest)

def powerTail (unary : Parser) (base : Expression) : Parser
  | [] => exhausted
  | t :: ts =>
      if t.lexeme.symbol? = some "^" then do
        let (exponent, rest) ← unary ts
        return (.binary "^" base exponent, rest)
      else .ok (base, t :: ts)

def power (unary : Parser) : Parser := fun ts => do
  let (base, rest) ← primary unary ts
  powerTail unary base rest

def factorialLiteral? : List Token → Option (Value × List Token)
  | t :: u :: rest =>
      if t.kind = .number ∧ u.kind = .factorial then some (t.value, rest) else none
  | _ => none

-- The levels are those that are left, its own included.
def unary : (levels : Nat) → Parser
  | _, [] => exhausted
  | 0, t :: _ => malformed t.position .nestedTooDeeply
  | levels + 1, t :: ts =>
      if t.lexeme.symbol? = some "-" then
        match factorialLiteral? ts with
        | some (x, rest) => do
            let x ← x.negate
            powerTail (unary levels) (.factorial (.literal x)) rest
        | none => do
            let (node, rest) ← unary levels ts
            return (.unary "-" node, rest)
      else power (unary levels) (t :: ts)

end Parser

def parse : List Token → Except Failure Expression
  | [] => Parser.exhausted
  | t :: ts =>
      if t.kind = .finish then Parser.malformed 0 .emptyExpression
      else do
        let (node, rest) ← Parser.expression (Parser.unary nestingLimit) (t :: ts)
        match rest with
        | [] => Parser.exhausted
        | u :: _ =>
            match u.kind with
            | .finish => return node
            | .closeParen => Parser.malformed u.position .unmatchedClose
            | _ => Parser.malformed u.position (.unexpected u.value)

def parseText (text : String) : Except Failure Expression :=
  match scan text with
  | .ok tokens => parse tokens
  | .error fault => .error (.fault fault)

end DeskCalculator
