import DeskCalculator.Keypad.Operand

namespace DeskCalculator

inductive Operator where
  | add
  | subtract
  | multiply
  | divide
  | percent
  deriving DecidableEq, Repr

namespace Operator

def all : List Operator :=
  [.add, .subtract, .multiply, .divide, .percent]

def name : Operator → String
  | .add => "add"
  | .subtract => "subtract"
  | .multiply => "multiply"
  | .divide => "divide"
  | .percent => "percent"

def symbol : Operator → String
  | .add => "+"
  | .subtract => "-"
  | .multiply => "×"
  | .divide => "÷"
  | .percent => "%"

def ofName? (s : String) : Option Operator :=
  all.find? (·.name = s)

def ofName (s : String) : Except Failure Operator :=
  match ofName? s with
  | some op => .ok op
  | none => .error (.invalid (.operator s))

end Operator

structure State where
  current : Operand
  previous : Option Operand
  pending : Option Operator
  resetOnNextDigit : Bool
  echo : String
  deriving DecidableEq, Repr

namespace State

def initial : State where
  current := .zero
  previous := none
  pending := none
  resetOnNextDigit := false
  echo := ""

instance : Inhabited State := ⟨initial⟩

def display (s : State) : String :=
  s.current.text

def preview (s : State) : String :=
  match s.previous, s.pending with
  | some previous, some op => previous.text ++ " " ++ op.symbol
  | previous, _ =>
      if s.echo ≠ "" then s.echo
      else match previous with
        | some previous => previous.text
        | none => ""

end State

end DeskCalculator
