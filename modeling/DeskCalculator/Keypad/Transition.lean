import DeskCalculator.Expression.Evaluation
import DeskCalculator.Keypad.State

namespace DeskCalculator

def Operator.apply (op : Operator) (previous current : Value) : Except Failure Number :=
  match op with
  | .add => Operation.apply .plus previous current
  | .subtract => Operation.apply .minus previous current
  | .multiply => Operation.apply .times previous current
  | .divide => Operation.apply .over previous current
  | .percent => do
      let share ← current.quantity.div (.ofInt 100)
      Operation.apply .times previous (.real share)

namespace State

def appendDigit (s : State) (text : String) : Except Failure State :=
  match text.toList with
  | [d] =>
      if Text.isDigit d then do
        let chars :=
          if s.resetOnNextDigit || s.current.chars = ['0'] then [d] else s.current.chars ++ [d]
        let current ← Operand.ofChars chars
        return { s with current, resetOnNextDigit := false, echo := "" }
      else .error (.invalid (.digit text))
  | _ => .error (.invalid (.digit text))

def appendPoint (s : State) : Except Failure State :=
  if s.resetOnNextDigit then do
    let current ← Operand.ofChars ['0', '.']
    return { s with current, resetOnNextDigit := false, echo := "" }
  else if s.current.hasPoint then .ok s
  else do
    let current ← Operand.ofChars (s.current.chars ++ ['.'])
    return { s with current, echo := "" }

def evaluate (s : State) (decimals : Int) : Except Failure State :=
  match s.previous, s.pending with
  | some previous, some op => do
      let result ← op.apply (.real previous.value) (.real s.current.value)
      let rounded ← result.quantity.roundHalfUp (.int decimals)
      let current ← Operand.ofValue (.real rounded)
      return ⟨current, none, none, true, ""⟩
  | _, _ => .ok s

def chooseOperator (s : State) (op : Operator) (decimals : Int) : Except Failure State := do
  let s ← s.evaluate decimals
  return ⟨s.current, some s.current, some op, true, ""⟩

def percent (s : State) (decimals : Int) : Except Failure State :=
  match s.previous, s.pending with
  | some _, some _ => s.evaluate decimals
  | _, _ => do
      let current ← Operand.ofValue (.real (s.current.value / .ofNat 100))
      return { s with current, echo := "" }

def reciprocal (s : State) : Except Failure State :=
  let x := s.current.value
  if x.isZero then .error (.fault (.divisionByZero .reciprocal))
  else do
    let current ← Operand.ofValue (.real (.one / x))
    return { s with current, resetOnNextDigit := true, echo := "" }

def backspace (s : State) : Except Failure State := do
  let chars := s.current.chars.dropLast
  let current ← Operand.ofChars (if chars = [] ∨ chars = ['-'] then ['0'] else chars)
  return { s with current, echo := "" }

def insertConstant (s : State) (name : String) : Except Failure State :=
  match constant? name with
  | none => .error (.invalid (.constant name))
  | some x => do
      let current ← Operand.ofValue (.real x)
      return { s with current, resetOnNextDigit := true, echo := "" }

def submit (s : State) (text : String) (decimals : Int) : Except Failure State :=
  let chars := Text.trim text.toList
  if chars = [] then s.evaluate decimals
  else do
    let text := String.ofList chars
    let x ← evaluateText text
    let current ← Operand.ofValue x
    return ⟨current, none, none, true, text ++ " ="⟩

end State

inductive Action where
  | digit (text : String)
  | point
  | operator (name : String)
  | equals
  | percent
  | reciprocal
  | clear
  | backspace
  | constant (name : String)
  | submit (text : String)
  deriving DecidableEq, Repr

namespace Action

def name : Action → String
  | .digit _ => "append_digit"
  | .point => "append_decimal_point"
  | .operator _ => "choose_operator"
  | .equals => "evaluate"
  | .percent => "percent_immediate"
  | .reciprocal => "reciprocal"
  | .clear => "clear"
  | .backspace => "backspace"
  | .constant _ => "insert_constant"
  | .submit _ => "submit_expression"

def transition (decimals : Int) (s : State) : Action → Except Failure State
  | .digit text => s.appendDigit text
  | .point => s.appendPoint
  | .operator name => do
      let op ← Operator.ofName name
      s.chooseOperator op decimals
  | .equals => s.evaluate decimals
  | .percent => s.percent decimals
  | .reciprocal => s.reciprocal
  | .clear => .ok .initial
  | .backspace => s.backspace
  | .constant name => s.insertConstant name
  | .submit text => s.submit text decimals

def resolves : Action → Bool
  | .operator _ => true
  | .equals => true
  | .percent => true
  | .submit text => Text.isAllBlank text.toList
  | _ => false

end Action

end DeskCalculator
