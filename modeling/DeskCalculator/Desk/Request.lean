import DeskCalculator.Converter.Selection
import DeskCalculator.Expression.Report
import DeskCalculator.Keypad.Session

namespace DeskCalculator

def operatorButtons : List String :=
  (Operator.all.filter (· ≠ .percent)).map Operator.name

def constantButtons : List String :=
  ["pi", "π", "e"]

def Action.isDigitButton (button : String) : Bool :=
  match button.toList with
  | [c] => Text.isDigit c
  | _ => false

def Action.ofButton? (button : String) : Option Action :=
  if isDigitButton button then some (.digit button)
  else if operatorButtons.contains button then some (.operator button)
  else if constantButtons.contains button then some (.constant button)
  else
    match button with
    | "clear" => some .clear
    | "backspace" => some .backspace
    | "equals" => some .equals
    | "decimal" => some .point
    | "percent" => some .percent
    | "inverse" => some .reciprocal
    | _ => none

def Action.ofButton (button : Value) : Except Failure Action := do
  match ← button.lookUp ofButton? with
  | some action => return action
  | none => .error (.invalid (.action button))

structure Reply (σ α : Type) where
  state : σ
  answer : Except Failure α
  events : List Event

inductive KeypadRequest where
  | press (button : Value)
  | submit (text : Value)
  | evaluate (text : Value)
  | display
  deriving Repr

inductive KeypadAnswer where
  | update (u : Update)
  | result (r : Except Fault Value)

namespace KeypadRequest

def perform (s : Session) (action : Action) : Reply Session KeypadAnswer :=
  let r := s.perform action
  ⟨r.session, r.update.map .update, r.events⟩

def submission : Value → Except Failure Action
  | .scalar (.text s) => .ok (.submit s)
  | v => .error (.misuse (.noMember v.kind "strip"))

/-- Only texts can be evaluated. Anything else would have to be made of tokens, and no value is
one. -/
def evaluation : Value → Report Value
  | .scalar (.text s) => evaluationReport s
  | v =>
      match v.item 0 with
      | .ok x => ⟨.error (.misuse (.noMember x.kind "type")), []⟩
      | .error e => ⟨.error e, []⟩

def attempt (s : Session) : Except Failure Action → Reply Session KeypadAnswer
  | .ok action => perform s action
  | .error e => ⟨s, .error e, []⟩

def respond (s : Session) : KeypadRequest → Reply Session KeypadAnswer
  | .press button => attempt s (Action.ofButton button)
  | .submit text => attempt s (submission text)
  | .evaluate text =>
      let r := evaluation text
      ⟨s, r.outcome.map .result, r.events⟩
  | .display => ⟨s, .ok (.update s.snapshot), []⟩

end KeypadRequest

inductive ConverterRequest where
  | result
  | selectCategory (category : Value)
  | selectUnits (source target : Value)
  | swapUnits
  | setValue (value : Value)
  | listUnits (category : Value)

inductive ConverterAnswer where
  | result (r : Except Fault Binary64)
  | units (us : List (String × String))

structure Converter where
  selection : Selection
  defaults : ConverterDefaults
  decimals : Int

namespace Converter

def result (c : Converter) : Reply Converter ConverterAnswer :=
  let r := c.selection.result (.int c.decimals)
  ⟨c, r.outcome.map .result, r.events⟩

def change (c : Converter) (operation : String) (s : Except Failure Selection) :
    Reply Converter ConverterAnswer :=
  match s with
  | .ok selection => result { c with selection }
  | .error (.fault f) =>
      ⟨c, .ok (.result (.error f)), [Source.plain.failure operation (.fault f) .null]⟩
  | .error e => ⟨c, .error e, []⟩

end Converter

namespace ConverterRequest

def respond (c : Converter) : ConverterRequest → Reply Converter ConverterAnswer
  | .result => c.result
  | .selectCategory category =>
      c.change "select_category" (c.selection.selectCategory category c.defaults)
  | .selectUnits source target =>
      c.change "select_units" (c.selection.selectUnits source target)
  | .swapUnits => c.change "swap_units" (.ok c.selection.swapUnits)
  | .setValue value => c.change "set_converter_value" (c.selection.setValue value)
  | .listUnits category =>
      let category := Selection.orElse category (.text c.selection.category.name)
      ⟨c, (DeskCalculator.listUnits category).map .units, []⟩

end ConverterRequest

end DeskCalculator
