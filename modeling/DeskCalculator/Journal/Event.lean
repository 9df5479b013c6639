import DeskCalculator.Failure

namespace DeskCalculator

inductive Level where
  | debug
  | info
  | warning
  | error
  | critical
  deriving DecidableEq, Repr

namespace Level

def all : List Level :=
  [.debug, .info, .warning, .error, .critical]

def name : Level → String
  | .debug => "debug"
  | .info => "info"
  | .warning => "warning"
  | .error => "error"
  | .critical => "critical"

def ofName? (s : String) : Option Level :=
  all.find? (·.name = s)

def severity : Level → Nat
  | .debug => 10
  | .info => 20
  | .warning => 30
  | .error => 40
  | .critical => 50

end Level

abbrev Fields := List (String × Value)

namespace Fields

def set : Fields → String → Value → Fields
  | [], name, value => [(name, value)]
  | (n, v) :: rest, name, value =>
      if n = name then (n, value) :: rest else (n, v) :: set rest name value

def merge (fields others : Fields) : Fields :=
  others.foldl (fun fields f => fields.set f.1 f.2) fields

end Fields

structure Event where
  level : Level
  name : String
  fields : Fields

inductive Source where
  | plain
  | keypad
  | evaluator
  deriving DecidableEq, Repr

namespace Source

def ofName? : String → Option Source
  | "plain" => some .plain
  | "state" => some .keypad
  | "evaluator" => some .evaluator
  | _ => none

def fields : Source → Fields
  | .plain => []
  | .keypad => [("subsystem", .text "state_machine")]
  | .evaluator => [("subsystem", .text "evaluator")]

def event (source : Source) (level : Level) (name : String) (fields : Fields) : Event :=
  ⟨level, name, Fields.merge source.fields fields⟩

def contextField (context : Value) : Fields :=
  if context.isEmpty then [] else [("context", context)]

def transition (source : Source) (action before after : String) (context : Value) : Event :=
  source.event .debug "state_transition"
    ([("action", .text action), ("from_display", .text before), ("to_display", .text after)]
      ++ contextField context)

def failure (source : Source) (operation : String) (failure : Failure) (context : Value) : Event :=
  source.event .warning "operation_failed"
    ([("operation", .text operation), ("error_kind", .text failure.kindName),
      ("error_message", .text failure.message)] ++ contextField context)

end Source

end DeskCalculator
