import DeskCalculator.Expression.Evaluation
import DeskCalculator.Journal.Event

namespace DeskCalculator

structure Report (α : Type) where
  outcome : Except Failure (Except Fault α)
  events : List Event

def evaluationReport (text : String) : Report Value :=
  match evaluateText text with
  | .ok x =>
      ⟨.ok (.ok x),
        [Source.evaluator.event .debug "Evaluated expression"
          [("expression", .text text), ("result", x)]]⟩
  | .error (.fault f) =>
      ⟨.ok (.error f),
        [Source.evaluator.failure "evaluate" (.fault f)
          (.dict [(.text "expression", .text text)])]⟩
  | .error e => ⟨.error e, []⟩

end DeskCalculator
