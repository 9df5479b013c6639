import DeskCalculator.Converter.Unit
import DeskCalculator.Expression.Report
import DeskCalculator.Number.HalfUp

namespace DeskCalculator

namespace Measure

def absoluteZero : Binary64 :=
  Decimal.toBinary64 false ⟨27315, -2⟩

def toBase (m : Measure) (x : Quantity) : Except Failure Quantity :=
  match m with
  | .multiple factor => x.mul (.ofReal (factor.toBinary64 false))
  | .celsius => .ok x
  | .fahrenheit => do
      let above ← x.sub (.ofInt 32)
      let fifths ← above.mul (.ofInt 5)
      let degrees ← fifths.div (.ofInt 9)
      return .ofReal degrees
  | .kelvin => x.sub (.ofReal absoluteZero)

def ofBase (m : Measure) (x : Quantity) : Except Failure Quantity :=
  match m with
  | .multiple factor => do
      let quotient ← x.div (.ofReal (factor.toBinary64 false))
      return .ofReal quotient
  | .celsius => .ok x
  | .fahrenheit => do
      let ninths ← x.mul (.ofInt 9)
      let degrees ← ninths.div (.ofInt 5)
      (Quantity.ofReal degrees).add (.ofInt 32)
  | .kelvin => x.add (.ofReal absoluteZero)

end Measure

def convertValue (category value source target decimals : Value) :
    Except Failure Binary64 := do
  let category ← Category.ofValue category
  let source ← category.unit source
  let target ← category.unit target
  if source.id = target.id then value.quantity.roundHalfUp decimals
  else
    let base ← source.measure.toBase value.quantity
    let y ← target.measure.ofBase base
    y.roundHalfUp decimals

def conversionReport (category value source target decimals : Value) : Report Binary64 :=
  match convertValue category value source target decimals with
  | .ok y =>
      ⟨.ok (.ok y),
        [Source.evaluator.event .debug "Converted value"
          [("category", category), ("value", value), ("from_unit", source), ("to_unit", target),
            ("result", .real y)]]⟩
  | .error (.fault f) =>
      ⟨.ok (.error f),
        [Source.evaluator.failure "convert" (.fault f)
          (.dict [(.text "category", .text category.plain), (.text "from_unit", source),
            (.text "to_unit", target)])]⟩
  | .error e => ⟨.error e, []⟩

def listUnits (category : Value) : Except Failure (List (String × String)) := do
  let category ← Category.ofValue category
  return category.units.map fun u => (u.id, u.name)

end DeskCalculator
