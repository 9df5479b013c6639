import DeskCalculator.Converter.Conversion
import DeskCalculator.Decimal.Numeral
import DeskCalculator.Value.Part

namespace DeskCalculator

structure ConverterDefaults where
  category : Value
  units : Value

namespace ConverterDefaults

def unitPairs : List (Category × String × String) :=
  [(.length, "meter", "foot"), (.weight, "kilogram", "pound"),
    (.temperature, "celsius", "fahrenheit"), (.area, "squareMeter", "squareFoot"),
    (.volume, "liter", "gallon")]

def standardUnits : Value :=
  .dict (unitPairs.map fun (c, source, target) =>
    (.text c.name, .tuple [.text source, .text target]))

def standard : ConverterDefaults :=
  ⟨.text Category.length.name, standardUnits⟩

def pair (defaults : ConverterDefaults) (c : Category) : Except Failure (Value × Value) := do
  let pair ← defaults.units.fieldOr c.name .null
  if pair.isEmpty then return (.text c.firstUnit, .text c.firstUnit)
  else
    let source ← pair.item 0
    let target ← pair.item 1
    return (source, target)

end ConverterDefaults

structure Selection where
  category : Category
  source : Value
  target : Value
  value : Binary64

namespace Selection

def initial (defaults : ConverterDefaults) : Except Failure Selection := do
  let category ← Category.ofValue defaults.category
  let (source, target) ← defaults.pair category
  return ⟨category, source, target, .zero false⟩

def selectCategory (s : Selection) (category : Value) (defaults : ConverterDefaults) :
    Except Failure Selection := do
  let category ← Category.ofValue category
  let (source, target) ← defaults.pair category
  return { s with category, source, target }

def orElse (unit old : Value) : Value :=
  match unit with
  | .scalar .null => old
  | unit => unit

def selectUnits (s : Selection) (source target : Value) : Except Failure Selection := do
  let source := orElse source s.source
  let target := orElse target s.target
  let _ ← s.category.unit source
  let _ ← s.category.unit target
  return { s with source, target }

def swapUnits (s : Selection) : Selection :=
  { s with source := s.target, target := s.source }

def setValue (s : Selection) (value : Value) : Except Failure Selection := do
  let value ← value.toBinary64
  return { s with value }

def result (s : Selection) (decimals : Value) : Report Binary64 :=
  conversionReport (.text s.category.name) (.real s.value) s.source s.target decimals

end Selection

end DeskCalculator
