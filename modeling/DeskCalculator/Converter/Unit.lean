import DeskCalculator.Decimal.Basic
import DeskCalculator.Value.Part

namespace DeskCalculator

inductive Measure where
  | multiple (factor : Decimal)
  | celsius
  | fahrenheit
  | kelvin
  deriving DecidableEq, Repr

structure MeasureUnit where
  id : String
  name : String
  measure : Measure
  deriving DecidableEq, Repr

namespace MeasureUnit

def factor? (u : MeasureUnit) : Option Binary64 :=
  match u.measure with
  | .multiple factor => some (factor.toBinary64 false)
  | _ => none

end MeasureUnit

namespace Category

def units : Category → List MeasureUnit
  | .length =>
      [⟨"meter", "Meters", .multiple ⟨1, 0⟩⟩,
        ⟨"kilometer", "Kilometers", .multiple ⟨1000, 0⟩⟩,
        ⟨"centimeter", "Centimeters", .multiple ⟨1, -2⟩⟩,
        ⟨"millimeter", "Millimeters", .multiple ⟨1, -3⟩⟩,
        ⟨"mile", "Miles", .multiple ⟨160934, -2⟩⟩,
        ⟨"yard", "Yards", .multiple ⟨9144, -4⟩⟩,
        ⟨"foot", "Feet", .multiple ⟨3048, -4⟩⟩,
        ⟨"inch", "Inches", .multiple ⟨254, -4⟩⟩]
  | .weight =>
      [⟨"kilogram", "Kilograms", .multiple ⟨1, 0⟩⟩,
        ⟨"gram", "Grams", .multiple ⟨1, -3⟩⟩,
        ⟨"milligram", "Milligrams", .multiple ⟨1, -6⟩⟩,
        ⟨"pound", "Pounds", .multiple ⟨453592, -6⟩⟩,
        ⟨"ounce", "Ounces", .multiple ⟨283495, -7⟩⟩,
        ⟨"ton", "Tons", .multiple ⟨1000, 0⟩⟩]
  | .temperature =>
      [⟨"celsius", "Celsius", .celsius⟩,
        ⟨"fahrenheit", "Fahrenheit", .fahrenheit⟩,
        ⟨"kelvin", "Kelvin", .kelvin⟩]
  | .area =>
      [⟨"squareMeter", "Square Meters", .multiple ⟨1, 0⟩⟩,
        ⟨"squareKilometer", "Square Kilometers", .multiple ⟨1000000, 0⟩⟩,
        ⟨"squareMile", "Square Miles", .multiple ⟨258998811, -2⟩⟩,
        ⟨"squareYard", "Square Yards", .multiple ⟨836127, -6⟩⟩,
        ⟨"squareFoot", "Square Feet", .multiple ⟨92903, -6⟩⟩,
        ⟨"acre", "Acres", .multiple ⟨404686, -2⟩⟩,
        ⟨"hectare", "Hectares", .multiple ⟨10000, 0⟩⟩]
  | .volume =>
      [⟨"liter", "Liters", .multiple ⟨1, 0⟩⟩,
        ⟨"milliliter", "Milliliters", .multiple ⟨1, -3⟩⟩,
        ⟨"gallon", "Gallons", .multiple ⟨378541, -5⟩⟩,
        ⟨"quart", "Quarts", .multiple ⟨946353, -6⟩⟩,
        ⟨"pint", "Pints", .multiple ⟨473176, -6⟩⟩,
        ⟨"cup", "Cups", .multiple ⟨24, -2⟩⟩,
        ⟨"cubicMeter", "Cubic Meters", .multiple ⟨1000, 0⟩⟩]

def unitIds (c : Category) : List String :=
  c.units.map (·.id)

def unit? (c : Category) (id : String) : Option MeasureUnit :=
  c.units.find? (·.id = id)

def firstUnit (c : Category) : String :=
  (c.unitIds.head?).getD ""

def unit (c : Category) (id : Value) : Except Failure MeasureUnit := do
  match ← id.lookUp c.unit? with
  | some u => return u
  | none => .error (.fault (.unknownUnit c id))

def ofValue (v : Value) : Except Failure Category :=
  match v with
  | .scalar (.text s) =>
      match ofName? s with
      | some c => .ok c
      | none => .error (.fault (.unknownCategory v))
  | _ => .error (.fault (.unknownCategory v))

end Category

end DeskCalculator
