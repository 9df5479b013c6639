namespace DeskCalculator

inductive Category where
  | length
  | weight
  | temperature
  | area
  | volume
  deriving DecidableEq, Repr

namespace Category

def all : List Category :=
  [.length, .weight, .temperature, .area, .volume]

def name : Category → String
  | .length => "length"
  | .weight => "weight"
  | .temperature => "temperature"
  | .area => "area"
  | .volume => "volume"

def ofName? (s : String) : Option Category :=
  all.find? (·.name = s)

theorem ofName?_name (c : Category) : ofName? c.name = some c := by
  cases c <;> decide

end Category

end DeskCalculator
