import DeskCalculator.Decimal.Basic

namespace DeskCalculator.Magnitude

/-- The power of ten of the leading digit. Scaled up by 10 ^ 340, any nonzero magnitude has
a digit before the point. -/
def leadingPower (x : Magnitude) : Int :=
  ((Decimal.writeDigits (x.units * tenTo 340 / Binary64.unitsPerOne)).length : Int) - 341

def decimalBelow (x : Magnitude) (exponent : Int) : Decimal :=
  ⟨x.units * tenTo (-exponent).toNat / (Binary64.unitsPerOne * tenTo exponent.toNat), exponent⟩

def decimalAbove (x : Magnitude) (exponent : Int) : Decimal :=
  ⟨(x.decimalBelow exponent).digits + 1, exponent⟩

def readsBack (x : Magnitude) (d : Decimal) : Bool :=
  d.magnitude? = some x

def nearerBelow (x : Magnitude) (exponent : Int) : Bool :=
  let twice := 2 * (x.units * tenTo (-exponent).toNat)
  let low := (x.decimalBelow exponent).digits
  let middle := (2 * low + 1) * (Binary64.unitsPerOne * tenTo exponent.toNat)
  twice < middle || (twice = middle && low % 2 = 0)

def choose? (x : Magnitude) (low high : Decimal) (preferLow : Bool) : Option Decimal :=
  if x.readsBack low && (preferLow || !x.readsBack high) then some low
  else if x.readsBack high then some high
  else none

theorem readsBack_choose? {x : Magnitude} {low high d : Decimal} {preferLow : Bool}
    (h : x.choose? low high preferLow = some d) : x.readsBack d = true := by
  unfold choose? at h
  split at h
  · rename_i h1
    rw [← Option.some.inj h]
    exact (Bool.and_eq_true_iff.mp h1).1
  · split at h
    · rename_i h1
      rw [← Option.some.inj h]
      exact h1
    · exact absurd h (by simp)

def decimalAt? (x : Magnitude) (exponent : Int) : Option Decimal :=
  x.choose? (x.decimalBelow exponent) (x.decimalAbove exponent) (x.nearerBelow exponent)

theorem readsBack_decimalAt? {x : Magnitude} {exponent : Int} {d : Decimal}
    (h : x.decimalAt? exponent = some d) : x.readsBack d = true :=
  readsBack_choose? h

def exactDecimal (x : Magnitude) : Decimal :=
  ⟨x.units * Nat.pow 5 1074, -1074⟩

def firstFrom (decimal? : Int → Option Decimal) (other : Decimal) :
    (tries : Nat) → (exponent : Int) → Decimal
  | 0, _ => other
  | tries + 1, exponent =>
      match decimal? exponent with
      | some d => d
      | none => firstFrom decimal? other tries (exponent - 1)

/-- The power of ten above the magnitude is tried first, then one digit, then two, and so on;
seventeen always suffice. -/
def shortest (x : Magnitude) : Decimal :=
  firstFrom x.decimalAt? x.exactDecimal 18 (x.leadingPower + 1)

end DeskCalculator.Magnitude
