import DeskCalculator.Binary64.Elementary
import DeskCalculator.Number.Quantity

namespace DeskCalculator

def resultDecimals : Int := 8

def conversionDecimals : Int := 6

def Binary64.powerOfTen (exponent : Binary64) : Except Failure Binary64 :=
  let power := (ofNat 10).pow exponent
  if exponent.isFinite && !power.isFinite then .error (.misuse .powerTooLarge) else .ok power

def Number.powerOfTen : Number → Except Failure Number
  | .int n =>
      if 0 ≤ n then .ok (.int (tenTo n.toNat))
      else do
        let exponent ← toBinary64 (.int n)
        let power ← exponent.powerOfTen
        return .real power
  | .real x => x.powerOfTen.map .real

def Value.powerOfTen (exponent : Value) : Except Failure Number :=
  match exponent.number? with
  | some n => n.powerOfTen
  | none => .error (.misuse (.operands "** or pow()" .int exponent.kind))

def Binary64.toFloor (x : Binary64) : Except Failure Int :=
  if x.isFinite then .ok x.floor else .error (.misuse .infinite)

/-- The number that is `decimals` digits after the point and got there by adding half a unit of
the last one and cutting off the rest. The sum is rounded before the cut. A number too great to be
scaled has no such digits and stays as it is. -/
def Quantity.roundHalfUp (value : Quantity) (decimals : Value) : Except Failure Binary64 := do
  let factor ← decimals.powerOfTen
  let scaled ← value.mul factor.quantity
  let whole ← scaled.toBinary64
  if whole.isFinite then
    let n ← (whole + .half).toFloor
    Number.div (.int n) factor
  else value.toBinary64

def Binary64.display (x : Binary64) : Except Failure (List Char) :=
  match x.plain? with
  | some cs => .ok cs
  | none => .error (.fault (.overflow (.display x)))

def Number.display : Number → Except Failure (List Char)
  | .int n => do
      let _ ← toBinary64 (.int n)
      return (toString n).toList
  | .real x => x.display

def Value.display : Value → Except Failure (List Char)
  | .scalar (.bool true) => .error (.misuse .notDecimal)
  | v => do
      let n ← v.quantity.number
      n.display

end DeskCalculator
