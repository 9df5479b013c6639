import DeskCalculator.Value.Basic

namespace DeskCalculator

inductive Number where
  | int (n : Int)
  | real (x : Binary64)
  deriving DecidableEq, Repr

def Scalar.number? : Scalar → Option Number
  | .bool b => some (.int (if b then 1 else 0))
  | .int n => some (.int n)
  | .real x => some (.real x)
  | _ => none

def Value.number? : Value → Option Number
  | .scalar s => s.number?
  | _ => none

namespace Number

def toValue : Number → Value
  | .int n => .int n
  | .real x => .real x

def kind : Number → Kind
  | .int _ => .int
  | .real _ => .real

def isZero : Number → Bool
  | .int n => n = 0
  | .real x => x.isZero

def isNegative : Number → Bool
  | .int n => n < 0
  | .real x => x.isNegative

def neg : Number → Number
  | .int n => .int (-n)
  | .real x => .real (-x)

instance : Neg Number := ⟨neg⟩

def floor : Number → Int
  | .int n => n
  | .real x => x.floor

end Number

end DeskCalculator
