import DeskCalculator.Expression.Scan
import DeskCalculator.Number.Quantity
import DeskCalculator.Value.Part

namespace DeskCalculator

def Quantity.inRange (operation : String) (q : Quantity) : Except Failure Number := do
  let n ← q.number
  let x ← n.toBinary64
  if x.isFinite then return n
  else .error (.fault (.overflow (.operation operation)))

namespace Binary64

/-- The product of `start` and the next `count` whole numbers from `next` on, each factor rounded
in, or none once it is infinite. A multiplication may do more than multiply. -/
def risingProductBy {m : Type → Type} [Monad m] (times : Binary64 → Nat → m Binary64) :
    (count next : Nat) → (start : Binary64) → m (Option Binary64)
  | 0, _, start => return some start
  | count + 1, next, start => do
      let product ← times start next
      if product.isFinite then risingProductBy times count (next + 1) product else return none

def timesNat (x : Binary64) (n : Nat) : Id Binary64 :=
  return x * ofNat n

def risingProduct? (count next : Nat) (start : Binary64) : Option Binary64 :=
  (risingProductBy timesNat count next start).run

theorem risingProduct?_zero (next : Nat) (start : Binary64) :
    risingProduct? 0 next start = some start := rfl

theorem risingProduct?_succ (count next : Nat) (start : Binary64) :
    risingProduct? (count + 1) next start =
      if (start * ofNat next).isFinite then risingProduct? count (next + 1) (start * ofNat next)
      else none := rfl

end Binary64

namespace Value

def factorialArgument (v : Value) : Except Failure Number := do
  let n ← v.quantity.comparable "<"
  let isWhole ← if n.isNegative then pure false else n.isIntegral
  if isWhole then return n else .error (.fault (.domain (.factorial v)))

def factorialBy {m : Type → Type} [Monad m] (times : Binary64 → Nat → m Binary64) (v : Value) :
    m (Except Failure Binary64) :=
  match v.factorialArgument with
  | .error e => return .error e
  | .ok n => do
      match ← Binary64.risingProductBy times (n.floor.toNat - 1) 2 .one with
      | some y => return .ok y
      | none => return .error (.fault (.overflow (.factorial n)))

def factorial (v : Value) : Except Failure Binary64 :=
  (v.factorialBy Binary64.timesNat).run

theorem factorial_eq (v : Value) : v.factorial = v.factorialArgument >>= fun n =>
    match Binary64.risingProduct? (n.floor.toNat - 1) 2 .one with
    | some y => .ok y
    | none => .error (.fault (.overflow (.factorial n))) := by
  unfold factorial factorialBy
  cases v.factorialArgument <;> rfl

end Value

namespace Number

def halfToOne (n : Nat) : Binary64 × Nat :=
  let e := n.log2 + 1
  let x := Binary64.ofRatio false n (twoTo e)
  if x = .one then (.half, e + 1) else (x, e)

def logarithm (f : Binary64 → Binary64) : Number → Binary64
  | .real x => f x
  | .int n =>
      let x := Binary64.ofInt n
      if x.isFinite then f x
      else
        let (y, e) := halfToOne n.toNat
        f y + f (.ofNat 2) * .ofNat e

end Number

inductive Function where
  | sin
  | cos
  | tan
  | log
  | ln
  | sqrt
  deriving DecidableEq, Repr

namespace Function

def all : List Function :=
  [.sin, .cos, .tan, .log, .ln, .sqrt]

def name : Function → String
  | .sin => "sin"
  | .cos => "cos"
  | .tan => "tan"
  | .log => "log"
  | .ln => "ln"
  | .sqrt => "sqrt"

def ofName? (s : String) : Option Function :=
  all.find? (·.name = s)

theorem map_name_all : all.map name = functionNames := rfl

def ofDegrees (name : String) (f : Binary64 → Binary64) (v : Value) : Except Failure Binary64 := do
  let x ← v.quantity.toBinary64
  match x with
  | .infinite _ => .error (.fault (.domain (.undefinedAngle name v)))
  | _ => return f x.radians

def ofPositive (name : String) (f : Binary64 → Binary64) (v : Value) : Except Failure Binary64 := do
  let n ← v.quantity.comparable "<="
  if n.isNegative || n.isZero then .error (.fault (.domain (.notPositive name v)))
  else return n.logarithm f

def root (v : Value) : Except Failure Binary64 := do
  let n ← v.quantity.comparable "<"
  if n.isNegative then .error (.fault (.domain (.negativeRoot v)))
  else
    let x ← n.toBinary64
    return x.sqrt

def value : Function → Value → Except Failure Binary64
  | .sin => ofDegrees "sin" .sin
  | .cos => ofDegrees "cos" .cos
  | .tan => ofDegrees "tan" .tan
  | .log => ofPositive "log" .log10
  | .ln => ofPositive "ln" .ln
  | .sqrt => root

def apply (f : Function) (v : Value) : Except Failure Number := do
  let y ← f.value v
  (Quantity.ofReal y).inRange f.name

end Function

def applyFunction (name v : Value) : Except Failure Number := do
  match ← name.lookUp Function.ofName? with
  | some f => f.apply v
  | none => .error (.misuse (.missingKey name))

namespace Value

def powerOperand (cause : OverflowCause) (v : Value) : Except Failure Binary64 :=
  match v.quantity.toBinary64 with
  | .error (.misuse .tooLarge) => .error (.fault (.overflow cause))
  | result => result

def power (base exponent : Value) : Except Failure Binary64 := do
  let n ← if base.quantity.isZero then exponent.quantity.comparable "<" else pure (.int 0)
  if n.isNegative then .error (.fault (.divisionByZero .negativePower))
  else
    let x ← powerOperand (.power base exponent) base
    let y ← powerOperand (.power base exponent) exponent
    let z := x.pow y
    if x.isFinite && y.isFinite && z.isNaN then
      .error (.fault (.domain (.fractionalPower base exponent)))
    else if x.isFinite && y.isFinite && !z.isFinite then
      .error (.fault (.overflow (.power base exponent)))
    else return z

end Value

inductive Operation where
  | plus
  | minus
  | times
  | over
  | power
  deriving DecidableEq, Repr

namespace Operation

def all : List Operation :=
  [.plus, .minus, .times, .over, .power]

def symbol : Operation → String
  | .plus => "+"
  | .minus => "-"
  | .times => "*"
  | .over => "/"
  | .power => "^"

def ofSymbol? (s : String) : Option Operation :=
  all.find? (·.symbol = s)

def value (op : Operation) (x y : Value) : Except Failure Quantity :=
  match op with
  | .plus => x.quantity.add y.quantity
  | .minus => x.quantity.sub y.quantity
  | .times => x.quantity.mul y.quantity
  | .over =>
      if y.quantity.isZero then .error (.fault (.divisionByZero (.quotient x)))
      else (x.quantity.div y.quantity).map .ofReal
  | .power => (x.power y).map .ofReal

def apply (op : Operation) (x y : Value) : Except Failure Number := do
  let q ← op.value x y
  q.inRange op.symbol

end Operation

def applyBinary (symbol : String) (x y : Value) : Except Failure Number :=
  match Operation.ofSymbol? symbol with
  | none => .error (.invalid (.symbol symbol))
  | some op => op.apply x y

end DeskCalculator
