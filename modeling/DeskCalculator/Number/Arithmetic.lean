import DeskCalculator.Binary64.Arithmetic
import DeskCalculator.Failure

namespace DeskCalculator

namespace Number

def toBinary64 : Number → Except Failure Binary64
  | .int n =>
      let x := Binary64.ofInt n
      if x.isFinite then .ok x else .error (.misuse .tooLarge)
  | .real x => .ok x

def combine (exact : Int → Int → Int) (rounded : Binary64 → Binary64 → Binary64) :
    Number → Number → Except Failure Number
  | .int m, .int n => .ok (.int (exact m n))
  | a, b => do
      let x ← a.toBinary64
      let y ← b.toBinary64
      return .real (rounded x y)

def add : Number → Number → Except Failure Number :=
  combine (· + ·) (· + ·)

def sub : Number → Number → Except Failure Number :=
  combine (· - ·) (· - ·)

def mul : Number → Number → Except Failure Number :=
  combine (· * ·) (· * ·)

def div : Number → Number → Except Failure Binary64
  | .int m, .int n =>
      if n = 0 then .error (.misuse .zeroDivisor)
      else
        let q := Binary64.ofRatio ((m < 0) != (n < 0)) m.natAbs n.natAbs
        if q.isFinite then .ok q else .error (.misuse .quotientTooLarge)
  | a, b => do
      let x ← a.toBinary64
      let y ← b.toBinary64
      if y.isZero then .error (.misuse .zeroDivisor) else return x / y

def isIntegral : Number → Except Failure Bool
  | .int n => do
      let _ ← toBinary64 (.int n)
      return true
  | .real x => .ok x.isIntegral

end Number

end DeskCalculator
