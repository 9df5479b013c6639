import DeskCalculator.Power

namespace DeskCalculator.Series

def slack : Nat := twoTo 40

/-- `t - t³/3 + t⁵/5 - …` (alternating) or `t + t³/3 + t⁵/5 + …`, with `power` the next power
of `t` and `k` its exponent. -/
def inverseSum (alternating : Bool) (w square : Nat) : (fuel power k : Nat) → Int
  | 0, _, _ => 0
  | fuel + 1, power, k =>
      if power = 0 then 0
      else
        let rest := inverseSum alternating w square fuel (power * square / twoTo w) (k + 2)
        (power / k : Nat) + if alternating then -rest else rest

def arctan (w t : Nat) : Int :=
  inverseSum true w (t * t / twoTo w) w t 1

def artanh (w t : Nat) : Int :=
  inverseSum false w (t * t / twoTo w) w t 1

/-- `term - term·x²/(k(k+1)) + …`, the common form of the sine and cosine series. -/
def alternatingSum (w square : Nat) : (fuel term k : Nat) → Int
  | 0, _, _ => 0
  | fuel + 1, term, k =>
      if term = 0 then 0
      else (term : Int) -
        alternatingSum w square fuel (term * square / twoTo w / (k * (k + 1))) (k + 2)

def sin (w x : Nat) : Int :=
  alternatingSum w (x * x / twoTo w) w x 2

def cos (w x : Nat) : Int :=
  alternatingSum w (x * x / twoTo w) w (twoTo w) 1

/-- `term + term·x/k + term·x²/(k(k+1)) + …` -/
def exponentialSum (w x : Nat) : (fuel term k : Nat) → Nat
  | 0, _, _ => 0
  | fuel + 1, term, k =>
      if term = 0 then 0
      else term + exponentialSum w x fuel (term * x / twoTo w / k) (k + 1)

def exp (w x : Nat) : Nat :=
  exponentialSum w x w (twoTo w) 1

/-- Four times the arctangent of one: `16 arctan (1/5) - 4 arctan (1/239)`. -/
def pi (w : Nat) : Int :=
  16 * arctan w (twoTo w / 5) - 4 * arctan w (twoTo w / 239)

def lnTwo (w : Nat) : Int :=
  2 * artanh w (twoTo w / 3)

/-- Twice the inverse hyperbolic tangent of `(n - d) / (n + d)`, which is `ln (n / d)`. -/
def lnRatio (w n d : Nat) : Int :=
  let t := 2 * artanh w ((max n d - min n d) * twoTo w / (n + d))
  if d ≤ n then t else -t

def ln (w n : Nat) (e : Int) : Int :=
  let k := if 3 * n < 4 * twoTo n.log2 then n.log2 else n.log2 + 1
  lnRatio w n (twoTo k) + (e + k) * lnTwo w

end DeskCalculator.Series
