import DeskCalculator.Binary64.Arithmetic
import DeskCalculator.Binary64.Enclosure
import DeskCalculator.Binary64.Series

namespace DeskCalculator.Binary64

open Series

def attempts : Nat := 6

def quarterTurns (w units : Nat) : Nat × Int :=
  let v := w + (units.log2 - 1074) + 16
  let x := units * twoTo v / unitsPerOne
  let quarter := (pi v).toNat / 2
  let n := (2 * x + quarter) / (2 * quarter)
  (n, ((x : Int) - n * quarter) / twoTo (v - w))

def sinCos (w units : Nat) : Int × Int :=
  let (n, r) := quarterTurns w units
  let s := if r < 0 then -Series.sin w r.natAbs else Series.sin w r.natAbs
  let c := Series.cos w r.natAbs
  match n % 4 with
  | 0 => (s, c)
  | 1 => (c, -s)
  | 2 => (-s, -c)
  | _ => (-c, s)

def smallPrecision (units : Nat) : Nat :=
  128 + (1074 - units.log2)

def signed (negative : Bool) (c : Enclosure) : Enclosure :=
  if negative then c.neg else c

def sin : Binary64 → Binary64
  | .finite s m =>
      if m.units = 0 then .finite s m
      else
        Enclosure.round
          (fun w => signed s (.around (sinCos w m.units).1 slack (-w)))
          attempts (smallPrecision m.units)
  | _ => .nan

def cos : Binary64 → Binary64
  | .finite _ m =>
      if m.units = 0 then one
      else Enclosure.round (fun w => .around (sinCos w m.units).2 slack (-w)) attempts 128
  | _ => .nan

def quotient (w : Nat) (a b : Int) : Enclosure :=
  let an := a.natAbs
  let bn := b.natAbs
  if an ≤ slack ∨ bn ≤ slack then .unresolved
  else
    signed ((a < 0) != (b < 0))
      ⟨((an - slack) * twoTo w / (bn + slack) : Nat),
        ((an + slack) * twoTo w / (bn - slack) + 1 : Nat), -w⟩

def tan : Binary64 → Binary64
  | .finite s m =>
      if m.units = 0 then .finite s m
      else
        Enclosure.round
          (fun w => signed s (quotient w (sinCos w m.units).1 (sinCos w m.units).2))
          attempts (smallPrecision m.units)
  | _ => .nan

def isOne (x : Binary64) : Bool :=
  x = one

def ln : Binary64 → Binary64
  | .nan => .nan
  | .infinite s => if s then .nan else .infinite false
  | .finite s m =>
      if m.units = 0 then .infinite true
      else if s then .nan
      else if isOne (.finite s m) then zero false
      else
        Enclosure.round
          (fun w => .around (Series.ln w m.significand (m.scale - 1074)) slack (-w))
          attempts 192

def log10 : Binary64 → Binary64
  | .nan => .nan
  | .infinite s => if s then .nan else .infinite false
  | .finite s m =>
      if m.units = 0 then .infinite true
      else if s then .nan
      else if isOne (.finite s m) then zero false
      else
        Enclosure.round
          (fun w => quotient w (Series.ln w m.significand (m.scale - 1074)) (Series.ln w 10 0))
          attempts 192

def trailingZeros : (fuel : Nat) → Nat → Nat
  | 0, _ => 0
  | fuel + 1, n => if n % 2 = 0 then trailingZeros fuel (n / 2) + 1 else 0

def oddPart (m : Magnitude) : Nat × Int :=
  let k := trailingZeros 53 m.significand
  (m.significand / twoTo k, (m.scale : Int) - 1074 + k)

def exactRoot : (depth odd : Nat) → (e : Int) → Option (Nat × Int)
  | 0, odd, e => some (odd, e)
  | depth + 1, odd, e =>
      let r := wholeRoot (odd.log2 / 2 + 1) odd
      if r * r = odd ∧ e % 2 = 0 then exactRoot depth r (e / 2) else none

/-- A power that is a dyadic number of few digits. Only such a power can lie halfway between
two Binary64 numbers, where no enclosure settles the rounding. -/
def exactPower? (base : Magnitude) (negative : Bool) (exponent : Magnitude) : Option Binary64 :=
  let (odd, e) := oddPart base
  let (n, f) := oddPart exponent
  match exactRoot (-f).toNat odd e with
  | none => none
  | some (odd, e) =>
      let n := n * twoTo (min f.toNat 64)
      if odd = 1 then
        let e := if negative then -(e * n) else e * n
        if e < -1200 then some (zero false)
        else if 1100 < e then some (.infinite false)
        else some (ofDyadic 1 e)
      else if negative ∨ 64 < n * odd.log2 then none
      else
        let e := e * n
        if e < -1200 then some (zero false)
        else if 1100 < e then some (.infinite false)
        else some (ofDyadic (Nat.pow odd n : Nat) e)

def expEnclosure (w : Nat) (x : Int) : Enclosure :=
  let ln2 := lnTwo w
  let k := x / ln2
  .around (Series.exp w (x - k * ln2).toNat) (slack * twoTo 12) (k - w)

def positivePower (base : Magnitude) (negative : Bool) (exponent : Magnitude) : Binary64 :=
  match exactPower? base negative exponent with
  | some x => x
  | none =>
      let logarithm (w : Nat) : Int :=
        let v := w + (exponent.units.log2 - 1074) + 16
        let y := Series.ln v base.significand (base.scale - 1074) * exponent.units
        let y := y / (unitsPerOne * twoTo (v - w) : Nat)
        if negative then -y else y
      let estimate := logarithm 64 / twoTo 64
      if estimate < -1000 then zero false
      else if 1000 < estimate then .infinite false
      else Enclosure.round (fun w => expEnclosure w (logarithm w)) attempts 192

def isOddIntegral (x : Binary64) : Bool :=
  x.isIntegral && x.floor % 2 = 1

def compareOne (m : Magnitude) : Ordering :=
  compare m.units unitsPerOne

def pow (x y : Binary64) : Binary64 :=
  if y.isZero ∨ isOne x then one
  else
    match x, y with
    | .nan, _ => .nan
    | _, .nan => .nan
    | .infinite s, y =>
        let s := s && isOddIntegral y
        if y.isNegative then zero s else .infinite s
    | .finite _ m, .infinite t =>
        match compareOne m with
        | .eq => one
        | .gt => if t then zero false else .infinite false
        | .lt => if t then .infinite false else zero false
    | .finite s m, .finite t n =>
        let odd := isOddIntegral (.finite t n)
        if m.units = 0 then if t then .infinite (s && odd) else zero (s && odd)
        else if s && !(Binary64.finite t n).isIntegral then .nan
        else if m.units = unitsPerOne then if s && odd then -one else one
        else
          let r := positivePower m t n
          if s && odd then -r else r

def pi : Binary64 :=
  .finite false ⟨7074237752028440, 1023, by decide, by decide, by decide⟩

def e : Binary64 :=
  .finite false ⟨6121026514868073, 1023, by decide, by decide, by decide⟩

/-- An angle in radians, from degrees: rounded once for the size of a degree, which is a rounded
quotient itself, and once more here. -/
def radians (degrees : Binary64) : Binary64 :=
  degrees * (pi / ofNat 180)

end DeskCalculator.Binary64
