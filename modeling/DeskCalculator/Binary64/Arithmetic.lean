import DeskCalculator.Binary64.Rounding

namespace DeskCalculator.Binary64

def add : Binary64 → Binary64 → Binary64
  | .nan, _ => .nan
  | _, .nan => .nan
  | .infinite s, .infinite t => if s = t then .infinite s else .nan
  | .infinite s, .finite _ _ => .infinite s
  | .finite _ _, .infinite t => .infinite t
  | .finite s a, .finite t b =>
      let total := units (.finite s a) + units (.finite t b)
      if total = 0 then zero (s && t) else ofUnits (total < 0) total.natAbs 1

instance : Add Binary64 := ⟨add⟩

def sub (x y : Binary64) : Binary64 :=
  x + -y

instance : Sub Binary64 := ⟨sub⟩

def mul : Binary64 → Binary64 → Binary64
  | .nan, _ => .nan
  | _, .nan => .nan
  | .infinite s, .infinite t => .infinite (s != t)
  | .infinite s, .finite t b => if b.units = 0 then .nan else .infinite (s != t)
  | .finite s a, .infinite t => if a.units = 0 then .nan else .infinite (s != t)
  | .finite s a, .finite t b => ofUnits (s != t) (a.units * b.units) unitsPerOne

instance : Mul Binary64 := ⟨mul⟩

def div : Binary64 → Binary64 → Binary64
  | .nan, _ => .nan
  | _, .nan => .nan
  | .infinite _, .infinite _ => .nan
  | .infinite s, .finite t _ => .infinite (s != t)
  | .finite s _, .infinite t => zero (s != t)
  | .finite s a, .finite t b =>
      if b.units = 0 then if a.units = 0 then .nan else .infinite (s != t)
      else ofUnits (s != t) (a.units * unitsPerOne) b.units

instance : Div Binary64 := ⟨div⟩

def wholeRoot : (pairs : Nat) → Nat → Nat
  | 0, _ => 0
  | pairs + 1, n =>
      let r := 2 * wholeRoot pairs (n / 4)
      if (r + 1) * (r + 1) ≤ n then r + 1 else r

/-- The square root. The root of `n` units is at least 2 ^ 537 units, so its whole part
settles the rounding but for a remainder, which stands for half a unit. -/
def sqrt : Binary64 → Binary64
  | .nan => .nan
  | .infinite s => if s then .nan else .infinite false
  | .finite s m =>
      if m.units = 0 then .finite s m
      else if s then .nan
      else
        let n := m.units * unitsPerOne
        let r := wholeRoot (n.log2 / 2 + 1) n
        if r * r = n then ofUnits false r 1 else ofUnits false (2 * r + 1) 2

def one : Binary64 := ofNat 1

def half : Binary64 := ofRatio false 1 2

end DeskCalculator.Binary64
