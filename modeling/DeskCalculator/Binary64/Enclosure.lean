import DeskCalculator.Binary64.Rounding

namespace DeskCalculator

structure Enclosure where
  lo : Int
  hi : Int
  exponent : Int
  deriving Repr

namespace Enclosure

def around (centre : Int) (slack : Nat) (exponent : Int) : Enclosure :=
  ⟨centre - slack, centre + slack, exponent⟩

def unresolved : Enclosure :=
  ⟨-1, 1, 0⟩

def neg (c : Enclosure) : Enclosure :=
  ⟨-c.hi, -c.lo, c.exponent⟩

def rounded? (c : Enclosure) : Option Binary64 :=
  let low := Binary64.ofDyadic c.lo c.exponent
  if low = Binary64.ofDyadic c.hi c.exponent then some low else none

/-- Doubles the precision until the enclosure settles the rounding; after the last attempt the
lower end has to do. -/
def round (enclose : (precision : Nat) → Enclosure) : (attempts : Nat) → (precision : Nat) → Binary64
  | 0, w => Binary64.ofDyadic (enclose w).lo (enclose w).exponent
  | attempts + 1, w =>
      match (enclose w).rounded? with
      | some x => x
      | none => round enclose attempts (2 * w)

end Enclosure

end DeskCalculator
