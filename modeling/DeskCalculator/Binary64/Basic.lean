import DeskCalculator.Power

namespace DeskCalculator

/-- The size of a finite number, `significand * 2 ^ scale` units, in its only normal form. -/
structure Magnitude where
  significand : Nat
  scale : Nat
  significand_lt : significand < twoTo 53
  scale_le : scale ≤ 2045
  scale_eq_zero : significand < twoTo 52 → scale = 0
  deriving DecidableEq, Repr

namespace Magnitude

def units (x : Magnitude) : Nat :=
  x.significand * twoTo x.scale

def zero : Magnitude :=
  ⟨0, 0, by decide, by decide, fun _ => rfl⟩

@[simp] theorem units_zero : zero.units = 0 := rfl

theorem units_eq_zero (x : Magnitude) : x.units = 0 ↔ x = zero := by
  constructor
  · intro h
    have hs : x.significand = 0 := by
      rcases Nat.mul_eq_zero.mp h with h | h
      · exact h
      · exact absurd h (Nat.ne_of_gt (twoTo_pos _))
    have he : x.scale = 0 := x.scale_eq_zero (by rw [hs]; decide)
    cases x
    simp_all [zero]
  · rintro rfl
    rfl

end Magnitude

/-- The sign of a zero matters, the sign of a `nan` does not exist. -/
inductive Binary64 where
  | nan
  | infinite (negative : Bool)
  | finite (negative : Bool) (magnitude : Magnitude)
  deriving DecidableEq, Repr

namespace Binary64

def unitsPerOne : Nat := twoTo 1074

def zero (negative : Bool) : Binary64 :=
  .finite negative .zero

instance : Inhabited Binary64 := ⟨zero false⟩

def isFinite : Binary64 → Bool
  | .finite _ _ => true
  | _ => false

def isNaN : Binary64 → Bool
  | .nan => true
  | _ => false

def isZero : Binary64 → Bool
  | .finite _ m => m.units = 0
  | _ => false

def isNegative : Binary64 → Bool
  | .nan => false
  | .infinite s => s
  | .finite s m => s && m.units ≠ 0

def units : Binary64 → Int
  | .finite true m => -(m.units : Int)
  | .finite false m => m.units
  | _ => 0

def neg : Binary64 → Binary64
  | .nan => .nan
  | .infinite s => .infinite !s
  | .finite s m => .finite (!s) m

instance : Neg Binary64 := ⟨neg⟩

def floor (x : Binary64) : Int :=
  x.units / unitsPerOne

def isIntegral (x : Binary64) : Bool :=
  x.isFinite && x.units % unitsPerOne = 0

@[simp] theorem neg_neg (x : Binary64) : -(-x) = x := by
  cases x <;> simp [Neg.neg, neg]

end Binary64

end DeskCalculator
