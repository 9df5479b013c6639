import DeskCalculator.Binary64.Basic

namespace DeskCalculator

def roundHalfEven (n d : Nat) : Nat :=
  let q := n / d
  let twice := 2 * (n % d)
  if twice < d then q
  else if twice = d then q + q % 2
  else q + 1

theorem le_roundHalfEven (n d : Nat) : n / d ≤ roundHalfEven n d := by
  unfold roundHalfEven
  dsimp only
  split
  · exact Nat.le_refl _
  · split <;> omega

theorem roundHalfEven_le (n d : Nat) : roundHalfEven n d ≤ n / d + 1 := by
  unfold roundHalfEven
  dsimp only
  split
  · omega
  · split <;> omega

namespace Magnitude

def scaleOf (n d : Nat) : Nat :=
  (n / d).log2 - 52

theorem quotient_lt (n d : Nat) : n / (d * twoTo (scaleOf n d)) < twoTo 53 := by
  rw [← Nat.div_div_eq_div_mul, Nat.div_lt_iff_lt_mul (twoTo_pos _), ← twoTo_add]
  exact Nat.lt_of_lt_of_le (lt_twoTo_log2 _) (twoTo_le (by unfold scaleOf; omega))

theorem le_quotient (n d : Nat) (h : scaleOf n d ≠ 0) :
    twoTo 52 ≤ n / (d * twoTo (scaleOf n d)) := by
  have hlog : (n / d).log2 = 52 + scaleOf n d := by
    unfold scaleOf at h ⊢
    omega
  have hq : n / d ≠ 0 := by
    intro h0
    rw [h0] at hlog
    simp only [Nat.log2_zero] at hlog
    omega
  rw [← Nat.div_div_eq_div_mul, Nat.le_div_iff_mul_le (twoTo_pos _), ← twoTo_add, ← hlog]
  exact twoTo_log2_le hq

def nearest? (n d : Nat) : Option Magnitude :=
  let scale := scaleOf n d
  let significand := roundHalfEven n (d * twoTo scale)
  if hm : significand < twoTo 53 then
    if he : scale ≤ 2045 then
      some ⟨significand, scale, hm, he, fun h => by
        apply Decidable.byContradiction
        intro h0
        exact absurd h (Nat.not_lt.mpr
          (Nat.le_trans (le_quotient n d h0) (le_roundHalfEven n (d * twoTo (scaleOf n d)))))⟩
    else none
  else if he : scale + 1 ≤ 2045 then
    some ⟨twoTo 52, scale + 1, by decide, he, fun h => absurd h (Nat.lt_irrefl _)⟩
  else none

end Magnitude

namespace Binary64

def ofUnits (negative : Bool) (n d : Nat) : Binary64 :=
  match Magnitude.nearest? n d with
  | some m => .finite negative m
  | none => .infinite negative

def ofRatio (negative : Bool) (n d : Nat) : Binary64 :=
  ofUnits negative (n * unitsPerOne) d

def ofInt (n : Int) : Binary64 :=
  ofRatio (n < 0) n.natAbs 1

def ofNat (n : Nat) : Binary64 :=
  ofRatio false n 1

def ofDyadic (n e : Int) : Binary64 :=
  if -1074 ≤ e then ofUnits (n < 0) (n.natAbs * twoTo (e + 1074).toNat) 1
  else ofUnits (n < 0) n.natAbs (twoTo (-1074 - e).toNat)

end Binary64

end DeskCalculator
