import DeskCalculator.Binary64.Arithmetic
import Mathlib.Tactic.Ring

namespace DeskCalculator

theorem roundHalfEven_lt_iff {n d k : Nat} (hd : 0 < d) (hk : k % 2 = 0) :
    roundHalfEven n d < k ↔ 2 * n + d < 2 * k * d := by
  have hn : d * (n / d) + n % d = n := Nat.div_add_mod n d
  have hr : n % d < d := Nat.mod_lt n hd
  rcases Nat.lt_trichotomy (n / d + 1) k with hlt | heq | hgt
  · have hround := roundHalfEven_le n d
    have hprod : d * (n / d + 2) ≤ d * k := Nat.mul_le_mul_left d hlt
    have hcomm : 2 * k * d = 2 * (d * k) := by ring
    rw [Nat.mul_add] at hprod
    omega
  · have hcomm : 2 * k * d = 2 * (d * (n / d)) + 2 * d := by
      rw [← heq]
      ring
    have hround : roundHalfEven n d < k ↔ 2 * (n % d) < d := by
      unfold roundHalfEven
      dsimp only
      split
      · omega
      · split <;> omega
    omega
  · have hround := le_roundHalfEven n d
    have hprod : d * k ≤ d * (n / d) := Nat.mul_le_mul_left d (Nat.lt_succ_iff.mp hgt)
    have hcomm : 2 * k * d = 2 * (d * k) := by ring
    omega

namespace Magnitude

def greatest : Nat :=
  (twoTo 53 - 1) * twoTo 2045

def outOfRange : Nat :=
  (2 * twoTo 53 - 1) * twoTo 2044

theorem units_le_greatest (x : Magnitude) : x.units ≤ greatest :=
  Nat.mul_le_mul (Nat.le_sub_one_of_lt x.significand_lt) (twoTo_le x.scale_le)

theorem nearest?_isSome_iff_scale (n d : Nat) : (nearest? n d).isSome ↔
    scaleOf n d < 2045 ∨
      scaleOf n d = 2045 ∧ roundHalfEven n (d * twoTo (scaleOf n d)) < twoTo 53 := by
  unfold nearest?
  dsimp only
  split
  · rename_i hm
    split
    · simp only [Option.isSome_some, true_iff, hm, and_true]
      omega
    · simp only [Option.isSome_none, Bool.false_eq_true, false_iff, hm, and_true]
      omega
  · rename_i hm
    split
    · simp only [Option.isSome_some, true_iff, hm, and_false, or_false]
      omega
    · simp only [Option.isSome_none, Bool.false_eq_true, false_iff, hm, and_false, or_false]
      omega

theorem lt_outOfRange_of_scale {n d : Nat} (hd : 0 < d) (h : scaleOf n d < 2045) :
    n < outOfRange * d := by
  have hq := quotient_lt n d
  rw [Nat.div_lt_iff_lt_mul (Nat.mul_pos hd (twoTo_pos _))] at hq
  have hscale : d * twoTo (scaleOf n d) ≤ d * twoTo 2044 :=
    Nat.mul_le_mul_left d (twoTo_le (Nat.lt_succ_iff.mp h))
  calc n < twoTo 53 * (d * twoTo (scaleOf n d)) := hq
    _ ≤ twoTo 53 * (d * twoTo 2044) := Nat.mul_le_mul_left _ hscale
    _ ≤ (2 * twoTo 53 - 1) * (d * twoTo 2044) := Nat.mul_le_mul_right _ (by decide)
    _ = outOfRange * d := by rw [outOfRange]; ring

theorem outOfRange_le_of_scale {n d : Nat} (hd : 0 < d) (h : 2045 < scaleOf n d) :
    outOfRange * d ≤ n := by
  have hq := le_quotient n d (by omega)
  rw [Nat.le_div_iff_mul_le (Nat.mul_pos hd (twoTo_pos _))] at hq
  have hscale : d * twoTo 2046 ≤ d * twoTo (scaleOf n d) :=
    Nat.mul_le_mul_left d (twoTo_le h)
  have hfour : twoTo 2046 = 4 * twoTo 2044 := by
    rw [twoTo_succ 2045, twoTo_succ 2044]
    ring
  calc outOfRange * d = (2 * twoTo 53 - 1) * (d * twoTo 2044) := by rw [outOfRange]; ring
    _ ≤ (twoTo 52 * 4) * (d * twoTo 2044) := Nat.mul_le_mul_right _ (by decide)
    _ = twoTo 52 * (d * twoTo 2046) := by rw [hfour]; ring
    _ ≤ twoTo 52 * (d * twoTo (scaleOf n d)) := Nat.mul_le_mul_left _ hscale
    _ ≤ n := hq

theorem nearest?_isSome_iff {n d : Nat} (hd : 0 < d) :
    (nearest? n d).isSome ↔ n < outOfRange * d := by
  rw [nearest?_isSome_iff_scale]
  rcases Nat.lt_trichotomy (scaleOf n d) 2045 with hlt | heq | hgt
  · exact iff_of_true (.inl hlt) (lt_outOfRange_of_scale hd hlt)
  · -- At the greatest scale a tie is rounded to the even significand, which is a digit too long.
    have heven : twoTo 53 % 2 = 0 := by decide
    rw [heq, roundHalfEven_lt_iff (Nat.mul_pos hd (twoTo_pos _)) heven]
    have htop : 2 * (outOfRange * d) = (2 * twoTo 53 - 1) * (d * twoTo 2045) := by
      rw [show twoTo 2045 = 2 * twoTo 2044 from twoTo_succ 2044, outOfRange]
      ring
    have hsplit : 2 * twoTo 53 * (d * twoTo 2045) =
        (2 * twoTo 53 - 1) * (d * twoTo 2045) + d * twoTo 2045 := by
      rw [← Nat.succ_mul]
      rfl
    omega
  · exact iff_of_false (by omega) (Nat.not_lt.mpr (outOfRange_le_of_scale hd hgt))

theorem nearest?_eq_zero {n d : Nat} (hd : 0 < d) (h : 2 * n ≤ d) :
    nearest? n d = some zero := by
  have hq : n / d = 0 := Nat.div_eq_of_lt (by omega)
  have hr : n % d = n := Nat.mod_eq_of_lt (by omega)
  have hscale : scaleOf n d = 0 := by
    rw [scaleOf, hq]
    rfl
  have hround : roundHalfEven n (d * twoTo 0) = 0 := by
    rw [show d * twoTo 0 = d from Nat.mul_one d]
    unfold roundHalfEven
    dsimp only
    rw [hq, hr]
    split
    · rfl
    · rw [if_pos (by omega)]
  unfold nearest?
  simp [hround, hscale, zero, twoTo_pos]

end Magnitude

namespace Binary64

open Magnitude

theorem ofUnits_some {n d : Nat} {m : Magnitude} (h : nearest? n d = some m) (negative : Bool) :
    ofUnits negative n d = .finite negative m := by
  unfold ofUnits
  split
  · rename_i m' hm
    cases h.symm.trans hm
    rfl
  · rename_i hm
    cases h.symm.trans hm

theorem ofUnits_none {n d : Nat} (h : nearest? n d = none) (negative : Bool) :
    ofUnits negative n d = .infinite negative := by
  unfold ofUnits
  split
  · rename_i m hm
    cases h.symm.trans hm
  · rfl

theorem isFinite_ofUnits {negative : Bool} {n d : Nat} (hd : 0 < d) :
    (ofUnits negative n d).isFinite = true ↔ n < outOfRange * d := by
  refine Iff.trans ?_ (nearest?_isSome_iff hd)
  cases h : nearest? n d with
  | some m => simp [ofUnits_some h, isFinite]
  | none => simp [ofUnits_none h, isFinite]

theorem natAbs_units_le (x : Binary64) : x.units.natAbs ≤ greatest := by
  cases x with
  | nan => exact Nat.zero_le _
  | infinite s => exact Nat.zero_le _
  | finite s m =>
    have hm := m.units_le_greatest
    cases s <;> simpa [units] using hm

theorem isFinite_add {x y : Binary64} (hx : x.isFinite = true) (hy : y.isFinite = true)
    (h : (x.units + y.units).natAbs < outOfRange) : (x + y).isFinite = true := by
  cases x with
  | nan => cases hx
  | infinite s => cases hx
  | finite s a =>
    cases y with
    | nan => cases hy
    | infinite t => cases hy
    | finite t b =>
      change (if _ then _ else _ : Binary64).isFinite = true
      split
      · rfl
      · rw [isFinite_ofUnits Nat.one_pos, Nat.mul_one]
        exact h

theorem isFinite_half : half.isFinite = true := by decide +kernel

theorem isFinite_add_half {x : Binary64} (hx : x.isFinite = true) :
    (x + half).isFinite = true := by
  refine isFinite_add hx isFinite_half ?_
  have hhalf : half.units.natAbs ≤ twoTo 2043 := by decide +kernel
  have hgap : greatest + twoTo 2043 < outOfRange := by decide +kernel
  have hle := x.natAbs_units_le
  omega

theorem natAbs_floor_le (x : Binary64) : x.floor.natAbs * unitsPerOne ≤ greatest := by
  have hgreatest : greatest = (twoTo 53 - 1) * twoTo 971 * unitsPerOne := by decide +kernel
  have hunit : (0 : Int) < unitsPerOne := Int.natCast_pos.mpr (twoTo_pos 1074)
  have hle := x.natAbs_units_le
  rw [hgreatest] at hle ⊢
  generalize (twoTo 53 - 1) * twoTo 971 = g at hle ⊢
  have hcast : (x.units.natAbs : Int) ≤ g * unitsPerOne := by exact_mod_cast hle
  have hlow : -(g : Int) ≤ x.floor := by
    rw [floor, Int.le_ediv_iff_mul_le hunit, Int.neg_mul]
    omega
  have hhigh : x.floor ≤ g := Int.ediv_le_of_le_mul hunit (by omega)
  exact Nat.mul_le_mul_right _ (by omega)

theorem isFinite_ofRatio_floor (x : Binary64) (negative : Bool) {d : Nat} (hd : 0 < d) :
    (ofRatio negative x.floor.natAbs d).isFinite = true := by
  rw [ofRatio, isFinite_ofUnits hd]
  calc x.floor.natAbs * unitsPerOne ≤ greatest := x.natAbs_floor_le
    _ < outOfRange := by decide +kernel
    _ ≤ outOfRange * d := Nat.le_mul_of_pos_right _ hd

theorem isFinite_ofInt_tenTo {d : Nat} (h : d ≤ 15) : (ofInt (tenTo d)).isFinite = true := by
  rw [ofInt, ofRatio, isFinite_ofUnits Nat.one_pos, Nat.mul_one, Int.natAbs_natCast]
  calc tenTo d * unitsPerOne ≤ tenTo 15 * unitsPerOne := Nat.mul_le_mul_right _ (tenTo_le h)
    _ < outOfRange := by decide +kernel

theorem isFinite_mul_of_not {x : Binary64} (hx : x.isFinite = false) (y : Binary64) :
    (x * y).isFinite = false := by
  cases x with
  | finite s a => cases hx
  | nan => cases y <;> rfl
  | infinite s =>
    cases y with
    | nan => rfl
    | infinite t => rfl
    | finite t b =>
      change (if b.units = 0 then _ else _ : Binary64).isFinite = false
      split <;> rfl

end Binary64

end DeskCalculator
