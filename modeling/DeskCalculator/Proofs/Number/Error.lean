import DeskCalculator.Proofs.Decimal.Shortest
import DeskCalculator.Proofs.Number.Nearest
import Mathlib.Algebra.Order.Field.Basic
import Mathlib.Tactic.NormNum

namespace DeskCalculator

theorem abs_mul_of_pos {a b : ℚ} (h : 0 < b) : |a| * b = |a * b| := by
  rw [abs_mul, abs_of_pos h]

namespace Magnitude

variable {n d : Nat}

theorem roundQuotient_error (n : Nat) (hd : 0 < d) :
    2 ^ 53 * (roundQuotient n d * d) ≤ 2 ^ 53 * n + (n + 2 ^ 52 * d) ∧
      2 ^ 53 * n ≤ 2 ^ 53 * (roundQuotient n d * d) + (n + 2 ^ 52 * d) := by
  have hhigh := twice_roundQuotient_le n hd
  have hlow := le_twice_roundQuotient n hd
  have hgrid : 2 ^ 52 * (d * twoTo (scaleOf n d)) ≤ n + 2 ^ 52 * d := by
    by_cases hscale : scaleOf n d = 0
    · rw [hscale, show twoTo 0 = 1 from rfl, Nat.mul_one]
      exact Nat.le_add_left _ _
    · exact Nat.le_add_right_of_le (twoTo_scaleOf_mul_le hd hscale)
  omega

end Magnitude

namespace Binary64

open Magnitude

variable {x y : Binary64} {q : ℚ}

def signum (negative : Bool) : ℚ :=
  if negative then -1 else 1

theorem abs_signum_mul (s : Bool) (q : ℚ) : |signum s * q| = |q| := by
  cases s <;> simp [signum]

theorem signum_bne (s t : Bool) : signum (s != t) = signum s * signum t := by
  cases s <;> cases t <;> simp [signum]

theorem toRat_finite (s : Bool) (m : Magnitude) : (finite s m).toRat = signum s * m.toRat := by
  cases s <;> simp only [toRat, Magnitude.toRat, units, signum, Int.cast_neg, Int.cast_natCast,
    Bool.false_eq_true, if_true, if_false, neg_div, neg_mul, one_mul]

theorem toRat_zero (s : Bool) : (zero s).toRat = 0 := by
  rw [zero, toRat_finite, Magnitude.toRat, units_zero, Nat.cast_zero, zero_div, mul_zero]

theorem exists_finite (h : x.isFinite = true) : ∃ s m, x = finite s m := by
  cases x with
  | nan => cases h
  | infinite s => cases h
  | finite s m => exact ⟨s, m, rfl⟩

structure Near (x : Binary64) (q : ℚ) : Prop where
  isFinite : x.isFinite = true
  error_le : |x.toRat - q| ≤ |q| / 2 ^ 53 + 1 / 2 ^ 200

section Operations

theorem half_unit_le : 1 / 2 / (unitsPerOne : ℚ) ≤ 1 / 2 ^ 200 := by
  have hlarge : (2 ^ 200 : Nat) ≤ unitsPerOne := twoTo_le (show 200 ≤ 1074 by omega)
  have hcast : (2 ^ 200 : ℚ) ≤ unitsPerOne := by exact_mod_cast hlarge
  rw [div_div]
  exact one_div_le_one_div_of_le (by positivity) (by linarith)

theorem abs_signum_quotient (s : Bool) (n d : Nat) :
    |signum s * ((n : ℚ) / d / unitsPerOne)| = n / d / unitsPerOne := by
  rw [abs_signum_mul, abs_of_nonneg]
  exact div_nonneg (div_nonneg (Nat.cast_nonneg n) (Nat.cast_nonneg d)) unitsPerOne_cast_pos.le

theorem near_ofUnits {n d : Nat} (s : Bool) (hd : 0 < d)
    (h : (n : ℚ) / d / unitsPerOne ≤ 2 ^ 200) :
    (ofUnits s n d).Near (signum s * (n / d / unitsPerOne)) := by
  have hunit := unitsPerOne_cast_pos
  have hdq : (0 : ℚ) < d := Nat.cast_pos.mpr hd
  have hrange : n < outOfRange * d := by
    have hle : n ≤ 2 ^ 200 * unitsPerOne * d := by
      rw [div_le_iff₀ hunit, div_le_iff₀ hdq] at h
      exact_mod_cast h
    have hlimit : 2 ^ 200 * unitsPerOne < outOfRange := by decide +kernel
    exact Nat.lt_of_le_of_lt hle (Nat.mul_lt_mul_of_pos_right hlimit hd)
  obtain ⟨m, hm⟩ := Option.isSome_iff_exists.mp ((nearest?_isSome_iff hd).mpr hrange)
  -- The error on the grid of units carries over to the quotient, and then to its value.
  obtain ⟨hhigh, hlow⟩ := roundQuotient_error n hd
  rw [((nearest?_eq_some_iff hd).mp hm).2] at hhigh hlow
  have hhigh' : 2 ^ 53 * (m.units * d : ℚ) ≤ 2 ^ 53 * n + (n + 2 ^ 52 * d) := by
    exact_mod_cast hhigh
  have hlow' : 2 ^ 53 * (n : ℚ) ≤ 2 ^ 53 * (m.units * d) + (n + 2 ^ 52 * d) := by
    exact_mod_cast hlow
  have hquotient : (n : ℚ) / d * d = n := div_mul_cancel₀ _ hdq.ne'
  have herror : |(m.units : ℚ) - n / d| ≤ n / d / 2 ^ 53 + 1 / 2 := by
    rw [abs_le]
    constructor
    · refine le_of_mul_le_mul_right ?_ hdq
      linarith
    · refine le_of_mul_le_mul_right ?_ hdq
      linarith
  rw [ofUnits_some hm]
  refine ⟨rfl, ?_⟩
  calc |(finite s m).toRat - signum s * (n / d / unitsPerOne)|
      = |(m.units : ℚ) - n / d| / unitsPerOne := by
        rw [toRat_finite, Magnitude.toRat, ← mul_sub, abs_signum_mul, ← sub_div, abs_div,
          abs_of_pos hunit]
    _ ≤ (n / d / 2 ^ 53 + 1 / 2) / unitsPerOne := div_le_div_of_nonneg_right herror hunit.le
    _ = n / d / unitsPerOne / 2 ^ 53 + 1 / 2 / unitsPerOne := by ring
    _ ≤ |signum s * (n / d / unitsPerOne)| / 2 ^ 53 + 1 / 2 ^ 200 := by
        rw [abs_signum_quotient]
        exact add_le_add_right half_unit_le _

theorem near_mul (hx : x.isFinite = true) (hy : y.isFinite = true)
    (h : |x.toRat * y.toRat| ≤ 2 ^ 200) : (x * y).Near (x.toRat * y.toRat) := by
  obtain ⟨s, a, rfl⟩ := exists_finite hx
  obtain ⟨t, b, rfl⟩ := exists_finite hy
  have hunit := unitsPerOne_cast_pos
  have hvalue : (finite s a).toRat * (finite t b).toRat = signum (s != t) *
      (((a.units * b.units : Nat) : ℚ) / (unitsPerOne : Nat) / unitsPerOne) := by
    rw [toRat_finite, toRat_finite, signum_bne, Magnitude.toRat, Magnitude.toRat]
    push_cast
    field_simp
  rw [hvalue] at h ⊢
  rw [abs_signum_quotient] at h
  rw [mul_finite]
  exact near_ofUnits _ (twoTo_pos 1074) h

theorem near_div (hx : x.isFinite = true) (hy : y.isFinite = true) (hne : y.toRat ≠ 0)
    (h : |x.toRat / y.toRat| ≤ 2 ^ 200) : (x / y).Near (x.toRat / y.toRat) := by
  obtain ⟨s, a, rfl⟩ := exists_finite hx
  obtain ⟨t, b, rfl⟩ := exists_finite hy
  have hunit := unitsPerOne_cast_pos
  have hb : b.units ≠ 0 := by
    intro hb
    exact hne (by rw [toRat_finite, Magnitude.toRat, hb, Nat.cast_zero, zero_div, mul_zero])
  have hbq : (b.units : ℚ) ≠ 0 := Nat.cast_ne_zero.mpr hb
  have hvalue : (finite s a).toRat / (finite t b).toRat = signum (s != t) *
      (((a.units * unitsPerOne : Nat) : ℚ) / b.units / unitsPerOne) := by
    rw [toRat_finite, toRat_finite, signum_bne, Magnitude.toRat, Magnitude.toRat]
    push_cast
    cases s <;> cases t <;> simp only [signum] <;> field_simp <;> norm_num
  rw [hvalue] at h ⊢
  rw [abs_signum_quotient] at h
  change (if b.units = 0 then _ else _ : Binary64).Near _
  rw [if_neg hb]
  exact near_ofUnits _ (Nat.pos_of_ne_zero hb) h

theorem signum_natAbs (n : ℤ) : signum (n < 0) * (n.natAbs : ℚ) = n := by
  rcases lt_or_ge n 0 with hneg | hpos
  · have hcast : ((n.natAbs : ℤ) : ℚ) = ((-n : ℤ) : ℚ) := by rw [Int.ofNat_natAbs_of_nonpos hneg.le]
    rw [decide_eq_true hneg, signum, if_pos rfl, ← Int.cast_natCast, hcast]
    push_cast
    ring
  · have hcast : ((n.natAbs : ℤ) : ℚ) = (n : ℚ) := by rw [Int.natAbs_of_nonneg hpos]
    rw [decide_eq_false (not_lt.mpr hpos), signum, if_neg Bool.false_ne_true, ← Int.cast_natCast,
      hcast, one_mul]

theorem near_add (hx : x.isFinite = true) (hy : y.isFinite = true)
    (h : |x.toRat + y.toRat| ≤ 2 ^ 200) : (x + y).Near (x.toRat + y.toRat) := by
  obtain ⟨s, a, rfl⟩ := exists_finite hx
  obtain ⟨t, b, rfl⟩ := exists_finite hy
  have hunit := unitsPerOne_cast_pos
  have hvalue : (finite s a).toRat + (finite t b).toRat =
      (((finite s a).units + (finite t b).units : ℤ) : ℚ) / unitsPerOne := by
    rw [toRat, toRat, ← add_div]
    push_cast
    rfl
  rw [hvalue] at h ⊢
  change (if _ then _ else _ : Binary64).Near _
  split
  · -- An exact sum of zero is not rounded: its sign comes from the operands.
    rename_i hzero
    refine ⟨rfl, ?_⟩
    rw [hzero, toRat_zero, Int.cast_zero, zero_div, sub_zero, abs_zero]
    norm_num
  · generalize (finite s a).units + (finite t b).units = total at h
    have hsigned : (total : ℚ) / unitsPerOne =
        signum (total < 0) * ((total.natAbs : ℚ) / (1 : Nat) / unitsPerOne) := by
      rw [Nat.cast_one, div_one, ← mul_div_assoc, signum_natAbs]
    rw [hsigned] at h ⊢
    rw [abs_signum_quotient] at h
    exact near_ofUnits _ Nat.one_pos h

theorem near_ofRatio {n : ℤ} {d : Nat} (hd : 0 < d) (h : |(n : ℚ) / d| ≤ 2 ^ 200) :
    (ofRatio (n < 0) n.natAbs d).Near (n / d) := by
  have hunit := unitsPerOne_cast_pos
  have hdq : (0 : ℚ) < d := Nat.cast_pos.mpr hd
  have hvalue : (n : ℚ) / d = signum (n < 0) *
      (((n.natAbs * unitsPerOne : Nat) : ℚ) / d / unitsPerOne) := by
    rw [← mul_div_assoc, ← mul_div_assoc, Nat.cast_mul, ← mul_assoc, signum_natAbs]
    field_simp
  rw [hvalue] at h ⊢
  rw [abs_signum_quotient] at h
  exact near_ofUnits _ hd h

end Operations

section Rounded

variable {d : Nat} {n : ℤ}

theorem floor_eq_toRat (x : Binary64) : x.floor = ⌊x.toRat⌋ := by
  rw [floor, toRat, Rat.floor_intCast_div_natCast]

theorem toRat_half : half.toRat = 1 / 2 := by
  have hhalf : (unitsPerHalf : ℚ) ≠ 0 := Nat.cast_ne_zero.mpr (Nat.ne_of_gt unitsPerHalf_pos)
  rw [toRat, units_half, unitsPerOne_eq]
  generalize unitsPerHalf = half at hhalf ⊢
  push_cast
  field_simp

theorem toRat_ofInt_tenTo (h : d ≤ 15) : (ofInt (tenTo d)).toRat = 10 ^ d := by
  have hexact : ∀ d < 16, (ofInt (tenTo d)).units = tenTo d * unitsPerOne := by decide +kernel
  have hvalue : (ofInt (tenTo d)).toRat = ((tenTo d : Nat) : ℤ) :=
    toRat_eq_intCast.mpr (hexact d (by omega))
  rw [hvalue, Int.cast_natCast, cast_tenTo]

def ofPlaces (n : ℤ) (d : Nat) : Binary64 :=
  ofRatio (n < 0) n.natAbs (tenTo d)

variable (x d) in
def sumError : ℚ :=
  |x.toRat| * 10 ^ d * (5 / 2 ^ 54) + 1 / 2 ^ 52

theorem sum_near (hx : x.isFinite = true) (hrange : |x.toRat| ≤ 2 ^ 100) (hd : d ≤ 15) :
    (x * ofInt (tenTo d)).isFinite = true ∧
      |(x * ofInt (tenTo d) + half).toRat - (x.toRat * 10 ^ d + 1 / 2)| ≤ x.sumError d := by
  have hten : (10 : ℚ) ^ d ≤ 10 ^ 15 := pow_le_pow_right₀ (by norm_num) hd
  have hpos : (0 : ℚ) < 10 ^ d := by positivity
  have habs : |x.toRat * 10 ^ d| = |x.toRat| * 10 ^ d := by rw [abs_mul, abs_of_pos hpos]
  have hsize : |x.toRat| * 10 ^ d ≤ 2 ^ 100 * 10 ^ 15 :=
    mul_le_mul hrange hten hpos.le (by positivity)
  have hproduct := near_mul hx (isFinite_ofInt_tenTo hd) (by
    rw [toRat_ofInt_tenTo hd, habs]
    norm_num at hsize ⊢
    linarith)
  have hscaled := hproduct.error_le
  rw [toRat_ofInt_tenTo hd, habs] at hscaled
  have hbound : |(x * ofInt (tenTo d)).toRat| ≤
      |x.toRat| * 10 ^ d + (|x.toRat| * 10 ^ d / 2 ^ 53 + 1 / 2 ^ 200) := by
    have htriangle := abs_sub_abs_le_abs_sub (x * ofInt (tenTo d)).toRat (x.toRat * 10 ^ d)
    rw [habs] at htriangle
    linarith
  have hhalf := abs_add_le (x * ofInt (tenTo d)).toRat (1 / 2)
  rw [abs_of_pos (show (0 : ℚ) < 1 / 2 by norm_num)] at hhalf
  have hsum := (near_add hproduct.isFinite isFinite_half (by
    rw [toRat_half]
    norm_num at hsize hbound hhalf ⊢
    linarith)).error_le
  rw [toRat_half] at hsum
  refine ⟨hproduct.isFinite, ?_⟩
  have hsplit := abs_sub_le (x * ofInt (tenTo d) + half).toRat
    ((x * ofInt (tenTo d)).toRat + 1 / 2) (x.toRat * 10 ^ d + 1 / 2)
  rw [add_sub_add_right_eq_sub] at hsplit
  have hnonneg : 0 ≤ |x.toRat| * 10 ^ d := by positivity
  rw [sumError]
  norm_num at hscaled hbound hhalf hsum hsplit ⊢
  linarith

theorem exists_rounded (hx : x.isFinite = true) (hrange : |x.toRat| ≤ 2 ^ 100) (hd : d ≤ 15) :
    ∃ n : ℤ, x.rounded d = ofPlaces n d ∧ |x.toRat * 10 ^ d - n| ≤ 1 / 2 + x.sumError d := by
  obtain ⟨hscaled, hsum⟩ := sum_near hx hrange hd
  refine ⟨(x * ofInt (tenTo d) + half).floor, ?_, ?_⟩
  · rw [rounded, if_pos hscaled, ofPlaces]
  · have hlow := Int.floor_le (x * ofInt (tenTo d) + half).toRat
    have hhigh := Int.lt_floor_add_one (x * ofInt (tenTo d) + half).toRat
    rw [floor_eq_toRat]
    rw [abs_le] at hsum ⊢
    constructor <;> linarith

theorem rounded_of_near (hx : x.isFinite = true) (hrange : |x.toRat| ≤ 2 ^ 100) (hd : d ≤ 15)
    (h : |x.toRat * 10 ^ d - n| + x.sumError d < 1 / 2) : x.rounded d = ofPlaces n d := by
  obtain ⟨hscaled, hsum⟩ := sum_near hx hrange hd
  have hfloor : (x * ofInt (tenTo d) + half).floor = n := by
    have hnear := abs_le.mp (le_refl |x.toRat * 10 ^ d - n|)
    rw [abs_le] at hsum
    rw [floor_eq_toRat, Int.floor_eq_iff]
    constructor <;> linarith
  rw [rounded, if_pos hscaled, hfloor, ofPlaces]

theorem ofPlaces_near (hd : d ≤ 15) (hn : |(n : ℚ)| ≤ 2 ^ 200) :
    (ofPlaces n d).isFinite = true ∧
      |(ofPlaces n d).toRat * 10 ^ d - n| ≤ |(n : ℚ)| / 2 ^ 53 + 1 / 2 ^ 100 := by
  have hten : (10 : ℚ) ^ d ≤ 10 ^ 15 := pow_le_pow_right₀ (by norm_num) hd
  have hone : (1 : ℚ) ≤ 10 ^ d := one_le_pow₀ (by norm_num)
  have hpos : (0 : ℚ) < 10 ^ d := by positivity
  have hquotient : |(n : ℚ) / (tenTo d : Nat)| = |(n : ℚ)| / 10 ^ d := by
    rw [cast_tenTo, abs_div, abs_of_pos hpos]
  obtain ⟨hfinite, herror⟩ := near_ofRatio (n := n) (tenTo_pos d) (by
    rw [hquotient]
    exact (div_le_self (abs_nonneg _) hone).trans hn)
  rw [hquotient, cast_tenTo] at herror
  refine ⟨hfinite, ?_⟩
  calc |(ofPlaces n d).toRat * 10 ^ d - n| = |(ofPlaces n d).toRat - n / 10 ^ d| * 10 ^ d := by
        rw [abs_mul_of_pos hpos, sub_mul, div_mul_cancel₀ _ hpos.ne']
    _ ≤ (|(n : ℚ)| / 10 ^ d / 2 ^ 53 + 1 / 2 ^ 200) * 10 ^ d :=
        mul_le_mul_of_nonneg_right herror hpos.le
    _ = |(n : ℚ)| / 2 ^ 53 + 1 / 2 ^ 200 * 10 ^ d := by field_simp
    _ ≤ |(n : ℚ)| / 2 ^ 53 + 1 / 2 ^ 100 := by
        norm_num at hten ⊢
        linarith

theorem rounded_error (hx : x.isFinite = true) (hrange : |x.toRat| ≤ 2 ^ 100) (hd : d ≤ 15) :
    (x.rounded d).isFinite = true ∧
      |(x.rounded d).toRat - x.toRat| ≤ (1 / 2 + 1 / 2 ^ 50) / 10 ^ d + |x.toRat| / 2 ^ 51 := by
  have hpos : (0 : ℚ) < 10 ^ d := by positivity
  obtain ⟨n, hn, hnear⟩ := exists_rounded hx hrange hd
  have hsize : |x.toRat * 10 ^ d| = |x.toRat| * 10 ^ d := by rw [abs_mul, abs_of_pos hpos]
  have hwhole : |(n : ℚ)| ≤ |x.toRat| * 10 ^ d + (1 / 2 + x.sumError d) := by
    have htriangle := abs_sub_abs_le_abs_sub (n : ℚ) (x.toRat * 10 ^ d)
    rw [hsize, abs_sub_comm] at htriangle
    linarith
  rw [sumError] at hnear hwhole
  have hten : (10 : ℚ) ^ d ≤ 10 ^ 15 := pow_le_pow_right₀ (by norm_num) hd
  have hproduct : |x.toRat| * 10 ^ d ≤ 2 ^ 100 * 10 ^ 15 :=
    mul_le_mul hrange hten hpos.le (by positivity)
  have hnonneg : 0 ≤ |x.toRat| * 10 ^ d := by positivity
  obtain ⟨hfinite, herror⟩ := ofPlaces_near (n := n) hd (by
    norm_num at hwhole hproduct ⊢
    linarith)
  rw [hn]
  refine ⟨hfinite, le_of_mul_le_mul_right ?_ hpos⟩
  have htriangle := abs_sub_le ((ofPlaces n d).toRat * 10 ^ d) n (x.toRat * 10 ^ d)
  rw [abs_sub_comm (n : ℚ)] at htriangle
  calc |(ofPlaces n d).toRat - x.toRat| * 10 ^ d
      = |(ofPlaces n d).toRat * 10 ^ d - x.toRat * 10 ^ d| := by
        rw [abs_mul_of_pos hpos, sub_mul]
    _ ≤ 1 / 2 + 1 / 2 ^ 50 + |x.toRat| * 10 ^ d / 2 ^ 51 := by
        norm_num at hwhole herror hnear htriangle ⊢
        linarith
    _ = ((1 / 2 + 1 / 2 ^ 50) / 10 ^ d + |x.toRat| / 2 ^ 51) * 10 ^ d := by field_simp

theorem rounded_rounded (hx : x.isFinite = true) (hrange : |x.toRat| * 10 ^ d ≤ 2 ^ 49)
    (hd : d ≤ 15) : (x.rounded d).rounded d = x.rounded d := by
  have hpos : (0 : ℚ) < 10 ^ d := by positivity
  have hone : (1 : ℚ) ≤ 10 ^ d := one_le_pow₀ (by norm_num)
  have hsmall : |x.toRat| ≤ 2 ^ 49 := (le_mul_of_one_le_right (abs_nonneg _) hone).trans hrange
  have hlarge : |x.toRat| ≤ 2 ^ 100 := hsmall.trans (by norm_num)
  obtain ⟨n, hn, hnear⟩ := exists_rounded hx hlarge hd
  have hwhole : |(n : ℚ)| ≤ 2 ^ 50 := by
    have htriangle := abs_sub_abs_le_abs_sub (n : ℚ) (x.toRat * 10 ^ d)
    rw [abs_mul, abs_of_pos hpos, abs_sub_comm] at htriangle
    rw [sumError] at hnear
    norm_num at hnear htriangle hrange ⊢
    linarith
  obtain ⟨hfinite, herror⟩ := ofPlaces_near (n := n) hd (hwhole.trans (by norm_num))
  have hscaled : |(ofPlaces n d).toRat| * 10 ^ d ≤ 2 ^ 50 + 1 := by
    have htriangle := abs_sub_abs_le_abs_sub ((ofPlaces n d).toRat * 10 ^ d) n
    rw [abs_mul, abs_of_pos hpos] at htriangle
    norm_num at htriangle hwhole herror ⊢
    linarith
  have hsize : |(ofPlaces n d).toRat| ≤ 2 ^ 100 :=
    ((le_mul_of_one_le_right (abs_nonneg _) hone).trans hscaled).trans (by norm_num)
  rw [hn]
  refine rounded_of_near hfinite hsize hd ?_
  rw [sumError]
  norm_num at herror hwhole hscaled ⊢
  linarith

end Rounded

end Binary64

end DeskCalculator
