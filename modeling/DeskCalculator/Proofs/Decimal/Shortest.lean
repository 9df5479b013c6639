import DeskCalculator.Proofs.Binary64.Order
import DeskCalculator.Proofs.Decimal.Literal
import Mathlib.Algebra.Order.Floor.Semifield
import Mathlib.Data.Rat.Floor
import Mathlib.Tactic.FieldSimp
import Mathlib.Tactic.Linarith

namespace DeskCalculator

theorem cast_tenTo (k : Nat) : ((tenTo k : Nat) : ℚ) = 10 ^ k := by
  exact_mod_cast rfl

theorem tenPow_pos (e : Int) : (0 : ℚ) < 10 ^ e :=
  zpow_pos (by norm_num) e

theorem Binary64.unitsPerOne_cast_pos : (0 : ℚ) < unitsPerOne :=
  Nat.cast_pos.mpr (twoTo_pos 1074)

open Binary64 (unitsPerOne unitsPerOne_cast_pos)

namespace Decimal

theorem denominator_cast_pos (d : Decimal) : (0 : ℚ) < d.denominator :=
  Nat.cast_pos.mpr (tenTo_pos _)

theorem toRat_le_toRat_iff {c d : Decimal} : c.toRat ≤ d.toRat ↔
    c.numerator * unitsPerOne * d.denominator ≤ d.numerator * unitsPerOne * c.denominator := by
  rw [c.toRat_eq, d.toRat_eq, div_le_div_iff₀ c.denominator_cast_pos d.denominator_cast_pos,
    Nat.mul_right_comm, Nat.mul_right_comm d.numerator,
    Nat.mul_le_mul_right_iff (show 0 < unitsPerOne from twoTo_pos 1074)]
  exact_mod_cast Iff.rfl

end Decimal

namespace Magnitude

variable {x : Magnitude} {d : Decimal} {e : Int}

def toRat (x : Magnitude) : ℚ :=
  x.units / unitsPerOne

theorem toRat_nonneg (x : Magnitude) : 0 ≤ x.toRat :=
  div_nonneg (Nat.cast_nonneg _) unitsPerOne_cast_pos.le

section Order

theorem toRat_le_iff : x.toRat ≤ d.toRat ↔
    x.units * d.denominator ≤ d.numerator * unitsPerOne * 1 := by
  rw [toRat, d.toRat_eq, div_le_div_iff₀ unitsPerOne_cast_pos d.denominator_cast_pos, Nat.mul_one]
  exact_mod_cast Iff.rfl

theorem le_toRat_iff : d.toRat ≤ x.toRat ↔
    d.numerator * unitsPerOne * 1 ≤ x.units * d.denominator := by
  rw [toRat, d.toRat_eq, div_le_div_iff₀ d.denominator_cast_pos unitsPerOne_cast_pos, Nat.mul_one]
  exact_mod_cast Iff.rfl

theorem magnitude?_of_le {c : Decimal} (hc : c.magnitude? = some x) (hle : c.toRat ≤ d.toRat)
    (hx : d.toRat ≤ x.toRat) : d.magnitude? = some x :=
  nearest?_between (tenTo_pos _) (tenTo_pos _) Nat.one_pos (Decimal.toRat_le_toRat_iff.mp hle)
    (le_toRat_iff.mp hx) hc x.nearest?_units

theorem magnitude?_of_ge {c : Decimal} (hc : c.magnitude? = some x) (hx : x.toRat ≤ d.toRat)
    (hle : d.toRat ≤ c.toRat) : d.magnitude? = some x :=
  nearest?_between Nat.one_pos (tenTo_pos _) (tenTo_pos _) (toRat_le_iff.mp hx)
    (Decimal.toRat_le_toRat_iff.mp hle) x.nearest?_units hc

end Order

section Grid

theorem digits_decimalBelow (x : Magnitude) (e : Int) :
    (x.decimalBelow e).digits = ⌊x.toRat / 10 ^ e⌋₊ := by
  rw [decimalBelow, ← Nat.floor_div_eq_div (K := ℚ), toRat]
  push_cast
  rw [cast_tenTo, cast_tenTo]
  generalize (unitsPerOne : ℚ) = unit
  congr 1
  rcases Int.le_total 0 e with hle | hle
  · obtain ⟨k, rfl⟩ := Int.eq_ofNat_of_zero_le hle
    simp [div_div]
  · obtain ⟨k, rfl⟩ := Int.exists_eq_neg_ofNat hle
    simp [div_mul_eq_mul_div]

theorem toRat_decimalBelow_le (x : Magnitude) (e : Int) : (x.decimalBelow e).toRat ≤ x.toRat := by
  have hexponent : (x.decimalBelow e).exponent = e := rfl
  rw [Decimal.toRat, digits_decimalBelow, hexponent, ← le_div_iff₀ (tenPow_pos e)]
  exact Nat.floor_le (div_nonneg x.toRat_nonneg (tenPow_pos e).le)

theorem lt_toRat_decimalAbove (x : Magnitude) (e : Int) : x.toRat < (x.decimalAbove e).toRat := by
  rw [Decimal.toRat, decimalAbove, digits_decimalBelow, ← div_lt_iff₀ (tenPow_pos e)]
  push_cast
  exact Nat.lt_floor_add_one _

theorem toRat_decimalAbove (x : Magnitude) (e : Int) :
    (x.decimalAbove e).toRat = (x.decimalBelow e).toRat + 10 ^ e := by
  rw [Decimal.toRat, Decimal.toRat, decimalAbove, decimalBelow]
  push_cast
  ring

theorem le_decimalBelow (h : d.toRat ≤ x.toRat) :
    d.toRat ≤ (x.decimalBelow d.exponent).toRat := by
  rw [Decimal.toRat, ← le_div_iff₀ (tenPow_pos _)] at h
  rw [Decimal.toRat, Decimal.toRat, digits_decimalBelow]
  exact mul_le_mul_of_nonneg_right (Nat.cast_le.mpr (Nat.le_floor h)) (tenPow_pos _).le

theorem decimalAbove_le (h : x.toRat < d.toRat) :
    (x.decimalAbove d.exponent).toRat ≤ d.toRat := by
  rw [Decimal.toRat, ← div_lt_iff₀ (tenPow_pos _)] at h
  have hfloor : ⌊x.toRat / 10 ^ d.exponent⌋₊ < d.digits :=
    (Nat.floor_lt (div_nonneg x.toRat_nonneg (tenPow_pos _).le)).mpr h
  rw [Decimal.toRat, Decimal.toRat, decimalAbove, digits_decimalBelow]
  exact mul_le_mul_of_nonneg_right (Nat.cast_le.mpr hfloor) (tenPow_pos _).le

theorem isSome_choose? {low high : Decimal} {preferLow : Bool}
    (h : low.magnitude? = some x ∨ high.magnitude? = some x) :
    (x.choose? low high preferLow).isSome = true := by
  unfold choose? readsBack
  rcases h with h | h
  · by_cases hhigh : high.magnitude? = some x <;> cases preferLow <;> simp [h, hhigh]
  · by_cases hlow : low.magnitude? = some x <;> cases preferLow <;> simp [h, hlow]

theorem isSome_decimalAt? (h : d.magnitude? = some x) :
    (x.decimalAt? d.exponent).isSome = true := by
  apply isSome_choose?
  rcases le_or_gt d.toRat x.toRat with hle | hgt
  · exact .inl (magnitude?_of_le h (le_decimalBelow hle) (toRat_decimalBelow_le x _))
  · exact .inr (magnitude?_of_ge h (lt_toRat_decimalAbove x _).le (decimalAbove_le hgt))

theorem exponent_of_decimalAt? (h : x.decimalAt? e = some d) : d.exponent = e := by
  unfold decimalAt? choose? at h
  split at h
  · rw [← Option.some.inj h]; rfl
  · split at h
    · rw [← Option.some.inj h]; rfl
    · cases h

end Grid

section Digits

theorem leadingPower_spec (hx : x ≠ zero) :
    (10 : ℚ) ^ x.leadingPower ≤ x.toRat ∧ x.toRat < 10 ^ (x.leadingPower + 1) := by
  have hunits : 1 ≤ x.units := Nat.one_le_iff_ne_zero.mpr fun h => hx (x.units_eq_zero.mp h)
  have hscaled : x.units * tenTo 340 / unitsPerOne = ⌊x.toRat * 10 ^ (340 : Int)⌋₊ := by
    rw [← Nat.floor_div_eq_div (K := ℚ), toRat, Nat.cast_mul, cast_tenTo, div_mul_eq_mul_div,
      zpow_ofNat]
  have hne : x.units * tenTo 340 / unitsPerOne ≠ 0 := by
    have hlarge : unitsPerOne ≤ tenTo 340 := by decide +kernel
    have hproduct : 1 * tenTo 340 ≤ x.units * tenTo 340 := Nat.mul_le_mul_right _ hunits
    exact Nat.ne_of_gt (Nat.div_pos (by omega) (twoTo_pos 1074))
  have hlow := Decimal.tenTo_length_le hne
  have hhigh := Decimal.lt_tenTo_length (x.units * tenTo 340 / unitsPerOne)
  have hlength : (Decimal.writeDigits (x.units * tenTo 340 / unitsPerOne)).length ≠ 0 := by
    simpa using (Decimal.Whole.writeDigits _).ne_nil
  rw [leadingPower]
  generalize (Decimal.writeDigits (x.units * tenTo 340 / unitsPerOne)).length = n at *
  have hpos := tenPow_pos 340
  constructor
  · rw [hscaled, Nat.le_floor_iff (mul_nonneg x.toRat_nonneg hpos.le), cast_tenTo] at hlow
    rw [show (n : Int) - 341 = ((n - 1 : Nat) : Int) - 340 by omega, zpow_sub₀ (by norm_num),
      zpow_natCast, div_le_iff₀ hpos]
    exact hlow
  · rw [hscaled, Nat.floor_lt (mul_nonneg x.toRat_nonneg hpos.le), cast_tenTo] at hhigh
    rw [show (n : Int) - 341 + 1 = (n : Int) - 340 by omega, zpow_sub₀ (by norm_num),
      zpow_natCast, lt_div_iff₀ hpos]
    exact hhigh

theorem magnitude?_of_close (hlow : x.toRat - x.toRat / (2 * 10 ^ 16) ≤ d.toRat)
    (hhigh : d.toRat ≤ x.toRat + x.toRat / (2 * 10 ^ 16)) : d.magnitude? = some x := by
  have hunits := unitsPerOne_cast_pos
  have hdenominator := d.denominator_cast_pos
  have hscaled : d.toRat * unitsPerOne * d.denominator = d.numerator * unitsPerOne := by
    rw [d.toRat_eq]
    field_simp
  have hvalue : x.toRat * unitsPerOne * d.denominator = x.units * d.denominator := by
    rw [toRat]
    field_simp
  apply nearest?_of_close (tenTo_pos _)
  · have h := mul_le_mul_of_nonneg_right (mul_le_mul_of_nonneg_right hlow hunits.le)
      hdenominator.le
    have hcast : ((2 * 10 ^ 16 - 1 : Nat) : ℚ) * (x.units * d.denominator) ≤
        2 * 10 ^ 16 * (d.numerator * unitsPerOne) := by
      rw [← hscaled, ← hvalue]
      generalize (unitsPerOne : ℚ) = unit at h ⊢
      norm_num
      linarith
    exact_mod_cast hcast
  · have h := mul_le_mul_of_nonneg_right (mul_le_mul_of_nonneg_right hhigh hunits.le)
      hdenominator.le
    have hcast : 2 * 10 ^ 16 * (d.numerator * unitsPerOne : ℚ) ≤
        (2 * 10 ^ 16 + 1) * (x.units * d.denominator) := by
      rw [← hscaled, ← hvalue]
      generalize (unitsPerOne : ℚ) = unit at h ⊢
      norm_num
      linarith
    exact_mod_cast hcast

theorem isSome_decimalAt?_seventeen (hx : x ≠ zero) :
    (x.decimalAt? (x.leadingPower - 16)).isSome = true := by
  have hgrid : (10 : ℚ) ^ x.leadingPower = 10 ^ (x.leadingPower - 16) * 10 ^ 16 := by
    rw [← zpow_natCast, ← zpow_add₀ (by norm_num)]
    congr 1
    omega
  have hlead := (leadingPower_spec hx).1
  have hbelow := toRat_decimalBelow_le x (x.leadingPower - 16)
  have habove := lt_toRat_decimalAbove x (x.leadingPower - 16)
  have hstep := toRat_decimalAbove x (x.leadingPower - 16)
  have hhalf : (10 : ℚ) ^ (x.leadingPower - 16) / 2 ≤ x.toRat / (2 * 10 ^ 16) := by
    rw [hgrid] at hlead
    linarith
  have hpos : 0 ≤ x.toRat / (2 * 10 ^ 16) := div_nonneg x.toRat_nonneg (by norm_num)
  apply isSome_choose?
  rcases le_total (x.toRat - (x.decimalBelow (x.leadingPower - 16)).toRat)
    (10 ^ (x.leadingPower - 16) / 2) with hnear | hfar
  · exact .inl (magnitude?_of_close (by linarith) (by linarith))
  · exact .inr (magnitude?_of_close (by linarith) (by linarith))

theorem exponent_le_leadingPower (hx : x ≠ zero) (h : d.magnitude? = some x) :
    d.exponent ≤ x.leadingPower + 1 := by
  have hdigits : d.digits ≠ 0 := digits_of_readsBack hx (by simpa [readsBack] using h)
  have hvalue : d.toRat ≤ 3 / 2 * x.toRat := by
    have hle := le_of_nearest? (tenTo_pos _) h hx
    rw [d.toRat_eq, toRat, mul_div_assoc', div_le_div_iff₀ d.denominator_cast_pos
      unitsPerOne_cast_pos]
    have hcast : 2 * (d.numerator * unitsPerOne : ℚ) ≤ 3 * (x.units * d.denominator) := by
      exact_mod_cast hle
    linarith
  have hfirst : (10 : ℚ) ^ d.exponent ≤ d.toRat := by
    have hone : (1 : ℚ) ≤ d.digits := Nat.one_le_cast.mpr (Nat.one_le_iff_ne_zero.mpr hdigits)
    exact le_mul_of_one_le_left (tenPow_pos _).le hone
  have hlead := (leadingPower_spec hx).2
  have hnext : (10 : ℚ) ^ (x.leadingPower + 2) = 10 ^ (x.leadingPower + 1) * 10 := by
    rw [show x.leadingPower + 2 = x.leadingPower + 1 + 1 by omega, zpow_add_one₀ (by norm_num)]
  have hlt : (10 : ℚ) ^ d.exponent < 10 ^ (x.leadingPower + 2) := by
    rw [hnext]
    have hpos := tenPow_pos (x.leadingPower + 1)
    linarith
  have hexponent := (zpow_lt_zpow_iff_right₀ (by norm_num)).mp hlt
  omega

end Digits

theorem le_exponent_firstFrom {decimal? : Int → Option Decimal} {other : Decimal} {tries : Nat}
    {start : Int} (hexponent : ∀ e d, decimal? e = some d → d.exponent = e)
    (hlow : start - tries < e) (hhigh : e ≤ start) (he : (decimal? e).isSome = true) :
    e ≤ (firstFrom decimal? other tries start).exponent := by
  induction tries generalizing start with
  | zero => omega
  | succ tries ih =>
    unfold firstFrom
    split
    · rename_i d hd
      rw [hexponent start d hd]
      exact hhigh
    · rename_i hnone
      have hne : e ≠ start := by
        rintro rfl
        rw [hnone] at he
        cases he
      exact ih (by omega) (by omega)

theorem exponent_le_shortest (hx : x ≠ zero) (h : d.magnitude? = some x) :
    d.exponent ≤ x.shortest.exponent := by
  have hhigh := exponent_le_leadingPower hx h
  rcases lt_or_ge d.exponent (x.leadingPower - 16) with hlt | hge
  · -- The search does not get as far down as such a decimal.
    have hseventeen : x.leadingPower - 16 ≤ x.shortest.exponent :=
      le_exponent_firstFrom (fun _ _ => exponent_of_decimalAt?) (by omega) (by omega)
        (isSome_decimalAt?_seventeen hx)
    omega
  · exact le_exponent_firstFrom (fun _ _ => exponent_of_decimalAt?) (by omega) hhigh
      (isSome_decimalAt? h)

end Magnitude

end DeskCalculator
