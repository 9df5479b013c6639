import DeskCalculator.Proofs.Binary64.Halves
import DeskCalculator.Proofs.Number.HalfUp
import Mathlib.Data.Rat.Floor
import Mathlib.Tactic.FieldSimp
import Mathlib.Tactic.Linarith

namespace DeskCalculator

namespace Binary64

open Magnitude

variable {x y : Binary64}

def toRat (x : Binary64) : ℚ :=
  x.units / unitsPerOne

/-- The sum with a half is rounded up to a whole number that it does not reach. -/
def Slips (x : Binary64) : Prop :=
  x.toRat = 1 / 2 - 1 / 2 ^ 54 ∨
    ∃ n : ℤ, x.toRat = n ∧ n % 2 = 1 ∧ 2 ^ 52 < n.natAbs ∧ n.natAbs < 2 ^ 53

section Sum

theorem units_ofUnits {negative : Bool} {n : Nat} (h : (ofUnits negative n 1).isFinite = true) :
    (ofUnits negative n 1).units = if negative then -(roundUnits n : Int) else roundUnits n := by
  cases hm : nearest? n 1 with
  | none =>
    rw [ofUnits_none hm] at h
    cases h
  | some m =>
    rw [ofUnits_some hm, ← units_eq_roundUnits hm]
    cases negative <;> rfl

theorem units_add (hx : x.isFinite = true) (hy : y.isFinite = true)
    (h : (x + y).isFinite = true) : (x + y).units =
      if x.units + y.units < 0 then -(roundUnits (x.units + y.units).natAbs : Int)
      else roundUnits (x.units + y.units).natAbs := by
  cases x with
  | nan => cases hx
  | infinite s => cases hx
  | finite s a =>
    cases y with
    | nan => cases hy
    | infinite t => cases hy
    | finite t b =>
      change (if _ then _ else _ : Binary64).isFinite = true at h
      change (if _ then _ else _ : Binary64).units = _
      split
      · rename_i hzero
        rw [hzero, if_neg (Int.lt_irrefl 0), Int.natAbs_zero, roundUnits_of_dvd (Nat.dvd_zero _)]
        cases s && t <;> rfl
      · rename_i hne
        rw [if_neg hne] at h
        rw [units_ofUnits h]
        simp only [decide_eq_true_eq]

theorem units_half : half.units = unitsPerHalf := by decide +kernel

theorem floor_add_half (s : Bool) (m : Magnitude) : (finite s m + half).floor =
    ((finite s m).units + unitsPerHalf) / unitsPerOne +
      if s = false ∧ m.IsLastBelowHalf ∨ m.IsOddLarge then 1 else 0 := by
  have hsum := units_add (x := finite s m) rfl isFinite_half (isFinite_add_half rfl)
  have hunit := unitsPerOne_eq
  rw [floor, hsum, units_half]
  cases s with
  | false =>
    have htotal : (finite false m).units + unitsPerHalf = ((m.units + unitsPerHalf : Nat) : Int) :=
      (Nat.cast_add _ _).symm
    rw [htotal, if_neg (by omega), Int.natAbs_natCast]
    simp only [true_and]
    exact_mod_cast roundUnits_add_half_div m
  | true =>
    have htotal : (finite true m).units + unitsPerHalf = (-m.units + unitsPerHalf : Int) := rfl
    simp only [Bool.true_eq_false, false_and, false_or]
    rcases Nat.lt_or_ge unitsPerHalf m.units with hlt | hge
    · have habs : (-m.units + unitsPerHalf : Int).natAbs = m.units - unitsPerHalf := by omega
      rw [htotal, if_pos (by omega), habs]
      exact roundUnits_sub_half_div hlt
    · have habs : (-m.units + unitsPerHalf : Int).natAbs = unitsPerHalf - m.units := by omega
      have hodd : ¬m.IsOddLarge := fun h =>
        absurd (unitsPerHalf_lt (Nat.le_of_eq h.1.symm)) (Nat.not_lt.mpr hge)
      have hpos := unitsPerHalf_pos
      rw [htotal, if_neg (by omega), habs, if_neg hodd, ← Int.natCast_ediv, roundUnits_half_sub hge,
        Int.ediv_eq_zero_of_lt (by omega) (by omega)]
      rfl

end Sum

section Value

theorem floor_toRat_add_half (x : Binary64) :
    ⌊x.toRat + 1 / 2⌋ = (x.units + unitsPerHalf) / unitsPerOne := by
  have hpos : (unitsPerHalf : ℚ) ≠ 0 := Nat.cast_ne_zero.mpr (Nat.ne_of_gt unitsPerHalf_pos)
  have hsum : x.toRat + 1 / 2 = ((x.units + unitsPerHalf : Int) : ℚ) / unitsPerOne := by
    rw [toRat, unitsPerOne_eq]
    generalize unitsPerHalf = half at hpos ⊢
    push_cast
    field_simp
  rw [hsum, Rat.floor_intCast_div_natCast]

theorem toRat_eq_intCast {n : ℤ} : x.toRat = n ↔ x.units = n * unitsPerOne := by
  have hpos : (unitsPerOne : ℚ) ≠ 0 := Nat.cast_ne_zero.mpr (Nat.ne_of_gt (twoTo_pos 1074))
  rw [toRat, div_eq_iff hpos]
  exact_mod_cast Iff.rfl

theorem toRat_eq_last : x.toRat = 1 / 2 - 1 / 2 ^ 54 ↔ x.units + twoTo 1020 = unitsPerHalf := by
  have hpos : (unitsPerOne : ℚ) ≠ 0 := Nat.cast_ne_zero.mpr (Nat.ne_of_gt (twoTo_pos 1074))
  have hhalf : unitsPerHalf = twoTo 53 * twoTo 1020 := twoTo_add 53 1020
  have hlast : (1 / 2 - 1 / 2 ^ 54) * (unitsPerOne : ℚ) = unitsPerHalf - twoTo 1020 := by
    rw [unitsPerOne_eq, hhalf, show twoTo 53 = 2 ^ 53 from rfl]
    push_cast
    ring
  rw [toRat, div_eq_iff hpos, hlast, eq_sub_iff_add_eq]
  exact_mod_cast Iff.rfl

theorem natAbs_units (s : Bool) (m : Magnitude) : (finite s m).units.natAbs = m.units := by
  cases s
  · rfl
  · exact Int.natAbs_neg _

theorem isOddLarge_iff_exists (s : Bool) (m : Magnitude) : m.IsOddLarge ↔
    ∃ n : ℤ, (finite s m).toRat = n ∧ n % 2 = 1 ∧ 2 ^ 52 < n.natAbs ∧ n.natAbs < 2 ^ 53 := by
  have hlow : twoTo 52 = 4503599627370496 := rfl
  have hhigh : twoTo 53 = 9007199254740992 := rfl
  constructor
  · intro h
    have hunits := units_of_scale_eq h.1
    have hodd := (isOddLarge_iff hunits).mp h
    rw [hlow, hhigh] at hodd
    cases s with
    | false =>
      refine ⟨m.significand, toRat_eq_intCast.mpr ?_, ?_⟩
      · exact_mod_cast congrArg Nat.cast hunits
      · omega
    | true =>
      refine ⟨-m.significand, toRat_eq_intCast.mpr ?_, ?_⟩
      · rw [neg_mul]
        exact_mod_cast congrArg (fun n : Nat => -(n : Int)) hunits
      · omega
  · rintro ⟨n, hn, hodd⟩
    have hunits : m.units = n.natAbs * unitsPerOne := by
      rw [← natAbs_units s m, toRat_eq_intCast.mp hn, Int.natAbs_mul, Int.natAbs_natCast]
    rw [isOddLarge_iff hunits, hlow, hhigh]
    omega

theorem slips_iff (s : Bool) (m : Magnitude) :
    (finite s m).Slips ↔ s = false ∧ m.IsLastBelowHalf ∨ m.IsOddLarge := by
  rw [Slips, ← isOddLarge_iff_exists, toRat_eq_last]
  refine or_congr_left ?_
  cases s with
  | false =>
    simp only [true_and]
    change (m.units : Int) + twoTo 1020 = unitsPerHalf ↔ m.units + twoTo 1020 = unitsPerHalf
    omega
  | true =>
    have hlt := twoTo_lt_half
    simp only [Bool.true_eq_false, false_and, iff_false]
    intro hlast
    have hunits : -(m.units : Int) + twoTo 1020 = unitsPerHalf := hlast
    omega

theorem floor_add_half_of_slips (hx : x.isFinite = true) (h : x.Slips) :
    (x + half).floor = ⌊x.toRat + 1 / 2⌋ + 1 := by
  cases x with
  | nan => cases hx
  | infinite s => cases hx
  | finite s m => rw [floor_add_half, floor_toRat_add_half, if_pos ((slips_iff s m).mp h)]

theorem floor_add_half_of_not_slips (hx : x.isFinite = true) (h : ¬x.Slips) :
    (x + half).floor = ⌊x.toRat + 1 / 2⌋ := by
  cases x with
  | nan => cases hx
  | infinite s => cases hx
  | finite s m =>
    rw [floor_add_half, floor_toRat_add_half, if_neg fun hs => h ((slips_iff s m).mpr hs), add_zero]

end Value

end Binary64

open Binary64

/-- A number that can be scaled is rounded to the quotient of the nearest whole number; where the
sum slips, of the next one. -/
theorem Quantity.roundHalfUp_nearest (x : Binary64) (d : Nat) (h15 : d ≤ 15)
    (hscaled : (x * .ofInt (tenTo d)).isFinite = true) :
    ∃ n : ℤ, (ofReal x).roundHalfUp (.int d) = .ok (.ofRatio (n < 0) n.natAbs (tenTo d)) ∧
      (¬(x * .ofInt (tenTo d)).Slips → n = ⌊(x * .ofInt (tenTo d)).toRat + 1 / 2⌋ ∧
        n - 1 / 2 ≤ (x * .ofInt (tenTo d)).toRat ∧ (x * .ofInt (tenTo d)).toRat < n + 1 / 2) ∧
      ((x * .ofInt (tenTo d)).Slips → n = ⌊(x * .ofInt (tenTo d)).toRat + 1 / 2⌋ + 1) := by
  refine ⟨(x * .ofInt (tenTo d) + half).floor, ?_, fun h => ?_, floor_add_half_of_slips hscaled⟩
  · rw [roundHalfUp_ofReal x (by omega) (by omega), Int.toNat_natCast, rounded]
    exact congrArg Except.ok (if_pos hscaled)
  · have hfloor := floor_add_half_of_not_slips hscaled h
    obtain ⟨hlow, hhigh⟩ := Int.floor_eq_iff.mp hfloor.symm
    exact ⟨hfloor, by linarith, by linarith⟩

theorem Quantity.roundHalfUp_nearest_half : ∃ n : ℤ,
    (ofReal (.ofRatio false 5 2)).roundHalfUp (.int (0 : Nat)) =
      .ok (.ofRatio (n < 0) n.natAbs (tenTo 0)) ∧ n = 3 := by
  have hfinite : (Binary64.ofRatio false 5 2 * .ofInt (tenTo 0)).isFinite = true := by
    decide +kernel
  have hfloor : ((Binary64.ofRatio false 5 2 * .ofInt (tenTo 0)).units + unitsPerHalf) /
      unitsPerOne = 3 := by decide +kernel
  have hsum : (Binary64.ofRatio false 5 2 * .ofInt (tenTo 0) + half).floor = 3 := by
    decide +kernel
  have hslips : ¬(Binary64.ofRatio false 5 2 * .ofInt (tenTo 0)).Slips := fun h => by
    have hnext := floor_add_half_of_slips hfinite h
    rw [hsum, floor_toRat_add_half, hfloor] at hnext
    exact absurd hnext (by decide)
  obtain ⟨n, hn, hnearest, -⟩ := roundHalfUp_nearest (.ofRatio false 5 2) 0 (Nat.zero_le _) hfinite
  exact ⟨n, hn, (hnearest hslips).1.trans ((floor_toRat_add_half _).trans hfloor)⟩

theorem Quantity.roundHalfUp_odd_whole : ¬∀ (x : Binary64) (d : Nat), d ≤ 15 →
    (x * .ofInt (tenTo d)).isFinite = true →
      (ofReal x).roundHalfUp (.int d) =
        .ok (.ofRatio (⌊(x * .ofInt (tenTo d)).toRat + 1 / 2⌋ < 0)
          ⌊(x * .ofInt (tenTo d)).toRat + 1 / 2⌋.natAbs (tenTo d)) := by
  intro h
  have hfinite : (Binary64.ofNat 4503599627370497 * .ofInt (tenTo 0)).isFinite = true := by
    decide +kernel
  have hfloor : ((Binary64.ofNat 4503599627370497 * .ofInt (tenTo 0)).units + unitsPerHalf) /
      unitsPerOne = 4503599627370497 := by decide +kernel
  have hrounded : (Binary64.ofNat 4503599627370497).rounded 0 = .ofNat 4503599627370498 := by
    decide +kernel
  have hround : (ofReal (.ofNat 4503599627370497)).roundHalfUp (.int (0 : Nat)) =
      .ok (.ofNat 4503599627370498) :=
    (roundHalfUp_ofReal _ (Int.le_refl 0) (by decide)).trans (congrArg Except.ok hrounded)
  have hodd := h (.ofNat 4503599627370497) 0 (Nat.zero_le _) hfinite
  rw [hround, floor_toRat_add_half, hfloor] at hodd
  exact absurd (Except.ok.inj hodd) (by decide +kernel)

end DeskCalculator
