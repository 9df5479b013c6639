import DeskCalculator.Proofs.Binary64.Growth

namespace DeskCalculator

theorem twoTo_dvd {j k : Nat} (h : j ≤ k) : twoTo j ∣ twoTo k :=
  Nat.pow_dvd_pow 2 h

theorem lt_of_twoTo_lt {j k : Nat} (h : twoTo j < twoTo k) : j < k :=
  Nat.lt_of_not_le fun hle => absurd (twoTo_le hle) (Nat.not_le.mpr h)

def Binary64.unitsPerHalf : Nat := twoTo 1073

namespace Magnitude

open Binary64 (unitsPerOne unitsPerHalf)

section Rounding

variable {n k : Nat}

theorem lt_twoTo_scaleOf (n : Nat) : n < twoTo (53 + scaleOf n 1) := by
  have h := quotient_lt n 1
  rwa [Nat.one_mul, Nat.div_lt_iff_lt_mul (twoTo_pos _), ← twoTo_add] at h

theorem twoTo_scaleOf_le_self (h : scaleOf n 1 ≠ 0) : twoTo (52 + scaleOf n 1) ≤ n := by
  have h := le_quotient n 1 h
  rwa [Nat.one_mul, Nat.le_div_iff_mul_le (twoTo_pos _), ← twoTo_add] at h

theorem scaleOf_le_of_lt (h : n < twoTo (53 + k)) : scaleOf n 1 ≤ k := by
  by_cases hzero : scaleOf n 1 = 0
  · omega
  · have hlt := lt_of_twoTo_lt (Nat.lt_of_le_of_lt (twoTo_scaleOf_le_self hzero) h)
    omega

theorem le_scaleOf_of_le (h : twoTo (52 + k) ≤ n) : k ≤ scaleOf n 1 := by
  have hlt := lt_of_twoTo_lt (Nat.lt_of_le_of_lt h (lt_twoTo_scaleOf n))
  omega

theorem scaleOf_eq (hlow : twoTo (52 + k) ≤ n) (hhigh : n < twoTo (53 + k)) : scaleOf n 1 = k :=
  Nat.le_antisymm (scaleOf_le_of_lt hhigh) (le_scaleOf_of_le hlow)

def roundUnits (n : Nat) : Nat :=
  roundHalfEven n (twoTo (scaleOf n 1)) * twoTo (scaleOf n 1)

theorem units_eq_roundUnits {m : Magnitude} (h : nearest? n 1 = some m) :
    m.units = roundUnits n := by
  rw [units_of_nearest? h, Nat.one_mul, roundUnits]

theorem two_mul_roundUnits_le (n : Nat) : 2 * roundUnits n ≤ 2 * n + twoTo (scaleOf n 1) :=
  two_mul_roundHalfEven_le n (twoTo_pos _)

theorem twoTo_le_roundUnits (h : scaleOf n 1 ≠ 0) : twoTo (52 + scaleOf n 1) ≤ roundUnits n := by
  have hquotient := le_quotient n 1 h
  rw [Nat.one_mul] at hquotient
  rw [twoTo_add]
  exact Nat.mul_le_mul_right _ (Nat.le_trans hquotient (le_roundHalfEven n _))

theorem roundUnits_of_dvd (h : twoTo (scaleOf n 1) ∣ n) : roundUnits n = n := by
  obtain ⟨k, hk⟩ := h
  have hround : roundHalfEven n (twoTo (scaleOf n 1)) = k :=
    roundHalfEven_of_lt (r := 0) hk (twoTo_pos _)
  rw [roundUnits, hround, Nat.mul_comm, ← hk]

theorem exists_nearest? (h : scaleOf n 1 < 2045) :
    ∃ m, nearest? n 1 = some m ∧ m.units = roundUnits n := by
  have hsome := (nearest?_isSome_iff_scale n 1).mpr (.inl h)
  obtain ⟨m, hm⟩ := Option.isSome_iff_exists.mp hsome
  exact ⟨m, hm, units_eq_roundUnits hm⟩

theorem roundUnits_of_lt (h : n < twoTo 53) (k : Nat) :
    roundUnits (n * twoTo k) = n * twoTo k := by
  have hlt : n * twoTo k < twoTo (53 + k) := by
    rw [twoTo_add]
    exact Nat.mul_lt_mul_of_pos_right h (twoTo_pos k)
  exact roundUnits_of_dvd
    (Nat.dvd_trans (twoTo_dvd (scaleOf_le_of_lt hlt)) (Nat.dvd_mul_left _ _))

theorem exists_whole (h : n < twoTo 53) :
    ∃ m, nearest? (n * unitsPerOne) 1 = some m ∧ m.units = n * unitsPerOne := by
  have hlt : n * unitsPerOne < twoTo (53 + 1074) := by
    rw [unitsPerOne, twoTo_add]
    exact Nat.mul_lt_mul_of_pos_right h (twoTo_pos _)
  have hscale : scaleOf (n * unitsPerOne) 1 < 2045 :=
    Nat.lt_of_le_of_lt (scaleOf_le_of_lt hlt) (by decide)
  obtain ⟨m, hm, hunits⟩ := exists_nearest? hscale
  exact ⟨m, hm, hunits.trans (roundUnits_of_lt h _)⟩

theorem scaleOf_mul_twoTo (h : twoTo 52 ≤ n) (k : Nat) :
    scaleOf (n * twoTo k) 1 = scaleOf n 1 + k := by
  have hlow : twoTo (52 + scaleOf n 1) ≤ n := by
    by_cases hzero : scaleOf n 1 = 0
    · rwa [hzero]
    · exact twoTo_scaleOf_le_self hzero
  apply scaleOf_eq
  · rw [← Nat.add_assoc, twoTo_add]
    exact Nat.mul_le_mul_right _ hlow
  · rw [← Nat.add_assoc, twoTo_add]
    exact Nat.mul_lt_mul_of_pos_right (lt_twoTo_scaleOf n) (twoTo_pos k)

theorem roundUnits_mul_twoTo (n k : Nat) : roundUnits (n * twoTo k) = roundUnits n * twoTo k := by
  rcases Nat.lt_or_ge n (twoTo 52) with hsmall | hlarge
  · have hlt : n < twoTo 53 := Nat.lt_of_lt_of_le hsmall (twoTo_le (by decide))
    have hexact : roundUnits n = n := by simpa [twoTo] using roundUnits_of_lt hlt 0
    rw [hexact, roundUnits_of_lt hlt]
  · rw [roundUnits, scaleOf_mul_twoTo hlarge, twoTo_add,
      roundHalfEven_mul_right n _ (twoTo_pos k), roundUnits, Nat.mul_assoc]

end Rounding

theorem unitsPerOne_eq : unitsPerOne = 2 * unitsPerHalf := by
  rw [unitsPerOne, unitsPerHalf, ← twoTo_succ]

theorem unitsPerHalf_pos : 0 < unitsPerHalf := twoTo_pos 1073

theorem twoTo_lt_half : twoTo 1020 < unitsPerHalf := by
  have hdouble : twoTo 1021 = 2 * twoTo 1020 := twoTo_succ 1020
  have hle : twoTo 1021 ≤ unitsPerHalf := twoTo_le (by omega)
  have hpos := twoTo_pos 1020
  omega

variable {x : Magnitude}

theorem le_significand (h : x.scale ≠ 0) : twoTo 52 ≤ x.significand :=
  Nat.not_lt.mp fun hlt => h (x.scale_eq_zero hlt)

theorem twoTo_dvd_units {k : Nat} (h : twoTo (52 + k) ≤ x.units) : twoTo k ∣ x.units := by
  have hk : k ≤ x.scale := x.scaleOf_units ▸ le_scaleOf_of_le h
  exact Nat.dvd_mul_left_of_dvd (twoTo_dvd hk) x.significand

theorem units_of_scale_eq (h : x.scale = 1074) : x.units = x.significand * unitsPerOne := by
  rw [units, h, unitsPerOne]

theorem exists_units_of_scale_le (h : 1074 ≤ x.scale) : ∃ n, x.units = n * unitsPerOne := by
  obtain ⟨w, hw⟩ := twoTo_dvd h
  refine ⟨x.significand * w, ?_⟩
  rw [units, hw, unitsPerOne]
  ring

variable (x) in
def IsLastBelowHalf : Prop :=
  x.units + twoTo 1020 = unitsPerHalf

variable (x) in
def IsOddLarge : Prop :=
  x.scale = 1074 ∧ x.significand % 2 = 1

instance : Decidable x.IsLastBelowHalf :=
  inferInstanceAs (Decidable (_ = _))

instance : Decidable x.IsOddLarge :=
  inferInstanceAs (Decidable (_ ∧ _))

theorem not_isLastBelowHalf (h : unitsPerHalf ≤ x.units) : ¬x.IsLastBelowHalf := by
  intro hlast
  have hpos := twoTo_pos 1020
  have hsum : x.units + twoTo 1020 = unitsPerHalf := hlast
  omega

theorem unitsPerHalf_lt (h : 1074 ≤ x.scale) : unitsPerHalf < x.units := by
  have hunit := unitsPerOne_eq
  have hpos := unitsPerHalf_pos
  calc unitsPerHalf < unitsPerOne := by omega
    _ ≤ twoTo (52 + x.scale) := twoTo_le (by omega)
    _ = twoTo 52 * twoTo x.scale := twoTo_add _ _
    _ ≤ x.units := Nat.mul_le_mul_right _ (le_significand (by omega))

theorem isOddLarge_iff {n : Nat} (h : x.units = n * unitsPerOne) :
    x.IsOddLarge ↔ n % 2 = 1 ∧ twoTo 52 < n ∧ n < twoTo 53 := by
  have hpos : 0 < unitsPerOne := twoTo_pos 1074
  have heven : twoTo 52 % 2 = 0 := rfl
  constructor
  · rintro ⟨hscale, hodd⟩
    have hlow := le_significand (x := x) (by omega)
    have hn : n = x.significand :=
      Nat.eq_of_mul_eq_mul_right hpos (h.symm.trans (units_of_scale_eq hscale))
    rw [hn]
    exact ⟨hodd, by omega, x.significand_lt⟩
  · rintro ⟨hodd, hlow, hhigh⟩
    have hscale : x.scale = 1074 := by
      rw [← x.scaleOf_units, h]
      apply scaleOf_eq
      · rw [twoTo_add, ← unitsPerOne]
        exact Nat.mul_le_mul_right _ (Nat.le_of_lt hlow)
      · rw [twoTo_add, ← unitsPerOne]
        exact Nat.mul_lt_mul_of_pos_right hhigh hpos
    have hn : x.significand = n :=
      Nat.eq_of_mul_eq_mul_right hpos ((units_of_scale_eq hscale).symm.trans h)
    exact ⟨hscale, hn ▸ hodd⟩

section Sum

theorem scaleOf_add_half (h : 1074 ≤ x.scale) :
    scaleOf (x.units + unitsPerHalf) 1 = x.scale := by
  have hgrid : unitsPerOne ≤ twoTo x.scale := twoTo_le h
  have hunit := unitsPerOne_eq
  have hpos := unitsPerHalf_pos
  have hhigh : (x.significand + 1) * twoTo x.scale ≤ twoTo 53 * twoTo x.scale :=
    Nat.mul_le_mul_right _ x.significand_lt
  have hlow : twoTo 52 * twoTo x.scale ≤ x.significand * twoTo x.scale :=
    Nat.mul_le_mul_right _ (le_significand (by omega))
  rw [Nat.succ_mul] at hhigh
  apply scaleOf_eq
  · rw [twoTo_add, units]
    omega
  · rw [twoTo_add, units]
    omega

theorem roundUnits_add_half_of_scale_gt (h : 1074 < x.scale) :
    roundUnits (x.units + unitsPerHalf) = x.units := by
  have hgrid : 2 * unitsPerOne ≤ twoTo x.scale := by
    rw [unitsPerOne, ← twoTo_succ]
    exact twoTo_le h
  have hunit := unitsPerOne_eq
  have hpos := unitsPerHalf_pos
  have hround : roundHalfEven (x.units + unitsPerHalf) (twoTo x.scale) = x.significand :=
    roundHalfEven_of_lt (by rw [units, Nat.mul_comm]) (by omega)
  rw [roundUnits, scaleOf_add_half (Nat.le_of_lt h), hround, units]

theorem roundUnits_add_half_of_scale_eq (h : x.scale = 1074) :
    roundUnits (x.units + unitsPerHalf) = (x.significand + x.significand % 2) * unitsPerOne := by
  have hround : roundHalfEven (x.units + unitsPerHalf) unitsPerOne =
      x.significand + x.significand % 2 :=
    roundHalfEven_of_eq (by rw [units_of_scale_eq h, Nat.mul_comm]) (twoTo_pos _)
      unitsPerOne_eq.symm
  rw [roundUnits, scaleOf_add_half (Nat.le_of_eq h.symm), h, ← unitsPerOne, hround]

theorem roundUnits_div_of_near {n : Nat} (hlow : 1022 ≤ scaleOf n 1) (hhigh : scaleOf n 1 ≤ 1074)
    (hnear : n < twoTo (52 + scaleOf n 1) + unitsPerHalf) :
    roundUnits n / unitsPerOne = n / unitsPerOne := by
  have hunit := unitsPerOne_eq
  have hfirst := twoTo_scaleOf_le_self (n := n) (by omega)
  have hkept := twoTo_le_roundUnits (n := n) (by omega)
  have hround := two_mul_roundUnits_le n
  have hgrid : twoTo (scaleOf n 1) ≤ unitsPerOne := twoTo_le hhigh
  obtain ⟨p, hp⟩ := twoTo_dvd (show 1074 ≤ 52 + scaleOf n 1 by omega)
  rw [← unitsPerOne] at hp
  have hnext : (p + 1) * unitsPerOne = unitsPerOne * p + unitsPerOne := by ring
  have hcomm : p * unitsPerOne = unitsPerOne * p := Nat.mul_comm _ _
  rw [Nat.div_eq_of_lt_le (k := p) (by omega) (by omega),
    Nat.div_eq_of_lt_le (k := p) (by omega) (by omega)]

theorem units_lt {k : Nat} (h : x.scale ≤ k) : x.units < twoTo (53 + k) := by
  have hlt := lt_twoTo_scaleOf x.units
  rw [x.scaleOf_units] at hlt
  exact Nat.lt_of_lt_of_le hlt (twoTo_le (by omega))

theorem roundUnits_add_half_of_scale_lt (hscale : x.scale < 1074) (h : unitsPerHalf ≤ x.units) :
    roundUnits (x.units + unitsPerHalf) / unitsPerOne =
      (x.units + unitsPerHalf) / unitsPerOne := by
  have hunits : x.units < twoTo (53 + 1073) := units_lt (by omega)
  have hlow : 1022 ≤ scaleOf (x.units + unitsPerHalf) 1 := by
    have hunit := unitsPerOne_eq
    apply le_scaleOf_of_le
    rw [show twoTo (52 + 1022) = unitsPerOne from rfl]
    omega
  have hhigh : scaleOf (x.units + unitsPerHalf) 1 ≤ 1074 := by
    apply scaleOf_le_of_lt
    have hdouble : twoTo (53 + 1074) = 2 * twoTo (53 + 1073) := twoTo_succ (53 + 1073)
    have hhalf : unitsPerHalf ≤ twoTo (53 + 1073) := twoTo_le (by omega)
    omega
  -- Either the half carries the sum past a power of two, or it leaves the last digit in its place.
  rcases Nat.lt_or_ge x.units (twoTo (52 + scaleOf (x.units + unitsPerHalf) 1)) with hlt | hge
  · exact roundUnits_div_of_near hlow hhigh (Nat.add_lt_add_right hlt _)
  · have hle := lt_of_twoTo_lt (Nat.lt_of_le_of_lt hge hunits)
    rw [roundUnits_of_dvd (Nat.dvd_add (twoTo_dvd_units hge) (twoTo_dvd (by omega)))]

theorem units_add_le_half (h : x.units < unitsPerHalf) : x.units + twoTo 1020 ≤ unitsPerHalf := by
  have hhalf : unitsPerHalf = 2 * twoTo (52 + 1020) := twoTo_succ (52 + 1020)
  have hlow : twoTo 1020 ≤ twoTo (52 + 1020) := twoTo_le (by omega)
  rcases Nat.lt_or_ge x.units (twoTo (52 + 1020)) with hlt | hge
  · omega
  · obtain ⟨a, ha⟩ := twoTo_dvd_units hge
    obtain ⟨b, hb⟩ := twoTo_dvd (show 1020 ≤ 1073 by omega)
    rw [← unitsPerHalf] at hb
    rw [ha, hb] at h ⊢
    rw [← Nat.mul_succ]
    exact Nat.mul_le_mul_left _ (Nat.lt_of_mul_lt_mul_left h)

theorem scaleOf_add_half_of_lt (h : x.units < unitsPerHalf) :
    scaleOf (x.units + unitsPerHalf) 1 = 1021 := by
  apply scaleOf_eq
  · exact Nat.le_add_left unitsPerHalf _
  · rw [show twoTo (53 + 1021) = unitsPerOne from rfl, unitsPerOne_eq]
    omega

theorem roundUnits_add_half_of_lt (h : x.units < unitsPerHalf) (hlast : ¬x.IsLastBelowHalf) :
    roundUnits (x.units + unitsPerHalf) / unitsPerOne = 0 := by
  have hle := units_add_le_half h
  have hne : x.units + twoTo 1020 ≠ unitsPerHalf := hlast
  have hround := two_mul_roundUnits_le (x.units + unitsPerHalf)
  have hdouble : twoTo 1021 = 2 * twoTo 1020 := twoTo_succ 1020
  rw [scaleOf_add_half_of_lt h] at hround
  apply Nat.div_eq_of_lt
  rw [unitsPerOne_eq]
  omega

theorem roundUnits_add_half_of_last (h : x.IsLastBelowHalf) :
    roundUnits (x.units + unitsPerHalf) = unitsPerOne := by
  have hsum : x.units + twoTo 1020 = unitsPerHalf := h
  have hsplit : unitsPerHalf = twoTo 52 * twoTo 1021 := twoTo_add 52 1021
  have hdouble : twoTo 1021 = 2 * twoTo 1020 := twoTo_succ 1020
  have hpos := twoTo_pos 1020
  have hround : roundHalfEven (x.units + unitsPerHalf) (twoTo 1021) = twoTo 53 := by
    refine roundHalfEven_of_eq (q := twoTo 53 - 1) (r := twoTo 1020) ?_ (twoTo_pos _) hdouble.symm
    rw [show twoTo 53 - 1 = 9007199254740991 from rfl]
    rw [show twoTo 52 = 4503599627370496 from rfl] at hsplit
    omega
  rw [roundUnits, scaleOf_add_half_of_lt (by omega), hround, unitsPerOne, ← twoTo_add]

theorem whole_add_half (n : Nat) : (n * unitsPerOne + unitsPerHalf) / unitsPerOne = n := by
  have hunit := unitsPerOne_eq
  have hpos := unitsPerHalf_pos
  rw [Nat.mul_comm, Nat.mul_add_div (by omega), Nat.div_eq_of_lt (by omega), Nat.add_zero]

theorem roundUnits_add_half_div (x : Magnitude) :
    roundUnits (x.units + unitsPerHalf) / unitsPerOne = (x.units + unitsPerHalf) / unitsPerOne +
      if x.IsLastBelowHalf ∨ x.IsOddLarge then 1 else 0 := by
  have hunit := unitsPerOne_eq
  have hpos := unitsPerHalf_pos
  -- The last digit of the magnitude stands for less than one, for one, or for more.
  rcases Nat.lt_trichotomy x.scale 1074 with hlt | heq | hgt
  · have hodd : ¬x.IsOddLarge := fun h => Nat.ne_of_lt hlt h.1
    rcases Nat.lt_or_ge x.units unitsPerHalf with hsmall | hlarge
    · have hexact : (x.units + unitsPerHalf) / unitsPerOne = 0 := Nat.div_eq_of_lt (by omega)
      by_cases hlast : x.IsLastBelowHalf
      · rw [roundUnits_add_half_of_last hlast, hexact, if_pos (.inl hlast), Nat.div_self (by omega)]
      · rw [roundUnits_add_half_of_lt hsmall hlast, hexact, if_neg (not_or.mpr ⟨hlast, hodd⟩)]
    · rw [roundUnits_add_half_of_scale_lt hlt hlarge,
        if_neg (not_or.mpr ⟨not_isLastBelowHalf hlarge, hodd⟩), Nat.add_zero]
  · have hlast := not_isLastBelowHalf (Nat.le_of_lt (unitsPerHalf_lt (Nat.le_of_eq heq.symm)))
    rw [roundUnits_add_half_of_scale_eq heq, Nat.mul_div_cancel _ (by omega), units_of_scale_eq heq,
      whole_add_half]
    rcases Nat.mod_two_eq_zero_or_one x.significand with heven | hone
    · have hodd : ¬x.IsOddLarge := fun h => by
        rw [h.2] at heven
        cases heven
      rw [if_neg (not_or.mpr ⟨hlast, hodd⟩), heven]
    · rw [if_pos (.inr ⟨heq, hone⟩), hone]
  · have hodd : ¬x.IsOddLarge := fun h => Nat.ne_of_gt hgt h.1
    have hlast := not_isLastBelowHalf (Nat.le_of_lt (unitsPerHalf_lt (Nat.le_of_lt hgt)))
    obtain ⟨n, hn⟩ := exists_units_of_scale_le (Nat.le_of_lt hgt)
    rw [roundUnits_add_half_of_scale_gt hgt, if_neg (not_or.mpr ⟨hlast, hodd⟩), hn,
      whole_add_half, Nat.mul_div_cancel _ (by omega), Nat.add_zero]

end Sum

section Difference

theorem roundUnits_half_sub (h : x.units ≤ unitsPerHalf) :
    roundUnits (unitsPerHalf - x.units) / unitsPerOne = 0 := by
  have hunit := unitsPerOne_eq
  have hpos := unitsPerHalf_pos
  have hscale : scaleOf (unitsPerHalf - x.units) 1 ≤ 1021 := by
    apply scaleOf_le_of_lt
    rw [show twoTo (53 + 1021) = unitsPerOne from rfl]
    omega
  have hgrid := twoTo_le hscale
  have hhalf : twoTo 1021 ≤ unitsPerHalf := twoTo_le (by omega)
  have hround := two_mul_roundUnits_le (unitsPerHalf - x.units)
  apply Nat.div_eq_of_lt
  omega

theorem roundUnits_sub_half_of_small (h : scaleOf (x.units - unitsPerHalf) 1 ≤ 1073)
    (hlt : unitsPerHalf < x.units) :
    roundUnits (x.units - unitsPerHalf) = x.units - unitsPerHalf := by
  apply roundUnits_of_dvd
  by_cases hzero : scaleOf (x.units - unitsPerHalf) 1 = 0
  · rw [hzero]
    exact Nat.one_dvd _
  · have hle := twoTo_scaleOf_le_self hzero
    exact Nat.dvd_sub (twoTo_dvd_units (by omega)) (twoTo_dvd h)

theorem exists_units_of_sub_half (h : 1074 ≤ scaleOf (x.units - unitsPerHalf) 1) :
    ∃ a, x.units = twoTo (scaleOf (x.units - unitsPerHalf) 1) * (a + 1) := by
  have hle := twoTo_scaleOf_le_self (n := x.units - unitsPerHalf) (by omega)
  have hpos := twoTo_pos (52 + scaleOf (x.units - unitsPerHalf) 1)
  obtain ⟨a, ha⟩ := twoTo_dvd_units (x := x) (k := scaleOf (x.units - unitsPerHalf) 1) (by omega)
  cases a with
  | zero => omega
  | succ a => exact ⟨a, ha⟩

theorem roundUnits_sub_half_of_eq (h : scaleOf (x.units - unitsPerHalf) 1 = 1074) :
    ∃ a, x.units = (a + 1) * unitsPerOne ∧
      roundUnits (x.units - unitsPerHalf) = (a + a % 2) * unitsPerOne := by
  obtain ⟨a, ha⟩ := exists_units_of_sub_half (Nat.le_of_eq h.symm)
  have hunit := unitsPerOne_eq
  rw [h, ← unitsPerOne] at ha
  have hround : roundHalfEven (x.units - unitsPerHalf) unitsPerOne = a + a % 2 := by
    refine roundHalfEven_of_eq (r := unitsPerHalf) ?_ (twoTo_pos _) hunit.symm
    rw [Nat.mul_succ] at ha
    omega
  refine ⟨a, by rw [ha, Nat.mul_comm], ?_⟩
  rw [roundUnits, h, ← unitsPerOne, hround]

theorem roundUnits_sub_half_of_large (h : 1074 < scaleOf (x.units - unitsPerHalf) 1) :
    roundUnits (x.units - unitsPerHalf) = x.units := by
  obtain ⟨a, ha⟩ := exists_units_of_sub_half (Nat.le_of_lt h)
  have hgrid : 2 * unitsPerOne ≤ twoTo (scaleOf (x.units - unitsPerHalf) 1) := by
    rw [unitsPerOne, ← twoTo_succ]
    exact twoTo_le h
  have hunit := unitsPerOne_eq
  have hpos := unitsPerHalf_pos
  have hround : roundHalfEven (x.units - unitsPerHalf)
      (twoTo (scaleOf (x.units - unitsPerHalf) 1)) = a + 1 := by
    refine roundHalfEven_of_gt
      (r := twoTo (scaleOf (x.units - unitsPerHalf) 1) - unitsPerHalf) ?_ (by omega) (by omega)
    rw [Nat.mul_succ] at ha
    omega
  rw [roundUnits, hround, Nat.mul_comm, ← ha]

theorem scaleOf_sub_half (h : x.IsOddLarge) : scaleOf (x.units - unitsPerHalf) 1 = 1074 := by
  have hunits := units_of_scale_eq h.1
  obtain ⟨-, hlow, hhigh⟩ := (isOddLarge_iff hunits).mp h
  have hunit := unitsPerOne_eq
  have hmul := Nat.mul_le_mul_right unitsPerOne (Nat.succ_le_of_lt hlow)
  rw [Nat.succ_mul, ← hunits] at hmul
  apply scaleOf_eq
  · rw [twoTo_add, ← unitsPerOne]
    exact Nat.le_sub_of_add_le (Nat.le_trans (Nat.add_le_add_left (by omega) _) hmul)
  · rw [twoTo_add, ← unitsPerOne]
    refine Nat.lt_of_le_of_lt (Nat.sub_le _ _) ?_
    rw [hunits]
    exact Nat.mul_lt_mul_of_pos_right hhigh (twoTo_pos 1074)

theorem isOddLarge_iff_of_sub_half {a : Nat} (h : scaleOf (x.units - unitsPerHalf) 1 = 1074)
    (ha : x.units = (a + 1) * unitsPerOne) : x.IsOddLarge ↔ a % 2 = 0 := by
  have hlow := twoTo_scaleOf_le_self (n := x.units - unitsPerHalf) (by omega)
  have hhigh := lt_twoTo_scaleOf (x.units - unitsPerHalf)
  have hunit := unitsPerOne_eq
  have hpos := unitsPerHalf_pos
  rw [h, twoTo_add, ← unitsPerOne, ha, Nat.succ_mul] at hlow hhigh
  have hfirst : twoTo 52 ≤ a := by
    by_contra hlt
    have hmul := Nat.mul_le_mul_right unitsPerOne (Nat.lt_of_not_le hlt)
    rw [Nat.succ_mul] at hmul
    omega
  have hlast : a < twoTo 53 := by
    by_contra hle
    have hmul := Nat.mul_le_mul_right unitsPerOne (Nat.le_of_not_lt hle)
    omega
  have heven : twoTo 53 % 2 = 0 := rfl
  rw [isOddLarge_iff ha]
  omega

theorem unitsPerOne_ne_zero : (unitsPerOne : Int) ≠ 0 :=
  Int.natCast_ne_zero.mpr (Nat.ne_of_gt (twoTo_pos 1074))

theorem whole_neg (n : Nat) : -((n * unitsPerOne : Nat) : Int) / unitsPerOne = -n := by
  rw [Nat.cast_mul, ← neg_mul, Int.mul_ediv_cancel _ unitsPerOne_ne_zero]

theorem whole_half_sub (n : Nat) :
    (-(n * unitsPerOne : Nat) + unitsPerHalf : Int) / unitsPerOne = -n := by
  have hunit := unitsPerOne_eq
  have hpos := unitsPerHalf_pos
  rw [Nat.cast_mul, ← neg_mul, add_comm, Int.add_mul_ediv_right _ _ unitsPerOne_ne_zero,
    Int.ediv_eq_zero_of_lt (by omega) (by omega), zero_add]

theorem roundUnits_sub_half_div (h : unitsPerHalf < x.units) :
    -(roundUnits (x.units - unitsPerHalf) : Int) / unitsPerOne =
      (-x.units + unitsPerHalf : Int) / unitsPerOne + if x.IsOddLarge then 1 else 0 := by
  rcases Nat.lt_trichotomy (scaleOf (x.units - unitsPerHalf) 1) 1074 with hlt | heq | hgt
  · have hodd : ¬x.IsOddLarge := fun hodd => Nat.ne_of_lt hlt (scaleOf_sub_half hodd)
    rw [roundUnits_sub_half_of_small (by omega) h, if_neg hodd, Nat.cast_sub (Nat.le_of_lt h),
      neg_sub, add_zero, sub_eq_neg_add]
  · obtain ⟨a, ha, hround⟩ := roundUnits_sub_half_of_eq heq
    have hodd := isOddLarge_iff_of_sub_half heq ha
    rw [hround, ha, whole_half_sub, whole_neg]
    rcases Nat.mod_two_eq_zero_or_one a with hzero | hone
    · rw [hzero, if_pos (hodd.mpr hzero)]
      omega
    · have hnot : ¬x.IsOddLarge := fun h => by
        rw [hodd.mp h] at hone
        cases hone
      rw [hone, if_neg hnot]
      omega
  · have hodd : ¬x.IsOddLarge := fun hodd => Nat.ne_of_gt hgt (scaleOf_sub_half hodd)
    obtain ⟨a, ha⟩ := exists_units_of_sub_half (Nat.le_of_lt hgt)
    obtain ⟨w, hw⟩ := twoTo_dvd (Nat.le_of_lt hgt)
    have hunits : x.units = w * (a + 1) * unitsPerOne := by
      rw [ha, hw, unitsPerOne]
      ring
    rw [roundUnits_sub_half_of_large hgt, if_neg hodd, hunits, whole_half_sub, whole_neg,
      add_zero]

end Difference

end Magnitude

end DeskCalculator
