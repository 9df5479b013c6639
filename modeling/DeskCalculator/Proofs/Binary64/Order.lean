import DeskCalculator.Proofs.Binary64.Exact

namespace DeskCalculator

theorem roundHalfEven_mono {m n : Nat} (h : m ≤ n) (d : Nat) :
    roundHalfEven m d ≤ roundHalfEven n d := by
  rcases Nat.lt_or_eq_of_le (Nat.div_le_div_right (c := d) h) with hlt | heq
  · calc roundHalfEven m d ≤ m / d + 1 := roundHalfEven_le m d
      _ ≤ n / d := hlt
      _ ≤ roundHalfEven n d := le_roundHalfEven n d
  · -- Of two quotients with one whole part the remainders decide.
    have hm : d * (m / d) + m % d = m := Nat.div_add_mod m d
    have hn : d * (n / d) + n % d = n := Nat.div_add_mod n d
    rw [heq] at hm
    unfold roundHalfEven
    rw [heq]
    dsimp only
    split <;> split <;> (try split) <;> (try split) <;> omega

theorem le_two_mul_roundHalfEven (n : Nat) {d : Nat} (hd : 0 < d) :
    2 * n ≤ 2 * (roundHalfEven n d * d) + d := by
  have hn : d * (n / d) + n % d = n := Nat.div_add_mod n d
  have hr : n % d < d := Nat.mod_lt n hd
  have hcomm : n / d * d = d * (n / d) := Nat.mul_comm _ _
  have hlow : n / d * d ≤ (n / d + n / d % 2) * d := Nat.mul_le_mul_right d (Nat.le_add_right _ _)
  have hnext : (n / d + 1) * d = d * (n / d) + d := by ring
  unfold roundHalfEven
  dsimp only
  split
  · omega
  · split <;> omega

theorem roundHalfEven_of_near {n d w : Nat} (hlow : 2 * (d * w) < 2 * n + d)
    (hhigh : 2 * n < 2 * (d * w) + d) : roundHalfEven n d = w := by
  rcases Nat.lt_or_ge n (d * w) with hlt | hge
  · cases w with
    | zero => omega
    | succ w =>
      rw [Nat.mul_succ] at *
      exact roundHalfEven_of_gt (r := n - d * w) (by omega) (by omega) (by omega)
  · exact roundHalfEven_of_lt (r := n - d * w) (by omega) (by omega)

namespace Magnitude

variable {n d m e : Nat} {x y : Magnitude}

section Scale

theorem lt_twoTo_scaleOf_mul (n : Nat) (hd : 0 < d) : n < twoTo 53 * (d * twoTo (scaleOf n d)) :=
  (Nat.div_lt_iff_lt_mul (Nat.mul_pos hd (twoTo_pos _))).mp (quotient_lt n d)

theorem twoTo_scaleOf_mul_le (hd : 0 < d) (h : scaleOf n d ≠ 0) :
    twoTo 52 * (d * twoTo (scaleOf n d)) ≤ n :=
  (Nat.le_div_iff_mul_le (Nat.mul_pos hd (twoTo_pos _))).mp (le_quotient n d h)

theorem scaleOf_le {k : Nat} (hd : 0 < d) (h : n < twoTo 53 * (d * twoTo k)) :
    scaleOf n d ≤ k := by
  by_contra hlt
  have hlow := twoTo_scaleOf_mul_le (n := n) hd (by omega)
  have hgrid : d * twoTo (k + 1) ≤ d * twoTo (scaleOf n d) :=
    Nat.mul_le_mul_left d (twoTo_le (by omega))
  rw [twoTo_succ, Nat.mul_left_comm] at hgrid
  rw [show twoTo 53 = 9007199254740992 from rfl] at h
  rw [show twoTo 52 = 4503599627370496 from rfl] at hlow
  omega

theorem scaleOf_mono (hd : 0 < d) (h : n ≤ m) : scaleOf n d ≤ scaleOf m d :=
  scaleOf_le hd (Nat.lt_of_le_of_lt h (lt_twoTo_scaleOf_mul m hd))

end Scale

def roundQuotient (n d : Nat) : Nat :=
  roundHalfEven n (d * twoTo (scaleOf n d)) * twoTo (scaleOf n d)

theorem roundQuotient_mul_right (n d : Nat) {k : Nat} (hk : 0 < k) :
    roundQuotient (n * k) (d * k) = roundQuotient n d := by
  rw [roundQuotient, scaleOf_mul_right n d hk, Nat.mul_right_comm, roundHalfEven_mul_right n _ hk,
    roundQuotient]

theorem roundQuotient_le (n d : Nat) : roundQuotient n d ≤ twoTo (53 + scaleOf n d) := by
  rw [twoTo_add]
  exact Nat.mul_le_mul_right _ (Nat.le_trans (roundHalfEven_le n _) (quotient_lt n d))

theorem twoTo_le_roundQuotient (h : scaleOf n d ≠ 0) :
    twoTo (52 + scaleOf n d) ≤ roundQuotient n d := by
  rw [twoTo_add]
  exact Nat.mul_le_mul_right _ (Nat.le_trans (le_quotient n d h) (le_roundHalfEven n _))

theorem roundQuotient_mono (hd : 0 < d) (h : n ≤ m) : roundQuotient n d ≤ roundQuotient m d := by
  rcases Nat.lt_or_eq_of_le (scaleOf_mono hd h) with hlt | heq
  · calc roundQuotient n d ≤ twoTo (53 + scaleOf n d) := roundQuotient_le n d
      _ ≤ twoTo (52 + scaleOf m d) := twoTo_le (by omega)
      _ ≤ roundQuotient m d := twoTo_le_roundQuotient (by omega)
  · rw [roundQuotient, roundQuotient, heq]
    exact Nat.mul_le_mul_right _ (roundHalfEven_mono h _)

theorem roundQuotient_le_of_le (hd : 0 < d) (he : 0 < e) (h : n * e ≤ m * d) :
    roundQuotient n d ≤ roundQuotient m e := by
  calc roundQuotient n d = roundQuotient (n * e) (d * e) := (roundQuotient_mul_right n d he).symm
    _ ≤ roundQuotient (m * d) (d * e) := roundQuotient_mono (Nat.mul_pos hd he) h
    _ = roundQuotient m e := by rw [Nat.mul_comm d e, roundQuotient_mul_right m e hd]

theorem units_injective (h : x.units = y.units) : x = y := by
  have hx := x.nearest?_units
  rw [h, y.nearest?_units] at hx
  exact (Option.some.inj hx).symm

theorem nearest?_eq_some_iff (hd : 0 < d) :
    nearest? n d = some x ↔ n < outOfRange * d ∧ roundQuotient n d = x.units := by
  constructor
  · intro h
    exact ⟨(nearest?_isSome_iff hd).mp (Option.isSome_of_eq_some h), (units_of_nearest? h).symm⟩
  · rintro ⟨hrange, hunits⟩
    obtain ⟨y, hy⟩ := Option.isSome_iff_exists.mp ((nearest?_isSome_iff hd).mpr hrange)
    rw [hy, units_injective ((units_of_nearest? hy).trans hunits)]

theorem nearest?_between {k f : Nat} (hd : 0 < d) (he : 0 < e) (hf : 0 < f) (hlow : n * e ≤ m * d)
    (hhigh : m * f ≤ k * e) (hn : nearest? n d = some x) (hk : nearest? k f = some x) :
    nearest? m e = some x := by
  obtain ⟨-, hlow'⟩ := (nearest?_eq_some_iff hd).mp hn
  obtain ⟨hrange, hhigh'⟩ := (nearest?_eq_some_iff hf).mp hk
  refine (nearest?_eq_some_iff he).mpr ⟨?_, Nat.le_antisymm ?_ ?_⟩
  · refine Nat.lt_of_mul_lt_mul_right (a := f) ?_
    calc m * f ≤ k * e := hhigh
      _ < outOfRange * f * e := Nat.mul_lt_mul_of_pos_right hrange he
      _ = outOfRange * e * f := Nat.mul_right_comm _ _ _
  · exact hhigh' ▸ roundQuotient_le_of_le he hf hhigh
  · exact hlow' ▸ roundQuotient_le_of_le hd he hlow

section Error

theorem roundQuotient_mul (n d : Nat) : roundQuotient n d * d =
    roundHalfEven n (d * twoTo (scaleOf n d)) * (d * twoTo (scaleOf n d)) := by
  rw [roundQuotient]
  ring

theorem twice_roundQuotient_le (n : Nat) (hd : 0 < d) :
    2 * (roundQuotient n d * d) ≤ 2 * n + d * twoTo (scaleOf n d) := by
  rw [roundQuotient_mul]
  exact two_mul_roundHalfEven_le n (Nat.mul_pos hd (twoTo_pos _))

theorem le_twice_roundQuotient (n : Nat) (hd : 0 < d) :
    2 * n ≤ 2 * (roundQuotient n d * d) + d * twoTo (scaleOf n d) := by
  rw [roundQuotient_mul]
  exact le_two_mul_roundHalfEven n (Nat.mul_pos hd (twoTo_pos _))

theorem le_of_nearest? (hd : 0 < d) (h : nearest? n d = some x) (hx : x ≠ zero) :
    2 * n ≤ 3 * (x.units * d) := by
  have hunits := ((nearest?_eq_some_iff hd).mp h).2
  have herror := le_twice_roundQuotient n hd
  have hgrid : twoTo (scaleOf n d) ≤ roundQuotient n d := by
    by_cases hscale : scaleOf n d = 0
    · rw [hscale, hunits]
      exact Nat.one_le_iff_ne_zero.mpr fun h0 => hx (x.units_eq_zero.mp h0)
    · exact Nat.le_trans (twoTo_le (by omega)) (twoTo_le_roundQuotient hscale)
  have hproduct := Nat.mul_le_mul_left d hgrid
  rw [hunits] at herror hproduct
  rw [Nat.mul_comm d x.units] at hproduct
  omega

end Error

theorem nearest?_of_close (hd : 0 < d)
    (hlow : (2 * 10 ^ 16 - 1) * (x.units * d) ≤ 2 * 10 ^ 16 * n)
    (hhigh : 2 * 10 ^ 16 * n ≤ (2 * 10 ^ 16 + 1) * (x.units * d)) : nearest? n d = some x := by
  have hquotient := lt_twoTo_scaleOf_mul n hd
  have hgridpos : 0 < d * twoTo (scaleOf n d) := Nat.mul_pos hd (twoTo_pos _)
  -- The quotient has no longer binary digits than the magnitude, which is a multiple of its last.
  have hscale : scaleOf n d ≤ x.scale := by
    have hsize : x.units * d ≤ (twoTo 53 - 1) * (d * twoTo x.scale) := by
      rw [units, Nat.mul_comm d, ← Nat.mul_assoc]
      exact Nat.mul_le_mul_right d
        (Nat.mul_le_mul_right _ (Nat.le_sub_one_of_lt x.significand_lt))
    have hpos : 0 < d * twoTo x.scale := Nat.mul_pos hd (twoTo_pos _)
    rw [show twoTo 53 - 1 = 9007199254740991 from rfl] at hsize
    apply scaleOf_le hd
    rw [show twoTo 53 = 9007199254740992 from rfl]
    omega
  have hdvd : twoTo (scaleOf n d) ∣ x.units :=
    Nat.dvd_mul_left_of_dvd (Nat.pow_dvd_pow 2 hscale) x.significand
  obtain ⟨w, hw⟩ := hdvd
  have hvalue : x.units * d = d * twoTo (scaleOf n d) * w := by rw [hw]; ring
  rw [hvalue] at hlow hhigh
  rw [show twoTo 53 = 9007199254740992 from rfl] at hquotient
  refine (nearest?_eq_some_iff hd).mpr ⟨?_, ?_⟩
  · have hsize : x.units * d ≤ greatest * d := Nat.mul_le_mul_right d x.units_le_greatest
    have htop : greatest * d = (2 * twoTo 53 - 2) * (twoTo 2044 * d) := by
      rw [greatest, show twoTo 2045 = 2 * twoTo 2044 from twoTo_succ 2044, Nat.mul_left_comm,
        ← Nat.mul_assoc, ← Nat.mul_assoc, Nat.mul_sub]
    have hpos : 0 < twoTo 2044 * d := Nat.mul_pos (twoTo_pos _) hd
    rw [htop, hvalue, show 2 * twoTo 53 - 2 = 18014398509481982 from rfl] at hsize
    rw [outOfRange, Nat.mul_assoc, show 2 * twoTo 53 - 1 = 18014398509481983 from rfl]
    generalize twoTo 2044 * d = top at *
    omega
  · rw [roundQuotient, roundHalfEven_of_near (w := w) (by omega) (by omega), hw, Nat.mul_comm]

end Magnitude

end DeskCalculator
