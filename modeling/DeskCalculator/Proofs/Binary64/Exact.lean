import DeskCalculator.Proofs.Binary64.Range

namespace DeskCalculator

theorem roundHalfEven_mul_right (n d : Nat) {k : Nat} (hk : 0 < k) :
    roundHalfEven (n * k) (d * k) = roundHalfEven n d := by
  have hquotient : n * k / (d * k) = n / d := Nat.mul_div_mul_right n d hk
  have htwice : 2 * (n * k % (d * k)) = 2 * (n % d) * k := by
    rw [Nat.mul_mod_mul_right, Nat.mul_assoc]
  have hlt : 2 * (n % d) * k < d * k ↔ 2 * (n % d) < d := Nat.mul_lt_mul_right hk
  have heq : 2 * (n % d) * k = d * k ↔ 2 * (n % d) = d := Nat.mul_right_cancel_iff hk
  unfold roundHalfEven
  simp only [hquotient, htwice, hlt, heq]

theorem roundHalfEven_one (n : Nat) : roundHalfEven n 1 = n := by
  have hremainder : n % 1 = 0 := Nat.mod_one n
  unfold roundHalfEven
  simp [hremainder]

section Remainder

variable {n d q r : Nat}

theorem div_mod_eq (hn : n = d * q + r) (hr : r < d) : n / d = q ∧ n % d = r :=
  (Nat.div_mod_unique (by omega)).mpr ⟨by omega, hr⟩

theorem roundHalfEven_of_lt (hn : n = d * q + r) (hr : 2 * r < d) : roundHalfEven n d = q := by
  obtain ⟨hq, hm⟩ := div_mod_eq hn (by omega)
  rw [roundHalfEven, hq, hm, if_pos hr]

theorem roundHalfEven_of_eq (hn : n = d * q + r) (hd : 0 < d) (hr : 2 * r = d) :
    roundHalfEven n d = q + q % 2 := by
  obtain ⟨hq, hm⟩ := div_mod_eq hn (by omega)
  rw [roundHalfEven, hq, hm, if_neg (by omega), if_pos hr]

theorem roundHalfEven_of_gt (hn : n = d * q + r) (hr : d < 2 * r) (hd : r < d) :
    roundHalfEven n d = q + 1 := by
  obtain ⟨hq, hm⟩ := div_mod_eq hn hd
  rw [roundHalfEven, hq, hm, if_neg (by omega), if_neg (by omega)]

end Remainder

theorem two_mul_roundHalfEven_le (n : Nat) {d : Nat} (hd : 0 < d) :
    2 * (roundHalfEven n d * d) ≤ 2 * n + d := by
  have hn : d * (n / d) + n % d = n := Nat.div_add_mod n d
  have hr : n % d < d := Nat.mod_lt n hd
  have hcomm : n / d * d = d * (n / d) := Nat.mul_comm _ _
  have hnext : (n / d + 1) * d = d * (n / d) + d := by ring
  unfold roundHalfEven
  dsimp only
  split
  · omega
  · split
    · rcases Nat.mod_two_eq_zero_or_one (n / d) with heven | hodd
      · rw [heven, Nat.add_zero]
        omega
      · rw [hodd]
        omega
    · omega

namespace Magnitude

theorem scaleOf_mul_right (n d : Nat) {k : Nat} (hk : 0 < k) :
    scaleOf (n * k) (d * k) = scaleOf n d := by
  rw [scaleOf, Nat.mul_div_mul_right n d hk, scaleOf]

theorem nearest?_mul_right (n d : Nat) {k : Nat} (hk : 0 < k) :
    nearest? (n * k) (d * k) = nearest? n d := by
  have hround (scale : Nat) : roundHalfEven (n * k) (d * k * twoTo scale) =
      roundHalfEven n (d * twoTo scale) := by
    rw [Nat.mul_right_comm, roundHalfEven_mul_right n _ hk]
  unfold nearest?
  simp only [scaleOf_mul_right n d hk, hround]

theorem nearest?_congr {n d m e : Nat} (hd : 0 < d) (he : 0 < e) (h : n * e = m * d) :
    nearest? n d = nearest? m e := by
  calc nearest? n d = nearest? (n * e) (d * e) := (nearest?_mul_right n d he).symm
    _ = nearest? (m * d) (e * d) := by rw [h, Nat.mul_comm d e]
    _ = nearest? m e := nearest?_mul_right m e hd

theorem units_of_nearest? {n d : Nat} {m : Magnitude} (h : nearest? n d = some m) :
    m.units = roundHalfEven n (d * twoTo (scaleOf n d)) * twoTo (scaleOf n d) := by
  have hround := roundHalfEven_le n (d * twoTo (scaleOf n d))
  have hquotient := quotient_lt n d
  unfold nearest? at h
  dsimp only at h
  split at h
  · split at h
    · cases h
      rfl
    · cases h
  · rename_i hcarry
    split at h
    · cases h
      -- The significand that is carried was a power of two, a digit too long.
      have hcarried : roundHalfEven n (d * twoTo (scaleOf n d)) = twoTo 53 := by omega
      rw [hcarried, show twoTo 53 = 2 * twoTo 52 from twoTo_succ 52, Nat.mul_comm 2,
        Nat.mul_assoc, ← twoTo_succ]
      rfl
    · cases h

variable (x : Magnitude)

theorem log2_units (h : x.scale ≠ 0) : x.units.log2 = 52 + x.scale := by
  have hlarge : twoTo 52 ≤ x.significand := Nat.not_lt.mp fun hlt => h (x.scale_eq_zero hlt)
  have hlow : twoTo (52 + x.scale) ≤ x.units := by
    rw [twoTo_add]
    exact Nat.mul_le_mul_right _ hlarge
  have hhigh : x.units < twoTo (53 + x.scale) := by
    rw [twoTo_add]
    exact Nat.mul_lt_mul_of_pos_right x.significand_lt (twoTo_pos _)
  have hne : x.units ≠ 0 := Nat.ne_of_gt (Nat.lt_of_lt_of_le (twoTo_pos _) hlow)
  have hle : 52 + x.scale ≤ x.units.log2 := (Nat.le_log2 hne).mpr hlow
  have hlt : x.units.log2 < 53 + x.scale := (Nat.log2_lt hne).mpr hhigh
  omega

theorem scaleOf_units : scaleOf x.units 1 = x.scale := by
  rw [scaleOf, Nat.div_one]
  by_cases hscale : x.scale = 0
  · have hunits : x.units = x.significand := by
      rw [units, hscale]
      exact Nat.mul_one _
    by_cases hzero : x.significand = 0
    · rw [hunits, hzero, hscale]
      rfl
    · have hlog : x.significand.log2 < 53 := (Nat.log2_lt hzero).mpr x.significand_lt
      rw [hunits]
      omega
  · have hlog := x.log2_units hscale
    omega

theorem nearest?_units : nearest? x.units 1 = some x := by
  have hround : roundHalfEven x.units (1 * twoTo x.scale) = x.significand := by
    rw [units, roundHalfEven_mul_right _ 1 (twoTo_pos x.scale), roundHalfEven_one]
  unfold nearest?
  simp only [scaleOf_units, hround, x.significand_lt, x.scale_le, dif_pos]

end Magnitude

end DeskCalculator
