import DeskCalculator.Proofs.Binary64.Exact

namespace DeskCalculator

namespace Magnitude

variable {n d k : Nat} {m : Magnitude}

theorem nearest?_units_le (h : nearest? n d = some m) :
    m.units ≤ n / d + twoTo (scaleOf n d) := by
  have hround := roundHalfEven_le n (d * twoTo (scaleOf n d))
  have hquotient : (n / (d * twoTo (scaleOf n d)) + 1) * twoTo (scaleOf n d) ≤
      n / d + twoTo (scaleOf n d) := by
    rw [Nat.succ_mul, ← Nat.div_div_eq_div_mul]
    exact Nat.add_le_add_right (Nat.div_mul_le_self _ _) _
  rw [units_of_nearest? h]
  exact Nat.le_trans (Nat.mul_le_mul_right _ hround) hquotient

theorem twoTo_scaleOf_le (h : n / d ≤ twoTo k) : twoTo (scaleOf n d) ≤ twoTo k := by
  by_cases hzero : n / d = 0
  · rw [scaleOf, hzero]
    exact twoTo_pos k
  · calc twoTo (scaleOf n d) ≤ twoTo (n / d).log2 := twoTo_le (Nat.sub_le _ _)
      _ ≤ n / d := twoTo_log2_le hzero
      _ ≤ twoTo k := h

end Magnitude

namespace Binary64

open Magnitude

structure Within (x : Binary64) (k : Nat) : Prop where
  isFinite : x.isFinite = true
  units_le : x.units.natAbs ≤ twoTo (k + 1074)

theorem natAbs_units_finite (s : Bool) (m : Magnitude) :
    (finite s m).units.natAbs = m.units := by
  cases s <;> simp [units]

theorem mul_finite (s t : Bool) (a b : Magnitude) :
    finite s a * finite t b = ofUnits (s != t) (a.units * b.units) unitsPerOne := by
  change mul (finite s a) (finite t b) = _
  rw [mul]

theorem within_ofUnits {n d k : Nat} (hd : 0 < d) (h : n ≤ twoTo (k + 1074) * d)
    (hk : k ≤ 1023) (s : Bool) : (ofUnits s n d).Within (k + 1) := by
  have hrange : twoTo (k + 1074) < outOfRange :=
    Nat.lt_of_le_of_lt (twoTo_le (show k + 1074 ≤ 2097 by omega)) (by decide +kernel)
  have hfinite : (ofUnits s n d).isFinite = true :=
    (isFinite_ofUnits hd).mpr (Nat.lt_of_le_of_lt h (Nat.mul_lt_mul_of_pos_right hrange hd))
  have hquotient : n / d ≤ twoTo (k + 1074) := Nat.div_le_of_le_mul (by rwa [Nat.mul_comm])
  refine ⟨hfinite, ?_⟩
  cases hm : nearest? n d with
  | some m =>
    rw [ofUnits_some hm, natAbs_units_finite]
    have hunits := nearest?_units_le hm
    have hscale := twoTo_scaleOf_le hquotient
    rw [Nat.add_right_comm, twoTo_succ]
    omega
  | none =>
    rw [ofUnits_none hm] at hfinite
    cases hfinite

namespace Within

variable {x y : Binary64} {i j k l : Nat}

theorem mono (h : x.Within j) (hjk : j ≤ k) : x.Within k :=
  ⟨h.isFinite, Nat.le_trans h.units_le (twoTo_le (Nat.add_le_add_right hjk 1074))⟩

theorem exists_finite (h : x.Within k) :
    ∃ s m, x = finite s m ∧ m.units ≤ twoTo (k + 1074) := by
  have hunits := h.units_le
  cases x with
  | finite s m => exact ⟨s, m, rfl, by rwa [natAbs_units_finite] at hunits⟩
  | nan => cases h.isFinite
  | infinite s => cases h.isFinite

theorem neg (h : x.Within k) : (-x).Within k := by
  obtain ⟨s, m, rfl, hm⟩ := h.exists_finite
  exact ⟨rfl, by rwa [show -finite s m = finite (!s) m from rfl, natAbs_units_finite]⟩

theorem add (hx : x.Within k) (hy : y.Within k) (hk : k + 1 ≤ 1023) : (x + y).Within (k + 2) := by
  have hunits := hx.units_le
  have hunits' := hy.units_le
  obtain ⟨s, a, rfl, -⟩ := hx.exists_finite
  obtain ⟨t, b, rfl, -⟩ := hy.exists_finite
  have hsum : ((finite s a).units + (finite t b).units).natAbs ≤ twoTo (k + 1 + 1074) * 1 := by
    rw [Nat.mul_one, Nat.add_right_comm, twoTo_succ]
    omega
  change (if _ then _ else _ : Binary64).Within _
  split
  · refine ⟨rfl, ?_⟩
    rw [zero, natAbs_units_finite]
    exact Nat.zero_le _
  · exact within_ofUnits Nat.one_pos hsum hk _

theorem sub (hx : x.Within k) (hy : y.Within k) (hk : k + 1 ≤ 1023) : (x - y).Within (k + 2) :=
  hx.add hy.neg hk

theorem mul (hx : x.Within j) (hy : y.Within k) (hk : j + k ≤ 1023) :
    (x * y).Within (j + k + 1) := by
  obtain ⟨s, a, rfl, ha⟩ := hx.exists_finite
  obtain ⟨t, b, rfl, hb⟩ := hy.exists_finite
  have hpos : 0 < unitsPerOne := twoTo_pos 1074
  rw [mul_finite]
  refine within_ofUnits hpos ?_ hk _
  calc a.units * b.units ≤ twoTo (j + 1074) * twoTo (k + 1074) := Nat.mul_le_mul ha hb
    _ = twoTo (j + 1074 + (k + 1074)) := (twoTo_add _ _).symm
    _ = twoTo (j + k + 1074 + 1074) := congrArg twoTo (by omega)
    _ = twoTo (j + k + 1074) * unitsPerOne := twoTo_add _ _

theorem div (hx : x.Within j) (hy : y.isFinite = true) (hi : twoTo (1074 - i) ≤ y.units.natAbs)
    (hle : i ≤ 1074) (hk : j + i ≤ 1023) : (x / y).Within (j + i + 1) := by
  obtain ⟨s, a, rfl, ha⟩ := hx.exists_finite
  cases y with
  | nan => cases hy
  | infinite t => cases hy
  | finite t b =>
    rw [natAbs_units_finite] at hi
    have hpos : 0 < b.units := Nat.lt_of_lt_of_le (twoTo_pos _) hi
    change (if b.units = 0 then _ else _ : Binary64).Within _
    rw [if_neg (Nat.ne_of_gt hpos)]
    refine within_ofUnits hpos ?_ hk _
    calc a.units * unitsPerOne ≤ twoTo (j + 1074) * unitsPerOne := Nat.mul_le_mul_right _ ha
      _ = twoTo (j + 1074 + 1074) := (twoTo_add _ _).symm
      _ = twoTo (j + i + 1074 + (1074 - i)) := congrArg twoTo (by omega)
      _ = twoTo (j + i + 1074) * twoTo (1074 - i) := twoTo_add _ _
      _ ≤ twoTo (j + i + 1074) * b.units := Nat.mul_le_mul_left _ hi

end Within

theorem within_ofRatio {n d k : Nat} (hd : 0 < d) (h : n ≤ twoTo k * d) (hk : k ≤ 1023)
    (s : Bool) : (ofRatio s n d).Within (k + 1) := by
  refine within_ofUnits hd ?_ hk s
  calc n * unitsPerOne ≤ twoTo k * d * unitsPerOne := Nat.mul_le_mul_right _ h
    _ = twoTo (k + 1074) * d := by
      rw [twoTo_add, unitsPerOne]
      ring

theorem within_ofInt {n : Int} {k : Nat} (h : n.natAbs ≤ twoTo k) (hk : k ≤ 1023) :
    (ofInt n).Within (k + 1) :=
  within_ofRatio Nat.one_pos (by rwa [Nat.mul_one]) hk _

section Numbers

variable {x y : Binary64}

theorem isNaN_of_isFinite (h : x.isFinite = true) : x.isNaN = false := by
  cases x with
  | nan => cases h
  | infinite s => rfl
  | finite s m => rfl

theorem isNaN_ofUnits (s : Bool) (n d : Nat) : (ofUnits s n d).isNaN = false := by
  unfold ofUnits
  split <;> rfl

theorem isNaN_add (hx : x.isNaN = false) (hy : y.isFinite = true) : (x + y).isNaN = false := by
  cases y with
  | nan => cases hy
  | infinite t => cases hy
  | finite t b =>
    cases x with
    | nan => cases hx
    | infinite s => rfl
    | finite s a =>
      change (if _ then _ else _ : Binary64).isNaN = false
      split
      · rfl
      · exact isNaN_ofUnits _ _ _

theorem isNaN_sub (hx : x.isNaN = false) (hy : y.isFinite = true) : (x - y).isNaN = false := by
  refine isNaN_add hx ?_
  cases y with
  | finite t b => rfl
  | nan => cases hy
  | infinite t => cases hy

theorem isNaN_mul (hx : x.isNaN = false) (hy : y.isFinite = true) (hzero : y.isZero = false) :
    (x * y).isNaN = false := by
  cases y with
  | nan => cases hy
  | infinite t => cases hy
  | finite t b =>
    have hb : b.units ≠ 0 := of_decide_eq_false hzero
    cases x with
    | nan => cases hx
    | infinite s =>
      change (if b.units = 0 then _ else _ : Binary64).isNaN = false
      rw [if_neg hb]
      rfl
    | finite s a =>
      rw [mul_finite]
      exact isNaN_ofUnits _ _ _

theorem isNaN_div (hx : x.isNaN = false) (hy : y.isFinite = true) (hzero : y.isZero = false) :
    (x / y).isNaN = false := by
  cases y with
  | nan => cases hy
  | infinite t => cases hy
  | finite t b =>
    have hb : b.units ≠ 0 := of_decide_eq_false hzero
    cases x with
    | nan => cases hx
    | infinite s => rfl
    | finite s a =>
      change (if b.units = 0 then _ else _ : Binary64).isNaN = false
      rw [if_neg hb]
      exact isNaN_ofUnits _ _ _

end Numbers

end Binary64

end DeskCalculator
