import DeskCalculator.Proofs.Expression.Arithmetic
import DeskCalculator.Proofs.Number.Error

namespace DeskCalculator

namespace Binary64

open Magnitude

section Scaled

variable {n count next significand scale : Nat} {m : Magnitude}

theorem exists_ofNat (hn : n < twoTo 53) :
    ∃ m, ofNat n = finite false m ∧ m.units = n * unitsPerOne := by
  obtain ⟨m, hm, hunits⟩ := exists_whole hn
  exact ⟨m, ofUnits_some hm false, hunits⟩

theorem mul_ofNat (hn : n < twoTo 53) (s : Bool) (m : Magnitude) :
    finite s m * ofNat n = ofUnits s (m.units * n) 1 := by
  obtain ⟨k, hk, hunits⟩ := exists_ofNat hn
  have hpos : 0 < unitsPerOne := twoTo_pos 1074
  have hcongr : nearest? (m.units * k.units) unitsPerOne = nearest? (m.units * n) 1 := by
    refine nearest?_congr hpos Nat.one_pos ?_
    rw [hunits, Nat.mul_one, Nat.mul_assoc]
  rw [hk, mul_finite, Bool.bne_false]
  unfold ofUnits
  rw [hcongr]

theorem exists_mul_ofNat (hm : m.units = significand * twoTo scale) (hn : n < twoTo 53)
    (hscale : scale + scaleOf (significand * n) 1 ≤ 2044) :
    ∃ k, finite false m * ofNat n = finite false k ∧
      k.units = roundHalfEven (significand * n) (twoTo (scaleOf (significand * n) 1)) *
        twoTo (scale + scaleOf (significand * n) 1) := by
  have hproduct : m.units * n = significand * n * twoTo scale := by rw [hm, Nat.mul_right_comm]
  have hlt : m.units * n < twoTo (53 + (scaleOf (significand * n) 1 + scale)) := by
    rw [hproduct, ← Nat.add_assoc, twoTo_add]
    exact Nat.mul_lt_mul_of_pos_right (lt_twoTo_scaleOf _) (twoTo_pos scale)
  have hrange : scaleOf (m.units * n) 1 < 2045 :=
    Nat.lt_of_le_of_lt (scaleOf_le_of_lt hlt) (by omega)
  obtain ⟨k, hk, hunits⟩ := exists_nearest? hrange
  refine ⟨k, ?_, ?_⟩
  · rw [mul_ofNat hn, ofUnits_some hk]
  · rw [hunits, hproduct, roundUnits_mul_twoTo, roundUnits, Nat.mul_assoc, ← twoTo_add,
      Nat.add_comm scale]

/-- The loop on significands, which are short however long the product is. None if the scale comes
near its limit. -/
def risingScaled? : (count next significand scale : Nat) → Option (Nat × Nat)
  | 0, _, significand, scale => some (significand, scale)
  | count + 1, next, significand, scale =>
      let product := significand * next
      let digits := scaleOf product 1
      if scale + digits ≤ 2044 then
        risingScaled? count (next + 1) (roundHalfEven product (twoTo digits)) (scale + digits)
      else none

theorem risingProduct?_of_scaled {s e : Nat} (hm : m.units = significand * twoTo scale)
    (hnext : next + count ≤ twoTo 53)
    (h : risingScaled? count next significand scale = some (s, e)) :
    ∃ k, risingProduct? count next (finite false m) = some (finite false k) ∧
      k.units = s * twoTo e := by
  induction count generalizing next significand scale m with
  | zero =>
    cases h
    exact ⟨m, rfl, hm⟩
  | succ count ih =>
    unfold risingScaled? at h
    dsimp only at h
    split at h
    · rename_i hscale
      obtain ⟨k, hk, hunits⟩ := exists_mul_ofNat hm (by omega) hscale
      rw [risingProduct?_succ, hk]
      exact ih hunits (by omega) h
    · cases h

end Scaled

section Loop

variable {count next : Nat} {start y : Binary64}

theorem risingProduct?_add (count extra next : Nat) (start : Binary64) :
    risingProduct? (count + extra) next start =
      (risingProduct? count next start).bind (risingProduct? extra (next + count)) := by
  induction count generalizing next start with
  | zero => rw [Nat.zero_add, risingProduct?_zero, Option.bind_some, Nat.add_zero]
  | succ count ih =>
    rw [Nat.succ_add, risingProduct?_succ, risingProduct?_succ]
    split
    · rw [ih, Nat.succ_add_eq_add_succ]
    · rfl

theorem risingProduct?_add_of_none (h : risingProduct? count next start = none) (extra : Nat) :
    risingProduct? (count + extra) next start = none := by
  rw [risingProduct?_add, h, Option.bind_none]

theorem isSome_risingProduct?_of_add (extra : Nat)
    (h : (risingProduct? (count + extra) next start).isSome = true) :
    (risingProduct? count next start).isSome = true := by
  cases hshort : risingProduct? count next start with
  | some y => rfl
  | none =>
    rw [risingProduct?_add_of_none hshort] at h
    cases h

theorem eq_foldl_of_risingProduct? (h : risingProduct? count next start = some y) :
    y = (List.range' next count).foldl (fun product i => product * ofNat i) start := by
  induction count generalizing next start with
  | zero => exact (Option.some.inj h).symm
  | succ count ih =>
    rw [risingProduct?_succ] at h
    split at h
    · rw [List.range'_succ, List.foldl_cons]
      exact ih h
    · cases h

def largestFactorial : Binary64 :=
  .finite false ⟨5818033100654133, 2041, by decide, by decide, by decide⟩

theorem risingProduct?_169 : risingProduct? 169 2 one = some largestFactorial := by
  obtain ⟨m, hone, hm⟩ := exists_ofNat (show 1 < twoTo 53 by decide)
  rw [unitsPerOne] at hm
  have hscaled : risingScaled? 169 2 1 1074 = some (5818033100654133, 2041) := by decide +kernel
  obtain ⟨k, hk, hunits⟩ := risingProduct?_of_scaled hm (by decide) hscaled
  rw [one, hone, hk, largestFactorial]
  refine congrArg _ (congrArg _ (units_injective ?_))
  rw [hunits, Magnitude.units]

theorem risingProduct?_170 : risingProduct? 170 2 one = none := by
  rw [risingProduct?_add 169 1, risingProduct?_169, Option.bind_some]
  decide +kernel

def countedTimes (x : Binary64) (n : Nat) : StateM Nat Binary64 := do
  modify (· + 1)
  return x * ofNat n

theorem run_counted_succ (count next : Nat) (start : Binary64) (made : Nat) :
    (risingProductBy countedTimes (count + 1) next start).run made =
      if (start * ofNat next).isFinite then
        (risingProductBy countedTimes count (next + 1) (start * ofNat next)).run (made + 1)
      else pure (none, made + 1) := by
  rw [risingProductBy]
  change (if _ then _ else _ : StateM Nat (Option Binary64)).run (made + 1) = _
  split <;> rfl

theorem exists_run_counted (count next : Nat) (start : Binary64) (made : Nat) :
    ∃ k ≤ count, (risingProductBy countedTimes count next start).run made =
      pure (risingProduct? count next start, made + k) := by
  induction count generalizing next start made with
  | zero => exact ⟨0, Nat.le_refl 0, rfl⟩
  | succ count ih =>
    rw [run_counted_succ, risingProduct?_succ]
    split
    · obtain ⟨k, hk, hrun⟩ := ih (next + 1) (start * ofNat next) (made + 1)
      exact ⟨k + 1, Nat.succ_le_succ hk, by rw [hrun, Nat.add_assoc, Nat.add_comm 1]⟩
    · exact ⟨1, Nat.succ_le_succ (Nat.zero_le count), rfl⟩

theorem run_counted_of_none (h : risingProduct? count next start = none) (extra made : Nat) :
    (risingProductBy countedTimes (count + extra) next start).run made =
      (risingProductBy countedTimes count next start).run made := by
  induction count generalizing next start made with
  | zero => cases h
  | succ count ih =>
    rw [risingProduct?_succ] at h
    rw [Nat.succ_add, run_counted_succ, run_counted_succ]
    split
    · rename_i hfinite
      rw [if_pos hfinite] at h
      exact ih h (made + 1)
    · rfl

theorem exists_run_counted_le (count : Nat) :
    ∃ k ≤ 170, (risingProductBy countedTimes count 2 one).run 0 =
      pure (risingProduct? count 2 one, k) := by
  -- The 170th multiplication leaves the range, so that none comes after it.
  rcases Nat.le_total count 170 with hle | hge
  · obtain ⟨k, hk, hrun⟩ := exists_run_counted count 2 one 0
    exact ⟨k, Nat.le_trans hk hle, by rw [hrun, Nat.zero_add]⟩
  · obtain ⟨extra, rfl⟩ := Nat.exists_eq_add_of_le hge
    obtain ⟨k, hk, hrun⟩ := exists_run_counted 170 2 one 0
    refine ⟨k, hk, ?_⟩
    rw [run_counted_of_none risingProduct?_170, hrun, risingProduct?_add_of_none risingProduct?_170,
      risingProduct?_170, Nat.zero_add]

end Loop

section Whole

variable {x : Binary64}

theorem isNegative_iff (hx : x.isFinite = true) : x.isNegative = true ↔ x.toRat < 0 := by
  have hpos : (0 : ℚ) < unitsPerOne := Nat.cast_pos.mpr (twoTo_pos 1074)
  have hsign : x.toRat < 0 ↔ x.units < 0 := by
    rw [toRat, div_lt_iff₀ hpos, zero_mul, Int.cast_lt_zero]
  rw [hsign]
  cases x with
  | nan => cases hx
  | infinite s => cases hx
  | finite s m =>
    cases s with
    | false => simp [isNegative, units]
    | true => simp [isNegative, units, Nat.pos_iff_ne_zero]

theorem isIntegral_iff : x.isIntegral = true ↔ x.isFinite = true ∧ ∃ n : ℤ, x.toRat = n := by
  simp only [isIntegral, Bool.and_eq_true, decide_eq_true_eq, toRat_eq_intCast]
  refine and_congr_right fun _ => ⟨fun h => ?_, ?_⟩
  · exact ⟨_, (Int.ediv_mul_cancel (Int.dvd_of_emod_eq_zero h)).symm⟩
  · rintro ⟨n, hn⟩
    rw [hn, Int.mul_emod_left]

theorem isWhole_iff : (!x.isNegative && x.isIntegral) = true ↔
    x.isFinite = true ∧ ∃ n : ℕ, x.toRat = n := by
  rw [Bool.and_eq_true, Bool.not_eq_true', isIntegral_iff]
  constructor
  · rintro ⟨hsign, hx, n, hn⟩
    have hpositive : ¬x.toRat < 0 := by
      rw [← isNegative_iff hx, hsign]
      exact Bool.false_ne_true
    obtain ⟨k, rfl⟩ : ∃ k : ℕ, n = k := Int.eq_ofNat_of_zero_le (by
      rw [hn] at hpositive
      exact_mod_cast not_lt.mp hpositive)
    exact ⟨hx, k, by exact_mod_cast hn⟩
  · rintro ⟨hx, n, hn⟩
    refine ⟨Bool.eq_false_of_not_eq_true fun hsign => ?_, hx, n, by exact_mod_cast hn⟩
    have hnegative := (isNegative_iff hx).mp hsign
    rw [hn] at hnegative
    exact absurd hnegative (not_lt.mpr (Nat.cast_nonneg n))

def IsNoCount (x : Binary64) : Prop :=
  x.isFinite = false ∨ x.toRat < 0 ∨ ∀ n : ℤ, x.toRat ≠ n

theorem isNoCount_iff : x.IsNoCount ↔ ¬(!x.isNegative && x.isIntegral) = true := by
  cases hx : x.isFinite with
  | false => simp [IsNoCount, isIntegral_iff, hx]
  | true =>
    rw [IsNoCount, Bool.and_eq_true, Bool.not_eq_true', isIntegral_iff, ← isNegative_iff hx, hx]
    simp [or_iff_not_imp_left]

theorem floor_eq_of_toRat {n : ℕ} (hn : x.toRat = n) : x.floor.toNat = n := by
  rw [floor_eq_toRat, hn, Int.floor_natCast, Int.toNat_natCast]

end Whole

end Binary64

section Outcomes

open Binary64

variable {x : Binary64} {n : ℕ}

theorem factorial_of_isWhole (hx : x.isFinite = true) (hn : x.toRat = n) :
    (Value.real x).factorial = match risingProduct? (n - 1) 2 .one with
      | some y => .ok y
      | none => .error (.fault (.overflow (.factorial (.real x)))) := by
  have hproduct := Value.factorial_real x
  rw [if_pos (isWhole_iff.mpr ⟨hx, n, hn⟩), floor_eq_of_toRat hn] at hproduct
  exact hproduct

theorem factorial_in_range (hx : x.isFinite = true) (hn : x.toRat = n) (hle : n ≤ 170) :
    let product := (List.range' 2 (n - 1)).foldl (fun y i => y * ofNat i) one
    (Value.real x).factorial = .ok product ∧ product.isFinite = true := by
  obtain ⟨extra, hextra⟩ := Nat.exists_eq_add_of_le (show n - 1 ≤ 169 by omega)
  have hsome : (risingProduct? (n - 1) 2 one).isSome = true := by
    refine isSome_risingProduct?_of_add extra ?_
    rw [← hextra, risingProduct?_169]
    rfl
  obtain ⟨y, hy⟩ := Option.isSome_iff_exists.mp hsome
  rw [factorial_of_isWhole hx hn, hy, ← eq_foldl_of_risingProduct? hy]
  exact ⟨rfl, isFinite_risingProduct? isFinite_one hy⟩

theorem factorial_out_of_range (hx : x.isFinite = true) (hn : x.toRat = n) (hge : 171 ≤ n) :
    (Value.real x).factorial = .error (.fault (.overflow (.factorial (.real x)))) := by
  obtain ⟨extra, hextra⟩ := Nat.exists_eq_add_of_le (show 170 ≤ n - 1 by omega)
  rw [factorial_of_isWhole hx hn, hextra, risingProduct?_add_of_none risingProduct?_170]

theorem factorial_of_isNoCount (h : x.IsNoCount) :
    (Value.real x).factorial = .error (.fault (.domain (.factorial (.real x)))) := by
  rw [Value.factorial_real, if_neg (isNoCount_iff.mp h)]

theorem whole_or_isNoCount (x : Binary64) :
    (∃ n : ℕ, x.isFinite = true ∧ x.toRat = n ∧ n ≤ 170) ∨
      (∃ n : ℕ, x.isFinite = true ∧ x.toRat = n ∧ 171 ≤ n) ∨ x.IsNoCount := by
  by_cases h : (!x.isNegative && x.isIntegral) = true
  · obtain ⟨hx, n, hn⟩ := isWhole_iff.mp h
    rcases Nat.lt_or_ge 170 n with hgt | hle
    · exact .inr (.inl ⟨n, hx, hn, hgt⟩)
    · exact .inl ⟨n, hx, hn, hle⟩
  · exact .inr (.inr (isNoCount_iff.mpr h))

theorem exists_factorial_counted (v : Value) : ∃ k ≤ 170,
    (v.factorialBy countedTimes).run 0 = pure (v.factorial, k) := by
  rw [Value.factorial_eq, Value.factorialBy]
  cases v.factorialArgument with
  | error e => exact ⟨0, Nat.zero_le 170, rfl⟩
  | ok n =>
    obtain ⟨k, hk, hrun⟩ := exists_run_counted_le (n.floor.toNat - 1)
    refine ⟨k, hk, ?_⟩
    rw [ok_bind]
    dsimp only
    rw [StateT.run_bind, hrun]
    cases risingProduct? (n.floor.toNat - 1) 2 one <;> rfl

/-- The factorial of a number that is negative, fractional or not finite is outside its domain, that
of a whole number from 171 on is out of range, and that of any other is the product of the numbers
up to it, rounded at each step. However large the number, no more than 170 multiplications are
made. -/
theorem factorial_exact (x : Binary64) :
    ((∃ cause, (Value.real x).factorial = .error (.fault (.domain cause))) ↔
      x.isFinite = false ∨ x.toRat < 0 ∨ ∀ n : ℤ, x.toRat ≠ n) ∧
    ((∃ cause, (Value.real x).factorial = .error (.fault (.overflow cause))) ↔
      ∃ n : ℕ, x.isFinite = true ∧ x.toRat = n ∧ 171 ≤ n) ∧
    (∀ n : ℕ, x.isFinite = true → x.toRat = n → n ≤ 170 →
      let product := (List.range' 2 (n - 1)).foldl (fun y i => y * ofNat i) one
      (Value.real x).factorial = .ok product ∧ product.isFinite = true) ∧
    ∃ k ≤ 170, ((Value.real x).factorialBy countedTimes).run 0 =
      pure ((Value.real x).factorial, k) := by
  refine ⟨⟨?_, fun h => ⟨_, factorial_of_isNoCount h⟩⟩,
    ⟨?_, fun ⟨n, hx, hn, hge⟩ => ⟨_, factorial_out_of_range hx hn hge⟩⟩,
    fun n => factorial_in_range, exists_factorial_counted (.real x)⟩
  · rintro ⟨cause, h⟩
    rcases whole_or_isNoCount x with ⟨n, hx, hn, hle⟩ | ⟨n, hx, hn, hge⟩ | hout
    · cases (factorial_in_range hx hn hle).1.symm.trans h
    · cases (factorial_out_of_range hx hn hge).symm.trans h
    · exact hout
  · rintro ⟨cause, h⟩
    rcases whole_or_isNoCount x with ⟨n, hx, hn, hle⟩ | hlarge | hout
    · cases (factorial_in_range hx hn hle).1.symm.trans h
    · exact hlarge
    · cases (factorial_of_isNoCount hout).symm.trans h

theorem factorial_exact_five_and_negative_zero :
    ((ofNat 5).isFinite = true ∧ (ofNat 5).toRat = (5 : ℕ) ∧
      (Value.real (ofNat 5)).factorial = .ok (ofNat 120)) ∧
    (zero true).isFinite = true ∧ (zero true).toRat = (0 : ℕ) ∧
      (Value.real (zero true)).factorial = .ok one := by
  have hfinite : (ofNat 5).isFinite = true := by decide +kernel
  have hunits : (ofNat 5).units = (5 : ℕ) * unitsPerOne := by decide +kernel
  have hfive : (ofNat 5).toRat = (5 : ℕ) :=
    (toRat_eq_intCast.mpr hunits).trans (Int.cast_natCast 5)
  have hzero : (zero true).toRat = (0 : ℕ) := (toRat_zero true).trans Nat.cast_zero.symm
  have hloop : (List.range' 2 4).foldl (fun y i => y * ofNat i) one = ofNat 120 := by
    decide +kernel
  have hproduct := ((factorial_exact (ofNat 5)).2.2.1 5 hfinite hfive (by decide)).1
  have hempty := ((factorial_exact (zero true)).2.2.1 0 rfl hzero (Nat.zero_le 170)).1
  rw [Nat.zero_sub, List.range'_zero, List.foldl_nil] at hempty
  exact ⟨⟨hfinite, hfive, hproduct.trans (congrArg _ hloop)⟩, rfl, hzero, hempty⟩

end Outcomes

end DeskCalculator
