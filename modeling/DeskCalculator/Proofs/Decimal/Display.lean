import DeskCalculator.Proofs.Decimal.Digits

namespace DeskCalculator

namespace Magnitude

variable {x : Magnitude}

theorem digits_of_readsBack {d : Decimal} (hx : x ≠ zero) (h : x.readsBack d = true) :
    d.digits ≠ 0 := by
  intro hd
  have hzero : d.magnitude? = some zero := by
    have hnum : d.numerator * Binary64.unitsPerOne = 0 := by
      rw [Decimal.numerator, hd, Nat.zero_mul, Nat.zero_mul]
    rw [Decimal.magnitude?, hnum]
    exact nearest?_eq_zero (tenTo_pos _) (Nat.zero_le _)
  have hback : d.magnitude? = some x := by simpa [readsBack] using h
  exact hx (Option.some.inj (hback.symm.trans hzero))

theorem digits_exactDecimal (hx : x ≠ zero) : x.exactDecimal.digits ≠ 0 := by
  have hunits : x.units ≠ 0 := fun h => hx (x.units_eq_zero.mp h)
  refine Nat.mul_ne_zero hunits ?_
  generalize 1074 = places
  exact Nat.ne_of_gt (Nat.pow_pos (by decide))

theorem firstFrom_cases (decimal? : Int → Option Decimal) (other : Decimal) (tries : Nat)
    (exponent : Int) : firstFrom decimal? other tries exponent = other ∨
      ∃ e, decimal? e = some (firstFrom decimal? other tries exponent) := by
  induction tries generalizing exponent with
  | zero => exact .inl rfl
  | succ tries ih =>
    unfold firstFrom
    split
    · rename_i d hd
      exact .inr ⟨exponent, hd⟩
    · exact ih (exponent - 1)

theorem digits_shortest (hx : x ≠ zero) : x.shortest.digits ≠ 0 := by
  rcases firstFrom_cases x.decimalAt? x.exactDecimal 18 (x.leadingPower + 1) with h | ⟨e, h⟩
  · rw [shortest, h]
    exact digits_exactDecimal hx
  · exact digits_of_readsBack hx (readsBack_decimalAt? h)

end Magnitude

open Text

namespace Decimal

theorem positional_eq {d : Decimal} (h : d.digits ≠ 0) :
    Whole d.positional ∨ ∃ whole fraction, Whole whole ∧ AllDigits fraction ∧
      d.positional = whole ++ '.' :: fraction := by
  have hw := Whole.writeDigits d.digits
  unfold positional
  split
  · exact .inl (hw.append (Whole.writeDigits_ne_zero h) (allDigits_zeros _))
  · obtain ⟨whole, fraction, hwhole, hfraction, -, heq⟩ := withPoint_eq hw (-d.exponent).toNat
    exact .inr ⟨whole, fraction, hwhole, hfraction, heq⟩

theorem trim_whole {cs : List Char} (h : AllDigits cs) : trim cs = cs := by
  have hpoint : cs.contains '.' = false := by
    simp only [List.contains_eq_mem, decide_eq_false_iff_not]
    exact fun hmem => h.ne_point _ hmem rfl
  rw [trim, hpoint, if_neg Bool.false_ne_true]

theorem trim_positional {d : Decimal} (h : d.digits ≠ 0) :
    ∃ whole fraction, Whole whole ∧ Trimmed fraction ∧
      trim d.positional = whole ++ pointed fraction := by
  rcases positional_eq h with hw | ⟨whole, fraction, hw, hf, heq⟩
  · exact ⟨_, [], hw, trimmed_nil, by rw [trim_whole hw.allDigits, pointed, if_pos rfl,
      List.append_nil]⟩
  · refine ⟨whole, _, hw, trimmed_rdropWhile hf, ?_⟩
    rw [heq, trim_point hw.allDigits hf]

end Decimal

open Decimal in
theorem Binary64.plain?_finite (s : Bool) (m : Magnitude) :
    ∃ negative whole fraction, (negative = true → s = true) ∧ Whole whole ∧
      Trimmed fraction ∧
      (finite s m).plain? = some (sign negative ++ (whole ++ pointed fraction)) := by
  by_cases hm : m.units = 0
  · exact ⟨false, ['0'], [], nofun, .zero, trimmed_nil, by rw [plain?, if_pos hm]; rfl⟩
  · have hne : m ≠ .zero := fun h => hm (m.units_eq_zero.mpr h)
    obtain ⟨whole, fraction, hw, hf, heq⟩ := trim_positional (Magnitude.digits_shortest hne)
    exact ⟨s, whole, fraction, id, hw, hf, by rw [plain?, if_neg hm, heq]⟩

end DeskCalculator
