import DeskCalculator.Proofs.Binary64.Halves
import DeskCalculator.Proofs.Converter.Selection
import DeskCalculator.Proofs.Number.Growth

namespace DeskCalculator

section Operands

variable (x : Binary64) {n : Number} {y : Binary64}

theorem Number.combine_real (exact : Int → Int → Int) (rounded : Binary64 → Binary64 → Binary64)
    (h : n.toBinary64 = .ok y) :
    Number.combine exact rounded (.real x) n = .ok (.real (rounded x y)) := by
  simp only [Number.combine, Number.toBinary64_real, h, ok_bind, pure_eq_ok]

theorem Quantity.sub_ofReal_number (h : n.toBinary64 = .ok y) :
    (ofReal x).sub n.quantity = .ok (ofReal (x - y)) := by
  change (Number.sub (.real x) n).map Number.quantity = _
  rw [Number.sub, Number.combine_real x _ _ h]
  rfl

theorem Quantity.add_ofReal_number (h : n.toBinary64 = .ok y) :
    (ofReal x).add n.quantity = .ok (ofReal (x + y)) := by
  change (Number.add (.real x) n).map Number.quantity = _
  rw [Number.add, Number.combine_real x _ _ h]
  rfl

theorem Quantity.div_ofReal_number (h : n.toBinary64 = .ok y) (hy : y.isZero = false) :
    (ofReal x).div n.quantity = .ok (x / y) := by
  change Number.div (.real x) n = _
  cases n with
  | int n => simp [Number.div, h, hy]
  | real z =>
    cases h
    simp [Number.div, hy]

end Operands

namespace Number

theorem isFactor_int {n k : Nat} (hpos : 0 < n) (hn : n ≤ twoTo k) (hk : k ≤ 52) :
    (Number.int n).IsFactor 0 k (.ofInt n) := by
  have hlt : n < twoTo 53 :=
    Nat.lt_of_le_of_lt (Nat.le_trans hn (twoTo_le hk)) (by decide)
  obtain ⟨m, hm, hunits⟩ := Magnitude.exists_whole hlt
  have hvalue : Binary64.ofInt n = .finite ((n : Int) < 0) m := Binary64.ofUnits_some hm _
  refine ⟨toBinary64_int (by rw [hvalue]; rfl), ?_, hn, Nat.zero_le _, by omega⟩
  rw [hvalue, Binary64.natAbs_units_finite, hunits]
  exact Nat.le_mul_of_pos_left _ hpos

theorem isFactor_five : (Number.int 5).IsFactor 0 3 (.ofInt 5) :=
  isFactor_int (by decide) (by decide) (by decide)

theorem isFactor_nine : (Number.int 9).IsFactor 0 4 (.ofInt 9) :=
  isFactor_int (by decide) (by decide) (by decide)

theorem isFactor_thirtyTwo : (Number.int 32).IsFactor 0 5 (.ofInt 32) :=
  isFactor_int (by decide) (by decide) (by decide)

theorem isFactor_absoluteZero :
    (Number.real Measure.absoluteZero).IsFactor 0 9 Measure.absoluteZero := by
  have hzero : twoTo 1074 ≤ Measure.absoluteZero.units.natAbs ∧
      Measure.absoluteZero.isFinite = true ∧
      Measure.absoluteZero.units.natAbs ≤ twoTo (9 + 1074) := by
    decide +kernel
  exact ⟨rfl, hzero.1, ⟨hzero.2.1, hzero.2.2⟩, by decide, by decide⟩

end Number

theorem Category.isFactor_factor? (c : Category) {u : MeasureUnit} (hu : u ∈ c.units)
    {y : Binary64} (hy : u.factor? = some y) : (Number.real y).IsFactor 20 22 y := by
  have hall : c.units.all (fun u => u.factor?.all fun y => y.isFinite &&
      decide (y.units.natAbs ≤ twoTo (22 + 1074)) &&
      decide (twoTo (1074 - 20) ≤ y.units.natAbs)) = true := by
    cases c <;> decide +kernel
  have hfactor := List.all_eq_true.mp hall u hu
  rw [hy, Option.all_some, Bool.and_eq_true, Bool.and_eq_true, decide_eq_true_iff,
    decide_eq_true_iff] at hfactor
  obtain ⟨⟨hfinite, hhigh⟩, hlow⟩ := hfactor
  exact ⟨rfl, hlow, ⟨hfinite, hhigh⟩, by decide, by decide⟩

namespace Measure

theorem isFactor_multiple {c : Category} {u : MeasureUnit} {factor : Decimal} (hu : u ∈ c.units)
    (hm : u.measure = .multiple factor) :
    (Number.real (factor.toBinary64 false)).IsFactor 20 22 (factor.toBinary64 false) :=
  c.isFactor_factor? hu (by rw [MeasureUnit.factor?, hm])

theorem exists_toBase (m : Measure) (x : Binary64) :
    ∃ y, m.toBase (.ofReal x) = .ok (.ofReal y) := by
  cases m with
  | multiple factor =>
    exact ⟨_, Quantity.mul_ofReal_number x (Number.toBinary64_real (factor.toBinary64 false))⟩
  | celsius => exact ⟨x, rfl⟩
  | fahrenheit =>
    have habove := Quantity.sub_ofReal_number x Number.isFactor_thirtyTwo.toBinary64
    have hfifths := Quantity.mul_ofReal_number (x - .ofInt 32) Number.isFactor_five.toBinary64
    have hdegrees := Quantity.div_ofReal_number ((x - .ofInt 32) * .ofInt 5)
      Number.isFactor_nine.toBinary64 Number.isFactor_nine.isZero
    refine ⟨(x - .ofInt 32) * .ofInt 5 / .ofInt 9, ?_⟩
    simp only [toBase, Quantity.ofInt, habove, hfifths, hdegrees, ok_bind, pure_eq_ok]
  | kelvin =>
    exact ⟨_, Quantity.sub_ofReal_number x (Number.toBinary64_real absoluteZero)⟩

theorem exists_ofBase {c : Category} {u : MeasureUnit} (hu : u ∈ c.units) (x : Binary64) :
    ∃ y, u.measure.ofBase (.ofReal x) = .ok (.ofReal y) := by
  cases hm : u.measure with
  | multiple factor =>
    have hfactor := isFactor_multiple hu hm
    have hdiv := Quantity.div_ofReal_number x hfactor.toBinary64 hfactor.isZero
    refine ⟨x / factor.toBinary64 false, ?_⟩
    simp only [ofBase, Quantity.ofReal] at hdiv ⊢
    simp only [hdiv, ok_bind, pure_eq_ok]
  | celsius => exact ⟨x, rfl⟩
  | fahrenheit =>
    have hninths := Quantity.mul_ofReal_number x Number.isFactor_nine.toBinary64
    have hdegrees := Quantity.div_ofReal_number (x * .ofInt 9) Number.isFactor_five.toBinary64
      Number.isFactor_five.isZero
    have hsum := Quantity.add_ofReal_number (x * .ofInt 9 / .ofInt 5)
      Number.isFactor_thirtyTwo.toBinary64
    refine ⟨x * .ofInt 9 / .ofInt 5 + .ofInt 32, ?_⟩
    simp only [ofBase, Quantity.ofInt, hninths, hdegrees, hsum, ok_bind]
  | kelvin =>
    exact ⟨_, Quantity.add_ofReal_number x (Number.toBinary64_real absoluteZero)⟩

end Measure

namespace MeasureUnit

def convert (u w : MeasureUnit) (n : Number) : Except Failure Quantity :=
  if u.id = w.id then .ok n.quantity else u.measure.toBase n.quantity >>= w.measure.ofBase

variable {c : Category} {source target : Value} {u w : MeasureUnit}

theorem convertValue_eq (hu : c.unit source = .ok u) (hw : c.unit target = .ok w) (n : Number)
    (decimals : Value) :
    convertValue (.text c.name) n.toValue source target decimals =
      u.convert w n >>= fun y => y.roundHalfUp decimals := by
  have hvalue : n.toValue.quantity = n.quantity := by cases n <;> rfl
  simp only [convertValue, Category.ofValue_name, hu, hw, ok_bind, hvalue, convert]
  split
  · rfl
  · cases u.measure.toBase n.quantity <;> rfl

theorem exists_convert_real (hw : w ∈ c.units) (u : MeasureUnit) (x : Binary64) :
    ∃ y, u.convert w (.real x) = .ok (.ofReal y) := by
  unfold convert
  split
  · exact ⟨x, rfl⟩
  · obtain ⟨base, hbase⟩ := u.measure.exists_toBase x
    obtain ⟨y, hy⟩ := Measure.exists_ofBase hw base
    refine ⟨y, ?_⟩
    rw [show (Number.real x).quantity = .ofReal x from rfl, hbase, ok_bind, hy]

end MeasureUnit

theorem exists_convertValue {c : Category} {source target : Value} {decimals : Int}
    (hsource : c.IsUnit source) (htarget : c.IsUnit target) (h0 : 0 ≤ decimals)
    (h15 : decimals ≤ 15) (x : Binary64) :
    ∃ y, convertValue (.text c.name) (.real x) source target (.int decimals) = .ok y := by
  obtain ⟨u, -, hu, -⟩ := Category.unit_of_isUnit hsource
  obtain ⟨w, hw, hunit, -⟩ := Category.unit_of_isUnit htarget
  obtain ⟨y, hy⟩ := MeasureUnit.exists_convert_real hw u x
  have hvalue := MeasureUnit.convertValue_eq hu hunit (.real x) (.int decimals)
  rw [hy, ok_bind, Quantity.roundHalfUp_ofReal y h0 h15] at hvalue
  exact ⟨_, hvalue⟩

section Reported

variable {category value source target decimals : Value}

theorem conversion_ok {y : Binary64}
    (h : convertValue category value source target decimals = .ok y) :
    (conversionReport category value source target decimals).outcome = .ok (.ok y) := by
  rw [conversionReport, h]

theorem conversion_fault {f : Fault}
    (h : convertValue category value source target decimals = .error (.fault f)) :
    (conversionReport category value source target decimals).outcome = .ok (.error f) := by
  rw [conversionReport, h]

theorem conversion_misuse {m : Misuse}
    (h : convertValue category value source target decimals = .error (.misuse m)) :
    (conversionReport category value source target decimals).outcome = .error (.misuse m) := by
  rw [conversionReport, h]

end Reported

end DeskCalculator
