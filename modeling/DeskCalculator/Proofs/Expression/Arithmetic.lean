import DeskCalculator.Expression.Arithmetic
import DeskCalculator.Proofs.Outcome

namespace DeskCalculator

section Operands

variable (x y : Binary64)

@[simp] theorem Value.negate_real : (Value.real x).negate = .ok (.real (-x)) := rfl

@[simp] theorem Value.quantity_real : (Value.real x).quantity = .ofReal x := rfl

@[simp] theorem Number.quantity_real : (Number.real x).quantity = .ofReal x := rfl

namespace Quantity

theorem div_ofReal {y : Binary64} (hy : y.isZero = false) :
    (ofReal x).div (ofReal y) = .ok (x / y) := by
  change (if y.isZero then _ else _) = _
  simp [hy]

@[simp] theorem isZero_ofReal : (ofReal x).isZero = x.isZero := rfl

@[simp] theorem toBinary64_ofReal : (ofReal x).toBinary64 = .ok x := rfl

@[simp] theorem comparable_ofReal (symbol : String) :
    (ofReal x).comparable symbol = .ok (.real x) := rfl

@[simp] theorem inRange_ofReal (operation : String) : (ofReal x).inRange operation =
    if x.isFinite then .ok (.real x) else .error (.fault (.overflow (.operation operation))) := rfl

end Quantity

theorem Value.power_real : (Value.real x).power (.real y) =
    if x.isZero && y.isNegative then .error (.fault (.divisionByZero .negativePower))
    else if x.isFinite && y.isFinite && (x.pow y).isNaN then
      .error (.fault (.domain (.fractionalPower (.real x) (.real y))))
    else if x.isFinite && y.isFinite && !(x.pow y).isFinite then
      .error (.fault (.overflow (.power (.real x) (.real y))))
    else .ok (x.pow y) := by
  unfold Value.power
  cases hx : x.isZero <;> simp [hx, Value.powerOperand, Number.isNegative]

theorem Value.factorialArgument_real : (Value.real x).factorialArgument =
    if !x.isNegative && x.isIntegral then .ok (.real x)
    else .error (.fault (.domain (.factorial (.real x)))) := by
  have hwhole : (Number.real x).isIntegral = .ok x.isIntegral := rfl
  cases hx : x.isNegative <;> simp [factorialArgument, Number.isNegative, hx, hwhole]

theorem Value.factorial_real : (Value.real x).factorial =
    if !x.isNegative && x.isIntegral then
      match Binary64.risingProduct? (x.floor.toNat - 1) 2 .one with
      | some y => .ok y
      | none => .error (.fault (.overflow (.factorial (.real x))))
    else .error (.fault (.domain (.factorial (.real x)))) := by
  rw [factorial_eq, factorialArgument_real]
  split <;> rfl

namespace Operation

theorem apply_plus :
    plus.apply (.real x) (.real y) = (Quantity.ofReal (x + y)).inRange "+" := rfl

theorem apply_minus :
    minus.apply (.real x) (.real y) = (Quantity.ofReal (x - y)).inRange "-" := rfl

theorem apply_times :
    times.apply (.real x) (.real y) = (Quantity.ofReal (x * y)).inRange "*" := rfl

theorem apply_over {y : Binary64} (hy : y.isZero = false) :
    over.apply (.real x) (.real y) = (Quantity.ofReal (x / y)).inRange "/" := by
  simp only [apply, value, Value.quantity_real, Quantity.isZero_ofReal, hy,
    Quantity.div_ofReal x hy]
  rfl

theorem apply_over_zero {y : Binary64} (hy : y.isZero = true) :
    over.apply (.real x) (.real y) = .error (.fault (.divisionByZero (.quotient (.real x)))) := by
  simp [apply, value, hy]

theorem apply_power : power.apply (.real x) (.real y) =
    (Value.real x).power (.real y) >>= fun z => (Quantity.ofReal z).inRange "^" := by
  change ((Value.real x).power (.real y)).map Quantity.ofReal >>= _ = _
  rw [map_eq_bind, bind_assoc]
  rfl

end Operation

end Operands

def Number.IsFiniteReal (n : Number) : Prop :=
  ∃ x, n = .real x ∧ x.isFinite = true

theorem reckons_inRange (x : Binary64) (operation : String) :
    Reckons Number.IsFiniteReal ((Quantity.ofReal x).inRange operation) := by
  rw [Quantity.inRange_ofReal]
  split
  · rename_i hx
    exact ⟨x, rfl, hx⟩
  · exact Fault.ofArithmetic_overflow _

theorem reckons_power (x y : Binary64) :
    Reckons (fun _ => True) ((Value.real x).power (.real y)) := by
  rw [Value.power_real]
  split
  · exact Fault.ofArithmetic_divisionByZero _
  split
  · exact Fault.ofArithmetic_domain _
  split
  · exact Fault.ofArithmetic_overflow _
  · trivial

theorem reckons_operation (op : Operation) (x y : Binary64) :
    Reckons Number.IsFiniteReal (op.apply (.real x) (.real y)) := by
  match op with
  | .plus =>
    rw [Operation.apply_plus]
    exact reckons_inRange (x + y) "+"
  | .minus =>
    rw [Operation.apply_minus]
    exact reckons_inRange (x - y) "-"
  | .times =>
    rw [Operation.apply_times]
    exact reckons_inRange (x * y) "*"
  | .over =>
    cases hy : y.isZero with
    | true =>
      rw [Operation.apply_over_zero x hy]
      exact Fault.ofArithmetic_divisionByZero _
    | false =>
      rw [Operation.apply_over x hy]
      exact reckons_inRange (x / y) "/"
  | .power =>
    rw [Operation.apply_power]
    exact (reckons_power x y).bind fun z _ => reckons_inRange z "^"

theorem reckons_applyBinary {symbol : String} (h : (Operation.ofSymbol? symbol).isSome)
    (x y : Binary64) : Reckons Number.IsFiniteReal (applyBinary symbol (.real x) (.real y)) := by
  unfold applyBinary
  cases hop : Operation.ofSymbol? symbol with
  | none => simp [hop] at h
  | some op => exact reckons_operation op x y

theorem reckons_function (f : Function) (x : Binary64) :
    Reckons Number.IsFiniteReal (f.apply (.real x)) := by
  have h : Reckons (fun _ => True) (f.value (.real x)) := by
    cases f with
    | sin | cos | tan =>
      simp only [Function.value, Function.ofDegrees, Value.quantity_real,
        Quantity.toBinary64_ofReal, ok_bind]
      split
      · exact Fault.ofArithmetic_domain _
      · trivial
    | log | ln =>
      simp only [Function.value, Function.ofPositive, Value.quantity_real,
        Quantity.comparable_ofReal, ok_bind]
      split
      · exact Fault.ofArithmetic_domain _
      · trivial
    | sqrt =>
      simp only [Function.value, Function.root, Value.quantity_real,
        Quantity.comparable_ofReal, ok_bind]
      split
      · exact Fault.ofArithmetic_domain _
      · trivial
  unfold Function.apply
  exact h.bind fun y _ => reckons_inRange y f.name

theorem reckons_applyFunction {name : String} (h : (Function.ofName? name).isSome)
    (x : Binary64) : Reckons Number.IsFiniteReal (applyFunction (.text name) (.real x)) := by
  obtain ⟨f, hf⟩ := Option.isSome_iff_exists.mp h
  rw [applyFunction, Value.lookUp_text, ok_bind, hf]
  exact reckons_function f x

namespace Binary64

@[simp] theorem isFinite_neg (x : Binary64) : (-x).isFinite = x.isFinite := by
  cases x <;> rfl

theorem isFinite_one : one.isFinite = true := by decide +kernel

theorem isFinite_risingProduct? {count next : Nat} {start y : Binary64}
    (hs : start.isFinite = true) (h : risingProduct? count next start = some y) :
    y.isFinite = true := by
  induction count generalizing next start with
  | zero =>
    cases h
    exact hs
  | succ count ih =>
    rw [risingProduct?_succ] at h
    split at h
    · rename_i hp
      exact ih hp h
    · cases h

end Binary64

theorem reckons_factorial (x : Binary64) :
    Reckons (fun y : Binary64 => y.isFinite = true) (Value.real x).factorial := by
  rw [Value.factorial_real]
  split
  · split
    · rename_i y hy
      exact Binary64.isFinite_risingProduct? Binary64.isFinite_one hy
    · exact Fault.ofArithmetic_overflow _
  · exact Fault.ofArithmetic_domain _

end DeskCalculator
