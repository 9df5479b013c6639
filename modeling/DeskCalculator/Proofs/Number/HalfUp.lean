import DeskCalculator.Number.HalfUp
import DeskCalculator.Proofs.Binary64.Range
import DeskCalculator.Proofs.Expression.Arithmetic

namespace DeskCalculator

variable {decimals : Int}

theorem Value.powerOfTen_int (h : 0 ≤ decimals) :
    (Value.int decimals).powerOfTen = .ok (.int (tenTo decimals.toNat)) := by
  change (if 0 ≤ decimals then _ else _) = _
  rw [if_pos h]

@[simp] theorem Number.toBinary64_real (x : Binary64) : (Number.real x).toBinary64 = .ok x := rfl

theorem Number.toBinary64_int {n : Int} (h : (Binary64.ofInt n).isFinite = true) :
    (Number.int n).toBinary64 = .ok (.ofInt n) := by
  simp [Number.toBinary64, h]

theorem Number.mul_real (x : Binary64) (n : Number) :
    Number.mul (.real x) n = n.toBinary64 >>= fun y => .ok (.real (x * y)) := by
  simp only [Number.mul, Number.combine, Number.toBinary64_real, ok_bind, pure_eq_ok]

theorem Quantity.mul_ofReal_number (x : Binary64) {n : Number} {y : Binary64}
    (h : n.toBinary64 = .ok y) : (ofReal x).mul n.quantity = .ok (ofReal (x * y)) := by
  change (Number.mul (.real x) n).map Number.quantity = _
  rw [Number.mul_real, h]
  rfl

theorem Number.div_floor (x : Binary64) {d : Nat} (hd : 0 < d) :
    Number.div (.int x.floor) (.int d) = .ok (.ofRatio (x.floor < 0) x.floor.natAbs d) := by
  have hne : (d : Int) ≠ 0 := by omega
  have hneg : ¬(d : Int) < 0 := by omega
  have hsign : (decide (x.floor < 0) != decide ((d : Int) < 0)) = decide (x.floor < 0) := by
    rw [decide_eq_false hneg, Bool.bne_false]
  have hq := Binary64.isFinite_ofRatio_floor x (decide (x.floor < 0)) hd
  simp only [Number.div, if_neg hne, hsign, Int.natAbs_natCast, hq, if_true]

def Binary64.rounded (x : Binary64) (decimals : Nat) : Binary64 :=
  let scaled := x * .ofInt (tenTo decimals)
  let whole := (scaled + .half).floor
  if scaled.isFinite then .ofRatio (whole < 0) whole.natAbs (tenTo decimals) else x

theorem Binary64.isFinite_rounded {x : Binary64} (hx : x.isFinite = true) (decimals : Nat) :
    (x.rounded decimals).isFinite = true := by
  unfold rounded
  dsimp only
  split
  · exact isFinite_ofRatio_floor _ _ (tenTo_pos _)
  · exact hx

theorem Quantity.roundHalfUp_eq (x : Binary64) {decimals : Value} {factor : Number}
    {y : Binary64} (hp : decimals.powerOfTen = .ok factor) (hy : factor.toBinary64 = .ok y) :
    (ofReal x).roundHalfUp decimals =
      if (x * y).isFinite then (x * y + .half).toFloor >>= fun n => Number.div (.int n) factor
      else .ok x := by
  simp only [roundHalfUp, hp, mul_ofReal_number x hy, ok_bind, toBinary64_ofReal]

theorem Quantity.roundHalfUp_ofReal (x : Binary64) (h0 : 0 ≤ decimals) (h15 : decimals ≤ 15) :
    (ofReal x).roundHalfUp (.int decimals) = .ok (x.rounded decimals.toNat) := by
  have hfactor := Binary64.isFinite_ofInt_tenTo (show decimals.toNat ≤ 15 by omega)
  rw [roundHalfUp_eq x (Value.powerOfTen_int h0) (Number.toBinary64_int hfactor)]
  unfold Binary64.rounded
  dsimp only
  cases hfinite : (x * .ofInt (tenTo decimals.toNat)).isFinite with
  | true =>
    rw [if_pos rfl, if_pos rfl, Binary64.toFloor, if_pos (Binary64.isFinite_add_half hfinite)]
    exact Number.div_floor _ (tenTo_pos _)
  | false => rw [if_neg Bool.false_ne_true, if_neg Bool.false_ne_true]

theorem Binary64.rounded_infinite (s : Bool) (decimals : Nat) :
    (infinite s).rounded decimals = .infinite s := by
  have hscaled := isFinite_mul_of_not (x := .infinite s) rfl (.ofInt (tenTo decimals))
  unfold rounded
  dsimp only
  rw [hscaled, if_neg Bool.false_ne_true]

def Number.Roundable (decimals : Nat) : Number → Prop
  | .int n => (Binary64.ofInt (n * tenTo decimals)).isFinite = true
  | .real x => x.isFinite = true

theorem Quantity.mul_ofInt (m n : Int) : (ofInt m).mul (ofInt n) = .ok (ofInt (m * n)) := rfl

theorem Quantity.toBinary64_ofInt (n : Int) : (ofInt n).toBinary64 = (Number.int n).toBinary64 := by
  have hnumber : (ofInt n).number = .ok (.int n) := rfl
  rw [toBinary64, hnumber, ok_bind]

theorem Quantity.roundHalfUp_ofInt (n : Int) (h0 : 0 ≤ decimals) :
    (ofInt n).roundHalfUp (.int decimals) =
      (Number.int (n * tenTo decimals.toNat)).toBinary64 >>= fun whole =>
        if whole.isFinite then
          (whole + .half).toFloor >>= fun k => Number.div (.int k) (.int (tenTo decimals.toNat))
        else (Number.int n).toBinary64 := by
  have hfactor : (Number.int (tenTo decimals.toNat)).quantity = ofInt (tenTo decimals.toNat) := rfl
  rw [roundHalfUp, Value.powerOfTen_int h0, ok_bind, hfactor, mul_ofInt, ok_bind, toBinary64_ofInt,
    toBinary64_ofInt]

theorem Quantity.exists_roundHalfUp {n : Number} (h0 : 0 ≤ decimals) (h15 : decimals ≤ 15)
    (hn : n.Roundable decimals.toNat) :
    ∃ y, n.quantity.roundHalfUp (.int decimals) = .ok y ∧ y.isFinite = true := by
  cases n with
  | real x => exact ⟨_, roundHalfUp_ofReal x h0 h15, Binary64.isFinite_rounded hn _⟩
  | int n =>
    have hfinite : (Binary64.ofInt (n * tenTo decimals.toNat)).isFinite = true := hn
    have hround := roundHalfUp_ofInt n h0
    rw [Number.toBinary64_int hfinite, ok_bind, if_pos hfinite, Binary64.toFloor,
      if_pos (Binary64.isFinite_add_half hfinite), ok_bind,
      Number.div_floor _ (tenTo_pos _)] at hround
    exact ⟨_, hround, Binary64.isFinite_ofRatio_floor _ _ (tenTo_pos _)⟩

theorem Quantity.roundHalfUp_tooLarge {n : Int} (h0 : 0 ≤ decimals)
    (hn : ¬(Number.int n).Roundable decimals.toNat) :
    (ofInt n).roundHalfUp (.int decimals) = .error (.misuse .tooLarge) := by
  have hlarge : (Number.int (n * tenTo decimals.toNat)).toBinary64 =
      .error (.misuse .tooLarge) := by
    rw [Number.toBinary64]
    exact if_neg hn
  rw [roundHalfUp_ofInt n h0, hlarge, error_bind]

end DeskCalculator
