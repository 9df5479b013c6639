import DeskCalculator.Proofs.Binary64.Halves
import DeskCalculator.Proofs.Decimal.Shortest
import DeskCalculator.Proofs.Keypad.Policy
import DeskCalculator.Proofs.Keypad.Run

namespace DeskCalculator

open Text

def fraction (cs : List Char) : List Char :=
  (cs.dropWhile (· != '.')).drop 1

namespace Decimal

theorem fraction_pointed {cs fs : List Char} (h : '.' ∉ cs) : fraction (cs ++ pointed fs) = fs := by
  have hne : ∀ c ∈ cs, (c != '.') = true := fun c hc => by
    simpa using fun heq : c = '.' => h (heq ▸ hc)
  rw [fraction, List.dropWhile_append_of_pos hne, pointed]
  split
  · rename_i hnil
    rw [hnil]
    rfl
  · rw [List.dropWhile_cons_of_neg (by decide), List.drop_one, List.tail_cons]

theorem mem_pointed {cs fs : List Char} (h : '.' ∉ cs) : '.' ∈ cs ++ pointed fs ↔ fs ≠ [] := by
  rw [List.mem_append, or_iff_right h, pointed]
  split
  · rename_i hnil
    simp [hnil]
  · rename_i hne
    simp [hne]

theorem trim_positional_places {d : Decimal} (h : d.digits ≠ 0) :
    ∃ whole fs, AllDigits whole ∧ trim d.positional = whole ++ pointed fs ∧
      fs.length ≤ (-d.exponent).toNat := by
  have hw := Whole.writeDigits d.digits
  unfold positional
  split
  · have hall := (hw.append (Whole.writeDigits_ne_zero h)
      (allDigits_zeros d.exponent.toNat)).allDigits
    refine ⟨_, [], hall, ?_, Nat.zero_le _⟩
    rw [trim_whole hall, pointed, if_pos rfl, List.append_nil]
  · obtain ⟨whole, fs, hwhole, hf, hlength, heq⟩ := withPoint_eq hw (-d.exponent).toNat
    refine ⟨whole, fs.rdropWhile (· == '0'), hwhole.allDigits, ?_, ?_⟩
    · rw [heq, trim_point hwhole.allDigits hf]
    · rw [← hlength]
      exact (List.rdropWhile_prefix _ _).length_le

end Decimal

def Places (n : Nat) (cs : List Char) : Prop :=
  (fraction cs).length ≤ n ∧ (n = 0 → '.' ∉ cs)

theorem Places.pointed {n : Nat} {cs fs : List Char} (h : '.' ∉ cs) (hfs : fs.length ≤ n) :
    Places n (cs ++ Decimal.pointed fs) := by
  refine ⟨by rwa [Decimal.fraction_pointed h], fun hn => ?_⟩
  rw [Decimal.mem_pointed h, not_not]
  exact List.length_eq_zero_iff.mp (by omega)

namespace Binary64

open Magnitude

variable {s : Bool} {m : Magnitude} {n : Nat}

theorem places_plain? {d : Decimal} (hd : d.magnitude? = some m) (hn : -(n : Int) ≤ d.exponent)
    {cs : List Char} (h : (finite s m).plain? = some cs) : Places n cs := by
  by_cases hm : m.units = 0
  · rw [plain?, if_pos hm] at h
    rw [← Option.some.inj h]
    exact ⟨Nat.zero_le n, fun _ => by decide⟩
  · have hne : m ≠ .zero := fun heq => hm (m.units_eq_zero.mpr heq)
    have hshortest := exponent_le_shortest hne hd
    obtain ⟨whole, fs, hw, heq, hlength⟩ := Decimal.trim_positional_places (digits_shortest hne)
    have hpoint : '.' ∉ sign s ++ whole := by
      rw [List.mem_append]
      rintro (hsign | hwhole)
      · cases s with
        | true => exact absurd hsign (by decide)
        | false => cases hsign
      · exact hw.ne_point _ hwhole rfl
    rw [plain?, if_neg hm, heq, ← List.append_assoc] at h
    rw [← Option.some.inj h]
    exact .pointed hpoint (by omega)

theorem magnitude?_quotient (n k : Nat) :
    Decimal.magnitude? ⟨n, -(k : Int)⟩ = nearest? (n * unitsPerOne) (tenTo k) := by
  have hshift : (-(k : Int)).toNat = 0 := by omega
  have hplaces : (- -(k : Int)).toNat = k := by omega
  rw [Decimal.magnitude?, Decimal.numerator, Decimal.denominator, hshift, hplaces,
    show tenTo 0 = 1 from rfl, Nat.mul_one]

theorem exists_units_of_not_scaled (h15 : n ≤ 15)
    (h : ((finite s m) * ofInt (tenTo n)).isFinite = false) : ∃ k, m.units = k * unitsPerOne := by
  apply exists_units_of_scale_le
  by_contra hscale
  have hnumber : (finite s m).Within 52 := by
    refine ⟨rfl, ?_⟩
    rw [natAbs_units_finite]
    exact (units_lt (show m.scale ≤ 1073 by omega)).le
  have hfactor : (ofInt (tenTo n)).Within 51 := by
    apply within_ofInt _ (by omega)
    rw [Int.natAbs_natCast]
    exact Nat.le_trans (tenTo_le h15) (by decide)
  rw [(hnumber.mul hfactor (by omega)).isFinite] at h
  cases h

theorem places_rounded {x : Binary64} (hx : x.isFinite = true) (h15 : n ≤ 15) {cs : List Char}
    (h : (x.rounded n).plain? = some cs) : Places n cs := by
  have hfinite := isFinite_rounded hx n
  unfold rounded at h hfinite
  dsimp only at h hfinite
  split at h
  · rename_i hscaled
    rw [if_pos hscaled] at hfinite
    generalize (x * ofInt (tenTo n) + half).floor = k at h hfinite
    rw [ofRatio, isFinite_ofUnits (tenTo_pos n), ← nearest?_isSome_iff (tenTo_pos n)] at hfinite
    obtain ⟨m, hm⟩ := Option.isSome_iff_exists.mp hfinite
    rw [ofRatio, ofUnits_some hm] at h
    exact places_plain? ((magnitude?_quotient _ n).trans hm) le_rfl h
  · -- What is too great to be scaled is kept as it is, and is a whole number.
    rename_i hscaled
    cases x with
    | nan => cases hx
    | infinite s => cases hx
    | finite s m =>
      obtain ⟨k, hk⟩ := exists_units_of_not_scaled h15 (Bool.eq_false_of_not_eq_true hscaled)
      have hwhole : Decimal.magnitude? ⟨k, -((0 : Nat) : Int)⟩ = some m := by
        rw [magnitude?_quotient, ← hk]
        exact m.nearest?_units
      have hplaces : -(n : Int) ≤ -((0 : Nat) : Int) := by omega
      exact places_plain? hwhole hplaces h

end Binary64

theorem Operator.places_compute {op : Operator} {decimals : Int} (h0 : 0 ≤ decimals)
    (h15 : decimals ≤ 15) {x y : Binary64} {o : Operand} (h : op.compute decimals x y = .ok o) :
    Places decimals.toNat o.chars := by
  obtain ⟨result, hresult, hrest⟩ := bind_eq_ok h
  have hsettles := settles_apply op x y
  rw [hresult] at hsettles
  obtain ⟨z, rfl, hz⟩ := hsettles
  rw [Number.quantity_real, Quantity.roundHalfUp_ofReal z h0 h15, ok_bind] at hrest
  exact Binary64.places_rounded hz (by omega) (Operand.plain?_of_ofValue hrest)

/-- Whatever resolves a pending computation leaves no more digits after the point than results are
rounded to, and no point if there are none. -/
theorem State.places_resolved {decimals : Int} (h0 : 0 ≤ decimals) (h15 : decimals ≤ 15)
    {s t : State} (hprevious : s.previous.isSome = true) (hpending : s.pending.isSome = true)
    {action : Action} (haction : action.resolves = true)
    (h : action.transition decimals s = .ok t) :
    (fraction t.current.chars).length ≤ decimals.toNat ∧
      (decimals = 0 → '.' ∉ t.current.chars) := by
  have hshown : Places decimals.toNat t.current.chars := by
    have hevaluated {r : State} (hr : s.evaluate decimals = .ok r) :
        Places decimals.toNat r.current.chars := by
      rcases State.evaluate_cases hr with ⟨p, op, o, -, -, ho, rfl⟩ | ⟨hnone, -⟩
      · exact Operator.places_compute h0 h15 ho
      · rcases hnone with hnone | hnone
        · rw [hnone] at hprevious; cases hprevious
        · rw [hnone] at hpending; cases hpending
    cases State.takes_of_transition h with
    | operator _ hr =>
      have hcurrent := hevaluated hr
      exact hcurrent
    | equals hr => exact hevaluated hr
    | percent _ _ hr => exact hevaluated hr
    | share hnone _ =>
      rcases hnone with hnone | hnone
      · rw [hnone] at hprevious; cases hprevious
      · rw [hnone] at hpending; cases hpending
    | blank _ hr => exact hevaluated hr
    | submit htext _ _ =>
      exact absurd (Text.trim_eq_nil_iff.mpr (List.all_eq_true.mp haction)) htext
    | _ => cases haction
  exact ⟨hshown.1, fun hzero => hshown.2 (by omega)⟩

theorem State.places_resolved_third : ∃ t : State,
    Action.equals.transition 8 ⟨⟨['3'], rfl⟩, some ⟨['1'], rfl⟩, some .divide, false, ""⟩ = .ok t ∧
      t.display = "0.33333333" ∧ (fraction t.current.chars).length ≤ 8 := by
  have hresolved : Action.equals.transition 8
      ⟨⟨['3'], rfl⟩, some ⟨['1'], rfl⟩, some .divide, false, ""⟩ =
        .ok (.resolved ⟨"0.33333333".toList, by decide⟩ "") :=
    eq_ok_of_toOption (by decide +kernel)
  exact ⟨_, hresolved, rfl,
    (State.places_resolved (by decide) (by decide) rfl rfl rfl hresolved).1⟩

end DeskCalculator
