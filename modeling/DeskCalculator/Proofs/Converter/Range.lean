import DeskCalculator.Proofs.Converter.Conversion

namespace DeskCalculator

namespace Number

def IsFinite : Number → Prop
  | .int _ => True
  | .real x => x.isFinite = true

theorem IsFinite.isProper {n : Number} (h : n.IsFinite) : n.IsProper := by
  cases n with
  | int i => trivial
  | real x => exact Binary64.isNaN_of_isFinite h

end Number

namespace Measure

open Number

variable {c : Category} {u : MeasureUnit}

theorem grows_toBase (hu : u ∈ c.units) (n : Number) :
    n.Grows 30 (u.measure.toBase n.quantity) := by
  cases hm : u.measure with
  | multiple factor => exact (n.grows_mul (isFactor_multiple hu hm)).mono (by decide)
  | celsius => exact (Grows.self n).mono (by decide)
  | fahrenheit =>
    have hdegrees (r : Number) : r.Grows 2
        (r.quantity.div (.ofInt 9) >>= fun x => .ok (Quantity.ofReal x)) := by
      have hquotient := r.grows_div isFactor_nine
      rwa [map_eq_bind] at hquotient
    have hfifths (r : Number) : r.Grows 8 (r.quantity.mul (.ofInt 5) >>= fun fifths =>
        fifths.div (.ofInt 9) >>= fun x => .ok (Quantity.ofReal x)) :=
      (r.grows_mul isFactor_five).bind (e := 2) hdegrees
    exact ((n.grows_sub isFactor_thirtyTwo).bind hfifths).mono (by decide)
  | kelvin => exact (n.grows_sub isFactor_absoluteZero).mono (by decide)

theorem grows_ofBase (hu : u ∈ c.units) (n : Number) :
    n.Grows 30 (u.measure.ofBase n.quantity) := by
  cases hm : u.measure with
  | multiple factor =>
    have hquotient := n.grows_div (isFactor_multiple hu hm)
    rw [map_eq_bind] at hquotient
    exact hquotient.mono (by decide)
  | celsius => exact (Grows.self n).mono (by decide)
  | fahrenheit =>
    have hdegrees (r : Number) : r.Grows 10
        (r.quantity.div (.ofInt 5) >>= fun x => (Quantity.ofReal x).add (.ofInt 32)) := by
      have hsum := (r.grows_div isFactor_five).bind (f := fun q => q.add (.ofInt 32))
        fun q => q.grows_add isFactor_thirtyTwo
      rwa [map_bind] at hsum
    exact ((n.grows_mul isFactor_nine).bind hdegrees).mono (by decide)
  | kelvin => exact (n.grows_add isFactor_absoluteZero).mono (by decide)

end Measure

theorem Quantity.mul_tooLarge {n : Number} {m : Misuse} (hn : n.toBinary64 = .error (.misuse m))
    (x : Binary64) : n.quantity.mul (.ofReal x) = .error (.misuse m) := by
  change (Number.mul n (.real x)).map Number.quantity = _
  cases n with
  | int i =>
    rw [Number.mul, Number.combine, hn, error_bind]
    · rfl
    · intro _ _ _ h
      cases h
  | real z => cases hn

namespace MeasureUnit

variable {c : Category} {u w : MeasureUnit} {n : Number} {decimals : Int}

def InRange (u w : MeasureUnit) (n : Number) (decimals : Nat) : Prop :=
  ∃ r : Number, u.convert w n = .ok r.quantity ∧ r.Roundable decimals

inductive Converts (u w : MeasureUnit) (n : Number) (decimals : Nat) :
    Except Failure (Except Fault Binary64) → Prop where
  | finite {y : Binary64} : u.InRange w n decimals → y.isFinite = true →
      Converts u w n decimals (.ok (.ok y))
  | infinite {s : Bool} : ¬u.InRange w n decimals →
      Converts u w n decimals (.ok (.ok (.infinite s)))
  | overflow {i : Int} {m : Misuse} : ¬u.InRange w n decimals → n = .int i →
      m.name = "OverflowError" → Converts u w n decimals (.error (.misuse m))

theorem Converts.exists_finite {d : Nat} {outcome : Except Failure (Except Fault Binary64)}
    (h : u.Converts w n d outcome) (hrange : u.InRange w n d) :
    ∃ y : Binary64, y.isFinite = true ∧ outcome = .ok (.ok y) := by
  cases h with
  | finite _ hy => exact ⟨_, hy, rfl⟩
  | infinite hout => exact absurd hrange hout
  | overflow hout => exact absurd hrange hout

theorem grows_convert (hu : u ∈ c.units) (hw : w ∈ c.units) (n : Number) :
    n.Grows 60 (u.convert w n) := by
  unfold convert
  split
  · exact (Number.Grows.self n).mono (by decide)
  · exact (Measure.grows_toBase hu n).bind (Measure.grows_ofBase hw)

theorem inRange_of_within {decimals : Nat} (hu : u ∈ c.units) (hw : w ∈ c.units)
    (hn : n.Within 900) (h15 : decimals ≤ 15) : u.InRange w n decimals := by
  obtain ⟨r, hr, hwithin⟩ := (grows_convert hu hw n).within hn (by decide)
  exact ⟨r, hr, hwithin.roundable (by decide) h15⟩

theorem exists_int_of_convert (hw : w ∈ c.units) (h : ∀ x, u.convert w n ≠ .ok (.ofReal x)) :
    ∃ i, n = .int i := by
  cases n with
  | int i => exact ⟨i, rfl⟩
  | real x =>
    obtain ⟨y, hy⟩ := exists_convert_real hw u x
    exact absurd hy (h y)

theorem converts {category source target : Value} (hu : u ∈ c.units) (hw : w ∈ c.units)
    (hn : n.IsFinite) (h0 : 0 ≤ decimals) (h15 : decimals ≤ 15)
    (h : convertValue category n.toValue source target (.int decimals) =
      u.convert w n >>= fun y => y.roundHalfUp (.int decimals)) :
    u.Converts w n decimals.toNat
      (conversionReport category n.toValue source target (.int decimals)).outcome := by
  by_cases hrange : u.InRange w n decimals.toNat
  · have ⟨r, hr, hround⟩ := hrange
    obtain ⟨y, hy, hfinite⟩ := Quantity.exists_roundHalfUp h0 h15 hround
    rw [hr, ok_bind, hy] at h
    rw [conversion_ok h]
    exact .finite hrange hfinite
  · have hround (r : Number) (hr : u.convert w n = .ok r.quantity) :
        ¬r.Roundable decimals.toNat := fun h => hrange ⟨r, hr, h⟩
    have hint := exists_int_of_convert (u := u) (n := n) hw
    have hcomputes := (grows_convert hu hw n).isProper hn.isProper
    generalize u.convert w n = result at h hround hint hcomputes
    cases hcomputes with
    | overflow hm =>
      obtain ⟨i, hi⟩ := hint fun x hx => nomatch hx
      rw [conversion_misuse h]
      exact .overflow hrange hi hm
    | @number r hproper =>
      rw [ok_bind] at h
      cases r with
      | int k =>
        obtain ⟨i, hi⟩ := hint fun x hx => nomatch congrArg Quantity.kind (Except.ok.inj hx)
        rw [conversion_misuse (h.trans (Quantity.roundHalfUp_tooLarge h0 (hround _ rfl)))]
        exact .overflow hrange hi rfl
      | real y =>
        rw [conversion_ok (h.trans (Quantity.roundHalfUp_ofReal y h0 h15))]
        cases y with
        | nan => cases hproper
        | infinite s =>
          rw [Binary64.rounded_infinite]
          exact .infinite hrange
        | finite s m => exact absurd rfl (hround (.real (.finite s m)) rfl)

end MeasureUnit

/-- A conversion with an unknown category or unit says which. Between known units the result is
finite as long as the number keeps in range, which numbers of a size up to `2 ^ 900` do. -/
theorem conversion_outcome {decimals : Int} (h0 : 0 ≤ decimals) (h15 : decimals ≤ 15)
    (category source target : String) {n : Number} (hn : n.IsFinite) :
    let outcome := (conversionReport (.text category) n.toValue (.text source) (.text target)
      (.int decimals)).outcome
    match Category.ofName? category with
    | none => outcome = .ok (.error (.unknownCategory (.text category)))
    | some c =>
      match c.unit? source, c.unit? target with
      | none, _ => outcome = .ok (.error (.unknownUnit c (.text source)))
      | some _, none => outcome = .ok (.error (.unknownUnit c (.text target)))
      | some u, some w => u.Converts w n decimals.toNat outcome ∧
          (n.Within 900 → u.InRange w n decimals.toNat) := by
  dsimp only
  cases hc : Category.ofName? category with
  | none =>
    have hcategory : Category.ofValue (.text category) =
        .error (.fault (.unknownCategory (.text category))) := by
      simp [Category.ofValue, Value.text, hc]
    refine conversion_fault ?_
    rw [convertValue, hcategory, error_bind]
  | some c =>
    obtain rfl := Category.ofName?_eq_some.mp hc
    have hcategory := c.ofValue_name
    dsimp only
    cases hu : c.unit? source with
    | none =>
      have hunknown := Category.unit_of_unit?_none hu
      refine conversion_fault ?_
      rw [convertValue, hcategory, ok_bind, hunknown, error_bind]
    | some u =>
      obtain ⟨hsource, hknown⟩ := Category.unit_of_unit? hu
      cases hw : c.unit? target with
      | none =>
        have hunknown := Category.unit_of_unit?_none hw
        refine conversion_fault ?_
        rw [convertValue, hcategory, ok_bind, hknown, ok_bind, hunknown, error_bind]
      | some w =>
        obtain ⟨htarget, hknown'⟩ := Category.unit_of_unit? hw
        have hconvert := MeasureUnit.convertValue_eq hknown hknown' n (.int decimals)
        exact ⟨MeasureUnit.converts hsource htarget hn h0 h15 hconvert, fun hwithin =>
          MeasureUnit.inRange_of_within hsource htarget hwithin (by omega)⟩

theorem conversion_outcome_foot :
    ∃ y : Binary64, y.isFinite = true ∧
      (conversionReport (.text "length") (.int 12) (.text "inch") (.text "foot") (.int 6)).outcome =
        .ok (.ok y) := by
  have houtcome := conversion_outcome (show (0 : Int) ≤ 6 by decide) (by decide) "length" "inch"
    "foot" (n := .int 12) trivial
  have hc : Category.ofName? "length" = some .length := rfl
  have hu : Category.length.unit? "inch" = some ⟨"inch", "Inches", .multiple ⟨254, -4⟩⟩ := rfl
  have hw : Category.length.unit? "foot" = some ⟨"foot", "Feet", .multiple ⟨3048, -4⟩⟩ := rfl
  simp only [hc, hu, hw] at houtcome
  obtain ⟨hconverts, hwithin⟩ := houtcome
  have hrange := hwithin (show 12 ≤ twoTo 900 by decide +kernel)
  exact hconverts.exists_finite hrange

theorem conversion_leaves_range :
    (conversionReport (.text "length") (.int (tenTo 309)) (.text "meter") (.text "foot")
        (.int 6)).outcome = .error (.misuse .tooLarge) ∧
      (conversionReport (.text "length") (.real (Decimal.toBinary64 false ⟨1, 308⟩))
        (.text "kilometer") (.text "millimeter") (.int 6)).outcome =
        .ok (.ok (.infinite false)) := by
  constructor
  · have hlarge : (Number.int (tenTo 309)).toBinary64 = .error (.misuse .tooLarge) := by
      rw [Number.toBinary64]
      exact if_neg (by decide +kernel)
    have hu : Category.length.unit (.text "meter") =
        .ok ⟨"meter", "Meters", .multiple ⟨1, 0⟩⟩ := rfl
    have hw : Category.length.unit (.text "foot") =
        .ok ⟨"foot", "Feet", .multiple ⟨3048, -4⟩⟩ := rfl
    have hvalue := MeasureUnit.convertValue_eq hu hw (.int (tenTo 309)) (.int 6)
    rw [MeasureUnit.convert, if_neg (by decide), Measure.toBase,
      Quantity.mul_tooLarge hlarge] at hvalue
    exact conversion_misuse hvalue
  · have hinfinite : Decimal.toBinary64 false ⟨1, 308⟩ * Decimal.toBinary64 false ⟨1000, 0⟩ /
        Decimal.toBinary64 false ⟨1, -3⟩ = .infinite false := by
      decide +kernel
    have hu : Category.length.unit (.text "kilometer") =
        .ok ⟨"kilometer", "Kilometers", .multiple ⟨1000, 0⟩⟩ := rfl
    have hw : Category.length.unit (.text "millimeter") =
        .ok ⟨"millimeter", "Millimeters", .multiple ⟨1, -3⟩⟩ := rfl
    have hvalue := MeasureUnit.convertValue_eq hu hw (.real (Decimal.toBinary64 false ⟨1, 308⟩))
      (.int 6)
    have hmul := Quantity.mul_ofReal_number (Decimal.toBinary64 false ⟨1, 308⟩)
      (Number.toBinary64_real (Decimal.toBinary64 false ⟨1000, 0⟩))
    have hdiv := Quantity.div_ofReal_number
      (Decimal.toBinary64 false ⟨1, 308⟩ * Decimal.toBinary64 false ⟨1000, 0⟩)
      (Number.toBinary64_real (Decimal.toBinary64 false ⟨1, -3⟩)) (by decide +kernel)
    unfold Quantity.ofReal at hmul hdiv
    rw [MeasureUnit.convert, if_neg (by decide), Measure.toBase, Quantity.ofReal, hmul, ok_bind,
      Measure.ofBase, Quantity.ofReal, hdiv, hinfinite, ok_bind, pure_eq_ok, ok_bind,
      Quantity.roundHalfUp_ofReal _ (by decide) (by decide), Binary64.rounded_infinite] at hvalue
    exact conversion_ok hvalue

end DeskCalculator
