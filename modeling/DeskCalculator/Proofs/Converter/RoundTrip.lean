import DeskCalculator.Proofs.Converter.Conversion
import DeskCalculator.Proofs.Number.Error

namespace DeskCalculator

open Binary64

def Category.Converted (c : Category) (u w : MeasureUnit) (x y : Binary64) : Prop :=
  (conversionReport (.text c.name) (.real x) (.text u.id) (.text w.id)
    (.int conversionDecimals)).outcome = .ok (.ok y)

structure IsSize (f : Binary64) : Prop where
  isFinite : f.isFinite = true
  low : 1 / 2 ^ 20 ≤ f.toRat
  high : f.toRat ≤ 2 ^ 22

namespace IsSize

variable {f g : Binary64} {q r : ℚ}

theorem pos (h : IsSize f) : 0 < f.toRat :=
  lt_of_lt_of_le (by norm_num) h.low

theorem units_pos (h : IsSize f) : 0 < f.units := by
  have hpos := h.pos
  rw [toRat, div_pos_iff_of_pos_right unitsPerOne_cast_pos] at hpos
  exact_mod_cast hpos

theorem abs_mul_le (hf : IsSize f) (h : |q| ≤ r) : |q * f.toRat| ≤ r * 2 ^ 22 := by
  rw [abs_mul, abs_of_pos hf.pos]
  exact mul_le_mul h hf.high hf.pos.le ((abs_nonneg q).trans h)

theorem abs_div_le (hf : IsSize f) (h : |q| ≤ r) : |q / f.toRat| ≤ r * 2 ^ 20 := by
  have hr : 0 ≤ r := (abs_nonneg q).trans h
  rw [abs_div, abs_of_pos hf.pos, div_le_iff₀ hf.pos]
  calc |q| ≤ r := h
    _ = r * 2 ^ 20 * (1 / 2 ^ 20) := by rw [mul_assoc, mul_one_div_cancel (by norm_num), mul_one]
    _ ≤ r * 2 ^ 20 * f.toRat := mul_le_mul_of_nonneg_left hf.low (by positivity)

theorem abs_scaled_le (hf : IsSize f) (hg : IsSize g) (h : |q| ≤ r) :
    |q * f.toRat / g.toRat| ≤ r * 2 ^ 22 * 2 ^ 20 :=
  hg.abs_div_le (hf.abs_mul_le h)

end IsSize

namespace Category

variable {c : Category} {u w : MeasureUnit} {f g x y : Binary64}

section Tables

theorem unit_of_mem (hu : u ∈ c.units) : c.unit (.text u.id) = .ok u := by
  have hall : c.units.all (fun u => c.unit? u.id = some u) = true := by
    cases c <;> decide
  have hfound : c.unit? u.id = some u := of_decide_eq_true (List.all_eq_true.mp hall u hu)
  exact (unit_of_unit? hfound).2

theorem exists_factor? (hc : c ≠ .temperature) (hu : u ∈ c.units) : ∃ f, u.factor? = some f := by
  have hall : c = .temperature ∨ c.units.all (fun u => u.factor?.isSome) = true := by
    cases c <;> decide
  exact Option.isSome_iff_exists.mp (List.all_eq_true.mp (hall.resolve_left hc) u hu)

theorem isSize_factor? (hu : u ∈ c.units) (hf : u.factor? = some f) : IsSize f := by
  have hall : c.units.all (fun u => u.factor?.all fun f => f.isFinite &&
      decide ((unitsPerOne : Int) ≤ 2 ^ 20 * f.units) &&
      decide (f.units ≤ 2 ^ 22 * (unitsPerOne : Int))) = true := by
    cases c <;> decide +kernel
  have hfactor := List.all_eq_true.mp hall u hu
  rw [hf, Option.all_some, Bool.and_eq_true, Bool.and_eq_true, decide_eq_true_iff,
    decide_eq_true_iff] at hfactor
  obtain ⟨⟨hfinite, hlow⟩, hhigh⟩ := hfactor
  have hunit := unitsPerOne_cast_pos
  have hlow' : (unitsPerOne : ℚ) ≤ 2 ^ 20 * f.units := by exact_mod_cast hlow
  have hhigh' : (f.units : ℚ) ≤ 2 ^ 22 * unitsPerOne := by exact_mod_cast hhigh
  refine ⟨hfinite, ?_, ?_⟩
  · rw [toRat, le_div_iff₀ hunit, one_div_mul_eq_div, div_le_iff₀ (by norm_num), mul_comm]
    exact hlow'
  · rwa [toRat, div_le_iff₀ hunit]

theorem eq_or_apart (hu : u ∈ c.units) (hw : w ∈ c.units) (hf : u.factor? = some f)
    (hg : w.factor? = some g) : u = w ∨ u.id ≠ w.id ∧
      (g.toRat ≤ 100 * (g.toRat - f.toRat) ∨ f.toRat ≤ 100 * (f.toRat - g.toRat)) := by
  have hall : c.units.all (fun u => c.units.all fun w => u = w || u.id ≠ w.id &&
      u.factor?.all fun f => w.factor?.all fun g =>
        decide (g.units ≤ 100 * (g.units - f.units) ∨ f.units ≤ 100 * (f.units - g.units))) =
      true := by
    cases c <;> decide +kernel
  have hpair := List.all_eq_true.mp (List.all_eq_true.mp hall u hu) w hw
  rw [hf, hg, Option.all_some, Option.all_some, Bool.or_eq_true, Bool.and_eq_true,
    decide_eq_true_iff, decide_eq_true_iff, decide_eq_true_iff] at hpair
  have scaled {a b : Binary64} (h : a.units ≤ 100 * (a.units - b.units)) :
      a.toRat ≤ 100 * (a.toRat - b.toRat) := by
    have hcast : (a.units : ℚ) ≤ 100 * (a.units - b.units) := by exact_mod_cast h
    rw [toRat, toRat, ← sub_div, ← mul_div_assoc]
    exact div_le_div_of_nonneg_right hcast unitsPerOne_cast_pos.le
  exact hpair.imp_right fun h => ⟨h.1, h.2.imp scaled scaled⟩

end Tables

section Stage

theorem converted_same (hu : u ∈ c.units) (x : Binary64) : c.Converted u u x (x.rounded 6) := by
  have hvalue := MeasureUnit.convertValue_eq (unit_of_mem hu) (unit_of_mem hu) (.real x)
    (.int conversionDecimals)
  rw [MeasureUnit.convert, if_pos rfl, ok_bind] at hvalue
  exact conversion_ok (hvalue.trans (Quantity.roundHalfUp_ofReal x (by decide) (by decide)))

theorem convert_eq (hf : u.factor? = some f) (hg : w.factor? = some g) (hsize : g.isZero = false)
    (hne : u.id ≠ w.id) (x : Binary64) :
    u.convert w (.real x) = .ok (.ofReal (x * f / g)) := by
  have measured {u : MeasureUnit} {f : Binary64} (h : u.factor? = some f) :
      ∃ d, u.measure = .multiple d ∧ d.toBinary64 false = f := by
    unfold MeasureUnit.factor? at h
    split at h
    · rename_i d hd
      exact ⟨d, hd, Option.some.inj h⟩
    · cases h
  obtain ⟨d, hd, rfl⟩ := measured hf
  obtain ⟨e, he, rfl⟩ := measured hg
  have hmul := Quantity.mul_ofReal_number x (Number.toBinary64_real (d.toBinary64 false))
  have hdiv := Quantity.div_ofReal_number (x * d.toBinary64 false)
    (Number.toBinary64_real (e.toBinary64 false)) hsize
  unfold Quantity.ofReal at hmul hdiv
  rw [MeasureUnit.convert, if_neg hne, hd, he, Measure.toBase, Quantity.ofReal, hmul, ok_bind,
    Measure.ofBase, Quantity.ofReal, hdiv]
  rfl

theorem converted_other (hu : u ∈ c.units) (hw : w ∈ c.units) (hf : u.factor? = some f)
    (hg : w.factor? = some g) (hne : u.id ≠ w.id) (x : Binary64) :
    c.Converted u w x ((x * f / g).rounded 6) := by
  have hvalue := MeasureUnit.convertValue_eq (unit_of_mem hu) (unit_of_mem hw) (.real x)
    (.int conversionDecimals)
  rw [convert_eq hf hg (c.isFactor_factor? hw hg).isZero hne, ok_bind] at hvalue
  exact conversion_ok (hvalue.trans (Quantity.roundHalfUp_ofReal _ (by decide) (by decide)))

theorem Converted.unique {y' : Binary64} (h : c.Converted u w x y) (h' : c.Converted u w x y') :
    y = y' :=
  Except.ok.inj (Except.ok.inj (h.symm.trans h'))

end Stage

section Error

theorem scaled_near (hf : IsSize f) (hg : IsSize g) (hx : x.isFinite = true)
    (hrange : |x.toRat| ≤ 2 ^ 54) : (x * f / g).isFinite = true ∧
      |(x * f / g).toRat - x.toRat * f.toRat / g.toRat| ≤
        |x.toRat * f.toRat / g.toRat| / 2 ^ 51 + 1 / 2 ^ 100 := by
  have hlow := hg.low
  have hpos := hg.pos
  have hsize := hf.abs_mul_le hrange
  obtain ⟨hfinite, hproduct⟩ := near_mul hx hf.isFinite (hsize.trans (by norm_num))
  have hbound := abs_sub_abs_le_abs_sub (x * f).toRat (x.toRat * f.toRat)
  have hquotient : |(x * f).toRat / g.toRat| ≤ 2 ^ 200 := by
    have hmeasured : |(x * f).toRat| ≤ 2 ^ 77 := by
      norm_num at hsize hproduct hbound ⊢
      linarith
    exact (hg.abs_div_le hmeasured).trans (by norm_num)
  obtain ⟨hresult, herror⟩ := near_div hfinite hg.isFinite hpos.ne' hquotient
  refine ⟨hresult, le_of_mul_le_mul_right ?_ hpos⟩
  have hscaled : |(x * f / g).toRat * g.toRat - (x * f).toRat| ≤
      |(x * f).toRat| / 2 ^ 53 + g.toRat / 2 ^ 200 := by
    have h := mul_le_mul_of_nonneg_right herror hpos.le
    rw [abs_div, abs_of_pos hpos] at h
    calc |(x * f / g).toRat * g.toRat - (x * f).toRat|
        = |(x * f / g).toRat - (x * f).toRat / g.toRat| * g.toRat := by
          rw [abs_mul_of_pos hpos, sub_mul, div_mul_cancel₀ _ hpos.ne']
      _ ≤ (|(x * f).toRat| / g.toRat / 2 ^ 53 + 1 / 2 ^ 200) * g.toRat := h
      _ = |(x * f).toRat| / 2 ^ 53 + g.toRat / 2 ^ 200 := by field_simp
  have hsplit := abs_sub_le ((x * f / g).toRat * g.toRat) (x * f).toRat (x.toRat * f.toRat)
  have hnonneg := abs_nonneg (x.toRat * f.toRat)
  calc |(x * f / g).toRat - x.toRat * f.toRat / g.toRat| * g.toRat
      = |(x * f / g).toRat * g.toRat - x.toRat * f.toRat| := by
        rw [abs_mul_of_pos hpos, sub_mul, div_mul_cancel₀ _ hpos.ne']
    _ ≤ |x.toRat * f.toRat| / 2 ^ 51 + g.toRat / 2 ^ 100 := by
        generalize |x.toRat * f.toRat| = size at *
        norm_num at hproduct hlow hscaled ⊢
        linarith
    _ = (|x.toRat * f.toRat / g.toRat| / 2 ^ 51 + 1 / 2 ^ 100) * g.toRat := by
        rw [abs_div, abs_of_pos hpos]
        field_simp

def stageError : ℚ :=
  1 / 2 / 10 ^ 6 + 1 / 10 ^ 20

theorem exists_converted (hu : u ∈ c.units) (hw : w ∈ c.units) (hf : u.factor? = some f)
    (hg : w.factor? = some g) (hne : u.id ≠ w.id) (hx : x.isFinite = true)
    (hrange : |x.toRat| ≤ 2 ^ 54) : ∃ y, c.Converted u w x y ∧ y.isFinite = true ∧
      |y.toRat - x.toRat * f.toRat / g.toRat| ≤
        stageError + |x.toRat * f.toRat / g.toRat| / 2 ^ 49 := by
  have hsf := isSize_factor? hu hf
  have hsg := isSize_factor? hw hg
  obtain ⟨hfinite, hscaled⟩ := scaled_near hsf hsg hx hrange
  have hsize := hsf.abs_scaled_le hsg hrange
  have hbound := abs_sub_abs_le_abs_sub (x * f / g).toRat (x.toRat * f.toRat / g.toRat)
  obtain ⟨hresult, herror⟩ := rounded_error (d := 6) hfinite (by
    norm_num at hscaled hsize hbound ⊢
    linarith) (by decide)
  have hsplit := abs_sub_le ((x * f / g).rounded 6).toRat (x * f / g).toRat
    (x.toRat * f.toRat / g.toRat)
  refine ⟨_, converted_other hu hw hf hg hne x, hresult, ?_⟩
  have hnonneg := abs_nonneg (x.toRat * f.toRat / g.toRat)
  rw [stageError]
  norm_num at hscaled hbound herror hsplit ⊢
  linarith

end Error

section Trip

theorem trip_tolerance {ratio size : ℚ} (hsize : size ≤ 1000)
    (hapart : ratio ≤ 100 * (ratio - 1) ∨ 1 ≤ 100 * (1 - ratio)) (hpos : 0 < ratio) :
    stageError + (size + (stageError * ratio + size / 2 ^ 49)) / 2 ^ 49 +
      (stageError * ratio + size / 2 ^ 49) ≤ 1 / 10 ^ 6 * max 1 ratio := by
  have hone := le_max_left 1 ratio
  have hratio := le_max_right 1 ratio
  rw [stageError]
  norm_num
  rcases hapart with hlarge | hsmall
  · linarith
  · linarith

theorem back_error {q p f g : ℚ} (hf : 0 < f) (hg : 0 < g)
    (h : |q - p * f / g| ≤ stageError + |p * f / g| / 2 ^ 49) :
    |q * g / f - p| ≤ stageError * (g / f) + |p| / 2 ^ 49 := by
  have hratio : 0 < g / f := div_pos hg hf
  have hscaled : |p * f / g| * (g / f) = |p| := by
    rw [abs_mul_of_pos hratio]
    congr 1
    field_simp
  calc |q * g / f - p| = |q - p * f / g| * (g / f) := by
        rw [abs_mul_of_pos hratio]
        congr 1
        field_simp
    _ ≤ (stageError + |p * f / g| / 2 ^ 49) * (g / f) := mul_le_mul_of_nonneg_right h hratio.le
    _ = stageError * (g / f) + |p| / 2 ^ 49 := by rw [add_mul, div_mul_eq_mul_div, hscaled]

theorem ratio_apart {f g : ℚ} (hf : 0 < f)
    (h : g ≤ 100 * (g - f) ∨ f ≤ 100 * (f - g)) :
    g / f ≤ 100 * (g / f - 1) ∨ 1 ≤ 100 * (1 - g / f) := by
  have hcancel : g / f * f = g := div_mul_cancel₀ g hf.ne'
  refine h.imp (fun h => ?_) fun h => ?_
  · refine le_of_mul_le_mul_right ?_ hf
    linarith
  · refine le_of_mul_le_mul_right ?_ hf
    linarith

theorem exists_trip_other (hu : u ∈ c.units) (hw : w ∈ c.units) (hf : u.factor? = some f)
    (hg : w.factor? = some g) (hne : u.id ≠ w.id)
    (hapart : g.toRat ≤ 100 * (g.toRat - f.toRat) ∨ f.toRat ≤ 100 * (f.toRat - g.toRat))
    (hx : x.isFinite = true) (hrange : |x.toRat| ≤ 1000) :
    ∃ y z, c.Converted u w x y ∧ c.Converted w u y z ∧ y.isFinite = true ∧ z.isFinite = true ∧
      |z.toRat - x.toRat| ≤ 1 / 10 ^ 6 * max 1 (g.toRat / f.toRat) := by
  have hsf := isSize_factor? hu hf
  have hsg := isSize_factor? hw hg
  obtain ⟨y, hy, hyfinite, hyerror⟩ :=
    exists_converted hu hw hf hg hne hx (hrange.trans (by norm_num))
  have hback := back_error hsf.pos hsg.pos hyerror
  have hyrange : |y.toRat| ≤ 2 ^ 54 := by
    have hsize := hsf.abs_scaled_le hsg hrange
    have htriangle := abs_sub_abs_le_abs_sub y.toRat (x.toRat * f.toRat / g.toRat)
    rw [stageError] at hyerror
    generalize |x.toRat * f.toRat / g.toRat| = size at *
    norm_num at hyerror hsize ⊢
    linarith
  obtain ⟨z, hz, hzfinite, hzerror⟩ := exists_converted hw hu hg hf hne.symm hyfinite hyrange
  refine ⟨y, z, hy, hz, hyfinite, hzfinite, ?_⟩
  have htolerance := trip_tolerance hrange (ratio_apart hsf.pos hapart) (div_pos hsg.pos hsf.pos)
  have hbound := abs_sub_abs_le_abs_sub (y.toRat * g.toRat / f.toRat) x.toRat
  have hsplit := abs_sub_le z.toRat (y.toRat * g.toRat / f.toRat) x.toRat
  have hshare : |y.toRat * g.toRat / f.toRat| / 2 ^ 49 ≤
      (|x.toRat| + (stageError * (g.toRat / f.toRat) + |x.toRat| / 2 ^ 49)) / 2 ^ 49 :=
    div_le_div_of_nonneg_right (by linarith) (by positivity)
  linarith

theorem exists_trip_same (hu : u ∈ c.units) (hx : x.isFinite = true) (hrange : |x.toRat| ≤ 1000) :
    ∃ y z, c.Converted u u x y ∧ c.Converted u u y z ∧ y.isFinite = true ∧ z.isFinite = true ∧
      |z.toRat - x.toRat| ≤ 1 / 10 ^ 6 := by
  obtain ⟨hfinite, herror⟩ := rounded_error (d := 6) hx (hrange.trans (by norm_num)) (by decide)
  have hagain : (x.rounded 6).rounded 6 = x.rounded 6 := by
    refine rounded_rounded hx ?_ (by decide)
    norm_num
    linarith
  have hback := converted_same hu (x.rounded 6)
  rw [hagain] at hback
  refine ⟨_, _, converted_same hu x, hback, hfinite, hfinite, ?_⟩
  norm_num at herror ⊢
  linarith

theorem exists_trip (hu : u ∈ c.units) (hw : w ∈ c.units) (hf : u.factor? = some f)
    (hg : w.factor? = some g) (hx : x.isFinite = true) (hrange : |x.toRat| ≤ 1000) :
    ∃ y z, c.Converted u w x y ∧ c.Converted w u y z ∧ y.isFinite = true ∧ z.isFinite = true ∧
      |z.toRat - x.toRat| ≤ 1 / 10 ^ 6 * max 1 (g.toRat / f.toRat) := by
  rcases eq_or_apart hu hw hf hg with rfl | ⟨hne, hapart⟩
  · obtain ⟨y, z, hy, hz, hyfinite, hzfinite, herror⟩ := exists_trip_same hu hx hrange
    refine ⟨y, z, hy, hz, hyfinite, hzfinite, herror.trans ?_⟩
    exact le_mul_of_one_le_right (by norm_num) (le_max_left _ _)
  · exact exists_trip_other hu hw hf hg hne hapart hx hrange

end Trip

section Missed

def drift (f g x : Binary64) : Nat :=
  ((((x * f / g).rounded 6 * g / f).rounded 6).units - x.units).natAbs

theorem lt_drift_iff : unitsPerOne < 10 ^ 6 * drift f g x ↔
    1 / 10 ^ 6 < |(((x * f / g).rounded 6 * g / f).rounded 6).toRat - x.toRat| := by
  have hunit := unitsPerOne_cast_pos
  rw [toRat, toRat, ← sub_div, abs_div, abs_of_pos hunit, lt_div_iff₀ hunit, one_div_mul_eq_div,
    div_lt_iff₀ (by norm_num), mul_comm, ← Int.cast_sub, ← Int.cast_abs, ← Nat.cast_natAbs, drift]
  exact_mod_cast Iff.rfl

theorem lt_of_drift (hu : u ∈ c.units) (hw : w ∈ c.units) (hf : u.factor? = some f)
    (hg : w.factor? = some g) (hne : u.id ≠ w.id) {z : Binary64}
    (hdrift : unitsPerOne < 10 ^ 6 * drift f g x) (hy : c.Converted u w x y)
    (hz : c.Converted w u y z) : 1 / 10 ^ 6 < |z.toRat - x.toRat| := by
  obtain rfl := hy.unique (converted_other hu hw hf hg hne _)
  obtain rfl := hz.unique (converted_other hw hu hg hf hne.symm _)
  exact lt_drift_iff.mp hdrift

section Millionths

variable {n k : ℤ}

theorem rounded_of_near_millionths (hf : IsSize f) (hg : IsSize g) (hx : x.isFinite = true)
    (hrange : |x.toRat| ≤ 2 ^ 54) (hn : |(n : ℚ)| ≤ 10 ^ 4)
    (h : |x.toRat * f.toRat / g.toRat * 10 ^ 6 - n| ≤ 1 / 2 - 1 / 4000) :
    (x * f / g).rounded 6 = ofPlaces n 6 := by
  obtain ⟨hfinite, hscaled⟩ := scaled_near hf hg hx hrange
  generalize x.toRat * f.toRat / g.toRat = q at *
  have hsize := abs_sub_abs_le_abs_sub (q * 10 ^ 6) (n : ℚ)
  have hbound := abs_sub_abs_le_abs_sub (x * f / g).toRat q
  have hsplit := abs_sub_le ((x * f / g).toRat * 10 ^ 6) (q * 10 ^ 6) (n : ℚ)
  rw [abs_mul] at hsize
  rw [← sub_mul, abs_mul] at hsplit
  refine rounded_of_near hfinite ?_ (by decide) ?_
  · norm_num at *
    linarith
  · rw [sumError]
    norm_num at *
    linarith

theorem trip_of_near_millionths (hf : IsSize f) (hg : IsSize g) (hx : x.isFinite = true)
    (hrange : |x.toRat| ≤ 1000) (hn : |(n : ℚ)| ≤ 10 ^ 4) (hk : |(k : ℚ)| ≤ 10 ^ 4)
    (hthere : |x.toRat * f.toRat / g.toRat * 10 ^ 6 - n| ≤ 1 / 2 - 1 / 2000)
    (hback : |n * g.toRat / f.toRat - k| ≤ 1 / 2 - 1 / 2000) :
    ((x * f / g).rounded 6 * g / f).rounded 6 = ofPlaces k 6 := by
  rw [rounded_of_near_millionths hf hg hx (hrange.trans (by norm_num)) hn
    (hthere.trans (by norm_num))]
  -- What the first rounding adds to the second quotient stays within the other half of the margin.
  obtain ⟨hfinite, herror⟩ := ofPlaces_near (n := n) (d := 6) (by decide)
    (hn.trans (by norm_num))
  generalize ofPlaces n 6 = y at *
  have hsize := abs_sub_abs_le_abs_sub (y.toRat * 10 ^ 6) (n : ℚ)
  rw [abs_mul] at hsize
  refine rounded_of_near_millionths hg hf hfinite (by norm_num at *; linarith) hk ?_
  have hratio : |g.toRat / f.toRat| ≤ 2 ^ 22 * 2 ^ 20 :=
    hf.abs_div_le (by rw [abs_of_pos hg.pos]; exact hg.high)
  have hgrown := mul_le_mul_of_nonneg_right herror (abs_nonneg (g.toRat / f.toRat))
  have hswap : y.toRat * 10 ^ 6 * (g.toRat / f.toRat) = y.toRat * g.toRat / f.toRat * 10 ^ 6 := by
    ring
  rw [← abs_mul, sub_mul, add_mul, div_mul_eq_mul_div, ← abs_mul, hswap, ← mul_div_assoc] at hgrown
  have hwhole := abs_sub_abs_le_abs_sub (n * g.toRat / f.toRat) (k : ℚ)
  have hsplit := abs_sub_le (y.toRat * g.toRat / f.toRat * 10 ^ 6) (n * g.toRat / f.toRat) (k : ℚ)
  norm_num at *
  linarith

theorem lt_drift_of_near_millionths (hf : IsSize f) (hg : IsSize g) (hx : x.isFinite = true)
    (hrange : |x.toRat| ≤ 1000) (hn : |(n : ℚ)| ≤ 10 ^ 4) (hk : |(k : ℚ)| ≤ 10 ^ 4)
    (hthere : |x.toRat * f.toRat / g.toRat * 10 ^ 6 - n| ≤ 1 / 2 - 1 / 2000)
    (hback : |n * g.toRat / f.toRat - k| ≤ 1 / 2 - 1 / 2000)
    (hoff : 1 + 1 / 2000 ≤ |k - x.toRat * 10 ^ 6|) : unitsPerOne < 10 ^ 6 * drift f g x := by
  rw [lt_drift_iff, trip_of_near_millionths hf hg hx hrange hn hk hthere hback]
  obtain ⟨-, herror⟩ := ofPlaces_near (n := k) (d := 6) (by decide) (hk.trans (by norm_num))
  have hsplit := abs_sub_le (k : ℚ) ((ofPlaces k 6).toRat * 10 ^ 6) (x.toRat * 10 ^ 6)
  rw [abs_sub_comm (k : ℚ) ((ofPlaces k 6).toRat * 10 ^ 6), ← sub_mul, abs_mul] at hsplit
  norm_num at *
  linarith

def IsNextTo (n d k : ℤ) : Prop :=
  2000 * (n - k * d).natAbs ≤ 999 * d.natAbs

instance (n d k : ℤ) : Decidable (IsNextTo n d k) :=
  inferInstanceAs (Decidable (_ ≤ _))

theorem IsNextTo.abs_le {d : ℤ} (h : IsNextTo n d k) (hd : 0 < d) :
    |(n : ℚ) / d - k| ≤ 1 / 2 - 1 / 2000 := by
  have hpos : (0 : ℚ) < d := Int.cast_pos.mpr hd
  have hcast : (2000 * (n - k * d).natAbs : ℚ) ≤ 999 * d.natAbs := by exact_mod_cast h
  rw [Nat.cast_natAbs, Nat.cast_natAbs, abs_of_pos hd, Int.cast_abs, Int.cast_sub,
    Int.cast_mul] at hcast
  rw [div_sub' hpos.ne', abs_div, abs_of_pos hpos, div_le_iff₀ hpos, mul_comm (d : ℚ)]
  linarith

/-- A trip that shows a count of millionths on the way and another one in the end is off by more
than one. -/
structure Misses (f g x : Binary64) (there back : ℤ) : Prop where
  there_le : there.natAbs ≤ 10 ^ 4
  back_le : back.natAbs ≤ 10 ^ 4
  isNextTo_there : IsNextTo (x.units * f.units * 10 ^ 6) (unitsPerOne * g.units) there
  isNextTo_back : IsNextTo (there * g.units) f.units back
  off : 2001 * unitsPerOne ≤ 2000 * (back * unitsPerOne - x.units * 10 ^ 6).natAbs

instance (f g x : Binary64) (there back : ℤ) : Decidable (Misses f g x there back) :=
  decidable_of_iff (there.natAbs ≤ 10 ^ 4 ∧ back.natAbs ≤ 10 ^ 4 ∧
      IsNextTo (x.units * f.units * 10 ^ 6) (unitsPerOne * g.units) there ∧
      IsNextTo (there * g.units) f.units back ∧
      2001 * unitsPerOne ≤ 2000 * (back * unitsPerOne - x.units * 10 ^ 6).natAbs)
    ⟨fun ⟨hn, hk, hthere, hback, hoff⟩ => ⟨hn, hk, hthere, hback, hoff⟩,
      fun h => ⟨h.there_le, h.back_le, h.isNextTo_there, h.isNextTo_back, h.off⟩⟩

theorem Misses.lt_drift (h : Misses f g x n k) (hf : IsSize f) (hg : IsSize g)
    (hx : x.isFinite = true) (hrange : |x.toRat| ≤ 1000) :
    unitsPerOne < 10 ^ 6 * drift f g x := by
  have hunit := unitsPerOne_cast_pos
  have hfpos : (0 : ℚ) < f.units := Int.cast_pos.mpr hf.units_pos
  have hgpos : (0 : ℚ) < g.units := Int.cast_pos.mpr hg.units_pos
  have hn : (n.natAbs : ℚ) ≤ 10 ^ 4 := by exact_mod_cast h.there_le
  have hk : (k.natAbs : ℚ) ≤ 10 ^ 4 := by exact_mod_cast h.back_le
  rw [Nat.cast_natAbs, Int.cast_abs] at hn hk
  refine lt_drift_of_near_millionths hf hg hx hrange hn hk ?_ ?_ ?_
  · have hquotient : x.toRat * f.toRat / g.toRat * 10 ^ 6 =
        (x.units * f.units * 10 ^ 6 : ℤ) / (unitsPerOne * g.units : ℤ) := by
      rw [toRat, toRat, toRat]
      simp only [Int.cast_mul, Int.cast_pow, Int.cast_ofNat, Int.cast_natCast]
      field_simp
    rw [hquotient]
    exact h.isNextTo_there.abs_le (mul_pos (Int.natCast_pos.mpr (twoTo_pos 1074)) hg.units_pos)
  · have hquotient : n * g.toRat / f.toRat = (n * g.units : ℤ) / f.units := by
      rw [toRat, toRat, Int.cast_mul]
      field_simp
    rw [hquotient]
    exact h.isNextTo_back.abs_le hf.units_pos
  · have hoff : (2001 * unitsPerOne : ℚ) ≤
        2000 * (k * unitsPerOne - x.units * 10 ^ 6 : ℤ).natAbs := by
      exact_mod_cast h.off
    have hscaled : ((k * unitsPerOne - x.units * 10 ^ 6 : ℤ) : ℚ) =
        (k - x.toRat * 10 ^ 6) * unitsPerOne := by
      rw [toRat, sub_mul, div_mul_eq_mul_div, div_mul_cancel₀ _ hunit.ne']
      simp only [Int.cast_sub, Int.cast_mul, Int.cast_pow, Int.cast_ofNat, Int.cast_natCast]
    rw [Nat.cast_natAbs, Int.cast_abs, hscaled, abs_mul, abs_of_pos hunit] at hoff
    generalize |(k : ℚ) - x.toRat * 10 ^ 6| = size at hoff ⊢
    refine le_of_mul_le_mul_right ?_ hunit
    linarith only [hoff]

def nearestWhole (n d : ℤ) : ℤ :=
  (2 * n + d) / (2 * d)

end Millionths

def missed : Category → Binary64
  | .length => Decimal.toBinary64 false ⟨564798, -8⟩
  | .weight => Decimal.toBinary64 false ⟨11, -7⟩
  | .temperature => .zero false
  | .area => Decimal.toBinary64 false ⟨20392, -8⟩
  | .volume => Decimal.toBinary64 false ⟨2209001, -9⟩

theorem missed_range (c : Category) : c.missed.isFinite = true ∧ |c.missed.toRat| ≤ 1000 := by
  have hmissed : c.missed.isFinite = true ∧ c.missed.units.natAbs ≤ 1000 * unitsPerOne := by
    cases c <;> decide +kernel
  have hcast : |(c.missed.units : ℚ)| ≤ 1000 * unitsPerOne := by
    rw [← Int.cast_abs, ← Nat.cast_natAbs]
    exact_mod_cast hmissed.2
  refine ⟨hmissed.1, ?_⟩
  have hunit := unitsPerOne_cast_pos
  rw [toRat, abs_div, abs_of_pos hunit, div_le_iff₀ hunit]
  exact hcast

theorem exists_misses (hu : u ∈ c.units) (hw : w ∈ c.units) (hf : u.factor? = some f)
    (hg : w.factor? = some g) (hlt : f.units < g.units) :
    ∃ there back, Misses f g c.missed there back := by
  -- The rows are checked on exact quotients, since rounded ones take long to evaluate.
  have hall : c.units.all (fun u => c.units.all fun w => u.factor?.all fun f =>
      w.factor?.all fun g => decide (f.units < g.units →
        let there := nearestWhole (c.missed.units * f.units * 10 ^ 6) (unitsPerOne * g.units)
        Misses f g c.missed there (nearestWhole (there * g.units) f.units))) = true := by
    cases c <;> decide +kernel
  have hpair := List.all_eq_true.mp (List.all_eq_true.mp hall u hu) w hw
  rw [hf, hg, Option.all_some, Option.all_some, decide_eq_true_iff] at hpair
  exact ⟨_, _, hpair hlt⟩

theorem missed_drift (hu : u ∈ c.units) (hw : w ∈ c.units) (hf : u.factor? = some f)
    (hg : w.factor? = some g) (hlt : f.units < g.units) :
    unitsPerOne < 10 ^ 6 * drift f g c.missed := by
  obtain ⟨there, back, hmisses⟩ := exists_misses hu hw hf hg hlt
  exact hmisses.lt_drift (isSize_factor? hu hf) (isSize_factor? hw hg) c.missed_range.1
    c.missed_range.2

theorem missed_trip (hu : u ∈ c.units) (hw : w ∈ c.units) (hf : u.factor? = some f)
    (hg : w.factor? = some g) (hlt : f.toRat < g.toRat) (hy : c.Converted u w c.missed x)
    (hz : c.Converted w u x y) : 1 / 10 ^ 6 < |y.toRat - c.missed.toRat| := by
  have hne : u.id ≠ w.id := by
    rcases eq_or_apart hu hw hf hg with rfl | h
    · cases hf.symm.trans hg
      exact absurd hlt (lt_irrefl _)
    · exact h.1
  have hunits : f.units < g.units := by
    rw [toRat, toRat, div_lt_div_iff_of_pos_right unitsPerOne_cast_pos] at hlt
    exact_mod_cast hlt
  exact lt_of_drift hu hw hf hg hne (missed_drift hu hw hf hg hunits) hy hz

end Missed

/-- A number of up to a thousand that is taken to another unit and back is off by a millionth at
most, or by a millionth of the other unit if that is larger. All of them are back to a millionth if
and only if the other unit is not larger. -/
theorem round_trip (hc : c ≠ .temperature) (hu : u ∈ c.units) (hw : w ∈ c.units) :
    ∃ f g, u.factor? = some f ∧ w.factor? = some g ∧
      (∀ x : Binary64, x.isFinite = true → |x.toRat| ≤ 1000 → ∃ y z,
        c.Converted u w x y ∧ c.Converted w u y z ∧ y.isFinite = true ∧ z.isFinite = true ∧
          |z.toRat - x.toRat| ≤ 1 / 10 ^ 6 * max 1 (g.toRat / f.toRat)) ∧
      ((∀ x : Binary64, x.isFinite = true → |x.toRat| ≤ 1000 → ∃ y z,
        c.Converted u w x y ∧ c.Converted w u y z ∧ |z.toRat - x.toRat| ≤ 1 / 10 ^ 6) ↔
          g.toRat ≤ f.toRat) := by
  obtain ⟨f, hf⟩ := exists_factor? hc hu
  obtain ⟨g, hg⟩ := exists_factor? hc hw
  refine ⟨f, g, hf, hg, fun x hx hrange => exists_trip hu hw hf hg hx hrange, fun h => ?_,
    fun hle x hx hrange => ?_⟩
  · by_contra hlt
    obtain ⟨y, z, hy, hz, herror⟩ := h c.missed c.missed_range.1 c.missed_range.2
    exact absurd herror (not_le.mpr (missed_trip hu hw hf hg (not_le.mp hlt) hy hz))
  · obtain ⟨y, z, hy, hz, -, -, herror⟩ := exists_trip hu hw hf hg hx hrange
    have hratio : g.toRat / f.toRat ≤ 1 := (div_le_one (isSize_factor? hu hf).pos).mpr hle
    rw [max_eq_left hratio, mul_one] at herror
    exact ⟨y, z, hy, hz, herror⟩

theorem round_trip_foot_inch : ∃ y z : Binary64,
    (conversionReport (.text "length") (.real .one) (.text "foot") (.text "inch")
      (.int 6)).outcome = .ok (.ok y) ∧
    (conversionReport (.text "length") (.real y) (.text "inch") (.text "foot")
      (.int 6)).outcome = .ok (.ok z) ∧ |z.toRat - Binary64.one.toRat| ≤ 1 / 10 ^ 6 := by
  obtain ⟨f, g, hf, hg, -, hiff⟩ := round_trip (c := .length) (by decide)
    (u := ⟨"foot", "Feet", .multiple ⟨3048, -4⟩⟩) (w := ⟨"inch", "Inches", .multiple ⟨254, -4⟩⟩)
    (by decide) (by decide)
  have hle : g.toRat ≤ f.toRat := by
    have hunits : (Decimal.toBinary64 false ⟨254, -4⟩).units ≤
        (Decimal.toBinary64 false ⟨3048, -4⟩).units := by decide +kernel
    obtain rfl := Option.some.inj hf
    obtain rfl := Option.some.inj hg
    exact div_le_div_of_nonneg_right (Int.cast_le.mpr hunits) unitsPerOne_cast_pos.le
  have hone : Binary64.one.toRat = (1 : ℤ) := toRat_eq_intCast.mpr (by decide +kernel)
  obtain ⟨y, z, hy, hz, herror⟩ := hiff.mpr hle .one (by decide +kernel) (by rw [hone]; norm_num)
  exact ⟨y, z, hy, hz, herror⟩

theorem round_trip_inch_mile : ¬∀ c : Category, c ≠ .temperature → ∀ u ∈ c.units, ∀ w ∈ c.units,
    ∀ x : Binary64, x.isFinite = true → |x.toRat| ≤ 1000 → ∃ y z,
      c.Converted u w x y ∧ c.Converted w u y z ∧ |z.toRat - x.toRat| ≤ 1 / 10 ^ 6 := by
  intro h
  have hu : (⟨"inch", "Inches", .multiple ⟨254, -4⟩⟩ : MeasureUnit) ∈ Category.length.units := by
    decide
  have hw : (⟨"mile", "Miles", .multiple ⟨160934, -2⟩⟩ : MeasureUnit) ∈ Category.length.units := by
    decide
  have hone : Binary64.one.toRat = (1 : ℤ) := toRat_eq_intCast.mpr (by decide +kernel)
  obtain ⟨y, z, hy, hz, herror⟩ :=
    h .length (by decide) _ hu _ hw .one (by decide +kernel) (by rw [hone]; norm_num)
  have hdrift : unitsPerOne < 10 ^ 6 *
      drift (Decimal.toBinary64 false ⟨254, -4⟩) (Decimal.toBinary64 false ⟨160934, -2⟩) .one := by
    decide +kernel
  exact absurd herror (not_le.mpr (lt_of_drift hu hw rfl rfl (by decide) hdrift hy hz))

end Category

end DeskCalculator
