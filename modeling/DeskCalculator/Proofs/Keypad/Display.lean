import DeskCalculator.Proofs.Decimal.Literal
import DeskCalculator.Proofs.Keypad.Range

namespace DeskCalculator

open Text Decimal

inductive Canonical : List Char → Prop where
  | unsigned {whole fraction} : Whole whole → Trimmed fraction →
      Canonical (whole ++ pointed fraction)
  | negative {whole fraction} : Whole whole → Trimmed fraction →
      whole ++ pointed fraction ≠ ['0'] → Canonical ('-' :: (whole ++ pointed fraction))

namespace Binary64

variable {x y : Binary64}

theorem shown_eq_iff : x.shown = y.shown ↔ x = y ∨ x.isZero = true ∧ y.isZero = true := by
  unfold shown
  constructor
  · intro h
    split at h
    · rename_i hx
      split at h
      · rename_i hy
        exact .inr ⟨hx, hy⟩
      · rename_i hy
        exact absurd (h ▸ rfl) hy
    · rename_i hx
      split at h
      · exact absurd (h ▸ rfl) hx
      · exact .inl h
  · rintro (rfl | ⟨hx, hy⟩)
    · rfl
    · rw [if_pos hx, if_pos hy]

theorem shown_ne_zero (x : Binary64) : x.shown ≠ zero true := by
  unfold shown
  split
  · nofun
  · rintro rfl
    rename_i hzero
    exact hzero rfl

theorem canonical_of_plain? {cs : List Char} (h : x.plain? = some cs) : Canonical cs := by
  cases x with
  | nan => cases h
  | infinite s => cases h
  | finite s m =>
    obtain ⟨negative, whole, fraction, -, hw, hf, heq⟩ := plain?_finite s m
    have hcs := Option.some.inj (heq.symm.trans h)
    cases negative with
    | false => exact hcs ▸ .unsigned hw hf
    | true =>
      subst hcs
      refine .negative hw hf fun hzero => ?_
      have hvalue := ofPlain_of_plain? h
      rw [hzero] at hvalue
      exact shown_ne_zero _ (hvalue.symm.trans (by decide +kernel))

theorem display_of_plain? {cs : List Char} (h : x.plain? = some cs) : x.display = .ok cs := by
  rw [display, h]

theorem display_eq_iff (hx : x.isFinite = true) :
    x.display = y.display ↔ x = y ∨ x.isZero = true ∧ y.isZero = true := by
  obtain ⟨o, -, ho⟩ := Operand.exists_ofValue hx
  have hplain := plain?_of_display ho
  rw [← shown_eq_iff]
  constructor
  · intro h
    rw [← ofPlain_of_plain? hplain, ← ofPlain_of_plain? (plain?_of_display (h.symm.trans ho))]
  · intro h
    have hsame : y.plain? = some o.chars := by rw [← plain?_shown y, ← h, plain?_shown x, hplain]
    rw [ho, display_of_plain? hsame]

/-- A finite number is shown in the one form, as the decimal that its literal denotes, and read back
from it. Only the two zeros are shown alike, and only finite numbers are shown. -/
theorem display_exact (x : Binary64) :
    (x.isFinite = true → ∃ o q, x.display = .ok o.chars ∧ Operand.ofValue (.real x) = .ok o ∧
      Canonical o.chars ∧ (x.isZero = true → o.chars = ['0']) ∧
      Numeral.value? o.chars = some q ∧ Numeral.value? x.literal.toList = some q ∧
      ofText x.literal = .ok x ∧ o.value = x.shown) ∧
    (x.isFinite = true → ∀ y : Binary64,
      (x.display = y.display ↔ x = y ∨ x.isZero = true ∧ y.isZero = true)) ∧
    (x.isFinite = false → x.display = .error (.fault (.overflow (.display x))) ∧
      Operand.ofValue (.real x) = .error (.fault (.overflow (.display x)))) := by
  refine ⟨fun hx => ?_, fun hx y => display_eq_iff hx, fun hx => ⟨?_, ?_⟩⟩
  · obtain ⟨o, hvalue, hdisplay⟩ := Operand.exists_ofValue hx
    have hplain := plain?_of_display hdisplay
    obtain ⟨q, hshown, hliteral⟩ := value?_plain? hplain
    refine ⟨o, q, hdisplay, hvalue, canonical_of_plain? hplain, fun hzero => ?_, hshown,
      hliteral, ofText_literal hx, Operand.value_of_ofValue hvalue⟩
    exact Option.some.inj (hplain.symm.trans (plain?_of_isZero hzero))
  · cases x with
    | nan => rfl
    | infinite s => rfl
    | finite s m => cases hx
  · exact Operand.ofValue_of_not_isFinite hx

theorem display_exact_power_of_ten : ∃ o q,
    Operand.ofValue (.real (ofNat (tenTo 22))) = .ok o ∧
      o.text = "10000000000000000000000" ∧ (ofNat (tenTo 22)).literal = "1e+22" ∧
      Numeral.value? o.chars = some q ∧ Numeral.value? "1e+22".toList = some q ∧
      o.value = ofNat (tenTo 22) := by
  have hliteral : (ofNat (tenTo 22)).literal = "1e+22" := by decide +kernel
  have hshown : (ofNat (tenTo 22)).shown = ofNat (tenTo 22) := by decide +kernel
  have hplain : (ofNat (tenTo 22)).plain? = some "10000000000000000000000".toList := by
    decide +kernel
  obtain ⟨o, q, hdisplay, ho, -, -, hq, hsame, -, hvalue⟩ :=
    (display_exact (ofNat (tenTo 22))).1 (by decide +kernel)
  have hchars : o.chars = "10000000000000000000000".toList :=
    Option.some.inj ((plain?_of_display hdisplay).symm.trans hplain)
  have htext : o.text = "10000000000000000000000" := by rw [Operand.text, hchars]; rfl
  exact ⟨o, q, ho, htext, hliteral, hq, hliteral ▸ hsame, hvalue.trans hshown⟩

end Binary64

end DeskCalculator
