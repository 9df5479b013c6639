import DeskCalculator.Keypad.Operand
import DeskCalculator.Proofs.Decimal.Display
import DeskCalculator.Proofs.Decimal.Numerals
import DeskCalculator.Proofs.Outcome

namespace DeskCalculator

open Text Decimal

theorem isWholePart_iff {cs : List Char} : isWholePart cs = true ↔ Whole cs := by
  constructor
  · intro h
    unfold isWholePart at h
    split at h
    · cases h
    · exact .zero
    · rename_i c cs _
      simp only [Bool.and_eq_true, bne_iff_ne, List.all_eq_true] at h
      exact .digits h.1.2 (allDigits_cons.mpr ⟨h.1.1, h.2⟩)
  · intro h
    cases h with
    | zero => rfl
    | @digits c cs hc hd =>
      obtain ⟨hdigit, hrest⟩ := allDigits_cons.mp hd
      unfold isWholePart
      split
      · rename_i heq
        cases heq
      · rfl
      · rename_i heq
        cases heq
        simp only [hdigit, Bool.true_and, Bool.and_eq_true, bne_iff_ne, List.all_eq_true]
        exact ⟨hc, hrest⟩

theorem isFractionPart_point {cs : List Char} :
    isFractionPart ('.' :: cs) = true ↔ AllDigits cs := by
  simp [isFractionPart, AllDigits]

inductive Unsigned : List Char → Prop where
  | whole {cs} : Whole cs → Unsigned cs
  | point {whole fraction} : Whole whole → AllDigits fraction →
      Unsigned (whole ++ '.' :: fraction)

theorem isUnsignedOperand_iff {cs : List Char} : isUnsignedOperand cs = true ↔ Unsigned cs := by
  constructor
  · intro h
    obtain ⟨hwhole, hfraction⟩ := Bool.and_eq_true_iff.mp h
    have hw := isWholePart_iff.mp hwhole
    rw [← List.takeWhile_append_dropWhile (p := isDigit) (l := cs)]
    cases hrest : cs.dropWhile isDigit with
    | nil => simpa using .whole hw
    | cons c ds =>
      rw [hrest] at hfraction
      have hc : c = '.' := by
        simp only [isFractionPart, Bool.and_eq_true, decide_eq_true_eq] at hfraction
        exact hfraction.1
      rw [hc] at hfraction ⊢
      exact .point hw (isFractionPart_point.mp hfraction)
  · intro h
    cases h with
    | whole hw =>
      rw [isUnsignedOperand, List.takeWhile_eq_self_iff.mpr hw.allDigits,
        List.dropWhile_eq_nil_iff.mpr hw.allDigits, isWholePart_iff.mpr hw]
      rfl
    | point hw hf =>
      rw [isUnsignedOperand, takeWhile_digits_point hw.allDigits,
        dropWhile_digits_point hw.allDigits, isWholePart_iff.mpr hw, isFractionPart_point.mpr hf]
      rfl

namespace Unsigned

variable {cs ds : List Char}

theorem plain (h : Unsigned cs) : Numeral.Plain cs := by
  cases h with
  | whole hw => exact .whole hw.allDigits hw.ne_nil
  | point hw hf => exact .point hw.allDigits hf (by simp [hw.ne_nil])

theorem pointed {whole fraction : List Char} (hw : Whole whole) (hf : AllDigits fraction) :
    Unsigned (whole ++ Decimal.pointed fraction) := by
  unfold Decimal.pointed
  split
  · simpa using .whole hw
  · exact .point hw hf

theorem not_mem_minus (h : Unsigned cs) : '-' ∉ cs :=
  fun hmem => absurd (h.plain.mem_plainChars _ hmem) (by decide)

theorem append_digits (h : Unsigned cs) (hne : cs ≠ ['0']) (hd : AllDigits ds) :
    Unsigned (cs ++ ds) := by
  cases h with
  | whole hw => exact .whole (hw.append hne hd)
  | point hw hf =>
    rw [List.append_assoc, List.cons_append]
    exact .point hw (allDigits_append.mpr ⟨hf, hd⟩)

theorem append_point (h : Unsigned cs) (hne : '.' ∉ cs) : Unsigned (cs ++ ['.']) := by
  cases h with
  | whole hw => exact .point hw allDigits_nil
  | point hw hf => exact absurd (by simp) hne

theorem of_prefix (h : Unsigned cs) (hp : ds <+: cs) (hne : ds ≠ []) : Unsigned ds := by
  cases h with
  | whole hw => exact .whole (hw.of_prefix hp hne)
  | @point whole fraction hw hf =>
    have hwhole : whole <+: whole ++ '.' :: fraction := List.prefix_append _ _
    rcases List.prefix_or_prefix_of_prefix hp hwhole with hin | ⟨rest, rfl⟩
    · exact .whole (hw.of_prefix hin hne)
    · cases rest with
      | nil => simpa using .whole hw
      | cons c rest =>
        obtain ⟨rfl, hrest⟩ := List.cons_prefix_cons.mp ((List.prefix_append_right_inj _).mp hp)
        exact .point hw (hf.of_prefix hrest)

end Unsigned

theorem isOperand_iff {cs : List Char} :
    isOperand cs = true ↔ ∃ negative ds, Unsigned ds ∧ cs = Binary64.sign negative ++ ds := by
  constructor
  · intro h
    unfold isOperand at h
    split at h
    · rename_i ds
      exact ⟨true, ds, isUnsignedOperand_iff.mp h, rfl⟩
    · exact ⟨false, cs, isUnsignedOperand_iff.mp h, rfl⟩
  · rintro ⟨negative, ds, h, rfl⟩
    cases negative with
    | true => exact isUnsignedOperand_iff.mpr h
    | false =>
      change isOperand ds = true
      unfold isOperand
      split
      · exact absurd (List.mem_cons_self) h.not_mem_minus
      · exact isUnsignedOperand_iff.mpr h

theorem chars_of_ofChars {cs : List Char} {o : Operand} (h : Operand.ofChars cs = .ok o) :
    o.chars = cs := by
  unfold Operand.ofChars at h
  split at h
  · rw [← Except.ok.inj h]
  · cases h

namespace Operand

theorem ofChars_eq {cs : List Char} (h : isOperand cs = true) : ofChars cs = .ok ⟨cs, h⟩ :=
  dif_pos h

theorem unsigned_of_not_mem (o : Operand) (h : '-' ∉ o.chars) : Unsigned o.chars := by
  obtain ⟨negative, ds, hds, hchars⟩ := isOperand_iff.mp o.isOperand_chars
  cases negative with
  | true => exact absurd (by rw [hchars]; exact List.mem_cons_self) h
  | false => exact hchars ▸ hds

theorem exists_unsigned_of_not_hasPoint {o : Operand} (h : o.hasPoint = false) :
    ∃ negative ds, Unsigned ds ∧ '.' ∉ ds ∧ o.chars = Binary64.sign negative ++ ds := by
  obtain ⟨negative, ds, hds, hchars⟩ := isOperand_iff.mp o.isOperand_chars
  refine ⟨negative, ds, hds, fun hmem => ?_, hchars⟩
  have hpoint : o.hasPoint = true := by simp [hasPoint, hchars, hmem]
  exact Bool.false_ne_true (h.symm.trans hpoint)

theorem exists_unsigned_dropLast {o : Operand}
    (h : ¬(o.chars.dropLast = [] ∨ o.chars.dropLast = ['-'])) :
    ∃ negative ds, Unsigned ds ∧ Unsigned ds.dropLast ∧
      o.chars = Binary64.sign negative ++ ds ∧
      o.chars.dropLast = Binary64.sign negative ++ ds.dropLast := by
  obtain ⟨negative, ds, hds, hchars⟩ := isOperand_iff.mp o.isOperand_chars
  have hlast : o.chars.dropLast = Binary64.sign negative ++ ds.dropLast := by
    rw [hchars, List.dropLast_append_of_ne_nil hds.plain.ne_nil]
  have hne : ds.dropLast ≠ [] := by
    intro hnil
    rw [hlast, hnil, List.append_nil] at h
    cases negative <;> simp [Binary64.sign] at h
  exact ⟨negative, ds, hds, hds.of_prefix (List.dropLast_prefix ds) hne, hchars, hlast⟩

theorem ofText_text (o : Operand) : Binary64.ofText o.text = .ok o.value := by
  obtain ⟨negative, ds, hds, hchars⟩ := isOperand_iff.mp o.isOperand_chars
  rw [text, value, hchars]
  exact Binary64.ofText_plain hds.plain negative

end Operand

def Binary64.isUnsigned : Binary64 → Bool
  | .nan => true
  | .infinite s => !s
  | .finite s _ => !s

namespace Binary64

theorem isUnsigned_ofUnits (s : Bool) (n d : Nat) : (ofUnits s n d).isUnsigned = !s := by
  unfold ofUnits
  split <;> rfl

theorem isUnsigned_ofNat (n : Nat) : (ofNat n).isUnsigned = true :=
  isUnsigned_ofUnits false (n * unitsPerOne) 1

theorem isUnsigned_div {x y : Binary64} (hx : x.isUnsigned = true) (hy : y.isUnsigned = true) :
    (x / y).isUnsigned = true := by
  cases x with
  | nan => rfl
  | infinite s =>
    cases y with
    | nan => rfl
    | infinite t => rfl
    | finite t b =>
      obtain rfl : s = false := by simpa [isUnsigned] using hx
      obtain rfl : t = false := by simpa [isUnsigned] using hy
      rfl
  | finite s a =>
    obtain rfl : s = false := by simpa [isUnsigned] using hx
    cases y with
    | nan => rfl
    | infinite t =>
      obtain rfl : t = false := by simpa [isUnsigned] using hy
      rfl
    | finite t b =>
      obtain rfl : t = false := by simpa [isUnsigned] using hy
      change (if b.units = 0 then if a.units = 0 then nan else infinite false
        else ofUnits false (a.units * unitsPerOne) b.units).isUnsigned = true
      split
      · split <;> rfl
      · exact isUnsigned_ofUnits false _ _

end Binary64

theorem Unsigned.isUnsigned_value {o : Operand} (h : Unsigned o.chars) :
    o.value.isUnsigned = true := by
  have hvalue : o.value = (Decimal.ofPlain o.chars).toBinary64 false :=
    Binary64.ofPlain_sign h.plain false
  rw [hvalue]
  exact Binary64.isUnsigned_ofUnits false _ _

theorem settles_ofValue (x : Binary64) :
    Settles (fun o => x.isUnsigned = true → Unsigned o.chars) (Operand.ofValue (.real x)) := by
  change Settles _ (x.display >>= Operand.ofChars)
  cases x with
  | nan => exact Fault.ofExpression_overflow _
  | infinite s => exact Fault.ofExpression_overflow _
  | finite s m =>
    obtain ⟨negative, whole, fraction, hsign, hw, hf, heq⟩ := Binary64.plain?_finite s m
    have hds := Unsigned.pointed hw hf.allDigits
    have hoperand := isOperand_iff.mpr ⟨negative, _, hds, rfl⟩
    simp only [Binary64.display, heq, ok_bind, Operand.ofChars_eq hoperand]
    intro hx
    have hs : s = false := by simpa [Binary64.isUnsigned] using hx
    cases negative with
    | true => exact absurd (hsign rfl) (by simp [hs])
    | false => exact hds

end DeskCalculator
