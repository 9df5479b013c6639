import DeskCalculator.Proofs.Decimal.RoundTrip
import Mathlib.Algebra.Order.Field.Rat
import Mathlib.Tactic.NormNum

namespace DeskCalculator

open Text

namespace Decimal

def toRat (d : Decimal) : ℚ :=
  d.digits * 10 ^ d.exponent

theorem toRat_eq (d : Decimal) : d.toRat = (d.numerator : ℚ) / d.denominator := by
  have hcast (k : Nat) : ((tenTo k : Nat) : ℚ) = 10 ^ k := by
    exact_mod_cast rfl
  rw [toRat, numerator, denominator, Nat.cast_mul, hcast, hcast]
  rcases Int.le_total 0 d.exponent with hle | hle
  · obtain ⟨k, hk⟩ := Int.eq_ofNat_of_zero_le hle
    simp [hk]
  · obtain ⟨k, hk⟩ := Int.exists_eq_neg_ofNat hle
    simp [hk, div_eq_mul_inv]

theorem Same.toRat_eq {d e : Decimal} (h : d.Same e) : d.toRat = e.toRat := by
  have hne (d : Decimal) : (d.denominator : ℚ) ≠ 0 :=
    Nat.cast_ne_zero.mpr (Nat.ne_of_gt (tenTo_pos _))
  rw [d.toRat_eq, e.toRat_eq, div_eq_div_iff (hne d) (hne e)]
  exact_mod_cast h

end Decimal

namespace Numeral

def value? (cs : List Char) : Option ℚ :=
  let (negative, ds) := splitSign cs
  (decimal? ds).map fun d => if negative then -d.toRat else d.toRat

theorem Denotes.value?_eq {cs : List Char} {d : Decimal} (h : Denotes cs d) (negative : Bool) :
    value? (Binary64.sign negative ++ cs) = some (if negative then -d.toRat else d.toRat) := by
  rw [value?, h.splitSign_eq]
  simp only [h.decimal?, Option.map_some]

theorem exponent?_signed {ds : List Char} (hne : ds ≠ []) (hd : AllDigits ds) {c : Char}
    (hc : c = '-' ∨ c = '+') : exponent? ('e' :: c :: ds) =
      some (if c = '-' then -(Decimal.readDigits ds : Int) else Decimal.readDigits ds) := by
  have hall : ds ≠ [] ∧ ds.all isDigit = true := ⟨hne, List.all_eq_true.mpr hd⟩
  rcases hc with rfl | rfl
  · change (if _ then some _ else none) = _
    rw [if_pos hall]
    rfl
  · change (if _ then some _ else none) = _
    rw [if_pos hall]
    rfl

theorem exponent?_exponentMark (e : Int) : exponent? (Decimal.exponentMark e) = some e := by
  have hdigits := Decimal.Whole.writeDigits e.natAbs
  have hread : Decimal.readDigits (List.replicate (2 - (Decimal.writeDigits e.natAbs).length) '0' ++
      Decimal.writeDigits e.natAbs) = e.natAbs := by
    rw [Decimal.readDigits_zeros_append, Decimal.readDigits_writeDigits]
  have hne := List.append_ne_nil_of_right_ne_nil
    (List.replicate (2 - (Decimal.writeDigits e.natAbs).length) '0') hdigits.ne_nil
  have hall := allDigits_append.mpr
    ⟨allDigits_zeros (2 - (Decimal.writeDigits e.natAbs).length), hdigits.allDigits⟩
  rw [Decimal.exponentMark, List.cons_append, List.cons_append]
  by_cases he : e < 0
  · rw [if_pos he, exponent?_signed hne hall (.inl rfl), hread, if_pos rfl,
      Int.ofNat_natAbs_of_nonpos (Int.le_of_lt he), Int.neg_neg]
  · rw [if_neg he, exponent?_signed hne hall (.inr rfl), hread, if_neg (by decide),
      Int.natAbs_of_nonneg (Int.not_lt.mp he)]

theorem decimal?_marked {whole fraction mark : List Char} {e : Int} (hw : AllDigits whole)
    (hne : whole ≠ []) (hf : AllDigits fraction) (hhead : mark.head? = some 'e')
    (hmark : exponent? mark = some e) :
    decimal? (whole ++ Decimal.pointed fraction ++ mark) =
      some ⟨Decimal.readDigits (whole ++ fraction), -(fraction.length : Int) + e⟩ := by
  obtain ⟨rest, rfl⟩ := List.head?_eq_some_iff.mp hhead
  have htake {ds : List Char} (hds : AllDigits ds) : (ds ++ 'e' :: rest).takeWhile isDigit = ds := by
    rw [List.takeWhile_append_of_pos hds, List.takeWhile_cons_of_neg (by decide), List.append_nil]
  have hdrop {ds : List Char} (hds : AllDigits ds) :
      (ds ++ 'e' :: rest).dropWhile isDigit = 'e' :: rest := by
    rw [List.dropWhile_append_of_pos hds, List.dropWhile_cons_of_neg (by decide)]
  unfold Decimal.pointed
  split
  · rename_i hnil
    simp only [decimal?, List.append_nil, htake hw, hdrop hw]
    rw [if_neg fun h => hne h.1, hnil]
    change (exponent? ('e' :: rest)).map _ = _
    rw [hmark]
    rfl
  · simp only [decimal?, List.append_assoc, List.cons_append, takeWhile_digits_point hw,
      dropWhile_digits_point hw, htake hf, hdrop hf, hmark]
    rw [if_neg fun h => hne h.1]
    rfl

end Numeral

namespace Decimal

variable (d : Decimal)

theorem scientific_eq : ∃ c cs, writeDigits d.digits = c :: cs ∧
    d.scientific = [c] ++ pointed cs ++ exponentMark (d.exponent + cs.length) := by
  obtain ⟨c, cs, hcs⟩ := List.exists_cons_of_ne_nil (Whole.writeDigits d.digits).ne_nil
  refine ⟨c, cs, hcs, ?_⟩
  rw [scientific, hcs]
  unfold pointed
  cases cs <;> rfl

theorem mem_numeralChars_of_pointed {fraction : List Char} (h : AllDigits fraction) :
    ∀ c ∈ pointed fraction, c ∈ Numeral.numeralChars := by
  intro c hc
  unfold pointed at hc
  split at hc
  · cases hc
  · rcases List.mem_cons.mp hc with rfl | hdigit
    · decide
    · exact Numeral.mem_numeralChars_of_isDigit (h c hdigit)

theorem mem_numeralChars_of_exponentMark (e : Int) :
    ∀ c ∈ exponentMark e, c ∈ Numeral.numeralChars := by
  intro c hc
  rw [exponentMark, List.cons_append, List.cons_append, List.mem_cons, List.mem_cons] at hc
  rcases hc with rfl | rfl | hdigit
  · decide
  · split <;> decide
  · have hall := allDigits_append.mpr
      ⟨allDigits_zeros (2 - (writeDigits e.natAbs).length), allDigits_writeDigits e.natAbs⟩
    exact Numeral.mem_numeralChars_of_isDigit (hall c hdigit)

theorem denotes_scientific : Numeral.Denotes d.scientific d := by
  obtain ⟨c, cs, hcs, heq⟩ := d.scientific_eq
  have hdigits := (Whole.writeDigits d.digits).allDigits
  have hread := readDigits_writeDigits d.digits
  rw [hcs] at hdigits hread
  obtain ⟨hc, hfraction⟩ := allDigits_cons.mp hdigits
  have hexponent : -(cs.length : Int) + (d.exponent + cs.length) = d.exponent := by omega
  constructor
  · exact ⟨c, _, heq, .inl hc⟩
  · rw [heq]
    intro c' hc'
    rcases List.mem_append.mp hc' with hleft | hmark
    · rcases List.mem_append.mp hleft with hfirst | hpointed
      · exact Numeral.mem_numeralChars_of_isDigit (List.mem_singleton.mp hfirst ▸ hc)
      · exact mem_numeralChars_of_pointed hfraction _ hpointed
    · exact mem_numeralChars_of_exponentMark _ _ hmark
  · rw [heq, Numeral.decimal?_marked (allDigits_cons.mpr ⟨hc, allDigits_nil⟩)
      (List.cons_ne_nil _ _) hfraction rfl (Numeral.exponent?_exponentMark _),
      List.singleton_append, hread, hexponent]

theorem denotes_positional (h : d.exponent < 0) : Numeral.Denotes d.positional d := by
  have hdigits := Whole.writeDigits d.digits
  obtain ⟨whole, fraction, hw, hf, -, heq⟩ := withPoint_eq hdigits (-d.exponent).toNat
  have hvalue := ofPlain_withPoint hdigits.allDigits (-d.exponent).toNat
  have hplaces : -((-d.exponent).toNat : Int) = d.exponent := by omega
  have hplain : Numeral.Plain (withPoint (writeDigits d.digits) (-d.exponent).toNat) := by
    rw [heq]
    exact .point hw.allDigits hf (List.append_ne_nil_of_left_ne_nil hw.ne_nil fraction)
  rw [readDigits_writeDigits, hplaces] at hvalue
  rw [positional, if_neg (Int.not_le.mpr h)]
  have hdenotes := hplain.denotes
  rwa [hvalue] at hdenotes

theorem denotes_positional_zero (h : 0 ≤ d.exponent) :
    ∃ e, Numeral.Denotes (d.positional ++ ['.', '0']) e ∧ e.Same d := by
  have hall : AllDigits (writeDigits d.digits ++ List.replicate d.exponent.toNat '0') :=
    allDigits_append.mpr ⟨allDigits_writeDigits _, allDigits_zeros _⟩
  have hplain := Numeral.Plain.point hall (allDigits_zeros 1)
    (List.append_ne_nil_of_right_ne_nil _ (List.cons_ne_nil _ _))
  have hvalue : ofPlain (writeDigits d.digits ++ List.replicate d.exponent.toNat '0' ++ '.' ::
      List.replicate 1 '0') = ⟨d.digits * tenTo (d.exponent.toNat + 1), -1⟩ := by
    rw [ofPlain_point hall, ofDigits, List.append_assoc, ← List.replicate_add,
      readDigits_append_zeros, readDigits_writeDigits]
    rfl
  have hsame := same_shift d.digits (d.exponent.toNat + 1) (-1)
  rw [show -1 + ((d.exponent.toNat + 1 : Nat) : Int) = d.exponent by omega] at hsame
  rw [positional, if_pos h]
  refine ⟨_, hplain.denotes, ?_⟩
  rw [hvalue]
  exact hsame

theorem denotes_literal : ∃ e, Numeral.Denotes d.literal e ∧ e.Same d := by
  unfold literal
  split
  · split
    · rename_i hexponent
      exact d.denotes_positional_zero hexponent
    · rename_i hexponent
      exact ⟨d, d.denotes_positional (Int.not_le.mp hexponent), rfl⟩
  · exact ⟨d, d.denotes_scientific, rfl⟩

theorem denotes_trim_positional (h : d.digits ≠ 0) :
    ∃ e, Numeral.Denotes (trim d.positional) e ∧ e.Same d := by
  obtain ⟨whole, fraction, hw, hf, heq⟩ := trim_positional h
  have hplain : Numeral.Plain (trim d.positional) := by
    rw [heq]
    exact .pointed hw.allDigits hw.ne_nil hf.allDigits
  exact ⟨_, hplain.denotes, d.same_trim_positional⟩

end Decimal

def Magnitude.written (m : Magnitude) : Decimal :=
  if m.units = 0 then ⟨0, 0⟩ else m.shortest

namespace Binary64

open Numeral

variable (s : Bool) (m : Magnitude)

theorem denotes_literal : ∃ cs d, (finite s m).literal = String.ofList (sign s ++ cs) ∧
    Denotes cs d ∧ d.Same m.written := by
  rw [literal, Magnitude.written]
  split
  · have hplain := Plain.point (allDigits_zeros 1) (allDigits_zeros 1) (List.cons_ne_nil _ _)
    exact ⟨_, _, rfl, hplain.denotes, rfl⟩
  · obtain ⟨d, hd, hsame⟩ := m.shortest.denotes_literal
    exact ⟨_, d, rfl, hd, hsame⟩

theorem denotes_plain? : ∃ cs d,
    (finite s m).plain? = some (sign (s && m.units ≠ 0) ++ cs) ∧ Denotes cs d ∧
      d.Same m.written := by
  rw [plain?, Magnitude.written]
  by_cases hm : m.units = 0
  · have hplain := Plain.whole (allDigits_zeros 1) (List.cons_ne_nil _ _)
    simp only [hm, if_true]
    refine ⟨_, _, ?_, hplain.denotes, rfl⟩
    simp [sign]
  · have hne : m ≠ .zero := fun h => hm (m.units_eq_zero.mpr h)
    obtain ⟨d, hd, hsame⟩ := m.shortest.denotes_trim_positional (Magnitude.digits_shortest hne)
    simp only [hm, if_false]
    refine ⟨_, d, ?_, hd, hsame⟩
    simp [hm]

theorem toRat_written_of_zero {m : Magnitude} (hm : m.units = 0) : m.written.toRat = 0 := by
  rw [Magnitude.written, if_pos hm, Decimal.toRat, Nat.cast_zero, zero_mul]

theorem magnitude?_written : m.written.magnitude? = some m := by
  unfold Magnitude.written
  split
  · rename_i hm
    rw [m.units_eq_zero.mp hm]
    exact Decimal.magnitude?_of_tiny (.inl rfl)
  · exact m.magnitude?_shortest

theorem value?_plain? {x : Binary64} {cs : List Char} (h : x.plain? = some cs) :
    ∃ q, value? cs = some q ∧ value? x.literal.toList = some q := by
  cases x with
  | nan => cases h
  | infinite s => cases h
  | finite s m =>
    obtain ⟨ds, d, hds, hd, hsame⟩ := denotes_plain? s m
    obtain ⟨es, e, hes, he, hsame'⟩ := denotes_literal s m
    rw [← Option.some.inj (hds.symm.trans h), hes, String.toList_ofList, hd.value?_eq,
      he.value?_eq, hsame.toRat_eq, hsame'.toRat_eq]
    refine ⟨_, rfl, ?_⟩
    by_cases hm : m.units = 0
    · simp [toRat_written_of_zero hm]
    · simp [hm]

theorem ofText_literal {x : Binary64} (h : x.isFinite = true) : ofText x.literal = .ok x := by
  cases x with
  | nan => cases h
  | infinite s => cases h
  | finite s m =>
    obtain ⟨cs, d, hcs, hd, hsame⟩ := denotes_literal s m
    rw [ofText, hcs, String.toList_ofList, hd.read?_eq]
    exact congrArg Except.ok (ofUnits_some (hsame.magnitude?_eq.trans (magnitude?_written m)) s)

end Binary64

end DeskCalculator
