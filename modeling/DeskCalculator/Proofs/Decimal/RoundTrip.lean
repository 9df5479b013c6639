import DeskCalculator.Proofs.Binary64.Exact
import DeskCalculator.Proofs.Decimal.Display
import DeskCalculator.Proofs.Decimal.Numerals

namespace DeskCalculator

open Text

theorem tenTo_eq (k : Nat) : tenTo k = Nat.pow 5 k * twoTo k :=
  Nat.mul_pow 5 2 k

namespace Decimal

def Same (d e : Decimal) : Prop :=
  d.numerator * e.denominator = e.numerator * d.denominator

theorem Same.magnitude?_eq {d e : Decimal} (h : d.Same e) : d.magnitude? = e.magnitude? := by
  refine Magnitude.nearest?_congr (tenTo_pos _) (tenTo_pos _) ?_
  rw [Nat.mul_right_comm, h, Nat.mul_right_comm]

theorem Same.symm {d e : Decimal} (h : d.Same e) : e.Same d :=
  Eq.symm h

theorem same_shift (n k : Nat) (e : Int) : Same ⟨n * tenTo k, e⟩ ⟨n, e + k⟩ := by
  have hexponents : k + e.toNat + (-(e + k)).toNat = (e + k).toNat + (-e).toNat := by omega
  have hpowers : tenTo k * tenTo e.toNat * tenTo (-(e + k)).toNat =
      tenTo (e + k).toNat * tenTo (-e).toNat := by
    rw [← tenTo_add, ← tenTo_add, ← tenTo_add, hexponents]
  calc n * tenTo k * tenTo e.toNat * tenTo (-(e + k)).toNat
      = n * (tenTo k * tenTo e.toNat * tenTo (-(e + k)).toNat) := by ring
    _ = n * (tenTo (e + k).toNat * tenTo (-e).toNat) := by rw [hpowers]
    _ = n * tenTo (e + k).toNat * tenTo (-e).toNat := by ring

section Digits

theorem readDigits_append (cs ds : List Char) :
    readDigits (cs ++ ds) = readDigits cs * tenTo ds.length + readDigits ds := by
  rw [readDigits, Nat.ofDigitChars_append, Nat.ofDigitChars_eq_ofDigitChars_zero, Nat.mul_comm]
  rfl

theorem readDigits_zeros (n : Nat) : readDigits (List.replicate n '0') = 0 := by
  rw [readDigits, Nat.ofDigitChars_replicate_zero, Nat.mul_zero]

theorem readDigits_append_zeros (cs : List Char) (n : Nat) :
    readDigits (cs ++ List.replicate n '0') = readDigits cs * tenTo n := by
  rw [readDigits_append, readDigits_zeros, List.length_replicate, Nat.add_zero]

theorem readDigits_zeros_append (n : Nat) (cs : List Char) :
    readDigits (List.replicate n '0' ++ cs) = readDigits cs := by
  rw [readDigits_append, readDigits_zeros, Nat.zero_mul, Nat.zero_add]

end Digits

theorem ofPlain_pointed {whole : List Char} (h : AllDigits whole) (fraction : List Char) :
    ofPlain (whole ++ pointed fraction) = ofDigits whole fraction := by
  unfold pointed
  split
  · rename_i hnil
    rw [hnil, List.append_nil, ofPlain_whole h]
  · exact ofPlain_point h fraction

theorem ofPlain_withPoint {ds : List Char} (h : AllDigits ds) (places : Nat) :
    ofPlain (withPoint ds places) = ⟨readDigits ds, -(places : Int)⟩ := by
  have hpadded : AllDigits (List.replicate (places + 1 - ds.length) '0' ++ ds) :=
    allDigits_append.mpr ⟨allDigits_zeros _, h⟩
  have hlength : places + 1 ≤ (List.replicate (places + 1 - ds.length) '0' ++ ds).length := by
    rw [List.length_append, List.length_replicate]
    omega
  have hread := readDigits_zeros_append (places + 1 - ds.length) ds
  unfold withPoint
  dsimp only
  generalize List.replicate (places + 1 - ds.length) '0' ++ ds = cs at hpadded hlength hread ⊢
  have hplaces : (cs.drop (cs.length - places)).length = places := by
    rw [List.length_drop]
    omega
  rw [ofPlain_point (hpadded.of_prefix (List.take_prefix _ _)), ofDigits,
    List.take_append_drop, hplaces, hread]

theorem rdropWhile_zeros (cs : List Char) :
    ∃ n, cs = cs.rdropWhile (· == '0') ++ List.replicate n '0' := by
  refine ⟨(cs.rtakeWhile (· == '0')).length, ?_⟩
  have hzeros : cs.rtakeWhile (· == '0') =
      List.replicate (cs.rtakeWhile (· == '0')).length '0' :=
    List.eq_replicate_of_mem fun c hc => by simpa using List.mem_rtakeWhile_imp hc
  rw [← hzeros, List.rdropWhile_append_rtakeWhile]

theorem same_trim {whole fraction : List Char} (hw : AllDigits whole) (hf : AllDigits fraction) :
    Same (ofDigits whole fraction) (ofPlain (trim (whole ++ '.' :: fraction))) := by
  rw [trim_point hw hf, ofPlain_pointed hw]
  obtain ⟨n, hn⟩ := rdropWhile_zeros fraction
  generalize fraction.rdropWhile (· == '0') = kept at hn ⊢
  have hexponent : -(kept.length : Int) = -(fraction.length : Int) + n := by
    rw [hn, List.length_append, List.length_replicate]
    omega
  have hdigits : readDigits (whole ++ fraction) = readDigits (whole ++ kept) * tenTo n := by
    rw [hn, ← List.append_assoc, readDigits_append_zeros]
  rw [ofDigits, ofDigits, hdigits, hexponent]
  exact same_shift _ n _

theorem same_trim_positional (d : Decimal) : Same (ofPlain (trim d.positional)) d := by
  have hdigits := Whole.writeDigits d.digits
  unfold positional
  split
  · rename_i hexponent
    have hall : AllDigits (writeDigits d.digits ++ List.replicate d.exponent.toNat '0') :=
      allDigits_append.mpr ⟨hdigits.allDigits, allDigits_zeros _⟩
    have hshift := same_shift d.digits d.exponent.toNat 0
    rw [Int.zero_add, Int.toNat_of_nonneg hexponent] at hshift
    rw [trim_whole hall, ofPlain_whole hall, ofDigits, List.append_nil, readDigits_append_zeros,
      readDigits_writeDigits]
    exact hshift
  · rename_i hexponent
    obtain ⟨whole, fraction, hw, hf, -, heq⟩ := withPoint_eq hdigits (-d.exponent).toNat
    have hvalue := ofPlain_withPoint hdigits.allDigits (-d.exponent).toNat
    have hplaces : -((-d.exponent).toNat : Int) = d.exponent := by omega
    rw [heq, ofPlain_point hw.allDigits, readDigits_writeDigits, hplaces] at hvalue
    have htrim := same_trim hw.allDigits hf
    rw [hvalue] at htrim
    rw [heq]
    exact htrim.symm

end Decimal

theorem Numeral.Plain.pointed {whole fraction : List Char} (hw : AllDigits whole)
    (hne : whole ≠ []) (hf : AllDigits fraction) : Plain (whole ++ Decimal.pointed fraction) := by
  unfold Decimal.pointed
  split
  · rw [List.append_nil]
    exact .whole hw hne
  · exact .point hw hf (List.append_ne_nil_of_left_ne_nil hne fraction)

namespace Magnitude

variable (x : Magnitude)

theorem magnitude?_exactDecimal : x.exactDecimal.magnitude? = some x := by
  have hexact : x.exactDecimal = ⟨x.units * Nat.pow 5 1074, -((1074 : Nat) : Int)⟩ := by
    rw [exactDecimal]
    rfl
  rw [hexact, Decimal.magnitude?, Binary64.unitsPerOne]
  -- As a variable, the number of places keeps the powers from being evaluated.
  generalize 1074 = places
  have hlow : (-(places : Int)).toNat = 0 := by omega
  have hhigh : (- -(places : Int)).toNat = places := by omega
  have hvalue : x.units * Nat.pow 5 places * tenTo 0 * twoTo places * 1 =
      x.units * tenTo places := by
    rw [tenTo_eq places]
    change x.units * Nat.pow 5 places * 1 * twoTo places * 1 = _
    ring
  rw [Decimal.numerator, Decimal.denominator, hlow, hhigh,
    nearest?_congr (tenTo_pos places) Nat.one_pos hvalue, nearest?_units]

theorem magnitude?_shortest : x.shortest.magnitude? = some x := by
  rcases firstFrom_cases x.decimalAt? x.exactDecimal 18 (x.leadingPower + 1) with h | ⟨e, h⟩
  · rw [shortest, h]
    exact x.magnitude?_exactDecimal
  · have hback := readsBack_decimalAt? h
    rw [readsBack, decide_eq_true_eq] at hback
    exact hback

end Magnitude

namespace Binary64

def shown (x : Binary64) : Binary64 :=
  if x.isZero then zero false else x

theorem isFinite_shown (x : Binary64) : x.shown.isFinite = x.isFinite := by
  unfold shown
  split
  · rename_i hzero
    cases x with
    | nan => cases hzero
    | infinite s => cases hzero
    | finite s m => rfl
  · rfl

theorem plain?_of_isZero {x : Binary64} (h : x.isZero = true) : x.plain? = some ['0'] := by
  cases x with
  | nan => cases h
  | infinite s => cases h
  | finite s m =>
    have hunits : m.units = 0 := by simpa [isZero] using h
    rw [plain?, if_pos hunits]

theorem plain?_shown (x : Binary64) : x.shown.plain? = x.plain? := by
  unfold shown
  split
  · rename_i hzero
    have hshown : (zero false).isZero = true := rfl
    rw [plain?_of_isZero hzero, plain?_of_isZero hshown]
  · rfl

theorem ofPlain_of_plain? {x : Binary64} {cs : List Char} (h : x.plain? = some cs) :
    ofPlain cs = x.shown := by
  cases x with
  | nan => cases h
  | infinite s => cases h
  | finite s m =>
    by_cases hm : m.units = 0
    · have hzero : (finite s m).isZero = true := by simpa [isZero] using hm
      rw [plain?, if_pos hm] at h
      rw [← Option.some.inj h, shown, if_pos hzero]
      decide +kernel
    · have hzero : ¬(finite s m).isZero = true := by simpa [isZero] using hm
      have hne : m ≠ .zero := fun heq => hm (m.units_eq_zero.mpr heq)
      have hvalue : (Decimal.ofPlain (Decimal.trim m.shortest.positional)).magnitude? = some m :=
        (Decimal.same_trim_positional m.shortest).magnitude?_eq.trans m.magnitude?_shortest
      have hplain : Numeral.Plain (Decimal.trim m.shortest.positional) := by
        obtain ⟨whole, fraction, hw, hf, heq⟩ :=
          Decimal.trim_positional (Magnitude.digits_shortest hne)
        rw [heq]
        exact .pointed hw.allDigits hw.ne_nil hf.allDigits
      rw [plain?, if_neg hm] at h
      rw [← Option.some.inj h, shown, if_neg hzero, ofPlain_sign hplain]
      exact ofUnits_some hvalue s

end Binary64

end DeskCalculator
