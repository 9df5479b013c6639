import DeskCalculator.Decimal.Numeral
import DeskCalculator.Proofs.Decimal.Digits
import Mathlib.Tactic.IntervalCases

namespace DeskCalculator

open Text

namespace Decimal

theorem ofPlain_whole {ds : List Char} (h : AllDigits ds) : ofPlain ds = ofDigits ds [] := by
  have hpoint : ∀ c ∈ ds, (c != '.') = true := fun c hc => by simpa using h.ne_point c hc
  rw [ofPlain, List.takeWhile_eq_self_iff.mpr hpoint, List.dropWhile_eq_nil_iff.mpr hpoint]
  rfl

theorem ofPlain_point {whole : List Char} (h : AllDigits whole) (fraction : List Char) :
    ofPlain (whole ++ '.' :: fraction) = ofDigits whole fraction := by
  have hpoint : ∀ c ∈ whole, (c != '.') = true := fun c hc => by simpa using h.ne_point c hc
  rw [ofPlain, List.takeWhile_append_of_pos hpoint, List.dropWhile_append_of_pos hpoint]
  simp

theorem lt_tenTo_length (n : Nat) : n < tenTo (writeDigits n).length :=
  (Nat.length_toDigits_le_iff (by decide) Nat.length_toDigits_pos).mp (Nat.le_refl _)

theorem tenTo_length_le {n : Nat} (h : n ≠ 0) : tenTo ((writeDigits n).length - 1) ≤ n := by
  rcases Nat.eq_zero_or_pos ((writeDigits n).length - 1) with hone | hmore
  · rw [hone]
    exact Nat.one_le_iff_ne_zero.mpr h
  · have hlength : ¬(writeDigits n).length ≤ (writeDigits n).length - 1 := by omega
    exact Nat.not_lt.mp fun hlt => hlength ((Nat.length_toDigits_le_iff (by decide) hmore).mpr hlt)

theorem magnitude?_of_tiny {d : Decimal}
    (h : d.digits = 0 ∨ d.exponent + (writeDigits d.digits).length < -400) :
    d.magnitude? = some .zero := by
  refine Magnitude.nearest?_eq_zero (tenTo_pos _) ?_
  rcases h with hzero | htiny
  · rw [numerator, hzero, Nat.zero_mul, Nat.zero_mul]
    exact Nat.zero_le _
  · have hshift : d.exponent.toNat = 0 := by omega
    have hsplit : 401 + (writeDigits d.digits).length ≤ (-d.exponent).toNat := by omega
    have hunits : 2 * Binary64.unitsPerOne ≤ tenTo 401 := by decide +kernel
    rw [numerator, hshift, show tenTo 0 = 1 from rfl, Nat.mul_one]
    calc 2 * (d.digits * Binary64.unitsPerOne)
        = 2 * Binary64.unitsPerOne * d.digits := by ring
      _ ≤ tenTo 401 * tenTo (writeDigits d.digits).length :=
          Nat.mul_le_mul hunits (Nat.le_of_lt (lt_tenTo_length _))
      _ = tenTo (401 + (writeDigits d.digits).length) := (tenTo_add _ _).symm
      _ ≤ d.denominator := tenTo_le hsplit

theorem magnitude?_of_huge {d : Decimal} (hd : d.digits ≠ 0)
    (h : 400 < d.exponent + (writeDigits d.digits).length) : d.magnitude? = none := by
  have hsome := Magnitude.nearest?_isSome_iff (n := d.numerator * Binary64.unitsPerOne)
    (tenTo_pos (-d.exponent).toNat)
  have hbound : Magnitude.outOfRange ≤ tenTo 400 * Binary64.unitsPerOne := by decide +kernel
  have hnumerator : tenTo 400 * d.denominator ≤ d.numerator := by
    calc tenTo 400 * d.denominator = tenTo (400 + (-d.exponent).toNat) := (tenTo_add _ _).symm
      _ ≤ tenTo ((writeDigits d.digits).length - 1 + d.exponent.toNat) := tenTo_le (by omega)
      _ = tenTo ((writeDigits d.digits).length - 1) * tenTo d.exponent.toNat := tenTo_add _ _
      _ ≤ d.numerator := Nat.mul_le_mul_right _ (tenTo_length_le hd)
  have hlarge : Magnitude.outOfRange * d.denominator ≤ d.numerator * Binary64.unitsPerOne := by
    calc Magnitude.outOfRange * d.denominator
        ≤ tenTo 400 * Binary64.unitsPerOne * d.denominator := Nat.mul_le_mul_right _ hbound
      _ = tenTo 400 * d.denominator * Binary64.unitsPerOne := by ring
      _ ≤ d.numerator * Binary64.unitsPerOne := Nat.mul_le_mul_right _ hnumerator
  have hnot : ¬d.magnitude?.isSome := fun hs => absurd (hsome.mp hs) (Nat.not_lt.mpr hlarge)
  exact Option.not_isSome_iff_eq_none.mp hnot

end Decimal

namespace Numeral

theorem nearest_eq (negative : Bool) (d : Decimal) : nearest negative d = d.toBinary64 negative := by
  unfold nearest
  dsimp only
  split
  · rename_i htiny
    exact (Binary64.ofUnits_some (Decimal.magnitude?_of_tiny htiny) negative).symm
  · rename_i htiny
    split
    · rename_i hhuge
      have hd : d.digits ≠ 0 := fun h => htiny (.inl h)
      exact (Binary64.ofUnits_none (Decimal.magnitude?_of_huge hd hhuge) negative).symm
    · rfl

inductive Plain : List Char → Prop where
  | whole {ds} : AllDigits ds → ds ≠ [] → Plain ds
  | point {whole fraction} : AllDigits whole → AllDigits fraction → whole ++ fraction ≠ [] →
      Plain (whole ++ '.' :: fraction)

def plainChars : List Char :=
  ['0', '1', '2', '3', '4', '5', '6', '7', '8', '9', '.']

theorem mem_plainChars_of_isDigit {c : Char} (h : isDigit c = true) : c ∈ plainChars := by
  have hle : 48 ≤ c.toNat ∧ c.toNat ≤ 57 := by
    simpa [isDigit, Char.le_def, UInt32.le_iff_toNat_le] using h
  obtain ⟨hlow, hhigh⟩ := hle
  rw [← Char.ofNat_toNat c]
  interval_cases c.toNat <;> decide

def numeralChars : List Char :=
  plainChars ++ ['e', '+', '-']

theorem mem_numeralChars_of_isDigit {c : Char} (h : isDigit c = true) : c ∈ numeralChars :=
  List.mem_append_left _ (mem_plainChars_of_isDigit h)

theorem numeralChars_facts : ∀ c ∈ numeralChars,
    isSpace c = false ∧ toAsciiDigit c = c ∧ c ≠ '_' ∧ c.toLower = c := by
  simp only [numeralChars, plainChars, List.cons_append, List.nil_append, List.forall_mem_cons,
    List.not_mem_nil, false_imp_iff, implies_true, and_true]
  decide

theorem joinGroups?_eq {last : Char} {cs : List Char} (hl : last ≠ '_') (h : '_' ∉ cs) :
    joinGroups? last cs = some cs := by
  induction cs generalizing last with
  | nil => rw [joinGroups?, if_neg hl]
  | cons c cs ih =>
    have hc : c ≠ '_' := fun heq => h (by simp [heq])
    have hcs := ih hc fun hmem => h (List.mem_cons_of_mem c hmem)
    simp [joinGroups?, hc, hl, hcs]

theorem trimEnds_eq {p : Char → Bool} {cs : List Char} (h : ∀ c ∈ cs, p c = false) :
    trimEnds p cs = cs := by
  have hreverse : ∀ c ∈ cs.reverse, p c = false := fun c hc => h c (List.mem_reverse.mp hc)
  rw [trimEnds, dropWhile_eq_self h, dropWhile_eq_self hreverse, List.reverse_reverse]

theorem map_eq_self {f : Char → Char} {cs : List Char} (h : ∀ c ∈ cs, f c = c) :
    cs.map f = cs :=
  (List.map_congr_left h).trans (List.map_id cs)

structure Denotes (cs : List Char) (d : Decimal) : Prop where
  head : ∃ c ds, cs = c :: ds ∧ (isDigit c = true ∨ c = '.')
  chars : ∀ c ∈ cs, c ∈ numeralChars
  decimal? : decimal? cs = some d

namespace Denotes

variable {cs : List Char} {d : Decimal}

theorem splitSign_eq (h : Denotes cs d) (negative : Bool) :
    splitSign (Binary64.sign negative ++ cs) = (negative, cs) := by
  obtain ⟨c, ds, rfl, hc⟩ := h.head
  cases negative with
  | true => rfl
  | false =>
    change splitSign (c :: ds) = (false, c :: ds)
    unfold splitSign
    split
    · rename_i heq
      rw [(List.cons.inj heq).1] at hc
      exact absurd hc (by decide)
    · rename_i heq
      rw [(List.cons.inj heq).1] at hc
      exact absurd hc (by decide)
    · rfl

theorem unsigned?_eq (h : Denotes cs d) (negative : Bool) :
    unsigned? negative cs = some (d.toBinary64 negative) := by
  have hlower : cs.map Char.toLower = cs :=
    map_eq_self fun c hc => (numeralChars_facts c (h.chars c hc)).2.2.2
  have hdecimal := h.decimal?
  obtain ⟨c, ds, rfl, hc⟩ := h.head
  have hname {e : Char} (es : List Char) (he : isDigit e = false ∧ e ≠ '.') :
      String.ofList (c :: ds) ≠ String.ofList (e :: es) := by
    intro heq
    have hlist : c :: ds = e :: es := String.ofList_injective heq
    rw [(List.cons.inj hlist).1] at hc
    rcases hc with hc | hc
    · exact Bool.false_ne_true (he.1.symm.trans hc)
    · exact he.2 hc
  have hinf : String.ofList (c :: ds) ≠ "inf" := hname ['n', 'f'] (by decide)
  have hinfinity : String.ofList (c :: ds) ≠ "infinity" :=
    hname ['n', 'f', 'i', 'n', 'i', 't', 'y'] (by decide)
  have hnan : String.ofList (c :: ds) ≠ "nan" := hname ['a', 'n'] (by decide)
  rw [unsigned?, hlower, if_neg (not_or.mpr ⟨hinf, hinfinity⟩), if_neg hnan, hdecimal,
    Option.map_some, nearest_eq]

theorem read?_eq (h : Denotes cs d) (negative : Bool) :
    read? (Binary64.sign negative ++ cs) = some (d.toBinary64 negative) := by
  have hsign : ∀ c ∈ Binary64.sign negative, c ∈ numeralChars := by
    cases negative with
    | true =>
      rintro c (_ | ⟨_, ⟨⟩⟩)
      decide
    | false => nofun
  have hfacts : ∀ c ∈ Binary64.sign negative ++ cs, isSpace c = false ∧ toAsciiDigit c = c ∧
      c ≠ '_' ∧ c.toLower = c := by
    intro c hc
    rcases List.mem_append.mp hc with hc | hc
    · exact numeralChars_facts c (hsign c hc)
    · exact numeralChars_facts c (h.chars c hc)
  have hjoin : '_' ∉ Binary64.sign negative ++ cs := fun hc => (hfacts _ hc).2.2.1 rfl
  simp only [read?, trimEnds_eq fun c hc => (hfacts c hc).1,
    map_eq_self fun c hc => (hfacts c hc).2.1, joinGroups?_eq (by decide : ' ' ≠ '_') hjoin,
    Option.bind_eq_bind, Option.bind_some, h.splitSign_eq, h.unsigned?_eq]

end Denotes

namespace Plain

variable {cs : List Char}

theorem mem_plainChars (h : Plain cs) : ∀ c ∈ cs, c ∈ plainChars := by
  intro c hc
  cases h with
  | whole hd _ => exact mem_plainChars_of_isDigit (hd c hc)
  | point hw hf _ =>
    rcases List.mem_append.mp hc with hc | hc
    · exact mem_plainChars_of_isDigit (hw c hc)
    · rcases List.mem_cons.mp hc with rfl | hc
      · decide
      · exact mem_plainChars_of_isDigit (hf c hc)

theorem head (h : Plain cs) : ∃ c ds, cs = c :: ds ∧ c ≠ '-' ∧ (isDigit c = true ∨ c = '.') := by
  have hminus {c : Char} (hc : isDigit c = true) : c ≠ '-' := by
    rintro rfl
    exact absurd hc (by decide)
  cases h with
  | whole hd hne =>
    obtain ⟨c, ds, rfl⟩ := List.exists_cons_of_ne_nil hne
    have hc := (allDigits_cons.mp hd).1
    exact ⟨c, ds, rfl, hminus hc, .inl hc⟩
  | @point whole fraction hw _ _ =>
    cases whole with
    | nil => exact ⟨'.', fraction, rfl, by decide, .inr rfl⟩
    | cons c ds =>
      have hc := (allDigits_cons.mp hw).1
      exact ⟨c, _, rfl, hminus hc, .inl hc⟩

theorem ne_nil (h : Plain cs) : cs ≠ [] := by
  obtain ⟨c, ds, rfl, -⟩ := h.head
  exact List.cons_ne_nil c ds

theorem decimal?_eq (h : Plain cs) : decimal? cs = some (Decimal.ofPlain cs) := by
  have hexact (ws fs : List Char) : (⟨(Decimal.ofDigits ws fs).digits,
      (Decimal.ofDigits ws fs).exponent + 0⟩ : Decimal) = Decimal.ofDigits ws fs := by
    rw [Int.add_zero]
  cases h with
  | whole hd hne =>
    simp only [decimal?, List.takeWhile_eq_self_iff.mpr hd, List.dropWhile_eq_nil_iff.mpr hd,
      exponent?, Option.map_some, Decimal.ofPlain_whole hd]
    rw [if_neg fun hnil => hne hnil.1, hexact]
  | @point whole fraction hw hf hne =>
    simp only [decimal?, takeWhile_digits_point hw, dropWhile_digits_point hw,
      List.takeWhile_eq_self_iff.mpr hf, List.dropWhile_eq_nil_iff.mpr hf, exponent?,
      Option.map_some, Decimal.ofPlain_point hw]
    rw [if_neg fun hnil => hne (by rw [hnil.1, hnil.2]; rfl), hexact]

theorem denotes (h : Plain cs) : Denotes cs (Decimal.ofPlain cs) where
  head := by
    obtain ⟨c, ds, heq, -, hc⟩ := h.head
    exact ⟨c, ds, heq, hc⟩
  chars c hc := List.mem_append_left _ (h.mem_plainChars c hc)
  decimal? := h.decimal?_eq

end Plain

end Numeral

theorem Binary64.ofPlain_sign {cs : List Char} (h : Numeral.Plain cs) (negative : Bool) :
    ofPlain (sign negative ++ cs) = (Decimal.ofPlain cs).toBinary64 negative := by
  obtain ⟨c, ds, rfl, hminus, -⟩ := h.head
  cases negative with
  | true =>
    change ofPlain ('-' :: c :: ds) = _
    unfold ofPlain
    split
    · rename_i es heq
      rw [(List.cons.inj heq).2]
    · rename_i hne
      exact absurd rfl (hne (c :: ds))
  | false =>
    change ofPlain (c :: ds) = _
    unfold ofPlain
    split
    · rename_i heq
      exact absurd (List.cons.inj heq).1 hminus
    · rfl

theorem Binary64.ofText_plain {cs : List Char} (h : Numeral.Plain cs) (negative : Bool) :
    ofText (String.ofList (sign negative ++ cs)) = .ok (ofPlain (sign negative ++ cs)) := by
  rw [ofText, String.toList_ofList, h.denotes.read?_eq, ofPlain_sign h]

end DeskCalculator
