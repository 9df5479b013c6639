import DeskCalculator.Proofs.Expression.Boundary
import DeskCalculator.Proofs.Keypad.Entry

namespace DeskCalculator

open Text

namespace Decimal

def InRange (d : Decimal) : Prop :=
  d.numerator * Binary64.unitsPerOne < Magnitude.outOfRange * d.denominator

def AtMost (d e : Decimal) : Prop :=
  d.numerator * e.denominator ≤ e.numerator * d.denominator

theorem isFinite_toBinary64 (negative : Bool) (d : Decimal) :
    (d.toBinary64 negative).isFinite = true ↔ d.InRange :=
  Binary64.isFinite_ofUnits (tenTo_pos _)

theorem InRange.of_atMost {d e : Decimal} (h : e.InRange) (hle : d.AtMost e) : d.InRange := by
  refine Nat.lt_of_mul_lt_mul_right (a := e.denominator) ?_
  calc d.numerator * Binary64.unitsPerOne * e.denominator
      = d.numerator * e.denominator * Binary64.unitsPerOne := by ring
    _ ≤ e.numerator * d.denominator * Binary64.unitsPerOne := Nat.mul_le_mul_right _ hle
    _ = e.numerator * Binary64.unitsPerOne * d.denominator := by ring
    _ < Magnitude.outOfRange * e.denominator * d.denominator :=
        Nat.mul_lt_mul_of_pos_right h (tenTo_pos _)
    _ = Magnitude.outOfRange * d.denominator * e.denominator := by ring

theorem numerator_ofDigits (whole fraction : List Char) :
    (ofDigits whole fraction).numerator = readDigits (whole ++ fraction) := by
  have hexponent : (-(fraction.length : Int)).toNat = 0 := by omega
  rw [numerator, ofDigits, hexponent]
  exact Nat.mul_one _

theorem denominator_ofDigits (whole fraction : List Char) :
    (ofDigits whole fraction).denominator = tenTo fraction.length := by
  rw [denominator, ofDigits, Int.neg_neg, Int.toNat_natCast]

theorem readDigits_concat (cs : List Char) (c : Char) :
    readDigits (cs ++ [c]) = readDigits cs * tenTo 1 + readDigits [c] :=
  readDigits_append cs [c]

theorem atMost_whole_concat (whole : List Char) (c : Char) :
    (ofDigits whole []).AtMost (ofDigits (whole ++ [c]) []) := by
  have hle : readDigits whole ≤ readDigits (whole ++ [c]) := by
    rw [readDigits_concat]
    exact Nat.le_add_right_of_le (Nat.le_mul_of_pos_right _ (tenTo_pos 1))
  rw [AtMost, numerator_ofDigits, numerator_ofDigits, denominator_ofDigits, denominator_ofDigits,
    List.append_nil, List.append_nil]
  exact Nat.mul_le_mul_right _ hle

theorem atMost_fraction_concat (whole fraction : List Char) (c : Char) :
    (ofDigits whole fraction).AtMost (ofDigits whole (fraction ++ [c])) := by
  rw [AtMost, numerator_ofDigits, numerator_ofDigits, denominator_ofDigits, denominator_ofDigits,
    List.length_append, List.length_singleton, ← List.append_assoc, readDigits_concat]
  calc readDigits (whole ++ fraction) * tenTo (fraction.length + 1)
      = readDigits (whole ++ fraction) * tenTo 1 * tenTo fraction.length := by
        rw [tenTo_add]
        ring
    _ ≤ (readDigits (whole ++ fraction) * tenTo 1 + readDigits [c]) * tenTo fraction.length :=
        Nat.mul_le_mul_right _ (Nat.le_add_right _ _)

theorem ofPlain_concat_point {cs : List Char} (h : Unsigned cs) (hpoint : '.' ∉ cs) :
    ofPlain (cs ++ ['.']) = ofPlain cs := by
  cases h with
  | whole hw => rw [ofPlain_point hw.allDigits, ofPlain_whole hw.allDigits]
  | point hw hf => exact absurd (by simp) hpoint

theorem atMost_dropLast {cs : List Char} (h : Unsigned cs) :
    (ofPlain cs.dropLast).AtMost (ofPlain cs) := by
  cases h with
  | whole hw =>
    rcases cs.eq_nil_or_concat' with rfl | ⟨whole, c, rfl⟩
    · exact absurd rfl hw.ne_nil
    · have hprefix : AllDigits whole := hw.allDigits.of_prefix (List.prefix_append _ _)
      rw [List.dropLast_concat, ofPlain_whole hprefix, ofPlain_whole hw.allDigits]
      exact atMost_whole_concat whole c
  | @point whole fraction hw hf =>
    rcases fraction.eq_nil_or_concat' with rfl | ⟨fraction, c, rfl⟩
    · rw [List.dropLast_concat, ofPlain_point hw.allDigits, ofPlain_whole hw.allDigits]
      exact Nat.le_refl _
    · have hassoc : whole ++ '.' :: (fraction ++ [c]) = (whole ++ '.' :: fraction) ++ [c] := by
        simp
      rw [ofPlain_point hw.allDigits, hassoc, List.dropLast_concat, ofPlain_point hw.allDigits]
      exact atMost_fraction_concat whole fraction c

end Decimal

namespace Unsigned

variable {cs : List Char}

theorem secondPoint?_eq_none (h : Unsigned cs) : secondPoint? cs = none := by
  have hpoint {ds : List Char} (hd : AllDigits ds) : ∀ c ∈ ds, (c != '.') = true :=
    fun c hc => by simpa using hd.ne_point c hc
  cases h with
  | whole hw =>
    rw [secondPoint?, List.takeWhile_eq_self_iff.mpr (hpoint hw.allDigits)]
    simp
  | @point whole fraction hw hf =>
    have hnone : '.' ∉ fraction := fun hmem => hf.ne_point _ hmem rfl
    rw [secondPoint?, List.takeWhile_append_of_pos (hpoint hw.allDigits)]
    simp [hnone]

theorem numeralLexeme_eq (h : Unsigned cs) (position : Nat) : numeralLexeme position cs =
    if (Binary64.ofPlain cs).isFinite then .ok (.number (.ofPlain cs))
    else .error (.overflow (.numeral position cs.length)) := by
  rw [numeralLexeme, h.secondPoint?_eq_none]
  exact if_neg h.ne_point

end Unsigned

namespace Operand

def decimal (o : Operand) : Decimal :=
  .ofPlain (o.chars.dropWhile (· == '-'))

def InRange (o : Operand) : Prop :=
  o.decimal.InRange

variable {o p : Operand} {ds : List Char} {negative : Bool}

theorem decimal_eq (hds : Unsigned ds) (h : o.chars = Binary64.sign negative ++ ds) :
    o.decimal = .ofPlain ds := by
  have hrest : ds.dropWhile (· == '-') = ds :=
    dropWhile_eq_self fun c hc => by simpa using fun heq : c = '-' => hds.not_mem_minus (heq ▸ hc)
  have hchars : o.chars.dropWhile (· == '-') = ds := by
    rw [h]
    cases negative with
    | true => exact hrest
    | false => exact hrest
  rw [decimal, hchars]

theorem isFinite_value_iff (o : Operand) : o.value.isFinite = true ↔ o.InRange := by
  obtain ⟨negative, ds, hds, hchars⟩ := isOperand_iff.mp o.isOperand_chars
  rw [InRange, decimal_eq hds hchars, value, hchars, Binary64.ofPlain_sign hds.plain]
  exact Decimal.isFinite_toBinary64 negative _

theorem inRange_zero : zero.InRange :=
  (isFinite_value_iff zero).mp (by decide +kernel)

theorem ofValue_of_not_isFinite {x : Binary64} (hx : x.isFinite = false) :
    ofValue (.real x) = .error (.fault (.overflow (.display x))) := by
  cases x with
  | nan => rfl
  | infinite s => rfl
  | finite s m => cases hx

theorem inRange_of_ofValue {x : Binary64} (h : ofValue (.real x) = .ok o) : o.InRange :=
  (isFinite_value_iff o).mp (isFinite_of_ofValue h)

theorem InRange.concat_point (h : o.InRange) (hpoint : o.hasPoint = false)
    (hp : p.chars = o.chars ++ ['.']) : p.InRange := by
  obtain ⟨negative, ds, hds, hnone, hchars⟩ := exists_unsigned_of_not_hasPoint hpoint
  have hpchars : p.chars = Binary64.sign negative ++ (ds ++ ['.']) := by
    rw [hp, hchars, List.append_assoc]
  rw [InRange, decimal_eq (hds.append_point hnone) hpchars,
    Decimal.ofPlain_concat_point hds hnone, ← decimal_eq hds hchars]
  exact h

theorem InRange.dropLast (h : o.InRange)
    (hp : p.chars = if o.chars.dropLast = [] ∨ o.chars.dropLast = ['-'] then ['0']
      else o.chars.dropLast) : p.InRange := by
  split at hp
  · rw [← isFinite_value_iff, value, hp]
    decide +kernel
  · rename_i hlong
    obtain ⟨negative, ds, hds, hshort, hchars, hlast⟩ := exists_unsigned_dropLast hlong
    have hall : (Decimal.ofPlain ds).InRange := decimal_eq hds hchars ▸ h
    rw [InRange, decimal_eq hshort (hp.trans hlast)]
    exact hall.of_atMost (Decimal.atMost_dropLast hds)

end Operand

structure State.InRange (s : State) : Prop where
  current : s.current.InRange
  previous : ∀ o, s.previous = some o → o.InRange

namespace State.InRange

variable {s t : State} {decimals : Int}

theorem initial : State.initial.InRange where
  current := Operand.inRange_zero
  previous := nofun

theorem showing (h : s.InRange) {o : Operand} (ho : o.InRange) (reset : Bool) :
    (s.showing o reset).InRange where
  current := ho
  previous := h.previous

theorem resolved {o : Operand} (ho : o.InRange) (echo : String) :
    (State.resolved o echo).InRange where
  current := ho
  previous := nofun

theorem awaiting {o : Operand} (ho : o.InRange) (op : Operator) :
    (State.awaiting o op).InRange where
  current := ho
  previous := by
    rintro p ⟨⟩
    exact ho

theorem evaluate (h : s.InRange) (ht : s.evaluate decimals = .ok t) : t.InRange := by
  rcases evaluate_cases ht with ⟨p, op, o, -, -, ho, rfl⟩ | ⟨-, rfl⟩
  · obtain ⟨rounded, hvalue⟩ := Operator.ofValue_of_compute ho
    exact resolved (Operand.inRange_of_ofValue hvalue) ""
  · exact h

theorem of_takes {action : Action} (h : s.InRange) (ht : s.Takes decimals action t)
    (hentry : ∀ text, action = .digit text → t.current.InRange) : t.InRange := by
  cases ht with
  | digit _ _ _ => exact h.showing (hentry _ rfl) false
  | nextDigit _ _ _ _ => exact h.showing (hentry _ rfl) false
  | @point o _ ho =>
    have hzero : o.value.isFinite = true := by
      rw [Operand.value, ho]
      decide +kernel
    exact h.showing ((Operand.isFinite_value_iff o).mp hzero) false
  | nextPoint _ hpoint ho => exact h.showing (h.current.concat_point hpoint ho) false
  | noPoint => exact h
  | operator _ hr => exact awaiting (h.evaluate hr).current _
  | equals hr => exact h.evaluate hr
  | percent _ _ hr => exact h.evaluate hr
  | share _ ho => exact h.showing (Operand.inRange_of_ofValue ho) _
  | reciprocal _ ho => exact h.showing (Operand.inRange_of_ofValue ho) true
  | clear => exact .initial
  | backspace ho => exact h.showing (h.current.dropLast ho) _
  | constant _ ho => exact h.showing (Operand.inRange_of_ofValue ho) true
  | blank _ hr => exact h.evaluate hr
  | @submit text v o _ hv ho =>
    have hvalue := settles_evaluateText (String.ofList (trim text.toList))
    rw [hv] at hvalue
    obtain ⟨x, rfl, -⟩ := hvalue
    exact resolved (Operand.inRange_of_ofValue ho) _

end State.InRange

theorem Binary64.div_infinite {x : Binary64} (hx : x.isFinite = true) (negative : Bool) :
    ∃ sign, x / .infinite negative = zero sign := by
  cases x with
  | finite s m => exact ⟨s != negative, rfl⟩
  | nan => cases hx
  | infinite s => cases hx

theorem State.reciprocal_infinite {s : State} {negative : Bool}
    (h : s.current.value = .infinite negative) :
    s.reciprocal = .ok { s with current := .zero, resetOnNextDigit := true, echo := "" } := by
  obtain ⟨sign, hzero⟩ := Binary64.div_infinite Binary64.isFinite_one negative
  have hshown : Operand.ofValue (.real (.zero sign)) = .ok .zero := rfl
  have hne : ¬(Binary64.infinite negative).isZero = true := Bool.false_ne_true
  unfold State.reciprocal
  simp only [h, hzero, hshown, if_neg hne, ok_bind, pure_eq_ok]

namespace Session

theorem inRange_perform {s : Session} {action : Action} (h : s.state.InRange)
    (hentry : ∀ text, action = .digit text →
      (s.perform action).session.state.current.InRange) :
    (s.perform action).session.state.InRange := by
  rcases s.state_perform action with ht | hclears | hkeeps
  · exact h.of_takes (State.takes_of_transition ht) hentry
  · rw [hclears]
    exact .initial
  · rwa [hkeeps]

theorem inRange_run {s : Session} {actions : List Action} (h : s.state.InRange)
    (hentries : ∀ before text, before ++ [.digit text] <+: actions →
      (s.run (before ++ [.digit text])).state.current.InRange) :
    (s.run actions).state.InRange := by
  -- The entries of a run's start are entries of the run.
  induction actions using List.reverseRecOn with
  | nil => exact h
  | append_singleton before action ih =>
    have hbefore : (s.run before).state.InRange :=
      ih fun first text hp => hentries first text (hp.trans (List.prefix_append _ _))
    rw [run_concat]
    refine inRange_perform hbefore ?_
    rintro text rfl
    rw [← run_concat]
    exact hentries before text (List.prefix_refl _)

/-- The operands stay finite through a run exactly if no digit makes the one that is being typed
a number beyond the range. A computed number beyond it is refused, and so is the text of such an
operand where it stands in an expression. -/
theorem run_finite_iff (decimals : Int) (actions : List Action) :
    ((∀ before, before <+: actions →
      let s := ((start decimals).run before).state
      s.current.value.isFinite = true ∧
        ∀ o, s.previous = some o → o.value.isFinite = true) ↔
    ∀ before text, before ++ [.digit text] <+: actions →
      ((start decimals).run (before ++ [.digit text])).state.current.InRange) ∧
    (∀ x : Binary64, x.isFinite = false →
      Operand.ofValue (.real x) = .error (.fault (.overflow (.display x)))) ∧
    ∀ (e : Entry) (position : Nat), ¬e.operand.InRange →
      numeralLexeme position e.text.toList =
        .error (.overflow (.numeral position e.text.toList.length)) := by
  refine ⟨⟨fun h before text hp => ?_, fun h before hbefore => ?_⟩, fun x hx => ?_,
    fun e position hrange => ?_⟩
  · exact (Operand.isFinite_value_iff _).mp (h _ hp).1
  · have hrun : ((start decimals).run before).state.InRange :=
      inRange_run (s := start decimals) .initial fun first text hp =>
        h first text (hp.trans hbefore)
    exact ⟨(Operand.isFinite_value_iff _).mpr hrun.current,
      fun o ho => (Operand.isFinite_value_iff o).mpr (hrun.previous o ho)⟩
  · exact Operand.ofValue_of_not_isFinite hx
  · have hinfinite : ¬(Binary64.ofPlain e.text.toList).isFinite = true := fun hfinite =>
      hrange ((Operand.isFinite_value_iff e.operand).mp hfinite)
    rw [e.unsigned.numeralLexeme_eq, if_neg hinfinite]

theorem run_infinite_of_nines :
    ∃ nines : Entry, nines.text.toList = List.replicate 309 '9' ∧
      (start 8).Quiet (nines.keys ++ [.reciprocal]) ∧
      ((start 8).run nines.keys).state.current.value = .infinite false ∧
      ((start 8).run (nines.keys ++ [.reciprocal])).state.display = "0" := by
  have hnines : isUnsignedOperand (List.replicate 309 '9') = true := by decide +kernel
  have hvalue : Binary64.ofPlain (List.replicate 309 '9') = .infinite false := by decide +kernel
  have htext : (String.ofList (List.replicate 309 '9')).toList = List.replicate 309 '9' :=
    String.toList_ofList
  obtain ⟨nines, hchars⟩ : ∃ e : Entry, e.text.toList = List.replicate 309 '9' :=
    ⟨⟨_, htext.symm ▸ hnines⟩, htext⟩
  have hinfinite : nines.operand.value = .infinite false := by
    rw [← hvalue, ← hchars]
    rfl
  have hkeys : State.initial.afterAll 8 nines.keys = .ok (State.initial.typing nines.operand) :=
    nines.afterAll_keys 8 (.inr rfl)
  have hreciprocal : Action.reciprocal.transition 8 (State.initial.typing nines.operand) =
      .ok ⟨.zero, none, none, true, ""⟩ :=
    State.reciprocal_infinite hinfinite
  have hall : State.initial.afterAll 8 (nines.keys ++ [.reciprocal]) =
      .ok ⟨.zero, none, none, true, ""⟩ := by
    rw [State.afterAll_append hkeys, State.afterAll_cons hreciprocal]
    rfl
  refine ⟨nines, hchars, quiet_of_afterAll (s := start 8) hall, ?_, ?_⟩
  · rw [run_of_afterAll (s := start 8) hkeys]
    exact hinfinite
  · rw [run_of_afterAll (s := start 8) hall]
    rfl

end Session

end DeskCalculator
