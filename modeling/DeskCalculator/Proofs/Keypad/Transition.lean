import DeskCalculator.Proofs.Keypad.Resolution

namespace DeskCalculator

namespace State

def showing (s : State) (o : Operand) (reset : Bool) : State :=
  { s with current := o, resetOnNextDigit := reset, echo := "" }

def typing (s : State) (o : Operand) : State :=
  s.showing o false

def resolved (o : Operand) (echo : String) : State :=
  ⟨o, none, none, true, echo⟩

def awaiting (o : Operand) (op : Operator) : State :=
  ⟨o, some o, some op, true, ""⟩

inductive Takes (decimals : Int) (s : State) : Action → State → Prop where
  | digit {d o} : Text.isDigit d = true →
      s.resetOnNextDigit = true ∨ s.current.chars = ['0'] → o.chars = [d] →
      Takes decimals s (.digit (String.singleton d)) (s.typing o)
  | nextDigit {d o} : Text.isDigit d = true → s.resetOnNextDigit = false →
      s.current.chars ≠ ['0'] → o.chars = s.current.chars ++ [d] →
      Takes decimals s (.digit (String.singleton d)) (s.typing o)
  | point {o} : s.resetOnNextDigit = true → o.chars = ['0', '.'] →
      Takes decimals s .point (s.typing o)
  | nextPoint {o} : s.resetOnNextDigit = false → s.current.hasPoint = false →
      o.chars = s.current.chars ++ ['.'] → Takes decimals s .point (s.typing o)
  | noPoint : s.resetOnNextDigit = false → s.current.hasPoint = true →
      Takes decimals s .point s
  | operator {name op r} : Operator.ofName name = .ok op → s.evaluate decimals = .ok r →
      Takes decimals s (.operator name) (awaiting r.current op)
  | equals {r} : s.evaluate decimals = .ok r → Takes decimals s .equals r
  | percent {r} : s.previous.isSome → s.pending.isSome → s.evaluate decimals = .ok r →
      Takes decimals s .percent r
  | share {o} : s.previous = none ∨ s.pending = none →
      Operand.ofValue (.real (s.current.value / .ofNat 100)) = .ok o →
      Takes decimals s .percent (s.showing o s.resetOnNextDigit)
  | reciprocal {o} : s.current.value.isZero = false →
      Operand.ofValue (.real (.one / s.current.value)) = .ok o →
      Takes decimals s .reciprocal (s.showing o true)
  | clear : Takes decimals s .clear .initial
  | backspace {o} : o.chars = (if s.current.chars.dropLast = [] ∨ s.current.chars.dropLast = ['-']
      then ['0'] else s.current.chars.dropLast) →
      Takes decimals s .backspace (s.showing o s.resetOnNextDigit)
  | constant {name x o} : constant? name = some x → Operand.ofValue (.real x) = .ok o →
      Takes decimals s (.constant name) (s.showing o true)
  | blank {text r} : Text.trim text.toList = [] → s.evaluate decimals = .ok r →
      Takes decimals s (.submit text) r
  | submit {text x o} : Text.trim text.toList ≠ [] →
      evaluateText (String.ofList (Text.trim text.toList)) = .ok x → Operand.ofValue x = .ok o →
      Takes decimals s (.submit text) (resolved o (String.ofList (Text.trim text.toList) ++ " ="))

section Inversion

variable {s t : State} {decimals : Int}

theorem evaluate_cases (h : s.evaluate decimals = .ok t) :
    (∃ p op o, s.previous = some p ∧ s.pending = some op ∧
      op.compute decimals p.value s.current.value = .ok o ∧ t = resolved o "") ∨
    (s.previous = none ∨ s.pending = none) ∧ t = s := by
  cases hprevious : s.previous with
  | none =>
    refine .inr ⟨.inl rfl, ?_⟩
    rw [evaluate, hprevious] at h
    exact (Except.ok.inj h).symm
  | some p =>
    cases hpending : s.pending with
    | none =>
      rw [evaluate_of_not_pending hpending] at h
      exact .inr ⟨.inr rfl, (Except.ok.inj h).symm⟩
    | some op =>
      rw [evaluate_pending hprevious hpending] at h
      obtain ⟨o, ho, hreturn⟩ := bind_eq_ok h
      exact .inl ⟨p, op, o, rfl, rfl, ho, (Except.ok.inj hreturn).symm⟩

theorem takes_appendDigit {text : String} (h : s.appendDigit text = .ok t) :
    Takes decimals s (.digit text) t := by
  unfold appendDigit at h
  split at h
  · rename_i d htext
    have hsingleton : text = String.singleton d :=
      String.toList_injective (htext.trans (String.toList_singleton d).symm)
    rw [hsingleton]
    split at h
    · rename_i hdigit
      obtain ⟨o, ho, hreturn⟩ := bind_eq_ok h
      rw [← Except.ok.inj hreturn]
      have hchars := chars_of_ofChars ho
      split at hchars
      · rename_i hreplaces
        exact .digit hdigit (by simpa using hreplaces) hchars
      · rename_i hkeeps
        simp only [Bool.or_eq_true, decide_eq_true_eq, not_or, Bool.not_eq_true] at hkeeps
        exact .nextDigit hdigit hkeeps.1 hkeeps.2 hchars
    · cases h
  · cases h

theorem takes_appendPoint (h : s.appendPoint = .ok t) : Takes decimals s .point t := by
  unfold appendPoint at h
  split at h
  · rename_i hreset
    obtain ⟨o, ho, hreturn⟩ := bind_eq_ok h
    rw [← Except.ok.inj hreturn]
    exact .point hreset (chars_of_ofChars ho)
  · rename_i hreset
    have hkeeps : s.resetOnNextDigit = false := Bool.eq_false_of_not_eq_true hreset
    split at h
    · rename_i hpoint
      rw [← Except.ok.inj h]
      exact .noPoint hkeeps hpoint
    · rename_i hpoint
      obtain ⟨o, ho, hreturn⟩ := bind_eq_ok h
      have hnext : s.typing o = t := by
        rw [← Except.ok.inj hreturn, typing, showing, hkeeps]
      rw [← hnext]
      exact .nextPoint hkeeps (Bool.eq_false_of_not_eq_true hpoint) (chars_of_ofChars ho)

theorem takes_percent (h : s.percent decimals = .ok t) : Takes decimals s .percent t := by
  unfold percent at h
  split at h
  · rename_i hprevious hpending
    exact .percent (Option.isSome_of_eq_some hprevious) (Option.isSome_of_eq_some hpending) h
  · rename_i hnone
    obtain ⟨o, ho, hreturn⟩ := bind_eq_ok h
    rw [← Except.ok.inj hreturn]
    refine .share ?_ ho
    cases hprevious : s.previous with
    | none => exact .inl rfl
    | some p =>
      cases hpending : s.pending with
      | none => exact .inr rfl
      | some op => exact absurd hpending (hnone p op hprevious)

theorem takes_reciprocal (h : s.reciprocal = .ok t) : Takes decimals s .reciprocal t := by
  unfold reciprocal at h
  dsimp only at h
  generalize hquotient : Binary64.one / s.current.value = y at h
  split at h
  · cases h
  · rename_i hzero
    obtain ⟨o, ho, hreturn⟩ := bind_eq_ok h
    rw [← Except.ok.inj hreturn]
    exact .reciprocal (Bool.eq_false_of_not_eq_true hzero) (hquotient ▸ ho)

theorem takes_insertConstant {name : String} (h : s.insertConstant name = .ok t) :
    Takes decimals s (.constant name) t := by
  unfold insertConstant at h
  split at h
  · cases h
  · rename_i x hx
    obtain ⟨o, ho, hreturn⟩ := bind_eq_ok h
    rw [← Except.ok.inj hreturn]
    exact .constant hx ho

theorem takes_submit {text : String} (h : s.submit text decimals = .ok t) :
    Takes decimals s (.submit text) t := by
  unfold submit at h
  dsimp only at h
  split at h
  · rename_i hblank
    exact .blank hblank h
  · rename_i htext
    obtain ⟨x, hx, hrest⟩ := bind_eq_ok h
    obtain ⟨o, ho, hreturn⟩ := bind_eq_ok hrest
    rw [← Except.ok.inj hreturn]
    exact .submit htext hx ho

theorem takes_of_transition {action : Action} (h : action.transition decimals s = .ok t) :
    Takes decimals s action t := by
  cases action with
  | digit text => exact takes_appendDigit h
  | point => exact takes_appendPoint h
  | operator name =>
    obtain ⟨op, hop, hrest⟩ := bind_eq_ok h
    obtain ⟨r, hr, hreturn⟩ := bind_eq_ok hrest
    rw [← Except.ok.inj hreturn]
    exact .operator hop hr
  | equals => exact .equals h
  | percent => exact takes_percent h
  | reciprocal => exact takes_reciprocal h
  | clear =>
    rw [← Except.ok.inj h]
    exact .clear
  | backspace =>
    obtain ⟨o, ho, hreturn⟩ := bind_eq_ok h
    rw [← Except.ok.inj hreturn]
    exact .backspace (chars_of_ofChars ho)
  | constant name => exact takes_insertConstant h
  | submit text => exact takes_submit h

theorem ofChars_chars {o : Operand} {cs : List Char} (h : o.chars = cs) :
    Operand.ofChars cs = .ok o := by
  subst h
  exact Operand.ofChars_eq o.isOperand_chars

theorem appendDigit_eq {d : Char} {o : Operand} (hd : Text.isDigit d = true)
    (ho : o.chars = if s.resetOnNextDigit || s.current.chars = ['0'] then [d]
      else s.current.chars ++ [d]) :
    s.appendDigit (String.singleton d) = .ok (s.typing o) := by
  unfold appendDigit
  simp only [String.toList_singleton, hd, if_true, ofChars_chars ho, ok_bind]
  rfl

theorem percent_eq (h : s.previous = none ∨ s.pending = none) : s.percent decimals =
    Operand.ofValue (.real (s.current.value / .ofNat 100)) >>= fun o =>
      .ok (s.showing o s.resetOnNextDigit) := by
  unfold percent
  split
  · rename_i hprevious hpending
    rcases h with hnone | hnone
    · cases hprevious.symm.trans hnone
    · cases hpending.symm.trans hnone
  · rfl

theorem percent_eq_evaluate (hprevious : s.previous.isSome) (hpending : s.pending.isSome) :
    s.percent decimals = s.evaluate decimals := by
  obtain ⟨p, hp⟩ := Option.isSome_iff_exists.mp hprevious
  obtain ⟨op, hop⟩ := Option.isSome_iff_exists.mp hpending
  simp only [percent, hp, hop]

theorem transition_of_takes {action : Action} (h : Takes decimals s action t) :
    action.transition decimals s = .ok t := by
  cases h with
  | @digit d o hd hs ho => exact appendDigit_eq hd (by simpa [hs] using ho)
  | @nextDigit d o hd hreset hne ho => exact appendDigit_eq hd (by simpa [hreset, hne] using ho)
  | @point o hreset ho =>
    change s.appendPoint = _
    rw [appendPoint, if_pos hreset, ofChars_chars ho]
    rfl
  | @nextPoint o hreset hpoint ho =>
    change s.appendPoint = _
    simp only [appendPoint, hreset, hpoint, Bool.false_eq_true, if_false, ofChars_chars ho, ok_bind]
    rfl
  | noPoint hreset hpoint =>
    change s.appendPoint = _
    rw [appendPoint, hreset, hpoint]
    rfl
  | @operator name op r hop hr =>
    change Operator.ofName name >>= _ = _
    rw [hop, ok_bind, chooseOperator, hr]
    rfl
  | equals hr => exact hr
  | percent hprevious hpending hr => exact (percent_eq_evaluate hprevious hpending).trans hr
  | @share o hnone ho =>
    change s.percent decimals = _
    rw [percent_eq hnone, ho, ok_bind]
  | @reciprocal o hzero ho =>
    change s.reciprocal = _
    simp only [State.reciprocal, hzero, ho, Bool.false_eq_true, if_false, ok_bind]
    rfl
  | clear => rfl
  | @backspace o ho =>
    change s.backspace = _
    rw [State.backspace, ofChars_chars ho]
    rfl
  | @constant name x o hx ho =>
    change s.insertConstant name = _
    simp only [insertConstant, hx, ho, ok_bind]
    rfl
  | @blank text r hblank hr =>
    change s.submit text decimals = _
    simp only [State.submit, hblank, if_true, hr]
  | @submit text x o htext hx ho =>
    change s.submit text decimals = _
    simp only [State.submit, htext, if_false, hx, ho, ok_bind]
    rfl

theorem transition_iff_takes {action : Action} :
    action.transition decimals s = .ok t ↔ Takes decimals s action t :=
  ⟨takes_of_transition, transition_of_takes⟩

end Inversion

end State

end DeskCalculator
