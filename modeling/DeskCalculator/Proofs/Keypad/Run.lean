import DeskCalculator.Proofs.Expression.Boundary
import DeskCalculator.Proofs.Keypad.Invariant
import DeskCalculator.Proofs.Number.HalfUp

namespace DeskCalculator

inductive Action.WellFormed : Action → Prop where
  | digit {d} : Text.isDigit d = true → WellFormed (.digit (String.singleton d))
  | point : WellFormed .point
  | operator (op : Operator) : WellFormed (.operator op.name)
  | equals : WellFormed .equals
  | percent : WellFormed .percent
  | reciprocal : WellFormed .reciprocal
  | clear : WellFormed .clear
  | backspace : WellFormed .backspace
  | constant {name} : name ∈ ["pi", "π", "e"] → WellFormed (.constant name)
  | submit (text : String) : WellFormed (.submit text)

theorem Operator.ofName_name (op : Operator) : Operator.ofName op.name = .ok op := by
  cases op <;> rfl

section Computing

theorem Number.div_real (x : Binary64) (n : Number) :
    Number.div (.real x) n = n.toBinary64 >>= fun y =>
      if y.isZero then .error (.misuse .zeroDivisor) else .ok (x / y) := by
  simp only [Number.div, Number.toBinary64_real, ok_bind, pure_eq_ok]

theorem Quantity.div_hundred (x : Binary64) :
    (ofReal x).div (.ofInt 100) = .ok (x / .ofInt 100) := by
  have hfinite : (Binary64.ofInt 100).isFinite = true := by decide +kernel
  have hzero : ¬(Binary64.ofInt 100).isZero = true := by decide +kernel
  change Number.div (.real x) (.int 100) = _
  rw [Number.div_real, Number.toBinary64_int hfinite, ok_bind, if_neg hzero]

theorem settles_apply (op : Operator) (x y : Binary64) :
    Settles Number.IsFiniteReal (op.apply (.real x) (.real y)) := by
  cases op with
  | add => exact (reckons_operation .plus x y).settles
  | subtract => exact (reckons_operation .minus x y).settles
  | multiply => exact (reckons_operation .times x y).settles
  | divide => exact (reckons_operation .over x y).settles
  | percent =>
    simp only [Operator.apply, Value.quantity_real, Quantity.div_hundred, ok_bind]
    exact (reckons_operation .times x _).settles

end Computing

section Transitions

variable {s : State} {decimals : Int}

theorem settles_ofChars {cs : List Char} (h : isOperand cs = true) :
    Settles (fun _ => True) (Operand.ofChars cs) := by
  rw [Operand.ofChars_eq h]
  trivial

theorem settles_shown (x : Binary64) (f : Operand → State) :
    Settles (fun _ => True) (Operand.ofValue (.real x) >>= fun o => pure (f o)) :=
  (settles_ofValue x).bind fun _ _ => trivial

theorem settles_appendDigit {d : Char} (hd : Text.isDigit d = true) (h : s.Coherent) :
    Settles (fun _ => True) (s.appendDigit (String.singleton d)) := by
  have hdigit : Text.AllDigits [d] := Text.allDigits_cons.mpr ⟨hd, Text.allDigits_nil⟩
  have hone : Unsigned [d] := by
    by_cases hzero : d = '0'
    · rw [hzero]
      exact .whole .zero
    · exact .whole (.digits hzero hdigit)
  have hchars : Unsigned (if s.resetOnNextDigit || s.current.chars = ['0'] then [d]
      else s.current.chars ++ [d]) := by
    split
    · exact hone
    · rename_i hkeeps
      simp only [Bool.or_eq_true, decide_eq_true_eq, not_or, Bool.not_eq_true] at hkeeps
      exact (h.unsigned hkeeps.1).append_digits hkeeps.2 hdigit
  unfold State.appendDigit
  simp only [String.toList_singleton, hd, if_true]
  exact (settles_ofChars (isOperand_iff.mpr ⟨false, _, hchars, rfl⟩)).bind fun o _ => trivial

theorem settles_appendPoint (s : State) : Settles (fun _ => True) s.appendPoint := by
  unfold State.appendPoint
  split
  · exact (settles_ofChars (by decide)).bind fun o _ => trivial
  · split
    · trivial
    · rename_i hpoint
      obtain ⟨negative, ds, hds, hnone, hchars⟩ :=
        Operand.exists_unsigned_of_not_hasPoint (Bool.eq_false_of_not_eq_true hpoint)
      refine (settles_ofChars ?_).bind fun o _ => trivial
      refine isOperand_iff.mpr ⟨negative, ds ++ ['.'], hds.append_point hnone, ?_⟩
      rw [hchars, List.append_assoc]

theorem settles_evaluate (s : State) (h0 : 0 ≤ decimals) (h15 : decimals ≤ 15) :
    Settles (fun _ => True) (s.evaluate decimals) := by
  unfold State.evaluate
  split
  · rename_i previous op _ _
    refine (settles_apply op previous.value s.current.value).bind ?_
    rintro n ⟨x, rfl, -⟩
    rw [Number.quantity_real, Quantity.roundHalfUp_ofReal x h0 h15]
    exact settles_shown _ _
  · trivial

theorem settles_percent (s : State) (h0 : 0 ≤ decimals) (h15 : decimals ≤ 15) :
    Settles (fun _ => True) (s.percent decimals) := by
  unfold State.percent
  split
  · exact settles_evaluate s h0 h15
  · exact settles_shown _ _

theorem settles_reciprocal (s : State) : Settles (fun _ => True) s.reciprocal := by
  unfold State.reciprocal
  dsimp only
  -- As a variable, the quotient is not evaluated.
  generalize Binary64.one / s.current.value = y
  split
  · exact Fault.ofExpression_divisionByZero _
  · exact settles_shown _ _

theorem settles_backspace (s : State) : Settles (fun _ => True) s.backspace := by
  refine (settles_ofChars ?_).bind fun o _ => trivial
  split
  · rfl
  · rename_i hlong
    obtain ⟨negative, ds, -, hshort, -, hlast⟩ := Operand.exists_unsigned_dropLast hlong
    exact isOperand_iff.mpr ⟨negative, ds.dropLast, hshort, hlast⟩

theorem settles_insertConstant {name : String} (s : State) (h : name ∈ ["pi", "π", "e"]) :
    Settles (fun _ => True) (s.insertConstant name) := by
  have hknown : ∃ x, constant? name = some x := by
    simp only [List.mem_cons, List.not_mem_nil, or_false] at h
    rcases h with rfl | rfl | rfl <;> exact ⟨_, rfl⟩
  obtain ⟨x, hx⟩ := hknown
  simp only [State.insertConstant, hx]
  exact settles_shown x _

theorem settles_submit (s : State) (text : String) (h0 : 0 ≤ decimals) (h15 : decimals ≤ 15) :
    Settles (fun _ => True) (s.submit text decimals) := by
  unfold State.submit
  dsimp only
  split
  · exact settles_evaluate s h0 h15
  · refine (settles_evaluateText _).bind ?_
    rintro v ⟨x, rfl, -⟩
    exact settles_shown x _

theorem settles_transition {action : Action} (h : s.Coherent) (hw : action.WellFormed)
    (h0 : 0 ≤ decimals) (h15 : decimals ≤ 15) :
    Settles (fun _ => True) (action.transition decimals s) := by
  cases hw with
  | digit hd => exact settles_appendDigit hd h
  | point => exact settles_appendPoint s
  | operator op =>
    simp only [Action.transition, Operator.ofName_name, ok_bind]
    exact (settles_evaluate s h0 h15).bind fun t _ => trivial
  | equals => exact settles_evaluate s h0 h15
  | percent => exact settles_percent s h0 h15
  | reciprocal => exact settles_reciprocal s
  | clear => trivial
  | backspace => exact settles_backspace s
  | constant hname => exact settles_insertConstant s hname
  | submit text => exact settles_submit s text h0 h15

end Transitions

namespace Session

theorem decimals_perform (s : Session) (action : Action) :
    (s.perform action).session.decimals = s.decimals := by
  unfold perform
  split
  · rfl
  · split <;> rfl
  · rfl

theorem decimals_run (s : Session) (actions : List Action) :
    (s.run actions).decimals = s.decimals := by
  induction actions generalizing s with
  | nil => rfl
  | cons action actions ih => exact (ih _).trans (decimals_perform s action)

theorem exists_update {s : Session} {action : Action}
    (h : Settles (fun _ => True) (action.transition s.decimals s.state)) :
    ∃ u, (s.perform action).update = .ok u := by
  rcases h.cases with ⟨after, -, ht⟩ | ⟨fault, -, ht⟩
  · rw [perform_ok ht]
    exact ⟨_, rfl⟩
  · cases hc : clears action fault with
    | true =>
      rw [perform_clears ht hc]
      exact ⟨_, rfl⟩
    | false =>
      rw [perform_keeps ht hc]
      exact ⟨_, rfl⟩

/-- No sequence of actions makes a session fail: after any of them, every well-formed action is
answered by an update. Every operand has the form of operands and is read as its value, and every
number can be rounded. -/
theorem run_answers {decimals : Int} (h0 : 0 ≤ decimals) (h15 : decimals ≤ 15) :
    (∀ (actions : List Action) (action : Action), action.WellFormed →
      ∃ u, (((start decimals).run actions).perform action).update = .ok u) ∧
    (∀ o : Operand,
      (∃ negative ds, Unsigned ds ∧ o.chars = Binary64.sign negative ++ ds) ∧
        Binary64.ofText o.text = .ok o.value) ∧
    ∀ x : Binary64, ∃ y, (Quantity.ofReal x).roundHalfUp (.int decimals) = .ok y ∧
      (x.isFinite = true → y.isFinite = true) := by
  refine ⟨fun actions action hw => ?_,
    fun o => ⟨isOperand_iff.mp o.isOperand_chars, o.ofText_text⟩,
    fun x => ⟨_, Quantity.roundHalfUp_ofReal x h0 h15, fun hx => Binary64.isFinite_rounded hx _⟩⟩
  have hcoherent := coherent_run (s := start decimals) .initial actions
  have hdecimals : ((start decimals).run actions).decimals = decimals := decimals_run _ actions
  exact exists_update (settles_transition hcoherent hw (by rwa [hdecimals]) (by rwa [hdecimals]))

theorem run_answers_digit_after_minus :
    ∃ u, (((start 8).run [.submit "0-5", .backspace]).perform
      (.digit (String.singleton '7'))).update = .ok u :=
  (run_answers (by decide) (by decide)).1 [.submit "0-5", .backspace] _ (.digit (by decide))

end Session

end DeskCalculator
