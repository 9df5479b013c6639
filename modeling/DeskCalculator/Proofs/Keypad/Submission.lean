import DeskCalculator.Proofs.Expression.Boundary
import DeskCalculator.Proofs.Expression.Placement
import DeskCalculator.Proofs.Keypad.Invariant

namespace DeskCalculator

open Text

namespace State

variable (s : State) (decimals : Int) {text : String}

theorem submit_expression (h : ¬AllBlank text.toList) : s.submit text decimals = do
    let x ← evaluateText (String.ofList (trim text.toList))
    let current ← Operand.ofValue x
    return resolved current (String.ofList (trim text.toList) ++ " =") := by
  have hne : trim text.toList ≠ [] := trim_eq_nil_iff.not.mpr h
  rw [State.submit, if_neg hne]
  rfl

theorem submit_ok (h : ¬AllBlank text.toList) {x : Binary64}
    (hx : evaluateText text = .ok (.real x)) (hfinite : x.isFinite = true) :
    ∃ o, x.display = .ok o.chars ∧ s.submit text decimals =
      .ok (resolved o (String.ofList (trim text.toList) ++ " =")) := by
  obtain ⟨o, ho, hdisplay⟩ := Operand.exists_ofValue hfinite
  refine ⟨o, hdisplay, ?_⟩
  have hagrees := evaluateText_trim text
  rw [hx] at hagrees
  rw [submit_expression s decimals h]
  generalize evaluateText (String.ofList (trim text.toList)) = y at hagrees ⊢
  cases hagrees with
  | ok hv =>
    rw [← hv, ok_bind, ho]
    rfl

theorem submit_fault (h : ¬AllBlank text.toList) {f : Fault}
    (hf : evaluateText text = .error (.fault f)) :
    ∃ g, f.Alike g ∧ s.submit text decimals = .error (.fault g) := by
  have hagrees := evaluateText_trim text
  rw [hf] at hagrees
  rw [submit_expression s decimals h]
  generalize evaluateText (String.ofList (trim text.toList)) = y at hagrees ⊢
  cases hagrees with
  | error he =>
    cases he with
    | fault hg => exact ⟨_, hg, rfl⟩
    | same => exact ⟨f, .same f, rfl⟩

end State

namespace Session

variable (s : Session) {text : String}

theorem perform_congr {action other : Action}
    (h : action.transition s.decimals s.state = other.transition s.decimals s.state)
    (hr : action.resolves = other.resolves) :
    (s.perform action).session = (s.perform other).session ∧
      (s.perform action).update = (s.perform other).update := by
  have hclears (f : Fault) : clears action f = clears other f := by
    cases f with
    | divisionByZero cause => exact hr
    | _ => rfl
  cases ht : other.transition s.decimals s.state with
  | ok after =>
    rw [perform_ok ht, perform_ok (h.trans ht)]
    exact ⟨rfl, rfl⟩
  | error failure =>
    cases failure with
    | fault f =>
      cases hc : clears other f with
      | true =>
        rw [perform_clears ht hc, perform_clears (h.trans ht) ((hclears f).trans hc)]
        exact ⟨rfl, rfl⟩
      | false =>
        rw [perform_keeps ht hc, perform_keeps (h.trans ht) ((hclears f).trans hc)]
        exact ⟨rfl, rfl⟩
    | invalid i =>
      rw [perform_fails (by simp) ht, perform_fails (by simp) (h.trans ht)]
      exact ⟨rfl, rfl⟩
    | misuse m =>
      rw [perform_fails (by simp) ht, perform_fails (by simp) (h.trans ht)]
      exact ⟨rfl, rfl⟩

theorem clears_submit (h : ¬AllBlank text.toList) (f : Fault) :
    clears (.submit text) f = false := by
  cases f with
  | divisionByZero cause =>
    exact Bool.eq_false_of_not_eq_true fun hall => h (List.all_eq_true.mp hall)
  | _ => rfl

/-- A submitted text shows what its evaluation gives, but for the positions that a fault tells: the
text counts without the blanks around it. A text of blanks is the equals key. -/
theorem submit_answers (s : Session) (text : String) :
    let r := s.perform (.submit text)
    (AllBlank text.toList →
      r.session = (s.perform .equals).session ∧ r.update = (s.perform .equals).update) ∧
    (¬AllBlank text.toList →
      (∃ u, r.update = .ok u ∧
        (u.fault = none ↔ ∃ v, (evaluationReport text).outcome = .ok (.ok v))) ∧
      (∀ v, (evaluationReport text).outcome = .ok (.ok v) → ∃ shown, v.display = .ok shown ∧
        let t := r.session.state
        t.current.text = String.ofList shown ∧ t.previous = none ∧ t.pending = none ∧
          t.resetOnNextDigit = true ∧ t.echo = String.ofList (trim text.toList) ++ " =" ∧
          r.session.decimals = s.decimals ∧ r.update = .ok (t.update none)) ∧
      ∀ f, (evaluationReport text).outcome = .ok (.error f) → r.session = s ∧
        ∃ g, f.Alike g ∧ g.kind = f.kind ∧ r.update = .ok (s.state.update (some g))) := by
  refine ⟨fun hblank => ?_, fun htext => ?_⟩
  · exact s.perform_congr (submit_blank s.decimals s.state hblank) (List.all_eq_true.mpr hblank)
  · rcases (settles_evaluateText text).cases with ⟨v, ⟨x, rfl, hfinite⟩, hx⟩ | ⟨f, -, hf⟩
    · obtain ⟨o, hdisplay, ht⟩ := s.state.submit_ok s.decimals htext hx hfinite
      have hperform : s.perform (.submit text) = _ := perform_ok ht
      rw [hperform, outcome_ok hx]
      refine ⟨⟨_, rfl, iff_of_true rfl ⟨_, rfl⟩⟩, ?_, nofun⟩
      rintro _ ⟨⟩
      exact ⟨o.chars, hdisplay, rfl, rfl, rfl, rfl, rfl, rfl, rfl⟩
    · obtain ⟨g, hg, ht⟩ := s.state.submit_fault s.decimals htext hf
      have hperform : s.perform (.submit text) = _ :=
        perform_keeps ht (clears_submit htext g)
      rw [hperform, outcome_fault hf]
      refine ⟨⟨_, rfl, iff_of_false nofun nofun⟩, nofun, ?_⟩
      rintro _ ⟨⟩
      exact ⟨rfl, g, hg, hg.kind_eq.symm, rfl⟩

end Session

end DeskCalculator
