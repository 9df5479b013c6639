import DeskCalculator.Proofs.Keypad.Submission

namespace DeskCalculator

open Text

def Action.AsksResult (action : Action) : Prop :=
  action = .equals ∨ ∃ text, action = .submit text ∧ AllBlank text.toList

namespace State.Coherent

variable {s t : State} {decimals : Int}

theorem echo_of_evaluate (h : s.Coherent) (ht : s.evaluate decimals = .ok t) :
    t.echo = "" ∨ s.pending = none ∧ t = s := by
  rcases evaluate_cases ht with ⟨p, op, o, -, -, -, rfl⟩ | ⟨hnone, rfl⟩
  · exact .inl rfl
  · exact .inr ⟨hnone.elim h.waiting.mp id, rfl⟩

theorem echo_of_takes {action : Action} (h : s.Coherent)
    (htext : ∀ text, action = .submit text → AllBlank text.toList)
    (ht : s.Takes decimals action t) :
    t.echo = "" ∨ action.AsksResult ∧ s.pending = none ∧ t = s := by
  cases ht with
  | digit | nextDigit | point | nextPoint | operator | share | reciprocal | clear | backspace
  | constant => exact .inl rfl
  | noPoint hreset _ =>
    -- An expression is shown beside its own value only, which a point replaces.
    refine .inl (by_contra fun hecho => ?_)
    cases hreset.symm.trans (h.of_echo hecho).2.2
  | equals hr => exact (h.echo_of_evaluate hr).imp_right fun hr => ⟨.inl rfl, hr⟩
  | percent _ hpending hr =>
    refine (h.echo_of_evaluate hr).imp_right fun ⟨hnone, _⟩ => ?_
    rw [hnone] at hpending
    cases hpending
  | @blank text r hblank hr =>
    refine (h.echo_of_evaluate hr).imp_right fun hr => ⟨.inr ⟨text, rfl, ?_⟩, hr⟩
    exact trim_eq_nil_iff.mp hblank
  | @submit text x o hne _ _ => exact absurd (trim_eq_nil_iff.mpr (htext text rfl)) hne

theorem preview_cases (h : s.Coherent) (hecho : s.echo = "") :
    s.preview = "" ∨ ∃ previous op, s.previous = some previous ∧ s.pending = some op ∧
      s.preview = previous.text ++ " " ++ op.symbol := by
  cases hpending : s.pending with
  | none => exact .inl ((h.preview_of_not_pending hpending).trans hecho)
  | some op =>
    obtain ⟨previous, hprevious, hpreview⟩ := h.preview_of_pending hpending
    exact .inr ⟨previous, op, hprevious, rfl, hpreview⟩

end State.Coherent

namespace Session

theorem transition_of_no_fault {s : Session} {action : Action} {u : Update}
    (hu : (s.perform action).update = .ok u) (hfault : u.fault = none) :
    ∃ t, action.transition s.decimals s.state = .ok t ∧
      (s.perform action).session = { s with state := t } ∧ u = t.update none := by
  cases ht : action.transition s.decimals s.state with
  | ok t =>
    rw [perform_ok ht] at hu ⊢
    exact ⟨t, rfl, rfl, (Except.ok.inj hu).symm⟩
  | error failure =>
    cases failure with
    | fault fault =>
      cases hc : clears action fault with
      | true =>
        rw [perform_clears ht hc] at hu
        cases (Except.ok.inj hu) ▸ hfault
      | false =>
        rw [perform_keeps ht hc] at hu
        cases (Except.ok.inj hu) ▸ hfault
    | invalid i =>
      rw [perform_fails (by simp) ht] at hu
      cases hu
    | misuse m =>
      rw [perform_fails (by simp) ht] at hu
      cases hu

/-- After any action that is no expression and has no error, no expression is shown any more: the
line above the display is empty or holds the operand and the operator that wait. Only where nothing
waits, asking for a result changes nothing, and so leaves an expression where it is. -/
theorem echo_cleared {decimals : Int} {actions : List Action} {action : Action}
    (htext : ∀ text, action = .submit text → AllBlank text.toList) :
    let s := (start decimals).run actions
    let r := s.perform action
    ∀ u, r.update = .ok u → u.fault = none →
      (¬(action.AsksResult ∧ s.state.pending = none) →
        r.session.state.echo = "" ∧
          (u.preview = "" ∨ ∃ previous op, r.session.state.previous = some previous ∧
            r.session.state.pending = some op ∧
            u.preview = previous.text ++ " " ++ op.symbol)) ∧
      (action.AsksResult → s.state.pending = none → r.session = s) := by
  intro s r u hu hfault
  have hs : s.state.Coherent := coherent_run (s := start decimals) .initial actions
  obtain ⟨t, ht, hsession, rfl⟩ := transition_of_no_fault hu hfault
  have htakes := State.takes_of_transition ht
  have hcleared := hs.echo_of_takes htext htakes
  rw [hsession]
  refine ⟨fun hasks => ?_, fun hasks hnone => ?_⟩
  · have hecho : t.echo = "" :=
      hcleared.resolve_right fun ⟨hresult, hnone, _⟩ => hasks ⟨hresult, hnone⟩
    exact ⟨hecho, (hs.of_takes htakes).preview_cases hecho⟩
  · have hevaluate : s.state.evaluate s.decimals = .ok t := by
      rcases hasks with rfl | ⟨text, rfl, hblank⟩
      · exact ht
      · exact (submit_blank s.decimals s.state hblank).symm.trans ht
    rw [State.evaluate_of_not_pending hnone] at hevaluate
    rw [← Except.ok.inj hevaluate]

theorem echo_cleared_by_digit :
    ((start 8).run [.submit "2+3"]).state.echo = "2+3 =" ∧
      (((start 8).run [.submit "2+3"]).perform (.digit "1")).session.state.echo = "" := by
  have hquiet : (((start 8).run [.submit "2+3"]).perform (.digit "1")).update.toOption.map
      (·.fault.isNone) = some true := by decide +kernel
  obtain ⟨u, hu, hfault⟩ := Option.map_eq_some_iff.mp hquiet
  refine ⟨by decide +kernel, ((echo_cleared (by simp) u (eq_ok_of_toOption hu)
    (Option.isNone_iff_eq_none.mp hfault)).1 ?_).1⟩
  simp [Action.AsksResult]

theorem echo_outlasts_equals :
    ∃ u, (((start 8).run [.submit "2+3"]).perform .equals).update = .ok u ∧ u.fault = none ∧
      (((start 8).run [.submit "2+3"]).perform .equals).session.state.echo = "2+3 =" ∧
      u.preview = "2+3 =" := by
  have hquiet : (((start 8).run [.submit "2+3"]).perform .equals).update.toOption.map
      (fun u => (u.fault.isNone, u.preview)) = some (true, "2+3 =") := by decide +kernel
  obtain ⟨u, hu, hshown⟩ := Option.map_eq_some_iff.mp hquiet
  obtain ⟨hfault, hpreview⟩ := Prod.mk.inj hshown
  exact ⟨u, eq_ok_of_toOption hu, Option.isNone_iff_eq_none.mp hfault, by decide +kernel, hpreview⟩

end Session

end DeskCalculator
