import DeskCalculator.Proofs.Keypad.Policy
import DeskCalculator.Proofs.Keypad.Transition

namespace DeskCalculator

/-- An operand waits exactly if an operator does, an expression is shown only beside its own value,
and an operand with a minus is one that the next digit replaces. -/
structure State.Coherent (s : State) : Prop where
  waiting : s.previous = none ↔ s.pending = none
  of_echo : s.echo ≠ "" → s.previous = none ∧ s.pending = none ∧ s.resetOnNextDigit = true
  minus : s.resetOnNextDigit = false → '-' ∉ s.current.chars

namespace State.Coherent

variable {s : State}

theorem initial : State.initial.Coherent where
  waiting := iff_of_true rfl rfl
  of_echo h := absurd rfl h
  minus _ := by decide

theorem unsigned (h : s.Coherent) (hr : s.resetOnNextDigit = false) : Unsigned s.current.chars :=
  s.current.unsigned_of_not_mem (h.minus hr)

theorem showing (h : s.Coherent) (o : Operand) (reset : Bool)
    (ho : reset = false → '-' ∉ o.chars) : (s.showing o reset).Coherent where
  waiting := h.waiting
  of_echo hecho := absurd rfl hecho
  minus := ho

theorem resolved (o : Operand) (echo : String) : (State.resolved o echo).Coherent where
  waiting := iff_of_true rfl rfl
  of_echo _ := ⟨rfl, rfl, rfl⟩
  minus := nofun

theorem awaiting (o : Operand) (op : Operator) : (State.awaiting o op).Coherent where
  waiting := by simp [State.awaiting]
  of_echo h := absurd rfl h
  minus := nofun

end State.Coherent

theorem not_mem_minus_digit {d : Char} (hd : Text.isDigit d = true) : '-' ∉ [d] := by
  rintro (_ | ⟨_, ⟨⟩⟩)
  exact absurd hd (by decide)

theorem not_mem_minus_ofValue {x : Binary64} {o : Operand} (hx : x.isUnsigned = true)
    (h : Operand.ofValue (.real x) = .ok o) : '-' ∉ o.chars := by
  have hs := settles_ofValue x
  rw [h] at hs
  exact (hs hx).not_mem_minus

namespace State.Coherent

variable {s t : State} {decimals : Int}

theorem evaluate (h : s.Coherent) (ht : s.evaluate decimals = .ok t) : t.Coherent := by
  rcases evaluate_cases ht with ⟨p, op, o, -, -, -, rfl⟩ | ⟨-, rfl⟩
  · exact .resolved o ""
  · exact h

theorem of_takes {action : Action} (h : s.Coherent) (ht : s.Takes decimals action t) :
    t.Coherent := by
  cases ht with
  | digit hd _ ho => exact h.showing _ false fun _ => ho ▸ not_mem_minus_digit hd
  | nextDigit hd hr _ ho =>
    refine h.showing _ false fun _ hmem => ?_
    rw [ho] at hmem
    exact (List.mem_append.mp hmem).elim (h.minus hr) (not_mem_minus_digit hd)
  | point _ ho => exact h.showing _ false fun _ => ho ▸ by decide
  | nextPoint hr _ ho =>
    refine h.showing _ false fun _ => ?_
    rw [ho]
    simpa using h.minus hr
  | noPoint => exact h
  | operator _ _ => exact .awaiting _ _
  | equals hr => exact h.evaluate hr
  | percent _ _ hr => exact h.evaluate hr
  | share _ ho =>
    refine h.showing _ _ fun hr => ?_
    have hvalue := (h.unsigned hr).isUnsigned_value
    exact not_mem_minus_ofValue
      (Binary64.isUnsigned_div hvalue (Binary64.isUnsigned_ofNat 100)) ho
  | reciprocal _ _ => exact h.showing _ true nofun
  | clear => exact .initial
  | backspace ho =>
    refine h.showing _ _ fun hr => ?_
    rw [ho]
    split
    · decide
    · exact fun hmem => h.minus hr (List.dropLast_subset _ hmem)
  | constant _ _ => exact h.showing _ true nofun
  | blank _ hr => exact h.evaluate hr
  | submit _ _ _ => exact .resolved _ _

theorem preview_of_pending (h : s.Coherent) {op : Operator} (hop : s.pending = some op) :
    ∃ previous, s.previous = some previous ∧
      s.preview = previous.text ++ " " ++ op.symbol := by
  cases hprevious : s.previous with
  | some previous => exact ⟨previous, rfl, by simp only [State.preview, hprevious, hop]⟩
  | none =>
    have hnone : s.pending = none := h.waiting.mp hprevious
    cases hop.symm.trans hnone

theorem preview_of_not_pending (h : s.Coherent) (hnone : s.pending = none) :
    s.preview = s.echo := by
  have hprevious : s.previous = none := h.waiting.mpr hnone
  unfold State.preview
  rw [hprevious, hnone]
  by_cases hecho : s.echo = ""
  · simp [hecho]
  · simp [hecho]

end State.Coherent

namespace Session

def run (s : Session) (actions : List Action) : Session :=
  actions.foldl (fun s action => (s.perform action).session) s

theorem run_concat (s : Session) (actions : List Action) (action : Action) :
    s.run (actions ++ [action]) = ((s.run actions).perform action).session := by
  simp [run]

theorem state_perform (s : Session) (action : Action) :
    action.transition s.decimals s.state = .ok (s.perform action).session.state ∨
      (s.perform action).session.state = .initial ∨
      (s.perform action).session.state = s.state := by
  cases ht : action.transition s.decimals s.state with
  | ok after =>
    rw [perform_ok ht]
    exact .inl rfl
  | error failure =>
    refine .inr ?_
    cases failure with
    | fault fault =>
      cases hc : clears action fault with
      | true =>
        rw [perform_clears ht hc]
        exact .inl rfl
      | false =>
        rw [perform_keeps ht hc]
        exact .inr rfl
    | invalid i =>
      rw [perform_fails (by simp) ht]
      exact .inr rfl
    | misuse m =>
      rw [perform_fails (by simp) ht]
      exact .inr rfl

theorem coherent_perform {s : Session} (h : s.state.Coherent) (action : Action) :
    (s.perform action).session.state.Coherent := by
  rcases s.state_perform action with ht | hclears | hkeeps
  · exact h.of_takes (State.takes_of_transition ht)
  · rw [hclears]
    exact .initial
  · rwa [hkeeps]

theorem coherent_run {s : Session} (h : s.state.Coherent) (actions : List Action) :
    (s.run actions).state.Coherent := by
  induction actions generalizing s with
  | nil => exact h
  | cons action actions ih => exact ih (coherent_perform h action)

/-- Whatever was done, an operand waits exactly if an operator does, an expression is shown only
while nothing waits, and a number that is being typed has no minus. The line above the display is
the waiting operand and operator, the expression, or empty: it is never an operand alone. -/
theorem run_invariant (decimals : Int) (actions : List Action) :
    let s := ((start decimals).run actions).state
    (s.previous = none ↔ s.pending = none) ∧
    (s.echo ≠ "" → s.previous = none ∧ s.pending = none ∧ s.resetOnNextDigit = true) ∧
    (s.resetOnNextDigit = false → '-' ∉ s.current.text.toList) ∧
    (∀ op, s.pending = some op → ∃ previous, s.previous = some previous ∧
      s.preview = previous.text ++ " " ++ op.symbol) ∧
    (s.echo ≠ "" → s.preview = s.echo) ∧
    (s.pending = none → s.echo = "" → s.preview = "") := by
  intro s
  have h : s.Coherent := coherent_run (s := start decimals) .initial actions
  refine ⟨h.waiting, h.of_echo, fun hr => ?_, fun op hop => h.preview_of_pending hop,
    fun hecho => h.preview_of_not_pending (h.of_echo hecho).2.1, fun hnone hecho => ?_⟩
  · rw [Operand.text, String.toList_ofList]
    exact h.minus hr
  · rw [h.preview_of_not_pending hnone, hecho]

end Session

end DeskCalculator
