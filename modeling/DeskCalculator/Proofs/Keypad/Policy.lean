import DeskCalculator.Keypad.Session
import DeskCalculator.Proofs.Expression.Arithmetic
import Mathlib.Data.List.TakeWhile

namespace DeskCalculator

namespace Text

theorem trim_eq_nil_iff {cs : List Char} : trim cs = [] ↔ ∀ c ∈ cs, isBlank c = true := by
  constructor
  · intro h c hc
    have hrest : ∀ d ∈ cs.dropWhile isBlank, isBlank d = true := by
      simpa [trim, trimEnds, List.dropWhile_eq_nil_iff] using h
    rw [← List.takeWhile_append_dropWhile (p := isBlank) (l := cs)] at hc
    rcases List.mem_append.mp hc with hc | hc
    · exact List.all_eq_true.mp List.all_takeWhile c hc
    · exact hrest c hc
  · intro h
    exact trim_eq_nil (List.all_eq_true.mpr h)

end Text

def DividesByZero {α : Type} (r : Except Failure α) : Prop :=
  ∃ cause, r = .error (.fault (.divisionByZero cause))

namespace DividesByZero

variable {α β : Type}

theorem not_ok (a : α) : ¬DividesByZero (.ok a) := nofun

theorem not_misuse (m : Misuse) : ¬DividesByZero (.error (.misuse m) : Except Failure α) := nofun

theorem not_invalid (i : Invalid) : ¬DividesByZero (.error (.invalid i) : Except Failure α) :=
  nofun

theorem bind_iff {x : Except Failure α} {f : α → Except Failure β}
    (hf : ∀ a, ¬DividesByZero (f a)) : DividesByZero (x >>= f) ↔ DividesByZero x := by
  cases x with
  | ok a => exact iff_of_false (hf a) (not_ok a)
  | error e => simp [DividesByZero]

theorem not_bind {x : Except Failure α} {f : α → Except Failure β} (hx : ¬DividesByZero x)
    (hf : ∀ a, ¬DividesByZero (f a)) : ¬DividesByZero (x >>= f) :=
  (bind_iff hf).not.mpr hx

end DividesByZero

section Rounding

open DividesByZero

theorem not_dividesByZero_toBinary64 (n : Number) : ¬DividesByZero n.toBinary64 := by
  cases n with
  | int n =>
    unfold Number.toBinary64
    dsimp only
    split
    · exact not_ok _
    · exact not_misuse _
  | real x => exact not_ok _

theorem not_dividesByZero_mul (m n : Number) : ¬DividesByZero (m.mul n) := by
  unfold Number.mul Number.combine
  split
  · exact not_ok _
  · exact not_bind (not_dividesByZero_toBinary64 m) fun x =>
      not_bind (not_dividesByZero_toBinary64 n) fun y => not_ok _

theorem not_dividesByZero_div (m n : Number) : ¬DividesByZero (m.div n) := by
  unfold Number.div
  split
  · split
    · exact not_misuse _
    · dsimp only
      split
      · exact not_ok _
      · exact not_misuse _
  · refine not_bind (not_dividesByZero_toBinary64 m) fun x =>
      not_bind (not_dividesByZero_toBinary64 n) fun y => ?_
    split
    · exact not_misuse _
    · exact not_ok _

theorem not_dividesByZero_powerOfTen (n : Int) : ¬DividesByZero (Value.int n).powerOfTen := by
  change ¬DividesByZero (if 0 ≤ n then _ else _)
  split
  · exact not_ok _
  · refine not_bind (not_dividesByZero_toBinary64 _) fun x => ?_
    refine not_bind ?_ fun y => not_ok _
    unfold Binary64.powerOfTen
    dsimp only
    split
    · exact not_misuse _
    · exact not_ok _

theorem not_dividesByZero_toFloor (x : Binary64) : ¬DividesByZero x.toFloor := by
  unfold Binary64.toFloor
  split
  · exact not_ok _
  · exact not_misuse _

theorem not_dividesByZero_quantity (q : Quantity) : ¬DividesByZero q.toBinary64 := by
  refine not_bind ?_ not_dividesByZero_toBinary64
  unfold Quantity.number
  split
  · exact not_ok _
  · exact not_misuse _

theorem not_dividesByZero_roundHalfUp (m : Number) (decimals : Int) :
    ¬DividesByZero (m.quantity.roundHalfUp (.int decimals)) := by
  unfold Quantity.roundHalfUp
  refine not_bind (not_dividesByZero_powerOfTen decimals) fun factor => ?_
  refine not_bind ?_ fun scaled => not_bind (not_dividesByZero_quantity scaled) fun whole => ?_
  · change ¬DividesByZero ((m.mul factor).map Number.quantity)
    rw [map_eq_bind]
    exact not_bind (not_dividesByZero_mul m factor) fun n => not_ok _
  · split
    · exact not_bind (not_dividesByZero_toFloor _) fun n => not_dividesByZero_div _ _
    · exact not_dividesByZero_toBinary64 m

theorem not_dividesByZero_ofValue (x : Binary64) :
    ¬DividesByZero (Operand.ofValue (.real x)) := by
  refine not_bind ?_ fun cs => ?_
  · change ¬DividesByZero x.display
    unfold Binary64.display
    split
    · exact not_ok _
    · exact nofun
  · unfold Operand.ofChars
    split
    · exact not_ok _
    · exact not_invalid _

end Rounding

section Resolving

open DividesByZero

theorem not_dividesByZero_inRange (x : Binary64) (operation : String) :
    ¬DividesByZero ((Quantity.ofReal x).inRange operation) := by
  rw [Quantity.inRange_ofReal]
  split
  · exact not_ok _
  · exact nofun

theorem dividesByZero_over (x y : Binary64) :
    DividesByZero (Operation.over.apply (.real x) (.real y)) ↔ y.isZero = true := by
  cases hy : y.isZero with
  | true =>
    rw [Operation.apply_over_zero x hy]
    exact iff_of_true ⟨_, rfl⟩ rfl
  | false =>
    rw [Operation.apply_over x hy]
    exact iff_of_false (not_dividesByZero_inRange _ _) Bool.false_ne_true

theorem dividesByZero_operator (op : Operator) (x y : Binary64) :
    DividesByZero (op.apply (.real x) (.real y)) ↔ op = .divide ∧ y.isZero = true := by
  cases op with
  | add => exact iff_of_false (not_dividesByZero_inRange _ _) nofun
  | subtract => exact iff_of_false (not_dividesByZero_inRange _ _) nofun
  | multiply => exact iff_of_false (not_dividesByZero_inRange _ _) nofun
  | divide =>
    rw [Operator.apply, dividesByZero_over]
    simp
  | percent =>
    have hshare := not_dividesByZero_div (.real y) (.int 100)
    refine iff_of_false (not_bind hshare fun z => ?_) nofun
    exact not_dividesByZero_inRange _ _

theorem dividesByZero_evaluate (s : State) (decimals : Int) :
    DividesByZero (s.evaluate decimals) ↔
      s.previous.isSome ∧ s.pending = some .divide ∧ s.current.value.isZero = true := by
  unfold State.evaluate
  split
  · rename_i previous op hprevious hpending
    have hrest (n : Number) : ¬DividesByZero (do
        let rounded ← n.quantity.roundHalfUp (.int decimals)
        let current ← Operand.ofValue (.real rounded)
        return (⟨current, none, none, true, ""⟩ : State)) :=
      not_bind (not_dividesByZero_roundHalfUp n decimals) fun x =>
        not_bind (not_dividesByZero_ofValue x) fun o => not_ok _
    rw [bind_iff hrest, dividesByZero_operator]
    simp [hprevious, hpending]
  · rename_i hnone
    refine iff_of_false (not_ok s) ?_
    rintro ⟨hprevious, hpending, -⟩
    obtain ⟨previous, hprevious⟩ := Option.isSome_iff_exists.mp hprevious
    exact hnone previous .divide hprevious hpending

end Resolving

/-- The actions that resolve the pending computation: the equals and percent keys, an operator that
there is, and a text that is not more than blanks. -/
inductive Action.Resolving : Action → Prop where
  | operator {name op} : Operator.ofName? name = some op → Resolving (.operator name)
  | equals : Resolving .equals
  | percent : Resolving .percent
  | submit {text} : (∀ c ∈ text.toList, Text.isBlank c = true) → Resolving (.submit text)

def State.DividesByZero (s : State) : Prop :=
  s.previous.isSome ∧ s.pending = some .divide ∧ s.current.value.isZero = true

section Actions

open DividesByZero

variable (decimals : Int) (s : State)

theorem dividesByZero_chooseOperator (op : Operator) :
    DividesByZero (s.chooseOperator op decimals) ↔ s.DividesByZero := by
  have hrest (t : State) : ¬DividesByZero
      (pure (⟨t.current, some t.current, some op, true, ""⟩ : State) : Except Failure State) :=
    not_ok _
  exact (bind_iff hrest).trans (dividesByZero_evaluate s decimals)

theorem dividesByZero_percent : DividesByZero (s.percent decimals) ↔ s.DividesByZero := by
  unfold State.percent
  split
  · exact dividesByZero_evaluate s decimals
  · rename_i hnone
    refine iff_of_false (not_bind (not_dividesByZero_ofValue _) fun o => not_ok _) ?_
    rintro ⟨hprevious, hpending, -⟩
    obtain ⟨previous, hprevious⟩ := Option.isSome_iff_exists.mp hprevious
    exact hnone previous .divide hprevious hpending

theorem submit_blank {text : String} (h : ∀ c ∈ text.toList, Text.isBlank c = true) :
    s.submit text decimals = s.evaluate decimals := by
  simp [State.submit, Text.trim_eq_nil_iff.mpr h]

theorem dividesByZero_resolving {action : Action} (h : action.Resolving) :
    DividesByZero (action.transition decimals s) ↔ s.DividesByZero := by
  cases h with
  | @operator name op hop =>
    simp only [Action.transition, Operator.ofName, hop, ok_bind]
    exact dividesByZero_chooseOperator decimals s op
  | equals => exact dividesByZero_evaluate s decimals
  | percent => exact dividesByZero_percent decimals s
  | submit hblank =>
    simp only [Action.transition, submit_blank decimals s hblank]
    exact dividesByZero_evaluate s decimals

theorem resolving_of_fault {action : Action} {fault : Fault} (h : action.resolves = true)
    (hf : action.transition decimals s = .error (.fault fault)) : action.Resolving := by
  cases action with
  | operator name =>
    cases hop : Operator.ofName? name with
    | some op => exact .operator hop
    | none =>
      -- An operator that there is not makes the transition fail, but not by a fault.
      simp [Action.transition, Operator.ofName, hop] at hf
  | equals => exact .equals
  | percent => exact .percent
  | submit text => exact .submit (List.all_eq_true.mp h)
  | _ => cases h

theorem resolves_of_resolving {action : Action} (h : action.Resolving) :
    action.resolves = true := by
  cases h with
  | submit hblank => exact List.all_eq_true.mpr hblank
  | _ => rfl

end Actions

namespace Session

section Perform

variable {s : Session} {action : Action} {fault : Fault}

theorem perform_ok {after : State} (h : action.transition s.decimals s.state = .ok after) :
    s.perform action = ⟨{ s with state := after }, .ok (after.update none),
      [Source.keypad.transition action.name s.state.display after.display after.waiting]⟩ := by
  simp only [perform, h]

theorem perform_clears (h : action.transition s.decimals s.state = .error (.fault fault))
    (hc : clears action fault = true) :
    s.perform action = ⟨{ s with state := .initial }, .ok (State.initial.update (some fault)),
      [s.resetEvent action fault, s.faultEvent action fault]⟩ := by
  simp only [perform, h, hc, if_true]

theorem perform_keeps (h : action.transition s.decimals s.state = .error (.fault fault))
    (hc : clears action fault = false) :
    s.perform action = ⟨s, .ok (s.state.update (some fault)), [s.faultEvent action fault]⟩ := by
  simp [perform, h, hc]

theorem perform_fails {failure : Failure} (hf : ∀ f, failure ≠ .fault f)
    (h : action.transition s.decimals s.state = .error failure) :
    s.perform action = ⟨s, .error failure, []⟩ := by
  cases failure with
  | fault f => exact absurd rfl (hf f)
  | invalid i => simp only [perform, h]
  | misuse m => simp only [perform, h]

theorem clears_iff (hf : action.transition s.decimals s.state = .error (.fault fault)) :
    clears action fault = true ↔ action.Resolving ∧ fault.kind = .divisionByZero := by
  cases fault with
  | divisionByZero cause =>
    constructor
    · intro h
      exact ⟨resolving_of_fault _ _ h hf, rfl⟩
    · rintro ⟨h, -⟩
      exact resolves_of_resolving h
  | _ => simp [clears, Fault.kind]

theorem update_perform {u : Update} (h : (s.perform action).update = .ok u) :
    ∃ shown, u = (s.perform action).session.state.update shown := by
  cases ht : action.transition s.decimals s.state with
  | ok after =>
    rw [perform_ok ht] at h ⊢
    exact ⟨none, (Except.ok.inj h).symm⟩
  | error failure =>
    cases failure with
    | fault fault =>
      cases hc : clears action fault with
      | true =>
        rw [perform_clears ht hc] at h ⊢
        exact ⟨some fault, (Except.ok.inj h).symm⟩
      | false =>
        rw [perform_keeps ht hc] at h ⊢
        exact ⟨some fault, (Except.ok.inj h).symm⟩
    | invalid i =>
      rw [perform_fails (by simp) ht] at h
      cases h
    | misuse m =>
      rw [perform_fails (by simp) ht] at h
      cases h

end Perform

/-- A transition that succeeds gives the next state. A fault is shown and leaves the state as it
was, unless it is a division by zero in a resolving action, which clears it: that happens exactly
if a division by zero is pending. Any other failure leaves the state as it was. What is shown is
the state after the action. -/
theorem perform_policy (s : Session) (action : Action) :
    (match action.transition s.decimals s.state with
      | .ok after =>
          (s.perform action).session = { s with state := after } ∧
            (s.perform action).update = .ok (after.update none)
      | .error (.fault fault) =>
          (action.Resolving ∧ fault.kind = .divisionByZero →
            (s.perform action).session = { s with state := .initial }) ∧
          (¬(action.Resolving ∧ fault.kind = .divisionByZero) → (s.perform action).session = s) ∧
          (s.perform action).update =
            .ok ((s.perform action).session.state.update (some fault))
      | .error failure =>
          (s.perform action).session = s ∧ (s.perform action).update = .error failure) ∧
    (((∃ cause, action.transition s.decimals s.state =
          .error (.fault (.divisionByZero cause))) ∧ action.Resolving) ↔
        action.Resolving ∧ s.state.previous.isSome ∧ s.state.pending = some .divide ∧
          s.state.current.value.isZero = true) ∧
    ∀ u, (s.perform action).update = .ok u →
      u.display = (s.perform action).session.state.display ∧
        u.preview = (s.perform action).session.state.preview := by
  refine ⟨?_, ?_, fun u hu => ?_⟩
  · split
    · rename_i after heq
      rw [perform_ok heq]
      exact ⟨rfl, rfl⟩
    · rename_i fault heq
      have hclears := clears_iff heq
      cases hc : clears action fault with
      | true =>
        rw [perform_clears heq hc]
        exact ⟨fun _ => rfl, fun h => absurd (hclears.mp hc) h, rfl⟩
      | false =>
        rw [perform_keeps heq hc]
        have hnot : ¬(action.Resolving ∧ fault.kind = .divisionByZero) := fun h =>
          Bool.false_ne_true (hc.symm.trans (hclears.mpr h))
        exact ⟨fun h => absurd h hnot, fun _ => rfl, rfl⟩
    · rename_i failure hfault heq
      rw [perform_fails hfault heq]
      exact ⟨rfl, rfl⟩
  · constructor
    · rintro ⟨hdivides, hresolving⟩
      exact ⟨hresolving, (dividesByZero_resolving s.decimals s.state hresolving).mp hdivides⟩
    · rintro ⟨hresolving, hpending⟩
      exact ⟨(dividesByZero_resolving s.decimals s.state hresolving).mpr hpending, hresolving⟩
  · obtain ⟨shown, rfl⟩ := update_perform hu
    exact ⟨rfl, rfl⟩

theorem perform_policy_division_by_zero :
    ∃ cause, Action.equals.transition 8 ⟨.zero, some .zero, some .divide, false, ""⟩ =
      .error (.fault (.divisionByZero cause)) :=
  ((perform_policy ⟨⟨.zero, some .zero, some .divide, false, ""⟩, 8⟩ .equals).2.1.mpr
    ⟨.equals, rfl, rfl, by decide +kernel⟩).1

end Session

end DeskCalculator
