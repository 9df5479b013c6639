import DeskCalculator.Proofs.Keypad.Invariant
import DeskCalculator.Proofs.Value.Part
import Mathlib.Data.List.Chain

namespace DeskCalculator

namespace Event

def field? (e : Event) (name : String) : Option Value :=
  (e.fields.find? fun f => f.1 = name).map (·.2)

def noted? (e : Event) (name : String) : Option Value := do
  let context ← e.field? "context"
  (context.field name).toOption

def changes (events : List Event) : List Event :=
  events.filter fun e => e.name = "state_transition"

structure Changes (action before after : String) (e : Event) : Prop where
  level : e.level = .debug
  name : e.name = "state_transition"
  action : e.field? "action" = some (.text action)
  before : e.field? "from_display" = some (.text before)
  after : e.field? "to_display" = some (.text after)

structure Warns (action kind display : String) (e : Event) : Prop where
  level : e.level = .warning
  name : e.name = "operation_failed"
  operation : e.field? "operation" = some (.text action)
  kind : e.field? "error_kind" = some (.text kind)
  display : e.noted? "display" = some (.text display)

structure Traces (before after : String) (events : List Event) : Prop where
  first : ∀ e ∈ (changes events).head?, e.field? "from_display" = some (.text before)
  linked : (changes events).IsChain fun e next =>
    next.field? "from_display" = e.field? "to_display"
  last : ∀ e ∈ (changes events).getLast?, e.field? "to_display" = some (.text after)
  still : changes events = [] → after = before

section Fields

variable (action before after : String) (context : Value)

theorem changes_transition :
    (Source.keypad.transition action before after context).Changes action before after := by
  refine ⟨rfl, rfl, ?_, ?_, ?_⟩ <;>
    cases h : context.isEmpty <;>
      simp [Source.transition, Source.event, Source.contextField, Source.fields, Fields.merge,
        Fields.set, field?, h]

theorem noted?_transition (h : context.isEmpty = false) (name : String) :
    (Source.keypad.transition action before after context).noted? name =
      (context.field name).toOption := by
  simp [Source.transition, Source.event, Source.contextField, Source.fields, Fields.merge,
    Fields.set, noted?, field?, h]

theorem warns_failure (display : String) (fault : Fault) :
    (Source.keypad.failure action (.fault fault)
      (.dict [(.text "display", .text display)])).Warns action fault.kind.name display := by
  refine ⟨rfl, rfl, ?_, ?_, ?_⟩ <;>
    simp [Source.failure, Source.event, Source.contextField, Source.fields, Fields.merge,
      Fields.set, field?, noted?, Value.isEmpty, Value.field_singleton, Failure.kindName,
      Except.toOption]

end Fields

section Notes

variable {a b c : String} {e : Event} {es fs : List Event}

theorem changes_append (es fs : List Event) : changes (es ++ fs) = changes es ++ changes fs :=
  List.filter_append es fs

theorem Changes.changes_singleton {action : String} (h : e.Changes action a b) :
    changes [e] = [e] :=
  List.filter_cons_of_pos (decide_eq_true h.name)

theorem Warns.changes_singleton {action kind : String} (h : e.Warns action kind a) :
    changes [e] = [] := by
  simp [changes, h.name]

namespace Traces

theorem nil (a : String) : Traces a a [] where
  first := nofun
  linked := .nil
  last := nofun
  still _ := rfl

theorem of_warns {action kind display : String} (h : e.Warns action kind display) (a : String) :
    Traces a a [e] := by
  refine ⟨?_, ?_, ?_, fun _ => rfl⟩ <;> rw [h.changes_singleton]
  · exact nofun
  · exact .nil
  · exact nofun

theorem of_changes {action : String} (h : e.Changes action a b) : Traces a b [e] := by
  refine ⟨?_, ?_, ?_, ?_⟩ <;> rw [h.changes_singleton]
  · rintro _ ⟨⟩
    exact h.before
  · exact .singleton e
  · rintro _ ⟨⟩
    exact h.after
  · exact nofun

theorem append (h : Traces a b es) (h' : Traces b c fs) : Traces a c (es ++ fs) := by
  cases hes : changes es with
  | nil =>
    have hab := h.still hes
    subst hab
    have hfs : changes (es ++ fs) = changes fs := by rw [changes_append, hes, List.nil_append]
    exact ⟨hfs ▸ h'.first, hfs ▸ h'.linked, hfs ▸ h'.last, hfs ▸ h'.still⟩
  | cons e rest =>
    have hfirst := h.first e (by rw [hes]; rfl)
    refine ⟨?_, ?_, ?_, ?_⟩ <;> rw [changes_append]
    · rw [hes]
      rintro _ ⟨⟩
      exact hfirst
    · refine h.linked.append h'.linked fun e he next hnext => ?_
      exact (h'.first next hnext).trans (h.last e he).symm
    · cases hfs : changes fs with
      | nil =>
        rw [List.append_nil, h'.still hfs]
        exact h.last
      | cons next others =>
        rw [List.getLast?_append_cons, ← hfs]
        exact h'.last
    · rw [hes]
      exact nofun

end Traces

end Notes

end Event

structure Event.Records (s t : State) (action : Action) (e : Event) : Prop
    extends e.Changes action.name s.display t.display where
  pending : e.noted? "pending_op" = some ((t.pending.map fun op => Value.text op.name).getD .null)
  previous : e.noted? "previous" = some ((t.previous.map fun o => Value.text o.text).getD .null)

theorem records_transition (s t : State) (action : Action) : Event.Records s t action
    (Source.keypad.transition action.name s.display t.display t.waiting) where
  toChanges := Event.changes_transition _ _ _ _
  pending := by
    rw [Event.noted?_transition _ _ _ _ rfl]
    rfl
  previous := by
    rw [Event.noted?_transition _ _ _ _ rfl]
    rfl

namespace Session

inductive Notes (s : Session) (action : Action) : Result → Prop where
  | changed {t e} : Event.Records s.state t action e →
      Notes s action ⟨{ s with state := t }, .ok (t.update none), [e]⟩
  | cleared {fault reset e} : s.state ≠ .initial →
      reset.Changes action.name s.state.display State.initial.display →
      e.Warns action.name fault.kind.name s.state.display →
      Notes s action
        ⟨{ s with state := .initial }, .ok (State.initial.update (some fault)), [reset, e]⟩
  | kept {fault e} : e.Warns action.name fault.kind.name s.state.display →
      Notes s action ⟨s, .ok (s.state.update (some fault)), [e]⟩
  | failed {failure} : Notes s action ⟨s, .error failure, []⟩

section Perform

variable (s : Session) (action : Action)

theorem ne_initial_of_clears {s : Session} {action : Action} {fault : Fault}
    (h : action.transition s.decimals s.state = .error (.fault fault))
    (hc : clears action fault = true) : s.state ≠ .initial := by
  intro hinitial
  obtain ⟨hresolving, -⟩ := (clears_iff h).mp hc
  have hdivides : DividesByZero (action.transition s.decimals s.state) := by
    cases fault with
    | divisionByZero cause => exact ⟨cause, h⟩
    | _ => cases hc
  obtain ⟨hprevious, -⟩ := (dividesByZero_resolving _ _ hresolving).mp hdivides
  rw [hinitial] at hprevious
  cases hprevious

theorem notes_perform : s.Notes action (s.perform action) := by
  cases ht : action.transition s.decimals s.state with
  | ok after =>
    rw [perform_ok ht]
    exact .changed (records_transition s.state after action)
  | error failure =>
    cases failure with
    | fault fault =>
      have hwarns : (s.faultEvent action fault).Warns action.name fault.kind.name s.state.display :=
        Event.warns_failure _ _ _
      cases hc : clears action fault with
      | true =>
        rw [perform_clears ht hc]
        exact .cleared (ne_initial_of_clears ht hc) (Event.changes_transition _ _ _ _) hwarns
      | false =>
        rw [perform_keeps ht hc]
        exact .kept hwarns
    | invalid i =>
      rw [perform_fails (by simp) ht]
      exact .failed
    | misuse m =>
      rw [perform_fails (by simp) ht]
      exact .failed

theorem Notes.traces {s : Session} {action : Action} {r : Result} (h : s.Notes action r) :
    Event.Traces s.state.display r.session.state.display r.events := by
  cases h with
  | changed he => exact .of_changes he.toChanges
  | cleared _ hreset he => exact (Event.Traces.of_changes hreset).append (.of_warns he _)
  | kept he => exact .of_warns he _
  | failed => exact .nil _

theorem Notes.state_eq {s : Session} {action : Action} {r : Result} (h : s.Notes action r)
    (hr : Event.changes r.events = []) : r.session.state = s.state := by
  cases h with
  | changed he =>
    rw [he.changes_singleton] at hr
    cases hr
  | @cleared _ reset e _ hreset he =>
    have hsplit : Event.changes [reset, e] = _ := Event.changes_append [reset] [e]
    rw [hsplit, hreset.changes_singleton] at hr
    cases hr
  | kept he => rfl
  | failed => rfl

end Perform

def journal (s : Session) : List Action → List Event
  | [] => []
  | action :: actions => (s.perform action).events ++ (s.perform action).session.journal actions

section Run

variable (s : Session) (actions : List Action)

theorem traces_journal :
    Event.Traces s.state.display (s.run actions).state.display (s.journal actions) := by
  induction actions generalizing s with
  | nil => exact .nil _
  | cons action actions ih =>
    exact (s.notes_perform action).traces.append (ih (s.perform action).session)

theorem state_run_of_changes_nil (h : Event.changes (s.journal actions) = []) :
    (s.run actions).state = s.state := by
  induction actions generalizing s with
  | nil => rfl
  | cons action actions ih =>
    rw [journal, Event.changes_append, List.append_eq_nil_iff] at h
    exact (ih _ h.2).trans ((s.notes_perform action).state_eq h.1)

end Run

/-- The journal is a faithful trace. The changes that it notes begin at the display of a fresh
session, each begins where the one before it ended, and the last one ends at the display that there
is. An action that succeeds notes its change alone, one with a fault notes the fault at the display
before it, after the clearing of the state if there was one, and a call that fails notes nothing.
The state does not change between two notes of a change. -/
theorem journal_faithful (decimals : Int) (actions : List Action) :
    let s := (start decimals).run actions
    let changes := Event.changes ((start decimals).journal actions)
    (∀ e ∈ changes.head?, e.field? "from_display" = some (.text "0")) ∧
    (changes.IsChain fun e next => next.field? "from_display" = e.field? "to_display") ∧
    (∀ e ∈ changes.getLast?, e.field? "to_display" = some (.text s.state.display)) ∧
    (∀ action, let r := s.perform action
      match r.update with
      | .ok ⟨_, _, none⟩ => ∃ e, r.events = [e] ∧ e.Records s.state r.session.state action
      | .ok ⟨_, _, some fault⟩ => ∃ front e, r.events = front ++ [e] ∧
          e.Warns action.name fault.kind.name s.state.display ∧
          (r.session.state = s.state → front = []) ∧
          (r.session.state ≠ s.state → r.session.state = .initial ∧
            ∃ reset, front = [reset] ∧ reset.Changes action.name s.state.display "0")
      | .error _ => r.events = []) ∧
    ∀ others, Event.changes (s.journal others) = [] → (s.run others).state = s.state := by
  intro s changes
  have htraces := (start decimals).traces_journal actions
  refine ⟨htraces.first, htraces.linked, htraces.last, fun action => ?_,
    fun others => s.state_run_of_changes_nil others⟩
  have hnotes := s.notes_perform action
  generalize s.perform action = r at hnotes
  cases hnotes with
  | changed he => exact ⟨_, rfl, he⟩
  | @cleared fault reset e hne hreset he =>
    exact ⟨[reset], e, rfl, he, fun heq => absurd heq.symm hne, fun _ => ⟨rfl, reset, rfl, hreset⟩⟩
  | @kept fault e he => exact ⟨[], e, rfl, he, fun _ => rfl, fun hne => absurd rfl hne⟩
  | failed => rfl

end Session

end DeskCalculator
