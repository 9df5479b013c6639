import DeskCalculator.Expression.Evaluation
import DeskCalculator.Proofs.Outcome

namespace DeskCalculator

namespace Expression

def push (values : List Value) (x : Except Failure Value) :
    Except Failure (List Step × List Value) :=
  x.map fun z => ([], z :: values)

def Step.perform : Step → List Value → Except Failure (List Step × List Value)
  | .visit (.literal x), values => push values (.ok x)
  | .visit node, values => .ok (node.expand, values)
  | .negate, x :: values => push values x.negate
  | .combine symbol, y :: x :: values => push values do
      let z ← applyBinary symbol x y
      return z.toValue
  | .call name, x :: values => push values do
      let z ← applyFunction name x
      return z.toValue
  | .factorial, x :: values => push values do
      let z ← x.factorial
      return .real z
  | .reject printed, _ => .error (.misuse (.unknownNode printed))
  | _, _ => .error (.misuse (.indexOutOfRange .list))

theorem run_cons (step : Step) (rest : List Step) (values : List Value) :
    run (step :: rest) values =
      step.perform values >>= fun next => run (next.1 ++ rest) next.2 := by
  cases step with
  | visit node =>
    cases node with
    | literal x =>
      rw [run]
      rfl
    | _ =>
      rw [run]
      · rfl
      · intro x hx
        cases hx
  | negate =>
    rcases values with _ | ⟨x, values⟩
    · rw [run] <;> simp [Step.perform]
    · rw [run, Step.perform]
      cases x.negate <;> rfl
  | combine symbol =>
    rcases values with _ | ⟨y, _ | ⟨x, values⟩⟩
    · rw [run] <;> simp [Step.perform]
    · rw [run] <;> simp [Step.perform]
    · rw [run, Step.perform]
      cases applyBinary symbol x y <;> rfl
  | call name =>
    rcases values with _ | ⟨x, values⟩
    · rw [run] <;> simp [Step.perform]
    · rw [run, Step.perform]
      cases applyFunction name x <;> rfl
  | factorial =>
    rcases values with _ | ⟨x, values⟩
    · rw [run] <;> simp [Step.perform]
    · rw [run, Step.perform]
      cases x.factorial <;> rfl
  | reject printed =>
    rw [run]
    rfl

inductive Ends : List Step → List Value → Except Failure (List Value) → Prop where
  | done (values : List Value) : Ends [] values (.ok values)
  | step {step rest values next r} : step.perform values = .ok next →
      Ends (next.1 ++ rest) next.2 r → Ends (step :: rest) values r
  | fails {step rest values e} : step.perform values = .error e →
      Ends (step :: rest) values (.error e)

def top : List Value → Except Failure Value
  | x :: _ => .ok x
  | [] => .error (.misuse (.indexOutOfRange .list))

namespace Ends

variable {pending rest : List Step} {values : List Value} {r r' : Except Failure (List Value)}

theorem unique (h : Ends pending values r) (h' : Ends pending values r') : r' = r := by
  induction h with
  | done values =>
    cases h'
    rfl
  | step hstep _ ih =>
    cases h' with
    | step hstep' hnext =>
      cases hstep.symm.trans hstep'
      exact ih hnext
    | fails hfails => cases hstep.symm.trans hfails
  | fails hfails =>
    cases h' with
    | step hstep _ => cases hfails.symm.trans hstep
    | fails hfails' =>
      cases hfails.symm.trans hfails'
      rfl

theorem run_eq (h : Ends pending values r) : run pending values = r >>= top := by
  induction h with
  | done values =>
    cases values with
    | nil => simp [run, top]
    | cons x values => rw [run, ok_bind, top]
  | step hstep _ ih => rw [run_cons, hstep, ok_bind, ih]
  | fails hfails => rw [run_cons, hfails, error_bind, error_bind]

end Ends

def Resumes (x : Except Failure Value) (rest : List Step) (values : List Value)
    (r : Except Failure (List Value)) : Prop :=
  match x with
  | .ok z => Ends rest (z :: values) r
  | .error e => r = .error e

section Visits

variable {x : Except Failure Value} {rest rest' : List Step} {values values' : List Value}
  {r : Except Failure (List Value)}

theorem Resumes.of_bind {f : Value → Except Failure Value} (h : Resumes (x >>= f) rest values r)
    (hf : ∀ z, Resumes (f z) rest values r → Ends rest' (z :: values') r) :
    Resumes x rest' values' r := by
  cases x with
  | ok z => exact hf z h
  | error e => exact h

theorem Resumes.ends {step : Step} (hx : step.perform values' = push values x)
    (h : Resumes x rest values r) : Ends (step :: rest) values' r := by
  cases x with
  | ok z => exact .step hx h
  | error e =>
    rw [show r = .error e from h]
    exact .fails hx

theorem ends_visit (node : Expression) (h : Resumes node.value rest values r) :
    Ends (.visit node :: rest) values r := by
  -- An operand is visited with the step that takes it still to come.
  induction node generalizing rest values r with
  | literal x => exact .step rfl h
  | unary symbol a ih =>
    refine .step rfl (ih (h.of_bind fun x hx => ?_))
    exact hx.ends rfl
  | binary symbol a b iha ihb =>
    refine .step rfl (iha (h.of_bind fun x hx => ?_))
    refine ihb (hx.of_bind fun y hy => ?_)
    exact hy.ends rfl
  | call name a ih =>
    refine .step rfl (ih (h.of_bind fun x hx => ?_))
    exact hx.ends rfl
  | factorial a ih =>
    refine .step rfl (ih (h.of_bind fun x hx => ?_))
    exact hx.ends rfl
  | unknown printed =>
    rw [show r = .error (.misuse (.unknownNode printed)) from h]
    exact .step rfl (.fails rfl)

end Visits

theorem ends_evaluation (node : Expression) :
    Ends [.visit node] [] (node.value.map fun x => [x]) := by
  refine ends_visit node ?_
  cases node.value with
  | ok x => exact .done [x]
  | error e => rfl

theorem evaluate_eq_value (node : Expression) : node.evaluate = node.value := by
  rw [evaluate, (ends_evaluation node).run_eq]
  cases node.value <;> rfl

/-- The machine gives the value of every tree, or its first failure. It ends in one way, and if it
does not fail, with the value alone on the stack. What it is said to do step by step is what it
runs. -/
theorem evaluate_exact (node : Expression) :
    node.evaluate = node.value ∧
      (∀ r, Ends [.visit node] [] r ↔ r = node.value.map fun x => [x]) ∧
      (∀ pending values r, Ends pending values r → run pending values = r >>= top) ∧
      ∀ step rest values, run (step :: rest) values =
        step.perform values >>= fun next => run (next.1 ++ rest) next.2 := by
  refine ⟨evaluate_eq_value node, fun r => ⟨fun h => (ends_evaluation node).unique h, ?_⟩,
    fun _ _ _ => Ends.run_eq, run_cons⟩
  rintro rfl
  exact ends_evaluation node

end Expression

end DeskCalculator
