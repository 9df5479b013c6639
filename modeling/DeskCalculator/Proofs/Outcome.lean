import DeskCalculator.Failure

namespace DeskCalculator

section Chained

variable {ε α β γ : Type}

@[simp] theorem ok_bind (a : α) (f : α → Except ε β) : (Except.ok a >>= f) = f a := rfl

@[simp] theorem error_bind (e : ε) (f : α → Except ε β) :
    (Except.error e >>= f) = .error e := rfl

@[simp] theorem pure_eq_ok (a : α) : (pure a : Except ε α) = .ok a := rfl

theorem map_eq_bind (x : Except ε α) (f : α → β) : x.map f = x >>= fun a => .ok (f a) := by
  cases x <;> rfl

theorem map_bind (x : Except ε α) (f : α → β) (g : β → Except ε γ) :
    (x.map f >>= g) = x >>= fun a => g (f a) := by
  cases x <;> rfl

theorem bind_eq_ok {x : Except ε α} {f : α → Except ε β} {b : β} (h : (x >>= f) = .ok b) :
    ∃ a, x = .ok a ∧ f a = .ok b := by
  cases x with
  | ok a => exact ⟨a, rfl, h⟩
  | error e => cases h

theorem eq_ok_of_toOption {x : Except ε α} {a : α} (h : x.toOption = some a) : x = .ok a := by
  cases x with
  | ok b => exact congrArg Except.ok (Option.some.inj h)
  | error e => cases h

theorem eq_error_of_bind_ok {x : Except ε α} {f : α → β} {e : ε}
    (h : (x >>= fun a => .ok (f a)) = .error e) : x = .error e := by
  cases x with
  | ok a => cases h
  | error e' => exact congrArg Except.error (Except.error.inj h)

end Chained

def Fault.ofExpression (f : Fault) : Prop :=
  f.kind ∈ [.lexError, .parseError, .domainError, .divisionByZero, .overflowError]

namespace Fault

theorem ofExpression_unexpectedChar (position : Nat) (c : Char) :
    (unexpectedChar position c).ofExpression := by
  simp [ofExpression, kind]

theorem ofExpression_malformed (position : Int) (reason : ParseReason) :
    (malformed position reason).ofExpression := by
  simp [ofExpression, kind]

theorem ofExpression_divisionByZero (cause : DivisionCause) :
    (divisionByZero cause).ofExpression := by
  simp [ofExpression, kind]

theorem ofExpression_overflow (cause : OverflowCause) : (overflow cause).ofExpression := by
  simp [ofExpression, kind]

def ofArithmetic (f : Fault) : Prop :=
  f.kind ∈ [.domainError, .divisionByZero, .overflowError]

theorem ofArithmetic_domain (cause : DomainCause) : (domain cause).ofArithmetic := by
  simp [ofArithmetic, kind]

theorem ofArithmetic_divisionByZero (cause : DivisionCause) :
    (divisionByZero cause).ofArithmetic := by
  simp [ofArithmetic, kind]

theorem ofArithmetic_overflow (cause : OverflowCause) : (overflow cause).ofArithmetic := by
  simp [ofArithmetic, kind]

theorem ofArithmetic.ofExpression {f : Fault} (h : f.ofArithmetic) : f.ofExpression :=
  List.mem_cons_of_mem _ (List.mem_cons_of_mem _ h)

end Fault

def Settles {α : Type} (good : α → Prop) : Except Failure α → Prop
  | .ok a => good a
  | .error (.fault f) => f.ofExpression
  | .error _ => False

namespace Settles

variable {α β : Type} {good : α → Prop} {fine : β → Prop}

theorem bind {x : Except Failure α} {f : α → Except Failure β} (hx : Settles good x)
    (hf : ∀ a, good a → Settles fine (f a)) : Settles fine (x >>= f) := by
  cases x with
  | ok a => exact hf a hx
  | error e =>
    cases e with
    | fault f => exact hx
    | invalid _ => exact hx
    | misuse _ => exact hx

theorem cases {x : Except Failure α} (hx : Settles good x) :
    (∃ a, good a ∧ x = .ok a) ∨ ∃ f, f.ofExpression ∧ x = .error (.fault f) := by
  cases x with
  | ok a => exact .inl ⟨a, hx, rfl⟩
  | error e =>
    cases e with
    | fault f => exact .inr ⟨f, hx, rfl⟩
    | invalid _ => exact hx.elim
    | misuse _ => exact hx.elim

end Settles

def Reckons {α : Type} (good : α → Prop) : Except Failure α → Prop
  | .ok a => good a
  | .error (.fault f) => f.ofArithmetic
  | .error _ => False

namespace Reckons

variable {α β : Type} {good : α → Prop} {fine : β → Prop}

theorem bind {x : Except Failure α} {f : α → Except Failure β} (hx : Reckons good x)
    (hf : ∀ a, good a → Reckons fine (f a)) : Reckons fine (x >>= f) := by
  cases x with
  | ok a => exact hf a hx
  | error e =>
    cases e with
    | fault f => exact hx
    | invalid _ => exact hx
    | misuse _ => exact hx

theorem settles {x : Except Failure α} (h : Reckons good x) : Settles good x := by
  cases x with
  | ok a => exact h
  | error e =>
    cases e with
    | fault f => exact h.ofExpression
    | invalid _ => exact h
    | misuse _ => exact h

end Reckons

end DeskCalculator
