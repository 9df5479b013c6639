import DeskCalculator.Proofs.Expression.Grammar

namespace DeskCalculator

def Rule.StopsBefore (r : Rule) (rest : List Token) : Prop :=
  ∀ t ∈ rest.head?, ∀ s ∈ r.continuations, t.lexeme.symbol? ≠ some s

namespace Rule

theorem StopsBefore.mono {r q : Rule} {rest : List Token} (h : r.StopsBefore rest)
    (hq : q.continuations ⊆ r.continuations) : q.StopsBefore rest :=
  fun t ht s hs => h t ht s (hq hs)

theorem stopsBefore_primary (rest : List Token) : primary.StopsBefore rest :=
  fun _ _ _ hs => absurd hs List.not_mem_nil

end Rule

inductive OperandDue : List Token → Prop where
  | start : OperandDue []
  | operator (us : List Token) {op} : op.kind = .operator → OperandDue (us ++ [op])

inductive Faults (front : List Token) (t : Token) (back : List Token) : ParseReason → Prop where
  | nestedTooDeeply : Faults front t back .nestedTooDeeply
  | operandExpected : t.kind = .operator ∨ t.kind = .factorial →
      Faults front t back (.operandExpected t.value)
  | parenExpected {start f} : front = start ++ [f] → f.kind = .function → t.kind ≠ .openParen →
      Faults front t back (.parenExpected f.value)
  | factorialOfNonLiteral : t.kind = .factorial → Faults front t back .factorialOfNonLiteral
  | emptyParentheses {start opening} : front = start ++ [opening] → opening.kind = .openParen →
      t.kind = .closeParen → Faults front t back .emptyParentheses
  | unmatchedOpen {k us n next rest} : t.kind = .openParen → back = us ++ next :: rest →
      Derives .expression k us n → Rule.expression.StopsBefore (next :: rest) →
      next.kind ≠ .closeParen → Faults front t back .unmatchedOpen
  | unmatchedClose : t.kind = .closeParen → OperandDue front →
      Faults front t back .unmatchedClose
  | unexpectedEnd : t.kind = .finish → Faults front t back .unexpectedEnd

inductive Refused : List Token → Int → ParseReason → Prop where
  | fault {front t back reason} : Faults front t back reason →
      Refused (front ++ t :: back) t.position reason

section Later

variable {front back : List Token} {t : Token} {reason : ParseReason}

theorem OperandDue.append (h : OperandDue front) (us : List Token)
    (hstart : front = [] → OperandDue us) : OperandDue (us ++ front) := by
  cases h with
  | start =>
    rw [List.append_nil]
    exact hstart rfl
  | operator vs hop =>
    rw [← List.append_assoc]
    exact .operator (us ++ vs) hop

theorem Faults.append (h : Faults front t back reason) (us : List Token)
    (hfirst : front = [] → t.kind = .closeParen → OperandDue us) :
    Faults (us ++ front) t back reason := by
  cases h with
  | nestedTooDeeply => exact .nestedTooDeeply
  | operandExpected ht => exact .operandExpected ht
  | @parenExpected start f hfront hf ht =>
    have hlater : us ++ front = us ++ start ++ [f] := by rw [hfront, List.append_assoc]
    exact .parenExpected hlater hf ht
  | factorialOfNonLiteral ht => exact .factorialOfNonLiteral ht
  | @emptyParentheses start opening hfront hopening ht =>
    have hlater : us ++ front = us ++ start ++ [opening] := by rw [hfront, List.append_assoc]
    exact .emptyParentheses hlater hopening ht
  | unmatchedOpen ht hback hd hstop hnext => exact .unmatchedOpen ht hback hd hstop hnext
  | unmatchedClose ht hdue => exact .unmatchedClose ht (hdue.append us fun hnil => hfirst hnil ht)
  | unexpectedEnd ht => exact .unexpectedEnd ht

end Later

namespace Refused

variable {ts : List Token} {t : Token} {position : Int} {reason : ParseReason}

theorem append (h : Refused ts position reason) (us : List Token)
    (hfirst : ∀ t ∈ ts.head?, t.kind = .closeParen → OperandDue us) :
    Refused (us ++ ts) position reason := by
  obtain ⟨hfaults⟩ := h
  rw [← List.append_assoc]
  refine .fault (hfaults.append us fun hnil ht => ?_)
  subst hnil
  exact hfirst _ rfl ht

theorem after_operator (h : Refused ts position reason) (us : List Token) {op : Token}
    (hop : op.kind = .operator) : Refused (us ++ op :: ts) position reason := by
  rw [List.append_cons]
  exact h.append _ fun _ _ _ => .operator us hop

theorem after (h : Refused (t :: ts) position reason) (us : List Token)
    (ht : t.kind ≠ .closeParen) : Refused (us ++ t :: ts) position reason := by
  refine h.append us fun u hu hclose => ?_
  obtain rfl := Option.some.inj hu
  exact absurd hclose ht

end Refused

inductive Rejected : List Token → Int → ParseReason → Prop where
  | empty {t rest} : t.kind = .finish → Rejected (t :: rest) 0 .emptyExpression
  | refused {ts position reason} : Refused ts position reason → Rejected ts position reason
  | surplusClose {us n t rest} : Derives .expression nestingLimit us n → t.kind = .closeParen →
      Rejected (us ++ t :: rest) t.position .unmatchedClose
  | surplus {us n t rest} : Derives .expression nestingLimit us n →
      Rule.expression.StopsBefore (t :: rest) → t.kind ≠ .finish → t.kind ≠ .closeParen →
      Rejected (us ++ t :: rest) t.position (.unexpected t.value)

end DeskCalculator
