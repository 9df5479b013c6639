import DeskCalculator.Expression.Parse

namespace DeskCalculator

structure Cursor where
  position : Nat
  depth : Int
  deepest : Int
  deriving Repr

namespace Cursor

def start : Cursor :=
  ⟨0, 0, 0⟩

def next (c : Cursor) : Cursor :=
  { c with position := c.position + 1 }

def enter (c : Cursor) : Cursor :=
  { c with depth := c.depth + 1, deepest := max c.deepest (c.depth + 1) }

def leave (c : Cursor) : Cursor :=
  { c with depth := c.depth - 1 }

end Cursor

/-- A step of the descent may fail and keeps the cursor then, and it may never end. -/
abbrev Descent := ExceptT Failure (StateT Cursor Option)

def Descent.give {α : Type} (x : Except Failure α) : Descent α :=
  ExceptT.mk (pure x)

abbrev Tape := List Token

inductive Precedence where
  | sum
  | product
  deriving DecidableEq, Repr

def Precedence.symbols : Precedence → List String
  | .sum => ["+", "-"]
  | .product => ["*", "/"]

namespace Tape

def tokenAt (tape : Tape) (i : Nat) : Descent Token :=
  match tape[i]? with
  | some t => pure t
  | none => Descent.give Parser.exhausted

def current (tape : Tape) : Descent Token := do
  tape |>.tokenAt (← get).position

def peek (tape : Tape) (offset : Nat) : Descent Token := do
  tape |>.tokenAt (min ((← get).position + offset) (tape.length - 1))

def advance (tape : Tape) : Descent Token := do
  let t ← tape |>.current
  if t.kind ≠ .finish then modify Cursor.next
  return t

def facesFactorial (tape : Tape) : Descent Bool := do
  if (← tape |>.peek 1).kind = .number then
    return (← tape |>.peek 2).kind = .factorial
  else return false

mutual

def chain (tape : Tape) (level : Precedence) : Descent Expression := do
  let left ← tape |>.operand level
  tape |>.chainRest level left
partial_fixpoint

def operand (tape : Tape) : Precedence → Descent Expression
  | .sum => tape |>.chain .product
  | .product => tape |>.unary
partial_fixpoint

def chainRest (tape : Tape) (level : Precedence) (left : Expression) :
    Descent Expression := do
  let t ← tape |>.current
  match t.lexeme.symbol? with
  | some symbol =>
      if level.symbols.contains symbol then do
        let _ ← tape |>.advance
        let right ← tape |>.operand level
        tape |>.chainRest level (.binary symbol left right)
      else return left
  | none => return left
partial_fixpoint

def unary (tape : Tape) : Descent Expression := (do
  modify Cursor.enter
  let outcome ← tape |>.signed |>.run
  modify Cursor.leave
  return outcome : StateT Cursor Option (Except Failure Expression))
partial_fixpoint

def signed (tape : Tape) : Descent Expression := do
  if nestingLimit < (← get).depth then
    let t ← tape |>.current
    Descent.give (Parser.malformed t.position .nestedTooDeeply)
  else if (← tape |>.current).lexeme.symbol? = some "-" then
    if ← tape |>.facesFactorial then
      let _ ← tape |>.advance
      let number ← tape |>.advance
      let _ ← tape |>.advance
      let x ← Descent.give number.value.negate
      tape |>.powerTail (.factorial (.literal x))
    else
      let _ ← tape |>.advance
      let node ← tape |>.unary
      return .unary "-" node
  else tape |>.power
partial_fixpoint

def power (tape : Tape) : Descent Expression := do
  let base ← tape |>.primary
  tape |>.powerTail base
partial_fixpoint

def powerTail (tape : Tape) (base : Expression) : Descent Expression := do
  if (← tape |>.current).lexeme.symbol? = some "^" then
    let _ ← tape |>.advance
    let exponent ← tape |>.unary
    return .binary "^" base exponent
  else return base
partial_fixpoint

def primary (tape : Tape) : Descent Expression := do
  let node ← tape |>.atom
  let u ← tape |>.current
  if u.kind = .factorial then Descent.give (Parser.malformed u.position .factorialOfNonLiteral)
  else return node
partial_fixpoint

def atom (tape : Tape) : Descent Expression := do
  let t ← tape |>.advance
  match t.kind with
  | .number => do
      let u ← tape |>.current
      if u.kind = .factorial then
        let _ ← tape |>.advance
        return .factorial (.literal t.value)
      else return .literal t.value
  | .constant => do
      let x ← Descent.give (Parser.constant t.value)
      return .literal (.real x)
  | .function => do
      let u ← tape |>.current
      if u.kind = .openParen then
        let paren ← tape |>.advance
        let argument ← tape |>.group paren
        return .call t.value argument
      else Descent.give (Parser.malformed u.position (.parenExpected t.value))
  | .openParen => tape |>.group t
  | .finish => Descent.give (Parser.malformed t.position .unexpectedEnd)
  | .closeParen => Descent.give (Parser.malformed t.position .unmatchedClose)
  | _ => Descent.give (Parser.malformed t.position (.operandExpected t.value))
partial_fixpoint

def group (tape : Tape) (paren : Token) : Descent Expression := do
  let t ← tape |>.current
  if t.kind = .closeParen then Descent.give (Parser.malformed t.position .emptyParentheses)
  else
    let node ← tape |>.chain .sum
    let u ← tape |>.current
    if u.kind = .closeParen then
      let _ ← tape |>.advance
      return node
    else Descent.give (Parser.malformed paren.position .unmatchedOpen)
partial_fixpoint

end

def whole (tape : Tape) : Descent Expression := do
  if (← tape |>.current).kind = .finish then Descent.give (Parser.malformed 0 .emptyExpression)
  else
    let node ← tape |>.chain .sum
    let u ← tape |>.current
    match u.kind with
    | .finish => return node
    | .closeParen => Descent.give (Parser.malformed u.position .unmatchedClose)
    | _ => Descent.give (Parser.malformed u.position (.unexpected u.value))

end Tape

inductive Procedure where
  | expression
  | term
  | unary
  | power
  | primary
  | group (paren : Token)
  deriving Repr

namespace Procedure

def descent (tokens : List Token) : Procedure → Descent Expression
  | .expression => Tape.chain tokens .sum
  | .term => Tape.chain tokens .product
  | .unary => Tape.unary tokens
  | .power => Tape.power tokens
  | .primary => Tape.primary tokens
  | .group paren => Tape.group tokens paren

def perform (p : Procedure) (tokens : List Token) (c : Cursor) :
    Option (Except Failure Expression × Cursor) :=
  (p.descent tokens).run.run c

def parser (levels : Nat) : Procedure → Parser
  | .expression => Parser.expression (Parser.unary levels)
  | .term => Parser.term (Parser.unary levels)
  | .unary => Parser.unary levels
  | .power => Parser.power (Parser.unary levels)
  | .primary => Parser.primary (Parser.unary levels)
  | .group paren => Parser.group (Parser.unary levels) paren

end Procedure

def firstFinish (tokens : List Token) : Nat :=
  tokens.findIdx (·.kind = .finish)

theorem lt_firstFinish {tokens ts : List Token} {t : Token} {i : Nat}
    (h : tokens.drop i = t :: ts) (ht : t.kind ≠ .finish) (hi : i ≤ firstFinish tokens) :
    i < firstFinish tokens := by
  refine Nat.lt_of_le_of_ne hi fun heq => ht ?_
  have hget : tokens[firstFinish tokens]? = some t := by
    rw [← heq, ← Nat.add_zero i, ← List.getElem?_drop, h, List.getElem?_cons_zero]
  obtain ⟨hlt, rfl⟩ := List.getElem?_eq_some_iff.mp hget
  exact of_decide_eq_true (List.findIdx_getElem (w := hlt))

namespace Cursor

structure Moves (tokens : List Token) (c c' : Cursor) : Prop where
  position : c.position ≤ c'.position
  within : c.position ≤ firstFinish tokens → c'.position ≤ firstFinish tokens
  depth : c'.depth = c.depth
  deepest : c.depth ≤ nestingLimit → c'.deepest ≤ max c.deepest (nestingLimit + 1)

namespace Moves

variable {tokens ts : List Token} {t : Token} {c c' c'' : Cursor}

theorem refl (tokens : List Token) (c : Cursor) : Moves tokens c c :=
  ⟨Nat.le_refl _, id, rfl, fun _ => Int.le_max_left _ _⟩

theorem trans (h : Moves tokens c c') (h' : Moves tokens c' c'') : Moves tokens c c'' where
  position := Nat.le_trans h.position h'.position
  within hc := h'.within (h.within hc)
  depth := h'.depth.trans h.depth
  deepest hc := by
    have hfirst := h.deepest hc
    have hsecond := h'.deepest (h.depth ▸ hc)
    omega

theorem next (h : tokens.drop c.position = t :: ts) (ht : t.kind ≠ .finish) :
    Moves tokens c c.next where
  position := Nat.le_succ c.position
  within := lt_firstFinish h ht
  depth := rfl
  deepest _ := Int.le_max_left _ _

theorem enter_leave (tokens : List Token) (c : Cursor) : Moves tokens c c.enter.leave where
  position := Nat.le_refl _
  within := id
  depth := Int.add_sub_cancel c.depth 1
  deepest hc := by
    simp only [enter, Cursor.leave]
    omega

theorem leave (h : Moves tokens c.enter c') (hc : c.depth < nestingLimit) :
    Moves tokens c c'.leave where
  position := h.position
  within := h.within
  depth := by
    have hinner := h.depth
    simp only [enter, Cursor.leave] at *
    omega
  deepest _ := by
    have hinner := h.deepest (Int.add_one_le_of_lt hc)
    simp only [enter, Cursor.leave] at *
    omega

end Moves

end Cursor

namespace Tape

variable {tokens ts : List Token} {t : Token} {c c' : Cursor}

section Bind

variable {α β : Type} {p : Descent α} {f : α → Descent β}

theorem run_bind_ok {a : α} (hp : p.run.run c = some (.ok a, c')) :
    (p >>= f).run.run c = (f a).run.run c' := by
  rw [ExceptT.run_bind, StateT.run_bind, hp]
  rfl

theorem run_bind_error {e : Failure} (hp : p.run.run c = some (.error e, c')) :
    (p >>= f).run.run c = some (.error e, c') := by
  rw [ExceptT.run_bind, StateT.run_bind, hp]
  rfl

end Bind

theorem run_get (c : Cursor) : (get : Descent Cursor).run.run c = some (.ok c, c) := rfl

theorem getElem?_of_drop (h : tokens.drop c.position = ts) (i : Nat) :
    tokens[c.position + i]? = ts[i]? := by
  rw [← h, List.getElem?_drop]

theorem run_current (h : tokens.drop c.position = t :: ts) :
    (current tokens).run.run c = some (.ok t, c) := by
  have hget : tokens[c.position]? = some t := getElem?_of_drop h 0
  change (tokenAt tokens c.position).run.run c = _
  rw [tokenAt, hget]
  rfl

theorem run_current_nil (h : tokens.drop c.position = []) :
    (current tokens).run.run c = some (Parser.exhausted, c) := by
  have hget : tokens[c.position]? = none := getElem?_of_drop h 0
  change (tokenAt tokens c.position).run.run c = _
  rw [tokenAt, hget]
  rfl

theorem run_peek {u : Token} {offset : Nat} (h : tokens.drop c.position = t :: ts)
    (hu : (t :: ts)[min offset ts.length]? = some u) :
    (peek tokens offset).run.run c = some (.ok u, c) := by
  have hlength : tokens.length - c.position = ts.length + 1 := by
    rw [← List.length_drop, h, List.length_cons]
  have hindex : min (c.position + offset) (tokens.length - 1) =
      c.position + min offset ts.length := by omega
  change (tokenAt tokens (min (c.position + offset) (tokens.length - 1))).run.run c = _
  rw [tokenAt, hindex, getElem?_of_drop h, hu]
  rfl

theorem run_advance (h : tokens.drop c.position = t :: ts) (ht : t.kind ≠ .finish) :
    (advance tokens).run.run c = some (.ok t, c.next) := by
  rw [advance, run_bind_ok (run_current h), if_pos ht]
  rfl

theorem run_advance_finish (h : tokens.drop c.position = t :: ts) (ht : t.kind = .finish) :
    (advance tokens).run.run c = some (.ok t, c) := by
  rw [advance, run_bind_ok (run_current h), if_neg (Decidable.not_not.mpr ht)]
  rfl

theorem run_facesFactorial (h : tokens.drop c.position = t :: ts) (ht : t.kind ≠ .number) :
    (facesFactorial tokens).run.run c =
      some (.ok (Parser.factorialLiteral? ts).isSome, c) := by
  rw [facesFactorial]
  match ts, h with
  | [], h =>
    rw [run_bind_ok (run_peek h rfl), if_neg ht]
    rfl
  | [u], h =>
    rw [run_bind_ok (run_peek h rfl)]
    split
    · rename_i hu
      rw [run_bind_ok (run_peek h rfl), hu]
      rfl
    · rfl
  | u :: v :: rest, h =>
    rw [run_bind_ok (run_peek h rfl), Parser.factorialLiteral?]
    by_cases hu : u.kind = .number
    · rw [if_pos hu, run_bind_ok (run_peek h rfl)]
      by_cases hv : v.kind = .factorial <;> simp [hu, hv]
    · rw [if_neg hu, if_neg fun h => hu h.1]
      rfl

theorem run_unary {outcome : Except Failure Expression}
    (h : (signed tokens).run.run c.enter = some (outcome, c')) :
    (unary tokens).run.run c = some (outcome, c'.leave) := by
  rw [unary]
  change ((signed tokens).run >>= fun outcome => do
    modify Cursor.leave
    return outcome : StateT Cursor Option _).run c.enter = _
  rw [StateT.run_bind, h]
  rfl

theorem run_signed_of_deep (h : nestingLimit < c.depth) (hts : tokens.drop c.position = ts) :
    (signed tokens).run.run c = some ((Parser.unary 0 ts).map Prod.fst, c) := by
  rw [signed, run_bind_ok (run_get c), if_pos h]
  cases ts with
  | nil => exact run_bind_error (run_current_nil hts)
  | cons t ts => exact run_bind_ok (run_current hts)

end Tape

end DeskCalculator
