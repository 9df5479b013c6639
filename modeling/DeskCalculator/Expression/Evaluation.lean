import DeskCalculator.Expression.Arithmetic
import DeskCalculator.Expression.Parse

namespace DeskCalculator

namespace Expression

/-- The value of a tree. Operands come before what is done with them, left ones first, and the
first failure in that order is the result. -/
def value : Expression → Except Failure Value
  | .literal x => .ok x
  | .unary _ a => do
      let x ← a.value
      x.negate
  | .binary symbol a b => do
      let x ← a.value
      let y ← b.value
      let z ← applyBinary symbol x y
      return z.toValue
  | .call name a => do
      let x ← a.value
      let z ← applyFunction name x
      return z.toValue
  | .factorial a => do
      let x ← a.value
      let z ← x.factorial
      return .real z
  | .unknown printed => .error (.misuse (.unknownNode printed))

inductive Step where
  | visit (node : Expression)
  | negate
  | combine (symbol : String)
  | call (name : Value)
  | factorial
  | reject (printed : String)

def expand : Expression → List Step
  | .literal _ => []
  | .unary _ a => [.visit a, .negate]
  | .binary symbol a b => [.visit a, .visit b, .combine symbol]
  | .call name a => [.visit a, .call name]
  | .factorial a => [.visit a, .factorial]
  | .unknown printed => [.reject printed]

def size : Expression → Nat
  | .literal _ => 1
  | .unary _ a => a.size + 2
  | .binary _ a b => a.size + b.size + 2
  | .call _ a => a.size + 2
  | .factorial a => a.size + 2
  | .unknown _ => 2

def Step.weight : Step → Nat
  | .visit node => node.size
  | _ => 1

def weight : List Step → Nat
  | [] => 0
  | step :: steps => step.weight + weight steps

theorem weight_append (steps others : List Step) :
    weight (steps ++ others) = weight steps + weight others := by
  induction steps with
  | nil => exact (Nat.zero_add _).symm
  | cons step steps ih => rw [List.cons_append, weight, weight, ih, Nat.add_assoc]

theorem weight_expand_lt (node : Expression) : weight node.expand < node.size := by
  cases node <;> simp only [weight, expand, size, Step.weight] <;> omega

def run : (pending : List Step) → (values : List Value) → Except Failure Value
  | [], x :: _ => .ok x
  | .visit (.literal x) :: rest, values => run rest (x :: values)
  | .visit node :: rest, values => run (node.expand ++ rest) values
  | .negate :: rest, x :: values =>
      match x.negate with
      | .ok z => run rest (z :: values)
      | .error e => .error e
  | .combine symbol :: rest, y :: x :: values =>
      match applyBinary symbol x y with
      | .ok z => run rest (z.toValue :: values)
      | .error e => .error e
  | .call name :: rest, x :: values =>
      match applyFunction name x with
      | .ok z => run rest (z.toValue :: values)
      | .error e => .error e
  | .factorial :: rest, x :: values =>
      match x.factorial with
      | .ok z => run rest (.real z :: values)
      | .error e => .error e
  | .reject printed :: _, _ => .error (.misuse (.unknownNode printed))
  | _, _ => .error (.misuse (.indexOutOfRange .list))
  termination_by pending => weight pending
  decreasing_by
    · simp only [weight, Step.weight, size]
      omega
    · have h := weight_expand_lt node
      rw [weight_append]
      simp only [weight, Step.weight]
      omega
    all_goals
      simp only [weight, Step.weight]
      omega

def evaluate (node : Expression) : Except Failure Value :=
  run [.visit node] []

end Expression

def evaluateText (text : String) : Except Failure Value := do
  let node ← parseText text
  node.evaluate

end DeskCalculator
