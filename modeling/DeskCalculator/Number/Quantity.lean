import DeskCalculator.Number.Arithmetic

namespace DeskCalculator

structure Quantity where
  kind : Kind
  size : Nat
  number? : Option Number
  deriving DecidableEq, Repr

def Value.quantity (v : Value) : Quantity :=
  ⟨v.kind, v.size, v.number?⟩

def Number.quantity (n : Number) : Quantity :=
  ⟨n.kind, 0, some n⟩

namespace Quantity

def ofReal (x : Binary64) : Quantity :=
  (Number.real x).quantity

def ofInt (n : Int) : Quantity :=
  (Number.int n).quantity

def maxCount : Int :=
  twoTo 63 - 1

def maxSize : Nat :=
  twoTo 40

def repeated (a count : Quantity) : Except Failure Quantity :=
  match count.number? with
  | some (.int n) =>
      let size := a.size * n.toNat
      if n < -maxCount - 1 ∨ maxCount < n then .error (.misuse .countTooLarge)
      else if a.kind = .text ∧ maxCount < size then .error (.misuse .textTooLong)
      else if maxSize < size then .error (.misuse .noRoom)
      else .ok ⟨a.kind, size, none⟩
  | _ => .error (.misuse (.notRepeatable count.kind))

def operands {α : Type} (symbol : String) (a b : Quantity) : Except Failure α :=
  .error (.misuse (.operands symbol a.kind b.kind))

def add (a b : Quantity) : Except Failure Quantity :=
  match a.number?, b.number? with
  | some m, some n => (m.add n).map Number.quantity
  | _, _ =>
      if a.kind.isSequence then
        if a.kind = b.kind then .ok ⟨a.kind, a.size + b.size, none⟩
        else .error (.misuse (.notJoinable a.kind b.kind))
      else operands "+" a b

def sub (a b : Quantity) : Except Failure Quantity :=
  match a.number?, b.number? with
  | some m, some n => (m.sub n).map Number.quantity
  | _, _ => operands "-" a b

def mul (a b : Quantity) : Except Failure Quantity :=
  match a.number?, b.number? with
  | some m, some n => (m.mul n).map Number.quantity
  | _, _ =>
      if a.kind.isSequence then a.repeated b
      else if b.kind.isSequence then b.repeated a
      else operands "*" a b

def div (a b : Quantity) : Except Failure Binary64 :=
  match a.number?, b.number? with
  | some m, some n => m.div n
  | _, _ => operands "/" a b

def number (a : Quantity) : Except Failure Number :=
  match a.number? with
  | some n => .ok n
  | none => .error (.misuse (.notNumber a.kind))

def toBinary64 (a : Quantity) : Except Failure Binary64 := do
  let n ← a.number
  n.toBinary64

def comparable (a : Quantity) (symbol : String) : Except Failure Number :=
  match a.number? with
  | some n => .ok n
  | none => .error (.misuse (.notComparable symbol a.kind))

def isZero (a : Quantity) : Bool :=
  match a.number? with
  | some n => n.isZero
  | none => false

def isIntegral (a : Quantity) : Except Failure Bool := do
  let n ← a.number
  n.isIntegral

end Quantity

def Value.negate (v : Value) : Except Failure Value :=
  match v.number? with
  | some n => .ok (-n).toValue
  | none => .error (.misuse (.notNegatable v.kind))

end DeskCalculator
