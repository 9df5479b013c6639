import DeskCalculator.Decimal.Notation
import DeskCalculator.Text.Quoted

namespace DeskCalculator

inductive Scalar where
  | null
  | bool (b : Bool)
  | int (n : Int)
  | real (x : Binary64)
  | text (s : String)
  deriving DecidableEq, Repr

inductive Value where
  | scalar (s : Scalar)
  | list (xs : List Value)
  | tuple (xs : List Value)
  | dict (entries : List (Scalar × Value))
  deriving Repr

abbrev Entries := List (Scalar × Value)

inductive Kind where
  | null
  | bool
  | int
  | real
  | text
  | list
  | tuple
  | dict
  deriving DecidableEq, Repr

namespace Kind

def name : Kind → String
  | .null => "NoneType"
  | .bool => "bool"
  | .int => "int"
  | .real => "float"
  | .text => "str"
  | .list => "list"
  | .tuple => "tuple"
  | .dict => "dict"

def isSequence (k : Kind) : Bool :=
  k = .text || k = .list || k = .tuple

end Kind

namespace Scalar

def amount? : Scalar → Option Int
  | .bool b => some (if b then Binary64.unitsPerOne else 0)
  | .int n => some (n * Binary64.unitsPerOne)
  | .real x => if x.isFinite then some x.units else none
  | _ => none

/-- Keys are the same if they are equal numbers, whatever their kinds, or equal otherwise. A `nan`
is not the same as anything. -/
def same (a b : Scalar) : Bool :=
  match a.amount?, b.amount? with
  | some m, some n => m = n
  | none, none => a = b && a ≠ .real .nan
  | _, _ => false

def kind : Scalar → Kind
  | .null => .null
  | .bool _ => .bool
  | .int _ => .int
  | .real _ => .real
  | .text _ => .text

def literal : Scalar → String
  | .null => "None"
  | .bool b => if b then "True" else "False"
  | .int n => toString n
  | .real x => x.literal
  | .text s => Text.quoted s

end Scalar

namespace Value

instance : Coe Scalar Value := ⟨.scalar⟩

def null : Value := .scalar .null

def bool (b : Bool) : Value := .scalar (.bool b)

def int (n : Int) : Value := .scalar (.int n)

def nat (n : Nat) : Value := .scalar (.int n)

def real (x : Binary64) : Value := .scalar (.real x)

def text (s : String) : Value := .scalar (.text s)

instance : Inhabited Value := ⟨null⟩

def kind : Value → Kind
  | .scalar s => s.kind
  | .list _ => .list
  | .tuple _ => .tuple
  | .dict _ => .dict

def size : Value → Nat
  | .scalar (.text s) => s.length
  | .scalar _ => 0
  | .list xs => xs.length
  | .tuple xs => xs.length
  | .dict entries => entries.length

def isEmpty : Value → Bool
  | .scalar .null => true
  | .scalar (.bool b) => !b
  | .scalar (.int n) => n = 0
  | .scalar (.real x) => x.isZero
  | .scalar (.text s) => s.isEmpty
  | .list xs => xs.isEmpty
  | .tuple xs => xs.isEmpty
  | .dict entries => entries.isEmpty

mutual

def literal : Value → String
  | .scalar s => s.literal
  | .list xs => "[" ++ ", ".intercalate (literals xs) ++ "]"
  | .tuple xs =>
      "(" ++ ", ".intercalate (literals xs) ++ if xs.length = 1 then ",)" else ")"
  | .dict entries => "\x7b" ++ ", ".intercalate (entryLiterals entries) ++ "\x7d"

def literals : List Value → List String
  | [] => []
  | x :: xs => literal x :: literals xs

def entryLiterals : List (Scalar × Value) → List String
  | [] => []
  | (k, v) :: rest => (k.literal ++ ": " ++ literal v) :: entryLiterals rest

end

def plain : Value → String
  | .scalar (.text s) => s
  | v => v.literal

def pair? : Value → Option (Value × Value)
  | .list [x, y] => some (x, y)
  | .tuple [x, y] => some (x, y)
  | _ => none

mutual

/-- The kind of the first part that has no hash. A tuple has one if all its elements have. -/
def unhashable? : Value → Option Kind
  | .scalar _ => none
  | .list _ => some .list
  | .tuple xs => firstUnhashable? xs
  | .dict _ => some .dict

def firstUnhashable? : List Value → Option Kind
  | [] => none
  | x :: xs =>
      match unhashable? x with
      | some k => some k
      | none => firstUnhashable? xs

end

end Value

namespace Entries

def get? (entries : Entries) (key : Scalar) : Option Value :=
  (entries.find? fun e => e.1.same key).map (·.2)

def set : Entries → Scalar → Value → Entries
  | [], key, v => [(key, v)]
  | (k, u) :: rest, key, v =>
      if k.same key then (k, v) :: rest else (k, u) :: set rest key v

def ofList (pairs : List (Scalar × Value)) : Entries :=
  pairs.foldl (fun entries p => entries.set p.1 p.2) []

end Entries

end DeskCalculator
