import DeskCalculator.Decimal.Basic
import DeskCalculator.Number.Arithmetic
import DeskCalculator.Text.Blank
import DeskCalculator.Text.Digit

namespace DeskCalculator

namespace Numeral

def joinGroups? : (last : Char) → List Char → Option (List Char)
  | last, [] => if last = '_' then none else some []
  | last, c :: cs =>
      if c = '_' then
        if Text.isDigit last then joinGroups? c cs else none
      else if last = '_' && !Text.isDigit c then none
      else (joinGroups? c cs).map (c :: ·)

def splitSign : List Char → Bool × List Char
  | '-' :: cs => (true, cs)
  | '+' :: cs => (false, cs)
  | cs => (false, cs)

def exponent? : List Char → Option Int
  | [] => some 0
  | c :: cs =>
      if c = 'e' ∨ c = 'E' then
        let (negative, ds) := splitSign cs
        if ds ≠ [] ∧ ds.all Text.isDigit then
          let n : Int := Decimal.readDigits ds
          some (if negative then -n else n)
        else none
      else none

def decimal? (cs : List Char) : Option Decimal :=
  let whole := cs.takeWhile Text.isDigit
  let rest := cs.dropWhile Text.isDigit
  let (fraction, rest) :=
    match rest with
    | '.' :: cs => (cs.takeWhile Text.isDigit, cs.dropWhile Text.isDigit)
    | _ => ([], rest)
  if whole = [] ∧ fraction = [] then none
  else
    (exponent? rest).map fun e =>
      let d := Decimal.ofDigits whole fraction
      ⟨d.digits, d.exponent + e⟩

/-- The nearest number. Decimals beyond 10 ^ 400 or below 10 ^ -400 are not written out first. -/
def nearest (negative : Bool) (d : Decimal) : Binary64 :=
  let power := d.exponent + (Decimal.writeDigits d.digits).length
  if d.digits = 0 ∨ power < -400 then .zero negative
  else if 400 < power then .infinite negative
  else d.toBinary64 negative

def unsigned? (negative : Bool) (cs : List Char) : Option Binary64 :=
  let name := String.ofList (cs.map Char.toLower)
  if name = "inf" ∨ name = "infinity" then some (.infinite negative)
  else if name = "nan" then some .nan
  else (decimal? cs).map (nearest negative)

def read? (cs : List Char) : Option Binary64 := do
  let cs ← joinGroups? ' ' ((Text.trimEnds Text.isSpace cs).map Text.toAsciiDigit)
  let (negative, cs) := splitSign cs
  unsigned? negative cs

end Numeral

def Binary64.ofText (s : String) : Except Failure Binary64 :=
  match Numeral.read? s.toList with
  | some x => .ok x
  | none => .error (.invalid (.numeral s))

def Value.toBinary64 (v : Value) : Except Failure Binary64 :=
  match v with
  | .scalar (.text s) => Binary64.ofText s
  | v =>
      match v.number? with
      | some n => n.toBinary64
      | none => .error (.misuse (.notConvertible v.kind))

end DeskCalculator
