import DeskCalculator.Decimal.Shortest

namespace DeskCalculator

namespace Decimal

def withPoint (ds : List Char) (places : Nat) : List Char :=
  let ds := List.replicate (places + 1 - ds.length) '0' ++ ds
  ds.take (ds.length - places) ++ '.' :: ds.drop (ds.length - places)

def positional (d : Decimal) : List Char :=
  if 0 ≤ d.exponent then writeDigits d.digits ++ List.replicate d.exponent.toNat '0'
  else withPoint (writeDigits d.digits) (-d.exponent).toNat

def exponentMark (e : Int) : List Char :=
  let ds := writeDigits e.natAbs
  'e' :: (if e < 0 then '-' else '+') :: List.replicate (2 - ds.length) '0' ++ ds

def scientific (d : Decimal) : List Char :=
  match writeDigits d.digits with
  | [] => []
  | c :: cs =>
      let mark := exponentMark (d.exponent + cs.length)
      if cs.isEmpty then c :: mark else c :: '.' :: cs ++ mark

def leadingPower (d : Decimal) : Int :=
  d.exponent + (writeDigits d.digits).length - 1

/-- Leading powers from -4 to 15 are written positionally, whole numbers then with `.0`. -/
def literal (d : Decimal) : List Char :=
  if -4 ≤ d.leadingPower ∧ d.leadingPower < 16 then
    if 0 ≤ d.exponent then d.positional ++ ['.', '0'] else d.positional
  else d.scientific

def trim (cs : List Char) : List Char :=
  if cs.contains '.' then
    ((cs.reverse.dropWhile (· == '0')).dropWhile (· == '.')).reverse
  else cs

end Decimal

namespace Binary64

def sign (negative : Bool) : List Char :=
  if negative then ['-'] else []

def literal : Binary64 → String
  | .nan => "nan"
  | .infinite s => String.ofList (sign s ++ "inf".toList)
  | .finite s m =>
      String.ofList (sign s ++
        if m.units = 0 then "0.0".toList else m.shortest.literal)

def plain? : Binary64 → Option (List Char)
  | .finite s m =>
      if m.units = 0 then some ['0']
      else some (sign s ++ Decimal.trim m.shortest.positional)
  | _ => none

end Binary64

end DeskCalculator
