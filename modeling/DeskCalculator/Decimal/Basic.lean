import DeskCalculator.Binary64.Rounding

namespace DeskCalculator

structure Decimal where
  digits : Nat
  exponent : Int
  deriving DecidableEq, Repr

namespace Decimal

def numerator (d : Decimal) : Nat :=
  d.digits * tenTo d.exponent.toNat

def denominator (d : Decimal) : Nat :=
  tenTo (-d.exponent).toNat

def magnitude? (d : Decimal) : Option Magnitude :=
  Magnitude.nearest? (d.numerator * Binary64.unitsPerOne) d.denominator

def toBinary64 (negative : Bool) (d : Decimal) : Binary64 :=
  .ofRatio negative d.numerator d.denominator

def readDigits (cs : List Char) : Nat :=
  Nat.ofDigitChars 10 cs 0

def writeDigits (n : Nat) : List Char :=
  Nat.toDigits 10 n

theorem readDigits_writeDigits (n : Nat) : readDigits (writeDigits n) = n :=
  Nat.ofDigitChars_toDigits (by decide) (by decide)

def ofDigits (whole fraction : List Char) : Decimal :=
  ⟨readDigits (whole ++ fraction), -(fraction.length : Int)⟩

def ofPlain (cs : List Char) : Decimal :=
  ofDigits (cs.takeWhile (· != '.')) ((cs.dropWhile (· != '.')).drop 1)

end Decimal

def Binary64.ofPlain : List Char → Binary64
  | '-' :: cs => (Decimal.ofPlain cs).toBinary64 true
  | cs => (Decimal.ofPlain cs).toBinary64 false

end DeskCalculator
