import DeskCalculator.Number.HalfUp
import DeskCalculator.Text.Digit

namespace DeskCalculator

def isWholePart : List Char → Bool
  | [] => false
  | ['0'] => true
  | c :: cs => Text.isDigit c && c != '0' && cs.all Text.isDigit

def isFractionPart : List Char → Bool
  | [] => true
  | c :: cs => c = '.' && cs.all Text.isDigit

def isUnsignedOperand (cs : List Char) : Bool :=
  isWholePart (cs.takeWhile Text.isDigit) && isFractionPart (cs.dropWhile Text.isDigit)

def isOperand : List Char → Bool
  | '-' :: cs => isUnsignedOperand cs
  | cs => isUnsignedOperand cs

structure Operand where
  chars : List Char
  isOperand_chars : isOperand chars = true
  deriving DecidableEq, Repr

namespace Operand

def zero : Operand :=
  ⟨['0'], by decide⟩

instance : Inhabited Operand := ⟨zero⟩

def ofChars (cs : List Char) : Except Failure Operand :=
  if h : isOperand cs = true then .ok ⟨cs, h⟩
  else .error (.invalid (.operand (String.ofList cs)))

def ofText (s : String) : Except Failure Operand :=
  ofChars s.toList

def ofValue (v : Value) : Except Failure Operand := do
  let cs ← v.display
  ofChars cs

def text (o : Operand) : String :=
  String.ofList o.chars

def value (o : Operand) : Binary64 :=
  .ofPlain o.chars

def hasPoint (o : Operand) : Bool :=
  o.chars.contains '.'

end Operand

end DeskCalculator
