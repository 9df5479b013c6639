import DeskCalculator.Binary64.Elementary
import DeskCalculator.Expression.Token
import DeskCalculator.Failure
import DeskCalculator.Text.Blank
import DeskCalculator.Text.Digit

namespace DeskCalculator

def functionNames : List String :=
  ["sin", "cos", "tan", "log", "ln", "sqrt"]

def constantTable : List (String × Binary64) :=
  [("pi", .pi), ("π", .pi), ("e", .e)]

def constant? (name : String) : Option Binary64 :=
  (constantTable.find? (·.1 = name)).map (·.2)

def spelledLexemes : List (List Char × Lexeme) :=
  (functionNames.map fun name => (name.toList, .function name)) ++
    [("pi".toList, .constant "pi"), ("e".toList, .constant "e")]

def operatorSymbols : List Char :=
  ['+', '-', '*', '/', '^']

def isNumeralChar (c : Char) : Bool :=
  Text.isDigit c || c = '.'

def secondPoint? (cs : List Char) : Option Nat :=
  let whole := cs.takeWhile (· != '.')
  let rest := (cs.drop whole.length).drop 1
  if rest.contains '.' then some (whole.length + 1 + (rest.takeWhile (· != '.')).length) else none

def numeralLexeme (position : Nat) (run : List Char) : Except Fault Lexeme :=
  match secondPoint? run with
  | some offset => .error (.unexpectedChar (position + offset) '.')
  | none =>
      if run = ['.'] then .error (.unexpectedChar position '.')
      else
        let x := Binary64.ofPlain run
        if x.isFinite then .ok (.number x)
        else .error (.overflow (.numeral position run.length))

def lexemeAt (position : Nat) (c : Char) (cs : List Char) : Except Fault (Option Lexeme × Nat) :=
  if Text.isBlank c then .ok (none, 0)
  else if isNumeralChar c then
    let run := c :: cs.takeWhile isNumeralChar
    (numeralLexeme position run).map fun lexeme => (some lexeme, run.length - 1)
  else if c = 'π' then .ok (some (.constant "pi"), 0)
  else if operatorSymbols.contains c then .ok (some (.operator (String.singleton c)), 0)
  else if c = '(' then .ok (some .openParen, 0)
  else if c = ')' then .ok (some .closeParen, 0)
  else if c = '!' then .ok (some .factorial, 0)
  else
    match spelledLexemes.find? fun (name, _) => name.isPrefixOf (c :: cs) with
    | some (name, lexeme) => .ok (some lexeme, name.length - 1)
    | none => .error (.unexpectedChar position c)

def scanFrom (position : Nat) : List Char → Except Fault (List Token)
  | [] => .ok [⟨.finish, position⟩]
  | c :: cs => do
      let (lexeme?, extra) ← lexemeAt position c cs
      let rest ← scanFrom (position + 1 + extra) (cs.drop extra)
      match lexeme? with
      | some lexeme => return ⟨lexeme, position⟩ :: rest
      | none => return rest
  termination_by cs => cs.length
  decreasing_by
    simp only [List.length_drop, List.length_cons]
    omega

def scan (text : String) : Except Fault (List Token) :=
  scanFrom 0 text.toList

end DeskCalculator
