namespace DeskCalculator.Text

/-- The capital of a letter, as far as it is one of A to Z: two letters beyond ASCII, the dotless
i and the long s, have such capitals too. -/
def capital (c : Char) : Char :=
  if c = 'ı' then 'I'
  else if c = 'ſ' then 'S'
  else c.toUpper

def capitals (s : String) : String :=
  String.ofList (s.toList.map capital)

end DeskCalculator.Text
