import DeskCalculator.Settings.Basic

namespace DeskCalculator

namespace Entries

mutual

def overlay : List (Scalar × Value) → List (Scalar × Value) → List (Scalar × Value)
  | base, [] => base
  | base, (k, v) :: rest => overlay (set base k (replace (get? base k) v)) rest

def replace : Option Value → Value → Value
  | some (.dict base), .dict entries => .dict (overlay base entries)
  | _, v => v

end

def overlayValue (base : Entries) (v : Value) : Except Failure Entries :=
  if v.isEmpty then .ok base
  else do
    let entries ← v.entries
    return overlay base entries

end Entries

namespace Settings

def ofFile (content : Value) : Value :=
  if content.isEmpty then .dict [] else content

def merge (file session : Value) : Except Failure Entries := do
  let base ← standard.entries.overlayValue (ofFile file)
  base.overlayValue session

end Settings

end DeskCalculator
