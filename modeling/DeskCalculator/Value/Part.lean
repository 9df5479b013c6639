import DeskCalculator.Failure

namespace DeskCalculator

def occursIn (part : List Char) : List Char → Bool
  | [] => part.isEmpty
  | c :: cs => part.isPrefixOf (c :: cs) || occursIn part cs

namespace Value

def item (v : Value) (i : Nat) : Except Failure Value :=
  match v with
  | .list xs =>
      match xs[i]? with
      | some x => .ok x
      | none => .error (.misuse (.indexOutOfRange .list))
  | .tuple xs =>
      match xs[i]? with
      | some x => .ok x
      | none => .error (.misuse (.indexOutOfRange .tuple))
  | .scalar (.text s) =>
      match s.toList[i]? with
      | some c => .ok (.text (String.singleton c))
      | none => .error (.misuse (.indexOutOfRange .text))
  | .dict entries =>
      match Entries.get? entries (.int i) with
      | some x => .ok x
      | none => .error (.misuse (.missingKey (.scalar (.int i))))
  | .scalar s => .error (.misuse (.noParts s.kind))

def isText (v : Value) (name : String) : Bool :=
  match v with
  | .scalar (.text s) => s = name
  | _ => false

def mentions (v : Value) (name : String) : Except Failure Bool :=
  match v with
  | .dict entries => .ok (Entries.get? entries (.text name)).isSome
  | .list xs => .ok (xs.any (·.isText name))
  | .tuple xs => .ok (xs.any (·.isText name))
  | .scalar (.text s) => .ok (occursIn name.toList s.toList)
  | .scalar s => .error (.misuse (.notSearchable s.kind))

def field (v : Value) (name : String) : Except Failure Value :=
  match v with
  | .dict entries =>
      match Entries.get? entries (.text name) with
      | some x => .ok x
      | none => .error (.misuse (.missingKey (.text name)))
  | v => .error (.misuse (if v.kind.isSequence then .noNamedParts v.kind else .noParts v.kind))

def fieldOr (v : Value) (name : String) (other : Value) : Except Failure Value :=
  match v with
  | .dict entries => .ok ((Entries.get? entries (.text name)).getD other)
  | v => .error (.misuse (.noMember v.kind "get"))

def entries : Value → Except Failure Entries
  | .dict entries => .ok entries
  | v => .error (.misuse (.noMember v.kind "items"))

def lookUp {α : Type} (v : Value) (table : String → Option α) : Except Failure (Option α) :=
  match v with
  | .scalar (.text s) => .ok (table s)
  | v =>
      match v.unhashable? with
      | none => .ok none
      | some k => .error (.misuse (.noKey k))

theorem lookUp_text {α : Type} (s : String) (table : String → Option α) :
    (text s).lookUp table = .ok (table s) := rfl

end Value

end DeskCalculator
