import DeskCalculator.Settings.Merge

namespace DeskCalculator

inductive Complaint.Reason where
  | decimals
  | category
  | unitMapping
  | unknownCategory
  | unitPair
  | unknownUnit (category : Category)
  | level
  | boolean
  deriving DecidableEq, Repr

structure Complaint where
  field : String
  reason : Complaint.Reason
  value : Value

namespace Settings

def maxDecimals : Int := 15

def levelNames : List String :=
  Level.all.map fun l => Text.capitals l.name

def categoryNames : List String :=
  (Category.all.map Category.name).mergeSort

end Settings

namespace Complaint

def Reason.message : Reason → String
  | .decimals => "Must be an integer between 0 and " ++ toString Settings.maxDecimals
  | .category => "Must be one of " ++ (Value.list (Settings.categoryNames.map .text)).literal
  | .unitMapping => "Must be a mapping of category to [from_unit, to_unit]"
  | .unknownCategory => "Unknown conversion category"
  | .unitPair => "Must be a pair of unit identifiers"
  | .unknownUnit c => "Unknown unit for " ++ c.name
  | .level => "Must be one of " ++ ", ".intercalate Settings.levelNames
  | .boolean => "Must be a boolean"

def message (c : Complaint) : String :=
  c.field ++ ": " ++ c.reason.message ++ " (got: " ++ c.value.plain ++ ")"

end Complaint

namespace Settings

def isDecimals : Value → Bool
  | .scalar (.int n) => 0 ≤ n && n ≤ maxDecimals
  | _ => false

def isLevel : Value → Bool
  | .scalar (.text s) => levelNames.contains (Text.capitals s)
  | _ => false

def isBool : Value → Bool
  | .scalar (.bool _) => true
  | _ => false

def isCategory (v : Value) : Except Failure Bool := do
  let category? ← v.lookUp Category.ofName?
  return category?.isSome

def isUnitOf (c : Category) (v : Value) : Bool :=
  c.unitIds.any v.isText

def checkField (params : Value) (name : String) (reason : Complaint.Reason)
    (accepts : Value → Except Failure Bool) : Except Failure (List Complaint) := do
  if ← params.mentions name then
    let v ← params.field name
    if ← accepts v then return [] else return [⟨name, reason, v⟩]
  else return []

def checkPrecision (params : Value) : Except Failure (List Complaint) := do
  let result ← checkField params "result_decimals" .decimals (pure ∘ isDecimals)
  let conversion ← checkField params "conversion_decimals" .decimals (pure ∘ isDecimals)
  return result ++ conversion

def checkPair (key : Scalar) (pair : Value) : List Complaint :=
  let name := "default_units." ++ (Value.scalar key).plain
  match key with
  | .text s =>
      match Category.ofName? s with
      | some c =>
          match pair.pair? with
          | some (source, target) =>
              ([source, target].filter fun v => !isUnitOf c v).map (⟨name, .unknownUnit c, ·⟩)
          | none => [⟨name, .unitPair, pair⟩]
      | none => [⟨name, .unknownCategory, key⟩]
  | _ => [⟨name, .unknownCategory, key⟩]

def checkConverter (params : Value) : Except Failure (List Complaint) := do
  let category ← checkField params "default_category" .category isCategory
  match ← params.fieldOr "default_units" (.dict []) with
  | .dict pairs => return category ++ pairs.flatMap fun e => checkPair e.1 e.2
  | units => return category ++ [⟨"default_units", .unitMapping, units⟩]

def checkJournal (params : Value) : Except Failure (List Complaint) := do
  let level ← checkField params "level" .level (pure ∘ isLevel)
  let json ← checkField params "format_json" .boolean (pure ∘ isBool)
  let caller ← checkField params "include_caller" .boolean (pure ∘ isBool)
  return level ++ json ++ caller

def checkSection (v : Value) (name : String)
    (check : Value → Except Failure (List Complaint)) : Except Failure (List Complaint) := do
  if ← v.mentions name then
    let params ← v.field name
    check params
  else return []

def check (v : Value) : Except Failure (List Complaint) := do
  let precision ← checkSection v "precision" checkPrecision
  let converter ← checkSection v "converter" checkConverter
  let journal ← checkSection v "logging" checkJournal
  return precision ++ converter ++ journal

end Settings

end DeskCalculator
