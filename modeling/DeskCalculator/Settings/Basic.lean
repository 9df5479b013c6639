import DeskCalculator.Converter.Selection
import DeskCalculator.Text.Capital

namespace DeskCalculator

structure JournalSettings where
  level : String
  json : Bool
  caller : Bool
  deriving DecidableEq, Repr

structure Settings where
  resultDecimals : Int
  conversionDecimals : Int
  converter : ConverterDefaults
  journal : JournalSettings

namespace Settings

def standard : Settings where
  resultDecimals := DeskCalculator.resultDecimals
  conversionDecimals := DeskCalculator.conversionDecimals
  converter := .standard
  journal := ⟨Text.capitals Level.info.name, false, false⟩

def writtenUnits : Value → Value
  | .dict pairs => .dict (pairs.map fun e => (e.1, listed e.2))
  | units => units
where
  listed : Value → Value
    | .tuple xs => .list xs
    | v => v

def entries (s : Settings) : Entries :=
  [(.text "precision", .dict
      [(.text "result_decimals", .int s.resultDecimals),
        (.text "conversion_decimals", .int s.conversionDecimals)]),
    (.text "converter", .dict
      [(.text "default_category", s.converter.category),
        (.text "default_units", writtenUnits s.converter.units)]),
    (.text "logging", .dict
      [(.text "level", .text s.journal.level),
        (.text "format_json", .bool s.journal.json),
        (.text "include_caller", .bool s.journal.caller)])]

def readInt : Value → Except Failure Int
  | .scalar (.int n) => .ok n
  | v => .error (.misuse (.wrongKind .int v.kind))

def readText : Value → Except Failure String
  | .scalar (.text s) => .ok s
  | v => .error (.misuse (.wrongKind .text v.kind))

def readBool : Value → Except Failure Bool
  | .scalar (.bool b) => .ok b
  | v => .error (.misuse (.wrongKind .bool v.kind))

def readPair (e : Scalar × Value) : Except Failure (Scalar × Value) := do
  let source ← e.2.item 0
  let target ← e.2.item 1
  return (e.1, .tuple [source, target])

def ofValue (v : Value) : Except Failure Settings := do
  let precision ← v.field "precision"
  let resultDecimals ← precision.field "result_decimals" >>= readInt
  let conversionDecimals ← precision.field "conversion_decimals" >>= readInt
  let converter ← v.field "converter"
  let category ← converter.field "default_category"
  let pairs ← converter.field "default_units" >>= Value.entries
  let units ← pairs.mapM readPair
  let journal ← v.field "logging"
  let level ← journal.field "level" >>= readText
  let json ← journal.field "format_json" >>= readBool
  let caller ← journal.field "include_caller" >>= readBool
  return ⟨resultDecimals, conversionDecimals, ⟨category, .dict units⟩, ⟨level, json, caller⟩⟩

end Settings

end DeskCalculator
