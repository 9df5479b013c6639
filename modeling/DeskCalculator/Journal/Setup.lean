import DeskCalculator.Journal.Event
import DeskCalculator.Settings.Basic

namespace DeskCalculator

structure JournalSetup where
  threshold : Nat
  timestamp : Bool
  caller : Bool
  deriving DecidableEq, Repr

inductive Mark where
  | timestamp
  | filename
  | lineNumber
  deriving DecidableEq, Repr

def Mark.name : Mark → String
  | .timestamp => "timestamp"
  | .filename => "filename"
  | .lineNumber => "lineno"

structure JournalLine where
  logger : String
  event : Event
  marks : List Mark

namespace JournalLine

def fields (line : JournalLine) : Fields :=
  line.event.fields.merge
    ([("event", .text line.event.name), ("logger", .text line.logger),
      ("level", .text line.event.level.name)]
      ++ line.marks.map fun m => (m.name, .bool true))

end JournalLine

namespace JournalSetup

def thresholds : List (String × Nat) :=
  Level.all.map (fun l => (Text.capitals l.name, l.severity))
    ++ [("WARN", Level.warning.severity), ("FATAL", Level.critical.severity), ("NOTSET", 0)]

def thresholdOf (level : Value) : Except Failure Nat :=
  match level with
  | .scalar (.text s) =>
      match thresholds.lookup (Text.capitals s) with
      | some n => .ok n
      | none => .error (.misuse (.noLevel (Text.capitals s)))
  | v => .error (.misuse (.noMember v.kind "upper"))

def configure (level : Value) (timestamp caller : Bool) : Except Failure JournalSetup := do
  let threshold ← thresholdOf level
  return ⟨threshold, timestamp, caller⟩

def ofSettings (s : JournalSettings) : Except Failure JournalSetup :=
  configure (.text s.level) true s.caller

def marks (setup : JournalSetup) : List Mark :=
  (if setup.timestamp then [.timestamp] else [])
    ++ (if setup.caller then [.filename, .lineNumber] else [])

def line? (setup : JournalSetup) (logger : String) (event : Event) : Option JournalLine :=
  if setup.threshold ≤ event.level.severity then some ⟨logger, event, setup.marks⟩ else none

end JournalSetup

end DeskCalculator
