import DeskCalculator.Desk.Request
import DeskCalculator.Settings.Check

namespace DeskCalculator

structure Desk where
  settings : Settings
  keypad : Session
  converter : Converter

inductive Request where
  | keypad (r : KeypadRequest)
  | converter (r : ConverterRequest)

inductive Answer where
  | keypad (a : KeypadAnswer)
  | converter (a : ConverterAnswer)

namespace Desk

def ofSettings (settings : Settings) : Except Failure Desk := do
  let selection ← Selection.initial settings.converter
  return ⟨settings, .start settings.resultDecimals,
    ⟨selection, settings.converter, settings.conversionDecimals⟩⟩

def complaintEvent (complaints : List String) : Event :=
  Source.plain.event .error "Configuration validation failed"
    [("errors", .list (complaints.map .text))]

def startEvent (desk : Desk) : Event :=
  Source.plain.event .info "Calculator engine initialized"
    [("result_decimals", .int desk.settings.resultDecimals),
      ("conversion_decimals", .int desk.settings.conversionDecimals),
      ("converter_category", .text desk.converter.selection.category.name)]

def setUp (merged : Value) : Except Failure Desk × List Event :=
  match Settings.check merged with
  | .error e => (.error e, [])
  | .ok [] =>
      match Settings.ofValue merged >>= ofSettings with
      | .error e => (.error e, [])
      | .ok desk => (.ok desk, [desk.startEvent])
  | .ok complaints =>
      let messages := complaints.map Complaint.message
      (.error (.invalid (.settings messages)), [complaintEvent messages])

def start (file session : Value) : Except Failure Desk × List Event :=
  match Settings.merge file session with
  | .error e => (.error e, [])
  | .ok merged => setUp (.dict merged)

def respond (desk : Desk) : Request → Reply Desk Answer
  | .keypad request =>
      let r := request.respond desk.keypad
      ⟨{ desk with keypad := r.state }, r.answer.map .keypad, r.events⟩
  | .converter request =>
      let r := request.respond desk.converter
      ⟨{ desk with converter := r.state }, r.answer.map .converter, r.events⟩

def respondAll (desk : Desk) : List Request → List (Reply Desk Answer)
  | [] => []
  | request :: requests =>
      let r := desk.respond request
      r :: respondAll r.state requests

end Desk

end DeskCalculator
