import DeskCalculator.Desk.Basic
import DeskCalculator.Journal.Setup
import DeskCalculator.Proofs.Expression.Reading
import DeskCalculator.Proofs.Expression.Parsing
import DeskCalculator.Proofs.Expression.Scanning
import DeskCalculator.Proofs.Expression.Evaluation
import DeskCalculator.Proofs.Expression.Boundary
import DeskCalculator.Proofs.Keypad.Policy
import DeskCalculator.Proofs.Binary64.Range
import DeskCalculator.Proofs.Binary64.Exact
import DeskCalculator.Proofs.Number.HalfUp
import DeskCalculator.Proofs.Decimal.Digits
import DeskCalculator.Proofs.Decimal.Display
import DeskCalculator.Proofs.Decimal.Numerals
import DeskCalculator.Proofs.Decimal.RoundTrip
import DeskCalculator.Proofs.Keypad.Operand
import DeskCalculator.Proofs.Keypad.Resolution
import DeskCalculator.Proofs.Keypad.Transition
import DeskCalculator.Proofs.Keypad.Invariant
import DeskCalculator.Proofs.Keypad.Run
import DeskCalculator.Proofs.Keypad.Entry
import DeskCalculator.Proofs.Keypad.Chain
import DeskCalculator.Proofs.Keypad.Range
import DeskCalculator.Proofs.Value.Part
import DeskCalculator.Proofs.Converter.Selection
import DeskCalculator.Proofs.Converter.Conversion
import DeskCalculator.Proofs.Settings.Check
import DeskCalculator.Proofs.Settings.Reading
import DeskCalculator.Proofs.Desk.Start
import DeskCalculator.Proofs.Converter.Request
import DeskCalculator.Proofs.Desk.Run
import DeskCalculator.Proofs.Expression.Image
import DeskCalculator.Proofs.Expression.Nesting
import DeskCalculator.Proofs.Expression.Rendering
import DeskCalculator.Proofs.Expression.Brevity
import DeskCalculator.Proofs.Keypad.Trace
import DeskCalculator.Proofs.Expression.Placement
import DeskCalculator.Proofs.Keypad.Submission
import DeskCalculator.Proofs.Keypad.Agreement
import DeskCalculator.Proofs.Binary64.Growth
import DeskCalculator.Proofs.Number.Growth
import DeskCalculator.Proofs.Converter.Range
import DeskCalculator.Proofs.Desk.Separation
import DeskCalculator.Proofs.Expression.Pieces
import DeskCalculator.Proofs.Expression.FirstPiece
import DeskCalculator.Proofs.Expression.Lexing
import DeskCalculator.Proofs.Decimal.Literal
import DeskCalculator.Proofs.Keypad.Display
import DeskCalculator.Proofs.Binary64.Halves
import DeskCalculator.Proofs.Number.Nearest
import DeskCalculator.Proofs.Keypad.Typing
import DeskCalculator.Proofs.Settings.Merge
import DeskCalculator.Proofs.Binary64.Order
import DeskCalculator.Proofs.Decimal.Shortest
import DeskCalculator.Proofs.Keypad.Places
import DeskCalculator.Proofs.Number.Error
import DeskCalculator.Proofs.Converter.RoundTrip
import DeskCalculator.Proofs.Keypad.Echo
import DeskCalculator.Proofs.Expression.Factorial
import DeskCalculator.Proofs.Expression.Refusal
import DeskCalculator.Proofs.Expression.Position
import DeskCalculator.Proofs.Expression.Parentheses
import DeskCalculator.Proofs.Expression.Descent
import DeskCalculator.Proofs.Expression.Cursor
