import DeskCalculator.Journal.Event
import DeskCalculator.Keypad.Transition

namespace DeskCalculator

structure Update where
  display : String
  preview : String
  fault : Option Fault

def State.update (s : State) (fault : Option Fault) : Update :=
  ⟨s.display, s.preview, fault⟩

def State.waiting (s : State) : Value :=
  .dict
    [(.text "pending_op", (s.pending.map fun op => Value.text op.name).getD .null),
      (.text "previous", (s.previous.map fun o => Value.text o.text).getD .null)]

structure Session where
  state : State
  decimals : Int

namespace Session

def start (decimals : Int) : Session :=
  ⟨.initial, decimals⟩

def snapshot (s : Session) : Update :=
  s.state.update none

structure Result where
  session : Session
  update : Except Failure Update
  events : List Event

def faultEvent (s : Session) (action : Action) (fault : Fault) : Event :=
  Source.keypad.failure action.name (.fault fault)
    (.dict [(.text "display", .text s.state.display)])

def resetEvent (s : Session) (action : Action) (fault : Fault) : Event :=
  Source.keypad.transition action.name s.state.display State.initial.display
    (.dict [(.text "reset", .bool true), (.text "reason", .text fault.kind.name)])

def clears (action : Action) : Fault → Bool
  | .divisionByZero _ => action.resolves
  | _ => false

def perform (s : Session) (action : Action) : Result :=
  match action.transition s.decimals s.state with
  | .ok after =>
      ⟨{ s with state := after }, .ok (after.update none),
        [Source.keypad.transition action.name s.state.display after.display after.waiting]⟩
  | .error (.fault fault) =>
      if clears action fault then
        ⟨{ s with state := .initial }, .ok (State.initial.update (some fault)),
          [s.resetEvent action fault, s.faultEvent action fault]⟩
      else ⟨s, .ok (s.state.update (some fault)), [s.faultEvent action fault]⟩
  | .error failure => ⟨s, .error failure, []⟩

def typed (c : Char) : Action :=
  if c = '.' then .point else .digit (String.singleton c)

def performAll (s : Session) : List Action → Result
  | [] => ⟨s, .ok s.snapshot, []⟩
  | [action] => s.perform action
  | action :: actions =>
      let r := s.perform action
      match r.update with
      | .error _ => r
      | .ok _ =>
          let r' := performAll r.session actions
          { r' with events := r.events ++ r'.events }

def type (s : Session) (text : String) : Result :=
  s.performAll (text.toList.map typed)

end Session

end DeskCalculator
