import ScriptTrace.Trace.Event

/-!
# The run that is shown

A program may call its functions several times. The run that is shown starts at the last call made while
no other call was open; a program without calls is shown whole.

* `openCalls` : the number of calls open after some events;
* `topLevelCalls` : the positions of the calls made while no other was open;
* `selectRun` : the events of the run that is shown.
-/

namespace ScriptTrace

/-- The number of open calls after an event. An end without an open call closes nothing. -/
def openAfter (depth : Nat) (e : Event) : Nat :=
  match e.kind with
  | .call => depth + 1
  | .ret | .throw => depth - 1
  | _ => depth

/-- The number of calls open after some events. -/
def openCalls (events : List Event) : Nat := events.foldl openAfter 0

/-- Whether an event is a call made while no other call is open. -/
def startsRun (depth : Nat) (e : Event) : Bool := e.kind == .call && depth == 0

/-- Positions counted from `index`, with `depth` calls open at the start. -/
def topLevelFrom (depth index : Nat) : List Event → List Nat
  | [] => []
  | e :: rest =>
    let others := topLevelFrom (openAfter depth e) (index + 1) rest
    if startsRun depth e then index :: others else others

/-- The positions of the calls made while no other call was open. -/
def topLevelCalls (events : List Event) : List Nat := topLevelFrom 0 0 events

/-- The events from the last top-level call on; all of them if there is none. -/
def selectRun (events : List Event) : List Event :=
  match (topLevelCalls events).getLast? with
  | some start => events.drop start
  | none => events

end ScriptTrace
