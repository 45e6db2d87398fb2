import FtyCommonMlm.Czmq
import FtyCommonMlm.Lib.Runs

namespace FtyCommonMlm
open Bytes (ofString)

/-- A message taken from the client, with what the client says about it until
it takes the next one. -/
structure Delivery where
  /-- `mlm_client_command` -/
  command : Bytes
  /-- `mlm_client_subject` -/
  subject : Bytes
  /-- `mlm_client_sender` -/
  sender : Bytes
  message : Zmsg

/-- A socket of the poller that is neither the pipe nor the client's. -/
abbrev Socket := Nat

/-- How a method of an agent ends. -/
inductive Ending
  | returns (goesOn : Bool)
  /-- An exception leaves it. -/
  | throws
  /-- The process ends in it. -/
  | crashes
deriving DecidableEq, Repr

/-- The methods a subclass overrides, on a state of its own, with what they are
if it does not. -/
structure MlmAgent (State : Type) where
  tick : State → State × Ending := fun s => (s, .returns true)
  /-- None of its own leaves `MlmAgent::handlePipe` in place. -/
  ownHandlePipe : Option (Zmsg → State → State × Ending) := none
  handleMailbox : Delivery → State → State × Ending := fun _ s => (s, .returns true)
  handleStream : Delivery → State → State × Ending := fun _ s => (s, .returns true)
  handleOther : Zmsg → Socket → State → State × Ending := fun _ _ s => (s, .returns true)

namespace MlmAgent

/-- What `zpoller_wait` reports, and what is received then. Nothing is received
when the receive is interrupted. -/
inductive Which
  | null
  | pipe (message : Option Zmsg)
  | client (delivery : Option Delivery)
  | other (which : Socket) (message : Option Zmsg)

/-- One turn of the loop as its surroundings decide it. The clock is read behind
the poll. -/
structure Turn where
  which : Which
  curClock : Int64

inductive Status
  | running
  /-- It has left the loop. -/
  | broken
  /-- An exception has. -/
  | thrown
  /-- The process is gone. -/
  | crashed
deriving DecidableEq, Repr

structure Loop (State : Type) where
  status : Status
  /-- `m_lastTick` -/
  lastTick : Int64
  state : State
  /-- The readings of the clock at which `tick` has been called. -/
  ticks : List Int64

section Loop

variable {State : Type}

/-- A constructed agent, which has read the clock, at its loop. -/
def Loop.start (now : Int64) (state : State) : Loop State := ⟨.running, now, state, []⟩

/-- The loop behind a method, which goes on if the method returns true. -/
def Loop.after (l : Loop State) : State × Ending → Loop State
  | (state, .returns true) => { l with state := state }
  | (state, .returns false) => { l with state := state, status := .broken }
  | (state, .throws) => { l with state := state, status := .thrown }
  | (state, .crashes) => { l with state := state, status := .crashed }

@[simp] theorem Loop.after_state (l : Loop State) (ended : State × Ending) :
    (l.after ended).state = ended.1 := by
  match ended with
  | (_, .returns true) => rfl
  | (_, .returns false) => rfl
  | (_, .throws) => rfl
  | (_, .crashes) => rfl

/-- The call of `tick` at a reading of the clock. -/
def Loop.callTick (agent : MlmAgent State) (curClock : Int64) (l : Loop State) : Loop State :=
  { l with ticks := l.ticks ++ [curClock] }.after (agent.tick l.state)

/-- The periodic callback hook. -/
def Loop.hook (agent : MlmAgent State) (pollerTimeout : Int32) (curClock : Int64)
    (l : Loop State) : Loop State :=
  if pollerTimeout > 0 ∧ l.lastTick + pollerTimeout.toInt64 < curClock then
    let l := l.callTick agent curClock
    if l.status = .running then { l with lastTick := curClock } else l
  else l

/-- `MlmAgent::handlePipe`. Without a frame there is no command, which `streq`
does not survive. -/
def defaultPipe (message : Zmsg) : Ending :=
  match message.popstr with
  | (none, _) => .crashes
  | (some actorCommand, _) => .returns (actorCommand.cStr ≠ ofString "$TERM")

def handlePipe (agent : MlmAgent State) (message : Zmsg) (state : State) : State × Ending :=
  match agent.ownHandlePipe with
  | some handle => handle message state
  | none => (state, defaultPipe message)

def Loop.dispatch (agent : MlmAgent State) (l : Loop State) : Which → Loop State
  | .null => l
  | .pipe none => { l with status := .broken }
  | .pipe (some message) => l.after (agent.handlePipe message l.state)
  | .client none => { l with status := .broken }
  | .client (some delivery) =>
    if delivery.command.cStr = ofString "MAILBOX DELIVER" then
      l.after (agent.handleMailbox delivery l.state)
    else if delivery.command.cStr = ofString "STREAM DELIVER" then
      l.after (agent.handleStream delivery l.state)
    -- an unknown malamute pattern, which is logged
    else l
  | .other _ none => { l with status := .broken }
  | .other which (some message) => l.after (agent.handleOther message which l.state)

def Loop.turn (agent : MlmAgent State) (pollerTimeout : Int32) (l : Loop State) (t : Turn) :
    Loop State :=
  let l := l.hook agent pollerTimeout t.curClock
  if l.status = .running then l.dispatch agent t.which else l

inductive Event
  /-- `zsys_interrupted` is set where the loop tests it. -/
  | interrupted
  | turn (t : Turn)

/-- `mainloop`, of an agent with the poller time-out it was constructed with. -/
def mainloop (agent : MlmAgent State) (pollerTimeout : Int32) (l : Loop State) :
    Event → Option (Loop State)
  | .interrupted => if l.status = .running then some { l with status := .broken } else none
  | .turn t => if l.status = .running then some (l.turn agent pollerTimeout t) else none

end Loop

/-- An agent that overrides nothing. -/
def base : MlmAgent Unit := {}

/-- The message an event hands to `handleMailbox`. -/
def Event.mailbox : Event → Option Delivery
  | .turn ⟨.client (some delivery), _⟩ =>
    if delivery.command.cStr = ofString "MAILBOX DELIVER" then some delivery else none
  | _ => none

end MlmAgent

end FtyCommonMlm
