import Mathlib.Tactic.Common
import FtyCommonMlm.Czmq

namespace FtyCommonMlm.MlmStreamClient
open Bytes (ofString)

structure Config where
  stream : Bytes
  endpoint : Bytes

def localBroker : Config := { stream := ofString "STREAM", endpoint := ofString "ipc://@/malamute" }

/-- The `std::runtime_error`s of the class, the `std::system_error` of joining a
thread that is not joinable, and what a callback throws. -/
inductive Error
  | nullClient
  | connecting (endpoint : Bytes)
  | becomingPublisher (stream : Bytes)
  | publishing (stream : Bytes)
  | becomingConsumer (stream : Bytes)
  | notJoinable
  | thrown (what : Bytes)
deriving DecidableEq

def Error.what : Error → Bytes
  | .nullClient => ofString "Malamute error: NULL client pointer"
  | .connecting endpoint =>
    ofString "Malamute error: Error connecting to endpoint <" ++ endpoint ++ ofString ">"
  | .becomingPublisher stream =>
    ofString "Malamute error: Impossible to become publisher of stream <" ++ stream ++ ofString ">"
  | .publishing stream =>
    ofString "Malamute error: Impossible to publish on stream <" ++ stream ++ ofString ">"
  | .becomingConsumer stream =>
    ofString "Malamute error: Impossible to become consumer of stream <" ++ stream ++ ofString ">"
  | .notJoinable => ofString "Invalid argument"
  | .thrown what => what

structure StreamMsg where
  subject : Bytes
  frames : Zmsg
deriving DecidableEq

/-- What the calls of malamute return to `publishOnBus`. -/
structure Calls where
  client : Bool := true
  connect : Int := 0
  setProducer : Int := 0
  send : Int := 0

/-- The message put on the stream, or the error thrown. -/
def publishOnBus (cfg : Config) (type : Bytes) (payload : List Bytes) (rc : Calls) :
    Except Error StreamMsg :=
  if ¬ rc.client then .error .nullClient
  else if rc.connect ≠ 0 then .error (.connecting cfg.endpoint)
  else if rc.setProducer ≠ 0 then .error (.becomingPublisher cfg.stream)
  else if rc.send ≠ 0 then .error (.publishing cfg.stream)
  else .ok { subject := type.cStr, frames := Zmsg.addAll [] payload }

def publish (cfg : Config) (payload : List Bytes) (rc : Calls) : Except Error StreamMsg :=
  publishOnBus cfg (ofString "MESSAGE") payload rc

/-- The strings the listener collects from a message. -/
def collect (m : StreamMsg) : Option (List Bytes) := m.frames.popStrings m.frames.size

/-- A function object given to `subscribe`. -/
abbrev Callback := Nat

abbrev SubId := UInt32

/-- Who stops the listener. -/
inductive Stopper
  | unsubscribe (subId : SubId)
  | destructor
deriving DecidableEq

/-- Where the thread that calls the client is. It holds the mutex in `stored`
and `spawned`. -/
inductive Api
  | idle
  | subscribing (callback : Callback)
  | stored
  | spawned
  | waiting
  | woken
  | unsubscribing (subId : SubId)
  | erased (subId : SubId)
  | stopping (who : Stopper)
  | joining (who : Stopper)
  | destroyed
  | terminated
deriving DecidableEq

/-- Where the listener thread is. In `left` and `failed` it has ended, in
`aborted` the process has, and in `absent` there is no thread to join. -/
inductive Listener
  | absent
  | started
  | connected
  | consuming
  | polling
  | received (m : StreamMsg)
  | receivedNull
  | checked (m : StreamMsg)
  | left
  | failing (e : Error)
  | caught
  | failed
  | aborted
deriving DecidableEq

/-- How a call of the client ended. -/
inductive Result
  | subscribed (r : Except Error SubId)
  | unsubscribed (subId : SubId) (r : Except Error Unit)
deriving DecidableEq

/-- One call of a callback. The listener does not look at the subject of the
message it hands on. -/
structure Invocation where
  subId : SubId
  callback : Callback
  payload : List Bytes
  subject : Bytes
deriving DecidableEq

/-- One `MlmStreamClient` with its listener thread. `queue` holds the messages
the broker delivered to the listener and the listener has not received yet. -/
structure Client where
  stopRequested : Bool := false
  counter : UInt32 := 0
  callbacks : Std.TreeMap SubId Callback := ∅
  joinable : Bool := false
  exPtr : Option Error := none
  api : Api := .idle
  listener : Listener := .absent
  queue : List StreamMsg := []
  results : List Result := []
  invoked : List Invocation := []

inductive ApiEvent
  | subscribe (callback : Callback)
  | store
  | start
  | wait
  | spurious
  | resume
  | unsubscribe (subId : SubId)
  | erase
  | check
  | sync (rc : Calls)
  | join
  | destroy

inductive ListenerEvent
  | connect (client : Bool) (rc : Int)
  | setConsumer (rc : Int)
  | notify
  | transfer
  | receive
  | receiveNull
  | checkStop
  /-- The callbacks are called, and each ends the way `ends` says. -/
  | dispatch (ends : SubId → Except Error Unit := fun _ => .ok ())
  | interrupt

def Client.finish (c : Client) (r : Result) : Client :=
  { c with api := .idle, results := c.results ++ [r] }

/-- The destructor of `m_listenerThread` terminates if it is joinable. -/
def Client.destroyMembers (c : Client) : Client :=
  { c with api := if c.joinable then .terminated else .destroyed }

/-- The end of a call that stopped the listener. An exception that leaves the
destructor terminates. -/
def Client.stopped (c : Client) : Stopper → Except Error Unit → Client
  | .unsubscribe subId, r => c.finish (.unsubscribed subId r)
  | .destructor, .ok () => c.destroyMembers
  | .destructor, .error _ => { c with api := .terminated }

def Listener.ended : Listener → Bool
  | .left | .failed => true
  | _ => false

def apiStep (cfg : Config) (c : Client) (e : ApiEvent) : Option Client :=
  if c.listener = .aborted then none else
  match e with
  | .subscribe callback =>
    match c.api with
    | .idle =>
      some { c with
        stopRequested := false
        counter := c.counter + 1
        api := .subscribing callback }
    | _ => none
  | .store =>
    match c.api with
    | .subscribing callback =>
      some { c with callbacks := c.callbacks.insert c.counter callback, api := .stored }
    | _ => none
  | .start =>
    match c.api with
    | .stored =>
      -- There is no subscriber - we create one
      if ¬ c.joinable then
        some { c with
          exPtr := none
          joinable := true
          listener := .started
          queue := []
          api := .spawned }
      else some (c.finish (.subscribed (.ok c.counter)))
    | _ => none
  | .wait =>
    match c.api with
    | .spawned => some { c with api := .waiting }
    | _ => none
  | .spurious =>
    match c.api with
    | .waiting => some { c with api := .woken }
    | _ => none
  | .resume =>
    match c.api with
    | .woken =>
      match c.exPtr with
      | some e => some (c.finish (.subscribed (.error e)))
      | none => some (c.finish (.subscribed (.ok c.counter)))
    | _ => none
  | .unsubscribe subId =>
    match c.api with
    | .idle =>
      if c.callbacks.contains subId then some { c with api := .unsubscribing subId }
      else some (c.finish (.unsubscribed subId (.ok ())))
    | _ => none
  | .erase =>
    match c.api with
    | .unsubscribing subId =>
      some { c with callbacks := c.callbacks.erase subId, api := .erased subId }
    | _ => none
  | .check =>
    match c.api with
    | .erased subId =>
      if c.callbacks.isEmpty then
        some { c with stopRequested := true, api := .stopping (.unsubscribe subId) }
      else some (c.finish (.unsubscribed subId (.ok ())))
    | _ => none
  | .sync rc =>
    match c.api with
    | .stopping who =>
      match publishOnBus cfg (ofString "SYNC") [] rc with
      | .ok _ => some { c with api := .joining who }
      | .error e => some (c.stopped who (.error e))
    | _ => none
  | .join =>
    match c.api with
    | .joining who =>
      if ¬ c.joinable then some (c.stopped who (.error .notJoinable))
      else if c.listener.ended then
        some (({ c with joinable := false, listener := .absent } : Client).stopped who (.ok ()))
      else none
    | _ => none
  | .destroy =>
    match c.api with
    | .idle =>
      if ¬ c.callbacks.isEmpty then
        some { c with stopRequested := true, api := .stopping .destructor }
      else some c.destroyMembers
    | _ => none

/-- `notify_all` on `m_listenerStarted`: it wakes a thread that waits already. -/
def Client.notify (c : Client) : Client :=
  { c with api := if c.api = .waiting then .woken else c.api }

def Client.mutexFree (c : Client) : Bool :=
  match c.api with
  | .stored | .spawned => false
  | _ => true

/-- The loop over `m_callbacks`, with the calls made and those to make. -/
def callEach (ends : SubId → Except Error Unit) :
    List Invocation → List Invocation → Except Error (List Invocation)
  | invoked, [] => .ok invoked
  | invoked, item :: items => do
    -- Show Must Go On
    tryCatch (ends item.subId) fun _ => pure ()
    callEach ends (invoked ++ [item]) items

def Client.process (c : Client) (ends : SubId → Except Error Unit) (payload : List Bytes)
    (subject : Bytes) : Except Error Client := do
  let invoked ← callEach ends c.invoked
    (c.callbacks.toList.map fun item => ⟨item.1, item.2, payload, subject⟩)
  return { c with invoked := invoked }

def listenerStep (cfg : Config) (c : Client) : ListenerEvent → Option Client
  | .connect client rc =>
    match c.listener with
    | .started =>
      if ¬ client then some { c with listener := .failing .nullClient }
      else if rc ≠ 0 then some { c with listener := .failing (.connecting cfg.endpoint) }
      else some { c with listener := .connected }
    | _ => none
  | .setConsumer rc =>
    match c.listener with
    | .connected =>
      if rc ≠ 0 then some { c with listener := .failing (.becomingConsumer cfg.stream) }
      else some { c with listener := .consuming }
    | _ => none
  | .notify =>
    match c.listener with
    | .consuming => some { c.notify with listener := .polling }
    | .caught => some { c.notify with listener := .failed }
    | _ => none
  | .transfer =>
    match c.listener with
    | .failing e => some { c with exPtr := some e, listener := .caught }
    | _ => none
  | .receive =>
    match c.listener, c.queue with
    | .polling, m :: queue => some { c with listener := .received m, queue := queue }
    | _, _ => none
  | .receiveNull =>
    match c.listener with
    | .polling => some { c with listener := .receivedNull }
    | _ => none
  | .checkStop =>
    match c.listener with
    | .received m =>
      if c.stopRequested then some { c with listener := .left, queue := [] }
      else some { c with listener := .checked m }
    | .receivedNull =>
      if c.stopRequested then some { c with listener := .left, queue := [] }
      -- zmsg_size asserts that there is a message
      else some { c with listener := .aborted, queue := [] }
    | _ => none
  | .dispatch ends =>
    match c.listener with
    | .checked m =>
      if c.mutexFree then
        (collect m).map fun payload =>
          match c.process ends payload m.subject with
          | .ok c => { c with listener := .polling }
          | .error e => { c with listener := .failing e }
      else none
    | _ => none
  | .interrupt =>
    match c.listener with
    | .polling => some { c with listener := .left, queue := [] }
    | _ => none

/-- Malamute delivers the stream to the listener from `mlm_client_set_consumer`
on. -/
def Listener.consumes : Listener → Bool
  | .consuming | .polling | .received _ | .receivedNull | .checked _ => true
  | _ => false

def Client.deliver (c : Client) (m : StreamMsg) : Client :=
  if c.listener.consumes then { c with queue := c.queue ++ [m] } else c

inductive Event
  | api (e : ApiEvent)
  | listener (e : ListenerEvent)
  | deliver (m : StreamMsg)

def step (cfg : Config) (c : Client) : Event → Option Client
  | .api e => apiStep cfg c e
  | .listener e => listenerStep cfg c e
  | .deliver m => some (c.deliver m)

/-- No call of malamute fails. -/
def Calls.Succeed (rc : Calls) : Prop :=
  rc.client = true ∧ rc.connect = 0 ∧ rc.setProducer = 0 ∧ rc.send = 0

theorem publishOnBus_ok {cfg : Config} {type : Bytes} {payload : List Bytes} {rc : Calls}
    {m : StreamMsg} (h : publishOnBus cfg type payload rc = .ok m) :
    rc.Succeed ∧ m = { subject := type.cStr, frames := payload.map Bytes.cStr } := by
  unfold publishOnBus at h
  split at h
  · contradiction
  · rename_i hclient
    split at h
    · contradiction
    · rename_i hconnect
      split at h
      · contradiction
      · rename_i hproducer
        split at h
        · contradiction
        · rename_i hsend
          cases h
          refine ⟨⟨not_not.mp hclient, not_not.mp hconnect, not_not.mp hproducer,
            not_not.mp hsend⟩, ?_⟩
          rw [Zmsg.addAll_eq, List.nil_append]

theorem publishOnBus_error {cfg : Config} {type : Bytes} {payload : List Bytes} {rc : Calls}
    {e : Error} (h : publishOnBus cfg type payload rc = .error e) : ¬ rc.Succeed := by
  intro hgiven
  obtain ⟨hclient, hconnect, hproducer, hsend⟩ := hgiven
  simp [publishOnBus, hclient, hconnect, hproducer, hsend] at h

theorem publishOnBus_sent {cfg : Config} {type : Bytes} {payload : List Bytes} {rc : Calls}
    {m : StreamMsg} (h : m ∈ (publishOnBus cfg type payload rc).toOption.toList) :
    m = { subject := type.cStr, frames := payload.map Bytes.cStr } := by
  rw [Option.mem_toList] at h
  cases hp : publishOnBus cfg type payload rc with
  | error e => simp [hp, Except.toOption] at h
  | ok sent =>
    simp only [hp, Except.toOption, Option.some.injEq] at h
    rw [← h, (publishOnBus_ok hp).2]

theorem collect_eq (m : StreamMsg) : collect m = some (m.frames.map Bytes.cStr) :=
  Zmsg.popStrings_length m.frames

/-- The client behind the loop: each callback has been called. -/
def Client.handed (c : Client) (payload : List Bytes) (subject : Bytes) : Client :=
  { c with
    invoked := c.invoked ++
      c.callbacks.toList.map fun item => ⟨item.1, item.2, payload, subject⟩ }

/-- Whatever a callback throws, the next one is called. -/
theorem callEach_eq (ends : SubId → Except Error Unit) (invoked items : List Invocation) :
    callEach ends invoked items = .ok (invoked ++ items) := by
  induction items generalizing invoked with
  | nil => rw [callEach, List.append_nil]
  | cons item items ih =>
    have hcaught : (tryCatch (ends item.subId) fun _ => pure () : Except Error Unit) = .ok () := by
      cases ends item.subId <;> rfl
    have hrest := ih (invoked ++ [item])
    rw [List.append_assoc, List.singleton_append] at hrest
    rw [callEach, hcaught]
    exact hrest

theorem process_eq (c : Client) (ends : SubId → Except Error Unit) (payload : List Bytes)
    (subject : Bytes) : c.process ends payload subject = .ok (c.handed payload subject) := by
  rw [Client.process, callEach_eq]
  rfl

end FtyCommonMlm.MlmStreamClient
