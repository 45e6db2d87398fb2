import FtyCommonMlm.Agent.Serving
import FtyCommonMlm.Mailbox.Rpc

namespace FtyCommonMlm.Hosting
open Runs Serving
open MlmAgent (Loop)
open Exchange (Envelope)
open Bytes (ofString)

/-- The clients' calls, the messages in flight, and the main loop of the agent
that serves them. -/
structure State where
  calls : List Exchange.Call
  requests : List Envelope
  replies : List Envelope
  loop : Loop (List Served)

def State.start (now : Int64) : State := ⟨[], [], [], Loop.start now []⟩

/-- The requests among what a server has handled. -/
def handled (served : List Served) : List Exchange.Served :=
  served.filterMap fun e =>
    if e.delivery.subject.cStr = ofString "REQUEST" then
      some ⟨⟨e.delivery.sender, e.delivery.message⟩, e.handled⟩
    else none

/-- Clients and server with a server that does nothing but serve. -/
def State.view (s : State) : Exchange.State :=
  ⟨s.calls, s.requests, s.replies, handled s.loop.state⟩

inductive Event
  /-- What clients and broker do. -/
  | client (e : Exchange.Event)
  /-- A turn of the loop with anything but a request. -/
  | loop (e : MlmAgent.Event)
  /-- A turn in which `mlm_client_recv` returns the j-th request in flight. -/
  | receive (j : Nat) (curClock : Int64)

def serves : Exchange.Event → Bool
  | .serve .. => true
  | _ => false

/-- The turn brings the server a request. -/
def asks (e : MlmAgent.Event) : Bool :=
  e.mailbox.any fun d => d.subject.cStr = ofString "REQUEST"

def delivery (m : Envelope) : Delivery :=
  ⟨ofString "MAILBOX DELIVER", ofString "REQUEST", m.peer, m.frames⟩

/-- What the broker gets of what the server has sent since. -/
def sent (around : Surroundings) (before after : List Served) : List Envelope :=
  if around.rv before = 0 then
    (after.drop before.length).filterMap fun e => e.handled.reply.map fun r => ⟨r.1, r.2⟩
  else []

def step (name : Bytes) (around : Surroundings) (s : State) : Event → Option State
  | .client e =>
    if serves e then none
    else (Exchange.step name s.view e).map fun t =>
      { s with calls := t.calls, requests := t.requests, replies := t.replies }
  | .loop e =>
    if asks e then none
    else (serverLoop name around s.loop e).map fun l => { s with loop := l }
  | .receive j curClock =>
    match s.requests[j]? with
    | none => none
    | some m =>
      (serverLoop name around s.loop (.turn ⟨.client (some (delivery m)), curClock⟩)).map fun l =>
        { s with
          requests := s.requests.eraseIdx j
          replies := s.replies ++ sent around s.loop.state l.state
          loop := l }

/-- What an event is for clients and server. -/
def exchanged (around : Surroundings) (s : State) : Event → List Exchange.Event
  | .client e => [e]
  | .loop _ => []
  | .receive j _ => [.serve j (around.handleRequest s.loop.state) (around.rv s.loop.state)]

section Steps

variable {name : Bytes} {around : Surroundings}

theorem handled_append (served more : List Served) :
    handled (served ++ more) = handled served ++ handled more :=
  List.filterMap_append

theorem handled_quiet (name : Bytes) (around : Surroundings) {e : MlmAgent.Event}
    (h : asks e = false) (served : List Served) :
    handled (e.mailbox.map (serve name around served)).toList = [] := by
  cases hmailbox : e.mailbox with
  | none => rfl
  | some d => simpa [asks, hmailbox, handled] using h

theorem sent_snoc (around : Surroundings) (served : List Served) (e : Served) :
    sent around served (served ++ [e]) = if around.rv served = 0 then
      (e.handled.reply.map fun r => ⟨r.1, r.2⟩).toList else [] := by
  rw [sent, List.drop_left]
  split
  · cases hreply : e.handled.reply <;> simp [hreply]
  · rfl

theorem received_spec {l l' : Loop (List Served)} {m : Envelope} {curClock : Int64}
    (h : serverLoop name around l (.turn ⟨.client (some (delivery m)), curClock⟩) = some l') :
    l'.state = l.state ++ [serve name around l.state (delivery m)] ∧ l'.status = .running :=
  ⟨(serverLoop_spec h).1, (serverLoop_spec h).2 rfl⟩

/-- What clients and broker do is nothing to the server. -/
theorem served_of_client {s t : Exchange.State} {e : Exchange.Event} (he : serves e = false)
    (h : Exchange.step name s e = some t) : t.served = s.served := by
  cases Exchange.step_cases h with
  | serve j f rv m hm => contradiction
  | _ => rfl

/-- The main loop serves as a server does that does nothing else. -/
theorem simulates_exchange (name : Bytes) (around : Surroundings) :
    Simulates (step name around) (Exchange.step name) State.view (exchanged around)
      fun _ => True := by
  intro s e t _ h
  cases e with
  | client e =>
    simp only [step] at h
    split at h
    · contradiction
    · rename_i he
      obtain ⟨u, hu, rfl⟩ := Option.map_eq_some_iff.mp h
      have hserved := served_of_client (Bool.not_eq_true _ ▸ he) hu
      have hview : State.view { s with
          calls := u.calls, requests := u.requests, replies := u.replies } = u := by
        rw [State.view, show handled s.loop.state = u.served from hserved.symm]
      rw [hview]
      exact exec_cons.mpr ⟨u, hu, rfl⟩
  | loop e =>
    simp only [step] at h
    split at h
    · contradiction
    · rename_i he
      obtain ⟨l, hl, rfl⟩ := Option.map_eq_some_iff.mp h
      have hquiet := handled_quiet name around (Bool.not_eq_true _ ▸ he) s.loop.state
      simp [exchanged, exec, State.view, (serverLoop_spec hl).1, handled_append, hquiet]
  | receive j curClock =>
    simp only [step] at h
    split at h
    · contradiction
    · rename_i m hm
      obtain ⟨l, hl, rfl⟩ := Option.map_eq_some_iff.mp h
      obtain ⟨hstate, -⟩ := received_spec hl
      refine exec_cons.mpr ⟨_, ?_, rfl⟩
      simp only [Exchange.step, State.view, hm, hstate, sent_snoc, handled_append]
      rfl

/-- A loop that is over takes no further turn. -/
theorem serverLoop_over {l : Loop (List Served)} (hover : l.status ≠ .running)
    (e : MlmAgent.Event) : serverLoop name around l e = none := by
  cases e <;> simp [serverLoop, MlmAgent.mainloop, hover]

theorem step_over {s t : State} {e : Event} (hover : s.loop.status ≠ .running)
    (h : step name around s e = some t) :
    t.loop = s.loop ∧ ∀ x ∈ exchanged around s e, serves x = false := by
  cases e with
  | client e =>
    simp only [step] at h
    split at h
    · contradiction
    · rename_i he
      obtain ⟨u, _, rfl⟩ := Option.map_eq_some_iff.mp h
      refine ⟨rfl, ?_⟩
      intro x hx
      rw [List.mem_singleton.mp hx]
      exact Bool.not_eq_true _ ▸ he
  | loop e =>
    simp [step, serverLoop_over hover] at h
  | receive j curClock =>
    simp only [step, serverLoop_over hover] at h
    split at h <;> contradiction

theorem run_over {s t : State} {later : List Event} {more : List Exchange.Event}
    (hover : s.loop.status ≠ .running)
    (h : exec (logged (step name around) (exchanged around)) (s, []) later = some (t, more)) :
    t.loop = s.loop ∧ ∀ x ∈ more, serves x = false := by
  refine inv_of_exec (I := fun p : State × List Exchange.Event =>
    p.1.loop = s.loop ∧ ∀ x ∈ p.2, serves x = false) ⟨rfl, by simp⟩ ?_ h
  intro p e q hp hq
  obtain ⟨u, hu, rfl⟩ := logged_eq.mp hq
  obtain ⟨hloop, hnone⟩ := step_over (hp.1 ▸ hover) hu
  refine ⟨hloop.trans hp.1, ?_⟩
  intro x hx
  rcases List.mem_append.mp hx with hx | hx
  · exact hp.2 x hx
  · exact hnone x hx

/-- While the loop runs, the next request it takes can be any, and it runs on. -/
theorem receive_enabled {s : State} {j : Nat} (hrunning : s.loop.status = .running)
    (hj : j < s.requests.length) (curClock : Int64) :
    ∃ t, step name around s (.receive j curClock) = some t ∧ t.loop.status = .running := by
  obtain ⟨l, hl⟩ : ∃ l, serverLoop name around s.loop
      (.turn ⟨.client (some (delivery s.requests[j])), curClock⟩) = some l := by
    simp only [serverLoop, MlmAgent.mainloop, if_pos hrunning]
    exact ⟨_, rfl⟩
  simp only [step, List.getElem?_eq_getElem hj, hl, Option.map_some]
  exact ⟨_, rfl, (received_spec hl).2⟩

end Steps

/-- Client ids that the server reads back from the address. -/
def Readable : Event → Prop
  | .client e => Exchange.Readable e
  | _ => True

/-- With the main loop of an agent for a server, whatever else comes to it, calls
are remote calls still. The loop takes any request in flight until it is stopped
or interrupted, and none from then on. -/
theorem hosted_calls_are_remote (name : Bytes) (around : Surroundings) (now : Int64)
    (events : List Event) (s : State) (log : List Exchange.Event)
    (hid : ∀ e ∈ events, Readable e)
    (h : exec (logged (step name around) (exchanged around)) (State.start now, []) events =
      some (s, log)) :
    exec (Exchange.step name) Exchange.State.start log = some s.view ∧
    (∃ calls, exec (logged (Exchange.step name) Exchange.rpcActions)
        (Exchange.State.start, []) log = some (s.view, calls) ∧
      exec Rpc.step [] calls = some s.view.rpc ∧
      ∀ i c frames, s.calls[i]? = some c → c.phase = .done (.returned frames) →
        Rpc.Returned calls i c.clientId (c.payload.map Bytes.cStr) frames) ∧
    (s.loop.status = .running → ∀ j < s.requests.length, ∀ curClock, ∃ t,
      step name around s (.receive j curClock) = some t ∧ t.loop.status = .running) ∧
    (s.loop.status ≠ .running → ∀ later t more,
      exec (logged (step name around) (exchanged around)) (s, []) later = some (t, more) →
      t.loop = s.loop ∧ ∀ e ∈ more, serves e = false) := by
  have hreadable : ∀ e ∈ events, ∀ s, ∀ x ∈ exchanged around s e, Exchange.Readable x := by
    intro e he s x hx
    cases e with
    | client e =>
      rw [List.mem_singleton.mp hx]
      exact hid _ he
    | loop e => contradiction
    | receive j curClock =>
      rw [List.mem_singleton.mp hx]
      trivial
  have hstart : Exchange.Remote name (State.start now).view := Exchange.start_remote name
  obtain ⟨hexchange, calls, hcalls, hrpc⟩ := (simulates_exchange name around).through
    (Exchange.simulates_rpc name) (fun _ _ _ hs he hstep => Exchange.step_remote hs he hstep)
    hstart hreadable h
  refine ⟨hexchange, ⟨calls, hcalls, hrpc, ?_⟩, fun hrunning j hj curClock =>
    receive_enabled hrunning hj curClock, fun hover _ _ _ hlater => run_over hover hlater⟩
  intro i c frames hc hphase
  have hget : s.view.rpc[i]? = some ⟨c.clientId, c.payload.map Bytes.cStr, s.view.ran c,
      some (some frames)⟩ := by
    simp [Exchange.State.rpc, State.view, hc, hphase, Exchange.Phase.ended]
  exact ((Rpc.told hrpc).returned i _ frames hget rfl).2

/-- A message of a stream comes ahead of the request, and `$TERM` behind it. -/
def terminatedRun : List Event :=
  [.client (.call (ofString "client") 7 Exchange.firstUuid [ofString "This"]),
    .client (.sendto 0 0),
    .loop (.turn ⟨.client (some ⟨ofString "STREAM DELIVER", [], [], [ofString "news"]⟩), 0⟩),
    .receive 0 0, .client (.recv 0), .client (.deliver 0 0),
    .loop (.turn ⟨.pipe (some [ofString "$TERM"]), 0⟩)]

theorem terminated_server_is_remote : ∃ s log calls,
    exec (logged (step (ofString "agent") echo) (exchanged echo)) (State.start 0, [])
      terminatedRun = some (s, log) ∧ s.loop.status = .broken ∧
    exec Rpc.step [] calls = some s.view.rpc ∧
    Rpc.Returned calls 0 (ofString "client") [ofString "This"] [ofString "This"] := by
  have hid : ∀ e ∈ terminatedRun, Readable e := by
    simp only [terminatedRun, List.forall_mem_cons, List.not_mem_nil, false_imp_iff, implies_true,
      Readable, Exchange.Readable, and_true]
    decide
  obtain ⟨-, ⟨calls, -, hrpc, hreturned⟩, -⟩ :=
    hosted_calls_are_remote (ofString "agent") echo 0 terminatedRun _ _ hid rfl
  exact ⟨_, _, calls, rfl, rfl, hrpc, hreturned 0 _ _ rfl rfl⟩

end FtyCommonMlm.Hosting
