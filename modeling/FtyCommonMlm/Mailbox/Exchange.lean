import Mathlib.Data.List.Nodup
import FtyCommonMlm.Lib.Runs
import FtyCommonMlm.Mailbox.BasicServer

namespace FtyCommonMlm.Exchange
open MlmSyncClient MlmBasicMailboxServer Runs
open Bytes (ofString)

/-- Where a call of `syncRequestWithReply` is: before `mlm_client_sendto`, after
it, blocked in `mlm_client_recv`, or finished. -/
inductive Phase
  | preparing
  | sent
  | receiving
  | done (o : Outcome)
deriving DecidableEq

structure Call where
  clientId : Bytes
  threadId : UInt32
  uuid : Zuuid
  payload : List Bytes
  phase : Phase
deriving DecidableEq

/-- A mailbox message: the client's address it comes from or goes to, and its
frames. -/
structure Envelope where
  peer : Bytes
  frames : Zmsg
deriving DecidableEq

def Call.address (c : Call) : Bytes := MlmSyncClient.address c.clientId c.threadId

def Call.envelope (c : Call) : Envelope := ⟨c.address, request c.uuid c.payload⟩

def Phase.isDone : Phase → Bool
  | .done _ => true
  | _ => false

structure Served where
  request : Envelope
  handled : Handled

/-- The calls made so far, the messages in flight to the server's mailbox and
to the clients' mailboxes, and what the server has handled. The server's
mailbox is its own: nobody but the clients sends into it, and nobody but the
server into theirs. -/
structure State where
  calls : List Call
  requests : List Envelope
  replies : List Envelope
  served : List Served

def State.start : State := ⟨[], [], [], []⟩

inductive Event
  /-- A thread enters `syncRequestWithReply`. -/
  | call (clientId : Bytes) (threadId : UInt32) (uuid : Zuuid) (payload : List Bytes)
  /-- An exit before `mlm_client_recv`. -/
  | fail (i : Nat) (e : MlmSyncClient.Error)
  | sendto (i : Nat) (rc : Int)
  | recv (i : Nat)
  /-- `mlm_client_recv` returns the j-th reply in flight. -/
  | deliver (i j : Nat)
  /-- `mlm_client_recv` is interrupted and returns null. -/
  | interrupt (i : Nat)
  /-- The server handles the j-th request in flight. -/
  | serve (j : Nat) (handleRequest : HandleRequest) (rv : Int)
  | loseRequest (j : Nat)
  | loseReply (j : Nat)

/-- The exits of the function before `mlm_client_recv`. -/
def Phase.mayFail : Phase → MlmSyncClient.Error → Bool
  | .preparing, .nullClient | .preparing, .connecting _ => true
  | .preparing, .interrupted | .sent, .interrupted => true
  | _, _ => false

def State.setPhase (s : State) (i : Nat) (c : Call) (phase : Phase) : State :=
  { s with calls := s.calls.set i { c with phase := phase } }

/-- A new call draws a fresh correlation id, and its thread has no other call
under way. Any message in flight may be the next to arrive. -/
def step (name : Bytes) (s : State) : Event → Option State
  | .call clientId threadId uuid payload =>
    if s.calls.all (fun d => d.uuid != uuid && (d.threadId != threadId || d.phase.isDone)) then
      some { s with calls := s.calls ++ [⟨clientId, threadId, uuid, payload, .preparing⟩] }
    else none
  | .fail i e =>
    match s.calls[i]? with
    | none => none
    | some c => if c.phase.mayFail e then some (s.setPhase i c (.done (.threw e))) else none
  | .sendto i rc =>
    match s.calls[i]? with
    | none => none
    | some c =>
      if c.phase = .preparing then
        -- the client ignores the result of mlm_client_sendto
        some { s.setPhase i c .sent with
          requests := if rc = 0 then s.requests ++ [c.envelope] else s.requests }
      else none
  | .recv i =>
    match s.calls[i]? with
    | none => none
    | some c => if c.phase = .sent then some (s.setPhase i c .receiving) else none
  | .deliver i j =>
    match s.calls[i]?, s.replies[j]? with
    | some c, some r =>
      if c.phase = .receiving ∧ r.peer = c.address then
        some { s.setPhase i c (.done (readReply c.uuid (some r.frames))) with
          replies := s.replies.eraseIdx j }
      else none
    | _, _ => none
  | .interrupt i =>
    match s.calls[i]? with
    | none => none
    | some c =>
      if c.phase = .receiving then some (s.setPhase i c (.done (readReply c.uuid none))) else none
  | .serve j handleRequest rv =>
    match s.requests[j]? with
    | none => none
    | some m =>
      let handled :=
        handleMailbox name (ofString "REQUEST") m.peer m.frames handleRequest rv
      some { s with
        requests := s.requests.eraseIdx j
        replies := s.replies ++
          (if rv = 0 then (handled.reply.map fun r => ⟨r.1, r.2⟩).toList else [])
        served := s.served ++ [⟨m, handled⟩] }
  | .loseRequest j => some { s with requests := s.requests.eraseIdx j }
  | .loseReply j => some { s with replies := s.replies.eraseIdx j }

/-- What a step does to the calls: a new one begins, or one of them moves on
to another phase. -/
inductive CallsChange (s : State) : List Call → Prop
  | same : CallsChange s s.calls
  | begin (c : Call) (hphase : c.phase = .preparing)
      (huuid : ∀ d ∈ s.calls, d.uuid ≠ c.uuid)
      (hthread : ∀ d ∈ s.calls, d.threadId = c.threadId → d.phase.isDone = true) :
      CallsChange s (s.calls ++ [c])
  | move (i : Nat) (c : Call) (phase : Phase) (hc : s.calls[i]? = some c)
      (hlive : c.phase.isDone = false) (hlater : phase ≠ .preparing) :
      CallsChange s (s.calls.set i { c with phase := phase })

theorem mayFail_live {phase : Phase} {e : MlmSyncClient.Error}
    (h : phase.mayFail e = true) : phase.isDone = false := by
  cases phase <;> first | rfl | (cases e <;> simp [Phase.mayFail] at h)

/-- All a step can do. -/
inductive Stepped (name : Bytes) (s : State) : Event → State → Prop
  | call (clientId : Bytes) (threadId : UInt32) (uuid : Zuuid) (payload : List Bytes)
      (huuid : ∀ d ∈ s.calls, d.uuid ≠ uuid)
      (hthread : ∀ d ∈ s.calls, d.threadId = threadId → d.phase.isDone = true) :
      Stepped name s (.call clientId threadId uuid payload)
        { s with calls := s.calls ++ [⟨clientId, threadId, uuid, payload, .preparing⟩] }
  | fail (i : Nat) (e : MlmSyncClient.Error) (c : Call) (hc : s.calls[i]? = some c)
      (hf : c.phase.mayFail e = true) :
      Stepped name s (.fail i e) (s.setPhase i c (.done (.threw e)))
  | sendto (i : Nat) (rc : Int) (c : Call) (hc : s.calls[i]? = some c)
      (hp : c.phase = .preparing) :
      Stepped name s (.sendto i rc) { s.setPhase i c .sent with
        requests := if rc = 0 then s.requests ++ [c.envelope] else s.requests }
  | recv (i : Nat) (c : Call) (hc : s.calls[i]? = some c) (hp : c.phase = .sent) :
      Stepped name s (.recv i) (s.setPhase i c .receiving)
  | deliver (i j : Nat) (c : Call) (r : Envelope) (hc : s.calls[i]? = some c)
      (hr : s.replies[j]? = some r) (hp : c.phase = .receiving) (haddr : r.peer = c.address) :
      Stepped name s (.deliver i j) { s.setPhase i c (.done (readReply c.uuid (some r.frames))) with
        replies := s.replies.eraseIdx j }
  | interrupt (i : Nat) (c : Call) (hc : s.calls[i]? = some c) (hp : c.phase = .receiving) :
      Stepped name s (.interrupt i) (s.setPhase i c (.done (readReply c.uuid none)))
  | serve (j : Nat) (f : HandleRequest) (rv : Int) (m : Envelope)
      (hm : s.requests[j]? = some m) :
      Stepped name s (.serve j f rv) { s with
        requests := s.requests.eraseIdx j
        replies := s.replies ++ (if rv = 0 then
          ((handleMailbox name (ofString "REQUEST") m.peer m.frames f rv).reply.map
            fun r => ⟨r.1, r.2⟩).toList else [])
        served := s.served ++
          [⟨m, handleMailbox name (ofString "REQUEST") m.peer m.frames f rv⟩] }
  | loseRequest (j : Nat) :
      Stepped name s (.loseRequest j) { s with requests := s.requests.eraseIdx j }
  | loseReply (j : Nat) :
      Stepped name s (.loseReply j) { s with replies := s.replies.eraseIdx j }

theorem step_cases {name : Bytes} {s t : State} {e : Event} (h : step name s e = some t) :
    Stepped name s e t := by
  cases e with
  | call clientId threadId uuid payload =>
    simp only [step] at h
    split at h
    · rename_i hall
      cases h
      have hd := List.all_eq_true.mp hall
      simp only [Bool.and_eq_true, Bool.or_eq_true, bne_iff_ne] at hd
      refine .call _ _ _ _ (fun d hm => (hd d hm).1) ?_
      intro d hm ht
      exact (hd d hm).2.resolve_left fun hne => hne ht
    · contradiction
  | fail i e =>
    simp only [step] at h
    split at h
    · contradiction
    · rename_i c hc
      split at h
      · rename_i hf
        cases h
        exact .fail i e c hc hf
      · contradiction
  | sendto i rc | recv i | interrupt i =>
    simp only [step] at h
    split at h
    · contradiction
    · rename_i c hc
      split at h
      · rename_i hp
        cases h
        constructor
        · exact hc
        · exact hp
      · contradiction
  | deliver i j =>
    simp only [step] at h
    split at h
    · rename_i c r hc hr
      split at h
      · rename_i hp
        cases h
        exact .deliver i j c r hc hr hp.1 hp.2
      · contradiction
    · contradiction
  | serve j f rv =>
    simp only [step] at h
    split at h
    · contradiction
    · rename_i m hm
      cases h
      exact .serve j f rv m hm
  | loseRequest j =>
    cases h
    exact .loseRequest j
  | loseReply j =>
    cases h
    exact .loseReply j

theorem step_calls {name : Bytes} {s t : State} {e : Event} (h : step name s e = some t) :
    CallsChange s t.calls := by
  cases step_cases h with
  | call clientId threadId uuid payload huuid hthread => exact .begin _ rfl huuid hthread
  | fail i e c hc hf => exact .move i c _ hc (mayFail_live hf) (by simp)
  | sendto i rc c hc hp => exact .move i c _ hc (by rw [hp]; rfl) (by simp)
  | recv i c hc hp => exact .move i c _ hc (by rw [hp]; rfl) (by simp)
  | deliver i j c r hc hr hp haddr => exact .move i c _ hc (by rw [hp]; rfl) (by simp)
  | interrupt i c hc hp => exact .move i c _ hc (by rw [hp]; rfl) (by simp)
  | serve j f rv m hm => exact .same
  | loseRequest j => exact .same
  | loseReply j => exact .same

/-- A call keeps who makes it and what it asks for. -/
theorem CallsChange.kept {s : State} {calls : List Call} (h : CallsChange s calls) {c : Call}
    (hc : c ∈ s.calls) : ∃ c' ∈ calls, c'.uuid = c.uuid ∧ c'.envelope = c.envelope ∧
      (c.phase ≠ .preparing → c'.phase ≠ .preparing) := by
  cases h with
  | same => exact ⟨c, hc, rfl, rfl, id⟩
  | begin d => exact ⟨c, List.mem_append_left _ hc, rfl, rfl, id⟩
  | move i d phase hd hlive hlater =>
    obtain ⟨j, hj⟩ := List.mem_iff_getElem?.mp hc
    by_cases hij : i = j
    · subst hij
      rw [hd] at hj
      cases hj
      obtain ⟨hlt, _⟩ := List.getElem?_eq_some_iff.mp hd
      exact ⟨_, List.mem_set hlt _, rfl, rfl, fun _ => hlater⟩
    · have hj' : (s.calls.set i { d with phase := phase })[j]? = some c := by
        rw [List.getElem?_set_ne hij, hj]
      exact ⟨c, List.mem_of_getElem? hj', rfl, rfl, id⟩

theorem CallsChange.uuids {s : State} {calls : List Call} (h : CallsChange s calls)
    (hn : (s.calls.map Call.uuid).Nodup) : (calls.map Call.uuid).Nodup := by
  cases h with
  | same => exact hn
  | begin c _ huuid _ =>
    rw [List.map_append, List.map_singleton]
    refine List.nodup_append.mpr ⟨hn, by simp, ?_⟩
    intro u hu v hv
    obtain ⟨d, hd, rfl⟩ := List.mem_map.mp hu
    rw [List.mem_singleton.mp hv]
    exact huuid d hd
  | move i c phase hc =>
    obtain ⟨hlt, hget⟩ := List.getElem?_eq_some_iff.mp hc
    have hlt : i < (s.calls.map Call.uuid).length := by simpa using hlt
    have hu : (s.calls.map Call.uuid)[i] = c.uuid := by simp [hget]
    rw [List.map_set]
    change ((s.calls.map Call.uuid).set i c.uuid).Nodup
    rw [← hu, List.set_getElem_self]
    exact hn

/-- The correlation id determines the call. -/
theorem call_of_uuid {calls : List Call} (hn : (calls.map Call.uuid).Nodup) {c d : Call}
    (hc : c ∈ calls) (hd : d ∈ calls) (he : c.uuid = d.uuid) : c = d :=
  List.inj_on_of_nodup_map hn hc hd he

theorem uuid_of_envelope {c d : Call} (h : c.envelope = d.envelope) : c.uuid = d.uuid := by
  have hf := congrArg Envelope.frames h
  simp only [Call.envelope, request_eq, List.cons.injEq] at hf
  exact Zuuid.ext hf.1

end FtyCommonMlm.Exchange
