import FtyCommonMlm.Lib.Rpc
import FtyCommonMlm.Lib.Simulation
import FtyCommonMlm.Mailbox.Address
import FtyCommonMlm.Mailbox.Correlation

namespace FtyCommonMlm.Exchange
open MlmSyncClient MlmBasicMailboxServer Runs
open Bytes (ofString)

/-- What `handleRequest` comes to for the client: the results as it would get
them, or nothing where no reply is sent. -/
def procedure (handleRequest : HandleRequest) (sender : Bytes) (payload : List Bytes) :
    Option (List Bytes) :=
  match handleRequest sender payload with
  | .error _ => none
  | .ok [] => none
  | .ok (r :: rs) => some ((r :: rs).map Bytes.cStr)

/-- What the server has made of a call's request, once it has handled it. -/
def State.ran (s : State) (c : Call) : Option (Option (List Bytes)) :=
  (s.served.find? (fun v => v.request = c.envelope)).map fun v =>
    v.handled.reply.map fun r => r.2.tail

def Phase.ended : Phase → Option (Option (List Bytes))
  | .done (.returned frames) => some (some frames)
  | .done _ => some none
  | _ => none

/-- Clients and server as remote calls. -/
def State.rpc (s : State) : List (Rpc.Call Bytes (List Bytes) (List Bytes)) :=
  s.calls.map fun c => ⟨c.clientId, c.payload.map Bytes.cStr, s.ran c, c.phase.ended⟩

/-- What an event is for the remote calls. Sends, waits and losses are nothing
to them. -/
def rpcActions (s : State) : Event → List (Rpc.Action Bytes (List Bytes) (List Bytes))
  | .call clientId _ _ payload => [.begin clientId (payload.map Bytes.cStr)]
  | .fail i _ | .interrupt i => [.fail i]
  | .deliver i j =>
    match s.calls[i]?, s.replies[j]? with
    | some c, some r =>
      match readReply c.uuid (some r.frames) with
      | .returned _ => [.ret i]
      | _ => [.fail i]
    | _, _ => []
  | .serve j handleRequest _ =>
    match s.requests[j]? with
    | none => []
    | some m => [.run (s.calls.findIdx fun c => c.envelope = m) (procedure handleRequest)]
  | _ => []

/-- Client ids that the server reads back from the address. -/
def Readable : Event → Prop
  | .call clientId _ _ _ => clientId.NoNul ∧ clientId.length + 1 + pidWidth < 2 ^ 64
  | _ => True

/-- The invariant under which the calls are remote calls. -/
structure Remote (name : Bytes) (s : State) : Prop extends Inv name s where
  ids : ∀ c ∈ s.calls, c.clientId.NoNul ∧ c.clientId.length + 1 + pidWidth < 2 ^ 64

theorem senderName_address {c : Call}
    (hid : c.clientId.NoNul ∧ c.clientId.length + 1 + pidWidth < 2 ^ 64) :
    senderName c.address = c.clientId :=
  ClientId.senderName_address ⟨c.clientId, hid.1, hid.2⟩ c.threadId.toInt32

theorem step_remote {name : Bytes} {s t : State} {e : Event} (hs : Remote name s)
    (he : Readable e) (h : step name s e = some t) : Remote name t := by
  refine ⟨step_inv hs.toInv h, ?_⟩
  have hmoved : ∀ (i : Nat) (c : Call) (phase : Phase), s.calls[i]? = some c →
      ∀ d ∈ s.calls.set i { c with phase := phase },
        d.clientId.NoNul ∧ d.clientId.length + 1 + pidWidth < 2 ^ 64 := by
    intro i c phase hc d hd
    rcases List.mem_or_eq_of_mem_set hd with hd | rfl
    · exact hs.ids d hd
    · exact hs.ids c (List.mem_of_getElem? hc)
  cases step_cases h with
  | call clientId threadId uuid payload huuid hthread =>
    intro d hd
    rcases List.mem_append.mp hd with hd | hd
    · exact hs.ids d hd
    · rw [List.mem_singleton.mp hd]
      exact he
  | fail i e c hc hf => exact hmoved i c _ hc
  | sendto i rc c hc hp => exact hmoved i c _ hc
  | recv i c hc hp => exact hmoved i c _ hc
  | deliver i j c r hc hr hp haddr => exact hmoved i c _ hc
  | interrupt i c hc hp => exact hmoved i c _ hc
  | serve j f rv m hm => exact hs.ids
  | loseRequest j => exact hs.ids
  | loseReply j => exact hs.ids

/-- What the server makes of the request of a call is what the procedure comes
to for the call's client. -/
theorem handled_procedure (name : Bytes) {c : Call} (f : HandleRequest) (rv : Int)
    (hid : c.clientId.NoNul ∧ c.clientId.length + 1 + pidWidth < 2 ^ 64) :
    ((handleMailbox name (ofString "REQUEST") c.envelope.peer c.envelope.frames f
      rv).reply.map fun r => r.2.tail) = procedure f c.clientId (c.payload.map Bytes.cStr) := by
  have hne : c.uuid.text.cStr ≠ [] := by
    rw [c.uuid.noNul.cStr_eq]
    exact c.uuid.nonempty
  have haddr : c.address.cStr = c.address := Bytes.cStr_cStr _
  obtain ⟨_, hreply, _⟩ := handleMailbox_request name c.address c.uuid.text
    (c.payload.map Bytes.cStr) f rv hne
  rw [haddr, senderName_address hid, Bytes.map_cStr_map_cStr] at hreply
  rw [Call.envelope, request_eq, hreply, procedure]
  cases f c.clientId (c.payload.map Bytes.cStr) with
  | error _ => rfl
  | ok results =>
    cases results with
    | nil => rfl
    | cons r rs => simp [replyFor, replyMessage_eq]

/-- Only the serving of its request changes what has been made of a call. -/
theorem ran_of_served {s t : State} (h : t.served = s.served) {c d : Call}
    (he : d.envelope = c.envelope) : t.ran d = s.ran c := by
  rw [State.ran, State.ran, h, he]

/-- A call that moves on is the same remote call, ended as its phase says. -/
theorem rpc_move {s t : State} {i : Nat} {c : Call} {phase : Phase} (hc : s.calls[i]? = some c)
    (ht : t.calls = s.calls.set i { c with phase := phase }) (hserved : t.served = s.served) :
    t.rpc = s.rpc.set i ⟨c.clientId, c.payload.map Bytes.cStr, s.ran c, phase.ended⟩ ∧
      s.rpc[i]? = some ⟨c.clientId, c.payload.map Bytes.cStr, s.ran c, c.phase.ended⟩ := by
  refine ⟨?_, by simp [State.rpc, hc]⟩
  have hran : ∀ d : Call, t.ran d = s.ran d := fun d => ran_of_served hserved rfl
  simp only [State.rpc, ht, List.map_set, hran]
  rfl

theorem ended_of_live {phase : Phase} (h : phase.isDone = false) : phase.ended = none := by
  cases phase <;> first | rfl | contradiction

/-- A call that fails. -/
theorem rpc_fail {s t : State} {i : Nat} {c : Call} {phase : Phase} (hc : s.calls[i]? = some c)
    (hlive : c.phase.isDone = false) (hphase : phase.ended = some none)
    (ht : t.calls = s.calls.set i { c with phase := phase }) (hserved : t.served = s.served) :
    exec Rpc.step s.rpc [.fail i] = some t.rpc := by
  obtain ⟨hset, hget⟩ := rpc_move hc ht hserved
  rw [exec, Rpc.step, hget, ended_of_live hlive, hset, hphase]
  rfl

/-- A move on that does not end the call is nothing to the remote calls. -/
theorem rpc_stay {s t : State} {i : Nat} {c : Call} {phase : Phase} (hc : s.calls[i]? = some c)
    (hphase : phase.ended = c.phase.ended)
    (ht : t.calls = s.calls.set i { c with phase := phase }) (hserved : t.served = s.served) :
    exec Rpc.step s.rpc [] = some t.rpc := by
  obtain ⟨hset, hget⟩ := rpc_move hc ht hserved
  obtain ⟨hlt, hself⟩ := List.getElem?_eq_some_iff.mp hget
  rw [hset, hphase, ← hself, List.set_getElem_self]
  rfl

/-- The server handles a request once, so what it has made of it is found. -/
theorem Inv.find_served {name : Bytes} {s : State} (h : Inv name s) {v : Served} {c : Call}
    (hv : v ∈ s.served) (hreq : v.request = c.envelope) :
    s.served.find? (fun v => v.request = c.envelope) = some v := by
  obtain ⟨w, hw⟩ := Option.isSome_iff_exists.mp
    (List.find?_isSome.mpr ⟨v, hv, decide_eq_true hreq⟩ :
      (s.served.find? fun v => v.request = c.envelope).isSome)
  have hwreq : w.request = c.envelope := by simpa using List.find?_some hw
  have hn : (s.served.map Served.request).Nodup := (List.nodup_append.mp h.once).2.1
  rw [hw, List.inj_on_of_nodup_map hn (List.mem_of_find?_eq_some hw) hv (hwreq.trans hreq.symm)]

/-- A call that returns frames returns what its own procedure has come to. -/
theorem Inv.ran_of_reply {name : Bytes} {s : State} (h : Inv name s) {c : Call} {r : Envelope}
    {frames : List Bytes} (hc : c ∈ s.calls) (hr : r ∈ s.replies)
    (hread : readReply c.uuid (some r.frames) = .returned frames) :
    s.ran c = some (some frames) := by
  obtain ⟨v, hv, hreply⟩ := h.replies r hr
  obtain ⟨d, hd, _, hreq⟩ := (h.served v hv).1
  obtain ⟨_, _, results, _, _, hframes⟩ := h.reply_built hv hreq hreply
  have hheader := readReply_returned_iff.mp hread
  rw [hframes, List.map_cons, d.uuid.noNul.cStr_eq, Bytes.map_cStr_map_cStr,
    List.cons.injEq] at hheader
  have hdc := call_of_uuid h.uuids hd hc (Zuuid.ext hheader.1)
  subst hdc
  rw [State.ran, h.find_served hv hreq, Option.map_some, hreply, Option.map_some, hframes,
    List.tail_cons, hheader.2]

theorem ran_snoc (s : State) (v : Served) (c : Call) (calls : List Call)
    (requests replies : List Envelope) :
    State.ran ⟨calls, requests, replies, s.served ++ [v]⟩ c =
      (s.ran c).or (if v.request = c.envelope then
        some (v.handled.reply.map fun r => r.2.tail) else none) := by
  by_cases he : v.request = c.envelope <;> simp [State.ran, List.find?_append, he]

/-- The request the server takes is that of a call, at one index. -/
theorem Inv.call_of_request {name : Bytes} {s : State} (h : Inv name s) {m : Envelope}
    (hm : m ∈ s.requests) :
    ∃ c, s.calls[s.calls.findIdx fun c => c.envelope = m]? = some c ∧ c.envelope = m := by
  obtain ⟨d, hd, _, hdm⟩ := h.requests m hm
  have hlt : (s.calls.findIdx fun c => c.envelope = m) < s.calls.length :=
    List.findIdx_lt_length_of_exists ⟨d, hd, decide_eq_true hdm.symm⟩
  refine ⟨_, List.getElem?_eq_getElem hlt, ?_⟩
  simpa using List.findIdx_getElem (w := hlt)

theorem Inv.index_of_envelope {name : Bytes} {s : State} (h : Inv name s) {i k : Nat} {c d : Call}
    (hc : s.calls[i]? = some c) (hd : s.calls[k]? = some d) (he : c.envelope = d.envelope) :
    i = k := by
  obtain ⟨hlt, _⟩ := List.getElem?_eq_some_iff.mp hc
  have hlt : i < (s.calls.map Call.uuid).length := by simpa using hlt
  refine (List.getElem?_inj hlt h.uuids).mp ?_
  rw [List.getElem?_map, List.getElem?_map, hc, hd, Option.map_some, Option.map_some,
    uuid_of_envelope he]

theorem rpc_serve {name : Bytes} {s t : State} {j : Nat} {f : HandleRequest} {rv : Int}
    (hs : Remote name s) (h : step name s (.serve j f rv) = some t) :
    exec Rpc.step s.rpc (rpcActions s (.serve j f rv)) = some t.rpc := by
  cases step_cases h with
  | serve _ _ _ m hm =>
    have hmem := List.mem_of_getElem? hm
    obtain ⟨c, hc, hcm⟩ := hs.call_of_request hmem
    have hnone : s.ran c = none := by
      have hdisjoint := (List.nodup_append.mp hs.once).2.2
      rw [State.ran, Option.map_eq_none_iff, List.find?_eq_none]
      intro v hv hreq
      exact hdisjoint m hmem v.request (List.mem_map_of_mem hv)
        ((of_decide_eq_true hreq).trans hcm).symm
    have hhandled := handled_procedure name f rv (hs.ids c (List.mem_of_getElem? hc))
    rw [hcm] at hhandled
    simp only [rpcActions, hm]
    generalize (s.calls.findIdx fun c => c.envelope = m) = i at hc
    obtain ⟨hlt, _⟩ := List.getElem?_eq_some_iff.mp hc
    have hget : s.rpc[i]? =
        some ⟨c.clientId, c.payload.map Bytes.cStr, none, c.phase.ended⟩ := by
      simp [State.rpc, hc, hnone]
    simp only [exec, Rpc.step, hget, Option.isNone_none, if_true, Option.bind_some,
      Option.some.injEq]
    refine List.ext_getElem? fun k => ?_
    by_cases hk : i = k
    · subst hk
      have hlt' : i < s.rpc.length := by simpa [State.rpc] using hlt
      rw [List.getElem?_set_self hlt']
      simp [State.rpc, hc, ran_snoc, hnone, hcm, hhandled]
    · rw [List.getElem?_set_ne hk]
      cases hd : s.calls[k]? with
      | none => simp [State.rpc, hd]
      | some d =>
        have hne : m ≠ d.envelope := fun he => hk (hs.index_of_envelope hc hd (hcm.trans he))
        simp [State.rpc, hd, ran_snoc, hne]

/-- A call that begins has not been handled. -/
theorem Inv.ran_begin {name : Bytes} {s : State} (h : Inv name s) {c : Call}
    (huuid : ∀ d ∈ s.calls, d.uuid ≠ c.uuid) : s.ran c = none := by
  rw [State.ran, Option.map_eq_none_iff, List.find?_eq_none]
  intro v hv hreq
  obtain ⟨d, hd, _, hvd⟩ := (h.served v hv).1
  exact huuid d hd (uuid_of_envelope (hvd.symm.trans (of_decide_eq_true hreq)))

theorem rpc_deliver {name : Bytes} {s t : State} {i j : Nat} (hs : Remote name s)
    (h : step name s (.deliver i j) = some t) :
    exec Rpc.step s.rpc (rpcActions s (.deliver i j)) = some t.rpc := by
  cases step_cases h with
  | deliver _ _ c r hc hr hp haddr =>
    have hlive : c.phase.isDone = false := by rw [hp]; rfl
    simp only [rpcActions, hc, hr]
    cases hread : readReply c.uuid (some r.frames) with
    | returned frames =>
      obtain ⟨hset, hget⟩ := rpc_move (t := { s.setPhase i c (.done (.returned frames)) with
        replies := s.replies.eraseIdx j }) hc rfl rfl
      have hran := hs.ran_of_reply (List.mem_of_getElem? hc) (List.mem_of_getElem? hr) hread
      rw [hset, exec, Rpc.step, hget, ended_of_live hlive, hran]
      rfl
    | threw e => exact rpc_fail hc hlive rfl rfl rfl
    | aborted => exact rpc_fail hc hlive rfl rfl rfl

/-- Clients, server and broker are a machine of remote calls. -/
theorem simulates_rpc (name : Bytes) :
    Simulates (step name) Rpc.step State.rpc rpcActions (Remote name) := by
  intro s e t hs h
  cases step_cases h with
  | call clientId threadId uuid payload huuid hthread =>
    have hran : ∀ c : Call, State.ran { s with
        calls := s.calls ++ [⟨clientId, threadId, uuid, payload, .preparing⟩] } c = s.ran c :=
      fun c => ran_of_served rfl rfl
    have hnew := hs.ran_begin (c := ⟨clientId, threadId, uuid, payload, .preparing⟩) huuid
    simp only [rpcActions, exec, Rpc.step, Option.bind_some, State.rpc, List.map_append, hran,
      List.map_singleton, hnew, Phase.ended]
  | fail i e c hc hf => exact rpc_fail hc (mayFail_live hf) rfl rfl rfl
  | sendto i rc c hc hp => exact rpc_stay hc (by rw [hp]; rfl) rfl rfl
  | recv i c hc hp => exact rpc_stay hc (by rw [hp]; rfl) rfl rfl
  | deliver i j c r hc hr hp haddr => exact rpc_deliver hs h
  | interrupt i c hc hp => exact rpc_fail hc (by rw [hp]; rfl) rfl rfl rfl
  | serve j f rv m hm => exact rpc_serve hs h
  | loseRequest j | loseReply j => rfl

theorem start_remote (name : Bytes) : Remote name State.start :=
  ⟨start_inv name, by simp [State.start]⟩

/-- Any run of clients and server, whatever is lost or fails on the way, is one
of remote calls: a call that returns returns what `handleRequest` made of its
client id and payload, in the one run it had for the call, after the call had
begun and before it returned. -/
theorem calls_are_remote (name : Bytes) (events : List Event) (s : State)
    (log : List (Rpc.Action Bytes (List Bytes) (List Bytes)))
    (hid : ∀ e ∈ events, Readable e)
    (h : exec (logged (step name) rpcActions) (State.start, []) events = some (s, log)) :
    exec Rpc.step [] log = some s.rpc ∧
    ∀ i c frames, s.calls[i]? = some c → c.phase = .done (.returned frames) →
      Rpc.Returned log i c.clientId (c.payload.map Bytes.cStr) frames := by
  have hrun := (simulates_rpc name).run
    (G := fun _ e => Readable e) (fun _ _ _ hs he hstep => step_remote hs he hstep)
    (start_remote name) (guarded_of_forall fun e he _ => hid e he) h
  refine ⟨hrun, ?_⟩
  intro i c frames hc hphase
  have hget : s.rpc[i]? = some ⟨c.clientId, c.payload.map Bytes.cStr, s.ran c,
      some (some frames)⟩ := by
    simp [State.rpc, hc, hphase, Phase.ended]
  exact ((Rpc.told hrun).returned i _ frames hget rfl).2

def remoteUuid : Zuuid := ⟨ofString "b1c2", by decide, by decide⟩

/-- A call that is interrupted, and one that comes after it in the same thread. -/
def retriedRun : List Event :=
  [.call (ofString "client") 7 firstUuid [ofString "This"], .sendto 0 0, .fail 0 .interrupted,
    .call (ofString "client") 7 remoteUuid [ofString "That"], .sendto 1 0, .recv 1,
    .serve 1 (fun _ payload => .ok payload) 0, .serve 0 (fun _ payload => .ok payload) 0,
    .deliver 1 0]

theorem retried_call_is_remote : ∃ s log,
    exec (logged (step (ofString "agent")) rpcActions) (State.start, []) retriedRun =
      some (s, log) ∧ exec Rpc.step [] log = some s.rpc ∧
    Rpc.Returned log 1 (ofString "client") [ofString "That"] [ofString "That"] := by
  have hid : ∀ e ∈ retriedRun, Readable e := by
    simp only [retriedRun, List.forall_mem_cons, List.not_mem_nil, false_imp_iff, implies_true,
      Readable, and_true, true_and]
    decide
  obtain ⟨hrun, hreturned⟩ := calls_are_remote (ofString "agent") retriedRun _ _ hid rfl
  exact ⟨_, _, rfl, hrun, hreturned 1 _ _ rfl rfl⟩

end FtyCommonMlm.Exchange
