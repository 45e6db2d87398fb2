import FtyCommonMlm.Tntmlm.Session
import FtyCommonMlm.Mailbox.BasicServer
import FtyCommonMlm.Addresses

namespace FtyCommonMlm.Answers
open Runs Search MlmBasicMailboxServer
open MlmClient (Sent Turn behind connectName)
open Bytes (ofString)

structure Served where
  request : Sent
  handled : Handled

/-- An `MlmClient` and the `MlmBasicMailboxServer`s it sends to: the messages in
flight to them and back, what they have handled, and what others have sent to the
client. -/
structure World where
  client : MlmClient.State
  requests : List Sent
  replies : List Zmsg
  served : List Served
  others : List Zmsg

def World.start : World := ⟨MlmClient.State.start, [], [], [], []⟩

inductive Event
  /-- Something of the client's own, which is no arrival. -/
  | call (e : MlmClient.Event)
  | other (m : Zmsg)
  /-- The j-th request in flight is handled by the server of its address. -/
  | serve (j : Nat) (name : Bytes) (handleRequest : HandleRequest) (rv : Int)
  | deliver (j : Nat)
  | loseRequest (j : Nat)
  | loseReply (j : Nat)

def step (uuid : Octets) (w : World) : Event → Option World
  | .call (.arrive _) => none
  | .call e =>
    (MlmClient.step w.client e).map fun client =>
      { w with
        client := client
        requests := w.requests ++ client.sent.drop w.client.sent.length }
  | .other m =>
    (MlmClient.step w.client (.arrive m)).map fun client =>
      { w with client := client, others := w.others ++ [m] }
  | .serve j name handleRequest rv =>
    match w.requests[j]? with
    | none => none
    | some q =>
      if q.address = name.cStr then
        let sender := (connectName uuid).cStr
        let handled := handleMailbox name q.subject sender q.message handleRequest rv
        some { w with
          requests := w.requests.eraseIdx j
          replies := w.replies ++ (if rv = 0 then (handled.reply.map Prod.snd).toList else [])
          served := w.served ++ [⟨q, handled⟩] }
      else none
  | .deliver j =>
    match w.replies[j]? with
    | none => none
    | some m =>
      (MlmClient.step w.client (.arrive m)).map fun client =>
        { w with client := client, replies := w.replies.eraseIdx j }
  | .loseRequest j => some { w with requests := w.requests.eraseIdx j }
  | .loseReply j => some { w with replies := w.replies.eraseIdx j }

/-- The caller has handed it to `sendto`. -/
def Handed (events : List Event) (q : Sent) : Prop :=
  ∃ address subject timeout content, .call (.sendto address subject timeout content) ∈ events ∧
    q = MlmClient.sendto address subject timeout content

def Replied (w : World) (m : Zmsg) : Prop :=
  ∃ v ∈ w.served, ∃ addr, v.handled.reply = some (addr, m)

/-- Everything a server has to say is about something the client has sent. -/
structure Inv (uuid : Octets) (w : World) (events : List Event) : Prop where
  client : MlmClient.Inv w.client
  sent : ∀ q ∈ w.client.sent, Handed events q ∨ ∃ rest, q.message = ofString "REQUEST" :: rest
  requests : ∀ q ∈ w.requests, q ∈ w.client.sent
  served : ∀ v ∈ w.served, v.request ∈ w.client.sent ∧ ∃ name handleRequest rv,
    v.handled = handleMailbox name v.request.subject (connectName uuid).cStr v.request.message
      handleRequest rv
  replies : ∀ m ∈ w.replies, Replied w m
  arrived : ∀ m ∈ w.client.arrived, m ∈ w.others ∨ Replied w m

section Steps

variable {uuid : Octets} {w w' : World} {events : List Event}

theorem start_inv (uuid : Octets) : Inv uuid World.start [] := by
  refine ⟨MlmClient.start_inv, ?_, ?_, ?_, ?_, ?_⟩
  all_goals
    intro x hx
    contradiction

theorem Handed.later {q : Sent} {more : List Event} (h : Handed events q) :
    Handed (events ++ more) q := by
  obtain ⟨address, subject, timeout, content, hmem, hq⟩ := h
  exact ⟨address, subject, timeout, content, List.mem_append_left _ hmem, hq⟩

/-- What a call sends. -/
theorem sent_of_step {s t : MlmClient.State} {e : MlmClient.Event} (harrive : ∀ m, e ≠ .arrive m)
    (h : MlmClient.step s e = some t) :
    t.arrived = s.arrived ∧ ∃ new, t.sent = s.sent ++ new ∧
      ∀ q ∈ new, Handed [.call e] q ∨ ∃ rest, q.message = ofString "REQUEST" :: rest := by
  have hrefl : ∃ new, s.sent = s.sent ++ new ∧
      ∀ q ∈ new, Handed [.call e] q ∨ ∃ rest, q.message = ofString "REQUEST" :: rest :=
    ⟨[], (List.append_nil _).symm, by simp⟩
  cases e with
  | arrive m => exact absurd rfl (harrive m)
  | sendto address subject timeout content =>
    simp only [MlmClient.step] at h
    split at h
    · contradiction
    · cases h
      refine ⟨rfl, _, rfl, ?_⟩
      intro q hq
      rw [List.mem_singleton.mp hq]
      exact Or.inl ⟨address, subject, timeout, content, List.mem_singleton_self _, rfl⟩
  | recv id timeout now =>
    simp only [MlmClient.step] at h
    split at h
    · contradiction
    · cases h
      exact ⟨rfl, hrefl⟩
  | requestreply address subject timeout content now uid sendresult =>
    have hrequest : ∀ q ∈ (MlmClient.requestreplyStart address subject timeout content now uid
        sendresult).sent.toList, ∃ rest, q.message = ofString "REQUEST" :: rest := by
      intro q hq
      rw [Option.mem_toList] at hq
      cases content with
      | none => simp [MlmClient.requestreplyStart] at hq
      | some message =>
        simp only [MlmClient.requestreplyStart] at hq
        split at hq
        · contradiction
        · split at hq <;> cases hq <;> exact ⟨_, rfl⟩
    simp only [MlmClient.step] at h
    split at h
    · contradiction
    · split at h
      · cases h
        exact ⟨rfl, _, rfl, fun q hq => Or.inr (hrequest q hq)⟩
      · cases h
        exact ⟨rfl, _, rfl, fun q hq => Or.inr (hrequest q hq)⟩
  | turn t =>
    cases hr : s.running with
    | none => simp [MlmClient.step, hr] at h
    | some r =>
      simp only [MlmClient.step, hr] at h
      split at h
      · obtain ⟨inbox, -, rfl⟩ := Option.map_eq_some_iff.mp h
        exact ⟨rfl, hrefl⟩
      · obtain ⟨inbox, -, rfl⟩ := Option.map_eq_some_iff.mp h
        exact ⟨rfl, hrefl⟩

/-- A reply answers a request, with its correlation id and with the results of the
handler for its other frames. -/
theorem reply_answers {name subject sender addr : Bytes} {message m : Zmsg}
    {handleRequest : HandleRequest} {rv : Int}
    (h : (handleMailbox name subject sender message handleRequest rv).reply = some (addr, m)) :
    subject.cStr = ofString "REQUEST" ∧ ∃ frame frames results, message = frame :: frames ∧
      (handleMailbox name subject sender message handleRequest rv).invoked =
        some (senderName sender.cStr, frames.map Bytes.cStr, .ok results) ∧
      m = frame.cStr :: results.map Bytes.cStr := by
  by_cases hform : subject.cStr = ofString "REQUEST" ∧ ∃ frame frames, message = frame :: frames ∧
      frame.cStr ≠ []
  · obtain ⟨hsubject, frame, frames, rfl, hid⟩ := hform
    have hcut := handleMailbox_subject hsubject name sender (frame :: frames) handleRequest rv
    obtain ⟨hinvoked, hreply, -⟩ := handleMailbox_request name sender frame frames handleRequest
      rv hid
    rw [hcut, hreply] at h
    obtain ⟨results, -, hok, -, hm⟩ := replyFor_eq_some h
    rw [Bytes.cStr_cStr] at hm
    rw [hok] at hinvoked
    exact ⟨hsubject, frame, frames, results, rfl, hcut ▸ hinvoked, hm⟩
  · obtain ⟨-, hreply, -⟩ := handleMailbox_ignored name subject sender message handleRequest rv (by
      intro hsubject frame frames hmessage
      by_contra hid
      exact hform ⟨hsubject, frame, frames, hmessage, hid⟩)
    rw [hreply] at h
    contradiction

/-- The client's own steps. -/
theorem Inv.call {e : MlmClient.Event} {client : MlmClient.State} (h : Inv uuid w events)
    (harrive : ∀ m, e ≠ .arrive m) (he : MlmClient.step w.client e = some client) :
    Inv uuid { w with
      client := client
      requests := w.requests ++ client.sent.drop w.client.sent.length } (events ++ [.call e]) := by
  obtain ⟨harrived, new, hsent, hnew⟩ := sent_of_step harrive he
  have hmore : ∀ q ∈ w.client.sent, q ∈ client.sent := by
    intro q hq
    rw [hsent]
    exact List.mem_append_left _ hq
  refine ⟨MlmClient.step_inv h.client he, ?_, ?_, ?_, h.replies, ?_⟩
  · intro q hq
    rw [hsent] at hq
    rcases List.mem_append.mp hq with hq | hq
    · exact (h.sent q hq).imp_left Handed.later
    · refine (hnew q hq).imp_left ?_
      intro hhanded
      obtain ⟨address, subject, timeout, content, hmem, hq⟩ := hhanded
      exact ⟨address, subject, timeout, content, List.mem_append_right _ hmem, hq⟩
  · intro q hq
    rcases List.mem_append.mp hq with hq | hq
    · exact hmore q (h.requests q hq)
    · exact List.mem_of_mem_drop hq
  · intro v hv
    obtain ⟨hrequest, hhandled⟩ := h.served v hv
    exact ⟨hmore _ hrequest, hhandled⟩
  · intro m hm
    rw [harrived] at hm
    exact h.arrived m hm

/-- A message arrives, with its origin. -/
theorem Inv.arrive {m : Zmsg} {client : MlmClient.State} {replies others : List Zmsg} {e : Event}
    (h : Inv uuid w events) (hm : MlmClient.step w.client (.arrive m) = some client)
    (hreplies : ∀ r ∈ replies, r ∈ w.replies) (hothers : ∀ r ∈ w.others, r ∈ others)
    (horigin : m ∈ others ∨ Replied w m) :
    Inv uuid { w with client := client, replies := replies, others := others }
      (events ++ [e]) := by
  have hclient := MlmClient.step_inv h.client hm
  cases hm
  refine ⟨hclient, ?_, h.requests, h.served, ?_, ?_⟩
  · intro q hq
    exact (h.sent q hq).imp_left Handed.later
  · intro r hr
    exact h.replies r (hreplies r hr)
  · intro r hr
    rcases List.mem_append.mp hr with hr | hr
    · exact (h.arrived r hr).imp_left (hothers r)
    · rw [List.mem_singleton.mp hr]
      exact horigin

theorem Replied.served {m : Zmsg} {v : Served} {requests : List Sent} {replies : List Zmsg}
    (h : Replied w m) :
    Replied { w with requests := requests, replies := replies, served := w.served ++ [v] } m := by
  obtain ⟨u, hu, hreply⟩ := h
  exact ⟨u, List.mem_append_left _ hu, hreply⟩

theorem Inv.serve {j : Nat} {q : Sent} {name : Bytes} {handleRequest : HandleRequest} {rv : Int}
    (h : Inv uuid w events) (hq : w.requests[j]? = some q)
    (ht : step uuid w (.serve j name handleRequest rv) = some w') :
    Inv uuid w' (events ++ [.serve j name handleRequest rv]) := by
  simp only [step, hq] at ht
  split at ht
  · cases ht
    refine ⟨h.client, ?_, ?_, ?_, ?_, ?_⟩
    · intro q hq
      exact (h.sent q hq).imp_left Handed.later
    · intro q hq
      exact h.requests q (List.mem_of_mem_eraseIdx hq)
    · intro v hv
      rcases List.mem_append.mp hv with hv | hv
      · exact h.served v hv
      · rw [List.mem_singleton.mp hv]
        exact ⟨h.requests q (List.mem_of_getElem? hq), name, handleRequest, rv, rfl⟩
    · intro m hm
      rcases List.mem_append.mp hm with hm | hm
      · exact (h.replies m hm).served
      · split at hm
        · obtain ⟨⟨addr, frames⟩, hreply, rfl⟩ :=
            Option.map_eq_some_iff.mp (Option.mem_toList.mp hm)
          exact ⟨_, List.mem_append_right _ (List.mem_singleton_self _), addr, hreply⟩
        · contradiction
    · intro m hm
      exact (h.arrived m hm).imp_right Replied.served
  · contradiction

theorem step_inv {e : Event} (h : Inv uuid w events) (ht : step uuid w e = some w') :
    Inv uuid w' (events ++ [e]) := by
  have hsent : ∀ q ∈ w.client.sent,
      Handed (events ++ [e]) q ∨ ∃ rest, q.message = ofString "REQUEST" :: rest :=
    fun q hq => (h.sent q hq).imp_left Handed.later
  cases e with
  | call e =>
    have harrive : ∀ m, e ≠ .arrive m := by
      intro m he
      rw [he] at ht
      contradiction
    have hcall : (MlmClient.step w.client e).map (fun client =>
        { w with
          client := client
          requests := w.requests ++ client.sent.drop w.client.sent.length }) = some w' := by
      cases e with
      | arrive m => exact absurd rfl (harrive m)
      | _ => exact ht
    obtain ⟨client, hclient, rfl⟩ := Option.map_eq_some_iff.mp hcall
    exact h.call harrive hclient
  | other m =>
    simp only [step] at ht
    obtain ⟨client, hclient, rfl⟩ := Option.map_eq_some_iff.mp ht
    exact h.arrive hclient (fun _ hr => hr) (fun _ hr => List.mem_append_left _ hr)
      (Or.inl (List.mem_append_right _ (List.mem_singleton_self m)))
  | serve j name handleRequest rv =>
    cases hq : w.requests[j]? with
    | none => simp [step, hq] at ht
    | some q => exact h.serve hq ht
  | deliver j =>
    simp only [step] at ht
    split at ht
    · contradiction
    · rename_i m hm
      obtain ⟨client, hclient, rfl⟩ := Option.map_eq_some_iff.mp ht
      exact h.arrive hclient (fun _ hr => List.mem_of_mem_eraseIdx hr) (fun _ hr => hr)
        (Or.inr (h.replies m (List.mem_of_getElem? hm)))
  | loseRequest j =>
    cases ht
    exact ⟨h.client, hsent, fun q hq => h.requests q (List.mem_of_mem_eraseIdx hq), h.served,
      h.replies, h.arrived⟩
  | loseReply j =>
    cases ht
    exact ⟨h.client, hsent, h.requests, h.served,
      fun m hm => h.replies m (List.mem_of_mem_eraseIdx hm), h.arrived⟩

end Steps

/-- The server has run the handler for a request of the client's that begins with
`id`, and got the results. -/
structure Answered (uuid : Octets) (w : World) (id : Bytes) (results : List Bytes) (v : Served) :
    Prop where
  served : v ∈ w.served
  sent : v.request ∈ w.client.sent
  subject : v.request.subject.cStr = ofString "REQUEST"
  ran : ∃ frame frames, v.request.message = frame :: frames ∧ frame.cStr = id ∧
    v.handled.invoked =
      some (senderName (connectName uuid).cStr, frames.map Bytes.cStr, .ok results)

/-- The uid is drawn afresh, and in hexadecimal digits. -/
structure Drawn (events : List Event) (uid : Zuuid) : Prop where
  hex : ∀ b ∈ uid.text, 48 ≤ b ∧ b ≤ 57 ∨ 65 ≤ b ∧ b ≤ 70
  fresh : ∀ q, Handed events q → ∀ frame frames, q.message = frame :: frames →
    frame.cStr ≠ uid.text

/-- What a call takes from a server is the answer to a request. -/
theorem replied_answers {uuid : Octets} {w : World} {events : List Event} {m : Zmsg}
    (h : Inv uuid w events) (hm : Replied w m) :
    ∃ id results v, Answered uuid w id results v ∧ m = id :: results.map Bytes.cStr := by
  obtain ⟨v, hv, addr, hreply⟩ := hm
  obtain ⟨hsent, name, handleRequest, rv, hhandled⟩ := h.served v hv
  rw [hhandled] at hreply
  obtain ⟨hsubject, frame, frames, results, hmessage, hinvoked, hm⟩ := reply_answers hreply
  rw [← hhandled, Bytes.cStr_cStr] at hinvoked
  exact ⟨frame.cStr, results, v, ⟨hv, hsent, hsubject, frame, frames, hmessage, rfl, hinvoked⟩, hm⟩

theorem key_of_behind {c : MlmClient.Call} {id : Bytes} {frames r : List Bytes}
    (h : behind c.header (id :: frames) = some r) : id.cStr = c.key := by
  obtain ⟨rest, hheader⟩ := c.header_eq
  rw [hheader, behind] at h
  split at h
  · rename_i hkey
    simp only [List.length_cons, List.take_succ_cons, List.map_cons, List.cons.injEq] at hkey
    exact hkey.1
  · contradiction

/-- A server's replies are for `recv`. A call of `recv` that returns one has the
results of the handler for a request that began with its uuid; `requestreply` never
returns one, since its own request begins with another frame than its uid. What
is no reply comes from others. -/
theorem replies_go_to_recv (uuid : Octets) (events : List Event) (w : World)
    (h : exec (step uuid) World.start events = some w)
    (hdrawn : ∀ f ∈ w.client.finished, ∀ uid, f.call = .requestreply uid → Drawn events uid) :
    ∀ f ∈ w.client.finished, ∀ m, f.message = some m →
      (m ∈ w.others ∨ Replied w m) ∧
      (Replied w m → ∃ id results v, f.call = .recv id ∧
        f.result = some (results.map Bytes.cStr) ∧ Answered uuid w id results v) := by
  intro f hf m hm
  have hinv : Inv uuid w events :=
    inv_of_history (start_inv uuid) (fun _ _ _ _ hi ht => step_inv hi ht) h
  have harrived : m ∈ w.client.arrived := by
    rw [← hinv.client.shared, List.append_assoc]
    apply List.mem_append_left
    exact List.mem_flatten.mpr ⟨_, List.mem_map_of_mem hf, mem_of_hit hm⟩
  refine ⟨hinv.arrived m harrived, ?_⟩
  intro hreplied
  obtain ⟨id, results, v, hanswered, rfl⟩ := replied_answers hinv hreplied
  obtain ⟨frame, frames, hmessage, rfl, -⟩ := hanswered.ran
  have hfound := (hinv.client.finished f hf).found_hit hm
  obtain ⟨r, hr⟩ := Option.isSome_iff_exists.mp (isSome_of_hit hm)
  rw [hr] at hfound
  have hkey := key_of_behind hfound
  rw [Bytes.cStr_cStr] at hkey
  cases hcall : f.call with
  | recv id =>
    rw [hcall] at hkey hfound
    subst hkey
    refine ⟨_, results, v, rfl, ?_, hanswered⟩
    rw [hr, ← hfound]
    simp [behind, MlmClient.Call.header]
  | requestreply uid =>
    rw [hcall, MlmClient.Call.key] at hkey
    have huid := hdrawn f hf uid hcall
    rcases hinv.sent v.request hanswered.sent with hhanded | hrequest
    · exact absurd hkey (huid.fresh v.request hhanded frame frames hmessage)
    · obtain ⟨rest, hrest⟩ := hrequest
      rw [hmessage, List.cons.injEq] at hrest
      have hliteral : (ofString "REQUEST").cStr = ofString "REQUEST" := rfl
      rw [hrest.1, hliteral] at hkey
      -- the Q of REQUEST is no hexadecimal digit
      have hdigit := huid.hex 81 (by rw [← hkey]; decide)
      exact absurd hdigit (by decide)

def askedUid : Zuuid := ⟨ofString "C0DE", by decide, by decide⟩

def echo : HandleRequest := fun _ payload => .ok payload

/-- The same server is asked by `requestreply`, which gives up, and by `sendto`. -/
def askedTwice : List Event :=
  [.call (.requestreply (ofString "agent") (ofString "REQUEST") 1 (some [ofString "do"]) 0
      askedUid 0),
    .serve 0 (ofString "agent") echo 0, .deliver 0,
    .call (.turn ⟨5, fun _ => .ready (some [ofString "REQUEST", askedUid.text, ofString "do"])⟩),
    .call (.turn ⟨1000, fun _ => .null⟩),
    .call (.sendto (ofString "agent") (ofString "REQUEST") 1000 [ofString "uuid1", ofString "do"]),
    .serve 0 (ofString "agent") echo 0, .deliver 0, .call (.recv (ofString "uuid1") 1 1000),
    .call (.turn ⟨1005, fun _ => .ready (some [ofString "uuid1", ofString "do"])⟩)]

theorem asked_drawn : Drawn askedTwice askedUid := by
  refine ⟨?_, ?_⟩
  · have htext : askedUid.text = [67, 48, 68, 69] := by decide
    rw [htext]
    simp
  · intro q hq frame frames hmessage
    obtain ⟨address, subject, timeout, content, hmem, rfl⟩ := hq
    simp only [askedTwice, List.mem_cons, reduceCtorEq, Event.call.injEq,
      MlmClient.Event.sendto.injEq, List.not_mem_nil, false_or, or_false] at hmem
    obtain ⟨-, -, -, rfl⟩ := hmem
    cases hmessage
    decide

theorem second_asking_answered :
    ∃ w, exec (step FtyUuid.randomOctets) World.start askedTwice = some w ∧
      w.client.finished.map MlmClient.Finished.result = [none, some [ofString "do"]] ∧
      ∃ results v, Answered FtyUuid.randomOctets w (ofString "uuid1") results v := by
  have hrun : ∃ w, exec (step FtyUuid.randomOctets) World.start askedTwice = some w ∧
      w.client.finished = [⟨.requestreply askedUid,
        [[ofString "REQUEST", askedUid.text, ofString "do"]], none⟩, ⟨.recv (ofString "uuid1"),
        [[ofString "uuid1", ofString "do"]], some [ofString "do"]⟩] ∧ w.others = [] :=
    ⟨_, rfl, rfl, rfl⟩
  obtain ⟨w, hw, hfinished, hothers⟩ := hrun
  refine ⟨w, hw, by rw [hfinished]; rfl, ?_⟩
  have hdrawn : ∀ f ∈ w.client.finished, ∀ uid, f.call = .requestreply uid →
      Drawn askedTwice uid := by
    intro f hf uid huid
    rw [hfinished, List.mem_pair] at hf
    rcases hf with rfl | rfl
    · cases huid
      exact asked_drawn
    · contradiction
  obtain ⟨hfrom, hanswers⟩ :=
    replies_go_to_recv FtyUuid.randomOctets askedTwice w hw hdrawn
      ⟨.recv (ofString "uuid1"), [[ofString "uuid1", ofString "do"]], some [ofString "do"]⟩
      (by simp [hfinished]) [ofString "uuid1", ofString "do"] rfl
  obtain ⟨id, results, v, hid, -, hanswered⟩ := hanswers (hfrom.resolve_left (by simp [hothers]))
  cases hid
  exact ⟨results, v, hanswered⟩

section Recv

variable {w : World} {id : Bytes} {m r : Zmsg} {rest : List Zmsg}

/-- `recv` goes through the inbox to the first message that is for it, whatever the
clock shows. -/
theorem recv_takes (uuid : Octets) {loop : MlmClient.RecvLoop} {block skipped : List Zmsg}
    {turns : List Turn}
    (hrunning : w.client.running = some ⟨.recv id, loop, block⟩)
    (hinbox : w.client.inbox = skipped ++ m :: rest)
    (hskipped : ∀ x ∈ skipped, behind [id] x = none) (hm : behind [id] m = some r)
    (hturns : turns.map Turn.poll = (skipped ++ [m]).map fun x _ => .ready (some x)) :
    exec (step uuid) w (turns.map fun t => .call (.turn t)) = some { w with
      client := { w.client with
        inbox := rest
        running := none
        finished := w.client.finished ++ [⟨.recv id, block ++ skipped ++ [m], some r⟩] } } := by
  induction skipped generalizing w loop block turns with
  | nil =>
    obtain ⟨t, ts, rfl, ht, hts⟩ := List.map_eq_cons_iff.mp hturns
    cases List.map_eq_nil_iff.mp hts
    have hturn := MlmClient.recvTurn_ready id (congrFun ht loop.wait)
    rw [hm] at hturn
    simp [exec, step, MlmClient.step, hrunning, MlmClient.Call.turn, hturn, MlmClient.takeNext,
      hinbox]
  | cons x skipped ih =>
    obtain ⟨t, ts, rfl, ht, hts⟩ := List.map_eq_cons_iff.mp hturns
    have hturn := MlmClient.recvTurn_ready id (congrFun ht loop.wait)
    rw [hskipped x List.mem_cons_self] at hturn
    have hstep : step uuid w (.call (.turn t)) = some { w with
        client := { w.client with
          inbox := skipped ++ m :: rest
          running := some ⟨.recv id, loop.read t.now, block ++ [x]⟩ } } := by
      simp [step, MlmClient.step, hrunning, MlmClient.Call.turn, hturn, MlmClient.takeNext, hinbox]
    have hrest := ih (w := { w with
        client := { w.client with
          inbox := skipped ++ m :: rest
          running := some ⟨.recv id, loop.read t.now, block ++ [x]⟩ } })
      rfl rfl (fun y hy => hskipped y (List.mem_cons_of_mem _ hy)) hts
    rw [List.map_cons, exec, hstep, Option.bind_some, hrest]
    simp

end Recv

/-- `sendto` to a server and `recv` of the correlation id, with the turns that read
what is in the inbox first. -/
def askThrough (w : World) (name id : Bytes) (payload : Zmsg) (handleRequest : HandleRequest)
    (sendTimeout timeout : UInt32) (now : Int64) (turns : List Turn) : List Event :=
  [.call (.sendto name (ofString "REQUEST") sendTimeout (id :: payload)),
    .serve w.requests.length name handleRequest 0, .deliver w.replies.length,
    .call (.recv id.cStr timeout now)] ++ turns.map fun t => .call (.turn t)

/-- A client that is in no call can ask a server, in whatever state it and the
messages in flight are: what the handler answers comes back through `recv`, past
all that is in the inbox for somebody else, at whatever times it is read. -/
theorem asked_server_answers (uuid : Octets) (w : World) (hidle : w.client.running = none)
    (name id : Bytes) (payload : Zmsg) (hid : id.cStr ≠ [])
    (hinbox : ∀ m ∈ w.client.inbox, behind [id.cStr] m = none) (handleRequest : HandleRequest)
    (results : List Bytes) (hresults : results ≠ [])
    (hran : handleRequest (senderName (connectName uuid).cStr) (payload.map Bytes.cStr) =
      .ok results)
    (sendTimeout timeout : UInt32) (now : Int64) (turns : List Turn)
    (hturns : turns.map Turn.poll = (w.client.inbox ++ [id.cStr :: results.map Bytes.cStr]).map
      fun m _ => .ready (some m)) :
    ∃ t, exec (step uuid) w
        (askThrough w name id payload handleRequest sendTimeout timeout now turns) = some t ∧
      t.client.finished = w.client.finished ++ [⟨.recv id.cStr,
        w.client.inbox ++ [id.cStr :: results.map Bytes.cStr], some (results.map Bytes.cStr)⟩] ∧
      t.client.running = none ∧ t.client.inbox = [] ∧ t.requests = w.requests ∧
      t.replies = w.replies := by
  have hreply : (handleMailbox name (ofString "REQUEST") (connectName uuid).cStr (id :: payload)
      handleRequest 0).reply =
        some ((connectName uuid).cStr, id.cStr :: results.map Bytes.cStr) := by
    obtain ⟨-, hreply, -⟩ := handleMailbox_request name (connectName uuid).cStr id payload
      handleRequest 0 hid
    rw [Bytes.cStr_cStr, hran] at hreply
    cases results with
    | nil => contradiction
    | cons result results =>
      rw [hreply, replyFor, replyMessage_eq, Bytes.cStr_cStr]
  have hasked : ∃ v, exec (step uuid) w [.call (.sendto name (ofString "REQUEST") sendTimeout
        (id :: payload)), .serve w.requests.length name handleRequest 0,
        .deliver w.replies.length, .call (.recv id.cStr timeout now)] = some v ∧
      v.client.running = some ⟨.recv id.cStr, MlmClient.recvStart timeout now, []⟩ ∧
      v.client.inbox = w.client.inbox ++ [id.cStr :: results.map Bytes.cStr] ∧
      v.client.finished = w.client.finished ∧ v.requests = w.requests ∧ v.replies = w.replies := by
    have hliteral : (ofString "REQUEST").cStr = ofString "REQUEST" := rfl
    simp [exec, step, MlmClient.step, hidle, MlmClient.sendto, hliteral, hreply,
      List.eraseIdx_append_of_length_le]
  obtain ⟨v, hv, hrunning, hheld, hfinished, hrequests, hreplies⟩ := hasked
  have htaken : behind [id.cStr] (id.cStr :: results.map Bytes.cStr) =
      some (results.map Bytes.cStr) := by
    simp [behind]
  have htook := recv_takes uuid hrunning hheld hinbox htaken hturns
  refine ⟨_, exec_append.mpr ⟨v, hv, htook⟩, ?_, rfl, rfl, hrequests, hreplies⟩
  simp [hfinished]

/-- The server is asked past a message that came too late for somebody else. -/
theorem late_message_skipped :
    ∃ t, exec (step FtyUuid.randomOctets)
        { World.start with
          client := { MlmClient.State.start with inbox := [[ofString "uuid33", ofString "late"]] } }
        (askThrough World.start (ofString "agent") (ofString "uuid34") [ofString "do"] echo 1000 2 0
          [⟨1, fun _ => .ready (some [ofString "uuid33", ofString "late"])⟩,
            ⟨2, fun _ => .ready (some [ofString "uuid34", ofString "do"])⟩]) = some t ∧
      t.client.finished.map MlmClient.Finished.result = [some [ofString "do"]] := by
  obtain ⟨t, ht, hfinished, -⟩ := asked_server_answers FtyUuid.randomOctets
    { World.start with
      client := { MlmClient.State.start with inbox := [[ofString "uuid33", ofString "late"]] } }
    rfl (ofString "agent") (ofString "uuid34") [ofString "do"] (by decide)
    (fun m hm => by rw [List.mem_singleton.mp hm]; decide) echo [ofString "do"] (by decide) rfl
    1000 2 0 [⟨1, fun _ => .ready (some [ofString "uuid33", ofString "late"])⟩,
      ⟨2, fun _ => .ready (some [ofString "uuid34", ofString "do"])⟩] rfl
  exact ⟨t, ht, by rw [hfinished]; rfl⟩

end FtyCommonMlm.Answers
