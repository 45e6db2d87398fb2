import Mathlib.Data.List.Perm.Basic
import FtyCommonMlm.Mailbox.Exchange

namespace FtyCommonMlm.Exchange
open MlmSyncClient MlmBasicMailboxServer Runs
open Bytes (ofString)

/-- What holds in every run, whatever the broker loses. -/
structure Inv (name : Bytes) (s : State) : Prop where
  uuids : (s.calls.map Call.uuid).Nodup
  requests : ∀ m ∈ s.requests, ∃ c ∈ s.calls, c.phase ≠ .preparing ∧ m = c.envelope
  served : ∀ v ∈ s.served, (∃ c ∈ s.calls, c.phase ≠ .preparing ∧ v.request = c.envelope) ∧
    ∃ f rv, v.handled = handleMailbox name (ofString "REQUEST") v.request.peer v.request.frames f rv
  once : (s.requests ++ s.served.map Served.request).Nodup
  replies : ∀ r ∈ s.replies, ∃ v ∈ s.served, v.handled.reply = some (r.peer, r.frames)
  returned : ∀ c ∈ s.calls, ∀ frames, c.phase = .done (.returned frames) →
    ∃ v ∈ s.served, ∃ addr m, v.handled.reply = some (addr, m) ∧
      m.map Bytes.cStr = c.uuid.text :: frames

theorem start_inv (name : Bytes) : Inv name State.start := by
  constructor <;> simp [State.start]

theorem Inv.change_calls {name : Bytes} {s : State} {calls : List Call} (h : Inv name s)
    (hc : CallsChange s calls)
    (hnew : ∀ c ∈ calls, ∀ frames, c.phase = .done (.returned frames) → c ∈ s.calls ∨
      ∃ v ∈ s.served, ∃ addr m, v.handled.reply = some (addr, m) ∧
        m.map Bytes.cStr = c.uuid.text :: frames) :
    Inv name { s with calls := calls } := by
  have hkept : ∀ m : Envelope, (∃ c ∈ s.calls, c.phase ≠ .preparing ∧ m = c.envelope) →
      ∃ c ∈ calls, c.phase ≠ .preparing ∧ m = c.envelope := by
    intro m hgiven
    obtain ⟨c, hm, hp, he⟩ := hgiven
    obtain ⟨c', hm', _, he', hp'⟩ := hc.kept hm
    exact ⟨c', hm', hp' hp, he.trans he'.symm⟩
  refine ⟨hc.uuids h.uuids, fun m hm => hkept m (h.requests m hm), ?_, h.once, h.replies, ?_⟩
  · intro v hv
    obtain ⟨hcall, hran⟩ := h.served v hv
    exact ⟨hkept _ hcall, hran⟩
  · intro c hm frames hp
    rcases hnew c hm frames hp with hold | hserved
    · exact h.returned c hold frames hp
    · exact hserved

theorem Inv.drop_request {name : Bytes} {s : State} (h : Inv name s) (j : Nat) :
    Inv name { s with requests := s.requests.eraseIdx j } :=
  ⟨h.uuids, fun m hm => h.requests m (List.mem_of_mem_eraseIdx hm), h.served,
    h.once.sublist ((List.eraseIdx_sublist _ _).append_right _), h.replies, h.returned⟩

theorem Inv.drop_reply {name : Bytes} {s : State} (h : Inv name s) (j : Nat) :
    Inv name { s with replies := s.replies.eraseIdx j } :=
  ⟨h.uuids, h.requests, h.served, h.once,
    fun r hr => h.replies r (List.mem_of_mem_eraseIdx hr), h.returned⟩

/-- Before its `mlm_client_sendto`, a call has no request anywhere. -/
theorem Inv.not_sent {name : Bytes} {s : State} {c : Call} (h : Inv name s) (hc : c ∈ s.calls)
    (hp : c.phase = .preparing) : c.envelope ∉ s.requests ++ s.served.map Served.request := by
  have hother : ¬ ∃ d ∈ s.calls, d.phase ≠ .preparing ∧ c.envelope = d.envelope := by
    intro hgiven
    obtain ⟨d, hd, hne, he⟩ := hgiven
    have hcd := call_of_uuid h.uuids hc hd (uuid_of_envelope he)
    exact hne (hcd ▸ hp)
  intro hm
  rcases List.mem_append.mp hm with hm | hm
  · exact hother (h.requests _ hm)
  · obtain ⟨v, hv, he⟩ := List.mem_map.mp hm
    obtain ⟨d, hd, hne, hvd⟩ := (h.served v hv).1
    exact hother ⟨d, hd, hne, he.symm.trans hvd⟩

theorem Inv.add_request {name : Bytes} {s : State} {c : Call} (h : Inv name s)
    (hc : ∃ d ∈ s.calls, d.phase ≠ .preparing ∧ c.envelope = d.envelope)
    (hfresh : c.envelope ∉ s.requests ++ s.served.map Served.request) :
    Inv name { s with requests := s.requests ++ [c.envelope] } := by
  refine ⟨h.uuids, ?_, h.served, ?_, h.replies, h.returned⟩
  · intro m hm
    rcases List.mem_append.mp hm with hm | hm
    · exact h.requests m hm
    · rw [List.mem_singleton.mp hm]
      exact hc
  · have hperm : (s.requests ++ [c.envelope] ++ s.served.map Served.request).Perm
        (c.envelope :: (s.requests ++ s.served.map Served.request)) := by
      rw [List.append_assoc]
      exact List.perm_middle
    exact hperm.nodup_iff.mpr (List.nodup_cons.mpr ⟨hfresh, h.once⟩)

theorem Inv.serve {name : Bytes} {s : State} {j : Nat} {m : Envelope} (h : Inv name s)
    (hm : s.requests[j]? = some m) (f : HandleRequest) (rv : Int) (sent : List Envelope)
    (hsent : ∀ r ∈ sent,
      (handleMailbox name (ofString "REQUEST") m.peer m.frames f rv).reply =
        some (r.peer, r.frames)) :
    Inv name { s with
      requests := s.requests.eraseIdx j
      replies := s.replies ++ sent
      served := s.served ++
        [⟨m, handleMailbox name (ofString "REQUEST") m.peer m.frames f rv⟩] } := by
  refine ⟨h.uuids, fun r hr => h.requests r (List.mem_of_mem_eraseIdx hr), ?_, ?_, ?_, ?_⟩
  · intro v hv
    rcases List.mem_append.mp hv with hv | hv
    · exact h.served v hv
    · rw [List.mem_singleton.mp hv]
      exact ⟨h.requests m (List.mem_of_getElem? hm), f, rv, rfl⟩
  · obtain ⟨hlt, hget⟩ := List.getElem?_eq_some_iff.mp hm
    have hsplit : s.requests.Perm (m :: s.requests.eraseIdx j) := by
      rw [← hget]
      exact (List.getElem_cons_eraseIdx_perm hlt).symm
    have hperm : (s.requests.eraseIdx j ++ (s.served ++
        [(⟨m, handleMailbox name (ofString "REQUEST") m.peer m.frames f rv⟩ : Served)]).map
          Served.request).Perm (s.requests ++ s.served.map Served.request) := by
      rw [List.map_append, ← List.append_assoc]
      exact List.perm_append_comm.trans
        (List.Perm.append_right (s.served.map Served.request) hsplit.symm)
    exact hperm.nodup_iff.mpr h.once
  · intro r hr
    rcases List.mem_append.mp hr with hr | hr
    · obtain ⟨v, hv, hreply⟩ := h.replies r hr
      exact ⟨v, List.mem_append_left _ hv, hreply⟩
    · exact ⟨_, List.mem_append_right _ (List.mem_singleton_self _), hsent r hr⟩
  · intro c hc frames hp
    obtain ⟨v, hv, hreply⟩ := h.returned c hc frames hp
    exact ⟨v, List.mem_append_left _ hv, hreply⟩

/-- Moving a call to a phase that is not a normal return. -/
theorem Inv.move {name : Bytes} {s : State} {i : Nat} {c : Call} {phase : Phase}
    (h : Inv name s) (hc : s.calls[i]? = some c) (hlive : c.phase.isDone = false)
    (hlater : phase ≠ .preparing) (hno : ∀ frames, phase ≠ .done (.returned frames)) :
    Inv name (s.setPhase i c phase) := by
  apply h.change_calls (.move i c phase hc hlive hlater)
  intro d hd frames hp
  rcases List.mem_or_eq_of_mem_set hd with hold | rfl
  · exact Or.inl hold
  · exact absurd hp (hno frames)

theorem step_inv {name : Bytes} {s t : State} {e : Event} (hs : Inv name s)
    (h : step name s e = some t) : Inv name t := by
  have hcalls := step_calls h
  cases step_cases h with
  | call clientId threadId uuid payload huuid hthread =>
    apply hs.change_calls hcalls
    intro d hd frames hp
    rcases List.mem_append.mp hd with hold | hnew
    · exact Or.inl hold
    · rw [List.mem_singleton.mp hnew] at hp
      contradiction
  | fail i e c hc hf => exact hs.move hc (mayFail_live hf) (by simp) (by simp)
  | sendto i rc c hc hp =>
    have hmoved : Inv name (s.setPhase i c .sent) :=
      hs.move hc (by rw [hp]; rfl) (by simp) (by simp)
    obtain ⟨hlt, _⟩ := List.getElem?_eq_some_iff.mp hc
    have hin : ({ c with phase := .sent } : Call) ∈ (s.setPhase i c .sent).calls :=
      List.mem_set hlt _
    split
    · exact hmoved.add_request ⟨_, hin, by simp, rfl⟩ (hs.not_sent (List.mem_of_getElem? hc) hp)
    · exact hmoved
  | recv i c hc hp => exact hs.move hc (by rw [hp]; rfl) (by simp) (by simp)
  | deliver i j c r hc hr hp haddr =>
    have hmoved : Inv name (s.setPhase i c (.done (readReply c.uuid (some r.frames)))) := by
      apply hs.change_calls hcalls
      intro d hd frames hp
      rcases List.mem_or_eq_of_mem_set hd with hold | rfl
      · exact Or.inl hold
      · obtain ⟨v, hv, hreply⟩ := hs.replies r (List.mem_of_getElem? hr)
        exact Or.inr ⟨v, hv, _, _, hreply, readReply_returned_iff.mp (Phase.done.inj hp)⟩
    exact hmoved.drop_reply j
  | interrupt i c hc hp => exact hs.move hc (by rw [hp]; rfl) (by simp) (by simp [readReply])
  | serve j f rv m hm =>
    apply hs.serve hm f rv
    intro r hr
    split at hr
    · obtain ⟨⟨addr, frames⟩, hreply, rfl⟩ := Option.map_eq_some_iff.mp (Option.mem_toList.mp hr)
      exact hreply
    · contradiction
  | loseRequest j => exact hs.drop_request j
  | loseReply j => exact hs.drop_reply j

theorem exec_inv {name : Bytes} {events : List Event} {s : State}
    (h : exec (step name) State.start events = some s) : Inv name s :=
  inv_of_exec (start_inv name) (fun _ _ _ hs hstep => step_inv hs hstep) h

/-- What the server did with the request of a call. -/
theorem Inv.served_call {name : Bytes} {s : State} {v : Served} {c : Call} (h : Inv name s)
    (hv : v ∈ s.served) (hreq : v.request = c.envelope) :
    ∃ sender ran, v.handled.invoked = some (sender, c.payload.map Bytes.cStr, ran) ∧
      v.handled.reply = replyFor c.address c.uuid.text ran := by
  obtain ⟨_, f, rv, hran⟩ := h.served v hv
  rw [hreq] at hran
  simp only [Call.envelope, request_eq] at hran
  have hid : c.uuid.text.cStr ≠ [] := by
    rw [c.uuid.noNul.cStr_eq]
    exact c.uuid.nonempty
  have haddr : c.address.cStr = c.address := Bytes.cStr_cStr _
  obtain ⟨hinvoked, hreply, _⟩ := handleMailbox_request name c.address c.uuid.text
    (c.payload.map Bytes.cStr) f rv hid
  rw [haddr, c.uuid.noNul.cStr_eq, Bytes.map_cStr_map_cStr] at hreply
  rw [haddr, Bytes.map_cStr_map_cStr] at hinvoked
  rw [hran]
  exact ⟨_, _, hinvoked, hreply⟩

/-- A reply sent for a call goes to its address and carries its correlation id
and what its own handler call returned. -/
theorem Inv.reply_built {name : Bytes} {s : State} {v : Served} {c : Call} {addr : Bytes}
    {m : Zmsg} (h : Inv name s) (hv : v ∈ s.served) (hreq : v.request = c.envelope)
    (hreply : v.handled.reply = some (addr, m)) :
    addr = c.address ∧ ∃ sender results, results ≠ [] ∧
      v.handled.invoked = some (sender, c.payload.map Bytes.cStr, .ok results) ∧
      m = c.uuid.text :: results.map Bytes.cStr := by
  obtain ⟨sender, ran, hinvoked, hbuilt⟩ := h.served_call hv hreq
  obtain ⟨results, hne, hok, haddr, hm⟩ := replyFor_eq_some (hbuilt.symm.trans hreply)
  rw [c.uuid.noNul.cStr_eq] at hm
  exact ⟨haddr, sender, results, hne, hok ▸ hinvoked, hm⟩

/-- A call that returns normally got the reply the server built from running
`handleRequest` on that call's own request. The server runs it at most once
for a request, and no other call has the same one. -/
theorem returns_own_reply (name : Bytes) (events : List Event) (s : State)
    (h : exec (step name) State.start events = some s) :
    (∀ c ∈ s.calls, ∀ frames, c.phase = .done (.returned frames) →
      ∃ v ∈ s.served, v.request = c.envelope ∧ (∀ d ∈ s.calls, v.request = d.envelope → d = c) ∧
        ∃ sender results, results ≠ [] ∧
          v.handled.invoked = some (sender, c.payload.map Bytes.cStr, .ok results) ∧
          v.handled.reply = some (c.address, c.uuid.text :: frames) ∧
          frames = results.map Bytes.cStr) ∧
    ∀ c ∈ s.calls, (s.served.filter (fun v => v.request = c.envelope)).length ≤ 1 := by
  have hinv := exec_inv h
  constructor
  · intro c hc frames hp
    obtain ⟨v, hv, addr, m, hreply, hm⟩ := hinv.returned c hc frames hp
    obtain ⟨d, hd, _, hreq⟩ := (hinv.served v hv).1
    obtain ⟨haddr, sender, results, hne, hinvoked, hbuilt⟩ := hinv.reply_built hv hreq hreply
    rw [hbuilt, List.map_cons, d.uuid.noNul.cStr_eq, Bytes.map_cStr_map_cStr,
      List.cons.injEq] at hm
    have hdc := call_of_uuid hinv.uuids hd hc (Zuuid.ext hm.1)
    subst hdc
    refine ⟨v, hv, hreq, ?_, sender, results, hne, hinvoked, ?_, hm.2.symm⟩
    · intro e he hve
      exact call_of_uuid hinv.uuids he hd (uuid_of_envelope (hve.symm.trans hreq))
    · rw [hreply, haddr, hbuilt, hm.2]
  · intro c _
    have hn : (s.served.map Served.request).Nodup := (List.nodup_append.mp hinv.once).2.1
    have hcount := List.nodup_iff_count_le_one.mp hn c.envelope
    rw [List.count, List.countP_map, List.countP_eq_length_filter] at hcount
    simpa [Function.comp_def, Bool.beq_eq_decide_eq] using hcount

def firstUuid : Zuuid := ⟨ofString "0a1b", by decide, by decide⟩

/-- One call to an echo server, from the request to the return. -/
def echoRun : List Event :=
  [.call (ofString "client") 7 firstUuid [ofString "This", ofString "is"], .sendto 0 0, .recv 0,
    .serve 0 (fun _ payload => .ok payload) 0, .deliver 0 0]

theorem echo_returns_own_reply : ∃ s, exec (step (ofString "agent")) State.start echoRun = some s ∧
    ∃ c ∈ s.calls, c.phase = .done (.returned [ofString "This", ofString "is"]) ∧
      ∃ v ∈ s.served, v.request = c.envelope := by
  refine ⟨_, rfl, _, List.mem_singleton_self _, rfl, ?_⟩
  obtain ⟨hreturned, _⟩ := returns_own_reply (ofString "agent") echoRun _ rfl
  obtain ⟨v, hv, hreq, _⟩ := hreturned _ (List.mem_singleton_self _) _ rfl
  exact ⟨v, hv, hreq⟩

end FtyCommonMlm.Exchange
