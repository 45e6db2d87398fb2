import FtyCommonMlm.Mailbox.Correlation

namespace FtyCommonMlm.Exchange
open MlmSyncClient MlmBasicMailboxServer Runs
open Bytes (ofString)

/-- The broker's side of a step where every mailbox message arrives. -/
def Delivers : Event → Prop
  | .loseRequest _ | .loseReply _ => False
  | .serve _ _ rv => rv = 0
  | _ => True

def PlainId : Event → Prop
  | .call clientId _ _ _ => clientId.NoNul
  | _ => True

/-- Every REPLY the server has put on the wire. -/
def State.wire (s : State) : List (Bytes × Zmsg) := s.served.filterMap (fun v => v.handled.reply)

/-- A client blocked in `mlm_client_recv` whose request the server is done
with, and for whose address no message is in flight. -/
def LeftWaiting (s : State) (c : Call) : Prop :=
  c.phase = .receiving ∧ (∃ v ∈ s.served, v.request = c.envelope) ∧
    ∀ r ∈ s.replies, r.peer ≠ c.address

/-- While nothing is lost and every address names its own thread, a reply stays
in flight for as long as its call is under way. -/
structure Kept (s : State) : Prop where
  ids : ∀ c ∈ s.calls, c.clientId.NoNul
  threads : ∀ (i j : Nat) (c d : Call), s.calls[i]? = some c → s.calls[j]? = some d →
    c.phase.isDone = false → d.phase.isDone = false → c.threadId = d.threadId → i = j
  pending : ∀ v ∈ s.served, ∀ c ∈ s.calls, c.phase.isDone = false → v.request = c.envelope →
    ∀ addr m, v.handled.reply = some (addr, m) → ⟨addr, m⟩ ∈ s.replies

theorem Kept.begin {name : Bytes} {s : State} {c : Call} (hi : Inv name s) (h : Kept s)
    (hid : c.clientId.NoNul) (huuid : ∀ d ∈ s.calls, d.uuid ≠ c.uuid)
    (hthread : ∀ d ∈ s.calls, d.threadId = c.threadId → d.phase.isDone = true) :
    Kept { s with calls := s.calls ++ [c] } := by
  have hold : ∀ (i : Nat) (d : Call), (s.calls ++ [c])[i]? = some d →
      s.calls[i]? = some d ∨ (i = s.calls.length ∧ d = c) := by
    intro i d hd
    by_cases hlt : i < s.calls.length
    · rw [List.getElem?_append_left hlt] at hd
      exact Or.inl hd
    · rw [List.getElem?_append_right (by omega)] at hd
      obtain ⟨hk, hget⟩ := List.getElem?_eq_some_iff.mp hd
      simp only [List.length_singleton] at hk
      simp only [List.getElem_singleton] at hget
      exact Or.inr ⟨by omega, hget.symm⟩
  constructor
  · intro d hd
    rcases List.mem_append.mp hd with hd | hd
    · exact h.ids d hd
    · rw [List.mem_singleton.mp hd]
      exact hid
  · intro i j d e hd he hdl hel hde
    rcases hold i d hd with hd' | ⟨hi', rfl⟩
    · rcases hold j e he with he' | ⟨_, rfl⟩
      · exact h.threads i j d e hd' he' hdl hel hde
      · have hdone := hthread d (List.mem_of_getElem? hd') hde
        rw [hdl] at hdone
        contradiction
    · rcases hold j e he with he' | ⟨hj', _⟩
      · have hdone := hthread e (List.mem_of_getElem? he') hde.symm
        rw [hel] at hdone
        contradiction
      · exact hi'.trans hj'.symm
  · intro v hv d hd hlive hreq
    rcases List.mem_append.mp hd with hd | hd
    · exact h.pending v hv d hd hlive hreq
    · rw [List.mem_singleton.mp hd] at hreq
      obtain ⟨e, he, _, hve⟩ := (hi.served v hv).1
      exact absurd (uuid_of_envelope (hve.symm.trans hreq)) (huuid e he)

theorem Kept.move {s : State} {i : Nat} {c : Call} (h : Kept s) (hc : s.calls[i]? = some c)
    (hlive : c.phase.isDone = false) (phase : Phase) : Kept (s.setPhase i c phase) := by
  have hold : ∀ (j : Nat) (d : Call), (s.setPhase i c phase).calls[j]? = some d →
      d.phase.isDone = false →
      ∃ d' : Call, s.calls[j]? = some d' ∧ d'.phase.isDone = false ∧ d'.threadId = d.threadId := by
    intro j d hd hdl
    simp only [State.setPhase, List.getElem?_set] at hd
    split at hd
    · rename_i hij
      split at hd
      · cases hd
        exact ⟨c, hij ▸ hc, hlive, rfl⟩
      · contradiction
    · exact ⟨d, hd, hdl, rfl⟩
  constructor
  · intro d hd
    rcases List.mem_or_eq_of_mem_set hd with hd | rfl
    · exact h.ids d hd
    · exact h.ids c (List.mem_of_getElem? hc)
  · intro j k d e hd he hdl hel hde
    obtain ⟨d', hd', hdl', hdt⟩ := hold j d hd hdl
    obtain ⟨e', he', hel', het⟩ := hold k e he hel
    exact h.threads j k d' e' hd' he' hdl' hel' (hdt.trans (hde.trans het.symm))
  · intro v hv d hd hdl hreq
    rcases List.mem_or_eq_of_mem_set hd with hd | rfl
    · exact h.pending v hv d hd hdl hreq
    · exact h.pending v hv c (List.mem_of_getElem? hc) hlive hreq

/-- Taking a reply out of a mailbox leaves the replies of the other calls under
way in place: their threads, and so their addresses, are different. -/
theorem Kept.deliver {name : Bytes} {s : State} {i j : Nat} {c : Call} {r : Envelope}
    (hi : Inv name s) (h : Kept s) (hc : s.calls[i]? = some c) (hr : s.replies[j]? = some r)
    (hlive : c.phase.isDone = false) (haddr : r.peer = c.address) (o : Outcome) :
    Kept { s.setPhase i c (.done o) with replies := s.replies.eraseIdx j } := by
  have hmoved := h.move hc hlive (.done o)
  refine ⟨hmoved.ids, hmoved.threads, ?_⟩
  intro v hv d hd hdl hreq addr m hreply
  have hin := hmoved.pending v hv d hd hdl hreq addr m hreply
  obtain ⟨k, hk⟩ := List.mem_iff_getElem?.mp hin
  have hother : ∃ q, q ≠ i ∧ s.calls[q]? = some d := by
    obtain ⟨q, hq⟩ := List.mem_iff_getElem?.mp hd
    simp only [State.setPhase, List.getElem?_set] at hq
    split at hq
    · split at hq
      · cases hq
        contradiction
      · contradiction
    · rename_i hiq
      exact ⟨q, fun he => hiq he.symm, hq⟩
  obtain ⟨q, hqi, hq⟩ := hother
  have hne : k ≠ j := by
    intro heq
    subst heq
    have hkr : (⟨addr, m⟩ : Envelope) = r := Option.some.inj (hk.symm.trans hr)
    obtain ⟨_, ran, _, hbuilt⟩ := hi.served_call hv hreq
    obtain ⟨_, _, _, hown, _⟩ := replyFor_eq_some (hbuilt.symm.trans hreply)
    have hsame : d.address = c.address := by rw [← hown, ← haddr, ← hkr]
    have hthread := (address_inj (h.ids d (List.mem_of_getElem? hq))
      (h.ids c (List.mem_of_getElem? hc)) hsame).2
    exact hqi (h.threads q i d c hq hc hdl hlive hthread)
  exact List.mem_eraseIdx_iff_getElem?.mpr ⟨k, hne, hk⟩

theorem step_kept {name : Bytes} {s t : State} {e : Event} (hi : Inv name s) (hs : Kept s)
    (hb : Delivers e) (hid : PlainId e) (h : step name s e = some t) : Kept t := by
  cases step_cases h with
  | call clientId threadId uuid payload huuid hthread => exact hs.begin hi hid huuid hthread
  | fail i e c hc hf => exact hs.move hc (mayFail_live hf) _
  | sendto i rc c hc hp =>
    have hmoved := hs.move hc (by rw [hp]; rfl) .sent
    exact ⟨hmoved.ids, hmoved.threads, hmoved.pending⟩
  | recv i c hc hp => exact hs.move hc (by rw [hp]; rfl) _
  | deliver i j c r hc hr hp haddr => exact hs.deliver hi hc hr (by rw [hp]; rfl) haddr _
  | interrupt i c hc hp => exact hs.move hc (by rw [hp]; rfl) _
  | serve j f rv m hm =>
    refine ⟨hs.ids, hs.threads, ?_⟩
    intro v hv c hc hlive hreq addr frames hreply
    rcases List.mem_append.mp hv with hv | hv
    · exact List.mem_append_left _ (hs.pending v hv c hc hlive hreq addr frames hreply)
    · rw [List.mem_singleton.mp hv] at hreply
      have hrv : rv = 0 := hb
      apply List.mem_append_right
      simp only [hrv, if_true] at hreply ⊢
      simp [hreply]
  | loseRequest j => exact hb.elim
  | loseReply j => exact hb.elim

theorem exec_kept {name : Bytes} {events : List Event} {s : State}
    (hb : ∀ e ∈ events, Delivers e) (hid : ∀ e ∈ events, PlainId e)
    (h : exec (step name) State.start events = some s) : Kept s := by
  have hg : Guarded (step name) (fun _ e => Delivers e ∧ PlainId e) State.start events :=
    guarded_of_forall (fun e he _ => ⟨hb e he, hid e he⟩)
  have hstart : Inv name State.start ∧ Kept State.start :=
    ⟨start_inv name, by constructor <;> simp [State.start]⟩
  refine (inv_of_guarded (I := fun s => Inv name s ∧ Kept s) hstart hg ?_ h).2
  intro s e t hgiven hboth hstep
  obtain ⟨hi, hk⟩ := hgiven
  obtain ⟨hb, hid⟩ := hboth
  exact ⟨step_inv hi hstep, step_kept hi hk hb hid hstep⟩

/-- Two replies of the server never carry the same correlation id. -/
theorem wire_pairwise {name : Bytes} {s : State} (hi : Inv name s) :
    s.wire.Pairwise (fun r r' => r.2.head? ≠ r'.2.head?) := by
  have hn : (s.served.map Served.request).Nodup := (List.nodup_append.mp hi.once).2.1
  have hp : s.served.Pairwise (fun v w => v.request ≠ w.request) := List.pairwise_map.mp hn
  apply List.pairwise_filterMap.mpr
  apply hp.imp_of_mem
  intro v w hv hw hne hgiven hr hboth hr' hhead
  obtain ⟨addr, m⟩ := hgiven
  obtain ⟨addr', m'⟩ := hboth
  obtain ⟨c, hc, _, hvc⟩ := (hi.served v hv).1
  obtain ⟨d, hd, _, hwd⟩ := (hi.served w hw).1
  obtain ⟨_, _, _, _, _, rfl⟩ := hi.reply_built hv hvc hr
  obtain ⟨_, _, _, _, _, rfl⟩ := hi.reply_built hw hwd hr'
  simp only [List.head?_cons, Option.some.injEq] at hhead
  have hcd := call_of_uuid hi.uuids hc hd (Zuuid.ext hhead)
  exact hne (by rw [hvc, hwd, hcd])

/-- With a broker that delivers, a client is left waiting by a server that is
done with its request only if `handleRequest` returned the empty list for it or
threw. Every other request the server handled has exactly one REPLY with its
correlation id on the wire. -/
theorem left_waiting_without_result (name : Bytes) (events : List Event) (s : State)
    (hb : ∀ e ∈ events, Delivers e) (hid : ∀ e ∈ events, PlainId e)
    (h : exec (step name) State.start events = some s) :
    (∀ c ∈ s.calls, LeftWaiting s c → ∃ v ∈ s.served, v.request = c.envelope ∧
      ∃ sender ran, v.handled.invoked = some (sender, c.payload.map Bytes.cStr, ran) ∧
        (ran = .ok [] ∨ ∃ e, ran = .error e)) ∧
    ∀ c ∈ s.calls, ∀ v ∈ s.served, v.request = c.envelope →
      ∀ sender payload results, v.handled.invoked = some (sender, payload, .ok results) →
        results ≠ [] →
        (c.address, c.uuid.text :: results.map Bytes.cStr) ∈ s.wire ∧
        (s.wire.filter (fun r => r.2.head? = some c.uuid.text)).length = 1 := by
  have hinv := exec_inv h
  have hkept := exec_kept hb hid h
  constructor
  · intro c hc hgiven
    obtain ⟨hphase, ⟨v, hv, hreq⟩, hnone⟩ := hgiven
    obtain ⟨sender, ran, hinvoked, hbuilt⟩ := hinv.served_call hv hreq
    refine ⟨v, hv, hreq, sender, ran, hinvoked, ?_⟩
    match ran with
    | .error e => exact Or.inr ⟨e, rfl⟩
    | .ok [] => exact Or.inl rfl
    | .ok (r :: rs) =>
      have hin := hkept.pending v hv c hc (by rw [hphase]; rfl) hreq _ _ hbuilt
      exact absurd rfl (hnone _ hin)
  · intro c hc v hv hreq sender payload results hinvoked hne
    obtain ⟨sender', ran, hinvoked', hbuilt⟩ := hinv.served_call hv hreq
    rw [hinvoked] at hinvoked'
    simp only [Option.some.injEq, Prod.mk.injEq] at hinvoked'
    rw [← hinvoked'.2.2] at hbuilt
    have hreply : v.handled.reply =
        some (c.address, c.uuid.text :: results.map Bytes.cStr) := by
      cases results with
      | nil => contradiction
      | cons r rs => rw [hbuilt, replyFor, replyMessage_eq, c.uuid.noNul.cStr_eq]
    have hwire : (c.address, c.uuid.text :: results.map Bytes.cStr) ∈ s.wire :=
      List.mem_filterMap.mpr ⟨v, hv, hreply⟩
    have hnodup : (s.wire.map (fun r => r.2.head?)).Nodup :=
      List.pairwise_map.mpr (wire_pairwise hinv)
    have hcount := List.count_eq_one_of_mem hnodup
      (List.mem_map.mpr ⟨_, hwire, rfl⟩)
    rw [List.count, List.countP_map, List.countP_eq_length_filter] at hcount
    exact ⟨hwire, by simpa [Function.comp_def, Bool.beq_eq_decide_eq] using hcount⟩

/-- One call whose handler does `f`, up to the moment the server is done. -/
def waitingRun (f : HandleRequest) : List Event :=
  [.call (ofString "client") 7 firstUuid [], .sendto 0 0, .recv 0, .serve 0 f 0]

theorem waitingRun_empty :
    ∃ s, exec (step (ofString "agent")) State.start (waitingRun fun _ _ => .ok []) = some s ∧
      ∃ c ∈ s.calls, LeftWaiting s c :=
  ⟨_, rfl, _, List.mem_cons_self, rfl, ⟨_, List.mem_cons_self, rfl⟩, fun _ hr => nomatch hr⟩

theorem waitingRun_delivers (f : HandleRequest) :
    (∀ e ∈ waitingRun f, Delivers e) ∧ ∀ e ∈ waitingRun f, PlainId e := by
  refine ⟨by simp [waitingRun, Delivers], ?_⟩
  simp only [waitingRun, List.forall_mem_cons, List.not_mem_nil, false_imp_iff, implies_true,
    PlainId, and_true]
  decide

/-- A handler without a result, and one with a result. -/
theorem empty_result_left_waiting :
    (∃ s, exec (step (ofString "agent")) State.start (waitingRun fun _ _ => .ok []) = some s ∧
      ∃ c ∈ s.calls, LeftWaiting s c ∧ ∃ v ∈ s.served, v.request = c.envelope ∧
        ∃ sender ran, v.handled.invoked = some (sender, c.payload.map Bytes.cStr, ran) ∧
          (ran = .ok [] ∨ ∃ e, ran = .error e)) ∧
    ∃ s, exec (step (ofString "agent")) State.start
        (waitingRun fun _ _ => .ok [ofString "done"]) = some s ∧
      ∃ c ∈ s.calls, (c.address, [c.uuid.text, ofString "done"]) ∈ s.wire ∧
        (s.wire.filter (fun r => r.2.head? = some c.uuid.text)).length = 1 := by
  refine ⟨?_, ?_⟩
  · obtain ⟨hdelivers, hplain⟩ := waitingRun_delivers fun _ _ => .ok []
    obtain ⟨s, hs, c, hc, hleft⟩ := waitingRun_empty
    obtain ⟨hwaiting, _⟩ :=
      left_waiting_without_result (ofString "agent") _ s hdelivers hplain hs
    exact ⟨s, hs, c, hc, hleft, hwaiting c hc hleft⟩
  · obtain ⟨hdelivers, hplain⟩ := waitingRun_delivers fun _ _ => .ok [ofString "done"]
    have hrun : ∃ s c v, exec (step (ofString "agent")) State.start
        (waitingRun fun _ _ => .ok [ofString "done"]) = some s ∧ c ∈ s.calls ∧ v ∈ s.served ∧
        v.request = c.envelope ∧ ∃ sender payload,
          v.handled.invoked = some (sender, payload, .ok [ofString "done"]) :=
      ⟨_, _, _, rfl, List.mem_cons_self, List.mem_cons_self, rfl, _, _, rfl⟩
    obtain ⟨s, c, v, hs, hc, hv, hreq, sender, payload, hinvoked⟩ := hrun
    obtain ⟨_, hanswered⟩ :=
      left_waiting_without_result (ofString "agent") _ s hdelivers hplain hs
    exact ⟨s, hs, c, hc, hanswered c hc v hv hreq sender payload _ hinvoked (by simp)⟩

def secondUuid : Zuuid := ⟨ofString "2c3d", by decide, by decide⟩

/-- Two threads whose client id has a NUL. `c_str()` drops the thread id, so
both connect with the same address, and the second takes the first's reply. -/
def sharedAddressRun : List Event :=
  [.call [97, 0] 1 firstUuid [], .sendto 0 0, .recv 0,
    .call [97, 0] 2 secondUuid [], .sendto 1 0, .recv 1,
    .serve 0 (fun _ _ => .ok [[98]]) 0, .deliver 1 0]

theorem client_left_waiting :
    (∃ s, exec (step (ofString "agent")) State.start (waitingRun fun _ _ => .ok []) = some s ∧
      ∃ c ∈ s.calls, LeftWaiting s c) ∧
    (∃ s, exec (step (ofString "agent")) State.start
        (waitingRun fun _ _ => .error .unknown) = some s ∧ ∃ c ∈ s.calls, LeftWaiting s c) ∧
    ∃ s, exec (step (ofString "agent")) State.start sharedAddressRun = some s ∧
      ∃ c ∈ s.calls, LeftWaiting s c := by
  refine ⟨waitingRun_empty,
    ⟨_, rfl, _, List.mem_cons_self, rfl, ⟨_, List.mem_cons_self, rfl⟩, ?_⟩,
    ⟨_, rfl, _, List.mem_cons_self, rfl, ⟨_, List.mem_cons_self, rfl⟩, ?_⟩⟩
  all_goals exact fun r hr => nomatch hr

end FtyCommonMlm.Exchange
