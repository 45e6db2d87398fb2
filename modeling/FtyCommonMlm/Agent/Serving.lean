import FtyCommonMlm.Agent.Mainloop
import FtyCommonMlm.Mailbox.BasicServer

namespace FtyCommonMlm.Serving
open Runs MlmBasicMailboxServer
open MlmAgent hiding handleMailbox
open Bytes (ofString)

/-- One mailbox message, how the server behaved when it came, and what
`handleMailbox` did with it. -/
structure Served where
  delivery : Delivery
  handleRequest : HandleRequest
  handled : Handled

/-- A server and the messages it has handled. What `handleRequest` does and
whether a send succeeds may depend on all that came before. -/
structure Surroundings where
  handleRequest : List Served → HandleRequest
  /-- What `mlm_client_sendto` returns. -/
  rv : List Served → Int

def serve (name : Bytes) (around : Surroundings) (served : List Served) (d : Delivery) : Served :=
  { delivery := d
    handleRequest := around.handleRequest served
    handled := handleMailbox name d.subject d.sender d.message (around.handleRequest served)
      (around.rv served) }

/-- The agent that overrides `handleMailbox` only. -/
def agent (name : Bytes) (around : Surroundings) : MlmAgent (List Served) where
  handleMailbox d served :=
    (served ++ [serve name around served d],
      .returns (serve name around served d).handled.result)

/-- `mainloop` of a server, whose constructor leaves the poller time-out at its
default. -/
def serverLoop (name : Bytes) (around : Surroundings) :
    Loop (List Served) → Event → Option (Loop (List Served)) :=
  mainloop (agent name around) (-1)

/-- The correlation id and the payload of a message the protocol has the server
answer. -/
def request (d : Delivery) : Option (Bytes × List Bytes) :=
  if d.subject.cStr = ofString "REQUEST" then
    match d.message with
    | [] => none
    | id :: frames => if id = [] then none else some (id, frames)
  else none

/-- The reply the protocol has the server send. -/
def due (e : Served) : Option (Bytes × Zmsg) :=
  match request e.delivery with
  | none => none
  | some (id, frames) =>
    match e.handleRequest (senderName e.delivery.sender.cStr) frames with
    | .error _ => none
    | .ok [] => none
    | .ok results => some (e.delivery.sender.cStr, id :: results)

/-- A message is handled as the protocol says: the handler runs on the frames
behind the correlation id of a request and on no other message, and what it
returns is sent to the sender behind the correlation id. -/
structure Served.Answered (e : Served) : Prop where
  invoked : e.handled.invoked.map (fun v => v.2.1) = (request e.delivery).map Prod.snd
  reply : e.handled.reply = due e
  result : e.handled.result = true

/-- Nothing of a request or of its reply is behind a NUL byte. -/
structure Served.Uncut (e : Served) : Prop where
  asked : ∀ id frames, request e.delivery = some (id, frames) →
    id.cStr ≠ [] ∧ ∀ s ∈ frames, s.NoNul
  results : ∀ id frames results, request e.delivery = some (id, frames) →
    e.handleRequest (senderName e.delivery.sender.cStr) frames = .ok results → results ≠ [] →
    id.NoNul ∧ ∀ s ∈ results, s.NoNul

@[simp] theorem serve_delivery (name : Bytes) (around : Surroundings) (served : List Served)
    (d : Delivery) : (serve name around served d).delivery = d := rfl

theorem request_eq_some {d : Delivery} {id : Bytes} {frames : List Bytes} :
    request d = some (id, frames) ↔
      d.subject.cStr = ofString "REQUEST" ∧ d.message = id :: frames ∧ id ≠ [] := by
  unfold request
  split
  · rename_i hsubject
    cases hm : d.message with
    | nil => simp
    | cons id' frames' =>
      by_cases hid : id' = []
      · simp only [hid, if_true, reduceCtorEq, false_iff, List.cons.injEq]
        intro h
        exact h.2.2 h.2.1.1.symm
      · simp only [if_neg hid, Option.some.injEq, Prod.mk.injEq, hsubject, true_and,
          List.cons.injEq]
        constructor
        · intro h
          exact ⟨h, h.1 ▸ hid⟩
        · intro h
          exact h.1
  · rename_i hsubject
    simp [hsubject]

/-- All `handleMailbox` can do with a message: it has the handler run, or it
ignores the message. -/
theorem serve_cases (name : Bytes) (around : Surroundings) (served : List Served) (d : Delivery) :
    let e := serve name around served d
    e.handled.result = true ∧
    ((∃ id frames, request d = some (id, frames) ∧ id.cStr ≠ [] ∧
      e.handled.invoked = some (senderName d.sender.cStr, frames.map Bytes.cStr,
        e.handleRequest (senderName d.sender.cStr) (frames.map Bytes.cStr)) ∧
      e.handled.reply = replyFor d.sender.cStr id.cStr
        (e.handleRequest (senderName d.sender.cStr) (frames.map Bytes.cStr))) ∨
    ((∀ id frames, request d = some (id, frames) → id.cStr = []) ∧
      e.handled.invoked = none ∧ e.handled.reply = none)) := by
  intro e
  by_cases hasked : ∃ id frames, request d = some (id, frames) ∧ id.cStr ≠ []
  · obtain ⟨id, frames, hrequest, hid⟩ := hasked
    obtain ⟨hsubject, hmessage, _⟩ := request_eq_some.mp hrequest
    obtain ⟨hinvoked, hreply, hresult⟩ := handleMailbox_request name d.sender id frames
      (around.handleRequest served) (around.rv served) hid
    have hhandled : e.handled = handleMailbox name (ofString "REQUEST") d.sender (id :: frames)
        (around.handleRequest served) (around.rv served) := by
      have hliteral : (ofString "REQUEST").cStr = ofString "REQUEST" := rfl
      simp only [e, serve, handleMailbox, hsubject, hmessage, hliteral]
    rw [hhandled]
    exact ⟨hresult, Or.inl ⟨id, frames, hrequest, hid, hinvoked, hreply⟩⟩
  · have hempty : ∀ id frames, request d = some (id, frames) → id.cStr = [] := by
      intro id frames hrequest
      by_contra hid
      exact hasked ⟨id, frames, hrequest, hid⟩
    obtain ⟨hinvoked, hreply, hresult⟩ := handleMailbox_ignored name d.subject d.sender d.message
      (around.handleRequest served) (around.rv served) (by
        intro hsubject id frames hmessage
        by_cases hid : id = []
        · rw [hid]
          rfl
        · exact hempty id frames (request_eq_some.mpr ⟨hsubject, hmessage, hid⟩))
    exact ⟨hresult, Or.inr ⟨hempty, hinvoked, hreply⟩⟩

/-- The reply that is sent is the one the results call for exactly if there is
nothing behind a NUL byte in it. -/
theorem replyFor_eq_iff {sender id : Bytes} {outcome : Except Thrown (List Bytes)} :
    replyFor sender id.cStr outcome = (match outcome with
      | .error _ => none
      | .ok [] => none
      | .ok results => some (sender, id :: results)) ↔
    ∀ results, outcome = .ok results → results ≠ [] → id.NoNul ∧ ∀ s ∈ results, s.NoNul := by
  match outcome with
  | .error _ => simp [replyFor]
  | .ok [] => simp [replyFor]
  | .ok (r :: rs) =>
    have hcut : replyFor sender id.cStr (.ok (r :: rs)) =
        some (sender, (id :: r :: rs).map Bytes.cStr) := by
      simp only [replyFor, replyMessage_eq, Bytes.cStr_cStr, List.map_cons]
    simp only [hcut, Option.some.injEq, Prod.mk.injEq, true_and, Bytes.map_cStr_eq_self_iff]
    constructor
    · intro h results hresults _
      cases hresults
      exact List.forall_mem_cons.mp h
    · intro h
      exact List.forall_mem_cons.mpr (h (r :: rs) rfl (List.cons_ne_nil r rs))

theorem answered_iff_uncut (name : Bytes) (around : Surroundings) (served : List Served)
    (d : Delivery) :
    (serve name around served d).Answered ↔ (serve name around served d).Uncut := by
  obtain ⟨hresult, hasked | hignored⟩ := serve_cases name around served d
  · obtain ⟨id, frames, hrequest, hid, hinvoked, hreply⟩ := hasked
    have hdue : due (serve name around served d) = (match
        (serve name around served d).handleRequest (senderName d.sender.cStr) frames with
      | .error _ => none
      | .ok [] => none
      | .ok results => some (d.sender.cStr, id :: results)) := by
      simp only [due, serve, hrequest]
    constructor
    · intro h
      have hpayload : frames.map Bytes.cStr = frames := by
        have hsame := h.invoked
        rw [hinvoked, serve_delivery, hrequest] at hsame
        exact Option.some.inj hsame
      have hsent := h.reply
      rw [hreply, hdue, hpayload, replyFor_eq_iff] at hsent
      refine ⟨?_, ?_⟩
      · intro id' frames' hrequest'
        cases hrequest.symm.trans hrequest'
        exact ⟨hid, Bytes.map_cStr_eq_self_iff.mp hpayload⟩
      · intro id' frames' results hrequest' hran hne
        cases hrequest.symm.trans hrequest'
        exact hsent results hran hne
    · intro h
      have hpayload : frames.map Bytes.cStr = frames :=
        Bytes.map_cStr_eq_self_iff.mpr (h.asked id frames hrequest).2
      refine ⟨?_, ?_, hresult⟩
      · rw [hinvoked, serve_delivery, hrequest, hpayload]
        rfl
      · rw [hreply, hdue, hpayload, replyFor_eq_iff]
        intro results hran hne
        exact h.results id frames results hrequest hran hne
  · obtain ⟨hempty, hinvoked, hreply⟩ := hignored
    constructor
    · intro h
      have hrequest : request d = none := by
        have hsame := h.invoked
        rw [hinvoked] at hsame
        exact Option.map_eq_none_iff.mp hsame.symm
      refine ⟨?_, ?_⟩
      · intro id frames hsome
        cases hrequest.symm.trans hsome
      · intro id frames results hsome
        cases hrequest.symm.trans hsome
    · intro h
      have hrequest : request d = none := by
        by_contra hne
        obtain ⟨v, hsome⟩ := Option.ne_none_iff_exists'.mp hne
        exact (h.asked v.1 v.2 hsome).1 (hempty v.1 v.2 hsome)
      refine ⟨?_, ?_, hresult⟩
      · rw [hinvoked, serve_delivery, hrequest]
        rfl
      · rw [hreply]
        simp only [due, serve, hrequest]

/-- A turn adds to the log what the message it takes from the mailbox, if it
takes one, comes to. No such turn ends the loop. -/
theorem serverLoop_spec {name : Bytes} {around : Surroundings} {l l' : Loop (List Served)}
    {event : Event} (h : serverLoop name around l event = some l') :
    l'.state = l.state ++ (event.mailbox.map (serve name around l.state)).toList ∧
      (event.mailbox.isSome = true → l'.status = .running) := by
  cases event with
  | interrupted =>
    simp only [serverLoop, mainloop] at h
    split at h
    · cases h
      simp [Event.mailbox]
    · contradiction
  | turn t =>
    simp only [serverLoop, mainloop] at h
    split at h
    · rename_i hrunning
      have hhook : l.hook (agent name around) (-1) t.curClock = l := if_neg (by simp)
      simp only [Option.some.injEq] at h
      subst h
      simp only [Loop.turn, hhook, hrunning, if_true]
      obtain ⟨which, curClock⟩ := t
      match which with
      | .null => simp [Loop.dispatch, Event.mailbox]
      | .pipe none => simp [Loop.dispatch, Event.mailbox]
      | .pipe (some m) => simp [Loop.dispatch, Event.mailbox, agent, MlmAgent.handlePipe]
      | .client none => simp [Loop.dispatch, Event.mailbox]
      | .client (some d) =>
        by_cases hmailbox : d.command.cStr = ofString "MAILBOX DELIVER"
        · obtain ⟨hresult, _⟩ := serve_cases name around l.state d
          simp [Loop.dispatch, Event.mailbox, hmailbox, agent, hresult, Loop.after, hrunning]
        · by_cases hstream : d.command.cStr = ofString "STREAM DELIVER"
          · simp only [Loop.dispatch, Event.mailbox, if_neg hmailbox, if_pos hstream]
            simp [agent]
          · simp [Loop.dispatch, Event.mailbox, hmailbox, hstream]
      | .other _ none => simp [Loop.dispatch, Event.mailbox]
      | .other _ (some m) => simp [Loop.dispatch, Event.mailbox, agent]
    · contradiction

/-- Over a run the log gets the mailbox messages in their order, and each of them
is handled once. -/
theorem serverLoop_run {name : Bytes} {around : Surroundings} {l l' : Loop (List Served)}
    {events : List Event} (h : exec (serverLoop name around) l events = some l') :
    ∃ more, l'.state = l.state ++ more ∧
      more.map Served.delivery = events.filterMap Event.mailbox ∧
      ∀ e ∈ more, ∃ served, e = serve name around served e.delivery := by
  induction events generalizing l with
  | nil =>
    cases h
    exact ⟨[], by simp⟩
  | cons event events ih =>
    obtain ⟨r, hr, h⟩ := exec_cons.mp h
    obtain ⟨more, hstate, hdeliveries, hserved⟩ := ih h
    obtain ⟨hfirst, _⟩ := serverLoop_spec hr
    refine ⟨(event.mailbox.map (serve name around l.state)).toList ++ more, ?_, ?_, ?_⟩
    · rw [hstate, hfirst, List.append_assoc]
    · rw [List.map_append, hdeliveries]
      cases hmailbox : event.mailbox with
      | none => simp [hmailbox]
      | some d => simp [hmailbox]
    · intro e he
      rcases List.mem_append.mp he with he | he
      · rw [Option.mem_toList, Option.map_eq_some_iff] at he
        obtain ⟨d, _, hd⟩ := he
        subst hd
        exact ⟨l.state, rfl⟩
      · exact hserved e he

theorem mailbox_goes_on (name : Bytes) (around : Surroundings) (l : Loop (List Served))
    (events : List Event) :
    Along (serverLoop name around)
      (fun _ event l' => event.mailbox.isSome = true → l'.status = .running) l events := by
  induction events generalizing l with
  | nil => trivial
  | cons event events ih =>
    intro l' hl'
    exact ⟨(serverLoop_spec hl').2, ih l'⟩

/-- What a run of the server owes its clients. -/
structure Serves (name : Bytes) (around : Surroundings) (l : Loop (List Served))
    (events : List Event) (l' : Loop (List Served)) : Prop where
  /-- Each mailbox message is handled once, in the order of arrival. -/
  inOrder : l'.state.map Served.delivery = events.filterMap Event.mailbox
  answered : ∀ e ∈ l'.state, e.Answered
  /-- No mailbox message ends the loop. -/
  goesOn : Along (serverLoop name around)
    (fun _ event l' => event.mailbox.isSome = true → l'.status = .running) l events

/-- A server run does what it owes exactly if no NUL byte cuts a request or a
reply. -/
theorem serves_iff_uncut (name : Bytes) (around : Surroundings) (now : Int64)
    (events : List Event) (l : Loop (List Served))
    (h : exec (serverLoop name around) (Loop.start now []) events = some l) :
    Serves name around (Loop.start now []) events l ↔ ∀ e ∈ l.state, e.Uncut := by
  obtain ⟨log, hstate, hdeliveries, hserved⟩ := serverLoop_run h
  rw [show (Loop.start now ([] : List Served)).state = [] from rfl, List.nil_append] at hstate
  subst hstate
  have heach : ∀ e ∈ l.state, e.Answered ↔ e.Uncut := by
    intro e he
    obtain ⟨served, heq⟩ := hserved e he
    rw [heq]
    exact answered_iff_uncut name around served e.delivery
  constructor
  · intro hserves e he
    exact (heach e he).mp (hserves.answered e he)
  · intro huncut
    exact ⟨hdeliveries, fun e he => (heach e he).mpr (huncut e he),
      mailbox_goes_on name around _ events⟩

/-- A server that returns its payload, and whose sends succeed. -/
def echo : Surroundings := ⟨fun _ _ payload => .ok payload, fun _ => 0⟩

/-- A turn that takes a request of these frames from the mailbox. -/
def requesting (frames : Zmsg) : Event :=
  .turn ⟨.client (some
    ⟨ofString "MAILBOX DELIVER", ofString "REQUEST", ofString "ui.0000f00d", frames⟩), 0⟩

theorem plain_request_served : ∃ l, exec (serverLoop (ofString "server") echo) (Loop.start 0 [])
      [requesting [ofString "id", ofString "text"]] = some l ∧
    Serves (ofString "server") echo (Loop.start 0 [])
      [requesting [ofString "id", ofString "text"]] l := by
  obtain ⟨l, hl, hstate⟩ : ∃ l, exec (serverLoop (ofString "server") echo) (Loop.start 0 [])
      [requesting [ofString "id", ofString "text"]] = some l ∧
    l.state = [serve (ofString "server") echo [] ⟨ofString "MAILBOX DELIVER", ofString "REQUEST",
      ofString "ui.0000f00d", [ofString "id", ofString "text"]⟩] := ⟨_, rfl, rfl⟩
  refine ⟨l, hl, (serves_iff_uncut (ofString "server") echo 0 _ l hl).mpr ?_⟩
  intro e he
  rw [hstate, List.mem_singleton] at he
  subst he
  refine ⟨?_, ?_⟩
  · intro id frames hrequest
    cases hrequest
    decide
  · intro id frames results hrequest hran _
    cases hrequest
    cases hran
    decide

/-- A frame of the first request loses what is behind its NUL byte, and the
second one, whose first frame is not empty, is not handled. -/
theorem cut_requests_served : ∃ l, exec (serverLoop (ofString "server") echo) (Loop.start 0 [])
      [requesting [ofString "id", [97, 0, 98]], requesting [[0, 97], ofString "text"]] = some l ∧
    l.state.map (fun e => request e.delivery) =
      [some (ofString "id", [[97, 0, 98]]), some ([0, 97], [ofString "text"])] ∧
    l.state.map (fun e => e.handled.invoked.map fun v => v.2.1) = [some [[97]], none] :=
  ⟨_, rfl, rfl, rfl⟩

end FtyCommonMlm.Serving
