import FtyCommonMlm.Lib.SharedLog
import FtyCommonMlm.Lib.Simulation
import FtyCommonMlm.Stream.Broker
import FtyCommonMlm.Stream.Dispatch

namespace FtyCommonMlm.MlmStreamClient
open Runs
open Bytes (ofString)

/-- What an event of the stream is for the log of its messages, that the
listeners read. -/
def logActions (cfg : Nat → Config) (w : World) :
    WorldEvent → List (SharedLog.Action Nat StreamMsg)
  | .api i e => (e.sends (cfg i)).map .send
  | .publish i payload rc => (publish (cfg i) payload rc).toOption.toList.map .send
  | .broadcast => [.reveal]
  | .listener i (.setConsumer rc) => if rc ≠ 0 then [] else [.attach i]
  | .listener i .checkStop =>
    if (w.clients i).stopRequested ∨ (w.clients i).listener = .receivedNull then [.detach i] else []
  | .listener i (.dispatch _) => [.read i]
  | .listener i .interrupt => [.detach i]
  | .listener _ _ => []

/-- What the callback of a subscription has been called with. -/
def Client.told (c : Client) (subId : SubId) : List (List Bytes × Bytes) :=
  (c.invoked.filter fun v => v.subId = subId).map fun v => (v.payload, v.subject)

def StreamMsg.content (m : StreamMsg) : List Bytes × Bytes := (m.frames.map Bytes.cStr, m.subject)

/-- A listener that consumes the stream has what the log shows from its place on. -/
def Attached (c : Client) (shown : List StreamMsg) : Option (Nat × Nat) → Prop
  | none => c.listener.consumes = false ∧ c.held = []
  | some (_, next) => c.listener.consumes = true ∧ c.held = shown.drop next

/-- A client beside its reader of the log. -/
structure Reading (shown : List StreamMsg) (place : Option (Nat × Nat)) (heard : List StreamMsg)
    (c : Client) : Prop where
  inv : Inv c
  attached : Attached c shown place
  told : ∀ subId, (c.told subId).Sublist (heard.map StreamMsg.content)

/-- The stream beside the log of its messages. -/
structure Shared (w : World) (log : SharedLog.State Nat StreamMsg) : Prop where
  inv : SharedLog.Inv log
  bus : w.bus = log.sent.drop log.shown
  reading : ∀ i, Reading (log.sent.take log.shown) (log.readers i) (log.heard i) (w.clients i)

section Clients

variable {cfg : Config} {shown heard : List StreamMsg} {place : Option (Nat × Nat)}
  {c d : Client} {m : StreamMsg}

theorem ApiMove.reading {e : ApiEvent} (h : ApiMove cfg c e d)
    (hc : Reading shown place heard c) : Reading shown place heard d := by
  refine ⟨h.inv hc.inv, ?_, ?_⟩
  · have ha := hc.attached
    rcases h.listener with ⟨_, hlistener, _, hqueue⟩ | ⟨_, hj, hlistener, hqueue⟩ |
      ⟨_, hended, hlistener, _, hqueue⟩
    · cases place <;>
        simpa only [Attached, Client.held, hlistener, hqueue] using ha
    · have habsent := hc.inv.absent hj
      cases place with
      | none => simp [Attached, Client.held, hlistener, hqueue, Listener.consumes, Listener.inHand]
      | some place => simp [Attached, habsent, Listener.consumes] at ha
    · cases hl : c.listener with
      | left | failed =>
        cases place with
        | none =>
          simpa [Attached, Client.held, hl, hlistener, hqueue, Listener.consumes,
            Listener.inHand] using ha
        | some place => simp [Attached, hl, Listener.consumes] at ha
      | _ => simp [hl, Listener.ended] at hended
  · intro subId
    rw [Client.told, h.held.1]
    exact hc.told subId

theorem deliver_reading (hplace : ∀ first next, place = some (first, next) → next ≤ shown.length)
    (hc : Reading shown place heard c) : Reading (shown ++ [m]) place heard (c.deliver m) := by
  refine ⟨deliver_inv hc.inv m, ?_, ?_⟩
  · have ha := hc.attached
    match place, ha, hplace with
    | none, ha, _ =>
      have hsame : c.deliver m = c := by simp [Client.deliver, ha.1]
      rw [hsame]
      exact ha
    | some (first, next), ha, hplace =>
      obtain ⟨hconsumes, hheld⟩ := ha
      refine ⟨by simp [Client.deliver, hconsumes], ?_⟩
      rw [List.drop_append_of_le_length (hplace first next rfl), ← hheld]
      simp [Client.deliver, hconsumes, Client.held]
  · intro subId
    rw [Client.told, (deliver_held c m).1]
    exact hc.told subId

/-- A listener that neither attaches, reads nor detaches has the same in hand. -/
theorem Reading.of_held (hc : Reading shown place heard c) (hd : Inv d)
    (hlistener : d.listener.consumes = c.listener.consumes) (hheld : d.held = c.held)
    (hinvoked : d.invoked = c.invoked) : Reading shown place heard d := by
  refine ⟨hd, ?_, ?_⟩
  · have ha := hc.attached
    cases place <;> simpa only [Attached, hlistener, hheld] using ha
  · intro subId
    rw [Client.told, hinvoked]
    exact hc.told subId

theorem Reading.detached (h : Reading shown place heard c) (hc : c.listener.consumes = false) :
    place = none ∧ c.held = [] := by
  have ha := h.attached
  match place, ha with
  | none, ha => exact ⟨rfl, ha.2⟩
  | some (first, next), ha => simp [Attached, hc] at ha

theorem Reading.attachedAt (h : Reading shown place heard c) (hc : c.listener.consumes = true) :
    ∃ first next, place = some (first, next) ∧ c.held = shown.drop next := by
  have ha := h.attached
  match place, ha with
  | none, ha => simp [Attached, hc] at ha
  | some (first, next), ha => exact ⟨first, next, rfl, ha.2⟩

/-- The callbacks are told at most once of what is read. -/
theorem told_handed (c : Client) (m : StreamMsg) (subId : SubId) :
    ∃ told, (c.handed (m.frames.map Bytes.cStr) m.subject).told subId = c.told subId ++ told ∧
      told.Sublist [m.content] := by
  refine ⟨((c.callbacks.toList.map fun item => invocation item.1 item.2 m).filter
    fun v => v.subId = subId).map fun v => (v.payload, v.subject), ?_, ?_⟩
  · simp only [Client.told, Client.handed, List.filter_append, List.map_append]
    rfl
  · rw [process_filter]
    cases c.callbacks[subId]? with
    | none => exact List.nil_sublist _
    | some callback => exact List.Sublist.refl _

end Clients

section Steps

variable {cfg : Nat → Config} {w x : World} {log : SharedLog.State Nat StreamMsg} {d : Client}
  {i : Nat}

theorem start_shared : Shared World.start SharedLog.start := by
  refine ⟨SharedLog.start_inv, rfl, ?_⟩
  intro i
  exact ⟨start_inv, ⟨rfl, rfl⟩, fun subId => List.Sublist.refl _⟩

/-- Only one client has moved, and of the readers only its own. -/
theorem Shared.moved {log' : SharedLog.State Nat StreamMsg} (h : Shared w log)
    (hinv : SharedLog.Inv log') (hsent : log'.sent = log.sent) (hshown : log'.shown = log.shown)
    (hothers : ∀ j, j ≠ i → log'.readers j = log.readers j ∧ log'.heard j = log.heard j)
    {place : Option (Nat × Nat)} {heard : List StreamMsg} (hplace : log'.readers i = place)
    (hheard : log'.heard i = heard) (hd : Reading (log.sent.take log.shown) place heard d) :
    Shared { w with clients := Function.update w.clients i d } log' := by
  refine ⟨hinv, by rw [hsent, hshown]; exact h.bus, ?_⟩
  intro j
  rw [hsent, hshown]
  by_cases hj : j = i
  · subst hj
    simpa [hplace, hheard] using hd
  · simpa [Function.update_of_ne hj, (hothers j hj).1, (hothers j hj).2] using h.reading j

theorem Shared.detach (h : Shared w log) (hc : (w.clients i).listener.consumes = true)
    (hd : Reading (log.sent.take log.shown) none (log.heard i) d) :
    ∃ log', exec SharedLog.step log [.detach i] = some log' ∧
      Shared { w with clients := Function.update w.clients i d } log' := by
  obtain ⟨first, next, hplace, _⟩ := (h.reading i).attachedAt hc
  have hdetach : SharedLog.step log (.detach i) =
      some { log with readers := Function.update log.readers i none } := by
    simp [SharedLog.step, hplace]
  refine ⟨_, by simp [exec, hdetach], h.moved (SharedLog.step_inv h.inv hdetach) rfl rfl
    (fun j hj => ⟨Function.update_of_ne hj _ _, rfl⟩) (Function.update_self ..) rfl hd⟩

theorem Shared.attach (h : Shared w log) (hc : (w.clients i).listener.consumes = false)
    (hd : Reading (log.sent.take log.shown) (some (log.shown, log.shown)) (log.heard i) d) :
    ∃ log', exec SharedLog.step log [.attach i] = some log' ∧
      Shared { w with clients := Function.update w.clients i d } log' := by
  obtain ⟨hnone, -⟩ := (h.reading i).detached hc
  have hattach : SharedLog.step log (.attach i) = some
      { log with readers := Function.update log.readers i (some (log.shown, log.shown)) } := by
    simp [SharedLog.step, hnone]
  refine ⟨_, by simp [exec, hattach], h.moved (SharedLog.step_inv h.inv hattach) rfl rfl
    (fun j hj => ⟨Function.update_of_ne hj _ _, rfl⟩) (Function.update_self ..) rfl hd⟩

/-- What a listener reads is the first message it holds. -/
theorem Shared.read {m : StreamMsg} {queue : List StreamMsg} (h : Shared w log)
    (hc : (w.clients i).listener.consumes = true) (hheld : (w.clients i).held = m :: queue)
    (hd : Inv d) (hlistener : d.listener.consumes = true) (hqueue : d.held = queue)
    (htold : ∀ subId, (d.told subId).Sublist ((log.heard i ++ [m]).map StreamMsg.content)) :
    ∃ log', exec SharedLog.step log [.read i] = some log' ∧
      Shared { w with clients := Function.update w.clients i d } log' := by
  obtain ⟨first, next, hplace, hdrop⟩ := (h.reading i).attachedAt hc
  rw [hheld] at hdrop
  have hm : (log.sent.take log.shown)[next]? = some m := by
    rw [← List.head?_drop, ← hdrop, List.head?_cons]
  have hread : SharedLog.step log (.read i) = some
      { log with
        readers := Function.update log.readers i (some (first, next + 1))
        heard := Function.update log.heard i (log.heard i ++ [m]) } := by
    simp [SharedLog.step, hplace, hm]
  refine ⟨_, by simp [exec, hread], h.moved (SharedLog.step_inv h.inv hread) rfl rfl
    (fun j hj => ⟨Function.update_of_ne hj _ _, Function.update_of_ne hj _ _⟩)
    (Function.update_self ..) (Function.update_self ..) ⟨hd, ⟨hlistener, ?_⟩, htold⟩⟩
  rw [← List.drop_drop, ← hdrop, hqueue]
  rfl

theorem listener_shared {e : ListenerEvent} (h : Shared w log)
    (hstep : listenerStep (cfg i) (w.clients i) e = some d) :
    ∃ log', exec SharedLog.step log (logActions cfg w (.listener i e)) = some log' ∧
      Shared { w with clients := Function.update w.clients i d } log' := by
  have hc := h.reading i
  have hd : Inv d := (listenerStep_moves hstep).inv hc.inv
  have hsilent : Reading (log.sent.take log.shown) (log.readers i) (log.heard i) d →
      Shared { w with clients := Function.update w.clients i d } log :=
    h.moved h.inv rfl rfl (fun j hj => ⟨rfl, rfl⟩) rfl rfl
  cases e with
  | connect client rc =>
    refine ⟨log, rfl, hsilent ?_⟩
    obtain ⟨hstarted, ⟨_, rfl⟩ | ⟨_, rfl⟩ | ⟨_, rfl⟩⟩ := connect_cases hstep <;>
      exact hc.of_held hd (by simp [hstarted, Listener.consumes])
        (by simp [Client.held, hstarted, Listener.inHand]) rfl
  | setConsumer rc =>
    obtain ⟨hconnected, ⟨hrc, rfl⟩ | ⟨rfl, rfl⟩⟩ := setConsumer_cases hstep
    · refine ⟨log, by simp [logActions, hrc, exec], hsilent ?_⟩
      exact hc.of_held hd (by simp [hconnected, Listener.consumes])
        (by simp [Client.held, hconnected, Listener.inHand]) rfl
    · rw [show logActions cfg w (.listener i (.setConsumer 0)) = [.attach i] from rfl]
      obtain ⟨-, hheld⟩ := hc.detached (by rw [hconnected]; rfl)
      have hqueue : (w.clients i).queue = [] := (List.append_eq_nil_iff.mp hheld).2
      refine h.attach (by rw [hconnected]; rfl) ⟨hd, ⟨rfl, ?_⟩, hc.told⟩
      simp [Client.held, Listener.inHand, hqueue]
  | notify =>
    refine ⟨log, rfl, hsilent ?_⟩
    cases listenerStep_moves hstep with
    | notify hl | notifyError hl =>
      exact hc.of_held hd (by simp [hl, Listener.consumes])
        (by simp [Client.held, hl, Listener.inHand, Client.notify]) rfl
  | transfer =>
    refine ⟨log, rfl, hsilent ?_⟩
    cases listenerStep_moves hstep with
    | transfer e hl =>
      exact hc.of_held hd (by simp [hl, Listener.consumes])
        (by simp [Client.held, hl, Listener.inHand]) rfl
  | receive =>
    refine ⟨log, rfl, hsilent ?_⟩
    cases listenerStep_moves hstep with
    | receive m queue hl hq =>
      exact hc.of_held hd (by simp [hl, Listener.consumes])
        (by simp [Client.held, hl, hq, Listener.inHand]) rfl
  | receiveNull =>
    refine ⟨log, rfl, hsilent ?_⟩
    cases listenerStep_moves hstep with
    | receiveNull hl =>
      exact hc.of_held hd (by simp [hl, Listener.consumes])
        (by simp [Client.held, hl, Listener.inHand]) rfl
  | checkStop =>
    cases listenerStep_moves hstep with
    | pass m hl hs =>
      refine ⟨log, by simp [logActions, hl, hs, exec], hsilent ?_⟩
      exact hc.of_held hd (by simp [hl, Listener.consumes])
        (by simp [Client.held, hl, Listener.inHand]) rfl
    | leave m hl hs =>
      have hactions : logActions cfg w (.listener i .checkStop) = [.detach i] := by
        simp [logActions, hs]
      rw [hactions]
      exact h.detach (by rw [hl]; rfl) ⟨hd, ⟨rfl, rfl⟩, hc.told⟩
    | leaveNull hl hs | abort hl hs =>
      have hactions : logActions cfg w (.listener i .checkStop) = [.detach i] := by
        simp [logActions, hl]
      rw [hactions]
      exact h.detach (by rw [hl]; rfl) ⟨hd, ⟨rfl, rfl⟩, hc.told⟩
  | interrupt =>
    cases listenerStep_moves hstep with
    | interrupt hl => exact h.detach (by rw [hl]; rfl) ⟨hd, ⟨rfl, rfl⟩, hc.told⟩
  | dispatch ends =>
    cases listenerStep_moves hstep with
    | dispatch ends m hl hf =>
      have hheld : (w.clients i).held = m :: (w.clients i).queue := by
        rw [Client.held, hl]
        rfl
      refine h.read (by rw [hl]; rfl) hheld hd rfl rfl ?_
      intro subId
      obtain ⟨more, hmore, hsub⟩ := told_handed (w.clients i) m subId
      rw [List.map_append]
      exact hmore ▸ (hc.told subId).append hsub

theorem Shared.send (h : Shared w log) (ms : List StreamMsg) (published : List (List Bytes)) :
    ∃ log', exec SharedLog.step log (ms.map .send) = some log' ∧
      Shared ⟨w.clients, w.bus ++ ms, published⟩ log' := by
  have hsend := SharedLog.exec_send log ms
  refine ⟨_, hsend, inv_of_exec h.inv (fun _ _ _ hs ht => SharedLog.step_inv hs ht) hsend, ?_, ?_⟩
  · rw [List.drop_append_of_le_length h.inv.shown, ← h.bus]
  · intro i
    rw [List.take_append_of_le_length h.inv.shown]
    exact h.reading i

theorem Shared.broadcast (h : Shared w log) {m : StreamMsg} {bus : List StreamMsg}
    (hm : w.bus = m :: bus) :
    ∃ log', exec SharedLog.step log [.reveal] = some log' ∧
      Shared ⟨fun i => (w.clients i).deliver m, bus, w.published⟩ log' := by
  have hdrop : log.sent.drop log.shown = m :: bus := h.bus.symm.trans hm
  have hget : log.sent[log.shown]? = some m := by
    rw [← List.head?_drop, hdrop, List.head?_cons]
  obtain ⟨hlt, _⟩ := List.getElem?_eq_some_iff.mp hget
  have hreveal : SharedLog.step log .reveal = some { log with shown := log.shown + 1 } := by
    simp [SharedLog.step, hlt]
  refine ⟨_, by simp [exec, hreveal], SharedLog.step_inv h.inv hreveal, ?_, ?_⟩
  · rw [← List.drop_drop, hdrop]
    rfl
  · intro i
    rw [List.take_add_one, hget]
    refine deliver_reading ?_ (h.reading i)
    intro first next hplace
    have hreads := h.inv.reads i
    rw [hplace] at hreads
    exact hreads.2.1

theorem world_shared {e : WorldEvent} (h : Shared w log) (hstep : worldStep cfg w e = some x) :
    ∃ log', exec SharedLog.step log (logActions cfg w e) = some log' ∧ Shared x log' := by
  cases e with
  | api i e =>
    obtain ⟨c, hc, rfl⟩ := Option.map_eq_some_iff.mp hstep
    have hmoved := h.moved h.inv rfl rfl (fun j hj => ⟨rfl, rfl⟩) rfl rfl
      ((apiStep_moves hc).reading (h.reading i))
    exact hmoved.send (e.sends (cfg i)) w.published
  | listener i e =>
    obtain ⟨c, hc, rfl⟩ := Option.map_eq_some_iff.mp hstep
    exact listener_shared h hc
  | publish i payload rc =>
    cases hstep
    exact h.send _ _
  | broadcast =>
    simp only [worldStep] at hstep
    split at hstep
    · contradiction
    · rename_i m bus hm
      cases hstep
      exact h.broadcast hm

end Steps

/-- The stream is one log of what has been sent on it. Each listener reads the log
in its order, and from the place it was at when the listener began to consume
nothing is missing: what has been read since and what is in hand are the log up to
now. No subscription of any client is told anything else, or twice, or in another
order. -/
theorem stream_is_shared_log {cfg : Nat → Config} {events : List WorldEvent} {w : World}
    {actions : List (SharedLog.Action Nat StreamMsg)}
    (h : exec (logged (worldStep cfg) (logActions cfg)) (World.start, []) events =
      some (w, actions)) :
    ∃ log, exec SharedLog.step SharedLog.start actions = some log ∧
      log.sent = log.sent.take log.shown ++ w.bus ∧
      ∀ i, (∀ subId, ((w.clients i).told subId).Sublist ((log.heard i).map StreamMsg.content)) ∧
        (log.heard i).Sublist (log.sent.take log.shown) ∧
        ((w.clients i).listener.consumes = true →
          ∃ first next earlier, log.readers i = some (first, next) ∧
            log.heard i ++ (w.clients i).held = earlier ++ (log.sent.take log.shown).drop first ∧
            earlier.Sublist ((log.sent.take log.shown).take first)) := by
  obtain ⟨log, hlog, hshared⟩ := related_run (fun w e x log hw hx => world_shared hw hx)
    start_shared h
  refine ⟨log, hlog, by rw [hshared.bus, List.take_append_drop], ?_⟩
  intro i
  have hreads := (SharedLog.reads_of_run hlog).reads i
  refine ⟨(hshared.reading i).told, hreads.sublist, ?_⟩
  intro hconsumes
  obtain ⟨first, next, hplace, hheld⟩ := (hshared.reading i).attachedAt hconsumes
  rw [hplace] at hreads
  obtain ⟨hle, hnext, earlier, hheard, hearlier⟩ := hreads
  refine ⟨first, next, earlier, hplace, ?_, hearlier⟩
  have hlength : first ≤ ((log.sent.take log.shown).take next).length := by
    rw [List.length_take_of_le hnext]
    exact hle
  rw [hheard, hheld, List.append_assoc, ← List.drop_append_of_le_length hlength,
    List.take_append_drop]

/-- One client is through with two messages, the other one has them in hand. -/
def twoListenersRun : List WorldEvent :=
  subscribing 0 1 ++ subscribing 1 2 ++
    [.publish 2 [ofString "one"] {}, .publish 0 [ofString "two"] {}, .broadcast, .broadcast,
      .listener 1 .receive, .listener 0 .receive, .listener 0 .checkStop, .listener 0 .dispatch,
      .listener 0 .receive, .listener 0 .checkStop, .listener 0 .dispatch]

theorem two_listeners_read :
    ∃ w actions, exec (logged (worldStep fun _ => localBroker) (logActions fun _ => localBroker))
        (World.start, []) twoListenersRun = some (w, actions) ∧
      (w.clients 0).invoked.length = 2 ∧ (w.clients 1).held.length = 2 ∧
      ∃ log, exec SharedLog.step SharedLog.start actions = some log ∧
        (log.heard 0).Sublist (log.sent.take log.shown) := by
  have hrun : ∃ w actions,
      exec (logged (worldStep fun _ => localBroker) (logActions fun _ => localBroker))
        (World.start, []) twoListenersRun = some (w, actions) ∧
      (w.clients 0).invoked.length = 2 ∧ (w.clients 1).held.length = 2 := ⟨_, _, rfl, rfl, rfl⟩
  obtain ⟨w, actions, h, hinvoked, hheld⟩ := hrun
  obtain ⟨log, hlog, _, hreaders⟩ := stream_is_shared_log h
  exact ⟨w, actions, h, hinvoked, hheld, log, hlog, (hreaders 0).2.1⟩

end FtyCommonMlm.MlmStreamClient
