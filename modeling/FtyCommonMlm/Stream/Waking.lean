import FtyCommonMlm.Stream.Broker
import FtyCommonMlm.Stream.Startup

namespace FtyCommonMlm.MlmStreamClient
open Runs

/-- The start-up has not come to its end. -/
def Listener.starting : Listener → Bool
  | .started | .connected | .failing _ => true
  | _ => false

/-- `subscribe` has not left its wait for the start-up. -/
def Api.awaits : Api → Bool
  | .spawned | .waiting | .woken => true
  | _ => false

/-- A listener that is asked to stop will not wait for ever: it is about to
leave, or `more` is there to wake it. -/
def Listener.Leaves (more : Prop) : Listener → Prop
  | .left | .failed | .caught | .received _ | .receivedNull => True
  | .consuming | .polling | .checked _ => more
  | _ => False

/-- The threads of one client, where `bus` is under way to the consumers. -/
structure Wakes (bus : List StreamMsg) (c : Client) : Prop where
  inv : Inv c
  starting : c.listener.starting = true → c.api.awaits = true
  stops : ∀ who, c.api = .stopping who ∨ c.api = .joining who → c.stopRequested = true
  joins : ∀ who, c.api = .joining who → c.listener.Leaves (c.queue ≠ [] ∨ bus ≠ [])

theorem start_wakes (bus : List StreamMsg) : Wakes bus {} := by
  refine ⟨start_inv, by simp [Listener.starting], ?_, by simp⟩
  intro who hor
  rcases hor with h | h <;> contradiction

theorem Listener.Leaves.mono {p q : Prop} {l : Listener} (h : l.Leaves p) (hpq : p → q) :
    l.Leaves q := by
  cases l <;> simp_all [Listener.Leaves]

theorem Wakes.append {bus : List StreamMsg} {c : Client} (h : Wakes bus c)
    (more : List StreamMsg) : Wakes (bus ++ more) c := by
  refine ⟨h.inv, h.starting, h.stops, ?_⟩
  intro who hw
  exact (h.joins who hw).mono (Or.imp_right fun hne => List.append_ne_nil_of_left_ne_nil hne more)

/-- A listener that is there and is through with its start-up is one that the
message of the stop will reach. -/
theorem leaves_of_stop {c : Client} (hi : Inv c) (hj : c.joinable = true)
    (hruns : c.listener ≠ .aborted) (hs : c.listener.starting = false) : c.listener.Leaves True := by
  have hl := hi.listener
  cases h : c.listener <;> simp_all [Listener.Agrees, Listener.starting, Listener.Leaves]

/-- `unsubscribe` or the destructor stops the listener. -/
def Api.winding : Api → Bool
  | .stopping _ | .joining _ => true
  | _ => false

theorem Wakes.elsewhere {bus : List StreamMsg} {c : Client} (hi : Inv c)
    (hs : c.listener.starting = true → c.api.awaits = true) (hw : c.api.winding = false) :
    Wakes bus c := by
  refine ⟨hi, hs, ?_, ?_⟩
  · intro who hor
    rcases hor with h | h <;> simp [h, Api.winding] at hw
  · intro who h
    simp [h, Api.winding] at hw

theorem Wakes.started {bus : List StreamMsg} {c : Client} (h : Wakes bus c)
    (ha : c.api.awaits = false) : c.listener.starting = false := by
  cases hs : c.listener.starting with
  | false => rfl
  | true =>
    rw [h.starting hs] at ha
    contradiction

theorem stopped_winding (c : Client) (who : Stopper) (r : Except Error Unit) :
    (c.stopped who r).api.winding = false ∧ (c.stopped who r).listener = c.listener := by
  cases who with
  | unsubscribe subId => exact ⟨rfl, rfl⟩
  | destructor =>
    cases r with
    | error e => exact ⟨rfl, rfl⟩
    | ok _ => cases hj : c.joinable <;> simp [Client.stopped, Client.destroyMembers, hj, Api.winding]

section Steps

variable {cfg : Config} {bus : List StreamMsg} {c d : Client}

theorem ApiMove.wakes {e : ApiEvent} (h : ApiMove cfg c e d) (hruns : c.listener ≠ .aborted)
    (hc : Wakes bus c) (hg : e = .resume → c.listener.startupFinished = true) :
    Wakes (bus ++ e.sends cfg) d := by
  have hi := h.inv hc.inv
  have helsewhere : c.api.awaits = false → d.listener = c.listener → d.api.winding = false →
      Wakes (bus ++ e.sends cfg) d := by
    intro ha hl hw
    refine .elsewhere hi ?_ hw
    rw [hl, hc.started ha]
    exact fun hs => absurd hs Bool.false_ne_true
  cases h with
  | subscribe callback h | store callback h | find subId h hin | unknown subId h hin
  | erase subId h | keep subId h he | attach h hj =>
    exact helsewhere (by rw [h]; rfl) rfl rfl
  | destroy h he =>
    refine helsewhere (by rw [h]; rfl) rfl ?_
    cases hj : c.joinable <;> simp [Client.destroyMembers, hj, Api.winding]
  | spawn h hj | wait h | spurious h => exact .elsewhere hi (fun _ => rfl) rfl
  | rethrow e h hx | resume h hx =>
    refine .elsewhere hi ?_ rfl
    intro hs
    have hf := hg rfl
    simp only [Client.finish] at hs
    cases hl : c.listener <;> simp [hl, Listener.starting, Listener.startupFinished,
      Listener.consumerSet] at hs hf
  | stop subId h he | destroyStop h he =>
    have hstarted : c.listener.starting = false := hc.started (by rw [h]; rfl)
    refine ⟨hi, fun hs => absurd hs (by simp [hstarted]), fun _ _ => rfl, ?_⟩
    intro who hw
    contradiction
  | sent who rc m h hm =>
    have hstarted : c.listener.starting = false := hc.started (by rw [h]; rfl)
    refine ⟨hi, fun hs => absurd hs (by simp [hstarted]), fun _ _ => hc.stops who (Or.inl h), ?_⟩
    intro _ _
    have hj : c.joinable = true := by
      have hapi := hc.inv.api
      rw [h] at hapi
      cases who with
      | unsubscribe subId => exact hapi.1
      | destructor => exact hapi
    -- the SYNC message is under way now
    refine (leaves_of_stop hc.inv hj hruns hstarted).mono fun _ => Or.inr ?_
    simp [ApiEvent.sends, hm, Except.toOption]
  | notSent who rc e h hm =>
    obtain ⟨hw, hl⟩ := stopped_winding c who (.error e)
    exact helsewhere (by rw [h]; rfl) hl hw
  | notJoinable who h hj =>
    obtain ⟨hw, hl⟩ := stopped_winding c who (.error .notJoinable)
    exact helsewhere (by rw [h]; rfl) hl hw
  | join who h hj hl =>
    obtain ⟨hw, hl⟩ := stopped_winding { c with joinable := false, listener := .absent } who (.ok ())
    refine .elsewhere hi ?_ hw
    rw [hl]
    exact fun hs => absurd hs Bool.false_ne_true

theorem ListenerMove.wakes {e : ListenerEvent} (h : ListenerMove cfg c e d) (hc : Wakes bus c) :
    Wakes bus d := by
  have hwinding : d.api.winding = true → c.api = d.api := by
    intro hw
    rcases h.api with hsame | ⟨_, hk⟩
    · exact hsame.symm
    · rw [hk] at hw
      contradiction
  have hawaits : c.api.awaits = true → d.api.awaits = true := by
    intro ha
    rcases h.api with hsame | ⟨_, hk⟩
    · rwa [hsame]
    · rw [hk]
      rfl
  have hflag : d.stopRequested = c.stopRequested := by cases h <;> rfl
  have hstops : ∀ who, d.api = .stopping who ∨ d.api = .joining who → d.stopRequested = true := by
    intro who hd
    rw [hflag]
    apply hc.stops who
    rcases hd with hd | hd <;> rw [hwinding (by rw [hd]; rfl), hd] <;> simp
  have hjoins : ∀ who, d.api = .joining who → c.listener.Leaves (c.queue ≠ [] ∨ bus ≠ []) := by
    intro who hd
    apply hc.joins who
    rw [hwinding (by rw [hd]; rfl), hd]
  refine ⟨h.inv hc.inv, ?_, hstops, ?_⟩
  · intro hs
    apply hawaits
    apply hc.starting
    cases h with
    | fail client rc e h | connect client rc h | failConsumer rc e h =>
      rw [h]
      rfl
    | _ => contradiction
  · intro who hd
    have hj := hjoins who hd
    cases h with
    | fail client rc e h | connect client rc h | failConsumer rc e h | notify h
    | dispatch ends m h hf =>
      rw [h] at hj
      exact hj
    | setConsumer rc h =>
      rw [h] at hj
      exact False.elim hj
    | transfer e h | notifyError h | receive m queue h hq | receiveNull h | leave m h hs
    | leaveNull h hs | interrupt h => trivial
    | pass m h hs | abort h hs =>
      have ht := hstops who (Or.inr hd)
      rw [hflag, hs] at ht
      contradiction

theorem deliver_wakes {m : StreamMsg} (hc : Wakes (m :: bus) c) : Wakes bus (c.deliver m) := by
  unfold Client.deliver
  split
  · rename_i hconsumes
    refine ⟨⟨hc.inv.api, hc.inv.listener⟩, hc.starting, hc.stops, ?_⟩
    intro who hw
    refine (hc.joins who hw).mono fun _ => Or.inl ?_
    simp
  · rename_i hconsumes
    refine ⟨hc.inv, hc.starting, hc.stops, ?_⟩
    intro who hw
    have hj := hc.joins who hw
    cases hl : c.listener <;> simp_all [Listener.Leaves, Listener.consumes]

end Steps

/-- Every `subscribe` that started a listener leaves its wait behind the end of
the listener's start-up. -/
def ReturnsStarted (w : World) (e : WorldEvent) : Prop :=
  ∀ i, e = .api i .resume → (w.clients i).listener.startupFinished = true

theorem wakes_of_step {cfg : Nat → Config} {w x : World} {e : WorldEvent}
    (hw : ∀ i, Wakes w.bus (w.clients i)) (hg : ReturnsStarted w e)
    (h : worldStep cfg w e = some x) : ∀ i, Wakes x.bus (x.clients i) := by
  cases e with
  | api i e =>
    obtain ⟨c, hc, rfl⟩ := Option.map_eq_some_iff.mp h
    apply update_forall (P := Wakes (w.bus ++ e.sends (cfg i)))
    · intro j
      exact (hw j).append _
    · exact (apiStep_moves hc).wakes (runs_of_apiStep hc) (hw i) fun he => hg i (by rw [he])
  | listener i e =>
    obtain ⟨c, hc, rfl⟩ := Option.map_eq_some_iff.mp h
    apply update_forall (P := Wakes w.bus) hw
    exact (listenerStep_moves hc).wakes (hw i)
  | publish i payload rc =>
    cases h
    intro j
    exact (hw j).append _
  | broadcast =>
    simp only [worldStep] at h
    split at h
    · contradiction
    · rename_i m bus hbus
      cases h
      rw [hbus] at hw
      intro j
      exact deliver_wakes (hw j)

/-- No call waits in `join` for a listener that waits for a message when there
is none, neither in its queue nor on its way. -/
theorem join_never_stuck (cfg : Nat → Config) (events : List WorldEvent) (w : World)
    (hg : Guarded (worldStep cfg) ReturnsStarted World.start events)
    (h : exec (worldStep cfg) World.start events = some w) (i : Nat) (who : Stopper) :
    ¬ ((w.clients i).api = .joining who ∧ (w.clients i).listener = .polling ∧
      (w.clients i).queue = [] ∧ w.bus = []) := by
  have hw : ∀ i, Wakes w.bus (w.clients i) :=
    inv_of_guarded (I := fun w => ∀ i, Wakes w.bus (w.clients i)) (fun _ => start_wakes []) hg
      (fun _ _ _ hi hg hs => wakes_of_step hi hg hs) h
  intro hgiven
  obtain ⟨hapi, hpolling, hqueue, hbus⟩ := hgiven
  have hj := (hw i).joins who hapi
  rw [hpolling] at hj
  rcases hj with hne | hne
  · exact hne hqueue
  · exact hne hbus

def unsubscribing (i : Nat) (subId : SubId) : List WorldEvent :=
  [.publish i [] {}, .api i (.unsubscribe subId), .api i .erase, .api i .check, .api i (.sync {})]

/-- The listener waits while the SYNC message is on its way behind another. -/
theorem joined_listener_is_woken :
    ∃ w, exec (worldStep (fun _ => localBroker)) World.start
        (subscribing 0 1 ++ unsubscribing 0 1) = some w ∧
      (w.clients 0).api = .joining (.unsubscribe 1) ∧ (w.clients 0).listener = .polling ∧
      ¬ ((w.clients 0).queue = [] ∧ w.bus = []) := by
  refine ⟨_, rfl, rfl, rfl, ?_⟩
  intro hgiven
  obtain ⟨hqueue, hbus⟩ := hgiven
  refine join_never_stuck (fun _ => localBroker) (subscribing 0 1 ++ unsubscribing 0 1) _ ?_ rfl 0
    (.unsubscribe 1) ⟨rfl, rfl, hqueue, hbus⟩
  have hquiet : ∀ e ∈ unsubscribing 0 1, ∀ w, ReturnsStarted w e := by
    simp [unsubscribing, ReturnsStarted]
  have hstart : ∀ e ∈ (subscribing 0 1).dropLast, ∀ w, ReturnsStarted w e := by
    simp [subscribing, ReturnsStarted]
  have hsplit : subscribing 0 1 = (subscribing 0 1).dropLast ++ [.api 0 .resume] := rfl
  refine along_append.mpr ⟨?_, fun t _ => guarded_of_forall hquiet⟩
  rw [hsplit]
  refine along_append.mpr ⟨guarded_of_forall hstart, ?_⟩
  intro t ht u _
  cases ht
  refine ⟨?_, trivial⟩
  intro i he
  cases he
  rfl

end FtyCommonMlm.MlmStreamClient
