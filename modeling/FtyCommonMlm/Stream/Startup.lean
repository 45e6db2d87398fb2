import FtyCommonMlm.Stream.Moves

namespace FtyCommonMlm.MlmStreamClient
open Runs

/-- The listener has issued its start-up notification. -/
def Listener.notified : Listener → Bool
  | .polling | .received _ | .receivedNull | .checked _ | .left | .failed | .aborted => true
  | _ => false

def Listener.consumerSet : Listener → Bool
  | .consuming | .polling | .received _ | .receivedNull | .checked _ | .left | .aborted => true
  | _ => false

/-- The outcome of the start-up is known: `mlm_client_set_consumer` succeeded,
or `m_exPtr` holds the error. -/
def Listener.startupFinished : Listener → Bool
  | .caught | .failed => true
  | l => l.consumerSet

/-- `subscribe` waits for the notification to come, leaves its wait when the
start-up has finished, and returns normally when it succeeded. -/
structure Handshake (s t : Client) : Prop where
  waits : t.api = .waiting → t.listener.notified = false
  wakes : s.api = .waiting → t.api = .woken → t.listener.startupFinished = true
  returns : ∀ subId, s.api = .woken → t.results = s.results ++ [.subscribed (.ok subId)] →
    t.listener.consumerSet = true

/-- The wait does not begin behind the notification, and no spurious wake-up
comes ahead of the outcome. -/
def WellTimed (s : Client) (e : Event) : Prop :=
  (e = .api .wait → s.listener.notified = false) ∧
  (e = .api .spurious → s.listener.startupFinished = true)

structure Waits (c : Client) : Prop where
  inv : Inv c
  waiting : c.api = .waiting → c.listener.notified = false
  woken : c.api = .woken → c.listener.startupFinished = true

theorem start_waits : Waits {} := ⟨start_inv, by simp, by simp⟩

section Steps

variable {cfg : Config} {s t : Client}

theorem Handshake.of_other (hw : t.api ≠ .waiting) (hk : s.api = .waiting → t.api ≠ .woken)
    (hs : s.api ≠ .woken) : Handshake s t :=
  ⟨fun h => absurd h hw, fun h h' => absurd h' (hk h), fun _ h => absurd h hs⟩

theorem Handshake.of_same (ha : t.api = s.api) (hr : t.results = s.results)
    (hw : t.api = .waiting → t.listener.notified = false) : Handshake s t := by
  refine ⟨hw, ?_, ?_⟩
  · intro hs ht
    rw [ha, hs] at ht
    contradiction
  · intro subId _ h
    rw [hr] at h
    simp at h

/-- Without an error the start-up that has finished succeeded. -/
theorem Inv.consumerSet (hc : Inv s) (hx : s.exPtr = none)
    (hf : s.listener.startupFinished = true) : s.listener.consumerSet = true := by
  have hl := hc.listener
  cases h : s.listener <;> simp_all [Listener.startupFinished, Listener.Agrees]

theorem ApiMove.handshake_iff {e : ApiEvent} (h : ApiMove cfg s e t) (hs : Waits s) :
    Handshake s t ↔ WellTimed s (.api e) := by
  cases h with
  | wait h =>
    constructor
    · intro hh
      exact ⟨fun _ => hh.waits rfl, by simp⟩
    · intro hg
      exact ⟨fun _ => hg.1 rfl, fun _ => by simp, fun _ hw => by simp [h] at hw⟩
  | spurious h =>
    constructor
    · intro hh
      exact ⟨by simp, fun _ => hh.wakes h rfl⟩
    · intro hg
      exact ⟨by simp, fun _ _ => hg.2 rfl, fun _ hw => by simp [h] at hw⟩
  | rethrow e h hx =>
    refine iff_of_true ⟨by simp [Client.finish], by simp [h], ?_⟩ (by simp [WellTimed])
    intro subId _ hr
    simp [Client.finish] at hr
  | resume h hx =>
    refine iff_of_true ⟨by simp [Client.finish], by simp [h], ?_⟩ (by simp [WellTimed])
    intro subId _ _
    exact hs.inv.consumerSet hx (hs.woken h)
  | notSent who rc e h hm | notJoinable who h hj | join who h hj hl =>
    refine iff_of_true (.of_other ?_ ?_ (by simp [h])) (by simp [WellTimed])
    · cases who <;> simp [Client.stopped, Client.finish, Client.destroyMembers]
    · simp [h]
  | destroy h he =>
    refine iff_of_true (.of_other ?_ (by simp [h]) (by simp [h])) (by simp [WellTimed])
    cases hj : s.joinable <;> simp [Client.destroyMembers, hj]
  | subscribe callback h | store callback h | spawn h hj | attach h hj | find subId h hin
  | unknown subId h hin | erase subId h | stop subId h he | keep subId h he
  | sent who rc m h hm | destroyStop h he =>
    refine iff_of_true (.of_other ?_ (by simp [h]) (by simp [h])) (by simp [WellTimed])
    simp [Client.finish]

theorem notify_handshake {l : Listener} (hl : l.startupFinished = true) :
    Handshake s { s.notify with listener := l } := by
  refine ⟨?_, fun _ _ => hl, ?_⟩
  · intro h
    simp only [Client.notify] at h
    split at h
    · contradiction
    · contradiction
  · intro subId _ h
    simp [Client.notify] at h

theorem ListenerMove.handshake {e : ListenerEvent} (h : ListenerMove cfg s e t) (hs : Waits s) :
    Handshake s t := by
  cases h with
  | notify h | notifyError h => exact notify_handshake rfl
  | fail client rc e h | connect client rc h | failConsumer rc e h | setConsumer rc h
  | transfer e h => exact .of_same rfl rfl (fun _ => rfl)
  | receive m queue h hq | receiveNull h | leave m h hl | pass m h hl | leaveNull h hl
  | abort h hl | dispatch ends m h hf | interrupt h =>
    refine .of_same rfl rfl ?_
    intro hw
    have hn := hs.waiting hw
    simp [h, Listener.notified] at hn

theorem ListenerMove.startupFinished {e : ListenerEvent} (h : ListenerMove cfg s e t)
    (hf : s.listener.startupFinished = true) : t.listener.startupFinished = true := by
  cases h with
  | fail client rc e h | connect client rc h | failConsumer rc e h | setConsumer rc h
  | transfer e h =>
    rw [h] at hf
    contradiction
  | notify h | notifyError h | receive m queue h hq | receiveNull h | leave m h hl | pass m h hl
  | leaveNull h hl | abort h hl | dispatch ends m h hf | interrupt h => rfl

theorem handshake_iff {e : Event} (hs : Waits s) (h : step cfg s e = some t) :
    Handshake s t ↔ WellTimed s e := by
  cases e with
  | api e => exact (apiStep_moves h).handshake_iff hs
  | listener e =>
    exact iff_of_true ((listenerStep_moves h).handshake hs) (by simp [WellTimed])
  | deliver m =>
    cases h
    obtain ⟨queue, hq, _⟩ := deliver_eq s m
    rw [hq]
    exact iff_of_true (.of_same rfl rfl hs.waiting) (by simp [WellTimed])

theorem ApiMove.woken {e : ApiEvent} (h : ApiMove cfg s e t) (hw : t.api = .woken) :
    s.api = .waiting := by
  cases h with
  | spurious h => exact h
  | notSent who rc e h hm | notJoinable who h hj | join who h hj hl =>
    cases who <;> simp [Client.stopped, Client.finish, Client.destroyMembers] at hw
  | destroy h he =>
    cases hj : s.joinable <;> simp [Client.destroyMembers, hj] at hw
  | _ => simp [Client.finish] at hw

/-- A call that has left its wait keeps seeing a finished start-up. -/
theorem woken_of_step {e : Event} (hs : Waits s) (h : step cfg s e = some t)
    (hh : Handshake s t) (hw : t.api = .woken) : t.listener.startupFinished = true := by
  cases e with
  | api e => exact hh.wakes ((apiStep_moves h).woken hw) hw
  | listener e =>
    have hm := listenerStep_moves h
    rcases hm.api with hsame | ⟨hsw, _⟩
    · exact hm.startupFinished (hs.woken (hsame ▸ hw))
    · exact hh.wakes hsw hw
  | deliver m =>
    cases h
    obtain ⟨queue, hq, _⟩ := deliver_eq s m
    rw [hq] at hw ⊢
    exact hs.woken hw

end Steps

/-- In every run, the start-up handshake works just in case every wait begins
ahead of the listener's notification and every spurious wake-up comes behind
the outcome of the start-up. -/
theorem handshake_iff_wellTimed (cfg : Config) (events : List Event) :
    Along (step cfg) (fun s _ t => Handshake s t) {} events ↔
      Guarded (step cfg) WellTimed {} events := by
  apply along_iff_guarded (I := Waits) start_waits
  · intro s e t hs h
    exact handshake_iff hs h
  · intro s e t hs hg h
    have hh := (handshake_iff hs h).mpr hg
    exact ⟨step_inv hs.inv h, hh.waits, woken_of_step hs h hh⟩

/-- The listener is through with its start-up before `subscribe` waits. -/
def lateWaitRun : List Event :=
  [.api (.subscribe 1), .api .store, .api .start, .listener (.connect true 0),
    .listener (.setConsumer 0), .listener .notify, .api .wait]

/-- The wait ends although the listener has done nothing. -/
def spuriousRun : List Event :=
  [.api (.subscribe 1), .api .store, .api .start, .api .wait, .api .spurious, .api .resume]

theorem start_up_missed :
    (∃ t, exec (step localBroker) {} lateWaitRun = some t ∧ t.api = .waiting ∧
      t.listener.notified = true) ∧
    ∃ t, exec (step localBroker) {} spuriousRun = some t ∧
      t.results = [.subscribed (.ok 1)] ∧ t.listener.consumerSet = false :=
  ⟨⟨_, rfl, rfl, rfl⟩, ⟨_, rfl, rfl, rfl⟩⟩

end FtyCommonMlm.MlmStreamClient
