import FtyCommonMlm.Lib.Runs
import FtyCommonMlm.Stream.Client

namespace FtyCommonMlm.MlmStreamClient
open Runs
open Bytes (ofString)

/-- What the calling thread can do, branch by branch. -/
inductive ApiMove (cfg : Config) (c : Client) : ApiEvent → Client → Prop
  | subscribe (callback : Callback) (h : c.api = .idle) :
    ApiMove cfg c (.subscribe callback)
      { c with stopRequested := false, counter := c.counter + 1, api := .subscribing callback }
  | store (callback : Callback) (h : c.api = .subscribing callback) :
    ApiMove cfg c .store
      { c with callbacks := c.callbacks.insert c.counter callback, api := .stored }
  | spawn (h : c.api = .stored) (hj : c.joinable = false) :
    ApiMove cfg c .start
      { c with exPtr := none, joinable := true, listener := .started, queue := [], api := .spawned }
  | attach (h : c.api = .stored) (hj : c.joinable = true) :
    ApiMove cfg c .start (c.finish (.subscribed (.ok c.counter)))
  | wait (h : c.api = .spawned) : ApiMove cfg c .wait { c with api := .waiting }
  | spurious (h : c.api = .waiting) : ApiMove cfg c .spurious { c with api := .woken }
  | rethrow (e : Error) (h : c.api = .woken) (hx : c.exPtr = some e) :
    ApiMove cfg c .resume (c.finish (.subscribed (.error e)))
  | resume (h : c.api = .woken) (hx : c.exPtr = none) :
    ApiMove cfg c .resume (c.finish (.subscribed (.ok c.counter)))
  | find (subId : SubId) (h : c.api = .idle) (hin : c.callbacks.contains subId = true) :
    ApiMove cfg c (.unsubscribe subId) { c with api := .unsubscribing subId }
  | unknown (subId : SubId) (h : c.api = .idle) (hin : c.callbacks.contains subId = false) :
    ApiMove cfg c (.unsubscribe subId) (c.finish (.unsubscribed subId (.ok ())))
  | erase (subId : SubId) (h : c.api = .unsubscribing subId) :
    ApiMove cfg c .erase { c with callbacks := c.callbacks.erase subId, api := .erased subId }
  | stop (subId : SubId) (h : c.api = .erased subId) (he : c.callbacks.isEmpty = true) :
    ApiMove cfg c .check { c with stopRequested := true, api := .stopping (.unsubscribe subId) }
  | keep (subId : SubId) (h : c.api = .erased subId) (he : c.callbacks.isEmpty = false) :
    ApiMove cfg c .check (c.finish (.unsubscribed subId (.ok ())))
  | sent (who : Stopper) (rc : Calls) (m : StreamMsg) (h : c.api = .stopping who)
    (hm : publishOnBus cfg (ofString "SYNC") [] rc = .ok m) :
    ApiMove cfg c (.sync rc) { c with api := .joining who }
  | notSent (who : Stopper) (rc : Calls) (e : Error) (h : c.api = .stopping who)
    (hm : publishOnBus cfg (ofString "SYNC") [] rc = .error e) :
    ApiMove cfg c (.sync rc) (c.stopped who (.error e))
  | notJoinable (who : Stopper) (h : c.api = .joining who) (hj : c.joinable = false) :
    ApiMove cfg c .join (c.stopped who (.error .notJoinable))
  | join (who : Stopper) (h : c.api = .joining who) (hj : c.joinable = true)
    (hl : c.listener.ended = true) :
    ApiMove cfg c .join
      (({ c with joinable := false, listener := .absent } : Client).stopped who (.ok ()))
  | destroyStop (h : c.api = .idle) (he : c.callbacks.isEmpty = false) :
    ApiMove cfg c .destroy { c with stopRequested := true, api := .stopping .destructor }
  | destroy (h : c.api = .idle) (he : c.callbacks.isEmpty = true) :
    ApiMove cfg c .destroy c.destroyMembers

theorem apiStep_moves {cfg : Config} {c d : Client} {e : ApiEvent}
    (h : apiStep cfg c e = some d) : ApiMove cfg c e d := by
  unfold apiStep at h
  split at h
  · contradiction
  cases e with
  | subscribe callback =>
    dsimp only at h
    split at h
    · rename_i hapi
      cases h
      exact .subscribe callback hapi
    · contradiction
  | store =>
    dsimp only at h
    split at h
    · rename_i callback hapi
      cases h
      exact .store callback hapi
    · contradiction
  | start =>
    dsimp only at h
    split at h
    · rename_i hapi
      split at h
      · rename_i hj
        cases h
        exact .spawn hapi (Bool.not_eq_true _ ▸ hj)
      · rename_i hj
        cases h
        exact .attach hapi (not_not.mp hj)
    · contradiction
  | wait =>
    dsimp only at h
    split at h
    · rename_i hapi
      cases h
      exact .wait hapi
    · contradiction
  | spurious =>
    dsimp only at h
    split at h
    · rename_i hapi
      cases h
      exact .spurious hapi
    · contradiction
  | resume =>
    dsimp only at h
    split at h
    · rename_i hapi
      split at h
      · rename_i e hx
        cases h
        exact .rethrow e hapi hx
      · rename_i hx
        cases h
        exact .resume hapi hx
    · contradiction
  | unsubscribe subId =>
    dsimp only at h
    split at h
    · rename_i hapi
      split at h
      · rename_i hin
        cases h
        exact .find subId hapi hin
      · rename_i hin
        cases h
        exact .unknown subId hapi (Bool.not_eq_true _ ▸ hin)
    · contradiction
  | erase =>
    dsimp only at h
    split at h
    · rename_i subId hapi
      cases h
      exact .erase subId hapi
    · contradiction
  | check =>
    dsimp only at h
    split at h
    · rename_i subId hapi
      split at h
      · rename_i he
        cases h
        exact .stop subId hapi he
      · rename_i he
        cases h
        exact .keep subId hapi (Bool.not_eq_true _ ▸ he)
    · contradiction
  | sync rc =>
    dsimp only at h
    split at h
    · rename_i who hapi
      split at h
      · rename_i m hm
        cases h
        exact .sent who rc m hapi hm
      · rename_i e hm
        cases h
        exact .notSent who rc e hapi hm
    · contradiction
  | join =>
    dsimp only at h
    split at h
    · rename_i who hapi
      split at h
      · rename_i hj
        cases h
        exact .notJoinable who hapi (Bool.not_eq_true _ ▸ hj)
      · rename_i hj
        split at h
        · rename_i hl
          cases h
          exact .join who hapi (not_not.mp hj) hl
        · contradiction
    · contradiction
  | destroy =>
    dsimp only at h
    split at h
    · rename_i hapi
      split at h
      · rename_i he
        cases h
        exact .destroyStop hapi (Bool.not_eq_true _ ▸ he)
      · rename_i he
        cases h
        exact .destroy hapi (not_not.mp he)
    · contradiction

/-- Only a process that runs does something. -/
theorem runs_of_apiStep {cfg : Config} {c d : Client} {e : ApiEvent}
    (h : apiStep cfg c e = some d) : c.listener ≠ .aborted := by
  intro haborted
  unfold apiStep at h
  rw [if_pos haborted] at h
  contradiction

/-- All that a call does to the listener: it starts one where there is none, or
joins one that has ended. -/
theorem ApiMove.listener {cfg : Config} {c d : Client} {e : ApiEvent} (h : ApiMove cfg c e d) :
    (e ≠ .start ∨ c.joinable = true) ∧ d.listener = c.listener ∧ d.exPtr = c.exPtr ∧
      d.queue = c.queue ∨
    e = .start ∧ c.joinable = false ∧ d.listener = .started ∧ d.queue = [] ∨
    e = .join ∧ c.listener.ended = true ∧ d.listener = .absent ∧ d.exPtr = c.exPtr ∧
      d.queue = c.queue := by
  cases h with
  | spawn h hj => exact Or.inr (Or.inl ⟨rfl, hj, rfl, rfl⟩)
  | attach h hj => exact Or.inl ⟨Or.inr hj, rfl, rfl, rfl⟩
  | join who h hj hl =>
    refine Or.inr (Or.inr ⟨rfl, hl, ?_⟩)
    cases who <;> exact ⟨rfl, rfl, rfl⟩
  | notSent who rc e h hm | notJoinable who h hj =>
    refine Or.inl ⟨Or.inl (by simp), ?_⟩
    cases who <;> exact ⟨rfl, rfl, rfl⟩
  | _ => exact Or.inl ⟨Or.inl (by simp), rfl, rfl, rfl⟩

/-- What the listener thread can do, branch by branch. -/
inductive ListenerMove (cfg : Config) (c : Client) : ListenerEvent → Client → Prop
  | fail (client : Bool) (rc : Int) (e : Error) (h : c.listener = .started) :
    ListenerMove cfg c (.connect client rc) { c with listener := .failing e }
  | connect (client : Bool) (rc : Int) (h : c.listener = .started) :
    ListenerMove cfg c (.connect client rc) { c with listener := .connected }
  | failConsumer (rc : Int) (e : Error) (h : c.listener = .connected) :
    ListenerMove cfg c (.setConsumer rc) { c with listener := .failing e }
  | setConsumer (rc : Int) (h : c.listener = .connected) :
    ListenerMove cfg c (.setConsumer rc) { c with listener := .consuming }
  | notify (h : c.listener = .consuming) :
    ListenerMove cfg c .notify { c.notify with listener := .polling }
  | notifyError (h : c.listener = .caught) :
    ListenerMove cfg c .notify { c.notify with listener := .failed }
  | transfer (e : Error) (h : c.listener = .failing e) :
    ListenerMove cfg c .transfer { c with exPtr := some e, listener := .caught }
  | receive (m : StreamMsg) (queue : List StreamMsg) (h : c.listener = .polling)
    (hq : c.queue = m :: queue) :
    ListenerMove cfg c .receive { c with listener := .received m, queue := queue }
  | receiveNull (h : c.listener = .polling) :
    ListenerMove cfg c .receiveNull { c with listener := .receivedNull }
  | leave (m : StreamMsg) (h : c.listener = .received m) (hs : c.stopRequested = true) :
    ListenerMove cfg c .checkStop { c with listener := .left, queue := [] }
  | pass (m : StreamMsg) (h : c.listener = .received m) (hs : c.stopRequested = false) :
    ListenerMove cfg c .checkStop { c with listener := .checked m }
  | leaveNull (h : c.listener = .receivedNull) (hs : c.stopRequested = true) :
    ListenerMove cfg c .checkStop { c with listener := .left, queue := [] }
  | abort (h : c.listener = .receivedNull) (hs : c.stopRequested = false) :
    ListenerMove cfg c .checkStop { c with listener := .aborted, queue := [] }
  | dispatch (ends : SubId → Except Error Unit) (m : StreamMsg) (h : c.listener = .checked m)
    (hf : c.mutexFree = true) :
    ListenerMove cfg c (.dispatch ends)
      { c.handed (m.frames.map Bytes.cStr) m.subject with listener := .polling }
  | interrupt (h : c.listener = .polling) :
    ListenerMove cfg c .interrupt { c with listener := .left, queue := [] }

theorem listenerStep_moves {cfg : Config} {c d : Client} {e : ListenerEvent}
    (h : listenerStep cfg c e = some d) : ListenerMove cfg c e d := by
  cases e with
  | connect client rc =>
    simp only [listenerStep] at h
    split at h
    · rename_i hl
      split at h
      · cases h
        exact .fail client rc _ hl
      · split at h
        · cases h
          exact .fail client rc _ hl
        · cases h
          exact .connect client rc hl
    · contradiction
  | setConsumer rc =>
    simp only [listenerStep] at h
    split at h
    · rename_i hl
      split at h
      · cases h
        exact .failConsumer rc _ hl
      · cases h
        exact .setConsumer rc hl
    · contradiction
  | notify =>
    simp only [listenerStep] at h
    split at h
    · rename_i hl
      cases h
      exact .notify hl
    · rename_i hl
      cases h
      exact .notifyError hl
    · contradiction
  | transfer =>
    simp only [listenerStep] at h
    split at h
    · rename_i e hl
      cases h
      exact .transfer e hl
    · contradiction
  | receive =>
    simp only [listenerStep] at h
    split at h
    · rename_i m queue hl hq
      cases h
      exact .receive m queue hl hq
    · contradiction
  | receiveNull =>
    simp only [listenerStep] at h
    split at h
    · rename_i hl
      cases h
      exact .receiveNull hl
    · contradiction
  | checkStop =>
    simp only [listenerStep] at h
    split at h
    · rename_i m hl
      split at h
      · rename_i hs
        cases h
        exact .leave m hl hs
      · rename_i hs
        cases h
        exact .pass m hl (Bool.not_eq_true _ ▸ hs)
    · rename_i hl
      split at h
      · rename_i hs
        cases h
        exact .leaveNull hl hs
      · rename_i hs
        cases h
        exact .abort hl (Bool.not_eq_true _ ▸ hs)
    · contradiction
  | dispatch ends =>
    simp only [listenerStep] at h
    split at h
    · rename_i m hl
      split at h
      · rename_i hf
        rw [collect_eq] at h
        simp only [process_eq] at h
        cases h
        exact .dispatch ends m hl hf
      · contradiction
    · contradiction
  | interrupt =>
    simp only [listenerStep] at h
    split at h
    · rename_i hl
      cases h
      exact .interrupt hl
    · contradiction

/-- The error tells whether there is a client. -/
theorem connect_cases {cfg : Config} {c d : Client} {client : Bool} {rc : Int}
    (h : listenerStep cfg c (.connect client rc) = some d) : c.listener = .started ∧
      ((client = false ∧ d = { c with listener := .failing .nullClient }) ∨
        (client = true ∧ d = { c with listener := .failing (.connecting cfg.endpoint) }) ∨
        (client = true ∧ d = { c with listener := .connected })) := by
  simp only [listenerStep] at h
  split at h
  · rename_i hl
    refine ⟨hl, ?_⟩
    cases client with
    | false =>
      cases h
      exact Or.inl ⟨rfl, rfl⟩
    | true =>
      split at h
      · contradiction
      · split at h
        · cases h
          exact Or.inr (Or.inl ⟨rfl, rfl⟩)
        · cases h
          exact Or.inr (Or.inr ⟨rfl, rfl⟩)
  · contradiction

theorem setConsumer_cases {cfg : Config} {c d : Client} {rc : Int}
    (h : listenerStep cfg c (.setConsumer rc) = some d) : c.listener = .connected ∧
      ((rc ≠ 0 ∧ d = { c with listener := .failing (.becomingConsumer cfg.stream) }) ∨
        (rc = 0 ∧ d = { c with listener := .consuming })) := by
  simp only [listenerStep] at h
  split at h
  · rename_i hl
    refine ⟨hl, ?_⟩
    split at h
    · rename_i hrc
      cases h
      exact Or.inl ⟨hrc, rfl⟩
    · rename_i hrc
      cases h
      exact Or.inr ⟨not_not.mp hrc, rfl⟩
  · contradiction

theorem ListenerMove.keeps {cfg : Config} {c d : Client} {e : ListenerEvent}
    (h : ListenerMove cfg c e d) : d.callbacks = c.callbacks ∧ d.joinable = c.joinable ∧
      d.results = c.results := by
  cases h <;> exact ⟨rfl, rfl, rfl⟩

/-- The listener thread moves the calling one only by waking it. -/
theorem ListenerMove.api {cfg : Config} {c d : Client} {e : ListenerEvent}
    (h : ListenerMove cfg c e d) : d.api = c.api ∨ c.api = .waiting ∧ d.api = .woken := by
  cases h with
  | notify h | notifyError h =>
    simp only [Client.notify]
    split
    · rename_i hw
      exact Or.inr ⟨hw, rfl⟩
    · exact Or.inl rfl
  | _ => exact Or.inl rfl

theorem deliver_eq (c : Client) (m : StreamMsg) :
    ∃ queue, c.deliver m = { c with queue := queue } ∧ ∀ m' ∈ queue, m' ∈ c.queue ∨ m' = m := by
  unfold Client.deliver
  split
  · refine ⟨_, rfl, ?_⟩
    intro m' hm
    simpa using hm
  · exact ⟨_, rfl, fun _ hm => Or.inl hm⟩

/-- Only the calling thread ends a call. -/
theorem move_of_result {cfg : Config} {c d : Client} {e : Event} {r : Result}
    (h : step cfg c e = some d) (hr : d.results = c.results ++ [r]) :
    ∃ a, e = .api a ∧ ApiMove cfg c a d := by
  cases e with
  | api a => exact ⟨a, rfl, apiStep_moves h⟩
  | listener e =>
    rw [(listenerStep_moves h).keeps.2.2] at hr
    simp at hr
  | deliver m =>
    cases h
    obtain ⟨queue, hq, _⟩ := deliver_eq c m
    rw [hq] at hr
    simp at hr

/-- What `m_listenerThread` and `m_callbacks` are like wherever the calling
thread is. -/
def Api.Agrees (joinable empty : Bool) : Api → Prop
  | .idle | .subscribing _ => empty = false → joinable = true
  | .spawned | .waiting | .woken | .unsubscribing _ | .erased _ => joinable = true
  | .stopping (.unsubscribe _) | .joining (.unsubscribe _) => joinable = true ∧ empty = true
  | .stopping .destructor | .joining .destructor => joinable = true
  | .stored | .destroyed | .terminated => True

/-- There is a thread to join from its start until the join, and `m_exPtr` holds
its start-up error. -/
def Listener.Agrees (joinable : Bool) (exPtr : Option Error) : Listener → Prop
  | .absent => joinable = false
  | .caught | .failed => joinable = true ∧ exPtr.isSome = true
  | _ => joinable = true ∧ exPtr = none

structure Inv (c : Client) : Prop where
  api : c.api.Agrees c.joinable c.callbacks.isEmpty
  listener : c.listener.Agrees c.joinable c.exPtr

theorem Inv.absent {c : Client} (h : Inv c) (hj : c.joinable = false) : c.listener = .absent := by
  have hl := h.listener
  cases hc : c.listener with
  | absent => rfl
  | _ =>
    rw [hc] at hl
    exact absurd hl.1 (by simp [hj])

theorem start_inv : Inv {} := by
  refine ⟨?_, rfl⟩
  intro he
  simp at he

theorem ApiMove.inv {cfg : Config} {c d : Client} {e : ApiEvent} (h : ApiMove cfg c e d)
    (hc : Inv c) : Inv d := by
  have hapi := hc.api
  cases h with
  | subscribe callback h =>
    rw [h] at hapi
    exact ⟨hapi, hc.listener⟩
  | store callback h => exact ⟨trivial, hc.listener⟩
  | spawn h hj => exact ⟨rfl, rfl, rfl⟩
  | attach h hj => exact ⟨fun _ => hj, hc.listener⟩
  | wait h | spurious h =>
    rw [h] at hapi
    exact ⟨hapi, hc.listener⟩
  | rethrow e h hx | resume h hx =>
    rw [h] at hapi
    exact ⟨fun _ => hapi, hc.listener⟩
  | find subId h hin =>
    rw [h] at hapi
    refine ⟨hapi ?_, hc.listener⟩
    exact Std.TreeMap.isEmpty_eq_false_iff_exists_contains_eq_true.mpr ⟨subId, hin⟩
  | unknown subId h hin =>
    rw [h] at hapi
    exact ⟨hapi, hc.listener⟩
  | erase subId h =>
    rw [h] at hapi
    exact ⟨hapi, hc.listener⟩
  | stop subId h he =>
    rw [h] at hapi
    exact ⟨⟨hapi, he⟩, hc.listener⟩
  | keep subId h he =>
    rw [h] at hapi
    exact ⟨fun _ => hapi, hc.listener⟩
  | sent who rc m h hm =>
    rw [h] at hapi
    cases who <;> exact ⟨hapi, hc.listener⟩
  | notSent who rc e h hm =>
    rw [h] at hapi
    cases who with
    | unsubscribe subId => exact ⟨fun _ => hapi.1, hc.listener⟩
    | destructor => exact ⟨trivial, hc.listener⟩
  | notJoinable who h hj =>
    rw [h] at hapi
    cases who with
    | unsubscribe subId => exact absurd hapi.1 (by simp [hj])
    | destructor => exact ⟨trivial, hc.listener⟩
  | join who h hj hl =>
    rw [h] at hapi
    cases who with
    | unsubscribe subId =>
      refine ⟨?_, rfl⟩
      intro (he : c.callbacks.isEmpty = false)
      rw [hapi.2] at he
      contradiction
    | destructor => exact ⟨trivial, rfl⟩
  | destroyStop h he =>
    rw [h] at hapi
    exact ⟨hapi he, hc.listener⟩
  | destroy h he =>
    refine ⟨?_, hc.listener⟩
    cases hj : c.joinable <;> simp [Client.destroyMembers, hj, Api.Agrees]

theorem ListenerMove.inv {cfg : Config} {c d : Client} {e : ListenerEvent}
    (h : ListenerMove cfg c e d) (hc : Inv c) : Inv d := by
  have hl := hc.listener
  refine ⟨?_, ?_⟩
  · obtain ⟨hcallbacks, hjoinable, _⟩ := h.keeps
    have hapi := hc.api
    rw [hcallbacks, hjoinable]
    rcases h.api with hsame | ⟨hw, hk⟩
    · rw [hsame]
      exact hapi
    · rw [hw] at hapi
      rw [hk]
      exact hapi
  · cases h with
    | fail client rc e h | connect client rc h | failConsumer rc e h | setConsumer rc h
    | receive m queue h hq | receiveNull h | leave m h hs | pass m h hs | leaveNull h hs
    | abort h hs | interrupt h | dispatch ends m h hf | notify h | notifyError h =>
      rw [h] at hl
      exact hl
    | transfer e h =>
      rw [h] at hl
      exact ⟨hl.1, rfl⟩

theorem deliver_inv {c : Client} (hc : Inv c) (m : StreamMsg) : Inv (c.deliver m) := by
  obtain ⟨queue, hq, _⟩ := deliver_eq c m
  rw [hq]
  exact ⟨hc.api, hc.listener⟩

theorem step_inv {cfg : Config} {c d : Client} {e : Event} (hc : Inv c)
    (h : step cfg c e = some d) : Inv d := by
  cases e with
  | api e => exact (apiStep_moves h).inv hc
  | listener e => exact (listenerStep_moves h).inv hc
  | deliver m =>
    cases h
    exact deliver_inv hc m

end FtyCommonMlm.MlmStreamClient
