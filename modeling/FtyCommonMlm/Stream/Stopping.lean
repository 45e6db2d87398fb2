import FtyCommonMlm.Stream.Startup

namespace FtyCommonMlm.MlmStreamClient
open Runs
open Bytes (ofString)

/-- The process goes on, between two calls an empty client has no thread to
join, and a subscription is gone after its `unsubscribe`, together with the
listener if it was the last one, unless it is still served. -/
structure Settled (s t : Client) : Prop where
  alive : t.api ≠ .terminated
  joined : t.api = .idle → t.callbacks.isEmpty = true → t.joinable = false
  removed : ∀ subId r, t.results = s.results ++ [.unsubscribed subId r] →
    (t.callbacks.contains subId = true ∧ t.listener.consumes = true ∧ t.stopRequested = false) ∨
    (t.callbacks.contains subId = false ∧ (t.callbacks.isEmpty = true → t.joinable = false))

/-- The publication of a SYNC message does not fail. -/
def SyncSent (e : Event) : Prop := ∀ rc, e = .api (.sync rc) → rc.Succeed

/-- What holds as long as every SYNC message was sent. -/
def Api.Clean (callbacks : Std.TreeMap SubId Callback) (joinable : Bool) : Api → Prop
  | .idle | .subscribing _ => callbacks.isEmpty = true → joinable = false
  | .stored | .spawned | .waiting | .woken => callbacks.isEmpty = false
  | .erased subId => callbacks.contains subId = false
  | .terminated => False
  | _ => True

structure Clean (c : Client) : Prop where
  inv : Inv c
  api : c.api.Clean c.callbacks c.joinable

theorem start_clean : Clean {} := ⟨start_inv, fun _ => rfl⟩

section Steps

variable {cfg : Config} {s t : Client}

theorem destroyMembers_clean (hj : s.joinable = false) :
    s.destroyMembers.api.Clean s.callbacks s.joinable := by
  unfold Client.destroyMembers
  rw [hj]
  trivial

theorem ApiMove.clean {e : ApiEvent} (h : ApiMove cfg s e t) (hs : Clean s)
    (hg : SyncSent (.api e)) : t.api.Clean t.callbacks t.joinable := by
  have hapi := hs.api
  have hinv := hs.inv.api
  cases h with
  | subscribe callback h | unknown subId h hin | wait h | spurious h =>
    rw [h] at hapi
    exact hapi
  | store callback h => exact Std.TreeMap.isEmpty_insert
  | spawn h hj =>
    rw [h] at hapi
    exact hapi
  | attach h hj | rethrow e h hx | resume h hx =>
    rw [h] at hapi
    intro (he : s.callbacks.isEmpty = true)
    rw [hapi] at he
    contradiction
  | erase subId h =>
    change (s.callbacks.erase subId).contains subId = false
    simp
  | keep subId h he =>
    intro (he' : s.callbacks.isEmpty = true)
    rw [he] at he'
    contradiction
  | find subId h hin | stop subId h he | sent who rc m h hm | destroyStop h he => trivial
  | notSent who rc e h hm => exact absurd (hg rc rfl) (publishOnBus_error hm)
  | notJoinable who h hj =>
    rw [h] at hinv
    have hjoin : s.joinable = true := by
      cases who with
      | unsubscribe subId => exact hinv.1
      | destructor => exact hinv
    rw [hj] at hjoin
    contradiction
  | join who h hj hl =>
    cases who with
    | unsubscribe subId => exact fun _ => rfl
    | destructor => exact destroyMembers_clean rfl
  | destroy h he =>
    rw [h] at hapi
    exact destroyMembers_clean (hapi he)

theorem ListenerMove.clean {e : ListenerEvent} (h : ListenerMove cfg s e t)
    (hs : s.api.Clean s.callbacks s.joinable) : t.api.Clean t.callbacks t.joinable := by
  obtain ⟨hcallbacks, hjoinable, _⟩ := h.keeps
  rw [hcallbacks, hjoinable]
  rcases h.api with hsame | ⟨hw, hk⟩
  · rw [hsame]
    exact hs
  · rw [hw] at hs
    rw [hk]
    exact hs

theorem clean_of_step {e : Event} (hs : Clean s) (hg : SyncSent e)
    (h : step cfg s e = some t) : Clean t := by
  refine ⟨step_inv hs.inv h, ?_⟩
  cases e with
  | api e => exact (apiStep_moves h).clean hs hg
  | listener e => exact (listenerStep_moves h).clean hs.api
  | deliver m =>
    cases h
    obtain ⟨queue, hq, _⟩ := deliver_eq s m
    rw [hq]
    exact hs.api

theorem ApiMove.removed {e : ApiEvent} (h : ApiMove cfg s e t) (hs : Clean s)
    {subId : SubId} {r : Except Error Unit} (hr : t.results = s.results ++ [.unsubscribed subId r]) :
    t.callbacks.contains subId = false ∧ t.api = .idle := by
  have hapi := hs.api
  have hinv := hs.inv.api
  cases h with
  | unknown id h hin =>
    simp only [Client.finish, List.append_cancel_left_eq, List.cons.injEq, Result.unsubscribed.injEq,
      and_true] at hr
    rw [← hr.1]
    exact ⟨hin, rfl⟩
  | keep id h he =>
    simp only [Client.finish, List.append_cancel_left_eq, List.cons.injEq, Result.unsubscribed.injEq,
      and_true] at hr
    rw [h] at hapi
    rw [← hr.1]
    exact ⟨hapi, rfl⟩
  | notSent who rc e h hm | notJoinable who h hj | join who h hj hl =>
    cases who with
    | unsubscribe id =>
      rw [h] at hinv
      exact ⟨Std.TreeMap.contains_of_isEmpty hinv.2, rfl⟩
    | destructor => simp [Client.stopped, Client.destroyMembers] at hr
  | _ => simp [Client.finish, Client.destroyMembers] at hr

theorem settled_of_step {e : Event} (hs : Clean s) (ht : Clean t) (h : step cfg s e = some t) :
    Settled s t := by
  have hapi := ht.api
  have hjoined : t.api = .idle → t.callbacks.isEmpty = true → t.joinable = false := by
    intro hidle
    rw [hidle] at hapi
    exact hapi
  refine ⟨?_, hjoined, ?_⟩
  · intro hterm
    rw [hterm] at hapi
    exact hapi
  · intro subId r hr
    obtain ⟨a, _, hm⟩ := move_of_result h hr
    obtain ⟨hgone, hidle⟩ := hm.removed hs hr
    exact Or.inr ⟨hgone, hjoined hidle⟩

/-- A SYNC message that is not sent leaves an empty client with a thread to
join, or terminates the process. -/
theorem sync_sent_of_settled {e : Event} (hs : Clean s) (h : step cfg s e = some t)
    (ht : Settled s t) : SyncSent e := by
  intro rc he
  subst he
  have hinv := hs.inv.api
  have hm : ApiMove cfg s (.sync rc) t := apiStep_moves h
  cases hm with
  | sent who rc m hw hm => exact (publishOnBus_ok hm).1
  | notSent who rc e hw hm =>
    rw [hw] at hinv
    cases who with
    | unsubscribe subId =>
      have hj : s.joinable = false := ht.joined rfl hinv.2
      rw [hinv.1] at hj
      contradiction
    | destructor => exact absurd rfl ht.alive

end Steps

/-- In every run, whatever else fails, subscriptions and the listener are taken
down together just in case every SYNC message is sent. -/
theorem settled_iff_sync_sent (cfg : Config) (events : List Event) :
    Along (step cfg) (fun s _ t => Settled s t) {} events ↔
      Guarded (step cfg) (fun _ e => SyncSent e) {} events := by
  apply along_iff_guarded (I := Clean) start_clean
  · intro s e t hs h
    constructor
    · exact sync_sent_of_settled hs h
    · intro hg
      exact settled_of_step hs (clean_of_step hs hg h) h
  · intro s e t hs hg h
    exact clean_of_step hs hg h

/-- The only subscription is removed, and the SYNC message cannot be sent. -/
def unsentSyncRun : List Event :=
  [.api (.subscribe 1), .api .store, .api .start, .api .wait, .listener (.connect true 0),
    .listener (.setConsumer 0), .listener .notify, .api .resume,
    .api (.unsubscribe 1), .api .erase, .api .check, .api (.sync { connect := -1 })]

theorem listener_left_joinable :
    (∃ t, exec (step localBroker) {} unsentSyncRun = some t ∧ t.api = .idle ∧
      t.callbacks.isEmpty = true ∧ t.joinable = true) ∧
    ∃ t, exec (step localBroker) {} (unsentSyncRun ++ [.api .destroy]) = some t ∧
      t.api = .terminated :=
  ⟨⟨_, rfl, rfl, rfl, rfl⟩, ⟨_, rfl, rfl⟩⟩

end FtyCommonMlm.MlmStreamClient
