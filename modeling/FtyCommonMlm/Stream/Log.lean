import FtyCommonMlm.Stream.Moves

namespace FtyCommonMlm.MlmStreamClient
open Runs

/-- What a run does with the subscriptions, in the order it happens: `subscribe`
is called, it stores its callback, `unsubscribe` erases one, and the listener
takes the mutex for a message. -/
inductive Mark
  | called
  | stored (subId : SubId) (callback : Callback)
  | erased (subId : SubId)
  | took (m : StreamMsg)
deriving DecidableEq

def marks (c : Client) : Event → List Mark
  | .api (.subscribe _) => [.called]
  | .api .store =>
    match c.api with
    | .subscribing callback => [.stored c.counter callback]
    | _ => []
  | .api .erase =>
    match c.api with
    | .unsubscribing subId => [.erased subId]
    | _ => []
  | .listener (.dispatch _) =>
    match c.listener with
    | .checked m => [.took m]
    | _ => []
  | _ => []

/-- What a step does to the counter, the callbacks and their invocations, by
the mark it leaves. -/
inductive Marked (c d : Client) : List Mark → Prop
  | called (callback : Callback) (hd : d.api = .subscribing callback)
    (hcounter : d.counter = c.counter + 1) (hcallbacks : d.callbacks = c.callbacks)
    (hinvoked : d.invoked = c.invoked) : Marked c d [.called]
  | stored (callback : Callback) (hc : c.api = .subscribing callback) (hd : d.api = .stored)
    (hcounter : d.counter = c.counter)
    (hcallbacks : d.callbacks = c.callbacks.insert c.counter callback)
    (hinvoked : d.invoked = c.invoked) : Marked c d [.stored c.counter callback]
  | erased (subId : SubId) (hc : c.api = .unsubscribing subId) (hd : d.api = .erased subId)
    (hcounter : d.counter = c.counter) (hcallbacks : d.callbacks = c.callbacks.erase subId)
    (hinvoked : d.invoked = c.invoked) : Marked c d [.erased subId]
  | took (m : StreamMsg) (hd : d.api = c.api) (hcounter : d.counter = c.counter)
    (hcallbacks : d.callbacks = c.callbacks)
    (hinvoked : d.invoked = c.invoked ++ c.callbacks.toList.map fun item =>
      ⟨item.1, item.2, m.frames.map Bytes.cStr, m.subject⟩) : Marked c d [.took m]
  | silent (hd : ∀ callback, d.api = .subscribing callback → c.api = .subscribing callback)
    (hcounter : d.counter = c.counter) (hcallbacks : d.callbacks = c.callbacks)
    (hinvoked : d.invoked = c.invoked) : Marked c d []

theorem stopped_marked (c : Client) (joinable : Bool) (listener : Listener) (who : Stopper)
    (r : Except Error Unit) :
    Marked c (({ c with joinable, listener } : Client).stopped who r) [] := by
  cases who with
  | unsubscribe subId => exact .silent (by simp [Client.stopped, Client.finish]) rfl rfl rfl
  | destructor =>
    cases r with
    | error e => exact .silent (by simp [Client.stopped]) rfl rfl rfl
    | ok _ =>
      refine .silent ?_ rfl rfl rfl
      intro callback hd
      simp only [Client.stopped, Client.destroyMembers] at hd
      split at hd <;> contradiction

theorem ApiMove.marked {cfg : Config} {c d : Client} {e : ApiEvent} (h : ApiMove cfg c e d) :
    Marked c d (marks c (.api e)) := by
  cases h with
  | subscribe callback h => exact .called callback rfl rfl rfl rfl
  | store callback h =>
    simp only [marks, h]
    exact .stored callback h rfl rfl rfl rfl
  | erase subId h =>
    simp only [marks, h]
    exact .erased subId h rfl rfl rfl rfl
  | spawn h hj | wait h | spurious h | find subId h hin | stop subId h he | sent who rc m h hm
  | destroyStop h he => exact .silent (by simp) rfl rfl rfl
  | attach h hj | rethrow e h hx | resume h hx | unknown subId h hin | keep subId h he =>
    exact .silent (by simp [Client.finish]) rfl rfl rfl
  | notSent who rc e h hm => exact stopped_marked c c.joinable c.listener who (.error e)
  | notJoinable who h hj =>
    exact stopped_marked c c.joinable c.listener who (.error .notJoinable)
  | join who h hj hl => exact stopped_marked c false .absent who (.ok ())
  | destroy h he =>
    refine .silent ?_ rfl rfl rfl
    intro callback hd
    simp only [Client.destroyMembers] at hd
    split at hd <;> contradiction

theorem ListenerMove.marked {cfg : Config} {c d : Client} {e : ListenerEvent}
    (h : ListenerMove cfg c e d) : Marked c d (marks c (.listener e)) := by
  have hapi : ∀ callback, d.api = .subscribing callback → c.api = .subscribing callback := by
    intro callback hd
    rcases h.api with hsame | ⟨_, hw⟩
    · rwa [hsame] at hd
    · rw [hw] at hd
      contradiction
  cases h with
  | dispatch ends m h hf =>
    simp only [marks, h]
    exact .took m rfl rfl rfl rfl
  | _ => exact .silent hapi rfl rfl rfl

theorem step_marked {cfg : Config} {c d : Client} {e : Event} (h : step cfg c e = some d) :
    Marked c d (marks c e) := by
  cases e with
  | api e => exact (apiStep_moves h).marked
  | listener e => exact (listenerStep_moves h).marked
  | deliver m =>
    cases h
    obtain ⟨queue, hq, _⟩ := deliver_eq c m
    rw [hq]
    exact .silent (fun _ => id) rfl rfl rfl

/-- One `subscribe` that stored its callback, with the number of the call. -/
structure Subscription where
  call : Nat
  subId : SubId
  callback : Callback
deriving DecidableEq

/-- The calls of `subscribe`, and the subscriptions they made, those of which
are registered that no `unsubscribe` erased since. -/
structure Ledger where
  calls : Nat := 0
  made : List Subscription := []
  registered : List Subscription := []

def Ledger.add (l : Ledger) : Mark → Ledger
  | .called => { l with calls := l.calls + 1 }
  | .stored subId callback =>
    { l with
      made := l.made ++ [⟨l.calls, subId, callback⟩]
      registered := l.registered ++ [⟨l.calls, subId, callback⟩] }
  | .erased subId => { l with registered := l.registered.filter (fun s => s.subId ≠ subId) }
  | .took _ => l

def ledger (log : List Mark) : Ledger := log.foldl Ledger.add {}

theorem ledger_snoc (log : List Mark) (m : Mark) : ledger (log ++ [m]) = (ledger log).add m := by
  simp [ledger]

/-- The ids are the numbers of the calls, as far as the counter can count. -/
structure Numbered (c : Client) (l : Ledger) : Prop where
  counter : c.counter = UInt32.ofNat l.calls
  subId : ∀ s ∈ l.made, s.subId = UInt32.ofNat s.call
  ordered : l.made.Pairwise (fun s t => s.call < t.call)
  bound : ∀ s ∈ l.made, s.call ≤ l.calls
  fresh : ∀ callback, c.api = .subscribing callback → ∀ s ∈ l.made, s.call < l.calls
  registered : ∀ s ∈ l.registered, s ∈ l.made

theorem start_numbered : Numbered {} (ledger []) := by
  refine ⟨rfl, ?_, .nil, ?_, ?_, ?_⟩
  · intro s hs
    contradiction
  · intro s hs
    contradiction
  · intro callback h
    contradiction
  · intro s hs
    contradiction

theorem Marked.numbered {c d : Client} {ms : List Mark} {log : List Mark} (h : Marked c d ms)
    (hn : Numbered c (ledger log)) : Numbered d (ledger (log ++ ms)) := by
  cases h with
  | called callback hd hcounter hcallbacks hinvoked =>
    rw [ledger_snoc]
    refine ⟨?_, hn.subId, hn.ordered, ?_, ?_, hn.registered⟩
    · rw [hcounter, hn.counter]
      exact (UInt32.ofNat_add _ 1).symm
    · intro s hs
      exact Nat.le_succ_of_le (hn.bound s hs)
    · intro _ _ s hs
      exact Nat.lt_succ_of_le (hn.bound s hs)
  | stored callback hc hd hcounter hcallbacks hinvoked =>
    rw [ledger_snoc]
    refine ⟨?_, ?_, ?_, ?_, ?_, ?_⟩
    · rw [hcounter]
      exact hn.counter
    · intro s hs
      rcases List.mem_append.mp hs with hs | hs
      · exact hn.subId s hs
      · rw [List.mem_singleton.mp hs]
        exact hn.counter
    · refine List.pairwise_append.mpr ⟨hn.ordered, List.pairwise_singleton _ _, ?_⟩
      intro s hs t ht
      rw [List.mem_singleton.mp ht]
      exact hn.fresh callback hc s hs
    · intro s hs
      rcases List.mem_append.mp hs with hs | hs
      · exact hn.bound s hs
      · rw [List.mem_singleton.mp hs]
        exact Nat.le_refl _
    · intro other hother
      rw [hd] at hother
      contradiction
    · intro s hs
      rcases List.mem_append.mp hs with hs | hs
      · exact List.mem_append_left _ (hn.registered s hs)
      · exact List.mem_append_right _ hs
  | erased subId hc hd hcounter hcallbacks hinvoked =>
    rw [ledger_snoc]
    refine ⟨?_, hn.subId, hn.ordered, hn.bound, ?_, ?_⟩
    · rw [hcounter]
      exact hn.counter
    · intro other hother
      rw [hd] at hother
      contradiction
    · intro s hs
      exact hn.registered s (List.mem_filter.mp hs).1
  | took m hd hcounter hcallbacks hinvoked =>
    rw [ledger_snoc]
    refine ⟨?_, hn.subId, hn.ordered, hn.bound, ?_, hn.registered⟩
    · rw [hcounter]
      exact hn.counter
    · intro callback hother
      rw [hd] at hother
      exact hn.fresh callback hother
  | silent hd hcounter hcallbacks hinvoked =>
    rw [List.append_nil]
    refine ⟨?_, hn.subId, hn.ordered, hn.bound, ?_, hn.registered⟩
    · rw [hcounter]
      exact hn.counter
    · intro callback hother
      exact hn.fresh callback (hd callback hother)

def Mark.storedId : Mark → Option SubId
  | .stored subId _ => some subId
  | _ => none

theorem made_subIds (log : List Mark) :
    (ledger log).made.map Subscription.subId = log.filterMap Mark.storedId := by
  have hadd : ∀ l : Ledger, (log.foldl Ledger.add l).made.map Subscription.subId =
      l.made.map Subscription.subId ++ log.filterMap Mark.storedId := by
    induction log with
    | nil => simp
    | cons m log ih =>
      intro l
      rw [List.foldl_cons, ih]
      cases m <;> simp [Ledger.add, Mark.storedId, List.filterMap_cons]
  exact hadd {}

/-- Fewer than 2^32 calls of `subscribe` get different ids. -/
theorem Numbered.nodup {c : Client} {log : List Mark} (h : Numbered c (ledger log))
    (hcalls : (ledger log).calls < 2 ^ 32) : (log.filterMap Mark.storedId).Nodup := by
  rw [← made_subIds, List.Nodup, List.pairwise_map]
  apply h.ordered.imp_of_mem
  intro s t hs ht hlt he
  have hbound := h.bound t ht
  rw [h.subId s hs, h.subId t ht] at he
  have hnat := congrArg UInt32.toNat he
  rw [UInt32.toNat_ofNat', UInt32.toNat_ofNat'] at hnat
  omega

end FtyCommonMlm.MlmStreamClient
