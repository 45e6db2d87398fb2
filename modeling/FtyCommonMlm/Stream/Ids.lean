import Mathlib.Data.List.Pairwise
import FtyCommonMlm.Stream.Log

namespace FtyCommonMlm.MlmStreamClient
open Runs

/-- `subscribe` stores its callback under an id no registered subscription has,
in an entry of its own, and returns that id; `unsubscribe` erases the callback
of the subscription whose id it is given. No other callback is touched. -/
structure Registers (p : Client × List Mark) (e : Event) (q : Client × List Mark) : Prop where
  store : ∀ callback, p.1.api = .subscribing callback → e = .api .store →
    (∀ s ∈ (ledger p.2).registered, s.subId ≠ p.1.counter) ∧
    q.1.callbacks.size = p.1.callbacks.size + 1 ∧
    q.1.callbacks[p.1.counter]? = some callback ∧
    ∀ s ∈ (ledger p.2).registered, q.1.callbacks[s.subId]? = some s.callback
  erase : ∀ subId, p.1.api = .unsubscribing subId → e = .api .erase →
    ∃ s ∈ (ledger p.2).registered, s.subId = subId ∧ p.1.callbacks[subId]? = some s.callback ∧
      q.1.callbacks[subId]? = none ∧
      ∀ t ∈ (ledger p.2).registered, t ≠ s → q.1.callbacks[t.subId]? = some t.callback
  returned : ∀ subId, q.1.results = p.1.results ++ [.subscribed (.ok subId)] →
    ∃ s ∈ (ledger p.2).registered, s.call = (ledger p.2).calls ∧ s.subId = subId

/-- When `subscribe` stores its callback, no subscription is registered that was
made a multiple of 2^32 calls of `subscribe` before. -/
def Apart (p : Client × List Mark) (e : Event) : Prop :=
  e = .api .store →
    ∀ s ∈ (ledger p.2).registered, s.call % 2 ^ 32 ≠ (ledger p.2).calls % 2 ^ 32

/-- Within a `subscribe` that has stored its callback. -/
def Api.subscribes : Api → Bool
  | .stored | .spawned | .waiting | .woken => true
  | _ => false

/-- The callbacks are those of the registered subscriptions, each under an id of
its own. -/
structure Held (c : Client) (l : Ledger) : Prop where
  numbered : Numbered c l
  distinct : l.registered.Pairwise (fun s t => s.subId ≠ t.subId)
  callbacks : ∀ subId callback, c.callbacks[subId]? = some callback ↔
    ∃ s ∈ l.registered, s.subId = subId ∧ s.callback = callback
  current : c.api.subscribes = true → ∃ s ∈ l.registered, s.call = l.calls ∧ s.subId = c.counter
  found : ∀ subId, c.api = .unsubscribing subId → c.callbacks.contains subId = true

theorem start_held : Held {} (ledger []) := by
  refine ⟨start_numbered, .nil, ?_, ?_, ?_⟩
  · intro subId callback
    simp [ledger]
  · intro h
    contradiction
  · intro subId h
    contradiction

theorem ofNat_eq_iff {m n : Nat} : UInt32.ofNat m = UInt32.ofNat n ↔ m % 2 ^ 32 = n % 2 ^ 32 := by
  rw [← UInt32.toNat_inj, UInt32.toNat_ofNat', UInt32.toNat_ofNat']

theorem Held.registered_subId {c : Client} {l : Ledger} (h : Held c l) {s : Subscription}
    (hs : s ∈ l.registered) : s.subId = UInt32.ofNat s.call :=
  h.numbered.subId s (h.numbered.registered s hs)

/-- The next id is free just in case no registered subscription is a multiple of
2^32 calls old. -/
theorem Held.free_iff {c : Client} {l : Ledger} (h : Held c l) :
    (∀ s ∈ l.registered, s.subId ≠ c.counter) ↔
      ∀ s ∈ l.registered, s.call % 2 ^ 32 ≠ l.calls % 2 ^ 32 := by
  constructor
  · intro hfree s hs he
    apply hfree s hs
    rw [h.registered_subId hs, h.numbered.counter]
    exact ofNat_eq_iff.mpr he
  · intro hapart s hs he
    rw [h.registered_subId hs, h.numbered.counter] at he
    exact hapart s hs (ofNat_eq_iff.mp he)

theorem Held.not_contains {c : Client} {l : Ledger} (h : Held c l)
    (hfree : ∀ s ∈ l.registered, s.subId ≠ c.counter) : c.callbacks[c.counter]? = none := by
  by_contra hne
  obtain ⟨callback, hcallback⟩ := Option.ne_none_iff_exists'.mp hne
  obtain ⟨s, hs, hid, _⟩ := (h.callbacks _ _).mp hcallback
  exact hfree s hs hid

theorem store_of_marks {c : Client} {e : Event} {subId : SubId} {callback : Callback}
    (h : marks c e = [.stored subId callback]) : e = .api .store := by
  cases e with
  | api e =>
    cases e with
    | store => rfl
    | erase =>
      simp only [marks] at h
      split at h <;> simp at h
    | _ => simp [marks] at h
  | listener e =>
    cases e with
    | dispatch =>
      simp only [marks] at h
      split at h <;> simp at h
    | _ => simp [marks] at h
  | deliver m => simp [marks] at h

/-- What a step leaves registered, and the callbacks that go with it. -/
theorem Held.registers {c d : Client} {log ms : List Mark} (hc : Held c (ledger log))
    (hm : Marked c d ms)
    (hfree : ∀ callback, ms = [.stored c.counter callback] →
      ∀ s ∈ (ledger log).registered, s.subId ≠ c.counter) :
    (ledger (log ++ ms)).registered.Pairwise (fun s t => s.subId ≠ t.subId) ∧
    ∀ subId callback, d.callbacks[subId]? = some callback ↔
      ∃ s ∈ (ledger (log ++ ms)).registered, s.subId = subId ∧ s.callback = callback := by
  cases hm with
  | called callback hd hcounter hcallbacks hinvoked | took m hd hcounter hcallbacks hinvoked =>
    rw [ledger_snoc, hcallbacks]
    exact ⟨hc.distinct, hc.callbacks⟩
  | silent hd hcounter hcallbacks hinvoked =>
    rw [List.append_nil, hcallbacks]
    exact ⟨hc.distinct, hc.callbacks⟩
  | stored new hapi hd hcounter hcallbacks hinvoked =>
    have hfree := hfree new rfl
    rw [ledger_snoc, hcallbacks]
    refine ⟨?_, ?_⟩
    · refine List.pairwise_append.mpr ⟨hc.distinct, List.pairwise_singleton _ _, ?_⟩
      intro s hs t ht
      rw [List.mem_singleton.mp ht]
      exact hfree s hs
    · intro subId callback
      simp only [Ledger.add, List.mem_append, List.mem_singleton]
      by_cases hid : c.counter = subId
      · subst hid
        simp only [Std.TreeMap.getElem?_insert_self, Option.some.injEq]
        constructor
        · intro heq
          subst heq
          exact ⟨_, Or.inr rfl, rfl, rfl⟩
        · intro hgiven
          obtain ⟨s, hs | rfl, hsid, hcb⟩ := hgiven
          · exact absurd hsid (hfree s hs)
          · exact hcb
      · rw [Std.TreeMap.getElem?_insert, if_neg (by simpa using hid), hc.callbacks]
        constructor
        · intro hgiven
          obtain ⟨s, hs, hs'⟩ := hgiven
          exact ⟨s, Or.inl hs, hs'⟩
        · intro hgiven
          obtain ⟨s, hs | rfl, hs'⟩ := hgiven
          · exact ⟨s, hs, hs'⟩
          · exact absurd hs'.1 hid
  | erased old hapi hd hcounter hcallbacks hinvoked =>
    rw [ledger_snoc, hcallbacks]
    refine ⟨hc.distinct.filter _, ?_⟩
    intro subId callback
    simp only [Ledger.add, List.mem_filter, decide_eq_true_eq]
    by_cases hid : old = subId
    · subst hid
      simp only [Std.TreeMap.getElem?_erase_self, reduceCtorEq, false_iff]
      intro hgiven
      obtain ⟨s, ⟨_, hne⟩, hsid, _⟩ := hgiven
      exact hne hsid
    · rw [Std.TreeMap.getElem?_erase, if_neg (by simpa using hid), hc.callbacks]
      constructor
      · intro hgiven
        obtain ⟨s, hs, hsid, hcb⟩ := hgiven
        refine ⟨s, ⟨hs, ?_⟩, hsid, hcb⟩
        rw [hsid]
        exact fun he => hid he.symm
      · intro hgiven
        obtain ⟨s, ⟨hs, _⟩, hs'⟩ := hgiven
        exact ⟨s, hs, hs'⟩

theorem stopped_elsewhere (c : Client) (who : Stopper) (r : Except Error Unit) :
    (c.stopped who r).api.subscribes = false ∧
      ∀ subId, (c.stopped who r).api ≠ .unsubscribing subId := by
  cases who with
  | unsubscribe subId => exact ⟨rfl, by simp [Client.stopped, Client.finish]⟩
  | destructor =>
    cases r with
    | error e => exact ⟨rfl, by simp [Client.stopped]⟩
    | ok _ =>
      cases hj : c.joinable <;> simp [Client.stopped, Client.destroyMembers, hj, Api.subscribes]

/-- A `subscribe` that has stored its callback goes on, or has just stored it. -/
theorem ApiMove.subscribes {cfg : Config} {c d : Client} {e : ApiEvent} (h : ApiMove cfg c e d)
    (hd : d.api.subscribes = true) : d.counter = c.counter ∧
      ((∃ callback, marks c (.api e) = [.stored c.counter callback]) ∨
        c.api.subscribes = true ∧ marks c (.api e) = []) := by
  cases h with
  | store callback h => exact ⟨rfl, Or.inl ⟨callback, by simp [marks, h]⟩⟩
  | spawn h hj | wait h | spurious h => exact ⟨rfl, Or.inr ⟨by simp [h, Api.subscribes], rfl⟩⟩
  | notSent who rc e h hm =>
    simp [(stopped_elsewhere c who (.error e)).1] at hd
  | notJoinable who h hj =>
    simp [(stopped_elsewhere c who (.error .notJoinable)).1] at hd
  | join who h hj hl =>
    simp [(stopped_elsewhere { c with joinable := false, listener := .absent } who (.ok ())).1] at hd
  | destroy h he =>
    cases hj : c.joinable <;> simp [Client.destroyMembers, hj, Api.subscribes] at hd
  | _ => contradiction

theorem ApiMove.found {cfg : Config} {c d : Client} {e : ApiEvent} (h : ApiMove cfg c e d)
    {subId : SubId} (hd : d.api = .unsubscribing subId) : d.callbacks.contains subId = true := by
  cases h with
  | find i h hin =>
    cases hd
    exact hin
  | notSent who rc e h hm => exact absurd hd ((stopped_elsewhere _ _ _).2 subId)
  | notJoinable who h hj => exact absurd hd ((stopped_elsewhere _ _ _).2 subId)
  | join who h hj hl => exact absurd hd ((stopped_elsewhere _ _ _).2 subId)
  | destroy h he => cases hj : c.joinable <;> simp [Client.destroyMembers, hj] at hd
  | _ => contradiction

/-- The steps of the other parties leave the calls and the subscriptions as they
are. -/
theorem step_other {cfg : Config} {c d : Client} (log : List Mark) {e : Event}
    (hs : step cfg c e = some d) (he : ∀ a, e ≠ .api a) :
    (d.api = c.api ∨ c.api = .waiting ∧ d.api = .woken) ∧ d.counter = c.counter ∧
      d.callbacks = c.callbacks ∧ d.results = c.results ∧
      ledger (log ++ marks c e) = ledger log := by
  cases e with
  | api a => exact absurd rfl (he a)
  | listener e =>
    have hm := listenerStep_moves hs
    obtain ⟨hcallbacks, _, hresults⟩ := hm.keeps
    have hledger : ledger (log ++ marks c (.listener e)) = ledger log := by
      cases e with
      | dispatch =>
        simp only [marks]
        split
        · rw [ledger_snoc, Ledger.add]
        · rw [List.append_nil]
      | _ => simp [marks]
    exact ⟨hm.api, by cases hm <;> rfl, hcallbacks, hresults, hledger⟩
  | deliver m =>
    cases hs
    obtain ⟨queue, hq, _⟩ := deliver_eq c m
    rw [hq]
    exact ⟨Or.inl rfl, rfl, rfl, rfl, by simp [marks]⟩

theorem step_held {cfg : Config} {c d : Client} {log : List Mark} {e : Event}
    (hc : Held c (ledger log)) (hs : step cfg c e = some d) (hapart : Apart (c, log) e) :
    Held d (ledger (log ++ marks c e)) := by
  have hmarked := step_marked hs
  have hfree : ∀ callback, marks c e = [.stored c.counter callback] →
      ∀ s ∈ (ledger log).registered, s.subId ≠ c.counter :=
    fun callback hm => hc.free_iff.mpr (hapart (store_of_marks hm))
  obtain ⟨hdistinct, hcallbacks⟩ := hc.registers hmarked hfree
  refine ⟨hmarked.numbered hc.numbered, hdistinct, hcallbacks, ?_, ?_⟩
  · intro hd
    cases e with
    | api a =>
      obtain ⟨hcounter, ⟨callback, hm⟩ | ⟨hbefore, hm⟩⟩ := (apiStep_moves hs).subscribes hd
      · rw [hm, ledger_snoc, hcounter]
        exact ⟨_, List.mem_append_right _ List.mem_cons_self, rfl, rfl⟩
      · rw [hm, List.append_nil, hcounter]
        exact hc.current hbefore
    | listener _ | deliver _ =>
      obtain ⟨hapi, hcounter, _, _, hledger⟩ := step_other log hs (by simp)
      rw [hledger, hcounter]
      apply hc.current
      rcases hapi with hsame | ⟨hw, _⟩
      · rw [← hsame]
        exact hd
      · rw [hw]
        rfl
  · intro subId hd
    cases e with
    | api a => exact (apiStep_moves hs).found hd
    | listener _ | deliver _ =>
      obtain ⟨hapi, _, hkept, _, _⟩ := step_other log hs (by simp)
      rw [hkept]
      apply hc.found
      rcases hapi with hsame | ⟨_, hw⟩
      · rw [← hsame]
        exact hd
      · rw [hw] at hd
        contradiction

theorem step_store {cfg : Config} {c d : Client} (h : step cfg c (.api .store) = some d) :
    ∃ callback, c.api = .subscribing callback ∧
      d.callbacks = c.callbacks.insert c.counter callback := by
  have hm : ApiMove cfg c .store d := apiStep_moves h
  cases hm with
  | store callback hapi => exact ⟨callback, hapi, rfl⟩

theorem step_erase {cfg : Config} {c d : Client} (h : step cfg c (.api .erase) = some d) :
    ∃ subId, c.api = .unsubscribing subId ∧ d.callbacks = c.callbacks.erase subId := by
  have hm : ApiMove cfg c .erase d := apiStep_moves h
  cases hm with
  | erase subId hapi => exact ⟨subId, hapi, rfl⟩

/-- What `subscribe` returns is the id of the last subscription stored. -/
theorem ApiMove.subscribed {cfg : Config} {c d : Client} {e : ApiEvent} {subId : SubId}
    (h : ApiMove cfg c e d) (hr : d.results = c.results ++ [.subscribed (.ok subId)]) :
    c.api.subscribes = true ∧ subId = c.counter := by
  cases h with
  | attach h hj | resume h hx =>
    simp only [Client.finish, List.append_cancel_left_eq, List.cons.injEq, Result.subscribed.injEq,
      Except.ok.injEq, and_true] at hr
    exact ⟨by simp [h, Api.subscribes], hr.symm⟩
  | rethrow e h hx | unknown i h hin | keep i h he => simp [Client.finish] at hr
  | notSent who rc e h hm | notJoinable who h hj | join who h hj hl =>
    cases who <;> simp [Client.stopped, Client.finish, Client.destroyMembers] at hr
  | destroy h he => simp [Client.destroyMembers] at hr
  | _ => simp at hr

/-- From a state where the callbacks are those of the registered subscriptions,
a step treats them as it should just in case the id it stores under is free. -/
theorem registers_iff_apart {cfg : Config} {p q : Client × List Mark} {e : Event}
    (hp : Held p.1 (ledger p.2)) (hs : logged (step cfg) marks p e = some q) :
    Registers p e q ↔ Apart p e := by
  obtain ⟨d, hd, rfl⟩ := logged_eq.mp hs
  constructor
  · intro hr he
    subst he
    obtain ⟨callback, hapi, _⟩ := step_store hd
    exact hp.free_iff.mp (hr.store callback hapi rfl).1
  · intro hapart
    refine ⟨?_, ?_, ?_⟩
    · intro callback hapi he
      subst he
      have hfree := hp.free_iff.mpr (hapart rfl)
      obtain ⟨other, hother, hcallbacks⟩ := step_store hd
      rw [hapi] at hother
      cases hother
      simp only [hcallbacks]
      refine ⟨hfree, ?_, Std.TreeMap.getElem?_insert_self, ?_⟩
      · rw [Std.TreeMap.size_insert, Std.TreeMap.contains_eq_isSome_getElem?,
          hp.not_contains hfree]
        rfl
      · intro s hs
        rw [Std.TreeMap.getElem?_insert, if_neg (by simpa using (hfree s hs).symm)]
        exact (hp.callbacks _ _).mpr ⟨s, hs, rfl, rfl⟩
    · intro subId hapi he
      subst he
      obtain ⟨other, hother, hcallbacks⟩ := step_erase hd
      rw [hapi] at hother
      cases hother
      have hin := hp.found subId hapi
      rw [Std.TreeMap.contains_eq_isSome_getElem?] at hin
      obtain ⟨callback, hcallback⟩ := Option.isSome_iff_exists.mp hin
      obtain ⟨s, hs, hid, rfl⟩ := (hp.callbacks _ _).mp hcallback
      simp only [hcallbacks]
      refine ⟨s, hs, hid, hcallback, Std.TreeMap.getElem?_erase_self, ?_⟩
      intro t ht hne
      have hsymm : Std.Symm fun s t : Subscription => s.subId ≠ t.subId := ⟨fun _ _ => Ne.symm⟩
      have hother : t.subId ≠ subId := hid ▸ hp.distinct.forall ht hs hne
      rw [Std.TreeMap.getElem?_erase, if_neg (by simpa using hother.symm)]
      exact (hp.callbacks _ _).mpr ⟨t, ht, rfl, rfl⟩
    · intro subId hr
      obtain ⟨a, rfl, hm⟩ := move_of_result hd hr
      obtain ⟨hsub, rfl⟩ := hm.subscribed hr
      exact hp.current hsub

/-- Along every run, of any length, the subscriptions get ids and entries of
their own and keep their callbacks just in case no callback is stored while a
subscription made a multiple of 2^32 calls before is registered. -/
theorem ids_iff_apart (cfg : Config) (events : List Event) :
    Along (logged (step cfg) marks) Registers ({}, []) events ↔
      Guarded (logged (step cfg) marks) Apart ({}, []) events := by
  apply along_iff_guarded (I := fun p => Held p.1 (ledger p.2)) start_held
  · intro p e q hp hs
    exact registers_iff_apart hp hs
  · intro p e q hp hapart hs
    obtain ⟨d, hd, rfl⟩ := logged_eq.mp hs
    exact step_held hp hd hapart

/-- A short subscription: the id its `subscribe` returns is unsubscribed at once. -/
def short (subId : SubId) : List Event :=
  [.api (.subscribe 9), .api .store, .api .start, .api (.unsubscribe subId), .api .erase,
    .api .check]

/-- `n` short subscriptions, behind the one of id 1. -/
def shorts : Nat → List Event
  | 0 => []
  | n + 1 => shorts n ++ short (UInt32.ofNat (n + 2))

/-- Between two calls, with callback 1 registered under id 1 alone, and `n` more
calls of `subscribe` behind it. -/
structure Served (n : Nat) (p : Client × List Mark) : Prop where
  api : p.1.api = .idle
  runs : p.1.listener ≠ .aborted
  joinable : p.1.joinable = true
  counter : p.1.counter = UInt32.ofNat (n + 1)
  callback : p.1.callbacks[(1 : SubId)]? = some 1
  registered : (ledger p.2).registered = [⟨1, 1, 1⟩]

theorem short_served {n : Nat} {p : Client × List Mark} (hp : Served n p) (hn : n + 2 ≤ 2 ^ 32) :
    ∃ q, exec (logged (step localBroker) marks) p (short (UInt32.ofNat (n + 2))) = some q ∧
      Served (n + 1) q := by
  obtain ⟨c, log⟩ := p
  obtain ⟨hapi, hruns, hjoinable, hcounter, hcallback, hregistered⟩ := hp
  dsimp only at hapi hruns hjoinable hcounter hcallback hregistered
  have hnext : c.counter + 1 = UInt32.ofNat (n + 2) := by
    rw [hcounter]
    exact (UInt32.ofNat_add (n + 1) 1).symm
  have hone : UInt32.ofNat (n + 2) ≠ 1 := by
    intro he
    have hmod : (n + 2) % 2 ^ 32 = 1 % 2 ^ 32 := ofNat_eq_iff.mp (he.trans rfl)
    omega
  generalize hid : UInt32.ofNat (n + 2) = subId at hnext hone
  have hkeep : ((c.callbacks.insert subId 9).erase subId)[(1 : SubId)]? = some 1 := by
    rw [Std.TreeMap.getElem?_erase, if_neg (by simpa using hone), Std.TreeMap.getElem?_insert,
      if_neg (by simpa using hone), hcallback]
  have hsome : ((c.callbacks.insert subId 9).erase subId).isEmpty = false := by
    apply Std.TreeMap.isEmpty_eq_false_iff_exists_contains_eq_true.mpr
    exact ⟨1, by rw [Std.TreeMap.contains_eq_isSome_getElem?, hkeep]; rfl⟩
  have hrun : exec (logged (step localBroker) marks) (c, log) (short subId) = some ({ c with
      stopRequested := false
      counter := subId
      callbacks := (c.callbacks.insert subId 9).erase subId
      results := c.results ++ [.subscribed (.ok subId), .unsubscribed subId (.ok ())] },
      log ++ [.called] ++ [.stored subId 9] ++ [.erased subId]) := by
    simp [short, exec, logged, marks, step, apiStep, Client.finish, hapi, hruns, hjoinable, hnext,
      hsome]
  refine ⟨_, hrun, hapi, hruns, hjoinable, hid.symm, hkeep, ?_⟩
  · simp only [ledger_snoc, Ledger.add, hregistered]
    simp [hone.symm]

theorem shorts_served {p : Client × List Mark} (hp : Served 0 p) (n : Nat) (hn : n + 1 ≤ 2 ^ 32) :
    ∃ q, exec (logged (step localBroker) marks) p (shorts n) = some q ∧ Served n q := by
  induction n with
  | zero => exact ⟨p, rfl, hp⟩
  | succ n ih =>
    obtain ⟨q, hq, hserved⟩ := ih (by omega)
    obtain ⟨r, hr, hnext⟩ := short_served hserved hn
    exact ⟨r, exec_append.mpr ⟨q, hq, hr⟩, hnext⟩

def longLived : List Event :=
  [.api (.subscribe 1), .api .store, .api .start, .listener (.connect true 0),
    .listener (.setConsumer 0), .api .wait, .listener .notify, .api .resume]

theorem longLived_served :
    ∃ p, exec (logged (step localBroker) marks) ({}, []) longLived = some p ∧ Served 0 p :=
  ⟨_, rfl, rfl, by decide, rfl, rfl, rfl, rfl⟩

def newcomer : List Event := [.api (.subscribe 2), .api .store, .api .start]

/-- After one subscription and 2^32 - 1 short ones behind it, the next call
returns the id of the first, which is registered, and has put its own callback
in the first one's place. -/
theorem long_lived_callback_overwritten :
    ∃ c log, exec (logged (step localBroker) marks) ({}, [])
        (longLived ++ (shorts (2 ^ 32 - 1) ++ newcomer)) = some (c, log) ∧
      c.results.getLast? = some (.subscribed (.ok 1)) ∧
      ⟨1, 1, 1⟩ ∈ (ledger log).registered ∧ c.callbacks[(1 : SubId)]? = some 2 := by
  obtain ⟨p, hp, hlong⟩ := longLived_served
  obtain ⟨⟨c, log⟩, hq, hserved⟩ := shorts_served hlong (2 ^ 32 - 1) (by omega)
  have hcounter : c.counter + 1 = 1 := by
    rw [hserved.counter]
    rfl
  have hapi : c.api = .idle := hserved.api
  have hruns : c.listener ≠ .aborted := hserved.runs
  have hjoinable : c.joinable = true := hserved.joinable
  have hrun : exec (logged (step localBroker) marks) (c, log) newcomer = some ({ c with
      stopRequested := false
      counter := 1
      callbacks := c.callbacks.insert 1 2
      results := c.results ++ [.subscribed (.ok 1)] }, log ++ [.called] ++ [.stored 1 2]) := by
    simp [newcomer, exec, logged, marks, step, apiStep, Client.finish, hapi, hruns, hjoinable,
      hcounter]
  refine ⟨_, _, exec_append.mpr ⟨p, hp, exec_append.mpr ⟨_, hq, hrun⟩⟩, ?_, ?_, ?_⟩
  · simp
  · rw [ledger_snoc, ledger_snoc]
    simp [Ledger.add, hserved.registered]
  · simp

end FtyCommonMlm.MlmStreamClient
