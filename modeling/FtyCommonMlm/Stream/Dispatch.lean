import FtyCommonMlm.Stream.Log

namespace FtyCommonMlm.MlmStreamClient
open Runs

/-- The call of one subscription's callback for a message. -/
def invocation (subId : SubId) (callback : Callback) (m : StreamMsg) : Invocation :=
  ⟨subId, callback, m.frames.map Bytes.cStr, m.subject⟩

/-- What is stored under one id, and what it heard so far. -/
structure Ear where
  callback : Option Callback := none
  heard : List Invocation := []

def Ear.hear (subId : SubId) (e : Ear) : Mark → Ear
  | .called => e
  | .stored i callback => if i = subId then { e with callback := some callback } else e
  | .erased i => if i = subId then { e with callback := none } else e
  | .took m =>
    { e with heard := e.heard ++ (e.callback.map fun callback => invocation subId callback m).toList }

def ear (subId : SubId) (log : List Mark) : Ear := log.foldl (Ear.hear subId) {}

theorem ear_snoc (subId : SubId) (log : List Mark) (m : Mark) :
    ear subId (log ++ [m]) = (ear subId log).hear subId m := by
  simp [ear]

/-- The message of a dispatch. -/
def Mark.message : Mark → Option StreamMsg
  | .took m => some m
  | _ => none

/-- Each id has called what is stored under it, on what was dispatched. -/
def Heard (c : Client) (log : List Mark) : Prop :=
  ∀ subId, c.callbacks[subId]? = (ear subId log).callback ∧
    c.invoked.filter (fun i => i.subId = subId) = (ear subId log).heard

theorem start_heard : Heard {} [] := by
  intro subId
  exact ⟨by simp [ear], rfl⟩

/-- Among pairs with different keys, a key selects its own pair. -/
theorem filter_key {l : List (SubId × Callback)} {subId : SubId} {o : Option Callback}
    (hkeys : (l.map Prod.fst).Nodup) (hmem : ∀ callback, (subId, callback) ∈ l ↔ o = some callback) :
    l.filter (fun item => item.1 = subId) = (o.map fun callback => (subId, callback)).toList := by
  cases o with
  | none =>
    apply List.filter_eq_nil_iff.mpr
    intro item hitem he
    have hin : (subId, item.2) ∈ l := by
      rw [← of_decide_eq_true he]
      exact hitem
    exact absurd ((hmem _).mp hin) (by simp)
  | some callback =>
    obtain ⟨before, after, rfl⟩ := List.mem_iff_append.mp ((hmem callback).mpr rfl)
    simp only [List.map_append, List.map_cons, List.nodup_append, List.nodup_cons] at hkeys
    obtain ⟨_, ⟨hafter, _⟩, hbefore⟩ := hkeys
    have hnone : ∀ item ∈ before ++ after, ¬ decide (item.1 = subId) = true := by
      intro item hitem he
      have hid : item.1 = subId := of_decide_eq_true he
      rcases List.mem_append.mp hitem with hitem | hitem
      · exact hbefore _ (List.mem_map_of_mem hitem) _ List.mem_cons_self hid
      · exact hafter (hid ▸ List.mem_map_of_mem hitem)
    have hleft := List.filter_eq_nil_iff.mpr fun item hi =>
      hnone item (List.mem_append_left after hi)
    have hright := List.filter_eq_nil_iff.mpr fun item hi =>
      hnone item (List.mem_append_right before hi)
    rw [List.filter_append, List.filter_cons, hleft, hright]
    simp

/-- `std::map` is walked in the order of its keys. -/
theorem toList_increasing (callbacks : Std.TreeMap SubId Callback) :
    callbacks.toList.Pairwise (fun a b => a.1 < b.1) :=
  Std.TreeMap.ordered_keys_toList.imp fun {a b} h => by
    simpa [compare, compareOfLessAndEq_eq_lt] using h

/-- The loop over the callbacks calls the one stored under an id, and no other
under that id. -/
theorem process_filter (callbacks : Std.TreeMap SubId Callback) (subId : SubId) (m : StreamMsg) :
    (callbacks.toList.map fun item => invocation item.1 item.2 m).filter
        (fun i => i.subId = subId) =
      (callbacks[subId]?.map fun callback => invocation subId callback m).toList := by
  have hkeys : (callbacks.toList.map Prod.fst).Nodup := by
    apply List.pairwise_map.mpr
    exact (toList_increasing callbacks).imp fun {a b} h he => absurd (he ▸ h) (UInt32.lt_irrefl _)
  have hkey := filter_key hkeys fun callback =>
    Std.TreeMap.mem_toList_iff_getElem?_eq_some (k := subId) (v := callback)
  have hcomp : (fun i : Invocation => decide (i.subId = subId)) ∘
      (fun item : SubId × Callback => invocation item.1 item.2 m) =
      fun item => decide (item.1 = subId) := rfl
  rw [List.filter_map, hcomp, hkey]
  cases callbacks[subId]? <;> rfl

theorem Marked.heard {c d : Client} {ms log : List Mark} (h : Marked c d ms)
    (hh : Heard c log) : Heard d (log ++ ms) := by
  intro subId
  obtain ⟨hstored, hheard⟩ := hh subId
  cases h with
  | called callback hd hcounter hcallbacks hinvoked =>
    rw [ear_snoc, hcallbacks, hinvoked]
    exact ⟨hstored, hheard⟩
  | stored callback hc hd hcounter hcallbacks hinvoked =>
    rw [ear_snoc, hcallbacks, hinvoked]
    by_cases hi : c.counter = subId
    · subst hi
      exact ⟨by simp [Ear.hear], by simpa [Ear.hear] using hheard⟩
    · refine ⟨?_, by simpa [Ear.hear, hi] using hheard⟩
      simpa [Ear.hear, hi, Std.TreeMap.getElem?_insert] using hstored
  | erased i hc hd hcounter hcallbacks hinvoked =>
    rw [ear_snoc, hcallbacks, hinvoked]
    by_cases hi : i = subId
    · subst hi
      exact ⟨by simp [Ear.hear], by simpa [Ear.hear] using hheard⟩
    · refine ⟨?_, by simpa [Ear.hear, hi] using hheard⟩
      simpa [Ear.hear, hi, Std.TreeMap.getElem?_erase] using hstored
  | took m hd hcounter hcallbacks hinvoked =>
    rw [ear_snoc, hcallbacks, hinvoked, List.filter_append, hheard]
    refine ⟨hstored, ?_⟩
    have hprocess := process_filter c.callbacks subId m
    rw [hstored] at hprocess
    exact congrArg _ hprocess
  | silent hd hcounter hcallbacks hinvoked =>
    rw [List.append_nil, hcallbacks, hinvoked]
    exact ⟨hstored, hheard⟩

/-- Without a subscription under the id there is nothing to hear. -/
theorem ear_quiet {subId : SubId} {log : List Mark} {e : Ear} (he : e.callback = none)
    (hlog : subId ∉ log.filterMap Mark.storedId) : log.foldl (Ear.hear subId) e = e := by
  induction log with
  | nil => rfl
  | cons m log ih =>
    have hm : e.hear subId m = e := by
      cases m with
      | called => rfl
      | stored i callback =>
        have hi : i ≠ subId := by
          intro heq
          subst heq
          exact hlog (by simp [Mark.storedId])
        simp [Ear.hear, hi]
      | erased i =>
        simp only [Ear.hear]
        split
        · rw [← he]
        · rfl
      | took m =>
        obtain ⟨callback, heard⟩ := e
        cases he
        simp [Ear.hear]
    rw [List.foldl_cons, hm]
    apply ih
    intro hin
    rw [List.filterMap_cons] at hlog
    split at hlog
    · exact hlog hin
    · exact hlog (List.mem_cons_of_mem _ hin)

/-- A subscription hears the messages dispatched while it is registered. -/
theorem ear_within {subId : SubId} {log : List Mark} {e : Ear} {callback : Callback}
    (he : e.callback = some callback) (hstored : subId ∉ log.filterMap Mark.storedId)
    (herased : .erased subId ∉ log) :
    log.foldl (Ear.hear subId) e = { e with
      heard := e.heard ++ (log.filterMap Mark.message).map (invocation subId callback) } := by
  induction log generalizing e with
  | nil => simp
  | cons m log ih =>
    have htail : subId ∉ log.filterMap Mark.storedId := by
      intro hin
      rw [List.filterMap_cons] at hstored
      split at hstored
      · exact hstored hin
      · exact hstored (List.mem_cons_of_mem _ hin)
    have herased' : .erased subId ∉ log := fun hin => herased (List.mem_cons_of_mem m hin)
    rw [List.foldl_cons]
    cases m with
    | called =>
      rw [Ear.hear, ih he htail herased']
      rfl
    | stored i other =>
      have hi : i ≠ subId := by
        intro heq
        subst heq
        exact hstored (by simp [Mark.storedId])
      rw [Ear.hear, if_neg hi, ih he htail herased']
      rfl
    | erased i =>
      have hi : i ≠ subId := by
        intro heq
        subst heq
        exact herased List.mem_cons_self
      rw [Ear.hear, if_neg hi, ih he htail herased']
      rfl
    | took m =>
      rw [Ear.hear, ih (by exact he) htail herased']
      simp [he, Mark.message]

/-- A call that unsubscribes an id has erased its callback from `erased` on, and
nothing is stored before the next call. -/
structure Unsubscribed (c : Client) : Prop where
  erased : ∀ subId, c.api = .erased subId ∨ c.api = .stopping (.unsubscribe subId) ∨
    c.api = .joining (.unsubscribe subId) → c.callbacks[subId]? = none
  returned : c.api = .idle → ∀ subId r, c.results.getLast? = some (.unsubscribed subId r) →
    c.callbacks[subId]? = none

theorem Unsubscribed.finish {c : Client} {subId : SubId} {r : Except Error Unit}
    (h : c.callbacks[subId]? = none) : Unsubscribed (c.finish (.unsubscribed subId r)) := by
  refine ⟨?_, ?_⟩
  · intro i hor
    rcases hor with hi | hi | hi <;> contradiction
  · intro _ i r' hi
    simp only [Client.finish, List.getLast?_concat, Option.some.injEq, Result.unsubscribed.injEq]
      at hi
    rw [← hi.1]
    exact h

theorem Unsubscribed.finishSubscribe (c : Client) (r : Except Error SubId) :
    Unsubscribed (c.finish (.subscribed r)) := by
  refine ⟨?_, ?_⟩
  · intro i hor
    rcases hor with hi | hi | hi <;> contradiction
  · intro _ i r' hi
    simp [Client.finish] at hi

/-- Neither within an unsubscription past its erasure nor between two calls. -/
def Api.elsewhere : Api → Bool
  | .idle | .erased _ | .stopping (.unsubscribe _) | .joining (.unsubscribe _) => false
  | _ => true

theorem Unsubscribed.elsewhere {c : Client} (h : c.api.elsewhere = true) : Unsubscribed c := by
  refine ⟨?_, ?_⟩
  · intro i hor
    rcases hor with hi | hi | hi <;> simp [hi, Api.elsewhere] at h
  · intro hi
    simp [hi, Api.elsewhere] at h

theorem Unsubscribed.destroyMembers (c : Client) : Unsubscribed c.destroyMembers := by
  apply Unsubscribed.elsewhere
  cases hj : c.joinable <;> simp [Client.destroyMembers, hj, Api.elsewhere]

theorem Unsubscribed.stopped {c : Client} {who : Stopper} (r : Except Error Unit)
    (h : ∀ subId, who = .unsubscribe subId → c.callbacks[subId]? = none) :
    Unsubscribed (c.stopped who r) := by
  cases who with
  | unsubscribe subId => exact .finish (h subId rfl)
  | destructor =>
    cases r with
    | error e => exact .elsewhere rfl
    | ok _ => exact .destroyMembers c

theorem ApiMove.unsubscribed {cfg : Config} {c d : Client} {e : ApiEvent}
    (h : ApiMove cfg c e d) (hc : Unsubscribed c) : Unsubscribed d := by
  cases h with
  | subscribe callback h | store callback h | spawn h hj | wait h | spurious h
  | find subId h hin | destroyStop h he =>
    exact .elsewhere rfl
  | attach h hj | rethrow e h hx | resume h hx => exact .finishSubscribe _ _
  | unknown subId h hin =>
    apply Unsubscribed.finish
    rw [Std.TreeMap.contains_eq_isSome_getElem?] at hin
    exact Option.not_isSome_iff_eq_none.mp (by rw [hin]; exact Bool.false_ne_true)
  | erase subId h =>
    refine ⟨?_, by simp⟩
    intro i hor
    rcases hor with hi | hi | hi
    · cases hi
      simp
    · contradiction
    · contradiction
  | stop subId h he =>
    refine ⟨?_, by simp⟩
    intro i hor
    rcases hor with hi | hi | hi
    · contradiction
    · cases hi
      exact hc.erased subId (Or.inl h)
    · contradiction
  | keep subId h he => exact .finish (hc.erased subId (Or.inl h))
  | sent who rc m h hm =>
    refine ⟨?_, by simp⟩
    intro i hor
    rcases hor with hi | hi | hi
    · contradiction
    · contradiction
    · cases hi
      exact hc.erased i (Or.inr (Or.inl h))
  | notSent who rc e h hm =>
    exact .stopped _ fun i hi => hc.erased i (Or.inr (Or.inl (hi ▸ h)))
  | notJoinable who h hj =>
    exact .stopped _ fun i hi => hc.erased i (Or.inr (Or.inr (hi ▸ h)))
  | join who h hj hl =>
    exact .stopped _ fun i hi => hc.erased i (Or.inr (Or.inr (hi ▸ h)))
  | destroy h he => exact .destroyMembers c

theorem step_unsubscribed {cfg : Config} {c d : Client} {e : Event} (h : step cfg c e = some d)
    (hc : Unsubscribed c) : Unsubscribed d := by
  cases e with
  | api e => exact (apiStep_moves h).unsubscribed hc
  | listener e =>
    have hm := listenerStep_moves h
    obtain ⟨hcallbacks, _, hresults⟩ := hm.keeps
    rcases hm.api with hsame | ⟨_, hw⟩
    · refine ⟨?_, ?_⟩
      · rw [hsame, hcallbacks]
        exact hc.erased
      · rw [hsame, hcallbacks, hresults]
        exact hc.returned
    · exact .elsewhere (by rw [hw]; rfl)
  | deliver m =>
    cases h
    obtain ⟨queue, hq, _⟩ := deliver_eq c m
    rw [hq]
    exact ⟨hc.erased, hc.returned⟩

/-- One step calls callbacks only to hand one message to all of them, in the
order of their ids. -/
def InOrder (c : Client) (e : Event) (d : Client) : Prop :=
  ∃ new, d.invoked = c.invoked ++ new ∧ new.Pairwise (fun i j => i.subId < j.subId) ∧
    (new ≠ [] → ∃ m, marks c e = [.took m] ∧
      new = c.callbacks.toList.map fun item => invocation item.1 item.2 m)

theorem step_inOrder {cfg : Config} {c d : Client} {e : Event} (h : step cfg c e = some d) :
    InOrder c e d := by
  have hm := step_marked h
  generalize hms : marks c e = ms at hm
  cases hm with
  | took m hd hcounter hcallbacks hinvoked =>
    refine ⟨_, hinvoked, ?_, fun _ => ⟨m, hms, rfl⟩⟩
    exact List.pairwise_map.mpr (toList_increasing c.callbacks)
  | called callback hd hcounter hcallbacks hinvoked
  | stored callback hc hd hcounter hcallbacks hinvoked
  | erased subId hc hd hcounter hcallbacks hinvoked
  | silent hd hcounter hcallbacks hinvoked =>
    exact ⟨[], by rw [hinvoked, List.append_nil], .nil, fun hne => absurd rfl hne⟩

/-- What holds of a client and the log of its run. -/
structure Logged (c : Client) (log : List Mark) : Prop where
  heard : Heard c log
  numbered : Numbered c (ledger log)
  unsubscribed : Unsubscribed c

theorem start_logged : Logged {} [] :=
  ⟨start_heard, start_numbered, ⟨by simp, by simp⟩⟩

theorem run_logged {cfg : Config} {p q : Client × List Mark} {events : List Event}
    (hp : Logged p.1 p.2) (h : exec (logged (step cfg) marks) p events = some q) :
    Logged q.1 q.2 := by
  apply inv_of_exec (I := fun p => Logged p.1 p.2) hp ?_ h
  intro p e q hp hs
  obtain ⟨d, hd, rfl⟩ := logged_eq.mp hs
  have hm := step_marked hd
  exact ⟨hm.heard hp.heard, hm.numbered hp.numbered, step_unsubscribed hd hp.unsubscribed⟩

/-- A subscription's callback is called on exactly the messages the listener
takes the mutex for between the store and the erasure, in their order; each
message goes round in the order of the ids; and there is no call any more after
`unsubscribe` returned. -/
theorem callback_hears_its_span (cfg : Config) (events : List Event) (c : Client)
    (log : List Mark) (h : exec (logged (step cfg) marks) ({}, []) events = some (c, log))
    (hcalls : (ledger log).calls < 2 ^ 32) :
    (∀ subId callback before within after,
      log = before ++ .stored subId callback :: (within ++ after) → .erased subId ∉ within →
      (after = [] ∨ ∃ rest, after = .erased subId :: rest) →
      c.invoked.filter (fun i => i.subId = subId) =
        (within.filterMap Mark.message).map (invocation subId callback)) ∧
    (∀ i ∈ c.invoked, i.subId ∈ log.filterMap Mark.storedId) ∧
    Along (step cfg) InOrder {} events ∧
    ∀ first second c₀ log₀ subId r, events = first ++ second →
      exec (logged (step cfg) marks) ({}, []) first = some (c₀, log₀) →
      subId ∈ log₀.filterMap Mark.storedId → c₀.api = .idle →
      c₀.results.getLast? = some (.unsubscribed subId r) →
      c.invoked.filter (fun i => i.subId = subId) =
        c₀.invoked.filter (fun i => i.subId = subId) := by
  have hlog : Logged c log := run_logged start_logged h
  have hnodup := hlog.numbered.nodup hcalls
  refine ⟨?_, ?_, ?_, ?_⟩
  · intro subId callback before within after hsplit herased hafter
    rw [hsplit, List.filterMap_append, List.filterMap_cons, List.filterMap_append] at hnodup
    simp only [Mark.storedId, List.nodup_append, List.nodup_cons, List.mem_append,
      not_or] at hnodup
    obtain ⟨_, ⟨⟨hwithin, hrest⟩, _⟩, hbefore⟩ := hnodup
    have hbefore' : subId ∉ before.filterMap Mark.storedId := fun hin =>
      hbefore _ hin _ List.mem_cons_self rfl
    have hstore : Ear.hear subId {} (.stored subId callback) = { callback := some callback } := by
      simp [Ear.hear]
    rw [(hlog.heard subId).2, hsplit, ear, List.foldl_append, ear_quiet rfl hbefore',
      List.foldl_cons, hstore, List.foldl_append, ear_within rfl hwithin herased]
    rcases hafter with rfl | ⟨rest, rfl⟩
    · simp
    · rw [List.filterMap_cons] at hrest
      simp only [List.foldl_cons, Ear.hear, if_true]
      rw [ear_quiet rfl hrest]
      simp
  · intro i hi
    by_contra hnone
    have hheard := (hlog.heard i.subId).2
    rw [ear, ear_quiet (e := {}) rfl hnone] at hheard
    have hin : i ∈ c.invoked.filter (fun j => j.subId = i.subId) := by simp [hi]
    rw [hheard] at hin
    contradiction
  · exact along_of_guarded (I := fun _ => True) trivial (guarded_of_forall fun _ _ _ => trivial)
      fun _ _ _ _ _ hs => ⟨trivial, step_inOrder hs⟩
  · intro first second c₀ log₀ subId r hsplit hfirst hstored hidle hreturned
    have hlog₀ : Logged c₀ log₀ := run_logged start_logged hfirst
    rw [hsplit] at h
    obtain ⟨p, hp, hsecond⟩ := exec_append.mp h
    rw [hfirst, Option.some.injEq] at hp
    subst hp
    obtain ⟨more, hmore⟩ := log_prefix hsecond
    dsimp only at hmore
    have hgone : (ear subId log₀).callback = none := by
      rw [← (hlog₀.heard subId).1]
      exact hlog₀.unsubscribed.returned hidle subId r hreturned
    have hmore' : subId ∉ more.filterMap Mark.storedId := by
      intro hin
      rw [hmore, List.filterMap_append] at hnodup
      exact (List.nodup_append.mp hnodup).2.2 _ hstored _ hin rfl
    rw [(hlog.heard subId).2, (hlog₀.heard subId).2, hmore, ear, List.foldl_append]
    exact congrArg Ear.heard (ear_quiet hgone hmore')

def told (text : String) : StreamMsg := ⟨Bytes.ofString "MESSAGE", [Bytes.ofString text]⟩

/-- The second subscription is stored between the receipt of the first message
and its dispatch, where the first one throws, and the first is erased between the
receipt of the second message and its dispatch. -/
def overlapping : List Event :=
  [.api (.subscribe 7), .api .store, .api .start, .listener (.connect true 0),
    .listener (.setConsumer 0), .api .wait, .listener .notify, .api .resume,
    .deliver (told "one"), .listener .receive, .listener .checkStop,
    .api (.subscribe 8), .api .store, .api .start,
    .listener (.dispatch fun subId => if subId = 1 then .error (.thrown []) else .ok ()),
    .deliver (told "two"), .listener .receive, .listener .checkStop,
    .api (.unsubscribe 1), .api .erase, .api .check, .listener .dispatch]

theorem overlapping_callbacks_hear :
    ∃ c log, exec (logged (step localBroker) marks) ({}, []) overlapping = some (c, log) ∧
      c.invoked.filter (fun i => i.subId = 1) = [invocation 1 7 (told "one")] ∧
      c.invoked.filter (fun i => i.subId = 2) =
        [invocation 2 8 (told "one"), invocation 2 8 (told "two")] := by
  refine ⟨_, _, rfl, ?_, ?_⟩
  · exact (callback_hears_its_span localBroker overlapping _ _ rfl (by decide)).1 1 7
      [.called] [.called, .stored 2 8, .took (told "one")] [.erased 1, .took (told "two")] rfl
      (by decide) (Or.inr ⟨_, rfl⟩)
  · exact (callback_hears_its_span localBroker overlapping _ _ rfl (by decide)).1 2 8
      [.called, .stored 1 7, .called] [.took (told "one"), .erased 1, .took (told "two")] [] rfl
      (by decide) (Or.inl rfl)

end FtyCommonMlm.MlmStreamClient
