import FtyCommonMlm.Stream.Startup

namespace FtyCommonMlm.MlmStreamClient
open Runs
open Bytes (ofString)

section Calls

variable {cfg : Config} {c d : Client}

theorem ApiMove.results {e : ApiEvent} (h : ApiMove cfg c e d) :
    (d.results = c.results ∧ (d.api = .idle → c.api = .idle)) ∨
      ∃ r, d.results = c.results ++ [r] := by
  cases h with
  | attach h hj | rethrow e h hx | resume h hx | unknown subId h hin | keep subId h he =>
    exact Or.inr ⟨_, rfl⟩
  | notSent who rc e h hm | notJoinable who h hj | join who h hj hl =>
    cases who with
    | unsubscribe subId => exact Or.inr ⟨_, rfl⟩
    | destructor =>
      refine Or.inl ⟨rfl, ?_⟩
      simp [Client.stopped, Client.destroyMembers]
  | destroy h he => exact Or.inl ⟨rfl, fun _ => h⟩
  | _ => exact Or.inl ⟨rfl, by simp⟩

/-- A step ends at most one call, and a call that ends leaves its result. -/
theorem step_results {e : Event} (h : step cfg c e = some d) :
    (d.results = c.results ∧ (d.api = .idle → c.api = .idle)) ∨
      ∃ r, d.results = c.results ++ [r] := by
  cases e with
  | api e => exact (apiStep_moves h).results
  | listener e =>
    have hm := listenerStep_moves h
    refine Or.inl ⟨hm.keeps.2.2, ?_⟩
    intro hd
    rcases hm.api with hsame | ⟨_, hk⟩
    · exact hsame ▸ hd
    · rw [hk] at hd
      contradiction
  | deliver m =>
    cases h
    obtain ⟨queue, hq, _⟩ := deliver_eq c m
    rw [hq]
    exact Or.inl ⟨rfl, id⟩

/-- The call rule: what the steps of a call keep until it ends, its last step
turns into what holds when it has returned, and what the other thread does
before the next call keeps that. -/
theorem call_rule {U : Client → Prop} {Q : Client → Result → Prop} {s t : Client}
    {events : List Event} {r : Result} (hs : Inv s) (hU : U s)
    (hkeep : ∀ c e d, Inv c → U c → step cfg c e = some d → d.results = c.results → U d)
    (hreturn : ∀ c e d r, Inv c → U c → step cfg c e = some d →
      d.results = c.results ++ [r] → Q d r)
    (hstay : ∀ c e d r, Inv c → Q c r → step cfg c e = some d → c.api = .idle → d.api = .idle →
      d.results = c.results → Q d r)
    (h : exec (step cfg) s events = some t) (hidle : t.api = .idle)
    (hr : t.results = s.results ++ [r]) : Q t r := by
  -- since s no call has ended, one has, or more have
  let I (c : Client) : Prop := Inv c ∧
    ((c.results = s.results ∧ U c) ∨
      (∃ r, c.results = s.results ++ [r] ∧ (c.api = .idle → Q c r)) ∨
      s.results.length + 2 ≤ c.results.length)
  have hI : I t := by
    apply inv_of_exec (I := I) ⟨hs, Or.inl ⟨rfl, hU⟩⟩ ?_ h
    intro c e d hgiven hstep
    obtain ⟨hc, hphase⟩ := hgiven
    refine ⟨step_inv hc hstep, ?_⟩
    rcases step_results hstep with ⟨hsame, hback⟩ | ⟨r', hr'⟩
    · rw [hsame]
      rcases hphase with ⟨heq, hu⟩ | ⟨r', heq, hq⟩ | hlong
      · exact Or.inl ⟨heq, hkeep c e d hc hu hstep hsame⟩
      · refine Or.inr (Or.inl ⟨r', heq, ?_⟩)
        intro hd
        exact hstay c e d r' hc (hq (hback hd)) hstep (hback hd) hd hsame
      · exact Or.inr (Or.inr hlong)
    · rcases hphase with ⟨heq, hu⟩ | ⟨r'', heq, hq⟩ | hlong
      · refine Or.inr (Or.inl ⟨r', by rw [hr', heq], ?_⟩)
        intro _
        exact hreturn c e d r' hc hu hstep hr'
      · right; right
        rw [hr', heq]
        simp
      · right; right
        rw [hr', List.length_append]
        omega
  obtain ⟨_, hphase⟩ := hI
  rw [hr] at hphase
  rcases hphase with ⟨heq, _⟩ | ⟨r', heq, hq⟩ | hlong
  · simp at heq
  · have hrr : r = r' := by simpa using heq
    rw [hrr]
    exact hq hidle
  · simp only [List.length_append, List.length_singleton] at hlong
    omega

end Calls

/-- The listener gave up in its start-up, behind the setting of `m_exPtr`. -/
def Listener.gaveUp : Listener → Bool
  | .caught | .failed => true
  | _ => false

/-- A thread to join whose start-up error is set has given up. -/
theorem gaveUp_of_error {joinable : Bool} {e : Error} {l : Listener} (hj : joinable = true)
    (h : l.Agrees joinable (some e)) : l.gaveUp = true := by
  cases l with
  | caught | failed => rfl
  | absent =>
    rw [hj] at h
    contradiction
  | _ => exact absurd h.2 (by simp)

theorem joinable_of_gaveUp {joinable : Bool} {exPtr : Option Error} {l : Listener}
    (hg : l.gaveUp = true) (h : l.Agrees joinable exPtr) : joinable = true := by
  cases l with
  | caught | failed => exact h.1
  | _ => contradiction

theorem not_consumes_of_gaveUp {l : Listener} (hg : l.gaveUp = true) : l.consumes = false := by
  cases l with
  | caught | failed => rfl
  | _ => contradiction

/-- Until the first call since a state with that joinability has ended. -/
def Api.Starting (joinable : Bool) (c : Client) : Api → Prop
  | .idle | .subscribing _ => c.joinable = joinable
  | .stored => c.joinable = joinable ∧ c.callbacks.isEmpty = false
  | .spawned | .waiting | .woken => joinable = false ∧ c.callbacks.isEmpty = false
  | _ => True

/-- Until the first call since a state with a listener that gave up has ended. -/
def Api.Stranded (c : Client) : Api → Prop
  | .idle | .subscribing _ | .stored => c.listener.gaveUp = true
  | .spawned | .waiting | .woken => False
  | _ => True

section Steps

variable {cfg : Config} {c d : Client} {b : Bool}

theorem ApiMove.starting {e : ApiEvent} (h : ApiMove cfg c e d) (hu : c.api.Starting b c)
    (hsame : d.results = c.results) : d.api.Starting b d := by
  cases h with
  | subscribe callback h | wait h | spurious h =>
    rw [h] at hu
    exact hu
  | store callback h =>
    rw [h] at hu
    exact ⟨hu, Std.TreeMap.isEmpty_insert⟩
  | spawn h hj =>
    rw [h] at hu
    exact ⟨hu.1 ▸ hj, hu.2⟩
  | attach h hj | rethrow e h hx | resume h hx | unknown subId h hin | keep subId h he =>
    simp [Client.finish] at hsame
  | notSent who rc e h hm | notJoinable who h hj | join who h hj hl =>
    cases who with
    | unsubscribe subId => simp [Client.stopped, Client.finish] at hsame
    | destructor => simp [Client.stopped, Client.destroyMembers, Api.Starting]
  | destroy h he => cases hj : c.joinable <;> simp [Client.destroyMembers, hj, Api.Starting]
  | find subId h hin | erase subId h | stop subId h he | sent who rc m h hm | destroyStop h he =>
    trivial

theorem ApiMove.stranded {e : ApiEvent} (h : ApiMove cfg c e d) (hc : Inv c)
    (hu : c.api.Stranded c) (hsame : d.results = c.results) : d.api.Stranded d := by
  cases h with
  | subscribe callback h | store callback h =>
    rw [h] at hu
    exact hu
  | spawn h hj =>
    rw [h] at hu
    have hjoin := joinable_of_gaveUp hu hc.listener
    rw [hj] at hjoin
    contradiction
  | wait h | spurious h =>
    rw [h] at hu
    exact hu
  | attach h hj | rethrow e h hx | resume h hx | unknown subId h hin | keep subId h he =>
    simp [Client.finish] at hsame
  | notSent who rc e h hm | notJoinable who h hj | join who h hj hl =>
    cases who with
    | unsubscribe subId => simp [Client.stopped, Client.finish] at hsame
    | destructor => simp [Client.stopped, Client.destroyMembers, Api.Stranded]
  | destroy h he => cases hj : c.joinable <;> simp [Client.destroyMembers, hj, Api.Stranded]
  | find subId h hin | erase subId h | stop subId h he | sent who rc m h hm | destroyStop h he =>
    trivial

theorem ListenerMove.gaveUp {e : ListenerEvent} (h : ListenerMove cfg c e d)
    (hg : c.listener.gaveUp = true) : d.listener.gaveUp = true := by
  cases h with
  | notifyError h | transfer e h => rfl
  | fail client rc e h | connect client rc h | failConsumer rc e h | setConsumer rc h | notify h
  | receive m queue h hq | receiveNull h | leave m h hs | pass m h hs | leaveNull h hs
  | abort h hs | dispatch ends m h hf | interrupt h =>
    rw [h] at hg
    contradiction

theorem starting_of_step {e : Event} (h : step cfg c e = some d) (hu : c.api.Starting b c)
    (hsame : d.results = c.results) : d.api.Starting b d := by
  cases e with
  | api e => exact (apiStep_moves h).starting hu hsame
  | listener e =>
    have hm := listenerStep_moves h
    obtain ⟨hcallbacks, hjoinable, _⟩ := hm.keeps
    unfold Api.Starting at hu ⊢
    rw [hcallbacks, hjoinable]
    rcases hm.api with hsame | ⟨hw, hk⟩
    · rw [hsame]
      exact hu
    · rw [hw] at hu
      rw [hk]
      exact hu
  | deliver m =>
    cases h
    obtain ⟨queue, hq, _⟩ := deliver_eq c m
    rw [hq]
    exact hu

theorem stranded_of_step {e : Event} (hc : Inv c) (h : step cfg c e = some d)
    (hu : c.api.Stranded c) (hsame : d.results = c.results) : d.api.Stranded d := by
  cases e with
  | api e => exact (apiStep_moves h).stranded hc hu hsame
  | listener e =>
    have hm := listenerStep_moves h
    rcases hm.api with hsame | ⟨hw, _⟩
    · rw [hsame]
      revert hu
      cases c.api <;> simp only [Api.Stranded, imp_self]
      all_goals exact hm.gaveUp
    · rw [hw] at hu
      contradiction
  | deliver m =>
    cases h
    obtain ⟨queue, hq, _⟩ := deliver_eq c m
    rw [hq]
    exact hu

/-- Between two calls the listener thread and the broker leave a client's
callbacks, and a listener that gave up. -/
theorem step_between {e : Event} (h : step cfg c e = some d) (hc : c.api = .idle)
    (hd : d.api = .idle) (hsame : d.results = c.results) :
    d.callbacks = c.callbacks ∧ (c.listener.gaveUp = true → d.listener.gaveUp = true) := by
  cases e with
  | api e =>
    have hm : ApiMove cfg c e d := apiStep_moves h
    cases hm with
    | unknown subId h hin => simp [Client.finish] at hsame
    | destroy h he => cases hj : c.joinable <;> simp [Client.destroyMembers, hj] at hd
    | _ => simp_all
  | listener e =>
    have hm := listenerStep_moves h
    exact ⟨hm.keeps.1, hm.gaveUp⟩
  | deliver m =>
    cases h
    obtain ⟨queue, hq, _⟩ := deliver_eq c m
    rw [hq]
    exact ⟨rfl, id⟩

/-- A subscribe that rethrows the start-up error found no thread to join, and
leaves its callback and the thread. -/
theorem threw_of_step {e : Event} (hc : Inv c) (hu : c.api.Starting b c)
    (h : step cfg c e = some d) {x : Error}
    (hr : d.results = c.results ++ [.subscribed (.error x)]) :
    b = false ∧ d.callbacks.isEmpty = false ∧ d.listener.gaveUp = true := by
  obtain ⟨a, _, hm⟩ := move_of_result h hr
  cases hm with
  | rethrow e hk hx =>
    have hl := hc.listener
    have ha := hc.api
    rw [hk] at hu ha
    rw [hx] at hl
    refine ⟨hu.1, hu.2, ?_⟩
    exact gaveUp_of_error ha hl
  | notSent who rc e h hm | notJoinable who h hj | join who h hj hl =>
    cases who <;> simp [Client.stopped, Client.finish, Client.destroyMembers] at hr
  | _ => simp [Client.finish, Client.destroyMembers] at hr

/-- With a listener that gave up, `subscribe` returns an id and starts none. -/
theorem returned_of_step {e : Event} (hu : c.api.Stranded c) (h : step cfg c e = some d)
    {r : Except Error SubId} (hr : d.results = c.results ++ [.subscribed r]) :
    (∃ subId, r = .ok subId) ∧ d.listener.gaveUp = true := by
  obtain ⟨a, _, hm⟩ := move_of_result h hr
  cases hm with
  | attach hk hj =>
    rw [hk] at hu
    simp only [Client.finish, List.append_cancel_left_eq, List.cons.injEq, Result.subscribed.injEq,
      and_true] at hr
    exact ⟨⟨_, hr.symm⟩, hu⟩
  | rethrow e hk hx | resume hk hx =>
    rw [hk] at hu
    contradiction
  | notSent who rc e h hm | notJoinable who h hj | join who h hj hl =>
    cases who <;> simp [Client.stopped, Client.finish, Client.destroyMembers] at hr
  | _ => simp [Client.finish, Client.destroyMembers] at hr

/-- The next `subscribe` of a client with a listener that gave up. -/
theorem subscribe_attaches (hc : Inv c) (hidle : c.api = .idle) (hg : c.listener.gaveUp = true)
    (callback : Callback) :
    ∃ u, exec (step cfg) c [.api (.subscribe callback), .api .store, .api .start] = some u ∧
      u.results = c.results ++ [.subscribed (.ok (c.counter + 1))] := by
  have hj := joinable_of_gaveUp hg hc.listener
  have hruns : c.listener ≠ .aborted := by
    intro he
    rw [he] at hg
    contradiction
  exact ⟨_, by simp [exec, step, apiStep, hruns, hidle, hj]; rfl, rfl⟩

end Steps

theorem threw_of_call {cfg : Config} {s t : Client} {call : List Event} {e : Error} (hs : Inv s)
    (hidle : s.api = .idle) (ht : exec (step cfg) s call = some t) (hback : t.api = .idle)
    (hthrew : t.results = s.results ++ [.subscribed (.error e)]) :
    s.joinable = false ∧ t.callbacks.isEmpty = false ∧ t.listener.gaveUp = true := by
  refine call_rule (U := fun c => c.api.Starting s.joinable c)
    (Q := fun d r => ∀ x, r = .subscribed (.error x) →
      s.joinable = false ∧ d.callbacks.isEmpty = false ∧ d.listener.gaveUp = true)
    hs ?_ ?_ ?_ ?_ ht hback hthrew e rfl
  · rw [hidle]
    rfl
  · intro c e d _ hu h hsame
    exact starting_of_step h hu hsame
  · intro c e d r hc hu h hr x he
    subst he
    exact threw_of_step hc hu h hr
  · intro c e d r _ hq h hc hd hsame x hx
    obtain ⟨hnone, hcallbacks, hgave⟩ := hq x hx
    obtain ⟨hkept, hstill⟩ := step_between h hc hd hsame
    rw [hkept]
    exact ⟨hnone, hcallbacks, hstill hgave⟩

theorem returned_of_call {cfg : Config} {t u : Client} {next : List Event}
    {r : Except Error SubId} (ht : Inv t) (hidle : t.api = .idle)
    (hg : t.listener.gaveUp = true) (hu : exec (step cfg) t next = some u)
    (hback : u.api = .idle) (hr : u.results = t.results ++ [.subscribed r]) :
    (∃ subId, r = .ok subId) ∧ u.listener.gaveUp = true := by
  refine call_rule (U := fun c => c.api.Stranded c)
    (Q := fun d r => ∀ q, r = .subscribed q →
      (∃ subId, q = .ok subId) ∧ d.listener.gaveUp = true)
    ht ?_ ?_ ?_ ?_ hu hback hr r rfl
  · rw [hidle]
    exact hg
  · intro c e d hc hu h hsame
    exact stranded_of_step hc h hu hsame
  · intro c e d r hc hu h hr q he
    subst he
    exact returned_of_step hu h hr
  · intro c e d r _ hq h hc hd hsame q hr
    obtain ⟨hok, hgave⟩ := hq q hr
    exact ⟨hok, (step_between h hc hd hsame).2 hgave⟩

/-- Whenever `subscribe` rethrows a start-up error, it leaves its callback and
a thread to join where there was neither; after that the next `subscribe`
succeeds, and if it returns, it returns an id that no listener serves. -/
theorem failed_start_up_left_behind (cfg : Config) (before call : List Event) (s t : Client)
    (e : Error) (hs : exec (step cfg) {} before = some s) (hidle : s.api = .idle)
    (ht : exec (step cfg) s call = some t) (hback : t.api = .idle)
    (hthrew : t.results = s.results ++ [.subscribed (.error e)]) :
    (s.callbacks.isEmpty = true ∧ s.joinable = false ∧
      t.callbacks.isEmpty = false ∧ t.joinable = true) ∧
    (∀ next u r, exec (step cfg) t next = some u → u.api = .idle →
      u.results = t.results ++ [.subscribed r] →
        (∃ subId, r = .ok subId) ∧ u.listener.consumes = false) ∧
    ∀ callback, ∃ u,
      exec (step cfg) t [.api (.subscribe callback), .api .store, .api .start] = some u ∧
        u.results = t.results ++ [.subscribed (.ok (t.counter + 1))] := by
  have hinv : Inv s := inv_of_exec start_inv (fun _ _ _ hc h => step_inv hc h) hs
  have hinvt : Inv t := inv_of_exec hinv (fun _ _ _ hc h => step_inv hc h) ht
  have hapi := hinv.api
  have hapit := hinvt.api
  rw [hidle] at hapi
  rw [hback] at hapit
  obtain ⟨hj, hcallbacks, hgave⟩ := threw_of_call hinv hidle ht hback hthrew
  refine ⟨⟨?_, hj, hcallbacks, hapit hcallbacks⟩, ?_, ?_⟩
  · by_contra hne
    have hjoin := hapi (Bool.not_eq_true _ ▸ hne)
    rw [hj] at hjoin
    contradiction
  · intro next u r hu hidle' hr
    obtain ⟨hok, hgave'⟩ := returned_of_call hinvt hback hgave hu hidle' hr
    exact ⟨hok, not_consumes_of_gaveUp hgave'⟩
  · intro callback
    exact subscribe_attaches hinvt hback hgave callback

/-- The broker refuses the listener's connection. -/
def refusedRun : List Event :=
  [.api (.subscribe 1), .api .store, .api .start, .api .wait, .listener (.connect true (-1)),
    .listener .transfer, .listener .notify, .api .resume]

theorem refused_start_up_left_behind :
    ∃ t, exec (step localBroker) {} refusedRun = some t ∧
      t.callbacks.isEmpty = false ∧ t.joinable = true := by
  refine ⟨_, rfl, ?_⟩
  obtain ⟨⟨_, _, hleft⟩, _⟩ := failed_start_up_left_behind localBroker [] refusedRun {} _
    (.connecting localBroker.endpoint) rfl rfl rfl rfl rfl
  exact hleft

/-- The subscription made after the refused one has an id and no listener. -/
theorem later_subscription_unserved :
    ∃ t, exec (step localBroker) {} refusedRun = some t ∧
      t.results = [.subscribed (.error (.connecting localBroker.endpoint))] ∧
      t.callbacks.toList = [(1, 1)] ∧ t.joinable = true ∧
      ∃ u, exec (step localBroker) t [.api (.subscribe 2), .api .store, .api .start] = some u ∧
        u.results = t.results ++ [.subscribed (.ok 2)] ∧ u.listener = .failed :=
  ⟨_, rfl, rfl, rfl, rfl, _, rfl, rfl, rfl⟩

end FtyCommonMlm.MlmStreamClient
