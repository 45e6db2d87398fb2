import FtyCommonMlm.Lib.Simulation
import FtyCommonMlm.Stream.Moves

namespace FtyCommonMlm.MlmStreamClient
open Runs
open Bytes (ofString)

/-- Where the listener is in its loop over `m_callbacks`, with the calls it still
has to make. It holds the mutex except `outside`. -/
inductive Calling
  | outside
  | ready (left : List Invocation)
  | inside (left : List Invocation)
  /-- The callback has called the client, and waits for the mutex there. -/
  | blocked (left : List Invocation)
deriving DecidableEq

def Calling.left : Calling → List Invocation
  | .outside => []
  | .ready left | .inside left | .blocked left => left

/-- The client, whose callbacks are called one at a time. -/
structure Reentrant where
  client : Client
  calling : Calling

def Reentrant.start : Reentrant := ⟨{}, .outside⟩

/-- What a callback may ask of the client it is registered with, short of
destroying it. -/
inductive Back
  | publish (payload : List Bytes) (rc : Calls)
  | subscribe (callback : Callback)
  | unsubscribe (subId : SubId)

inductive CallingEvent
  | api (e : ApiEvent)
  /-- A step of the listener outside of the loop over `m_callbacks`. -/
  | listener (e : ListenerEvent)
  | deliver (m : StreamMsg)
  | lock
  | call
  | back (b : Back)
  /-- The callback returns, or it throws, which makes no difference. -/
  | leave
  | unlock

/-- The steps that lock `m_listenerCallbackMutex`, `resume` for the end of the
wait. -/
def ApiEvent.locks : ApiEvent → Bool
  | .store | .erase | .resume => true
  | _ => false

/-- A call that goes on to lock the mutex. -/
def Back.locks (c : Client) : Back → Bool
  | .publish _ _ => false
  | .subscribe _ => true
  | .unsubscribe subId => c.callbacks.contains subId

/-- What a callback's call does to the client ahead of the mutex. -/
def Client.called (c : Client) : Back → Client
  | .subscribe _ => { c with stopRequested := false, counter := c.counter + 1 }
  | .publish _ _ | .unsubscribe _ => c

/-- A thread that locks the mutex it holds waits for itself. -/
def callingStep (cfg : Config) (s : Reentrant) : CallingEvent → Option Reentrant
  | .api e =>
    if e.locks ∧ s.calling ≠ .outside then none
    else (apiStep cfg s.client e).map fun client => { s with client := client }
  | .listener (.dispatch _) => none
  | .listener e => (listenerStep cfg s.client e).map fun client => { s with client := client }
  | .deliver m => some { s with client := s.client.deliver m }
  | .lock =>
    match s.client.listener, s.calling with
    | .checked m, .outside =>
      if s.client.mutexFree then
        (collect m).map fun payload =>
          { s with
            calling := .ready (s.client.callbacks.toList.map fun item =>
              ⟨item.1, item.2, payload, m.subject⟩) }
      else none
    | _, _ => none
  | .call =>
    match s.calling with
    | .ready (i :: left) =>
      some ⟨{ s.client with invoked := s.client.invoked ++ [i] }, .inside left⟩
    | _ => none
  | .back b =>
    match s.calling with
    | .inside left =>
      some ⟨s.client.called b, if b.locks s.client then .blocked left else .inside left⟩
    | _ => none
  | .leave =>
    match s.calling with
    | .inside left => some { s with calling := .ready left }
    | _ => none
  | .unlock =>
    match s.calling with
    | .ready [] => some ⟨{ s.client with listener := .polling }, .outside⟩
    | _ => none

/-- The client with the loop over `m_callbacks` done at once, when it begins. -/
def Reentrant.view (s : Reentrant) : Client :=
  match s.calling with
  | .outside => s.client
  | calling =>
    { s.client with listener := .polling, invoked := s.client.invoked ++ calling.left }

def stands (_ : Reentrant) : CallingEvent → List Event
  | .api e => [.api e]
  | .listener e => [.listener e]
  | .deliver m => [.deliver m]
  | .lock => [.listener .dispatch]
  | .call | .back _ | .leave | .unlock => []

/-- There is something the listener calls. -/
def Calling.calls : Calling → Bool
  | .outside | .ready [] => false
  | _ => true

/-- While the listener is in the loop, the mutex is its own. -/
structure Reentrant.Inv (s : Reentrant) : Prop where
  checked : s.calling ≠ .outside → ∃ m, s.client.listener = .checked m
  free : s.calling ≠ .outside → s.client.mutexFree = true
  called : s.calling.calls = true → s.client.callbacks.isEmpty = false

/-- The callback does not call the client where that locks the mutex. -/
def CallsFreely (s : Reentrant) (e : CallingEvent) : Prop :=
  ∀ b, e = .back b → b.locks s.client = false

section Clients

variable {cfg : Config} {c d : Client} {e : ApiEvent} {m : StreamMsg}

def Result.isSubscribed : Result → Bool
  | .subscribed _ => true
  | .unsubscribed _ _ => false

/-- What a calling thread does that finds the mutex locked: nothing to the
subscriptions and to the listener. -/
theorem ApiMove.beside (h : ApiMove cfg c e d) (hlocks : e.locks = false)
    (hfree : c.mutexFree = true) (hl : c.listener = .checked m) :
    d.listener = c.listener ∧ d.callbacks = c.callbacks ∧ d.invoked = c.invoked ∧
      d.mutexFree = true ∧
      d.results.filter Result.isSubscribed = c.results.filter Result.isSubscribed ∧
      (d.api = .destroyed → c.callbacks.isEmpty = true) := by
  cases h with
  | store | erase | rethrow | resume => contradiction
  | spawn h hj | attach h hj => simp [Client.mutexFree, h] at hfree
  | wait h => simp [Client.mutexFree, h] at hfree
  | join who h hj hended => simp [hl, Listener.ended] at hended
  | notSent who rc e h hm | notJoinable who h hj =>
    cases who <;>
      simp [Client.stopped, Client.finish, Client.mutexFree, Result.isSubscribed]
  | unknown | keep => simp [Client.finish, Client.mutexFree, Result.isSubscribed]
  | destroy h he =>
    simp only [Client.destroyMembers]
    split <;> simp [Client.mutexFree, he]
  | _ => simp [Client.mutexFree]

/-- The calling thread does not look at what the listener does with the mutex. -/
theorem apiStep_beside {invoked : List Invocation} (hfree : c.mutexFree = true)
    (hl : c.listener = .checked m) (hstep : apiStep cfg c e = some d) (hlocks : e.locks = false) :
    apiStep cfg { c with listener := .polling, invoked := invoked } e =
      some { d with listener := .polling, invoked := invoked } := by
  have hmove := apiStep_moves hstep
  clear hstep
  cases hmove with
  | store | erase | rethrow | resume => contradiction
  | spawn h hj | attach h hj => simp [Client.mutexFree, h] at hfree
  | wait h => simp [Client.mutexFree, h] at hfree
  | join who h hj hended => simp [hl, Listener.ended] at hended
  | subscribe callback h => simp [apiStep, h]
  | spurious h => simp [apiStep, h]
  | find subId h hin | unknown subId h hin => simp [apiStep, h, hin, Client.finish]
  | stop subId h he | keep subId h he => simp [apiStep, h, he, Client.finish]
  | sent who rc m h hm => simp [apiStep, h, hm]
  | notSent who rc e h hm => cases who <;> simp [apiStep, h, hm, Client.stopped, Client.finish]
  | notJoinable who h hj => cases who <;> simp [apiStep, h, hj, Client.stopped, Client.finish]
  | destroyStop h he | destroy h he => simp [apiStep, h, he, Client.destroyMembers]

end Clients

section Steps

variable {cfg : Config} {s t : Reentrant} {e : CallingEvent}

theorem view_outside (h : s.calling = .outside) : s.view = s.client := by
  rw [Reentrant.view, h]

theorem view_inside (h : s.calling ≠ .outside) : s.view =
    { s.client with
      listener := .polling
      invoked := s.client.invoked ++ s.calling.left } := by
  rw [Reentrant.view]
  split
  · rename_i houtside
    exact absurd houtside h
  · rfl

theorem view_outside_of (client : Client) (h : s.calling = .outside) :
    Reentrant.view { s with client := client } = client := view_outside (s := ⟨client, _⟩) h

theorem view_inside_of (client : Client) (h : s.calling ≠ .outside) :
    Reentrant.view { s with client := client } = { client with
      listener := .polling
      invoked := client.invoked ++ s.calling.left } := view_inside (s := ⟨client, _⟩) h

/-- All a step can do. -/
inductive CallingMove (cfg : Config) (s : Reentrant) : CallingEvent → Reentrant → Prop
  | api (e : ApiEvent) (client : Client) (h : apiStep cfg s.client e = some client)
      (hlocks : s.calling ≠ .outside → e.locks = false) :
      CallingMove cfg s (.api e) { s with client := client }
  | listener (e : ListenerEvent) (client : Client) (hne : ∀ ends, e ≠ .dispatch ends)
      (h : listenerStep cfg s.client e = some client) :
      CallingMove cfg s (.listener e) { s with client := client }
  | deliver (m : StreamMsg) :
      CallingMove cfg s (.deliver m) { s with client := s.client.deliver m }
  | lock (m : StreamMsg) (hl : s.client.listener = .checked m) (h : s.calling = .outside)
      (hfree : s.client.mutexFree = true) :
      CallingMove cfg s .lock { s with
        calling := .ready (s.client.callbacks.toList.map fun item =>
          ⟨item.1, item.2, m.frames.map Bytes.cStr, m.subject⟩) }
  | call (i : Invocation) (left : List Invocation) (h : s.calling = .ready (i :: left)) :
      CallingMove cfg s .call
        ⟨{ s.client with invoked := s.client.invoked ++ [i] }, .inside left⟩
  | back (b : Back) (left : List Invocation) (h : s.calling = .inside left) :
      CallingMove cfg s (.back b)
        ⟨s.client.called b, if b.locks s.client then .blocked left else .inside left⟩
  | leave (left : List Invocation) (h : s.calling = .inside left) :
      CallingMove cfg s .leave { s with calling := .ready left }
  | unlock (h : s.calling = .ready []) :
      CallingMove cfg s .unlock ⟨{ s.client with listener := .polling }, .outside⟩

theorem callingStep_moves (h : callingStep cfg s e = some t) : CallingMove cfg s e t := by
  cases e with
  | api e =>
    simp only [callingStep] at h
    split at h
    · contradiction
    · rename_i hlocks
      obtain ⟨client, hclient, rfl⟩ := Option.map_eq_some_iff.mp h
      refine .api e client hclient ?_
      intro hne
      cases he : e.locks with
      | false => rfl
      | true => exact absurd ⟨he, hne⟩ hlocks
  | listener e =>
    cases e with
    | dispatch ends => contradiction
    | _ =>
      obtain ⟨client, hclient, rfl⟩ := Option.map_eq_some_iff.mp h
      exact .listener _ client (by simp) hclient
  | deliver m =>
    cases h
    exact .deliver m
  | lock =>
    simp only [callingStep, collect_eq, Option.map_some] at h
    split at h
    · rename_i m hl hcalling
      split at h
      · rename_i hfree
        cases h
        exact .lock m hl hcalling hfree
      · contradiction
    · contradiction
  | call =>
    simp only [callingStep] at h
    split at h
    · rename_i i left hcalling
      cases h
      exact .call i left hcalling
    · contradiction
  | back b =>
    simp only [callingStep] at h
    split at h
    · rename_i left hcalling
      cases h
      exact .back b left hcalling
    · contradiction
  | leave =>
    simp only [callingStep] at h
    split at h
    · rename_i left hcalling
      cases h
      exact .leave left hcalling
    · contradiction
  | unlock =>
    simp only [callingStep] at h
    split at h
    · rename_i hcalling
      cases h
      exact .unlock hcalling
    · contradiction

/-- The listener does nothing else while it is in its loop. -/
theorem listenerStep_checked {client : Client} {m : StreamMsg} {e : ListenerEvent}
    (hl : s.client.listener = .checked m) (hne : ∀ ends, e ≠ .dispatch ends) :
    listenerStep cfg s.client e ≠ some client := by
  cases e <;> simp [listenerStep, hl] at hne ⊢

theorem inv_outside (h : s.calling = .outside) : s.Inv := by
  refine ⟨fun hne => absurd h hne, fun hne => absurd h hne, ?_⟩
  intro hcalls
  rw [h] at hcalls
  contradiction

theorem calling_inv (hs : s.Inv) (h : callingStep cfg s e = some t) : t.Inv := by
  cases callingStep_moves h with
  | api e client hclient hlocks =>
    by_cases hcalling : s.calling = .outside
    · exact inv_outside hcalling
    · obtain ⟨m, hl⟩ := hs.checked hcalling
      obtain ⟨hlistener, hcallbacks, -, hfree, -⟩ := (apiStep_moves hclient).beside
        (hlocks hcalling) (hs.free hcalling) hl
      exact ⟨fun _ => ⟨m, hlistener.trans hl⟩, fun _ => hfree,
        fun hcalls => by rw [hcallbacks]; exact hs.called hcalls⟩
  | listener e client hne hclient =>
    by_cases hcalling : s.calling = .outside
    · exact inv_outside hcalling
    · obtain ⟨m, hl⟩ := hs.checked hcalling
      exact absurd hclient (listenerStep_checked hl hne)
  | deliver m =>
    obtain ⟨queue, hqueue, -⟩ := deliver_eq s.client m
    rw [hqueue]
    exact ⟨hs.checked, hs.free, hs.called⟩
  | lock m hl hcalling hfree =>
    refine ⟨fun _ => ⟨m, hl⟩, fun _ => hfree, ?_⟩
    intro hcalls
    rw [← Std.TreeMap.isEmpty_toList]
    cases hitems : s.client.callbacks.toList with
    | nil => simp [hitems, Calling.calls] at hcalls
    | cons item items => rfl
  | call i left hcalling =>
    have hne : s.calling ≠ .outside := by rw [hcalling]; simp
    have hcalls := hs.called (by rw [hcalling]; rfl)
    exact ⟨fun _ => hs.checked hne, fun _ => hs.free hne, fun _ => hcalls⟩
  | back b left hcalling =>
    have hne : s.calling ≠ .outside := by rw [hcalling]; simp
    have hcalls := hs.called (by rw [hcalling]; rfl)
    cases b <;> exact ⟨fun _ => hs.checked hne, fun _ => hs.free hne, fun _ => hcalls⟩
  | leave left hcalling =>
    have hne : s.calling ≠ .outside := by rw [hcalling]; simp
    have hcalls := hs.called (by rw [hcalling]; rfl)
    exact ⟨fun _ => hs.checked hne, fun _ => hs.free hne, fun _ => hcalls⟩
  | unlock hcalling => exact inv_outside rfl

/-- A callback that calls freely is one the listener may have called at once. -/
theorem calling_viewed (hs : s.Inv) (hfreely : CallsFreely s e) (h : callingStep cfg s e = some t) :
    exec (step cfg) s.view (stands s e) = some t.view := by
  cases callingStep_moves h with
  | api e client hclient hlocks =>
    by_cases hcalling : s.calling = .outside
    · rw [view_outside hcalling, view_outside_of client hcalling]
      simp [stands, exec, step, hclient]
    · obtain ⟨m, hl⟩ := hs.checked hcalling
      obtain ⟨-, -, hinvoked, -⟩ := (apiStep_moves hclient).beside (hlocks hcalling)
        (hs.free hcalling) hl
      rw [view_inside hcalling, view_inside_of client hcalling]
      simp only [stands, exec, step, Option.bind_some, hinvoked,
        apiStep_beside (hs.free hcalling) hl hclient (hlocks hcalling)]
  | listener e client hne hclient =>
    by_cases hcalling : s.calling = .outside
    · rw [view_outside hcalling, view_outside_of client hcalling]
      simp [stands, exec, step, hclient]
    · obtain ⟨m, hl⟩ := hs.checked hcalling
      exact absurd hclient (listenerStep_checked hl hne)
  | deliver m =>
    by_cases hcalling : s.calling = .outside
    · rw [view_outside hcalling, view_outside_of _ hcalling]
      rfl
    · obtain ⟨m', hl⟩ := hs.checked hcalling
      rw [view_inside hcalling, view_inside_of _ hcalling]
      simp [stands, exec, step, Client.deliver, hl, Listener.consumes]
  | lock m hl hcalling hfree =>
    rw [view_outside hcalling, view_inside (by simp)]
    simp [stands, exec, step, listenerStep, hl, hfree, collect_eq, process_eq, Client.handed,
      Calling.left]
  | call i left hcalling =>
    rw [view_inside (by simp [hcalling]), view_inside (by simp)]
    simp [stands, exec, hcalling, Calling.left]
  | back b left hcalling =>
    have hlocks := hfreely b rfl
    have hcalled : s.client.called b = s.client := by
      cases b with
      | subscribe callback => contradiction
      | publish payload rc | unsubscribe subId => rfl
    rw [view_inside (by simp [hcalling]), view_inside (by simp [hlocks])]
    simp [stands, exec, hcalling, hlocks, hcalled, Calling.left]
  | leave left hcalling =>
    rw [view_inside (by simp [hcalling]), view_inside (by simp)]
    simp [stands, exec, hcalling, Calling.left]
  | unlock hcalling =>
    rw [view_inside (by simp [hcalling]), view_outside rfl]
    simp [stands, exec, hcalling, Calling.left]

/-- The callback that runs in `s` never ends: nobody is subscribed or unsubscribed
behind it, no callback is called, and the listener and the client are still there. -/
structure Frozen (s t : Reentrant) : Prop where
  calling : t.calling = s.calling
  listener : t.client.listener = s.client.listener
  callbacks : t.client.callbacks = s.client.callbacks
  invoked : t.client.invoked = s.client.invoked
  subscribed : t.client.results.filter Result.isSubscribed =
    s.client.results.filter Result.isSubscribed
  destroyed : t.client.api = .destroyed → s.client.api = .destroyed

theorem frozen_of_blocked {left : List Invocation} (hs : s.Inv)
    (hblocked : s.calling = .blocked left) (h : callingStep cfg s e = some t) : Frozen s t := by
  have hcalling : s.calling ≠ .outside := by rw [hblocked]; simp
  obtain ⟨m, hl⟩ := hs.checked hcalling
  cases callingStep_moves h with
  | api e client hclient hlocks =>
    obtain ⟨hlistener, hcallbacks, hinvoked, -, hresults, hdestroyed⟩ :=
      (apiStep_moves hclient).beside (hlocks hcalling) (hs.free hcalling) hl
    refine ⟨rfl, hlistener, hcallbacks, hinvoked, hresults, ?_⟩
    intro hd
    have hempty := hdestroyed hd
    rw [hs.called (by rw [hblocked]; rfl)] at hempty
    contradiction
  | listener e client hne hclient => exact absurd hclient (listenerStep_checked hl hne)
  | deliver m =>
    obtain ⟨queue, hqueue, -⟩ := deliver_eq s.client m
    rw [hqueue]
    exact ⟨rfl, rfl, rfl, rfl, rfl, id⟩
  | lock m hl houtside hfree => exact absurd houtside hcalling
  | call i left hready | unlock hready =>
    rw [hblocked] at hready
    contradiction
  | back b left hinside | leave left hinside =>
    rw [hblocked] at hinside
    contradiction

theorem blocked_of_locks (hlocks : ¬CallsFreely s e) (h : callingStep cfg s e = some t) :
    ∃ left, t.calling = .blocked left := by
  simp only [CallsFreely, not_forall, Bool.not_eq_false] at hlocks
  obtain ⟨b, rfl, hb⟩ := hlocks
  cases callingStep_moves h with
  | back b left hcalling => exact ⟨left, if_pos hb⟩

theorem unblocked_of_freely (hs : ∀ left, s.calling ≠ .blocked left) (hfreely : CallsFreely s e)
    (h : callingStep cfg s e = some t) : ∀ left, t.calling ≠ .blocked left := by
  intro left
  cases callingStep_moves h with
  | api | listener | deliver => exact hs left
  | back b left' hcalling => simp [hfreely b rfl]
  | _ => simp

/-- A run with callbacks that call freely, step by step. -/
theorem freely_step (s : Reentrant) (e : CallingEvent) (t : Reentrant)
    (hs : s.Inv ∧ ∀ left, s.calling ≠ .blocked left) (hfreely : CallsFreely s e)
    (h : callingStep cfg s e = some t) :
    (t.Inv ∧ ∀ left, t.calling ≠ .blocked left) ∧
      exec (step cfg) s.view (stands s e) = some t.view :=
  ⟨⟨calling_inv hs.1 h, unblocked_of_freely hs.2 hfreely h⟩, calling_viewed hs.1 hfreely h⟩

end Steps

section Runs

variable {cfg : Config} {s t : Reentrant} {events : List CallingEvent}

theorem frozen_of_run {left : List Invocation} (hs : s.Inv) (hblocked : s.calling = .blocked left)
    (h : exec (callingStep cfg) s events = some t) : Frozen s t := by
  have hinv : t.Inv ∧ Frozen s t := by
    refine inv_of_exec (I := fun u => u.Inv ∧ Frozen s u)
      ⟨hs, rfl, rfl, rfl, rfl, rfl, id⟩ ?_ h
    intro u e v hu hv
    obtain ⟨hu, hfrozen⟩ := hu
    have hstep := frozen_of_blocked hu (hfrozen.calling.trans hblocked) hv
    exact ⟨calling_inv hu hv, hstep.calling.trans hfrozen.calling,
      hstep.listener.trans hfrozen.listener, hstep.callbacks.trans hfrozen.callbacks,
      hstep.invoked.trans hfrozen.invoked, hstep.subscribed.trans hfrozen.subscribed,
      fun hd => hfrozen.destroyed (hstep.destroyed hd)⟩
  exact hinv.2

theorem blocked_of_run (hs : s.Inv) (hlocks : ¬Guarded (callingStep cfg) CallsFreely s events)
    (h : exec (callingStep cfg) s events = some t) : ∃ left, t.calling = .blocked left := by
  induction events generalizing s with
  | nil => exact absurd trivial hlocks
  | cons e events ih =>
    obtain ⟨u, hu, ht⟩ := exec_cons.mp h
    have hinv := calling_inv hs hu
    by_cases hfreely : CallsFreely s e
    · refine ih hinv ?_ ht
      intro hrest
      apply hlocks
      intro v hv
      rw [hu, Option.some.injEq] at hv
      exact ⟨hfreely, hv ▸ hrest⟩
    · obtain ⟨left, hblocked⟩ := blocked_of_locks hfreely hu
      exact ⟨left, (frozen_of_run hinv hblocked ht).calling.trans hblocked⟩

/-- The rest of the loop, with callbacks that call nobody. -/
def finishing (left : List Invocation) : List CallingEvent :=
  left.flatMap (fun _ => [.call, .leave]) ++ [.unlock]

theorem finishing_ends (cfg : Config) (c : Client) (left : List Invocation) :
    exec (callingStep cfg) ⟨c, .ready left⟩ (finishing left) =
      some ⟨{ c with listener := .polling, invoked := c.invoked ++ left }, .outside⟩ := by
  induction left generalizing c with
  | nil => simp [finishing, exec, callingStep]
  | cons i left ih =>
    have hrest := ih { c with invoked := c.invoked ++ [i] }
    simp only [finishing, List.flatMap_cons, List.cons_append, List.nil_append, exec, callingStep,
      Option.bind_some] at hrest ⊢
    rw [hrest, List.append_assoc, List.singleton_append]

theorem ends_of_unblocked (hs : ∀ left, s.calling ≠ .blocked left) :
    ∃ more, exec (callingStep cfg) s more = some ⟨s.view, .outside⟩ := by
  obtain ⟨c, calling⟩ := s
  cases calling with
  | outside => exact ⟨[], rfl⟩
  | ready left => exact ⟨finishing left, finishing_ends cfg c left⟩
  | inside left => exact ⟨.leave :: finishing left, finishing_ends cfg c left⟩
  | blocked left => exact absurd rfl (hs left)

/-- Callbacks may publish, and unsubscribe what is not there: with such callbacks a
run is one of the client that calls them all at once, and the listener can come out
of its loop. Once a callback has subscribed, or unsubscribed what is there, it is
the last one that has been called. -/
theorem callbacks_call_back {log : List Event}
    (h : exec (logged (callingStep cfg) stands) (Reentrant.start, []) events = some (s, log)) :
    (Guarded (callingStep cfg) CallsFreely Reentrant.start events →
      exec (step cfg) {} log = some s.view ∧
      ∃ more, exec (callingStep cfg) s more = some ⟨s.view, .outside⟩) ∧
    (¬Guarded (callingStep cfg) CallsFreely Reentrant.start events →
      ∀ more t, exec (callingStep cfg) s more = some t →
        (∃ left, t.calling = .blocked left) ∧ Frozen s t) := by
  have hstart : Reentrant.start.Inv := inv_outside rfl
  constructor
  · intro hfreely
    have hunblocked : ∀ left, Reentrant.start.calling ≠ .blocked left := by simp [Reentrant.start]
    have hviewed := viewed_run freely_step ⟨hstart, hunblocked⟩ hfreely h
    exact ⟨hviewed.2, ends_of_unblocked hviewed.1.2⟩
  · intro hlocks more t ht
    have hrun := exec_of_logged h
    obtain ⟨left, hblocked⟩ := blocked_of_run hstart hlocks hrun
    have hs : s.Inv := inv_of_exec hstart (fun _ _ _ hu hv => calling_inv hu hv) hrun
    have hfrozen := frozen_of_run hs hblocked ht
    exact ⟨⟨left, hfrozen.calling.trans hblocked⟩, hfrozen⟩

end Runs

/-- A subscription whose callback has begun. -/
def callbackBegun : List CallingEvent :=
  [.api (.subscribe 1), .api .store, .api .start, .api .wait, .listener (.connect true 0),
    .listener (.setConsumer 0), .listener .notify, .api .resume,
    .deliver ⟨ofString "MESSAGE", [ofString "one"]⟩, .listener .receive, .listener .checkStop,
    .lock, .call]

/-- A callback cannot unsubscribe itself. -/
theorem unsubscribing_itself_freezes :
    ∃ s log, exec (logged (callingStep localBroker) stands) (Reentrant.start, [])
        (callbackBegun ++ [.back (.unsubscribe 1)]) = some (s, log) ∧
      s.client.invoked.length = 1 ∧
      ∀ more t, exec (callingStep localBroker) s more = some t → Frozen s t := by
  have hrun : ∃ s log, exec (logged (callingStep localBroker) stands) (Reentrant.start, [])
        (callbackBegun ++ [.back (.unsubscribe 1)]) = some (s, log) ∧
      s.client.invoked.length = 1 := ⟨_, _, rfl, rfl⟩
  obtain ⟨s, log, h, hinvoked⟩ := hrun
  refine ⟨s, log, h, hinvoked, ?_⟩
  intro more t ht
  refine ((callbacks_call_back h).2 ?_ more t ht).2
  intro hfreely
  have hbegun : ∃ u v, exec (callingStep localBroker) Reentrant.start callbackBegun = some u ∧
      callingStep localBroker u (.back (.unsubscribe 1)) = some v ∧
      Back.locks u.client (.unsubscribe 1) = true := ⟨_, _, rfl, rfl, rfl⟩
  obtain ⟨u, v, hu, hv, hlocks⟩ := hbegun
  have hlast := ((along_append.mp hfreely).2 u hu v hv).1 _ rfl
  rw [hlocks] at hlast
  contradiction

end FtyCommonMlm.MlmStreamClient
