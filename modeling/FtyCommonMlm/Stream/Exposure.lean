import FtyCommonMlm.Stream.Broker

namespace FtyCommonMlm.MlmStreamClient
open Runs
open Bytes (ofString)

/-- What a callback was given is no SYNC message, and somebody gave it to
`publish`. -/
def Invocation.FromPublish (published : List (List Bytes)) (v : Invocation) : Prop :=
  v.subject ≠ ofString "SYNC" ∧ v.payload ∈ published

def World.FromPublish (w : World) : Prop :=
  ∀ i, ∀ v ∈ (w.clients i).invoked, v.FromPublish w.published

/-- A message that is not for callbacks: a SYNC message, or strings that nobody
has given to `publish`. -/
def Stray (published : List (List Bytes)) (m : StreamMsg) : Prop :=
  m.subject = ofString "SYNC" ∨ m.frames.map Bytes.cStr ∉ published

/-- The listener comes to its next message, if no call of malamute fails. -/
def Listener.alive : Listener → Bool
  | .started | .connected | .consuming | .polling | .received _ | .checked _ => true
  | _ => false

/-- A client whose callbacks will get what comes to its listener, unless the
calling thread does something about it. -/
structure Client.Hears (c : Client) : Prop where
  alive : c.listener.alive = true
  registered : c.callbacks.isEmpty = false
  goesOn : c.stopRequested = false
  free : c.mutexFree = true

/-- A stray message is on the stream, or with the listener, of a client that
hears. -/
def World.Exposed (w : World) : Prop :=
  ∃ j, (w.clients j).Hears ∧
    ∃ m, (m ∈ w.bus ∨ m ∈ (w.clients j).held) ∧ Stray w.published m

/-- It hears further on in its loop as well. -/
theorem Client.Hears.moved {c : Client} (h : c.Hears) (listener : Listener)
    (queue : List StreamMsg) (hl : listener.alive = true) :
    ({ c with listener := listener, queue := queue } : Client).Hears :=
  ⟨hl, h.registered, h.goesOn, h.free⟩

theorem held_of_checked {c : Client} {m : StreamMsg} (hl : c.listener = .checked m) :
    m ∈ c.held := by
  rw [Client.held, hl]
  exact List.mem_cons_self

/-- The broker and the listeners go on, while nobody calls a client. -/
def WorldEvent.Onward : WorldEvent → Prop
  | .listener _ _ | .broadcast => True
  | .api _ _ | .publish _ _ _ => False

/-- The listener of a client with callbacks is behind its stop check with a stray
message only if no stop is requested. -/
structure Client.Quiet (published : List (List Bytes)) (c : Client) : Prop where
  subscribing : ∀ callback, c.api = .subscribing callback → c.stopRequested = false
  checked : ∀ m, c.listener = .checked m → Stray published m → c.callbacks.isEmpty = false →
    c.stopRequested = false

theorem Client.Quiet.mono {published more : List (List Bytes)} {c : Client}
    (h : c.Quiet published) : c.Quiet (published ++ more) := by
  refine ⟨h.subscribing, ?_⟩
  intro m hl hstray
  exact h.checked m hl (hstray.imp_right fun hm hin => hm (List.mem_append_left _ hin))

section Steps

variable {cfg : Config} {published : List (List Bytes)} {c d : Client} {m : StreamMsg}

theorem Client.Quiet.of_same (hc : c.Quiet published)
    (hapi : ∀ callback, d.api = .subscribing callback → c.api = .subscribing callback)
    (hlistener : ∀ m, d.listener = .checked m → c.listener = .checked m)
    (hcallbacks : d.callbacks.isEmpty = false → c.callbacks.isEmpty = false)
    (hflag : d.stopRequested = c.stopRequested) : d.Quiet published := by
  refine ⟨?_, ?_⟩
  · intro callback h
    rw [hflag]
    exact hc.subscribing callback (hapi callback h)
  · intro m hl hstray hne
    rw [hflag]
    exact hc.checked m (hlistener m hl) hstray (hcallbacks hne)

theorem Client.Quiet.destroyMembers (hc : c.Quiet published) :
    c.destroyMembers.Quiet published := by
  refine hc.of_same ?_ (fun _ hl => hl) id rfl
  cases hj : c.joinable <;> simp [Client.destroyMembers, hj]

theorem Client.Quiet.stopped (hc : c.Quiet published) (who : Stopper) (r : Except Error Unit) :
    (c.stopped who r).Quiet published := by
  cases who with
  | unsubscribe subId =>
    exact hc.of_same (by simp [Client.stopped, Client.finish]) (fun _ hl => hl) id rfl
  | destructor =>
    cases r with
    | error e => exact hc.of_same (by simp [Client.stopped]) (fun _ hl => hl) id rfl
    | ok _ => exact hc.destroyMembers

/-- A stop is requested of a client with callbacks by its destructor only, when
nothing stray is with its listener. -/
theorem ApiMove.quiet {e : ApiEvent} (h : ApiMove cfg c e d) (hc : c.Quiet published)
    (hexposed : ∀ m ∈ c.held, Stray published m → ¬ c.Hears) : d.Quiet published := by
  cases h with
  | subscribe callback h => exact ⟨fun _ _ => rfl, fun _ _ _ _ => rfl⟩
  | store callback h =>
    have hflag := hc.subscribing callback h
    exact ⟨fun _ _ => hflag, fun _ _ _ _ => hflag⟩
  | spawn h hj => exact hc.of_same (by simp) (by simp) id rfl
  | erase subId h =>
    exact hc.of_same (by simp) (fun _ hl => hl)
      Std.TreeMap.isEmpty_eq_false_of_isEmpty_erase_eq_false rfl
  | stop subId h he =>
    refine ⟨by simp, ?_⟩
    intro m hl hstray (hne : c.callbacks.isEmpty = false)
    rw [he] at hne
    contradiction
  | destroyStop h he =>
    refine ⟨by simp, ?_⟩
    intro m (hl : c.listener = .checked m) hstray _
    have hears : c.Hears := ⟨by rw [hl]; rfl, he, hc.checked m hl hstray he,
      by simp [Client.mutexFree, h]⟩
    exact absurd hears (hexposed m (held_of_checked hl) hstray)
  | notSent who rc e h hm => exact hc.stopped who (.error e)
  | notJoinable who h hj => exact hc.stopped who (.error .notJoinable)
  | join who h hj hl =>
    have hjoined : ({ c with joinable := false, listener := .absent } : Client).Quiet published :=
      hc.of_same (fun _ => id) (by simp) id rfl
    exact hjoined.stopped who (.ok ())
  | destroy h he => exact hc.destroyMembers
  | _ => exact hc.of_same (by simp [Client.finish]) (fun _ hl => hl) id rfl

theorem ListenerMove.quiet {e : ListenerEvent} (h : ListenerMove cfg c e d)
    (hc : c.Quiet published) : d.Quiet published := by
  have hapi : ∀ callback, d.api = .subscribing callback → c.api = .subscribing callback := by
    intro callback hd
    rcases h.api with hsame | ⟨_, hk⟩
    · rwa [hsame] at hd
    · rw [hk] at hd
      contradiction
  cases h with
  | pass m h hs => exact ⟨fun _ _ => hs, fun _ _ _ _ => hs⟩
  | _ => exact hc.of_same hapi (by simp) id rfl

/-- What the listener does never makes a client hear. -/
theorem ListenerMove.hears {e : ListenerEvent} (h : ListenerMove cfg c e d) (hd : d.Hears) :
    c.Hears := by
  have hfree : c.mutexFree = true := by
    have hfree := hd.free
    unfold Client.mutexFree at hfree ⊢
    rcases h.api with hsame | ⟨hw, _⟩
    · rwa [hsame] at hfree
    · rw [hw]
  have hflag : d.stopRequested = c.stopRequested := by cases h <;> rfl
  refine ⟨?_, h.keeps.1 ▸ hd.registered, hflag ▸ hd.goesOn, hfree⟩
  have halive := hd.alive
  cases h with
  | fail client rc e h | failConsumer rc e h | notifyError h | transfer e h | receiveNull h
  | leave m h hs | leaveNull h hs | abort h hs | interrupt h => contradiction
  | connect client rc h | setConsumer rc h | notify h | receive m queue h hq | pass m h hs
  | dispatch ends m h hf =>
    rw [h]
    rfl

theorem deliver_hears (h : (c.deliver m).Hears) : c.Hears := by
  obtain ⟨queue, hq, _⟩ := deliver_eq c m
  rw [hq] at h
  exact ⟨h.alive, h.registered, h.goesOn, h.free⟩

theorem deliver_quiet (hc : c.Quiet published) : (c.deliver m).Quiet published := by
  obtain ⟨queue, hq, _⟩ := deliver_eq c m
  rw [hq]
  exact ⟨hc.subscribing, hc.checked⟩

end Steps

/-- What holds as long as no state was exposed. -/
structure World.Quiet (w : World) : Prop where
  fromPublish : w.FromPublish
  clients : ∀ i, (w.clients i).Quiet w.published

theorem start_quiet : World.start.Quiet := by
  refine ⟨?_, fun i => ⟨?_, ?_⟩⟩
  · intro i v hv
    contradiction
  · intro callback h
    contradiction
  · intro m h
    contradiction

section Worlds

variable {cfg : Nat → Config} {w x : World}

theorem Invocation.FromPublish.mono {published more : List (List Bytes)} {v : Invocation}
    (h : v.FromPublish published) : v.FromPublish (published ++ more) :=
  ⟨h.1, List.mem_append_left _ h.2⟩

theorem dispatch_fromPublish {i : Nat} {m : StreamMsg} (hw : w.Quiet) (hexposed : ¬ w.Exposed)
    (hl : (w.clients i).listener = .checked m) (hfree : (w.clients i).mutexFree = true) :
    ∀ v ∈ ((w.clients i).handed (m.frames.map Bytes.cStr) m.subject).invoked,
      v.FromPublish w.published := by
  intro v hv
  rcases List.mem_append.mp hv with hv | hv
  · exact hw.fromPublish i v hv
  · obtain ⟨item, hitem, rfl⟩ := List.mem_map.mp hv
    have hne : (w.clients i).callbacks.isEmpty = false := by
      rw [← Std.TreeMap.isEmpty_toList, List.isEmpty_eq_false_iff]
      exact List.ne_nil_of_mem hitem
    have hnot : ¬ Stray w.published m := by
      intro hstray
      have hflag := (hw.clients i).checked m hl hstray hne
      exact hexposed ⟨i, ⟨by rw [hl]; rfl, hne, hflag, hfree⟩, m, Or.inr (held_of_checked hl),
        hstray⟩
    obtain ⟨hsync, hpublished⟩ := not_or.mp hnot
    exact ⟨hsync, not_not.mp hpublished⟩

theorem quiet_of_step {e : WorldEvent} (hw : w.Quiet) (hexposed : ¬ w.Exposed)
    (h : worldStep cfg w e = some x) : x.Quiet := by
  cases e with
  | api i e =>
    obtain ⟨c, hc, rfl⟩ := Option.map_eq_some_iff.mp h
    refine ⟨?_, update_forall (P := Client.Quiet w.published) hw.clients ?_⟩
    · apply update_forall (P := fun c => ∀ v ∈ c.invoked, v.FromPublish w.published) hw.fromPublish
      rw [(apiStep_moves hc).held.1]
      exact hw.fromPublish i
    · apply (apiStep_moves hc).quiet (hw.clients i)
      intro m hm hstray hears
      exact hexposed ⟨i, hears, m, Or.inr hm, hstray⟩
  | listener i e =>
    obtain ⟨c, hc, rfl⟩ := Option.map_eq_some_iff.mp h
    have hmove := listenerStep_moves hc
    refine ⟨?_, update_forall (P := Client.Quiet w.published) hw.clients
      (hmove.quiet (hw.clients i))⟩
    apply update_forall (P := fun c => ∀ v ∈ c.invoked, v.FromPublish w.published) hw.fromPublish
    cases hmove with
    | dispatch ends m hl hf => exact dispatch_fromPublish hw hexposed hl hf
    | _ => exact hw.fromPublish i
  | publish i payload rc =>
    cases h
    exact ⟨fun j v hv => (hw.fromPublish j v hv).mono, fun j => (hw.clients j).mono⟩
  | broadcast =>
    simp only [worldStep] at h
    split at h
    · contradiction
    · rename_i m bus hbus
      cases h
      exact ⟨fun j v hv => hw.fromPublish j v ((deliver_held (w.clients j) m).1 ▸ hv),
        fun j => deliver_quiet (hw.clients j)⟩

/-- Nothing becomes exposed while nobody calls a client. -/
theorem unexposed_of_onward {e : WorldEvent} (honward : e.Onward)
    (h : worldStep cfg w e = some x) (hx : x.Exposed) : w.Exposed := by
  obtain ⟨j, hears, m, hm, hstray⟩ := hx
  cases e with
  | api i e | publish i payload rc => exact False.elim honward
  | listener i e =>
    obtain ⟨c, hc, rfl⟩ := Option.map_eq_some_iff.mp h
    have hmove := listenerStep_moves hc
    by_cases hj : j = i
    · subst hj
      simp only [Function.update_self] at hears hm
      exact ⟨j, hmove.hears hears, m, hm.imp_right (hmove.held m), hstray⟩
    · simp only [Function.update_of_ne hj] at hears hm
      exact ⟨j, hears, m, hm, hstray⟩
  | broadcast =>
    simp only [worldStep] at h
    split at h
    · contradiction
    · rename_i m' bus hbus
      cases h
      refine ⟨j, deliver_hears hears, m, ?_, hstray⟩
      rw [hbus]
      rcases hm with hm | hm
      · exact Or.inl (List.mem_cons_of_mem _ hm)
      · rcases (deliver_held (w.clients j) m').2 m hm with hold | rfl
        · exact Or.inr hold
        · exact Or.inl List.mem_cons_self

theorem fromPublish_of_unexposed {onward : List WorldEvent} (hw : w.Quiet)
    (hexposed : ¬ w.Exposed) (honward : ∀ e ∈ onward, e.Onward)
    (h : exec (worldStep cfg) w onward = some x) : x.FromPublish := by
  induction onward generalizing w with
  | nil =>
    cases h
    exact hw.fromPublish
  | cons e onward ih =>
    obtain ⟨y, hy, hx⟩ := exec_cons.mp h
    have hstays := fun hy' => hexposed (unexposed_of_onward (honward e List.mem_cons_self) hy hy')
    exact ih (quiet_of_step hw hexposed hy) hstays
      (fun e he => honward e (List.mem_cons_of_mem _ he)) hx

end Worlds

section Onward

variable {cfg : Config} {c : Client} {m : StreamMsg} {queue : List StreamMsg}

/-- A callback has been called with the message. -/
def Client.Told (c : Client) (m : StreamMsg) : Prop :=
  ∃ v ∈ c.invoked, v.subject = m.subject ∧ v.payload = m.frames.map Bytes.cStr

/-- The client behind the dispatch of a message, with what is in the queue then. -/
def Client.through (c : Client) (m : StreamMsg) (queue : List StreamMsg) : Client :=
  { c.handed (m.frames.map Bytes.cStr) m.subject with listener := .polling, queue := queue }

theorem Client.Hears.through (h : c.Hears) (m : StreamMsg) (queue : List StreamMsg) :
    (c.through m queue).Hears :=
  ⟨rfl, h.registered, h.goesOn, h.free⟩

theorem told_through (h : c.Hears) : (c.through m queue).Told m := by
  have hne := h.registered
  rw [← Std.TreeMap.isEmpty_toList] at hne
  cases hl : c.callbacks.toList with
  | nil => simp [hl] at hne
  | cons item items =>
    refine ⟨⟨item.1, item.2, m.frames.map Bytes.cStr, m.subject⟩, ?_, rfl, rfl⟩
    simp [Client.through, Client.handed, hl]

theorem exec_checked (h : c.Hears) (hl : c.listener = .checked m) :
    exec (listenerStep cfg) c [.dispatch] = some (c.through m c.queue) := by
  simp [exec, listenerStep, hl, h.free, collect_eq, process_eq, Client.through, Client.handed]

theorem exec_received (h : c.Hears) (hl : c.listener = .received m) :
    exec (listenerStep cfg) c [.checkStop, .dispatch] = some (c.through m c.queue) := by
  have hpass : listenerStep cfg c .checkStop = some { c with listener := .checked m } := by
    simp [listenerStep, hl, h.goesOn]
  rw [exec, hpass, Option.bind_some]
  exact exec_checked (h.moved (.checked m) c.queue rfl) rfl

theorem exec_queued (cfg : Config) (h : c.Hears) (hl : c.listener = .polling)
    (hq : c.queue = m :: queue) :
    exec (listenerStep cfg) c [.receive, .checkStop, .dispatch] = some (c.through m queue) := by
  have hreceive : listenerStep cfg c .receive =
      some { c with listener := .received m, queue := queue } := by
    simp [listenerStep, hl, hq]
  rw [exec, hreceive, Option.bind_some]
  exact exec_received (h.moved (.received m) queue rfl) rfl

theorem notify_hears (h : c.Hears) : ({ c.notify with listener := .polling } : Client).Hears := by
  refine ⟨rfl, h.registered, h.goesOn, ?_⟩
  by_cases hw : c.api = .waiting
  · simp [Client.mutexFree, Client.notify, hw]
  · simpa [Client.mutexFree, Client.notify, hw] using h.free

/-- A listener comes to its poll, and what it had in hand has been told. -/
theorem comes_to_poll (cfg : Config) (h : c.Hears) : ∃ es d,
    exec (listenerStep cfg) c es = some d ∧ d.Hears ∧ d.listener = .polling ∧
      ∀ m ∈ c.held, m ∈ d.queue ∨ d.Told m := by
  have hqueued : ∀ d : Client, d.queue = c.queue → c.listener.inHand = [] →
      ∀ m ∈ c.held, m ∈ d.queue ∨ d.Told m := by
    intro d hqueue hnone m hm
    rw [Client.held, hnone] at hm
    exact Or.inl (hqueue ▸ hm)
  have htold : ∀ m, c.listener.inHand = [m] →
      ∀ m' ∈ c.held, m' ∈ (c.through m c.queue).queue ∨ (c.through m c.queue).Told m' := by
    intro m hone m' hm
    rw [Client.held, hone] at hm
    rcases List.mem_cons.mp hm with rfl | hm
    · exact Or.inr (told_through h)
    · exact Or.inl hm
  have halive := h.alive
  cases hl : c.listener with
  | started =>
    exact ⟨[.connect true 0, .setConsumer 0, .notify], _, by simp [exec, listenerStep, hl],
      notify_hears (h.moved .consuming c.queue rfl), rfl, hqueued _ rfl (by rw [hl]; rfl)⟩
  | connected =>
    exact ⟨[.setConsumer 0, .notify], _, by simp [exec, listenerStep, hl],
      notify_hears (h.moved .consuming c.queue rfl), rfl, hqueued _ rfl (by rw [hl]; rfl)⟩
  | consuming =>
    exact ⟨[.notify], _, by simp [exec, listenerStep, hl], notify_hears h, rfl,
      hqueued _ rfl (by rw [hl]; rfl)⟩
  | polling => exact ⟨[], c, rfl, h, hl, hqueued c rfl (by rw [hl]; rfl)⟩
  | received m =>
    exact ⟨[.checkStop, .dispatch], _, exec_received h hl, h.through _ _, rfl,
      htold m (by rw [hl]; rfl)⟩
  | checked m =>
    exact ⟨[.dispatch], _, exec_checked h hl, h.through _ _, rfl, htold m (by rw [hl]; rfl)⟩
  | _ =>
    rw [hl] at halive
    contradiction

/-- A message in the queue of a listener that polls is told when those ahead of it
have been. -/
theorem told_of_queue (cfg : Config) (h : c.Hears) (hl : c.listener = .polling)
    (hm : m ∈ c.queue) : ∃ es d, exec (listenerStep cfg) c es = some d ∧ d.Told m := by
  generalize hq : c.queue = queue at hm
  induction queue generalizing c with
  | nil => contradiction
  | cons m' queue ih =>
    have hturn := exec_queued cfg h hl hq
    rcases List.mem_cons.mp hm with rfl | hm
    · exact ⟨_, _, hturn, told_through h⟩
    · obtain ⟨es, d, hd, htold⟩ := ih (h.through m' queue) rfl rfl hm
      exact ⟨_, d, exec_append.mpr ⟨_, hturn, hd⟩, htold⟩

end Onward

section Exposed

variable {cfg : Nat → Config} {w : World}

/-- One listener goes on by itself. -/
theorem exec_listener (cfg : Nat → Config) (w : World) {j : Nat} {d : Client}
    {es : List ListenerEvent}
    (h : exec (listenerStep (cfg j)) (w.clients j) es = some d) :
    exec (worldStep cfg) w (es.map (.listener j)) =
      some { w with clients := Function.update w.clients j d } := by
  induction es generalizing w with
  | nil =>
    cases h
    rw [List.map_nil, exec, Function.update_eq_self]
  | cons e es ih =>
    obtain ⟨c, hc, hd⟩ := exec_cons.mp h
    have hstep : worldStep cfg w (.listener j e) =
        some { w with clients := Function.update w.clients j c } := by
      rw [worldStep, hc, Option.map_some]
    have hrest := ih { w with clients := Function.update w.clients j c } (by simpa using hd)
    rw [List.map_cons, exec, hstep, Option.bind_some, hrest, Function.update_idem]

/-- The broker hands out all that is on the stream. -/
theorem exec_broadcast (cfg : Nat → Config) (clients : Nat → Client) (bus : List StreamMsg)
    (published : List (List Bytes)) :
    exec (worldStep cfg) ⟨clients, bus, published⟩ (bus.map fun _ => .broadcast) =
      some ⟨fun i => bus.foldl Client.deliver (clients i), [], published⟩ := by
  induction bus generalizing clients with
  | nil => rfl
  | cons m bus ih =>
    rw [List.map_cons, exec, worldStep, Option.bind_some, ih]
    rfl

theorem delivered_polling {c : Client} (hl : c.listener = .polling) (bus : List StreamMsg) :
    bus.foldl Client.deliver c = { c with queue := c.queue ++ bus } := by
  induction bus generalizing c with
  | nil => simp
  | cons m bus ih =>
    have hm : c.deliver m = { c with queue := c.queue ++ [m] } := by
      simp [Client.deliver, hl, Listener.consumes]
    have hrest := ih (c := { c with queue := c.queue ++ [m] }) hl
    rw [List.foldl_cons, hm, hrest, List.append_assoc]
    rfl

theorem onward_listener (j : Nat) (es : List ListenerEvent) :
    ∀ e ∈ es.map (WorldEvent.listener j), e.Onward := by
  intro e he
  obtain ⟨_, _, rfl⟩ := List.mem_map.mp he
  trivial

/-- From an exposed state the listeners and the broker come to where a callback
has been called with a stray message. -/
theorem stray_told (cfg : Nat → Config) (h : w.Exposed) : ∃ onward x,
    (∀ e ∈ onward, e.Onward) ∧ exec (worldStep cfg) w onward = some x ∧ ¬ x.FromPublish := by
  obtain ⟨j, hears, m, hm, hstray⟩ := h
  have hnot : ∀ x : World, x.published = w.published → (x.clients j).Told m → ¬ x.FromPublish := by
    intro x hpublished htold hfrom
    obtain ⟨v, hv, hsubject, hpayload⟩ := htold
    obtain ⟨hsync, hmem⟩ := hfrom j v hv
    rw [hsubject] at hsync
    rw [hpayload, hpublished] at hmem
    exact hstray.elim hsync fun hn => hn hmem
  obtain ⟨es, d, hd, hdhears, hpolling, hheld⟩ := comes_to_poll (cfg j) hears
  have hpoll := exec_listener cfg w hd
  have hall := exec_broadcast cfg (Function.update w.clients j d) w.bus w.published
  have hj : w.bus.foldl Client.deliver (Function.update w.clients j d j) =
      { d with queue := d.queue ++ w.bus } := by
    rw [Function.update_self, delivered_polling hpolling]
  have honward : ∀ e ∈ es.map (WorldEvent.listener j) ++ w.bus.map (fun _ => .broadcast),
      e.Onward := by
    intro e he
    rcases List.mem_append.mp he with he | he
    · exact onward_listener j es e he
    · obtain ⟨_, _, rfl⟩ := List.mem_map.mp he
      trivial
  have hrun := exec_append.mpr ⟨_, hpoll, hall⟩
  by_cases htold : d.Told m
  · refine ⟨_, _, honward, hrun, hnot _ rfl ?_⟩
    dsimp only
    rw [hj]
    exact htold
  · have hqueue : m ∈ d.queue ++ w.bus := by
      rcases hm with hm | hm
      · exact List.mem_append_right _ hm
      · exact List.mem_append_left _ ((hheld m hm).resolve_right htold)
    obtain ⟨rest, d', hd', htold'⟩ := told_of_queue (cfg j)
      (hdhears.moved d.listener (d.queue ++ w.bus) hdhears.alive) hpolling hqueue
    rw [← hj] at hd'
    have hlast := exec_listener cfg
      ⟨fun i => w.bus.foldl Client.deliver (Function.update w.clients j d i), [], w.published⟩ hd'
    refine ⟨_, _, ?_, exec_append.mpr ⟨_, hrun, hlast⟩, hnot _ rfl ?_⟩
    · intro e he
      rcases List.mem_append.mp he with he | he
      · exact honward e he
      · exact onward_listener j rest e he
    · dsimp only
      rw [Function.update_self]
      exact htold'

end Exposed

/-- What is stray on the stream and at the listeners is a SYNC message, or has lost
the end of a string. -/
def World.StraysKnown (w : World) : Prop :=
  ∀ m, (m ∈ w.bus ∨ ∃ j, m ∈ (w.clients j).held) → Stray w.published m →
    m.subject = ofString "SYNC" ∨
      ∃ payload ∈ w.published, m = ⟨ofString "MESSAGE", payload.map Bytes.cStr⟩ ∧
        ∃ s ∈ payload, ¬ s.NoNul

theorem Traffic.straysKnown {w : World} (h : Traffic w) : w.StraysKnown := by
  intro m hm hstray
  have hknown : Known w.published m := by
    rcases hm with hm | ⟨j, hm⟩
    · exact h.bus m hm
    · exact h.held j m hm
  rcases hstray with hsync | hlost
  · exact Or.inl hsync
  · rcases hknown with hsync | ⟨payload, hp, rfl⟩
    · exact Or.inl hsync
    · refine Or.inr ⟨payload, hp, rfl, ?_⟩
      by_contra hnone
      have hnul : ∀ s ∈ payload, s.NoNul := by
        intro s hs
        by_contra hn
        exact hnone ⟨s, hs, hn⟩
      rw [Bytes.map_cStr_map_cStr, Bytes.map_cStr_eq_self_iff.mpr hnul] at hlost
      exact hlost hp

/-- In every run of any number of clients, the callbacks get only what was
published, however the broker and the listeners go on from any of its states, just
in case no state of the run has a stray message on the way to a client that hears. -/
theorem from_publish_iff_unexposed (cfg : Nat → Config) (events : List WorldEvent) :
    (Always (worldStep cfg) (fun w => ∀ onward x, (∀ e ∈ onward, e.Onward) →
        exec (worldStep cfg) w onward = some x → x.FromPublish) World.start events ↔
      Always (worldStep cfg) (fun w => ¬ w.Exposed) World.start events) ∧
    Always (worldStep cfg) World.StraysKnown World.start events := by
  refine ⟨⟨?_, ?_⟩, ?_⟩
  · intro h
    refine h.mono ?_
    intro w hw hexposed
    obtain ⟨onward, x, honward, hx, hnot⟩ := stray_told cfg hexposed
    exact hnot (hw onward x honward hx)
  · intro h
    refine (always_and start_quiet (fun _ _ _ => quiet_of_step) h).mono ?_
    intro w hgiven onward x honward hx
    obtain ⟨hw, hexposed⟩ := hgiven
    exact fromPublish_of_unexposed hw hexposed honward hx
  · exact (always_of_inv start_traffic fun _ _ _ hw hx => traffic_of_step hw hx).mono
      fun w hw => hw.straysKnown

/-- One client's `unsubscribe` wakes the listener of another. -/
def syncHeardRun : List WorldEvent :=
  subscribing 0 1 ++ subscribing 1 2 ++
    [.api 0 (.unsubscribe 1), .api 0 .erase, .api 0 .check, .api 0 (.sync {}), .broadcast,
      .listener 1 .receive, .listener 1 .checkStop, .listener 1 .dispatch]

theorem sync_handed_to_callback :
    ∃ x, exec (worldStep (fun _ => localBroker)) World.start syncHeardRun = some x ∧
      x.published = [] ∧ (x.clients 1).invoked = [⟨1, 2, [], ofString "SYNC"⟩] :=
  ⟨_, rfl, rfl, rfl⟩

end FtyCommonMlm.MlmStreamClient
