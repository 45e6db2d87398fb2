import FtyCommonMlm.Lib.Ledger
import FtyCommonMlm.Stream.Moves

namespace FtyCommonMlm.MlmStreamClient
open Runs Ledger
open Bytes (ofString)

/-- What the threads of a client create, by the number of the listener thread,
the message received or the message sent. -/
inductive Resource
  | listenerClient (thread : Nat)
  | poller (thread : Nat)
  | message (n : Nat)
  | frame (n index : Nat)
  | publisher (n : Nat)
  | notification (n : Nat)
deriving DecidableEq

/-- A client, and how many listener threads have been started, how many messages
received and how many sent. -/
structure Counted where
  client : Client := {}
  threads : Nat := 0
  messages : Nat := 0
  sent : Nat := 0

/-- What happens to a client; any thread may publish until it is destroyed, or the
process has ended. -/
inductive Activity
  | client (e : Event)
  | publish (payload : List Bytes) (rc : Calls)

def Counted.step (cfg : Config) (s : Counted) : Activity → Option Counted
  | .client e => (MlmStreamClient.step cfg s.client e).map fun client =>
    { client := client
      threads := match e with
        | .api .start => if s.client.joinable then s.threads else s.threads + 1
        | _ => s.threads
      messages := match e with
        | .listener .receive => s.messages + 1
        | _ => s.messages
      sent := match e with
        | .api (.sync _) => s.sent + 1
        | _ => s.sent }
  | .publish _ _ =>
    if s.client.api = .destroyed ∨ s.client.api = .terminated ∨ s.client.listener = .aborted then
      none
    else some { s with sent := s.sent + 1 }

/-- What `publishOnBus` does with its client and its notification. -/
def publication (n : Nat) (payload : List Bytes) (rc : Calls) (taken : Bool) :
    List (Entry Resource) :=
  -- mlm_client_destroy ignores the null client
  if ¬ rc.client then [] else
  [.made (.publisher n), .used (.publisher n)] ++
  if rc.connect ≠ 0 then [.destroyed (.publisher n)] else
  [.used (.publisher n)] ++
  if rc.setProducer ≠ 0 then [.destroyed (.publisher n)] else
  .made (.notification n) :: payload.map (fun _ => .used (.notification n)) ++
  [.used (.publisher n), .used (.notification n)] ++
  (if taken then [.passed (.notification n)] else []) ++
  -- zmsg_destroy finds null where the message has been taken
  (if rc.send ≠ 0 ∧ ¬ taken then [.destroyed (.notification n)] else []) ++
  [.destroyed (.publisher n)]

/-- The strings of the listener's loop over the frames. -/
def collected (n size : Nat) : List (Entry Resource) :=
  (List.range size).flatMap fun i =>
    [.used (.message n), .made (.frame n i), .used (.frame n i), .destroyed (.frame n i)]

def listenerEntries (s : Counted) : ListenerEvent → List (Entry Resource)
  | .connect client _ =>
    if ¬ client then []
    else [.made (.listenerClient s.threads), .used (.listenerClient s.threads)]
  | .setConsumer rc =>
    .used (.listenerClient s.threads) ::
      if rc ≠ 0 then [] else [.used (.listenerClient s.threads), .made (.poller s.threads)]
  | .notify =>
    match s.client.listener with
    -- the end of the function, behind the catch block
    | .caught =>
      if s.client.exPtr = some .nullClient then [] else [.destroyed (.listenerClient s.threads)]
    | _ => []
  | .transfer => []
  | .receive =>
    [.used (.poller s.threads), .used (.listenerClient s.threads),
      .made (.message (s.messages + 1))]
  | .receiveNull => [.used (.poller s.threads), .used (.listenerClient s.threads)]
  | .checkStop =>
    if s.client.stopRequested then
      -- zmsg_destroy ignores the null message
      (if s.client.listener = .receivedNull then [] else [.destroyed (.message s.messages)]) ++
        [.destroyed (.poller s.threads), .destroyed (.listenerClient s.threads)]
    else []
  | .dispatch _ =>
    match s.client.listener with
    | .checked m =>
      .used (.message s.messages) :: collected s.messages m.frames.size ++
        [.destroyed (.message s.messages)]
    | _ => []
  | .interrupt => [.destroyed (.poller s.threads), .destroyed (.listenerClient s.threads)]

/-- `taken` says whether `mlm_client_send` has taken the message it was given. -/
def entries (taken : Nat → Calls → Bool) (s : Counted) : Activity → List (Entry Resource)
  | .client (.api (.sync rc)) => publication (s.sent + 1) [] rc (taken (s.sent + 1) rc)
  | .client (.listener e) => listenerEntries s e
  | .publish payload rc => publication (s.sent + 1) payload rc (taken (s.sent + 1) rc)
  | _ => []

/-- The life of the client of the listener's thread. -/
def Listener.ClientLife (exPtr : Option Error) : Listener → Life → Prop
  | .started, l => l = .unmade
  | .failing e, l => l = if e = .nullClient then .unmade else .alive
  | .caught, l => l = if exPtr = some .nullClient then .unmade else .alive
  | .absent, l | .left, l | .failed, l => l ≠ .alive
  | _, l => l = .alive

def Listener.PollerLife : Listener → Life → Prop
  | .started, l | .connected, l | .failing _, l | .caught, l => l = .unmade
  | .absent, l | .left, l | .failed, l => l ≠ .alive
  | _, l => l = .alive

/-- The lives of the message in hand and of its frames. -/
def Listener.MessageLife : Listener → Life → Prop
  | .received _, l | .checked _, l => l = .alive
  | _, l => l ≠ .alive

def Listener.FrameLife : Listener → Life → Prop
  | .received _, l | .checked _, l => l = .unmade
  | _, l => l ≠ .alive

/-- The lives a state allows. -/
def Counted.Allows (s : Counted) : Resource → Life → Prop
  | .listenerClient n, l => UpTo s.threads (s.client.listener.ClientLife s.client.exPtr) n l
  | .poller n, l => UpTo s.threads s.client.listener.PollerLife n l
  | .message n, l => UpTo s.messages s.client.listener.MessageLife n l
  | .frame n _, l => UpTo s.messages s.client.listener.FrameLife n l
  | .publisher n, l | .notification n, l => UpTo s.sent (fun l => l ≠ .alive) n l

section Listener

variable {cfg : Config} {s : Counted} {d : Client} {e : ListenerEvent} {l : Life}

theorem mem_collected {n size : Nat} {entry : Entry Resource} (h : entry ∈ collected n size) :
    entry = .used (.message n) ∨ ∃ i, entry.object = .frame n i := by
  obtain ⟨i, _, hi⟩ := List.mem_flatMap.mp h
  simp only [List.mem_cons, List.not_mem_nil, or_false] at hi
  rcases hi with rfl | rfl | rfl | rfl
  · exact Or.inl rfl
  · exact Or.inr ⟨i, rfl⟩
  · exact Or.inr ⟨i, rfl⟩
  · exact Or.inr ⟨i, rfl⟩

/-- The frames that are there are made and destroyed. -/
theorem life_collected (n size i : Nat) :
    life (.frame n i) .unmade (collected n size) =
      some (if i < size then .gone else .unmade) := by
  induction size with
  | zero => rfl
  | succ size ih =>
    have hsnoc : collected n (size + 1) = collected n size ++
        [.used (.message n), .made (.frame n size), .used (.frame n size),
          .destroyed (.frame n size)] := by
      simp [collected, List.range_succ]
    rw [hsnoc, life_append, ih, Option.bind_some]
    by_cases hi : size = i
    · subst hi
      simp [Entry.object, Life.next]
    · have hlt : i < size + 1 ↔ i < size := by omega
      simp [Entry.object, hi, hlt]

theorem dispatch_object {ends : SubId → Except Error Unit} {entry : Entry Resource}
    (h : entry ∈ listenerEntries s (.dispatch ends)) :
    entry.object = .message s.messages ∨ ∃ i, entry.object = .frame s.messages i := by
  simp only [listenerEntries] at h
  split at h
  · simp only [List.mem_append, List.mem_cons, List.not_mem_nil, or_false] at h
    rcases h with (rfl | h) | rfl
    · exact Or.inl rfl
    · rcases mem_collected h with rfl | hframe
      · exact Or.inl rfl
      · exact Or.inr hframe
    · exact Or.inl rfl
  · contradiction

/-- The listener's entries are about what its own thread has. -/
theorem listenerEntries_object {entry : Entry Resource} (h : entry ∈ listenerEntries s e) :
    entry.object = .listenerClient s.threads ∨ entry.object = .poller s.threads ∨
      entry.object = .message s.messages ∨
      (e = .receive ∧ entry.object = .message (s.messages + 1)) ∨
      ((∃ ends, e = .dispatch ends) ∧ ∃ i, entry.object = .frame s.messages i) := by
  cases e with
  | connect client rc =>
    cases client <;> simp only [listenerEntries, not_true_eq_false, Bool.false_eq_true,
      not_false_eq_true, if_true, if_false, List.mem_cons, List.not_mem_nil, or_false] at h
    rcases h with rfl | rfl <;> exact Or.inl rfl
  | setConsumer rc =>
    simp only [listenerEntries, List.mem_cons] at h
    rcases h with rfl | h
    · exact Or.inl rfl
    · split at h
      · contradiction
      · simp only [List.mem_cons, List.not_mem_nil, or_false] at h
        rcases h with rfl | rfl
        · exact Or.inl rfl
        · exact Or.inr (Or.inl rfl)
  | notify =>
    simp only [listenerEntries] at h
    split at h
    · split at h
      · contradiction
      · rw [List.mem_singleton.mp h]
        exact Or.inl rfl
    · contradiction
  | transfer => contradiction
  | receive =>
    simp only [listenerEntries, List.mem_cons, List.not_mem_nil, or_false] at h
    rcases h with rfl | rfl | rfl
    · exact Or.inr (Or.inl rfl)
    · exact Or.inl rfl
    · exact Or.inr (Or.inr (Or.inr (Or.inl ⟨rfl, rfl⟩)))
  | receiveNull =>
    simp only [listenerEntries, List.mem_cons, List.not_mem_nil, or_false] at h
    rcases h with rfl | rfl
    · exact Or.inr (Or.inl rfl)
    · exact Or.inl rfl
  | checkStop =>
    simp only [listenerEntries] at h
    split at h
    · simp only [List.mem_append, List.mem_cons, List.not_mem_nil, or_false] at h
      rcases h with h | rfl | rfl
      · split at h
        · contradiction
        · rw [List.mem_singleton.mp h]
          exact Or.inr (Or.inr (Or.inl rfl))
      · exact Or.inr (Or.inl rfl)
      · exact Or.inl rfl
    · contradiction
  | dispatch ends =>
    rcases dispatch_object h with hmessage | hframe
    · exact Or.inr (Or.inr (Or.inl hmessage))
    · exact Or.inr (Or.inr (Or.inr (Or.inr ⟨⟨ends, rfl⟩, hframe⟩)))
  | interrupt =>
    simp only [listenerEntries, List.mem_cons, List.not_mem_nil, or_false] at h
    rcases h with rfl | rfl
    · exact Or.inr (Or.inl rfl)
    · exact Or.inl rfl

theorem life_dispatch {ends : SubId → Except Error Unit} {o : Resource}
    (hmessage : o ≠ .message s.messages) (hframe : ∀ i, o ≠ .frame s.messages i) :
    life o l (listenerEntries s (.dispatch ends)) = some l := by
  apply life_of_forall_ne
  intro entry hentry ho
  rcases dispatch_object hentry with h | ⟨i, h⟩
  · exact hmessage (ho.symm.trans h)
  · exact hframe i (ho.symm.trans h)

/-- Whatever else there is has the same life afterwards. -/
theorem life_listenerEntries {o : Resource} (hclient : o ≠ .listenerClient s.threads)
    (hpoller : o ≠ .poller s.threads) (hmessage : o ≠ .message s.messages)
    (hnext : e = .receive → o ≠ .message (s.messages + 1))
    (hframe : ∀ ends, e = .dispatch ends → ∀ i, o ≠ .frame s.messages i) :
    life o l (listenerEntries s e) = some l := by
  apply life_of_forall_ne
  intro entry hentry ho
  rcases listenerEntries_object hentry with h | h | h | ⟨he, h⟩ | ⟨⟨ends, he⟩, i, h⟩
  · exact hclient (ho.symm.trans h)
  · exact hpoller (ho.symm.trans h)
  · exact hmessage (ho.symm.trans h)
  · exact hnext he (ho.symm.trans h)
  · exact hframe ends he i (ho.symm.trans h)

theorem clientLife_step (h : listenerStep cfg s.client e = some d)
    (hl : s.client.listener.ClientLife s.client.exPtr l) :
    ∃ l', life (.listenerClient s.threads) l (listenerEntries s e) = some l' ∧
      d.listener.ClientLife d.exPtr l' := by
  cases e with
  | connect client rc =>
    obtain ⟨hstarted, ⟨rfl, rfl⟩ | ⟨rfl, rfl⟩ | ⟨rfl, rfl⟩⟩ := connect_cases h <;>
      rw [hstarted] at hl <;> cases hl <;>
      simp [listenerEntries, Entry.object, Life.next, Listener.ClientLife]
  | setConsumer rc =>
    obtain ⟨hconnected, ⟨hrc, rfl⟩ | ⟨rfl, rfl⟩⟩ := setConsumer_cases h <;>
      rw [hconnected] at hl <;> cases hl
    · simp [listenerEntries, hrc, Entry.object, Life.next, Listener.ClientLife]
    · simp [listenerEntries, Entry.object, Life.next, Listener.ClientLife]
  | notify =>
    cases listenerStep_moves h with
    | notify hc =>
      rw [hc] at hl
      cases hl
      exact ⟨.alive, by simp [listenerEntries, hc], rfl⟩
    | notifyError hc =>
      rw [hc] at hl
      cases hl
      by_cases hx : s.client.exPtr = some .nullClient <;>
        simp [listenerEntries, hc, hx, Entry.object, Life.next, Listener.ClientLife]
  | transfer =>
    cases listenerStep_moves h with
    | transfer e hc =>
      rw [hc] at hl
      refine ⟨l, rfl, ?_⟩
      simpa [Listener.ClientLife] using hl
  | receive =>
    cases listenerStep_moves h with
    | receive m queue hc hq =>
      rw [hc] at hl
      cases hl
      simp [listenerEntries, Entry.object, Life.next, Listener.ClientLife]
  | receiveNull =>
    cases listenerStep_moves h with
    | receiveNull hc =>
      rw [hc] at hl
      cases hl
      simp [listenerEntries, Entry.object, Life.next, Listener.ClientLife]
  | checkStop =>
    cases listenerStep_moves h with
    | leave m hc hs | leaveNull hc hs =>
      rw [hc] at hl
      cases hl
      simp [listenerEntries, hc, hs, Entry.object, Life.next, Listener.ClientLife]
    | pass m hc hs | abort hc hs =>
      rw [hc] at hl
      exact ⟨l, by simp [listenerEntries, hs], hl⟩
  | dispatch ends =>
    cases listenerStep_moves h with
    | dispatch ends m hc hf =>
      rw [hc] at hl
      exact ⟨l, life_dispatch (by simp) (by simp), hl⟩
  | interrupt =>
    cases listenerStep_moves h with
    | interrupt hc =>
      rw [hc] at hl
      cases hl
      simp [listenerEntries, Entry.object, Life.next, Listener.ClientLife]

theorem pollerLife_step (h : listenerStep cfg s.client e = some d)
    (hl : s.client.listener.PollerLife l) :
    ∃ l', life (.poller s.threads) l (listenerEntries s e) = some l' ∧
      d.listener.PollerLife l' := by
  cases e with
  | connect client rc =>
    obtain ⟨hstarted, ⟨rfl, rfl⟩ | ⟨rfl, rfl⟩ | ⟨rfl, rfl⟩⟩ := connect_cases h <;>
      rw [hstarted] at hl <;> cases hl <;>
      simp [listenerEntries, Entry.object, Listener.PollerLife]
  | setConsumer rc =>
    obtain ⟨hconnected, ⟨hrc, rfl⟩ | ⟨rfl, rfl⟩⟩ := setConsumer_cases h <;>
      rw [hconnected] at hl <;> cases hl
    · simp [listenerEntries, hrc, Entry.object, Listener.PollerLife]
    · simp [listenerEntries, Entry.object, Life.next, Listener.PollerLife]
  | notify =>
    cases listenerStep_moves h with
    | notify hc =>
      rw [hc] at hl
      exact ⟨l, by simp [listenerEntries, hc], hl⟩
    | notifyError hc =>
      rw [hc] at hl
      cases hl
      refine ⟨.unmade, life_of_forall_ne ?_, by simp [Listener.PollerLife]⟩
      simp only [listenerEntries, hc]
      split <;> simp [Entry.object]
  | transfer =>
    cases listenerStep_moves h with
    | transfer e hc =>
      rw [hc] at hl
      exact ⟨l, rfl, hl⟩
  | receive =>
    cases listenerStep_moves h with
    | receive m queue hc hq =>
      rw [hc] at hl
      cases hl
      simp [listenerEntries, Entry.object, Life.next, Listener.PollerLife]
  | receiveNull =>
    cases listenerStep_moves h with
    | receiveNull hc =>
      rw [hc] at hl
      cases hl
      simp [listenerEntries, Entry.object, Life.next, Listener.PollerLife]
  | checkStop =>
    cases listenerStep_moves h with
    | leave m hc hs | leaveNull hc hs =>
      rw [hc] at hl
      cases hl
      simp [listenerEntries, hc, hs, Entry.object, Life.next, Listener.PollerLife]
    | pass m hc hs | abort hc hs =>
      rw [hc] at hl
      exact ⟨l, by simp [listenerEntries, hs], hl⟩
  | dispatch ends =>
    cases listenerStep_moves h with
    | dispatch ends m hc hf =>
      rw [hc] at hl
      exact ⟨l, life_dispatch (by simp) (by simp), hl⟩
  | interrupt =>
    cases listenerStep_moves h with
    | interrupt hc =>
      rw [hc] at hl
      cases hl
      simp [listenerEntries, Entry.object, Life.next, Listener.PollerLife]

theorem messageLife_step (h : listenerStep cfg s.client e = some d) (he : e ≠ .receive)
    (hl : s.client.listener.MessageLife l) :
    ∃ l', life (.message s.messages) l (listenerEntries s e) = some l' ∧
      d.listener.MessageLife l' := by
  cases listenerStep_moves h with
  | fail client rc e hc | connect client rc hc =>
    rw [hc] at hl
    refine ⟨l, ?_, hl⟩
    cases client <;> simp [listenerEntries, Entry.object]
  | failConsumer rc e hc | setConsumer rc hc =>
    rw [hc] at hl
    refine ⟨l, ?_, hl⟩
    by_cases hrc : rc = 0 <;> simp [listenerEntries, hrc, Entry.object]
  | notify hc =>
    rw [hc] at hl
    exact ⟨l, by simp [listenerEntries, hc], hl⟩
  | notifyError hc =>
    rw [hc] at hl
    refine ⟨l, ?_, hl⟩
    by_cases hx : s.client.exPtr = some .nullClient <;>
      simp [listenerEntries, hc, hx, Entry.object]
  | transfer e hc =>
    rw [hc] at hl
    exact ⟨l, rfl, hl⟩
  | receive m queue hc hq => exact absurd rfl he
  | receiveNull hc =>
    rw [hc] at hl
    exact ⟨l, by simp [listenerEntries, Entry.object], hl⟩
  | leave m hc hs =>
    rw [hc] at hl
    cases hl
    simp [listenerEntries, hc, hs, Entry.object, Life.next, Listener.MessageLife]
  | leaveNull hc hs =>
    rw [hc] at hl
    exact ⟨l, by simp [listenerEntries, hc, hs, Entry.object], hl⟩
  | pass m hc hs | abort hc hs =>
    rw [hc] at hl
    exact ⟨l, by simp [listenerEntries, hs], hl⟩
  | dispatch ends m hc hf =>
    rw [hc] at hl
    cases hl
    have hused : life (.message s.messages) .alive (collected s.messages m.frames.size) =
        some .alive := by
      apply life_of_forall_used
      intro entry hentry ho
      rcases mem_collected hentry with hmessage | ⟨i, hi⟩
      · exact hmessage
      · rw [hi] at ho
        contradiction
    refine ⟨.gone, ?_, by simp [Listener.MessageLife]⟩
    simp [listenerEntries, hc, life_append, hused, Entry.object, Life.next]
  | interrupt hc =>
    rw [hc] at hl
    refine ⟨l, ?_, hl⟩
    simp [listenerEntries, Entry.object]

theorem frameLife_step (h : listenerStep cfg s.client e = some d) (he : e ≠ .receive)
    (i : Nat) (hl : s.client.listener.FrameLife l) :
    ∃ l', life (.frame s.messages i) l (listenerEntries s e) = some l' ∧
      d.listener.FrameLife l' := by
  by_cases hd : ∃ ends, e = .dispatch ends
  · obtain ⟨ends, rfl⟩ := hd
    cases listenerStep_moves h with
    | dispatch ends m hc hf =>
      rw [hc] at hl
      cases hl
      refine ⟨if i < m.frames.size then .gone else .unmade, ?_, ?_⟩
      · simp [listenerEntries, hc, life_append, life_collected, Entry.object]
      · split <;> simp [Listener.FrameLife]
  · refine ⟨l, life_listenerEntries (by simp) (by simp) (by simp) (by simp)
      (fun ends he => absurd ⟨ends, he⟩ hd), ?_⟩
    cases listenerStep_moves h with
    | dispatch ends m hc hf => exact absurd ⟨ends, rfl⟩ hd
    | receive m queue hc hq => exact absurd rfl he
    | leave m hc hs =>
      rw [hc] at hl
      cases hl
      simp [Listener.FrameLife]
    | fail _ _ _ hc | connect _ _ hc | failConsumer _ _ hc | setConsumer _ hc | notify hc
    | notifyError hc | transfer _ hc | receiveNull hc | pass _ hc _ | leaveNull hc _
    | abort hc _ | interrupt hc =>
      rw [hc] at hl
      exact hl

end Listener

section Steps

variable {cfg : Config} {s t : Counted} {l : Life}

theorem step_eq {a : Activity} (h : s.step cfg a = some t) :
    (∃ e, a = .client e ∧ MlmStreamClient.step cfg s.client e = some t.client) ∨
      ∃ payload rc, a = .publish payload rc ∧ t = { s with sent := s.sent + 1 } := by
  cases a with
  | client e =>
    obtain ⟨c, hc, rfl⟩ := Option.map_eq_some_iff.mp h
    exact Or.inl ⟨e, rfl, hc⟩
  | publish payload rc =>
    simp only [Counted.step] at h
    split at h
    · contradiction
    · cases h
      exact Or.inr ⟨payload, rc, rfl, rfl⟩

theorem receive_allows {c : Client} (h : listenerStep cfg s.client .receive = some c) (n : Nat) :
    (UpTo s.messages s.client.listener.MessageLife n l →
      ∃ l', life (.message n) l (listenerEntries s .receive) = some l' ∧
        UpTo (s.messages + 1) c.listener.MessageLife n l') ∧
    ∀ i, UpTo s.messages s.client.listener.FrameLife n l →
      ∃ l', life (.frame n i) l (listenerEntries s .receive) = some l' ∧
        UpTo (s.messages + 1) c.listener.FrameLife n l' := by
  cases listenerStep_moves h with
  | receive m queue hc hq =>
    rw [hc]
    constructor
    · intro hl
      refine hl.next (fun l h => h) ?_ ?_
      · intro hn
        simp [listenerEntries, Entry.object, Ne.symm hn]
      · intro hn
        subst hn
        simp [listenerEntries, Entry.object, Life.next, Listener.MessageLife]
    · intro i hl
      refine hl.next (fun l h => h) ?_ ?_
      · intro hn
        simp [listenerEntries, Entry.object]
      · intro hn
        subst hn
        simp [listenerEntries, Entry.object, Listener.FrameLife]

theorem listener_allows {e : ListenerEvent} {taken : Nat → Calls → Bool}
    (h : s.step cfg (.client (.listener e)) = some t) {o : Resource} (hl : s.Allows o l) :
    ∃ l', life o l (entries taken s (.client (.listener e))) = some l' ∧ t.Allows o l' := by
  obtain ⟨c, hc, rfl⟩ := Option.map_eq_some_iff.mp h
  have hstep : listenerStep cfg s.client e = some c := hc
  simp only [entries]
  cases o with
  | listenerClient n =>
    refine UpTo.step hl ?_ ?_
    · intro hn
      exact life_listenerEntries (by simpa using hn) (by simp) (by simp) (by simp) (by simp)
    · intro hn hnow
      subst hn
      exact clientLife_step hstep hnow
  | poller n =>
    refine UpTo.step hl ?_ ?_
    · intro hn
      exact life_listenerEntries (by simp) (by simpa using hn) (by simp) (by simp) (by simp)
    · intro hn hnow
      subst hn
      exact pollerLife_step hstep hnow
  | message n =>
    by_cases he : e = .receive
    · subst he
      exact (receive_allows hstep n).1 hl
    · have hsame : ∃ l', life (.message n) l (listenerEntries s e) = some l' ∧
          UpTo s.messages c.listener.MessageLife n l' := by
        refine UpTo.step hl ?_ ?_
        · intro hn
          exact life_listenerEntries (by simp) (by simp) (by simpa using hn)
            (fun hr => absurd hr he) (by simp)
        · intro hn hnow
          subst hn
          exact messageLife_step hstep he hnow
      cases e <;> first | exact hsame | exact absurd rfl he
  | frame n i =>
    by_cases he : e = .receive
    · subst he
      exact (receive_allows hstep n).2 i hl
    · have hsame : ∃ l', life (.frame n i) l (listenerEntries s e) = some l' ∧
          UpTo s.messages c.listener.FrameLife n l' := by
        refine UpTo.step hl ?_ ?_
        · intro hn
          refine life_listenerEntries (by simp) (by simp) (by simp) (by simp) ?_
          intro _ _ j hj
          cases hj
          exact hn rfl
        · intro hn hnow
          subst hn
          exact frameLife_step hstep he i hnow
      cases e <;> first | exact hsame | exact absurd rfl he
  | publisher n | notification n =>
    exact ⟨l, life_listenerEntries (by simp) (by simp) (by simp) (by simp) (by simp), hl⟩

theorem publication_object {n : Nat} {payload : List Bytes} {rc : Calls} {taken : Bool}
    {entry : Entry Resource} (h : entry ∈ publication n payload rc taken) :
    entry.object = .publisher n ∨ entry.object = .notification n := by
  unfold publication at h
  split_ifs at h <;> simp only [List.append_assoc, List.cons_append, List.nil_append,
    List.mem_append, List.mem_cons, List.mem_map, List.not_mem_nil] at h
  all_goals grind [Entry.object]

/-- Whatever happens in `publishOnBus`, what it has made is gone behind it. -/
theorem life_publication {n : Nat} {payload : List Bytes} {rc : Calls} {taken : Bool}
    (htaken : rc.send = 0 → taken = true) {o : Resource}
    (ho : o = .publisher n ∨ o = .notification n) :
    ∃ l', life o .unmade (publication n payload rc taken) = some l' ∧ l' ≠ .alive := by
  have hframes : ∀ l, life (.publisher n) l
      (payload.map fun _ => (Entry.used (Resource.notification n))) = some l := by
    intro l
    exact life_of_forall_ne (by simp [Entry.object])
  have hfilled : life (.notification n) .alive
      (payload.map fun _ => (Entry.used (Resource.notification n))) = some .alive := by
    exact life_of_forall_used (by simp)
  unfold publication
  generalize (payload.map fun _ => (Entry.used (Resource.notification n))) = frames
    at hframes hfilled
  rcases ho with rfl | rfl
  · split_ifs <;> simp [Entry.object, Life.next, life_append, hframes]
  · split_ifs <;> simp [Entry.object, Life.next, life_append, hfilled]
    all_goals grind

/-- A thread that is not there, or has ended, has left nothing. -/
theorem Listener.lives {x : Listener} (h : x = .absent ∨ x.ended = true) (exPtr : Option Error) :
    (∀ l, x.ClientLife exPtr l ↔ l ≠ .alive) ∧ (∀ l, x.PollerLife l ↔ l ≠ .alive) ∧
      (∀ l, x.MessageLife l ↔ l ≠ .alive) ∧ ∀ l, x.FrameLife l ↔ l ≠ .alive := by
  rcases h with rfl | h
  · exact ⟨fun _ => Iff.rfl, fun _ => Iff.rfl, fun _ => Iff.rfl, fun _ => Iff.rfl⟩
  · cases x with
    | left | failed =>
      exact ⟨fun _ => Iff.rfl, fun _ => Iff.rfl, fun _ => Iff.rfl, fun _ => Iff.rfl⟩
    | _ => contradiction

theorem life_publication_ne {n : Nat} {payload : List Bytes} {rc : Calls} {taken : Bool}
    {o : Resource} (hp : o ≠ .publisher n) (hn : o ≠ .notification n) :
    life o l (publication n payload rc taken) = some l := by
  apply life_of_forall_ne
  intro entry hentry ho
  rcases publication_object hentry with h | h
  · exact hp (ho.symm.trans h)
  · exact hn (ho.symm.trans h)

/-- What one more message sent does to the lives that a state allows. -/
theorem publication_allows {payload : List Bytes} {rc : Calls} {taken : Bool}
    (htaken : rc.send = 0 → taken = true) {o : Resource} (hl : s.Allows o l) :
    ∃ l', life o l (publication (s.sent + 1) payload rc taken) = some l' ∧
      ({ s with sent := s.sent + 1 } : Counted).Allows o l' := by
  cases o with
  | publisher n =>
    have hsent : UpTo s.sent (fun l => l ≠ .alive) n l := hl
    refine hsent.next (fun _ h => h) ?_ ?_
    · intro hn
      exact life_publication_ne (by simpa using hn) (by simp)
    · intro hn
      subst hn
      exact life_publication htaken (Or.inl rfl)
  | notification n =>
    have hsent : UpTo s.sent (fun l => l ≠ .alive) n l := hl
    refine hsent.next (fun _ h => h) ?_ ?_
    · intro hn
      exact life_publication_ne (by simp) (by simpa using hn)
    · intro hn
      subst hn
      exact life_publication htaken (Or.inr rfl)
  | _ => exact ⟨l, life_publication_ne (by simp) (by simp), hl⟩

/-- A call leaves everything the way it is, but there is a new thread now, or
none any more. -/
theorem ApiMove.allows {e : ApiEvent} {d : Client} (h : ApiMove cfg s.client e d)
    (hinv : Inv s.client) {threads : Nat}
    (hthreads : threads = match e with
        | .start => if s.client.joinable then s.threads else s.threads + 1
        | _ => s.threads) {o : Resource} (hl : s.Allows o l) :
    ({ s with client := d, threads := threads } : Counted).Allows o l := by
  have hkept : ∀ {now now' : Life → Prop} {current n : Nat}, UpTo current now n l →
      (∀ l, now l ↔ l ≠ .alive) → (∀ l, now' l ↔ l ≠ .alive) → UpTo current now' n l :=
    fun hu hnow hnow' => hu.mono fun l hl => (hnow' l).mpr ((hnow l).mp hl)
  rcases h.listener with ⟨he, hlistener, hx, _⟩ | ⟨rfl, hj, hlistener, _⟩ |
      ⟨rfl, hended, hlistener, hx, _⟩
  · have hsame : threads = s.threads := by
      rw [hthreads]
      cases e with
      | start => simp [he.resolve_left (by simp)]
      | _ => rfl
    subst hsame
    cases o <;> simpa only [Counted.Allows, hlistener, hx] using hl
  · have habsent := Listener.lives (Or.inl (hinv.absent hj)) s.client.exPtr
    have hnew : threads = s.threads + 1 := by simp [hthreads, hj]
    subst hnew
    cases o with
    | listenerClient n =>
      simp only [Counted.Allows, hlistener]
      exact UpTo.fresh hl fun l => (habsent.1 l).mp
    | poller n =>
      simp only [Counted.Allows, hlistener]
      exact UpTo.fresh hl fun l => (habsent.2.1 l).mp
    | message n =>
      simp only [Counted.Allows, hlistener]
      exact hkept hl habsent.2.2.1 fun _ => Iff.rfl
    | frame n i =>
      simp only [Counted.Allows, hlistener]
      exact hkept hl habsent.2.2.2 fun _ => Iff.rfl
    | publisher n | notification n => exact hl
  · have hleft := Listener.lives (Or.inr hended) s.client.exPtr
    have hsame : threads = s.threads := hthreads
    subst hsame
    cases o with
    | listenerClient n =>
      simp only [Counted.Allows, hlistener]
      exact hkept hl hleft.1 fun _ => Iff.rfl
    | poller n =>
      simp only [Counted.Allows, hlistener]
      exact hkept hl hleft.2.1 fun _ => Iff.rfl
    | message n =>
      simp only [Counted.Allows, hlistener]
      exact hkept hl hleft.2.2.1 fun _ => Iff.rfl
    | frame n i =>
      simp only [Counted.Allows, hlistener]
      exact hkept hl hleft.2.2.2 fun _ => Iff.rfl
    | publisher n | notification n => exact hl

/-- Whoever does something, and whatever malamute answers, each thing that has
been made is where the state says it is. -/
theorem step_allows {taken : Nat → Calls → Bool}
    (htaken : ∀ n rc, rc.send = 0 → taken n rc = true) {a : Activity} (hinv : Inv s.client)
    (h : s.step cfg a = some t) : Inv t.client ∧ ∀ o l, s.Allows o l →
      ∃ l', life o l (entries taken s a) = some l' ∧ t.Allows o l' := by
  refine ⟨?_, ?_⟩
  · rcases step_eq h with ⟨e, rfl, hstep⟩ | ⟨payload, rc, rfl, rfl⟩
    · exact step_inv hinv hstep
    · exact hinv
  · intro o l hl
    cases a with
    | publish payload rc =>
      rcases step_eq h with ⟨e, he, hstep⟩ | ⟨payload, rc, he, rfl⟩
      · contradiction
      · cases he
        exact publication_allows (htaken _ rc) hl
    | client e =>
      cases e with
      | listener e => exact listener_allows h hl
      | deliver m =>
        simp only [Counted.step, MlmStreamClient.step, Option.map_some, Option.some.injEq] at h
        subst h
        obtain ⟨queue, hq, _⟩ := deliver_eq s.client m
        rw [hq]
        refine ⟨l, life_nil, ?_⟩
        cases o <;> exact hl
      | api e =>
        simp only [Counted.step, Option.map_eq_some_iff] at h
        obtain ⟨c, hc, rfl⟩ := h
        have hallows := (apiStep_moves hc).allows hinv rfl hl
        cases e with
        | sync rc => exact publication_allows (htaken _ rc) hallows
        | _ => exact ⟨l, life_nil, hallows⟩

theorem start_allows (o : Resource) : Counted.Allows {} o .unmade := by
  cases o <;>
    exact ⟨fun _ => by simp, fun _ => by simp [Listener.ClientLife, Listener.PollerLife,
      Listener.MessageLife, Listener.FrameLife], fun _ => rfl⟩

/-- What is alive belongs to the thread that runs. -/
theorem Counted.Allows.alive {o : Resource} (h : s.Allows o .alive) :
    (s.client.listener ≠ .absent ∧ s.client.listener.ended = false) ∧
      (o = .listenerClient s.threads ∨ o = .poller s.threads ∨ o = .message s.messages) := by
  have hruns : (s.client.listener = .absent ∨ s.client.listener.ended = true → False) →
      s.client.listener ≠ .absent ∧ s.client.listener.ended = false := by
    intro hno
    exact ⟨fun h => hno (Or.inl h), Bool.eq_false_iff.mpr fun h => hno (Or.inr h)⟩
  cases o with
  | listenerClient n =>
    obtain ⟨rfl, hnow⟩ := UpTo.alive h
    refine ⟨hruns fun hend => ?_, Or.inl rfl⟩
    exact ((Listener.lives hend _).1 _).mp hnow rfl
  | poller n =>
    obtain ⟨rfl, hnow⟩ := UpTo.alive h
    refine ⟨hruns fun hend => ?_, Or.inr (Or.inl rfl)⟩
    exact ((Listener.lives hend none).2.1 _).mp hnow rfl
  | message n =>
    obtain ⟨rfl, hnow⟩ := UpTo.alive h
    refine ⟨hruns fun hend => ?_, Or.inr (Or.inr rfl)⟩
    exact ((Listener.lives hend none).2.2.1 _).mp hnow rfl
  | frame n i =>
    obtain ⟨rfl, hnow⟩ := UpTo.alive h
    cases hl : s.client.listener <;> simp [hl, Listener.FrameLife] at hnow
  | publisher n | notification n => exact absurd rfl (UpTo.alive h).2

end Steps

section Rest

variable {cfg : Config}

/-- Only a client without a thread to join is destroyed rather than terminated. -/
theorem ApiMove.rest {c d : Client} {e : ApiEvent} (h : ApiMove cfg c e d)
    (hd : d.api = .destroyed) : d.joinable = false := by
  have hmembers : ∀ {c : Client}, c.destroyMembers.api = .destroyed →
      c.destroyMembers.joinable = false := by
    intro c hc
    simp only [Client.destroyMembers] at hc ⊢
    split at hc
    · contradiction
    · rename_i hj
      exact Bool.not_eq_true _ ▸ hj
  cases h with
  | notSent who rc e h hm | notJoinable who h hj => cases who <;> contradiction
  | join who h hj hl =>
    cases who with
    | unsubscribe subId => contradiction
    | destructor => rfl
  | destroy h he => exact hmembers hd
  | _ => contradiction

theorem rest_of_step {c d : Client} {e : Event} (hc : c.api = .destroyed → c.joinable = false)
    (h : step cfg c e = some d) (hd : d.api = .destroyed) : d.joinable = false := by
  cases e with
  | api e => exact (apiStep_moves h).rest hd
  | listener e =>
    have hmove := listenerStep_moves h
    rw [hmove.keeps.2.1]
    rcases hmove.api with hsame | ⟨hw, hk⟩
    · exact hc (hsame.symm.trans hd)
    · rw [hk] at hd
      contradiction
  | deliver m =>
    cases h
    obtain ⟨queue, hq, _⟩ := deliver_eq c m
    rw [hq] at hd ⊢
    exact hc hd

/-- Nothing happens to a destroyed client. -/
theorem at_rest {s t : Counted} {taken : Nat → Calls → Bool} {a : Activity}
    (hapi : s.client.api = .destroyed) (hl : s.client.listener = .absent)
    (h : s.step cfg a = some t) : t = s ∧ entries taken s a = [] := by
  cases a with
  | publish payload rc => simp [Counted.step, hapi] at h
  | client e =>
    cases e with
    | api e =>
      have hnone : apiStep cfg s.client e = none := by cases e <;> simp [apiStep, hapi, hl]
      simp [Counted.step, MlmStreamClient.step, hnone] at h
    | listener e =>
      have hnone : listenerStep cfg s.client e = none := by cases e <;> simp [listenerStep, hl]
      simp [Counted.step, MlmStreamClient.step, hnone] at h
    | deliver m =>
      have hsame : s.client.deliver m = s.client := by
        simp [Client.deliver, hl, Listener.consumes]
      simp only [Counted.step, MlmStreamClient.step, Option.map_some, Option.some.injEq] at h
      rw [hsame] at h
      exact ⟨h.symm, rfl⟩

end Rest

/-- Whatever the calls of malamute answer and wherever the threads are, a client
uses nothing that is not there and destroys nothing twice. At most a client, a
poller and a message are alive, those of its running listener, and a destroyed
client has nothing and does nothing any more. -/
theorem resources_cleaned {cfg : Config} {taken : Nat → Calls → Bool}
    (htaken : ∀ n rc, rc.send = 0 → taken n rc = true) {as : List Activity} {s : Counted}
    {ledger : List (Entry Resource)}
    (h : exec (logged (Counted.step cfg) (entries taken)) ({}, []) as = some (s, ledger)) :
    (∀ o, ∃ l, life o .unmade ledger = some l ∧ (l = .alive →
      (s.client.listener ≠ .absent ∧ s.client.listener.ended = false) ∧
        (o = .listenerClient s.threads ∨ o = .poller s.threads ∨ o = .message s.messages))) ∧
    (s.client.api = .destroyed → Ledger.Clean ledger ∧ ∀ (bs : List Activity) (p),
      exec (logged (Counted.step cfg) (entries taken)) (s, ledger) bs = some p →
        p = (s, ledger)) := by
  have hlives : ∀ o, ∃ l, life o .unmade ledger = some l ∧ s.Allows o l := fun o =>
    life_of_run (fun s a t hinv hstep => step_allows htaken hinv hstep) start_inv h
      (start_allows o)
  have hinv : Inv s.client ∧ (s.client.api = .destroyed → s.client.joinable = false) := by
    refine inv_of_exec (I := fun s : Counted => Inv s.client ∧
      (s.client.api = .destroyed → s.client.joinable = false)) ⟨start_inv, by simp⟩ ?_
      (exec_of_logged h)
    intro s a t hs ht
    refine ⟨(step_allows htaken hs.1 ht).1, ?_⟩
    rcases step_eq ht with ⟨e, rfl, hstep⟩ | ⟨payload, rc, rfl, rfl⟩
    · exact rest_of_step hs.2 hstep
    · exact hs.2
  refine ⟨?_, ?_⟩
  · intro o
    obtain ⟨l, hlife, hl⟩ := hlives o
    refine ⟨l, hlife, ?_⟩
    intro hal
    subst hal
    exact hl.alive
  · intro hapi
    have habsent := hinv.1.absent (hinv.2 hapi)
    refine ⟨?_, ?_⟩
    · intro o
      obtain ⟨l, hlife, hl⟩ := hlives o
      refine ⟨l, hlife, ?_⟩
      intro hal
      subst hal
      exact hl.alive.1.1 habsent
    · intro bs p hp
      refine inv_of_exec (I := fun p => p = (s, ledger)) rfl ?_ hp
      intro p a q hsame hq
      subst hsame
      obtain ⟨u, hu, rfl⟩ := logged_eq.mp hq
      obtain ⟨rfl, hnone⟩ := at_rest hapi habsent hu
      rw [hnone, List.append_nil]

/-- A message of two frames is dispatched, the client publishes, and the
destructor stops the listener. -/
def wholeLife : List Activity :=
  [.client (.api (.subscribe 1)), .client (.api .store), .client (.api .start),
    .client (.api .wait), .client (.listener (.connect true 0)),
    .client (.listener (.setConsumer 0)), .client (.listener .notify), .client (.api .resume),
    .client (.deliver ⟨ofString "MESSAGE", [ofString "one", ofString "two"]⟩),
    .client (.listener .receive), .client (.listener .checkStop), .client (.listener .dispatch),
    .publish [ofString "three"] {}, .client (.api .destroy), .client (.api (.sync {})),
    .client (.deliver ⟨ofString "SYNC", []⟩), .client (.listener .receive),
    .client (.listener .checkStop), .client (.api .join)]

theorem whole_life_cleaned :
    ∃ s ledger, exec (logged (Counted.step localBroker) (entries fun _ _ => true)) ({}, [])
        wholeLife = some (s, ledger) ∧ s.messages = 2 ∧ s.sent = 2 ∧ Ledger.Clean ledger := by
  have hrun : ∃ s ledger, exec (logged (Counted.step localBroker) (entries fun _ _ => true))
      ({}, []) wholeLife = some (s, ledger) ∧ s.messages = 2 ∧ s.sent = 2 ∧
        s.client.api = .destroyed := ⟨_, _, rfl, rfl, rfl, rfl⟩
  obtain ⟨s, ledger, h, hmessages, hsent, hd⟩ := hrun
  exact ⟨s, ledger, h, hmessages, hsent, ((resources_cleaned (fun _ _ _ => rfl) h).2 hd).1⟩

end FtyCommonMlm.MlmStreamClient
