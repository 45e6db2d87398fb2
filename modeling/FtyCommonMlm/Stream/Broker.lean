import Mathlib.Logic.Function.Basic
import FtyCommonMlm.Stream.Moves

namespace FtyCommonMlm.MlmStreamClient
open Runs
open Bytes (ofString)

/-- The clients of one stream, wherever they run, and the broker: the messages
sent on the stream and not yet handed to its consumers. `published` lists the
payloads given to `publish`. -/
structure World where
  clients : Nat → Client
  bus : List StreamMsg
  published : List (List Bytes)

def World.start : World := ⟨fun _ => {}, [], []⟩

inductive WorldEvent
  | api (i : Nat) (e : ApiEvent)
  | listener (i : Nat) (e : ListenerEvent)
  | publish (i : Nat) (payload : List Bytes) (rc : Calls)
  | broadcast

/-- What the calling thread puts on the stream in `unsubscribe` and the
destructor. -/
def ApiEvent.sends (cfg : Config) : ApiEvent → List StreamMsg
  | .sync rc => (publishOnBus cfg (ofString "SYNC") [] rc).toOption.toList
  | _ => []

/-- Any thread may publish at any time. The broker hands each message to every
consumer the stream has then. -/
def worldStep (cfg : Nat → Config) (w : World) : WorldEvent → Option World
  | .api i e =>
    (apiStep (cfg i) (w.clients i) e).map fun c =>
      { w with clients := Function.update w.clients i c, bus := w.bus ++ e.sends (cfg i) }
  | .listener i e =>
    (listenerStep (cfg i) (w.clients i) e).map fun c =>
      { w with clients := Function.update w.clients i c }
  | .publish i payload rc =>
    some { w with
      bus := w.bus ++ (publish (cfg i) payload rc).toOption.toList
      published := w.published ++ [payload] }
  | .broadcast =>
    match w.bus with
    | [] => none
    | m :: bus => some { w with clients := fun i => (w.clients i).deliver m, bus := bus }

def Listener.inHand : Listener → List StreamMsg
  | .received m | .checked m => [m]
  | _ => []

/-- The messages that have come to the listener and that it is not done with. -/
def Client.held (c : Client) : List StreamMsg := c.listener.inHand ++ c.queue

/-- A message on the stream is a SYNC or what `publish` made of a payload. -/
def Known (published : List (List Bytes)) (m : StreamMsg) : Prop :=
  m.subject = ofString "SYNC" ∨
    ∃ payload ∈ published, m = ⟨ofString "MESSAGE", payload.map Bytes.cStr⟩

structure Traffic (w : World) : Prop where
  bus : ∀ m ∈ w.bus, Known w.published m
  held : ∀ i, ∀ m ∈ (w.clients i).held, Known w.published m

theorem start_traffic : Traffic World.start := by
  constructor <;> simp [World.start, Client.held, Listener.inHand]

section Steps

variable {cfg : Config} {c d : Client}

theorem ApiMove.held {e : ApiEvent} (h : ApiMove cfg c e d) :
    d.invoked = c.invoked ∧ ∀ m ∈ d.held, m ∈ c.held := by
  cases h with
  | spawn h hj =>
    refine ⟨rfl, ?_⟩
    intro m hm
    contradiction
  | join who h hj hl =>
    cases who <;> exact ⟨rfl, fun m hm => List.mem_append_right _ hm⟩
  | notSent who rc e h hm | notJoinable who h hj => cases who <;> exact ⟨rfl, fun _ hm => hm⟩
  | _ => exact ⟨rfl, fun _ hm => hm⟩

theorem ListenerMove.held {e : ListenerEvent} (h : ListenerMove cfg c e d) :
    ∀ m ∈ d.held, m ∈ c.held := by
  intro m' hm
  cases h with
  | leave m h hs | leaveNull h hs | abort h hs | interrupt h => contradiction
  | dispatch ends m h hf => exact List.mem_append_right _ hm
  | receive m queue h hq =>
    unfold Client.held
    rw [h, hq]
    exact hm
  | receiveNull h | pass m h hs | fail client rc e h | connect client rc h | failConsumer rc e h
  | setConsumer rc h | notify h | notifyError h | transfer e h =>
    unfold Client.held
    rw [h]
    exact hm

theorem deliver_held (c : Client) (m : StreamMsg) :
    (c.deliver m).invoked = c.invoked ∧ ∀ m' ∈ (c.deliver m).held, m' ∈ c.held ∨ m' = m := by
  obtain ⟨queue, hq, hqueue⟩ := deliver_eq c m
  rw [hq]
  refine ⟨rfl, ?_⟩
  intro m' hm
  rcases List.mem_append.mp hm with hm | hm
  · exact Or.inl (List.mem_append_left _ hm)
  · exact (hqueue m' hm).imp_left (fun h => List.mem_append_right _ h)

theorem sends_sync {e : ApiEvent} {m : StreamMsg} (hm : m ∈ e.sends cfg) :
    m.subject = ofString "SYNC" := by
  cases e with
  | sync rc =>
    have hsync : (ofString "SYNC").cStr = ofString "SYNC" := rfl
    rw [publishOnBus_sent hm, hsync]
  | _ => contradiction

theorem publish_sent {payload : List Bytes} {rc : Calls} {m : StreamMsg}
    (hm : m ∈ (publish cfg payload rc).toOption.toList) :
    m = ⟨ofString "MESSAGE", payload.map Bytes.cStr⟩ := by
  have hmessage : (ofString "MESSAGE").cStr = ofString "MESSAGE" := rfl
  rw [publishOnBus_sent hm, hmessage]

end Steps

section Runs

variable {cfg : Nat → Config} {w x : World}

theorem Known.mono {published more : List (List Bytes)} {m : StreamMsg} (h : Known published m) :
    Known (published ++ more) m := by
  rcases h with hs | ⟨payload, hp, hm⟩
  · exact Or.inl hs
  · exact Or.inr ⟨payload, List.mem_append_left _ hp, hm⟩

/-- A property of one client's state after a step of another or of its own. -/
theorem update_forall {P : Client → Prop} {i : Nat} {c : Client} (hw : ∀ j, P (w.clients j))
    (hc : P c) (j : Nat) : P (Function.update w.clients i c j) := by
  by_cases hj : j = i
  · subst hj
    rw [Function.update_self]
    exact hc
  · rw [Function.update_of_ne hj]
    exact hw j

theorem traffic_of_step {e : WorldEvent} (hw : Traffic w) (h : worldStep cfg w e = some x) :
    Traffic x := by
  cases e with
  | api i e =>
    obtain ⟨c, hc, rfl⟩ := Option.map_eq_some_iff.mp h
    refine ⟨?_, update_forall (P := fun c => ∀ m ∈ c.held, Known w.published m) hw.held ?_⟩
    · intro m hm
      rcases List.mem_append.mp hm with hm | hm
      · exact hw.bus m hm
      · exact Or.inl (sends_sync hm)
    · intro m hm
      apply hw.held i m
      exact (apiStep_moves hc).held.2 m hm
  | listener i e =>
    obtain ⟨c, hc, rfl⟩ := Option.map_eq_some_iff.mp h
    refine ⟨hw.bus, update_forall (P := fun c => ∀ m ∈ c.held, Known w.published m) hw.held ?_⟩
    intro m hm
    apply hw.held i m
    exact (listenerStep_moves hc).held m hm
  | publish i payload rc =>
    cases h
    refine ⟨?_, fun j m hm => (hw.held j m hm).mono⟩
    intro m hm
    rcases List.mem_append.mp hm with hm | hm
    · exact (hw.bus m hm).mono
    · exact Or.inr ⟨payload, by simp, publish_sent hm⟩
  | broadcast =>
    simp only [worldStep] at h
    split at h
    · contradiction
    · rename_i m bus hbus
      cases h
      have hknown := hw.bus
      rw [hbus] at hknown
      refine ⟨fun m' hm => hknown m' (List.mem_cons_of_mem _ hm), ?_⟩
      intro j m' hm
      rcases (deliver_held (w.clients j) m).2 m' hm with hold | rfl
      · exact hw.held j m' hold
      · exact hknown m' List.mem_cons_self

end Runs

/-- A subscription that starts the listener of a client. -/
def subscribing (i : Nat) (callback : Callback) : List WorldEvent :=
  [.api i (.subscribe callback), .api i .store, .api i .start, .api i .wait,
    .listener i (.connect true 0), .listener i (.setConsumer 0), .listener i .notify,
    .api i .resume]

end FtyCommonMlm.MlmStreamClient
