import FtyCommonMlm.Lib.Runs
import FtyCommonMlm.Lib.Search
import FtyCommonMlm.Tntmlm.Client

namespace FtyCommonMlm.MlmClient
open Runs Search
open Bytes (ofString)

/-- The calls that wait for a message, with what they wait for. -/
inductive Call
  | recv (uuid : Bytes)
  | requestreply (uid : Zuuid)
deriving DecidableEq

def Call.key : Call → Bytes
  | .recv uuid => uuid
  | .requestreply uid => uid.text

/-- The frames ahead of what the call returns. -/
def Call.header : Call → List Bytes
  | .recv uuid => [uuid]
  | .requestreply uid => [uid.text, ofString "REPLY"]

def Call.Loop : Call → Type
  | .recv _ => RecvLoop
  | .requestreply _ => ReplyLoop

def Call.turn : (c : Call) → c.Loop → Turn → Turned c.Loop
  | .recv uuid => recvTurn uuid
  | .requestreply uid => replyTurn uid

structure Running where
  call : Call
  loop : call.Loop
  block : List Zmsg

structure Finished where
  call : Call
  block : List Zmsg
  result : Option Zmsg

/-- The message the call returned, with its header. -/
def Finished.message (f : Finished) : Option Zmsg := hit f.block f.result

/-- One `MlmClient` and the messages that arrive for it. Its calls run one
after another, whoever holds the client, and `inbox` outlives them. -/
structure State where
  arrived : List Zmsg
  inbox : List Zmsg
  running : Option Running
  finished : List Finished
  sent : List Sent

def State.start : State := ⟨[], [], none, [], []⟩

inductive Event
  | arrive (m : Zmsg)
  | sendto (address subject : Bytes) (timeout : UInt32) (content : Zmsg)
  | recv (uuid : Bytes) (timeout : UInt32) (now : Int64)
  /-- The uid is the one the call draws, if it comes to that. -/
  | requestreply (address subject : Bytes) (timeout : UInt32) (content : Option Zmsg)
      (now : Int64) (uid : Zuuid) (sendresult : Int)
  | turn (t : Turn)

/-- Only the next message can be taken. -/
def takeNext (inbox : List Zmsg) : Option Zmsg → Option (List Zmsg)
  | none => some inbox
  | some m =>
    match inbox with
    | [] => none
    | next :: rest => if next = m then some rest else none

def step (s : State) : Event → Option State
  | .arrive m => some { s with arrived := s.arrived ++ [m], inbox := s.inbox ++ [m] }
  | .sendto address subject timeout content =>
    if s.running.isSome then none
    else some { s with sent := s.sent ++ [MlmClient.sendto address subject timeout content] }
  | .recv uuid timeout now =>
    if s.running.isSome then none
    else some { s with running := some ⟨.recv uuid, recvStart timeout now, []⟩ }
  | .requestreply address subject timeout content now uid sendresult =>
    if s.running.isSome then none else
    let requested := requestreplyStart address subject timeout content now uid sendresult
    let s := { s with sent := s.sent ++ requested.sent.toList }
    match requested.loop with
    | none => some { s with finished := s.finished ++ [⟨.requestreply uid, [], none⟩] }
    | some loop => some { s with running := some ⟨.requestreply uid, loop, []⟩ }
  | .turn t =>
    match s.running with
    | none => none
    | some r =>
      match r.call.turn r.loop t with
      | .again taken loop =>
        (takeNext s.inbox taken).map fun inbox =>
          { s with
            inbox := inbox
            running := some { r with loop := loop, block := r.block ++ taken.toList } }
      | .returns taken result =>
        (takeNext s.inbox taken).map fun inbox =>
          { s with
            inbox := inbox
            running := none
            finished := s.finished ++ [⟨r.call, r.block ++ taken.toList, result⟩] }

/-- What the call under way has taken so far. -/
def State.block (s : State) : List Zmsg :=
  match s.running with
  | none => []
  | some r => r.block

theorem takeNext_eq {inbox rest : List Zmsg} {taken : Option Zmsg}
    (h : takeNext inbox taken = some rest) : inbox = taken.toList ++ rest := by
  unfold takeNext at h
  split at h
  · cases h
    rfl
  · split at h
    · contradiction
    · split at h
      · rename_i hm
        cases h
        rw [hm]
        rfl
      · contradiction

theorem Call.turn_looks (c : Call) (l : c.Loop) (t : Turn) :
    (c.turn l t).Looks (behind c.header) := by
  cases c with
  | recv uuid => exact recvTurn_looks uuid l t
  | requestreply uid => exact replyTurn_looks uid l t

/-- The arrivals are shared out: to the finished calls in their order, to the
call under way, and to the inbox. -/
structure Inv (s : State) : Prop where
  shared : (s.finished.map Finished.block).flatten ++ s.block ++ s.inbox = s.arrived
  finished : ∀ f ∈ s.finished, Stopped (behind f.call.header) f.block f.result
  running : ∀ r, s.running = some r → Missed (behind r.call.header) r.block

theorem start_inv : Inv State.start := by
  refine ⟨rfl, ?_, ?_⟩
  · intro f hf
    contradiction
  · intro r hr
    contradiction

theorem block_of_idle {s : State} (h : s.running.isSome ≠ true) : s.block = [] := by
  have hnone := Option.not_isSome_iff_eq_none.mp h
  simp [State.block, hnone]

/-- A call that enters its loop has taken nothing. -/
theorem Inv.enter {s : State} (h : Inv s) (hidle : s.running.isSome ≠ true) (c : Call)
    (l : c.Loop) (sent : List Sent) :
    Inv { s with running := some ⟨c, l, []⟩, sent := sent } := by
  refine ⟨?_, h.finished, ?_⟩
  · have hshared := h.shared
    rw [block_of_idle hidle] at hshared
    exact hshared
  · intro r hr
    cases hr
    exact Missed.nil

theorem Inv.turn {s t : State} {r : Running} {turn : Turn} (h : Inv s)
    (hr : s.running = some r)
    (ht : step s (.turn turn) = some t) : Inv t := by
  have hblock : s.block = r.block := by simp [State.block, hr]
  have hshared := h.shared
  have hmissed := h.running r hr
  have hlooks := r.call.turn_looks r.loop turn
  rw [hblock] at hshared
  simp only [step, hr] at ht
  generalize r.call.turn r.loop turn = turned at ht hlooks
  cases hlooks with
  | idle loop =>
    cases ht
    refine ⟨by simpa [State.block] using hshared, h.finished, ?_⟩
    intro r' hr'
    cases hr'
    simpa using hmissed
  | skipped m loop hm =>
    obtain ⟨inbox, hnext, rfl⟩ := Option.map_eq_some_iff.mp ht
    rw [takeNext_eq hnext] at hshared
    refine ⟨by simpa [State.block] using hshared, h.finished, ?_⟩
    intro r' hr'
    cases hr'
    exact hmissed.snoc hm
  | gaveUp =>
    cases ht
    refine ⟨by simpa [State.block] using hshared, ?_, by simp⟩
    intro f hf
    rcases List.mem_append.mp hf with hf | hf
    · exact h.finished f hf
    · rw [List.mem_singleton.mp hf]
      simpa using hmissed.gaveUp
  | hit m result hm =>
    obtain ⟨inbox, hnext, rfl⟩ := Option.map_eq_some_iff.mp ht
    rw [takeNext_eq hnext] at hshared
    refine ⟨by simpa [State.block] using hshared, ?_, by simp⟩
    intro f hf
    rcases List.mem_append.mp hf with hf | hf
    · exact h.finished f hf
    · rw [List.mem_singleton.mp hf, ← hm]
      exact hmissed.stopped m

theorem step_inv {s t : State} {e : Event} (hs : Inv s) (h : step s e = some t) : Inv t := by
  cases e with
  | arrive m =>
    cases h
    refine ⟨?_, hs.finished, hs.running⟩
    have hshared := hs.shared
    simp only [State.block] at hshared ⊢
    rw [← hshared, List.append_assoc _ s.inbox]
  | sendto address subject timeout content =>
    simp only [step] at h
    split at h
    · contradiction
    · cases h
      exact ⟨hs.shared, hs.finished, hs.running⟩
  | recv uuid timeout now =>
    simp only [step] at h
    split at h
    · contradiction
    · rename_i hidle
      cases h
      exact hs.enter hidle (.recv uuid) _ s.sent
  | requestreply address subject timeout content now uid sendresult =>
    simp only [step] at h
    split at h
    · contradiction
    · rename_i hidle
      split at h
      · cases h
        refine ⟨?_, ?_, hs.running⟩
        · have hshared := hs.shared
          simpa [State.block] using hshared
        · intro f hf
          rcases List.mem_append.mp hf with hf | hf
          · exact hs.finished f hf
          · rw [List.mem_singleton.mp hf]
            exact Missed.nil.gaveUp
      · cases h
        exact hs.enter hidle (.requestreply uid) _ _
  | turn t =>
    cases hr : s.running with
    | none => simp [step, hr] at h
    | some r => exact hs.turn hr h

/-- A uid is drawn afresh: it is neither another call's uid nor a uuid given to
`recv`. -/
def Call.Fresh (c d : Call) : Prop :=
  ∀ uid, c = .requestreply uid ∨ d = .requestreply uid → c.key ≠ d.key

/-- The message one call returned is not one the other waits for. -/
def Finished.NotFor (f g : Finished) : Prop :=
  ∀ m, f.message = some m → behind g.call.header m = none

theorem Call.header_eq (c : Call) : ∃ rest, c.header = c.key :: rest := by
  cases c with
  | recv uuid => exact ⟨[], rfl⟩
  | requestreply uid => exact ⟨[ofString "REPLY"], rfl⟩

theorem Finished.notFor_of_ne {f g : Finished}
    (hf : Stopped (behind f.call.header) f.block f.result) (hne : f.call.key ≠ g.call.key) :
    f.NotFor g := by
  intro m hm
  have hfound := hf.found_hit hm
  have hsome : f.result.isSome = true := by
    by_contra hn
    simp [Finished.message, hit, hn] at hm
  obtain ⟨r, hr⟩ := Option.isSome_iff_exists.mp hsome
  obtain ⟨frest, hfh⟩ := f.call.header_eq
  obtain ⟨grest, hgh⟩ := g.call.header_eq
  rw [hr, hfh] at hfound
  rw [hgh]
  exact behind_of_ne hfound hne

theorem Call.Fresh.key_ne {c d : Call} (h : c.Fresh d) :
    c.key ≠ d.key ∨ ∃ uuid, c = .recv uuid ∧ d = .recv uuid := by
  cases c with
  | requestreply uid => exact Or.inl (h uid (Or.inl rfl))
  | recv uuid =>
    cases d with
    | requestreply uid => exact Or.inl (h uid (Or.inr rfl))
    | recv other =>
      by_cases he : uuid = other
      · exact Or.inr ⟨uuid, rfl, by rw [he]⟩
      · exact Or.inl he

/-- The calls of a client share out its arrivals in order: each takes the next
block, up to and with the first message that carries its header, and returns
what is behind that header. No message is returned twice, and none by a call
other than the one it is for. -/
theorem calls_share_arrivals (events : List Event) (s : State)
    (h : exec step State.start events = some s)
    (hfresh : s.finished.Pairwise (fun f g => f.call.Fresh g.call)) :
    (s.finished.map Finished.block).flatten ++ s.block ++ s.inbox = s.arrived ∧
    (∀ f ∈ s.finished, Stopped (behind f.call.header) f.block f.result) ∧
    (∀ r, s.running = some r → Missed (behind r.call.header) r.block) ∧
    (s.finished.filterMap Finished.message).Sublist s.arrived ∧
    s.finished.Pairwise (fun f g =>
      (∃ uuid, f.call = .recv uuid ∧ g.call = .recv uuid) ∨ f.NotFor g ∧ g.NotFor f) := by
  have hinv : Inv s := inv_of_exec start_inv (fun _ _ _ hs hstep => step_inv hs hstep) h
  refine ⟨hinv.shared, hinv.finished, hinv.running, ?_, ?_⟩
  · have hhits := hits_sublist s.finished Finished.block Finished.result
    rw [← hinv.shared, List.append_assoc]
    exact hhits.trans (List.sublist_append_left _ _)
  · apply hfresh.imp_of_mem
    intro f g hf hg hfg
    rcases hfg.key_ne with hne | hsame
    · exact Or.inr ⟨Finished.notFor_of_ne (hinv.finished f hf) hne,
        Finished.notFor_of_ne (hinv.finished g hg) hne.symm⟩
    · exact Or.inl hsame

def lateUid : Zuuid := ⟨ofString "F00D", by decide, by decide⟩

/-- A reply that comes after its call timed out is skipped by the next call. -/
def lateReplyRun : List Event :=
  [.requestreply (ofString "AGENT1") (ofString "TEST") 1 (some [ofString "do"]) 0 lateUid 0,
    .turn ⟨0, fun _ => .null⟩,
    .arrive [lateUid.text, ofString "REPLY", ofString "late"],
    .recv (ofString "uuid34") 2 0,
    .arrive [ofString "uuid34", ofString "OK", ofString "element"],
    .turn ⟨5, fun _ => .ready (some [lateUid.text, ofString "REPLY", ofString "late"])⟩,
    .turn ⟨6, fun _ => .ready (some [ofString "uuid34", ofString "OK", ofString "element"])⟩]

theorem late_reply_shares_arrivals : ∃ s, exec step State.start lateReplyRun = some s ∧
    s.finished.map Finished.result = [none, some [ofString "OK", ofString "element"]] ∧
    (s.finished.filterMap Finished.message).Sublist s.arrived := by
  refine ⟨_, rfl, rfl, (calls_share_arrivals lateReplyRun _ rfl ?_).2.2.2.1⟩
  apply List.pairwise_pair.mpr
  intro uid _ he
  revert he
  decide

end FtyCommonMlm.MlmClient
