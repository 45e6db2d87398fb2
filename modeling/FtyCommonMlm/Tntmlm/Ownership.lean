import Mathlib.Data.List.Forall2
import FtyCommonMlm.Lib.Ledger
import FtyCommonMlm.Tntmlm.Session

namespace FtyCommonMlm.MlmClient
open Runs Ledger
open Bytes (ofString)

/-- What the calls of a client have to do with: the messages of its pipe in the
order of their arrival, the strings popped off them, and, by the number of the call,
the content given to `requestreply` with what is made to send it. -/
inductive Resource
  | message (k : Nat)
  | string (k i : Nat)
  | content (c : Nat)
  | msg (c : Nat)
  | msguid (c : Nat)
deriving DecidableEq

def recvEntries (uuid : Bytes) (k : Nat) (m : Zmsg) : List (Entry Resource) :=
  match m.popstr.1 with
  | none => [.used (.message k), .destroyed (.message k)]
  | some uuidRecv =>
    [.used (.message k), .made (.string k 0), .used (.string k 0), .destroyed (.string k 0),
      if uuid = uuidRecv.cStr then .passed (.message k) else .destroyed (.message k)]

def replyEntries (uid : Zuuid) (k : Nat) (m : Zmsg) : List (Entry Resource) :=
  let (msgUuid, rest) := m.popstr
  let msgCmd := rest.popstr.1
  let expected := msgCmd.map Bytes.cStr = some (ofString "REPLY") ∧
    msgUuid.map Bytes.cStr = some uid.text.cStr
  [.used (.message k)] ++ (if msgUuid.isSome then [.made (.string k 0)] else []) ++
  [.used (.message k)] ++ (if msgCmd.isSome then [.made (.string k 1), .used (.string k 1)] else []) ++
  -- the uuid is read behind the command
  (if msgCmd.map Bytes.cStr = some (ofString "REPLY") ∧ msgUuid.isSome then [.used (.string k 0)]
    else []) ++
  (if expected then [] else [.destroyed (.message k)]) ++
  (if msgCmd.isSome then [.destroyed (.string k 1)] else []) ++
  (if msgUuid.isSome then [.destroyed (.string k 0)] else []) ++
  (if expected then [.passed (.message k)] else [])

/-- What a call does with the message it takes. -/
def Call.entries : Call → Nat → Zmsg → List (Entry Resource)
  | .recv uuid => recvEntries uuid
  | .requestreply uid => replyEntries uid

/-- What `requestreply` does ahead of its loop. -/
def requestreplyEntries (c : Nat) (address : Bytes) (content : Option Zmsg) (sendresult : Int)
    (taken : Bool) : List (Entry Resource) :=
  match content with
  | none => []
  | some _ =>
    if address = [] then [.made (.content c), .passed (.content c)] else
    [.made (.content c), .used (.content c), .made (.msg c), .made (.msguid c), .used (.msguid c),
      .destroyed (.msguid c), .used (.msg c), .used (.msg c)] ++
    (if taken then [.passed (.msg c)] else []) ++
    if sendresult ≠ 0 then
      (if taken then [] else [.destroyed (.msg c)]) ++ [.passed (.content c)]
    else [.destroyed (.content c)]

/-- A client's session, and the numbers of the calls whose message was sent, by
the result of `mlm_client_sendto`, but not taken. -/
structure Owner where
  session : State
  lost : List Nat

def Owner.start : Owner := ⟨State.start, []⟩

/-- An event of the session, and whether `mlm_client_sendto` takes the message it
is given there. -/
structure Owning where
  event : Event
  taken : Bool

def Turned.taken {Loop : Type} : Turned Loop → Option Zmsg
  | .again taken _ | .returns taken _ => taken

/-- How many messages of the pipe have been taken. -/
def State.taken (s : State) : Nat := s.arrived.length - s.inbox.length

/-- How many calls that wait have begun. -/
def State.calls (s : State) : Nat := s.finished.length + s.running.toList.length

def Owner.entries (s : Owner) (e : Owning) : List (Entry Resource) :=
  match e.event with
  | .arrive _ => [.made (.message s.session.arrived.length)]
  | .requestreply address _ _ content _ _ sendresult =>
    requestreplyEntries s.session.calls address content sendresult e.taken
  | .turn t =>
    match s.session.running with
    | none => []
    | some r =>
      match (r.call.turn r.loop t).taken with
      | none => []
      | some m => r.call.entries s.session.taken m
  | _ => []

def Owner.step (s : Owner) (e : Owning) : Option Owner :=
  (MlmClient.step s.session e.event).map fun t =>
    { session := t
      lost :=
        match e.event with
        | .requestreply address _ _ content _ _ sendresult =>
          if content.isSome ∧ address ≠ [] ∧ sendresult = 0 ∧ e.taken = false then
            s.lost ++ [s.session.calls]
          else s.lost
        | _ => s.lost }

/-- The messages of the pipe that have been handed to callers. -/
def returned (ledger : List (Entry Resource)) : List Nat :=
  ledger.filterMap fun
    | .passed (.message k) => some k
    | _ => none

section Calls

variable {k : Nat} {c : Call} {m : Zmsg} {l : Life}

theorem Call.entries_object {e : Entry Resource} (h : e ∈ c.entries k m) :
    e.object = .message k ∨ ∃ i, e.object = .string k i := by
  cases c with
  | recv uuid =>
    cases m with
    | nil =>
      simp only [Call.entries, recvEntries, Zmsg.popstr, List.mem_cons, List.not_mem_nil,
        or_false] at h
      rcases h with rfl | rfl <;> exact Or.inl rfl
    | cons frame rest =>
      simp only [Call.entries, recvEntries, Zmsg.popstr, List.mem_cons, List.not_mem_nil,
        or_false] at h
      rcases h with rfl | rfl | rfl | rfl | rfl
      · exact Or.inl rfl
      · exact Or.inr ⟨0, rfl⟩
      · exact Or.inr ⟨0, rfl⟩
      · exact Or.inr ⟨0, rfl⟩
      · split <;> exact Or.inl rfl
  | requestreply uid =>
    simp only [Call.entries, replyEntries, List.mem_append, List.mem_ite_nil_right,
      List.mem_ite_nil_left, List.mem_cons, List.not_mem_nil, or_false] at h
    rcases h with (((((((rfl | ⟨_, rfl⟩) | rfl) | ⟨_, rfl | rfl⟩) | ⟨_, rfl⟩) | ⟨_, rfl⟩) |
      ⟨_, rfl⟩) | ⟨_, rfl⟩) | ⟨_, rfl⟩
    all_goals first
      | exact Or.inl rfl
      | exact Or.inr ⟨_, rfl⟩

theorem life_message (c : Call) (k : Nat) (m : Zmsg) :
    life (.message k) .alive (c.entries k m) = some .gone := by
  cases c with
  | recv uuid =>
    cases m with
    | nil => simp [Call.entries, recvEntries, Zmsg.popstr, Entry.object, Life.next]
    | cons frame rest =>
      by_cases hu : uuid = frame.cStr <;>
        simp [Call.entries, recvEntries, Zmsg.popstr, hu, Entry.object, Life.next]
  | requestreply uid =>
    have hread : ∀ (p : Prop) [Decidable p], life (Resource.message k) .alive
        (if p then [.used (.string k 0)] else []) = some .alive := by
      intro p _
      split <;> simp [Entry.object]
    cases m with
    | nil => simp [Call.entries, replyEntries, Zmsg.popstr, Entry.object, Life.next]
    | cons frame rest =>
      cases rest with
      | nil => simp [Call.entries, replyEntries, Zmsg.popstr, Entry.object, Life.next]
      | cons cmd rest =>
        simp only [Call.entries, replyEntries, Zmsg.popstr, Option.isSome_some, if_true,
          Option.map_some, Option.some.injEq]
        by_cases he : cmd.cStr = ofString "REPLY" ∧ frame.cStr = uid.text.cStr
        · simp [he, Entry.object, Life.next]
        · simp [if_neg he, life_append, hread, Entry.object, Life.next]

theorem life_popped (c : Call) (k i : Nat) (m : Zmsg) :
    ∃ l, life (.string k i) .unmade (c.entries k m) = some l ∧ l ≠ .alive := by
  cases c with
  | recv uuid =>
    cases m with
    | nil =>
      exact ⟨.unmade, by simp [Call.entries, recvEntries, Zmsg.popstr, Entry.object], by simp⟩
    | cons frame rest =>
      rcases Decidable.em (i = 0) with rfl | hi
      · refine ⟨.gone, ?_, by simp⟩
        by_cases hu : uuid = frame.cStr <;>
          simp [Call.entries, recvEntries, Zmsg.popstr, hu, Entry.object, Life.next]
      · refine ⟨.unmade, ?_, by simp⟩
        by_cases hu : uuid = frame.cStr <;>
          simp [Call.entries, recvEntries, Zmsg.popstr, hu, Entry.object, Ne.symm hi]
  | requestreply uid =>
    have hread : ∀ (p : Prop) [Decidable p] (l : Life), (i = 0 → l = .alive) →
        life (Resource.string k i) l (if p then [.used (.string k 0)] else []) = some l := by
      intro p _ l hl
      split
      · rcases Decidable.em (i = 0) with rfl | hi
        · rw [hl rfl]
          simp [Entry.object, Life.next]
        · simp [Entry.object, Ne.symm hi]
      · rfl
    have hdestroyed : ∀ (p : Prop) [Decidable p] (l : Life), life (Resource.string k i) l
        (if p then [] else [.destroyed (.message k)]) = some l := by
      intro p _ l
      split <;> simp [Entry.object]
    have hpassed : ∀ (p : Prop) [Decidable p] (l : Life), life (Resource.string k i) l
        (if p then [.passed (.message k)] else []) = some l := by
      intro p _ l
      split <;> simp [Entry.object]
    cases m with
    | nil =>
      exact ⟨.unmade, by simp [Call.entries, replyEntries, Zmsg.popstr, Entry.object], by simp⟩
    | cons frame rest =>
      cases rest with
      | nil =>
        rcases Decidable.em (i = 0) with rfl | hi
        · exact ⟨.gone, by simp [Call.entries, replyEntries, Zmsg.popstr, Entry.object, Life.next],
            by simp⟩
        · exact ⟨.unmade, by simp [Call.entries, replyEntries, Zmsg.popstr, Entry.object,
            Ne.symm hi], by simp⟩
      | cons cmd rest =>
        refine ⟨if i = 0 ∨ i = 1 then .gone else .unmade, ?_, by split <;> simp⟩
        simp only [Call.entries, replyEntries, Zmsg.popstr, Option.isSome_some, if_true,
          Option.map_some, Option.some.injEq, and_true]
        rcases Decidable.em (i = 0) with rfl | h0
        · simp [life_append, hread, hdestroyed, hpassed, Entry.object, Life.next]
        · rcases Decidable.em (i = 1) with rfl | h1
          · simp [life_append, hread, hdestroyed, hpassed, Entry.object, Life.next]
          · simp [life_append, hread, hdestroyed, hpassed, Entry.object, Ne.symm h0, Ne.symm h1,
              h0, h1]

theorem life_other {o : Resource} (hmessage : o ≠ .message k) (hstring : ∀ i, o ≠ .string k i) :
    life o l (c.entries k m) = some l := by
  apply life_of_forall_ne
  intro e he ho
  rcases Call.entries_object he with h | ⟨i, h⟩
  · exact hmessage (ho.symm.trans h)
  · exact hstring i (ho.symm.trans h)

/-- The message goes to the caller if it carries the header of the call. -/
theorem returned_entries (c : Call) (k : Nat) (m : Zmsg) :
    returned (c.entries k m) = if (behind c.header m).isSome then [k] else [] := by
  cases c with
  | recv uuid =>
    cases m with
    | nil => simp [Call.entries, recvEntries, Zmsg.popstr, returned, Call.header, behind]
    | cons frame rest =>
      by_cases hu : uuid = frame.cStr
      · simp [Call.entries, recvEntries, Zmsg.popstr, returned, Call.header, behind, hu]
      · simp [Call.entries, recvEntries, Zmsg.popstr, returned, Call.header, behind, hu, Ne.symm hu]
  | requestreply uid =>
    cases m with
    | nil => simp [Call.entries, replyEntries, Zmsg.popstr, returned, Call.header, behind]
    | cons frame rest =>
      cases rest with
      | nil => simp [Call.entries, replyEntries, Zmsg.popstr, returned, Call.header, behind]
      | cons cmd rest =>
        have hheader : (behind (Call.requestreply uid).header (frame :: cmd :: rest)).isSome =
            decide (cmd.cStr = ofString "REPLY" ∧ frame.cStr = uid.text.cStr) := by
          by_cases hu : frame.cStr = uid.text <;> by_cases hc : cmd.cStr = ofString "REPLY" <;>
            simp [Call.header, behind, uid.noNul.cStr_eq, hu, hc]
        rw [hheader]
        simp only [Call.entries, replyEntries, Zmsg.popstr, Option.isSome_some, if_true,
          Option.map_some, Option.some.injEq, and_true]
        by_cases he : cmd.cStr = ofString "REPLY" ∧ frame.cStr = uid.text.cStr
        · simp [he, returned]
        · rw [if_neg he, if_neg he, decide_eq_false he]
          by_cases hc : cmd.cStr = ofString "REPLY" <;> simp [hc, returned]

end Calls

section Request

variable {c : Nat} {address : Bytes} {content : Option Zmsg} {sendresult : Int} {taken : Bool}
  {l : Life}

theorem requestreply_object : ∀ e ∈ requestreplyEntries c address content sendresult taken,
    e.object = .content c ∨ e.object = .msg c ∨ e.object = .msguid c := by
  cases content with
  | none => simp [requestreplyEntries]
  | some m =>
    by_cases ha : address = []
    · simp [requestreplyEntries, ha, Entry.object]
    · by_cases hr : sendresult = 0 <;> cases taken <;>
        simp [requestreplyEntries, ha, hr, Entry.object]

variable (c address content sendresult taken)

/-- The content goes back to the caller or is destroyed. -/
theorem life_content : ∃ l, life (.content c) .unmade
    (requestreplyEntries c address content sendresult taken) = some l ∧ l ≠ .alive := by
  cases content with
  | none => exact ⟨.unmade, rfl, by simp⟩
  | some m =>
    refine ⟨.gone, ?_, by simp⟩
    by_cases ha : address = []
    · simp [requestreplyEntries, ha, Entry.object, Life.next]
    · by_cases hr : sendresult = 0 <;> cases taken <;>
        simp [requestreplyEntries, ha, hr, Entry.object, Life.next]

theorem life_msguid : ∃ l, life (.msguid c) .unmade
    (requestreplyEntries c address content sendresult taken) = some l ∧ l ≠ .alive := by
  cases content with
  | none => exact ⟨.unmade, rfl, by simp⟩
  | some m =>
    by_cases ha : address = []
    · exact ⟨.unmade, by simp [requestreplyEntries, ha, Entry.object], by simp⟩
    · refine ⟨.gone, ?_, by simp⟩
      by_cases hr : sendresult = 0 <;> cases taken <;>
        simp [requestreplyEntries, ha, hr, Entry.object, Life.next]

/-- The message is left behind where it is sent, by the result, and not taken. -/
theorem life_msg : ∃ l, life (.msg c) .unmade
    (requestreplyEntries c address content sendresult taken) = some l ∧
      (l = .alive ↔ content.isSome ∧ address ≠ [] ∧ sendresult = 0 ∧ taken = false) := by
  cases content with
  | none => exact ⟨.unmade, rfl, by simp⟩
  | some m =>
    by_cases ha : address = []
    · exact ⟨.unmade, by simp [requestreplyEntries, ha, Entry.object], by simp [ha]⟩
    · refine ⟨if sendresult = 0 ∧ taken = false then .alive else .gone, ?_, by simp [ha]⟩
      by_cases hr : sendresult = 0 <;> cases taken <;>
        simp [requestreplyEntries, ha, hr, Entry.object, Life.next]

end Request

section Turn

variable {s t : State} {turn : Turn} {r : Running}

theorem State.inbox_le (hs : Inv s) : s.inbox.length ≤ s.arrived.length := by
  rw [← hs.shared, List.length_append]
  exact Nat.le_add_left _ _

/-- The next message to be taken is the first of the inbox. -/
theorem State.next_taken (hs : Inv s) {m : Zmsg} {rest : List Zmsg} (h : s.inbox = m :: rest) :
    s.arrived[s.taken]? = some m := by
  have hshared := hs.shared
  rw [h] at hshared
  have htaken : s.taken = ((s.finished.map Finished.block).flatten ++ s.block).length := by
    rw [State.taken, ← hshared, h, List.length_append, Nat.add_sub_cancel]
  rw [htaken, ← hshared, List.getElem?_append_right (Nat.le_refl _), Nat.sub_self]
  rfl

/-- A turn takes at most the next message of the inbox, and returns it if it
carries the header of the call. -/
theorem turn_takes (h : step s (.turn turn) = some t) (hr : s.running = some r) :
    t.arrived = s.arrived ∧ t.calls = s.calls ∧
      s.inbox = (r.call.turn r.loop turn).taken.toList ++ t.inbox ∧
      t.finished.filterMap Finished.message = s.finished.filterMap Finished.message ++
        (r.call.turn r.loop turn).taken.toList.filter fun m => (behind r.call.header m).isSome := by
  have hlooks := r.call.turn_looks r.loop turn
  simp only [step, hr] at h
  generalize r.call.turn r.loop turn = turned at h hlooks ⊢
  cases hlooks with
  | idle l =>
    cases h
    exact ⟨rfl, by simp [State.calls, hr], by simp [Turned.taken], by simp [Turned.taken]⟩
  | skipped m l hm =>
    obtain ⟨inbox, hnext, rfl⟩ := Option.map_eq_some_iff.mp h
    refine ⟨rfl, by simp [State.calls, hr], takeNext_eq hnext, ?_⟩
    simp [Turned.taken, hm]
  | gaveUp =>
    cases h
    refine ⟨rfl, by simp [State.calls, hr], by simp [Turned.taken], ?_⟩
    simp [Turned.taken, Finished.message, Search.hit]
  | hit m x hm =>
    obtain ⟨inbox, hnext, rfl⟩ := Option.map_eq_some_iff.mp h
    refine ⟨rfl, by simp [State.calls, hr], takeNext_eq hnext, ?_⟩
    simp [Turned.taken, Finished.message, Search.hit, hm]

end Turn

/-- A call that waits begins with a number of its own. -/
theorem call_begins {s t : State} {e : Event} (h : step s e = some t)
    (he : (∃ uuid timeout now, e = .recv uuid timeout now) ∨
      ∃ address subject timeout content now uid sendresult,
        e = .requestreply address subject timeout content now uid sendresult) :
    t.arrived = s.arrived ∧ t.inbox = s.inbox ∧ t.calls = s.calls + 1 ∧
      t.finished.filterMap Finished.message = s.finished.filterMap Finished.message := by
  rcases he with ⟨uuid, timeout, now, rfl⟩ |
    ⟨address, subject, timeout, content, now, uid, sendresult, rfl⟩
  · simp only [step] at h
    split at h
    · contradiction
    · rename_i hidle
      cases h
      simp [State.calls, Option.not_isSome_iff_eq_none.mp hidle]
  · simp only [step] at h
    split at h
    · contradiction
    · rename_i hidle
      split at h
      · cases h
        simp [State.calls, Option.not_isSome_iff_eq_none.mp hidle, Finished.message, Search.hit]
      · cases h
        simp [State.calls, Option.not_isSome_iff_eq_none.mp hidle]

/-- The lives a state allows. -/
def Owner.Allows (s : Owner) : Resource → Life → Prop
  | .message k, l => (k < s.session.taken → l ≠ .alive) ∧ (s.session.taken ≤ k →
      l = if k < s.session.arrived.length then .alive else .unmade)
  | .string k _, l => l ≠ .alive ∧ (s.session.taken ≤ k → l = .unmade)
  | .content c, l | .msguid c, l => l ≠ .alive ∧ (s.session.calls ≤ c → l = .unmade)
  | .msg c, l => (l = .alive ↔ c ∈ s.lost) ∧ (s.session.calls ≤ c → l = .unmade)

section Steps

variable {s t : Owner} {o : Resource} {l : Life}

theorem Owner.Allows.mono (h : s.Allows o l) (htaken : t.session.taken = s.session.taken)
    (harrived : t.session.arrived = s.session.arrived)
    (hcalls : s.session.calls ≤ t.session.calls) (hlost : t.lost = s.lost) : t.Allows o l := by
  cases o with
  | message k | string k i => simpa only [Owner.Allows, htaken, harrived] using h
  | content c | msguid c => exact ⟨h.1, fun hc => h.2 (hcalls.trans hc)⟩
  | msg c =>
    refine ⟨?_, fun hc => h.2 (hcalls.trans hc)⟩
    rw [hlost]
    exact h.1

theorem taken_eq {s t : State} (harrived : t.arrived = s.arrived) (hinbox : t.inbox = s.inbox) :
    t.taken = s.taken := by
  rw [State.taken, harrived, hinbox]
  rfl

theorem arrive_allowed {s : State} {m : Zmsg} {lost : List Nat} (hs : Inv s)
    (h : Owner.Allows ⟨s, lost⟩ o l) :
    ∃ l', life o l [.made (.message s.arrived.length)] = some l' ∧ Owner.Allows
      ⟨{ s with arrived := s.arrived ++ [m], inbox := s.inbox ++ [m] }, lost⟩ o l' := by
  have hle := State.inbox_le hs
  have htaken : State.taken { s with arrived := s.arrived ++ [m], inbox := s.inbox ++ [m] } =
      s.taken := by
    simp only [State.taken, List.length_append, List.length_singleton]
    omega
  have hlt : s.taken ≤ s.arrived.length := Nat.sub_le _ _
  cases o with
  | message k =>
    simp only [Owner.Allows, htaken, List.length_append, List.length_singleton] at h ⊢
    by_cases hk : k = s.arrived.length
    · subst hk
      rw [h.2 hlt, if_neg (Nat.lt_irrefl _)]
      refine ⟨.alive, by simp [Entry.object, Life.next], fun hlt' => by omega, fun _ => ?_⟩
      rw [if_pos (Nat.lt_succ_self _)]
    · refine ⟨l, by simp [Entry.object, Ne.symm hk], h.1, ?_⟩
      intro hle'
      have hiff : k < s.arrived.length + 1 ↔ k < s.arrived.length := by omega
      simp only [hiff]
      exact h.2 hle'
  | string k i =>
    refine ⟨l, by simp [Entry.object], ?_⟩
    simpa only [Owner.Allows, htaken] using h
  | content c | msguid c | msg c => exact ⟨l, by simp [Entry.object], h⟩

/-- A call to `requestreply`, with what is lost by it. -/
theorem request_allowed {s t : State} {lost : List Nat} {address : Bytes} {content : Option Zmsg}
    {sendresult : Int} {taken : Bool} (harrived : t.arrived = s.arrived)
    (hinbox : t.inbox = s.inbox) (hcalls : t.calls = s.calls + 1)
    (h : Owner.Allows ⟨s, lost⟩ o l) :
    ∃ l', life o l (requestreplyEntries s.calls address content sendresult taken) = some l' ∧
      Owner.Allows ⟨t, if content.isSome ∧ address ≠ [] ∧ sendresult = 0 ∧ taken = false then
        lost ++ [s.calls] else lost⟩ o l' := by
  have hother : o ≠ .content s.calls → o ≠ .msg s.calls → o ≠ .msguid s.calls →
      life o l (requestreplyEntries s.calls address content sendresult taken) = some l := by
    intro hcontent hmsg hmsguid
    apply life_of_forall_ne
    intro e he ho
    rcases requestreply_object e he with heo | heo | heo
    · exact hcontent (ho.symm.trans heo)
    · exact hmsg (ho.symm.trans heo)
    · exact hmsguid (ho.symm.trans heo)
  have hle : ∀ {c}, t.calls ≤ c → s.calls ≤ c ∧ c ≠ s.calls := fun hc => by omega
  cases o with
  | message k | string k i =>
    refine ⟨l, hother (by simp) (by simp) (by simp), ?_⟩
    simpa only [Owner.Allows, taken_eq harrived hinbox, harrived] using h
  | content c =>
    by_cases hc : c = s.calls
    · subst hc
      rw [h.2 (Nat.le_refl _)]
      obtain ⟨l', hlife, hl'⟩ :=
        life_content s.calls address content sendresult taken
      exact ⟨l', hlife, hl', fun hle' => absurd rfl (hle hle').2⟩
    · refine ⟨l, hother (by simpa using hc) (by simp) (by simp), h.1, ?_⟩
      exact fun hle' => h.2 (hle hle').1
  | msguid c =>
    by_cases hc : c = s.calls
    · subst hc
      rw [h.2 (Nat.le_refl _)]
      obtain ⟨l', hlife, hl'⟩ :=
        life_msguid s.calls address content sendresult taken
      exact ⟨l', hlife, hl', fun hle' => absurd rfl (hle hle').2⟩
    · refine ⟨l, hother (by simp) (by simp) (by simpa using hc), h.1, ?_⟩
      exact fun hle' => h.2 (hle hle').1
  | msg c =>
    by_cases hc : c = s.calls
    · subst hc
      have hunmade := h.2 (Nat.le_refl _)
      have hnot : s.calls ∉ lost := by
        rw [← h.1, hunmade]
        simp
      obtain ⟨l', hlife, hl'⟩ := life_msg s.calls address content sendresult taken
      rw [hunmade]
      refine ⟨l', hlife, ?_, fun hle' => absurd rfl (hle hle').2⟩
      rw [hl']
      split_ifs with hlost
      · simpa using hlost
      · exact iff_of_false hlost hnot
    · refine ⟨l, hother (by simp) (by simpa using hc) (by simp), ?_, fun hle' => h.2 (hle hle').1⟩
      rw [h.1]
      split_ifs
      · simp [hc]
      · exact Iff.rfl

theorem turn_allowed {s t : State} {lost : List Nat} {c : Call} {m : Zmsg} (hs : Inv s)
    (harrived : t.arrived = s.arrived) (hinbox : s.inbox = m :: t.inbox)
    (hcalls : t.calls = s.calls) (h : Owner.Allows ⟨s, lost⟩ o l) :
    ∃ l', life o l (c.entries s.taken m) = some l' ∧ Owner.Allows ⟨t, lost⟩ o l' := by
  have hle := State.inbox_le hs
  rw [hinbox, List.length_cons] at hle
  have htaken : t.taken = s.taken + 1 := by
    rw [State.taken, State.taken, harrived, hinbox, List.length_cons]
    omega
  have hlt : s.taken < s.arrived.length := by
    rw [State.taken, hinbox, List.length_cons]
    omega
  cases o with
  | message k =>
    simp only [Owner.Allows, htaken, harrived] at h ⊢
    by_cases hk : k = s.taken
    · subst hk
      rw [h.2 (Nat.le_refl _), if_pos hlt]
      exact ⟨.gone, life_message c _ m, fun _ => by simp, fun hle' => by omega⟩
    · refine ⟨l, life_other (by simpa using hk) (by simp), ?_, ?_⟩
      · exact fun hlt' => h.1 (by omega)
      · exact fun hle' => h.2 (by omega)
  | string k i =>
    simp only [Owner.Allows, htaken] at h ⊢
    by_cases hk : k = s.taken
    · subst hk
      rw [h.2 (Nat.le_refl _)]
      obtain ⟨l', hlife, hl'⟩ := life_popped c s.taken i m
      exact ⟨l', hlife, hl', fun hle' => by omega⟩
    · refine ⟨l, life_other (by simp) (by simp [hk]), h.1, ?_⟩
      exact fun hle' => h.2 (by omega)
  | content c' | msguid c' | msg c' =>
    refine ⟨l, life_other (by simp) (by simp), ?_⟩
    simpa only [Owner.Allows, hcalls] using h

theorem step_allowed {e : Owning} (hs : Inv s.session) (h : s.step e = some t) :
    Inv t.session ∧ ∀ o l, s.Allows o l →
      ∃ l', life o l (s.entries e) = some l' ∧ t.Allows o l' := by
  obtain ⟨u, hu, rfl⟩ := Option.map_eq_some_iff.mp h
  refine ⟨step_inv hs hu, ?_⟩
  intro o l hl
  obtain ⟨event, taken⟩ := e
  cases event with
  | arrive m =>
    cases hu
    exact arrive_allowed hs hl
  | sendto address subject timeout content =>
    simp only [MlmClient.step] at hu
    split at hu
    · contradiction
    · cases hu
      exact ⟨l, rfl, hl.mono rfl rfl (Nat.le_refl _) rfl⟩
  | recv uuid timeout now =>
    obtain ⟨harrived, hinbox, hcalls, -⟩ := call_begins hu (Or.inl ⟨_, _, _, rfl⟩)
    exact ⟨l, rfl, hl.mono (taken_eq harrived hinbox) harrived (by simp [hcalls]) rfl⟩
  | requestreply address subject timeout content now uid sendresult =>
    obtain ⟨harrived, hinbox, hcalls, -⟩ :=
      call_begins hu (Or.inr ⟨_, _, _, _, _, _, _, rfl⟩)
    exact request_allowed harrived hinbox hcalls hl
  | turn turn =>
    cases hr : s.session.running with
    | none => simp [MlmClient.step, hr] at hu
    | some r =>
      obtain ⟨harrived, hcalls, hinbox, -⟩ := turn_takes hu hr
      simp only [Owner.entries, hr]
      cases htaken : (r.call.turn r.loop turn).taken with
      | none =>
        rw [htaken] at hinbox
        exact ⟨l, rfl, hl.mono (taken_eq harrived hinbox.symm) harrived (Nat.le_of_eq hcalls.symm)
          rfl⟩
      | some m =>
        rw [htaken] at hinbox
        exact turn_allowed hs harrived hinbox hcalls hl

end Steps

theorem returned_append (ledger more : List (Entry Resource)) :
    returned (ledger ++ more) = returned ledger ++ returned more :=
  List.filterMap_append

theorem returned_request (c : Nat) (address : Bytes) (content : Option Zmsg) (sendresult : Int)
    (taken : Bool) : returned (requestreplyEntries c address content sendresult taken) = [] := by
  apply List.filterMap_eq_nil_iff.mpr
  intro e he
  rcases requestreply_object e he with ho | ho | ho <;> cases e <;> cases ho <;> rfl

/-- The messages handed to callers are those the calls return, each once and in
the order of their arrival. -/
structure Handed (s : State) (ledger : List (Entry Resource)) : Prop where
  inv : Inv s
  results : List.Forall₂ (fun k m => s.arrived[k]? = some m) (returned ledger)
    (s.finished.filterMap Finished.message)
  ordered : (returned ledger).Pairwise (· < ·)
  taken : ∀ k ∈ returned ledger, k < s.taken

section Handed

variable {s t : State} {ledger more : List (Entry Resource)}

theorem Handed.quiet (h : Handed s ledger) (ht : Inv t) (harrived : s.arrived <+: t.arrived)
    (htaken : t.taken = s.taken)
    (hresults : t.finished.filterMap Finished.message = s.finished.filterMap Finished.message)
    (hmore : returned more = []) : Handed t (ledger ++ more) := by
  have hsame : returned (ledger ++ more) = returned ledger := by
    rw [returned_append, hmore, List.append_nil]
  refine ⟨ht, ?_, hsame ▸ h.ordered, ?_⟩
  · rw [hsame, hresults]
    refine h.results.imp ?_
    intro k m hk
    obtain ⟨later, hlater⟩ := harrived
    rw [← hlater, List.getElem?_append_left (List.getElem?_eq_some_iff.mp hk).1]
    exact hk
  · rw [hsame, htaken]
    exact h.taken

theorem Handed.turn (h : Handed s ledger) (ht : Inv t) (harrived : t.arrived = s.arrived)
    {c : Call} {m : Zmsg} (hinbox : s.inbox = m :: t.inbox)
    (hresults : t.finished.filterMap Finished.message = s.finished.filterMap Finished.message ++
      [m].filter fun m => (behind c.header m).isSome) :
    Handed t (ledger ++ c.entries s.taken m) := by
  have htaken : t.taken = s.taken + 1 := by
    have hle := State.inbox_le h.inv
    rw [hinbox, List.length_cons] at hle
    rw [State.taken, State.taken, harrived, hinbox, List.length_cons]
    omega
  have hreturned := returned_entries c s.taken m
  refine ⟨ht, ?_, ?_, ?_⟩
  · rw [returned_append, hreturned, hresults, harrived]
    apply List.rel_append h.results
    by_cases hm : (behind c.header m).isSome
    · simpa [hm] using State.next_taken h.inv hinbox
    · simp [hm]
  · rw [returned_append, hreturned, List.pairwise_append]
    refine ⟨h.ordered, by split <;> simp, ?_⟩
    intro k hk k' hk'
    split at hk'
    · rw [List.mem_singleton.mp hk']
      exact h.taken k hk
    · contradiction
  · intro k hk
    rw [returned_append, hreturned, List.mem_append] at hk
    rw [htaken]
    rcases hk with hk | hk
    · exact Nat.lt_succ_of_lt (h.taken k hk)
    · split at hk
      · rw [List.mem_singleton.mp hk]
        exact Nat.lt_succ_self _
      · contradiction

end Handed

theorem start_handed : Handed State.start [] :=
  ⟨start_inv, List.Forall₂.nil, List.Pairwise.nil, by simp [returned]⟩

theorem step_handed {s t : Owner} {ledger : List (Entry Resource)} {e : Owning}
    (hs : Handed s.session ledger) (h : s.step e = some t) :
    Handed t.session (ledger ++ s.entries e) := by
  obtain ⟨hinv, -⟩ := step_allowed hs.inv h
  obtain ⟨u, hu, rfl⟩ := Option.map_eq_some_iff.mp h
  obtain ⟨event, taken⟩ := e
  cases event with
  | arrive m =>
    cases hu
    have hle := State.inbox_le hs.inv
    refine hs.quiet hinv (List.prefix_append _ _) ?_ rfl rfl
    simp only [State.taken, List.length_append, List.length_singleton]
    omega
  | sendto address subject timeout content =>
    simp only [MlmClient.step] at hu
    split at hu
    · contradiction
    · cases hu
      exact hs.quiet hinv (List.prefix_refl _) rfl rfl rfl
  | recv uuid timeout now =>
    obtain ⟨harrived, hinbox, -, hresults⟩ := call_begins hu (Or.inl ⟨_, _, _, rfl⟩)
    exact hs.quiet hinv (harrived ▸ List.prefix_refl _) (taken_eq harrived hinbox) hresults rfl
  | requestreply address subject timeout content now uid sendresult =>
    obtain ⟨harrived, hinbox, -, hresults⟩ :=
      call_begins hu (Or.inr ⟨_, _, _, _, _, _, _, rfl⟩)
    exact hs.quiet hinv (harrived ▸ List.prefix_refl _) (taken_eq harrived hinbox) hresults
      (returned_request _ _ _ _ _)
  | turn turn =>
    cases hr : s.session.running with
    | none => simp [MlmClient.step, hr] at hu
    | some r =>
      obtain ⟨harrived, -, hinbox, hresults⟩ := turn_takes hu hr
      simp only [Owner.entries, hr]
      cases htaken : (r.call.turn r.loop turn).taken with
      | none =>
        rw [htaken] at hinbox hresults
        refine hs.quiet hinv (harrived ▸ List.prefix_refl _) (taken_eq harrived hinbox.symm) ?_ rfl
        simpa using hresults
      | some m =>
        rw [htaken] at hinbox hresults
        exact hs.turn hinv harrived hinbox hresults

/-- What `mlm_client_sendto` reports as sent it has taken. -/
def Owning.Takes (e : Owning) : Prop :=
  match e.event with
  | .requestreply _ _ _ _ _ _ sendresult => sendresult = 0 → e.taken = true
  | _ => True

theorem step_lost {s t : Owner} {e : Owning} (hs : s.lost = []) (he : e.Takes)
    (h : s.step e = some t) : t.lost = [] := by
  obtain ⟨u, hu, rfl⟩ := Option.map_eq_some_iff.mp h
  obtain ⟨event, taken⟩ := e
  cases event with
  | requestreply address subject timeout content now uid sendresult =>
    dsimp only
    rw [if_neg]
    · exact hs
    · intro hlost
      have htrue := he hlost.2.2.1
      rw [hlost.2.2.2] at htrue
      contradiction
  | _ => exact hs

theorem start_allows (o : Resource) : Owner.start.Allows o .unmade := by
  cases o <;> simp [Owner.Allows, Owner.start, State.start]

theorem Owner.Allows.alive_iff {s : Owner} {o : Resource} {l : Life} (h : s.Allows o l) :
    l = .alive ↔ (∃ k, o = .message k ∧ s.session.taken ≤ k ∧ k < s.session.arrived.length) ∨
      ∃ c ∈ s.lost, o = .msg c := by
  cases o with
  | message k =>
    rcases Nat.lt_or_ge k s.session.taken with hk | hk
    · exact iff_of_false (h.1 hk) (by simp [Nat.not_le.mpr hk])
    · rw [h.2 hk]
      split_ifs with hlt <;> simp [hk, hlt]
  | string k i | content c | msguid c => exact iff_of_false h.1 (by simp)
  | msg c => simpa using h.1

/-- Whatever arrives for a client and whatever its calls do with it, no message,
string or zuuid is used when it is not there or destroyed twice. What is left is
the inbox, and messages that `mlm_client_sendto` reported as sent without having
taken them. The messages that callers get are returned once each, in the order
of their arrival. -/
theorem messages_cleaned (events : List Owning) (s : Owner) (ledger : List (Entry Resource))
    (h : exec (logged Owner.step Owner.entries) (Owner.start, []) events = some (s, ledger)) :
    (∀ o, ∃ l, life o .unmade ledger = some l ∧ (l = .alive ↔
      (∃ k, o = .message k ∧ s.session.taken ≤ k ∧ k < s.session.arrived.length) ∨
        ∃ c ∈ s.lost, o = .msg c)) ∧
    List.Forall₂ (fun k m => s.session.arrived[k]? = some m) (returned ledger)
      (s.session.finished.filterMap Finished.message) ∧
    (returned ledger).Pairwise (· < ·) ∧
    ((∀ e ∈ events, e.Takes) → s.lost = []) := by
  have hrun := exec_of_logged h
  have hhanded : Handed s.session ledger :=
    inv_of_exec (I := fun p => Handed p.1.session p.2) start_handed (by
      intro p e q hp hq
      obtain ⟨t, ht, rfl⟩ := logged_eq.mp hq
      exact step_handed hp ht) h
  refine ⟨?_, hhanded.results, hhanded.ordered, ?_⟩
  · intro o
    obtain ⟨l, hlife, hallows⟩ := life_of_run (I := fun s => Inv s.session)
      (fun _ _ _ hi hstep => step_allowed hi hstep) start_inv h (start_allows o)
    exact ⟨l, hlife, hallows.alive_iff⟩
  · intro htakes
    have hg : Guarded Owner.step (fun _ e => e.Takes) Owner.start events :=
      guarded_of_forall fun e he _ => htakes e he
    exact inv_of_guarded (I := fun s => s.lost = []) rfl hg
      (fun _ _ _ hi he hstep => step_lost hi he hstep) hrun

def strayUid : Zuuid := ⟨ofString "57A7", by decide, by decide⟩

def strayRun : List Owning :=
  [⟨.arrive [ofString "stray"], false⟩,
    ⟨.requestreply (ofString "AGENT1") (ofString "TEST") 1 (some [ofString "do"]) 0 strayUid 0,
      true⟩,
    ⟨.turn ⟨1, fun _ => .ready (some [ofString "stray"])⟩, false⟩,
    ⟨.arrive [strayUid.text, ofString "REPLY", ofString "done"], false⟩,
    ⟨.arrive [ofString "later"], false⟩,
    ⟨.turn ⟨2, fun _ => .ready (some [strayUid.text, ofString "REPLY", ofString "done"])⟩, false⟩]

/-- The stray message is destroyed, the reply goes to the caller, and the last
message is still there. -/
theorem stray_message_cleaned : ∃ s ledger,
    exec (logged Owner.step Owner.entries) (Owner.start, []) strayRun = some (s, ledger) ∧
    returned ledger = [1] ∧
    ∀ o, ∃ l, life o .unmade ledger = some l ∧ (l = .alive ↔ o = .message 2) := by
  refine ⟨_, _, rfl, rfl, ?_⟩
  intro o
  obtain ⟨l, hlife, halive⟩ := (messages_cleaned strayRun _ _ rfl).1 o
  refine ⟨l, hlife, halive.trans ?_⟩
  constructor
  · intro hgiven
    rcases hgiven with ⟨k, rfl, hle, hlt⟩ | ⟨c, hc, rfl⟩
    · exact congrArg Resource.message (Nat.le_antisymm (Nat.le_of_lt_succ hlt) hle)
    · exact absurd hc List.not_mem_nil
  · intro ho
    exact Or.inl ⟨2, ho, Nat.le_refl 2, Nat.lt_succ_self 2⟩

end FtyCommonMlm.MlmClient
