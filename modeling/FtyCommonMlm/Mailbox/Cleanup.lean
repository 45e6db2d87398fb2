import FtyCommonMlm.Mailbox.SyncClient

namespace FtyCommonMlm
open Bytes (ofString)

structure MlmSyncClient where
  clientId : Bytes
  destination : Bytes
  timeout : UInt32
  endpoint : Bytes

namespace MlmSyncClient

/-- What the library makes of one call of `syncRequestWithReply`. -/
structure Library where
  /-- `mlm_client_new` gives a client. -/
  client : Bool
  /-- The result of `mlm_client_connect`. -/
  rc : Int
  /-- `zsys_interrupted` ahead of `mlm_client_sendto`, and behind it. -/
  interruptedBefore : Bool
  interruptedAfter : Bool
  /-- `mlm_client_sendto` takes the request and nulls the pointer to it. Nobody
  looks at its result. -/
  taken : Bool
  /-- The result of `mlm_client_recv`. It is null when it is interrupted. -/
  recv : Option Zmsg

/-- What a call creates. -/
inductive Object
  | client
  | request
  | zuuid
  | recv
  | str
  | frame (index : Nat)
deriving DecidableEq

inductive Event
  | connect (endpoint : Bytes) (timeout : UInt32) (address : Bytes)
  | sendto (destination subject : Bytes) (timeout : UInt32) (content : Zmsg)
  | made (o : Object)
  | taken (o : Object)
  | destroyed (o : Object)
deriving DecidableEq

/-- The loop over the payload of a reply. The guard of each string destroys it
at the end of its turn. -/
def popFrames (index : Nat) : Nat → Zmsg → Option (List Bytes) × List Event
  | 0, _ => (some [], [])
  | n + 1, recv =>
    match recv.popstr with
    | (none, _) => (none, [])
    | (some frame, recv) =>
      let (receivedFrames, events) := popFrames (index + 1) n recv
      (receivedFrames.map fun frames => frame.cStr :: frames,
        .made (.frame index) :: .destroyed (.frame index) :: events)

-- From zmsg_size(recv) on, like readReply, with the guards of zuuid, recv and str.
def takeReply (uuid : Zuuid) : Option Zmsg → Outcome × List Event
  | none => (.aborted, [])
  | some recv =>
    let numberOfFrame := recv.size
    if numberOfFrame = 0 then
      (.threw .noCorrelationId, [.destroyed .recv, .destroyed .zuuid]) else
    match recv.popstr with
    | (none, _) => (.aborted, [])
    | (some str, recv) =>
      let guards := [.destroyed .str, .destroyed .recv, .destroyed .zuuid]
      if str.cStr ≠ uuid.text.cStr then
        (.threw .mismatchCorrelationId, .made .str :: guards) else
      match popFrames 1 (numberOfFrame - 1) recv with
      | (none, events) => (.aborted, .made .str :: events)
      | (some receivedFrames, events) => (.returned receivedFrames, .made .str :: events ++ guards)

def syncRequestWithReply (self : MlmSyncClient) (threadId : UInt32) (uuid : Zuuid)
    (payload : List Bytes) (library : Library) : Outcome × List Event :=
  -- mlm_client_destroy has nothing to destroy.
  if library.client = false then (.threw .nullClient, []) else
  let events := [.made .client,
    .connect self.endpoint.cStr self.timeout (address self.clientId threadId)]
  if library.rc ≠ 0 then
    (.threw (.connecting self.endpoint), events ++ [.destroyed .client]) else
  let events := events ++ [.made .request, .made .zuuid]
  if library.interruptedBefore then
    (.threw .interrupted,
      events ++ [.destroyed .request, .destroyed .client, .destroyed .zuuid]) else
  let events := events ++ [.sendto self.destination.cStr (ofString "REQUEST") self.timeout
    (request uuid payload)] ++ (if library.taken then [.taken .request] else [])
  if library.interruptedAfter then
    -- A request that has been taken is null here.
    (.threw .interrupted, events ++ (if library.taken then [] else [.destroyed .request]) ++
      [.destroyed .client, .destroyed .zuuid]) else
  let events := events ++ (if library.recv.isSome then [.made .recv] else []) ++
    [.destroyed .client]
  let (outcome, rest) := takeReply uuid library.recv
  (outcome, events ++ rest)

/-- Each object was created once, and either the library took it or it was
destroyed once. -/
def Settled (events : List Event) : Prop :=
  ∀ o, events.count (.made o) ≤ 1 ∧
    events.count (.destroyed o) + events.count (.taken o) = events.count (.made o)

/-- A call ends with the payload of the reply it has received, or with an
exception, and leaves nothing behind. -/
structure Clean (uuid : Zuuid) (library : Library) (outcome : Outcome) (events : List Event) :
    Prop where
  ends : (∃ frames, outcome = .returned frames ∧
      ∃ m, library.recv = some m ∧ m.map Bytes.cStr = uuid.text :: frames) ∨
    ∃ e, outcome = .threw e
  settled : Settled events

/-- The call comes to its `mlm_client_recv`. -/
def Library.Receives (library : Library) : Prop :=
  library.client = true ∧ library.rc = 0 ∧ library.interruptedBefore = false ∧
    library.interruptedAfter = false

/-- The strings of a loop that begins at an index. -/
def turns (index n : Nat) : List Event :=
  (List.range' index n).flatMap fun i => [.made (.frame i), .destroyed (.frame i)]

/-- The loop finds every frame it counts, and destroys the string it makes of
each. -/
theorem popFrames_length (index : Nat) (m : Zmsg) :
    popFrames index m.length m = (some (m.map Bytes.cStr), turns index m.length) := by
  induction m generalizing index with
  | nil => rfl
  | cons frame m ih => simp [popFrames, Zmsg.popstr, ih, turns, List.range'_succ]

theorem turns_counts (index n : Nat) (o : Object) :
    (turns index n).count (.made o) =
      (match o with
      | .frame i => if index ≤ i ∧ i < index + n then 1 else 0
      | _ => 0) ∧
    (turns index n).count (.destroyed o) = (turns index n).count (.made o) ∧
    (turns index n).count (.taken o) = 0 := by
  induction n generalizing index with
  | zero =>
    cases o with
    | frame i =>
      have hnot : ¬ (index ≤ i ∧ i < index + 0) := by omega
      simp only [if_neg hnot]
      exact ⟨rfl, rfl, rfl⟩
    | client | request | zuuid | recv | str => exact ⟨rfl, rfl, rfl⟩
  | succ n ih =>
    have hcons : turns index (n + 1) =
        .made (.frame index) :: .destroyed (.frame index) :: turns (index + 1) n := rfl
    obtain ⟨hmade, hdestroyed, htaken⟩ := ih (index + 1)
    rw [hcons]
    simp only [List.count_cons, hdestroyed, htaken, hmade]
    cases o with
    | frame i =>
      by_cases he : index = i
      · subst he
        have hpast : ¬ index + 1 ≤ index := by omega
        simp [hpast]
      · simp [he]
        split <;> split <;> omega
    | client | request | zuuid | recv | str => simp

theorem takeReply_cons (uuid : Zuuid) (str : Bytes) (m : Zmsg) :
    takeReply uuid (some (str :: m)) =
      if str.cStr = uuid.text then
        (.returned (m.map Bytes.cStr), .made .str :: turns 1 m.length ++
          [.destroyed .str, .destroyed .recv, .destroyed .zuuid])
      else (.threw .mismatchCorrelationId,
        [.made .str, .destroyed .str, .destroyed .recv, .destroyed .zuuid]) := by
  have hpop := popFrames_length 1 m
  by_cases hs : str.cStr = uuid.text <;>
    simp [takeReply, Zmsg.size, Zmsg.popstr, uuid.noNul.cStr_eq, hs, hpop]

/-- With the objects left out, it is what `readReply` does. -/
theorem takeReply_outcome (uuid : Zuuid) (recv : Option Zmsg) :
    (takeReply uuid recv).1 = readReply uuid recv := by
  match recv with
  | none => rfl
  | some [] => rfl
  | some (str :: m) =>
    rw [takeReply_cons, readReply_cons]
    split <;> rfl

/-- With a message received, the reply and the correlation id are destroyed, and
every string. -/
theorem takeReply_counts (uuid : Zuuid) (m : Zmsg) (o : Object) :
    (takeReply uuid (some m)).2.count (.made o) ≤ (match o with
      | .str | .frame _ => 1
      | _ => 0) ∧
    (takeReply uuid (some m)).2.count (.destroyed o) =
      (takeReply uuid (some m)).2.count (.made o) + (match o with
      | .recv | .zuuid => 1
      | _ => 0) ∧
    (takeReply uuid (some m)).2.count (.taken o) = 0 := by
  cases m with
  | nil => cases o <;> simp [takeReply, Zmsg.size]
  | cons str m =>
    rw [takeReply_cons]
    split
    · obtain ⟨hmade, hdestroyed, htaken⟩ := turns_counts 1 m.length o
      simp only [List.cons_append, List.count_cons, List.count_append, hdestroyed, htaken, hmade]
      cases o with
      | frame i =>
        simp
        split <;> omega
      | client | request | zuuid | recv | str => simp
    · cases o <;> simp

section Paths

variable {self : MlmSyncClient} {threadId : UInt32} {uuid : Zuuid} {payload : List Bytes}
  {library : Library}

/-- What has happened when the call comes to `takeReply`. -/
def received (self : MlmSyncClient) (threadId : UInt32) (uuid : Zuuid) (payload : List Bytes)
    (library : Library) : List Event :=
  [.made .client, .connect self.endpoint.cStr self.timeout (address self.clientId threadId),
    .made .request, .made .zuuid, .sendto self.destination.cStr (ofString "REQUEST") self.timeout
      (request uuid payload)] ++ (if library.taken then [.taken .request] else []) ++
    (if library.recv.isSome then [.made .recv] else []) ++ [.destroyed .client]

theorem syncRequestWithReply_receives (h : library.Receives) :
    syncRequestWithReply self threadId uuid payload library =
      ((takeReply uuid library.recv).1,
        received self threadId uuid payload library ++ (takeReply uuid library.recv).2) := by
  obtain ⟨hclient, hrc, hbefore, hafter⟩ := h
  simp [syncRequestWithReply, hclient, hrc, hbefore, hafter, received]

/-- The exits ahead of `mlm_client_recv` destroy what there is. -/
theorem clean_of_not_receives (h : ¬ library.Receives) :
    Clean uuid library (syncRequestWithReply self threadId uuid payload library).1
      (syncRequestWithReply self threadId uuid payload library).2 := by
  by_cases hclient : library.client = false
  · simp only [syncRequestWithReply, if_pos hclient]
    refine ⟨Or.inr ⟨_, rfl⟩, ?_⟩
    intro o
    simp
  · by_cases hrc : library.rc ≠ 0
    · simp only [syncRequestWithReply, if_neg hclient, if_pos hrc]
      refine ⟨Or.inr ⟨_, rfl⟩, ?_⟩
      intro o
      cases o <;> simp
    · by_cases hbefore : library.interruptedBefore = true
      · simp only [syncRequestWithReply, if_neg hclient, if_neg hrc, if_pos hbefore]
        refine ⟨Or.inr ⟨_, rfl⟩, ?_⟩
        intro o
        cases o <;> simp
      · by_cases hafter : library.interruptedAfter = true
        · simp only [syncRequestWithReply, if_neg hclient, if_neg hrc, if_neg hbefore, if_pos hafter]
          refine ⟨Or.inr ⟨_, rfl⟩, ?_⟩
          intro o
          -- the request is destroyed where it has not been taken
          cases library.taken <;> cases o <;> simp
        · exact absurd ⟨by simpa using hclient, by simpa using hrc, by simpa using hbefore,
            by simpa using hafter⟩ h

/-- The end of a call on a message it has received. -/
theorem readReply_ends (uuid : Zuuid) (m : Zmsg) :
    (∃ frames, readReply uuid (some m) = .returned frames ∧
      m.map Bytes.cStr = uuid.text :: frames) ∨ ∃ e, readReply uuid (some m) = .threw e := by
  cases m with
  | nil => exact Or.inr ⟨_, readReply_nil uuid⟩
  | cons str m =>
    rw [readReply_cons]
    split
    · rename_i hs
      exact Or.inl ⟨_, rfl, by rw [List.map_cons, hs]⟩
    · exact Or.inr ⟨_, rfl⟩

theorem clean_of_receives (h : library.Receives) :
    Clean uuid library (syncRequestWithReply self threadId uuid payload library).1
        (syncRequestWithReply self threadId uuid payload library).2 ↔
      library.taken = true ∧ library.recv ≠ none := by
  rw [syncRequestWithReply_receives h, takeReply_outcome]
  constructor
  · intro hclean
    have hrecv : library.recv ≠ none := by
      intro hnone
      have hends := hclean.ends
      simp [hnone, readReply] at hends
    refine ⟨?_, hrecv⟩
    apply Classical.byContradiction
    intro htaken
    obtain ⟨m, hm⟩ := Option.ne_none_iff_exists'.mp hrecv
    have hrequest := (hclean.settled .request).2
    obtain ⟨hmade, hdestroyed, hnone⟩ := takeReply_counts uuid m .request
    simp [received, htaken, hm, hdestroyed, hnone] at hrequest
  · intro hgiven
    obtain ⟨htaken, hrecv⟩ := hgiven
    obtain ⟨m, hm⟩ := Option.ne_none_iff_exists'.mp hrecv
    refine ⟨?_, ?_⟩
    · rw [hm]
      rcases readReply_ends uuid m with h | h
      · obtain ⟨frames, hreturned, hframes⟩ := h
        exact Or.inl ⟨frames, hreturned, m, rfl, hframes⟩
      · exact Or.inr h
    · intro o
      obtain ⟨hmade, hdestroyed, hnone⟩ := takeReply_counts uuid m o
      simp only [received, htaken, hm, List.count_append, hdestroyed, hnone]
      cases o <;> simp at hmade ⊢ <;> omega

/-- A call of `syncRequestWithReply` ends well and leaves nothing behind, just in
case `mlm_client_recv`, if it comes to that, gives a message, and the request has
been taken by then. -/
theorem clean_iff (self : MlmSyncClient) (threadId : UInt32) (uuid : Zuuid)
    (payload : List Bytes) (library : Library) :
    Clean uuid library (syncRequestWithReply self threadId uuid payload library).1
        (syncRequestWithReply self threadId uuid payload library).2 ↔
      (library.Receives → library.taken = true ∧ library.recv ≠ none) := by
  by_cases h : library.Receives
  · rw [clean_of_receives h]
    exact ⟨fun hgiven _ => hgiven, fun hgiven => hgiven h⟩
  · exact ⟨fun _ hreceives => absurd hreceives h, fun _ => clean_of_not_receives h⟩

end Paths

def patient : MlmSyncClient :=
  ⟨ofString "client", ofString "server", 1000, ofString "ipc://@/malamute"⟩

def unansweredUuid : Zuuid := ⟨ofString "8e9f", by decide, by decide⟩

/-- The wait for the reply is interrupted. -/
def interruptedReceive : Library := ⟨true, 0, false, false, true, none⟩

theorem interrupted_receive_aborts :
    (syncRequestWithReply patient 1 unansweredUuid [] interruptedReceive).1 = .aborted ∧
    ¬ Clean unansweredUuid interruptedReceive
      (syncRequestWithReply patient 1 unansweredUuid [] interruptedReceive).1
      (syncRequestWithReply patient 1 unansweredUuid [] interruptedReceive).2 := by
  refine ⟨rfl, ?_⟩
  intro h
  rcases h.ends with ⟨_, hreturned, _⟩ | ⟨_, hthrew⟩
  · cases hreturned
  · cases hthrew

end MlmSyncClient

end FtyCommonMlm
