import FtyCommonMlm.Czmq

namespace FtyCommonMlm.MlmClient
open Bytes (ofString)

/-- What `zpoller_wait` returns and, when it reports the client's pipe, what
`mlm_client_recv` returns then. -/
inductive Poll
  | null
  | ready (msg : Option Zmsg)

/-- One turn of a receive loop as its surroundings decide it: a reading of the
clock, behind the poll in `recv` and ahead of it in `requestreply`, and the poll
with whatever time-out it is given. -/
structure Turn where
  now : Int64
  poll : Int32 → Poll

/-- How a turn ends, with the message it took from the client: the loop goes
on, or the function returns a message or null. -/
inductive Turned (Loop : Type)
  | again (taken : Option Zmsg) (loop : Loop)
  | returns (taken : Option Zmsg) (result : Option Zmsg)

structure RecvLoop where
  start : UInt64
  pollerTimeout : UInt64

def recvStart (timeout : UInt32) (now : Int64) : RecvLoop :=
  let wait := timeout.toUInt64
  let wait := if wait > 300 then 300 else wait
  { start := now.toUInt64, pollerTimeout := wait * 1000 }

/-- The argument of `zpoller_wait`, an `int`. -/
def RecvLoop.wait (l : RecvLoop) : Int32 := l.pollerTimeout.toUInt32.toInt32

/-- The loop behind a reading of the clock: the time since the start of the call
is taken off the time-out. -/
def RecvLoop.read (l : RecvLoop) (now : Int64) : RecvLoop :=
  let timestamp := now.toUInt64
  { l with
    pollerTimeout :=
      if timestamp - l.start ≥ l.pollerTimeout then 0
      else l.pollerTimeout - (timestamp - l.start) }

def recvTurn (uuid : Bytes) (l : RecvLoop) (t : Turn) : Turned RecvLoop :=
  match t.poll l.wait with
  | .null => .returns none none
  | .ready msg =>
    let l := l.read t.now
    match msg with
    | none => .again none l
    | some msg =>
      match msg.popstr with
      | (some uuidRecv, rest) =>
        if uuid = uuidRecv.cStr then .returns (some msg) (some rest) else .again (some msg) l
      | (none, _) => .again (some msg) l

/-- What is handed to `mlm_client_sendto`. -/
structure Sent where
  address : Bytes
  subject : Bytes
  timeout : UInt32
  message : Zmsg

def sendto (address subject : Bytes) (timeout : UInt32) (content : Zmsg) : Sent :=
  { address := address.cStr, subject := subject.cStr, timeout := timeout, message := content }

structure ReplyLoop where
  quit : Int64

/-- `requestreply` ahead of its loop: what it sends, what it leaves to the
caller in `content_p`, and the loop it enters unless it returns null. -/
structure Requested where
  sent : Option Sent := none
  content : Option Zmsg
  loop : Option ReplyLoop := none

-- There is no content when content_p is null or points to null.
def requestreplyStart (address subject : Bytes) (timeout : UInt32) (content : Option Zmsg)
    (now : Int64) (uid : Zuuid) (sendresult : Int) : Requested :=
  match content with
  | none => { content := none }
  | some message =>
    if address = [] then { content := some message } else
    let timeout := if timeout > 300 then 300 else timeout
    let quit := now + (timeout * 1000).toUInt64.toInt64
    let msg := (message.pushstr uid.text).pushstr (ofString "REQUEST")
    let sent := sendto address subject timeout msg
    if sendresult ≠ 0 then { sent := some sent, content := some message }
    else { sent := some sent, content := none, loop := some { quit := quit } }

/-- The time that is left at a reading of the clock. -/
def ReplyLoop.left (l : ReplyLoop) (now : Int64) : Int64 := l.quit - now

/-- A turn comes to its poll. -/
def ReplyLoop.Polls (l : ReplyLoop) (now : Int64) : Prop := ¬ l.left now ≤ 0

instance (l : ReplyLoop) (now : Int64) : Decidable (l.Polls now) :=
  inferInstanceAs (Decidable (¬ _))

/-- The argument of `zpoller_wait` then, an `int`. -/
def ReplyLoop.wait (l : ReplyLoop) (now : Int64) : Int32 := (l.left now).toInt32

def replyTurn (uid : Zuuid) (l : ReplyLoop) (t : Turn) : Turned ReplyLoop :=
  if ¬ l.Polls t.now then .returns none none else
  match t.poll (l.wait t.now) with
  | .null => .returns none none
  | .ready none => .again none l
  | .ready (some msg) =>
    let (msgUuid, rest) := msg.popstr
    let (msgCmd, rest) := rest.popstr
    if msgCmd.map Bytes.cStr ≠ some (ofString "REPLY") ∨
        msgUuid.map Bytes.cStr ≠ some uid.text.cStr then
      .again (some msg) l
    else .returns (some msg) (some rest)

/-- The rest of a message whose first frames, read as C strings, are the
header. -/
def behind (header : List Bytes) (m : Zmsg) : Option Zmsg :=
  if (m.take header.length).map Bytes.cStr = header then some (m.drop header.length) else none

/-- A turn of a loop that looks for something in the messages it takes: it
skips a message without it, and returns with the first one that has it. -/
inductive Turned.Looks {Loop : Type} (found : Zmsg → Option Zmsg) : Turned Loop → Prop
  | idle (l : Loop) : Looks found (.again none l)
  | skipped (m : Zmsg) (l : Loop) (hm : found m = none) : Looks found (.again (some m) l)
  | gaveUp : Looks found (.returns none none)
  | hit (m r : Zmsg) (hm : found m = some r) : Looks found (.returns (some m) (some r))

theorem recvTurn_null {uuid : Bytes} {l : RecvLoop} {t : Turn} (ht : t.poll l.wait = .null) :
    recvTurn uuid l t = .returns none none := by
  simp only [recvTurn, ht]

theorem recvTurn_idle {uuid : Bytes} {l : RecvLoop} {t : Turn}
    (ht : t.poll l.wait = .ready none) : recvTurn uuid l t = .again none (l.read t.now) := by
  simp only [recvTurn, ht]

theorem recvTurn_ready (uuid : Bytes) {l : RecvLoop} {t : Turn} {m : Zmsg}
    (ht : t.poll l.wait = .ready (some m)) :
    recvTurn uuid l t =
      match behind [uuid] m with
      | none => .again (some m) (l.read t.now)
      | some r => .returns (some m) (some r) := by
  cases m with
  | nil => simp [recvTurn, ht, behind, Zmsg.popstr]
  | cons frame rest =>
    by_cases hu : uuid = frame.cStr
    · simp [recvTurn, ht, behind, Zmsg.popstr, hu]
    · simp [recvTurn, ht, behind, Zmsg.popstr, hu, Ne.symm hu]

theorem recvTurn_looks (uuid : Bytes) (l : RecvLoop) (t : Turn) :
    (recvTurn uuid l t).Looks (behind [uuid]) := by
  match ht : t.poll l.wait with
  | .null =>
    rw [recvTurn_null ht]
    exact .gaveUp
  | .ready none =>
    rw [recvTurn_idle ht]
    exact .idle _
  | .ready (some m) =>
    rw [recvTurn_ready uuid ht]
    cases hm : behind [uuid] m with
    | none => exact .skipped m _ hm
    | some r => exact .hit m r hm

theorem replyTurn_looks (uid : Zuuid) (l : ReplyLoop) (t : Turn) :
    (replyTurn uid l t).Looks (behind [uid.text, ofString "REPLY"]) := by
  unfold replyTurn
  simp only [uid.noNul.cStr_eq]
  split
  · exact .gaveUp
  · cases t.poll (l.wait t.now) with
    | null => exact .gaveUp
    | ready msg =>
      match msg with
      | none => exact .idle _
      | some [] => exact .skipped _ _ (by simp [behind])
      | some [frame] => exact .skipped _ _ (by simp [behind])
      | some (frame :: cmd :: rest) =>
        simp only [Zmsg.popstr, Option.map_some, ne_eq, Option.some.injEq]
        split
        · rename_i hm
          apply Turned.Looks.skipped
          simp only [behind, List.length_cons, List.length_nil, List.take_succ_cons,
            List.take_zero, List.map_cons, List.map_nil, List.cons.injEq, and_true]
          rw [if_neg (fun he => hm.elim (fun hn => hn he.2) (fun hn => hn he.1))]
        · rename_i hm
          obtain ⟨hcmd, huid⟩ := not_or.mp hm
          exact .hit _ _ (by simp [behind, not_not.mp hcmd, not_not.mp huid])

/-- A message cannot carry two headers that begin with different frames. -/
theorem behind_of_ne {key other : Bytes} {header rest : List Bytes} {m r : Zmsg}
    (h : behind (key :: header) m = some r) (hne : key ≠ other) :
    behind (other :: rest) m = none := by
  unfold behind at h ⊢
  split at h
  · rename_i hh
    cases m with
    | nil => simp at hh
    | cons frame m =>
      simp only [List.length_cons, List.take_succ_cons, List.map_cons, List.cons.injEq] at hh ⊢
      rw [if_neg]
      intro he
      exact hne (hh.1.symm.trans he.1)
  · contradiction

end FtyCommonMlm.MlmClient
