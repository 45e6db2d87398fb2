import FtyCommonMlm.Tntmlm.Timing

namespace FtyCommonMlm.MlmClient
open Runs
open Bytes (ofString)

/-- A turn of `recv` that does not return, whatever the poll reports. The clock,
as the loop holds its readings, does not go back. -/
def iterate (uuid : Bytes) (s : Waiting) (t : Turn) : Option Waiting :=
  if s.clock.toUInt64 ≤ t.now.toUInt64 then
    match recvTurn uuid s.loop t with
    | .again _ loop => some ⟨loop, t.now⟩
    | .returns _ _ => none
  else none

/-- The numbers of the loop are what they are without a word size: the time-out
is one `zpoller_wait` can take, at the next reading of the clock neither
subtraction goes below zero, and the turn goes on with what they leave. -/
structure Waiting.Exact (uuid : Bytes) (s : Waiting) : Prop where
  bounded : s.loop.pollerTimeout.toNat ≤ 300000
  argument : s.loop.wait.toInt = s.loop.pollerTimeout.toNat
  elapsed : ∀ now : Int64, s.clock.toUInt64 ≤ now.toUInt64 → s.loop.start ≤ now.toUInt64
  left : ∀ now : Int64, s.clock.toUInt64 ≤ now.toUInt64 →
    (s.loop.read now).pollerTimeout.toNat =
      s.loop.pollerTimeout.toNat - (now.toUInt64.toNat - s.loop.start.toNat)
  turned : ∀ (t : Turn) taken loop, s.clock.toUInt64 ≤ t.now.toUInt64 →
    recvTurn uuid s.loop t = .again taken loop →
    t.poll s.loop.wait = .ready taken ∧ loop.start = s.loop.start ∧
    loop.pollerTimeout.toNat =
      s.loop.pollerTimeout.toNat - (t.now.toUInt64.toNat - s.loop.start.toNat)

theorem recvTurn_again {uuid : Bytes} {l l' : RecvLoop} {t : Turn} {taken : Option Zmsg}
    (h : recvTurn uuid l t = .again taken l') :
    t.poll l.wait = .ready taken ∧ l' = l.read t.now := by
  match ht : t.poll l.wait with
  | .null =>
    rw [recvTurn_null ht] at h
    contradiction
  | .ready none =>
    rw [recvTurn_idle ht] at h
    cases h
    exact ⟨rfl, rfl⟩
  | .ready (some m) =>
    rw [recvTurn_ready uuid ht] at h
    cases hm : behind [uuid] m with
    | none =>
      rw [hm] at h
      cases h
      exact ⟨rfl, rfl⟩
    | some r =>
      rw [hm] at h
      contradiction

theorem iterate_eq {uuid : Bytes} {s s' : Waiting} {t : Turn} (h : iterate uuid s t = some s') :
    s.clock.toUInt64 ≤ t.now.toUInt64 ∧ s' = ⟨s.loop.read t.now, t.now⟩ := by
  unfold iterate at h
  split at h
  · rename_i hclock
    split at h
    · rename_i loop hagain
      cases h
      rw [(recvTurn_again hagain).2]
      exact ⟨hclock, rfl⟩
    · contradiction
  · contradiction

/-- What the loop keeps: the time-out within the call's, and the clock behind the
start of the call. -/
structure Waiting.Ordered (timeout : UInt32) (s : Waiting) : Prop where
  within : s.loop.pollerTimeout.toNat ≤ total timeout
  started : s.loop.start ≤ s.clock.toUInt64

theorem start_ordered (timeout : UInt32) (start : Int64) :
    (Waiting.start timeout start).Ordered timeout :=
  ⟨Nat.le_of_eq (start_pollerTimeout timeout start), UInt64.le_refl _⟩

theorem read_pollerTimeout {l : RecvLoop} {now : Int64} (h : l.start ≤ now.toUInt64) :
    (l.read now).pollerTimeout.toNat =
      l.pollerTimeout.toNat - (now.toUInt64.toNat - l.start.toNat) := by
  rw [RecvLoop.read_toNat, UInt64.toNat_sub_of_le _ _ h]

theorem Waiting.Ordered.exact {uuid : Bytes} {timeout : UInt32} {s : Waiting}
    (hs : s.Ordered timeout) : s.Exact uuid := by
  refine ⟨Nat.le_trans hs.within (total_le timeout), wait_toInt timeout hs.within, ?_, ?_, ?_⟩
  · intro now hnow
    exact UInt64.le_trans hs.started hnow
  · intro now hnow
    exact read_pollerTimeout (UInt64.le_trans hs.started hnow)
  · intro t taken loop hnow h
    obtain ⟨hpoll, rfl⟩ := recvTurn_again h
    exact ⟨hpoll, rfl, read_pollerTimeout (UInt64.le_trans hs.started hnow)⟩

theorem Waiting.Ordered.turn {uuid : Bytes} {timeout : UInt32} {s s' : Waiting} {t : Turn}
    (hs : s.Ordered timeout) (h : iterate uuid s t = some s') :
    s'.Ordered timeout ∧ s'.loop.pollerTimeout ≤ s.loop.pollerTimeout := by
  obtain ⟨hclock, rfl⟩ := iterate_eq h
  have hstarted := UInt64.le_trans hs.started hclock
  have hread := read_pollerTimeout hstarted
  have hwithin := hs.within
  refine ⟨⟨?_, hstarted⟩, ?_⟩
  · rw [hread]
    omega
  · rw [UInt64.le_iff_toNat_le, hread]
    exact Nat.sub_le _ _

/-- However often the loop of `recv` turns, its time-out never grows, and nothing
in it wraps around. -/
theorem recv_never_wraps (uuid : Bytes) (timeout : UInt32) (start : Int64) (turns : List Turn) :
    Always (iterate uuid) (Waiting.Exact uuid) (Waiting.start timeout start) turns ∧
    Along (iterate uuid) (fun s _ s' => s'.loop.pollerTimeout ≤ s.loop.pollerTimeout)
      (Waiting.start timeout start) turns := by
  have hgo : Guarded (iterate uuid) (fun _ _ => True) (Waiting.start timeout start) turns :=
    guarded_of_forall fun _ _ _ => trivial
  refine ⟨⟨(start_ordered timeout start).exact, ?_⟩, ?_⟩
  · refine along_of_guarded (start_ordered timeout start) hgo ?_
    intro s t s' hs _ h
    exact ⟨(hs.turn h).1, (hs.turn h).1.exact⟩
  · refine along_of_guarded (start_ordered timeout start) hgo ?_
    intro s t s' hs _ h
    exact hs.turn h

/-- A `requestreply` that has not returned yet, and the last reading of the clock. -/
structure Replying where
  loop : ReplyLoop
  clock : Int64

/-- A turn of `requestreply` that does not return, on a clock that does not go
back. -/
def await (uid : Zuuid) (s : Replying) (t : Turn) : Option Replying :=
  if s.clock.toInt ≤ t.now.toInt then
    match replyTurn uid s.loop t with
    | .again _ loop => some ⟨loop, t.now⟩
    | .returns _ _ => none
  else none

/-- One fixed deadline, at a turn of the call that began at `start`: a poll is
begun ahead of it and lasts until it, null is returned behind it whatever a poll
would report, and a message is taken from such a poll only. -/
structure Replying.KeepsDeadline (uid : Zuuid) (timeout : UInt32) (start : Int64) (s : Replying) :
    Prop where
  quit : s.loop.quit.toInt = deadline timeout start
  polls : ∀ now : Int64, s.clock.toInt ≤ now.toInt → now.toInt < 2 ^ 62 → s.loop.Polls now →
    now.toInt < deadline timeout start ∧
    (s.loop.wait now).toInt = deadline timeout start - now.toInt ∧
    1 ≤ (s.loop.wait now).toInt ∧ (s.loop.wait now).toInt ≤ 300000
  -- A poll that is null because its time-out is over ends behind that time-out.
  expires : ∀ (t : Turn) taken, s.clock.toInt ≤ t.now.toInt → t.now.toInt < 2 ^ 62 →
    replyTurn uid s.loop t = .returns taken none →
    (¬ s.loop.Polls t.now ∧ deadline timeout start ≤ t.now.toInt) ∨
    (s.loop.Polls t.now ∧ t.poll (s.loop.wait t.now) = .null ∧
      ∀ ended, t.now.toInt + (s.loop.wait t.now).toInt ≤ ended → deadline timeout start ≤ ended)
  overdue : ∀ t : Turn, s.clock.toInt ≤ t.now.toInt → t.now.toInt < 2 ^ 62 →
    deadline timeout start ≤ t.now.toInt → replyTurn uid s.loop t = .returns none none
  takes : ∀ (t : Turn) m, s.clock.toInt ≤ t.now.toInt → t.now.toInt < 2 ^ 62 →
    ((∃ loop, replyTurn uid s.loop t = .again (some m) loop) ∨
      ∃ result, replyTurn uid s.loop t = .returns (some m) result) →
    s.loop.Polls t.now ∧ t.now.toInt < deadline timeout start ∧
      t.poll (s.loop.wait t.now) = .ready (some m)

theorem replyTurn_over {uid : Zuuid} {l : ReplyLoop} {t : Turn} (h : ¬ l.Polls t.now) :
    replyTurn uid l t = .returns none none := by
  unfold replyTurn
  rw [if_pos h]

/-- All a turn of `requestreply` can do. The deadline stays. -/
theorem replyTurn_cases (uid : Zuuid) (l : ReplyLoop) (t : Turn) :
    (¬ l.Polls t.now ∧ replyTurn uid l t = .returns none none) ∨
    (l.Polls t.now ∧ t.poll (l.wait t.now) = .null ∧ replyTurn uid l t = .returns none none) ∨
    (l.Polls t.now ∧ t.poll (l.wait t.now) = .ready none ∧ replyTurn uid l t = .again none l) ∨
    (l.Polls t.now ∧ ∃ m, t.poll (l.wait t.now) = .ready (some m) ∧
      (replyTurn uid l t = .again (some m) l ∨
        ∃ r, replyTurn uid l t = .returns (some m) (some r))) := by
  by_cases hp : l.Polls t.now
  · right
    unfold replyTurn
    rw [if_neg (not_not.mpr hp)]
    match hpoll : t.poll (l.wait t.now) with
    | .null => exact Or.inl ⟨hp, rfl, rfl⟩
    | .ready none => exact Or.inr (Or.inl ⟨hp, rfl, rfl⟩)
    | .ready (some m) =>
      refine Or.inr (Or.inr ⟨hp, m, rfl, ?_⟩)
      dsimp only
      split
      · exact Or.inl rfl
      · exact Or.inr ⟨_, rfl⟩
  · exact Or.inl ⟨hp, replyTurn_over hp⟩

theorem replyTurn_gaveUp {uid : Zuuid} {l : ReplyLoop} {t : Turn} {taken : Option Zmsg}
    (h : replyTurn uid l t = .returns taken none) :
    ¬ l.Polls t.now ∨ (l.Polls t.now ∧ t.poll (l.wait t.now) = .null) := by
  rcases replyTurn_cases uid l t with hc | hc | hc | hc
  · exact Or.inl hc.1
  · exact Or.inr ⟨hc.1, hc.2.1⟩
  · rw [hc.2.2] at h
    contradiction
  · obtain ⟨_, m, _, hagain | ⟨r, hgives⟩⟩ := hc
    · rw [hagain] at h
      contradiction
    · rw [hgives] at h
      cases h

/-- A message is taken from a poll that has reported it. -/
theorem replyTurn_takes {uid : Zuuid} {l : ReplyLoop} {t : Turn} {m : Zmsg}
    (h : (∃ loop, replyTurn uid l t = .again (some m) loop) ∨
      ∃ result, replyTurn uid l t = .returns (some m) result) :
    l.Polls t.now ∧ t.poll (l.wait t.now) = .ready (some m) := by
  rcases replyTurn_cases uid l t with hc | hc | hc | hc
  · simp [hc.2] at h
  · simp [hc.2.2] at h
  · simp [hc.2.2] at h
  · obtain ⟨hp, m', hpoll, hturn⟩ := hc
    refine ⟨hp, ?_⟩
    rcases hturn with hturn | ⟨r, hturn⟩ <;> rw [hturn] at h
    · obtain ⟨_, he⟩ | ⟨_, he⟩ := h
      · cases he
        exact hpoll
      · cases he
    · obtain ⟨_, he⟩ | ⟨_, he⟩ := h
      · cases he
      · cases he
        exact hpoll

/-- The time-out in milliseconds, cut to five minutes, as an `int64_t`. -/
theorem timeout_toInt (timeout : UInt32) :
    ((if timeout > 300 then 300 else timeout) * 1000 : UInt32).toUInt64.toInt64.toInt =
      total timeout := by
  have hlt := timeout.toNat_lt
  have hmul : ((if timeout > 300 then 300 else timeout) * 1000 : UInt32).toNat = total timeout := by
    simp only [total, UInt32.toNat_mul, gt_iff_lt, UInt32.lt_iff_toNat_lt]
    split <;> simp_all <;> omega
  have hle := total_le timeout
  rw [toInt_eq, UInt64.toUInt64_toInt64, UInt32.toNat_toUInt64, hmul, if_pos (by omega)]

/-- The deadline is reckoned without a wrap. -/
theorem requestreplyStart_quit {address subject : Bytes} {timeout : UInt32} {content : Option Zmsg}
    {start : Int64} {uid : Zuuid} {sendresult : Int} {l : ReplyLoop}
    (hlow : 0 ≤ start.toInt) (hhigh : start.toInt < 2 ^ 62)
    (h : (requestreplyStart address subject timeout content start uid sendresult).loop = some l) :
    l.quit.toInt = deadline timeout start := by
  have hquit : l.quit =
      start + ((if timeout > 300 then 300 else timeout) * 1000 : UInt32).toUInt64.toInt64 := by
    unfold requestreplyStart at h
    split at h
    · contradiction
    · split at h
      · contradiction
      · dsimp only at h
        split at h
        · contradiction
        · cases h
          rfl
  have hle := total_le timeout
  rw [hquit, Int64.toInt_add, timeout_toInt, deadline, Int.bmod_eq_of_le] <;> omega

section Deadline

variable {uid : Zuuid} {timeout : UInt32} {start now : Int64} {l : ReplyLoop}

/-- The time left is reckoned without a wrap as well. -/
theorem left_toInt (hquit : l.quit.toInt = deadline timeout start) (hlow : 0 ≤ start.toInt)
    (hnow : start.toInt ≤ now.toInt) (hhigh : now.toInt < 2 ^ 62) :
    (l.left now).toInt = deadline timeout start - now.toInt := by
  have hle := total_le timeout
  unfold ReplyLoop.left
  unfold deadline at hquit ⊢
  rw [Int64.toInt_sub, hquit, Int.bmod_eq_of_le] <;> omega

theorem polls_iff (hquit : l.quit.toInt = deadline timeout start) (hlow : 0 ≤ start.toInt)
    (hnow : start.toInt ≤ now.toInt) (hhigh : now.toInt < 2 ^ 62) :
    l.Polls now ↔ now.toInt < deadline timeout start := by
  unfold ReplyLoop.Polls
  rw [Int64.le_iff_toInt_le, left_toInt hquit hlow hnow hhigh, Int64.toInt_zero]
  omega

/-- A poll is given the time left, which is at most that of the call. -/
theorem ReplyLoop.wait_toInt (hquit : l.quit.toInt = deadline timeout start)
    (hlow : 0 ≤ start.toInt) (hnow : start.toInt ≤ now.toInt) (hhigh : now.toInt < 2 ^ 62)
    (hahead : now.toInt < deadline timeout start) :
    (l.wait now).toInt = deadline timeout start - now.toInt := by
  have hle := total_le timeout
  unfold ReplyLoop.wait
  rw [Int64.toInt_toInt32, left_toInt hquit hlow hnow hhigh]
  unfold deadline at hahead ⊢
  rw [Int.bmod_eq_of_le] <;> omega

theorem Replying.keepsDeadline {s : Replying} (hquit : s.loop.quit.toInt = deadline timeout start)
    (hlow : 0 ≤ start.toInt) (hclock : start.toInt ≤ s.clock.toInt) :
    s.KeepsDeadline uid timeout start := by
  have hpolls : ∀ now : Int64, s.clock.toInt ≤ now.toInt → now.toInt < 2 ^ 62 →
      (s.loop.Polls now ↔ now.toInt < deadline timeout start) := by
    intro now hnow hhigh
    exact polls_iff hquit hlow (Int.le_trans hclock hnow) hhigh
  have hwait : ∀ now : Int64, s.clock.toInt ≤ now.toInt → now.toInt < 2 ^ 62 →
      s.loop.Polls now → (s.loop.wait now).toInt = deadline timeout start - now.toInt := by
    intro now hnow hhigh hp
    exact ReplyLoop.wait_toInt hquit hlow (Int.le_trans hclock hnow) hhigh
      ((hpolls now hnow hhigh).mp hp)
  refine ⟨hquit, ?polls, ?expires, ?overdue, ?takes⟩
  case polls =>
    intro now hnow hhigh hp
    have hahead := (hpolls now hnow hhigh).mp hp
    have hw := hwait now hnow hhigh hp
    have hle := total_le timeout
    unfold deadline at hahead hw ⊢
    omega
  case expires =>
    intro t taken hnow hhigh hreturns
    rcases replyTurn_gaveUp hreturns with hover | ⟨hp, hpoll⟩
    · have hbehind := mt (hpolls t.now hnow hhigh).mpr hover
      exact Or.inl ⟨hover, by omega⟩
    · refine Or.inr ⟨hp, hpoll, ?_⟩
      intro ended hended
      have hw := hwait t.now hnow hhigh hp
      omega
  case overdue =>
    intro t hnow hhigh hbehind
    apply replyTurn_over
    rw [hpolls t.now hnow hhigh]
    omega
  case takes =>
    intro t m hnow hhigh htakes
    obtain ⟨hp, hpoll⟩ := replyTurn_takes htakes
    exact ⟨hp, (hpolls t.now hnow hhigh).mp hp, hpoll⟩

theorem await_eq {s s' : Replying} {t : Turn} (h : await uid s t = some s') :
    s.clock.toInt ≤ t.now.toInt ∧ s' = ⟨s.loop, t.now⟩ := by
  unfold await at h
  split at h
  · rename_i hclock
    refine ⟨hclock, ?_⟩
    rcases replyTurn_cases uid s.loop t with hc | hc | hc | hc
    · simp [hc.2] at h
    · simp [hc.2.2] at h
    · simpa [hc.2.2, eq_comm] using h
    · obtain ⟨_, m, _, hagain | ⟨r, hgives⟩⟩ := hc
      · simpa [hagain, eq_comm] using h
      · simp [hgives] at h
  · contradiction

end Deadline

/-- A call of `requestreply` keeps one deadline, whatever arrives and however
long it takes. -/
theorem requestreply_keeps_deadline {address subject : Bytes} {timeout : UInt32}
    {content : Option Zmsg} {start : Int64} {uid : Zuuid} {sendresult : Int} {l : ReplyLoop}
    (hlow : 0 ≤ start.toInt) (hhigh : start.toInt < 2 ^ 62)
    (h : (requestreplyStart address subject timeout content start uid sendresult).loop = some l)
    (turns : List Turn) :
    Always (await uid) (Replying.KeepsDeadline uid timeout start) ⟨l, start⟩ turns := by
  have hquit := requestreplyStart_quit hlow hhigh h
  have hgo : Guarded (await uid) (fun _ _ => True) ⟨l, start⟩ turns :=
    guarded_of_forall fun _ _ _ => trivial
  refine ⟨Replying.keepsDeadline hquit hlow (Int.le_refl _), ?_⟩
  refine along_of_guarded (I := fun s => s.loop.quit.toInt = deadline timeout start ∧
    start.toInt ≤ s.clock.toInt) ⟨hquit, Int.le_refl _⟩ hgo ?_
  intro s t s' hs _ hstep
  obtain ⟨hclock, rfl⟩ := await_eq hstep
  have hstart := Int.le_trans hs.2 hclock
  exact ⟨⟨hs.1, hstart⟩, Replying.keepsDeadline hs.1 hlow hstart⟩

def requestUid : Zuuid := ⟨ofString "5c6d", by decide, by decide⟩

/-- A message for somebody else, half a second before the deadline. -/
def crowded : List Turn := [⟨500, fun _ => .ready (some [ofString "stray"])⟩]

theorem crowded_keeps_deadline :
    exec (await requestUid) ⟨⟨1000⟩, 0⟩ crowded = some ⟨⟨1000⟩, 500⟩ ∧
    Always (await requestUid) (Replying.KeepsDeadline requestUid 1 0) ⟨⟨1000⟩, 0⟩ crowded := by
  refine ⟨rfl, ?_⟩
  have hloop : (requestreplyStart (ofString "agent") (ofString "topic") 1 (some []) 0 requestUid
      0).loop = some ⟨1000⟩ := rfl
  exact requestreply_keeps_deadline (by decide) (by decide) hloop crowded

end FtyCommonMlm.MlmClient
