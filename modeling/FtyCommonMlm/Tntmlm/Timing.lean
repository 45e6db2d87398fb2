import Mathlib.Algebra.Order.Ring.Int
import FtyCommonMlm.Lib.Runs
import FtyCommonMlm.Tntmlm.Client

namespace FtyCommonMlm.MlmClient
open Runs
open Bytes (ofString)

/-- What the surroundings make of a turn of `recv`: the instant of the poll, the
next message for the client and the instant it arrives, if there is one, and
the clock behind the poll. -/
structure Offer where
  polled : Int
  next : Option (Int × Zmsg)
  now : Int64

/-- `zpoller_wait`: it reports a message that is there or arrives within the
time-out, and is null after the time-out without one. -/
def Offer.poll (o : Offer) (wait : Int32) : Poll :=
  match o.next with
  | none => .null
  | some (arrival, m) => if arrival ≤ o.polled + wait.toInt then .ready (some m) else .null

def Offer.turn (o : Offer) : Turn := ⟨o.now, o.poll⟩

/-- A `recv` that has not returned yet, and the last reading of the clock. -/
structure Waiting where
  loop : RecvLoop
  clock : Int64

def Waiting.start (timeout : UInt32) (now : Int64) : Waiting := ⟨recvStart timeout now, now⟩

/-- A turn that does not return, on a clock that does not go back. -/
def discard (uuid : Bytes) (s : Waiting) (o : Offer) : Option Waiting :=
  if s.clock.toInt ≤ o.polled ∧ o.polled ≤ o.now.toInt then
    match recvTurn uuid s.loop o.turn with
    | .again _ loop => some ⟨loop, o.now⟩
    | .returns _ _ => none
  else none

/-- The time-out of a call in milliseconds. -/
def total (timeout : UInt32) : Nat := min timeout.toNat 300 * 1000

def deadline (timeout : UInt32) (start : Int64) : Int := start.toInt + total timeout

/-- The milliseconds from the start of a call to a reading of the clock. -/
def elapsed (start now : Int64) : Nat := (now.toInt - start.toInt).toNat

theorem toInt_eq (x : Int64) :
    x.toInt = if x.toUInt64.toNat < 2 ^ 63 then (x.toUInt64.toNat : Int)
      else (x.toUInt64.toNat : Int) - 2 ^ 64 := by
  rw [← Int64.toInt_toBitVec, BitVec.toInt_eq_toNat_cond, Int64.toNat_toBitVec]
  split <;> split <;> omega

/-- The unsigned difference of two readings is the time between them. -/
theorem sub_toNat {start now : Int64} (h : start.toInt ≤ now.toInt) :
    (now.toUInt64 - start.toUInt64).toNat = elapsed start now := by
  have hstart := toInt_eq start
  have hnow := toInt_eq now
  have hlt := start.toUInt64.toNat_lt
  have hlt' := now.toUInt64.toNat_lt
  rw [UInt64.toNat_sub, elapsed]
  split at hstart <;> split at hnow <;> omega

theorem start_pollerTimeout (timeout : UInt32) (now : Int64) :
    (Waiting.start timeout now).loop.pollerTimeout.toNat = total timeout := by
  have hlt := timeout.toNat_lt
  simp only [Waiting.start, recvStart, total, UInt64.toNat_mul, gt_iff_lt, UInt64.lt_iff_toNat_lt]
  split <;> simp_all <;> omega

theorem total_le (timeout : UInt32) : total timeout ≤ 300000 := by
  unfold total
  omega

/-- The time-out is never too large for the conversion to `int`. -/
theorem wait_toInt {l : RecvLoop} (timeout : UInt32) (h : l.pollerTimeout.toNat ≤ total timeout) :
    l.wait.toInt = l.pollerTimeout.toNat := by
  have hle := total_le timeout
  have hmod : l.pollerTimeout.toUInt32.toNat = l.pollerTimeout.toNat := by
    rw [UInt64.toNat_toUInt32]
    omega
  unfold RecvLoop.wait
  rw [← Int32.toInt_toBitVec, UInt32.toBitVec_toInt32, BitVec.toInt_eq_toNat_cond,
    UInt32.toNat_toBitVec, hmod]
  split <;> omega

/-- The subtraction stops at zero. -/
theorem RecvLoop.read_toNat (l : RecvLoop) (now : Int64) :
    (l.read now).pollerTimeout.toNat =
      l.pollerTimeout.toNat - (now.toUInt64 - l.start).toNat := by
  simp only [RecvLoop.read]
  split
  · rename_i hge
    rw [ge_iff_le, UInt64.le_iff_toNat_le] at hge
    rw [Nat.sub_eq_zero_of_le hge]
    rfl
  · rename_i hlt
    rw [ge_iff_le, UInt64.not_le] at hlt
    rw [UInt64.toNat_sub_of_le _ _ (UInt64.le_of_lt hlt)]

theorem Offer.poll_ready {l : RecvLoop} {o : Offer} {arrival : Int} {m : Zmsg}
    (hn : o.next = some (arrival, m)) (ha : arrival ≤ o.polled + l.wait.toInt) :
    o.turn.poll l.wait = .ready (some m) := by
  simp only [Offer.turn, Offer.poll, hn, if_pos ha]

/-- A turn that does not return takes a message that is not for the call. -/
theorem discard_eq {uuid : Bytes} {s t : Waiting} {o : Offer} :
    discard uuid s o = some t ↔
      s.clock.toInt ≤ o.polled ∧ o.polled ≤ o.now.toInt ∧
      (∃ arrival m, o.next = some (arrival, m) ∧ arrival ≤ o.polled + s.loop.wait.toInt ∧
        behind [uuid] m = none) ∧
      t = ⟨s.loop.read o.now, o.now⟩ := by
  constructor
  · intro h
    unfold discard at h
    split at h
    · rename_i horder
      refine ⟨horder.1, horder.2, ?_⟩
      cases hn : o.next with
      | none => simp [Offer.turn, Offer.poll, hn, recvTurn] at h
      | some offered =>
        obtain ⟨arrival, m⟩ := offered
        by_cases ha : arrival ≤ o.polled + s.loop.wait.toInt
        · rw [recvTurn_ready uuid (Offer.poll_ready hn ha)] at h
          cases hm : behind [uuid] m with
          | none =>
            simp only [hm, Option.some.injEq] at h
            exact ⟨⟨arrival, m, rfl, ha, hm⟩, h.symm⟩
          | some r => simp [hm] at h
        · simp [Offer.turn, Offer.poll, hn, ha, recvTurn] at h
    · contradiction
  · intro h
    obtain ⟨hpolls, hreads, ⟨arrival, m, hn, ha, hm⟩, ht⟩ := h
    unfold discard
    rw [if_pos ⟨hpolls, hreads⟩, recvTurn_ready uuid (Offer.poll_ready hn ha), hm, ht]
    rfl

/-- A loop that has begun at `start` and read the clock since. -/
structure Waiting.Since (start : Int64) (s : Waiting) : Prop where
  begun : s.loop.start = start.toUInt64
  clock : start.toInt ≤ s.clock.toInt

theorem start_since (timeout : UInt32) (start : Int64) :
    (Waiting.start timeout start).Since start := ⟨rfl, Int.le_refl _⟩

/-- One turn takes the time since the start of the call, not the time since the
turn before, off the time-out. -/
theorem Waiting.Since.turn {uuid : Bytes} {start : Int64} {s t : Waiting} {o : Offer}
    (hs : s.Since start) (h : discard uuid s o = some t) :
    t.Since start ∧ t.clock = o.now ∧
      t.loop.pollerTimeout.toNat = s.loop.pollerTimeout.toNat - elapsed start o.now := by
  obtain ⟨hpolls, hreads, _, rfl⟩ := discard_eq.mp h
  have hclock : start.toInt ≤ o.now.toInt := by
    have hle := hs.clock
    omega
  refine ⟨⟨hs.begun, hclock⟩, rfl, ?_⟩
  rw [RecvLoop.read_toNat, hs.begun, sub_toNat hclock]

/-- Over a run each reading takes its whole distance from the start off the
time-out. -/
theorem Waiting.Since.run {uuid : Bytes} {start : Int64} {s t : Waiting}
    {discarded : List Offer} (hs : s.Since start)
    (h : exec (discard uuid) s discarded = some t) :
    t.Since start ∧ (∀ o ∈ discarded, start.toInt ≤ o.now.toInt) ∧
      t.loop.pollerTimeout.toNat =
        s.loop.pollerTimeout.toNat - (discarded.map fun o => elapsed start o.now).sum := by
  induction discarded generalizing s with
  | nil =>
    cases h
    exact ⟨hs, by simp, by simp⟩
  | cons o discarded ih =>
    obtain ⟨r, hr, ht⟩ := exec_cons.mp h
    obtain ⟨hr', hclock, htimeout⟩ := hs.turn hr
    obtain ⟨ht', hnow, hsum⟩ := ih hr' ht
    refine ⟨ht', ?_, ?_⟩
    · intro o' ho'
      rcases List.mem_cons.mp ho' with rfl | ho'
      · exact hclock ▸ hr'.clock
      · exact hnow o' ho'
    · rw [hsum, htimeout, List.map_cons, List.sum_cons]
      omega

/-- What is left of the time-out behind the messages a call has discarded. -/
theorem left_after {uuid : Bytes} {timeout : UInt32} {start : Int64} {s : Waiting}
    {discarded : List Offer}
    (h : exec (discard uuid) (Waiting.start timeout start) discarded = some s) :
    s.Since start ∧ (∀ o ∈ discarded, start.toInt ≤ o.now.toInt) ∧
      s.loop.pollerTimeout.toNat =
        total timeout - (discarded.map fun o => elapsed start o.now).sum := by
  rw [← start_pollerTimeout timeout start]
  exact (start_since timeout start).run h

/-- The documented time-out, at a wait of the call that began at `start`: the
poll is not null before the deadline, and a message for the call that arrives
before the deadline is returned. -/
structure Waiting.KeepsTimeout (uuid : Bytes) (timeout : UInt32) (start : Int64) (s : Waiting) :
    Prop where
  expiry : ∀ o : Offer, s.clock.toInt ≤ o.polled → o.poll s.loop.wait = .null →
    deadline timeout start ≤ o.polled + s.loop.wait.toInt
  returned : ∀ (o : Offer) arrival m r, s.clock.toInt ≤ o.polled →
    o.next = some (arrival, m) → behind [uuid] m = some r → arrival < deadline timeout start →
    recvTurn uuid s.loop o.turn = .returns (some m) (some r)

/-- It is kept where the poll that begins at once lasts until the deadline. -/
theorem keepsTimeout_iff_lasts {uuid : Bytes} {timeout : UInt32} {start : Int64} {s : Waiting} :
    s.KeepsTimeout uuid timeout start ↔
      deadline timeout start ≤ s.clock.toInt + s.loop.wait.toInt := by
  constructor
  · intro h
    exact h.expiry ⟨s.clock.toInt, none, s.clock⟩ (Int.le_refl _) rfl
  · intro h
    refine ⟨?_, ?_⟩
    · intro o ho _
      omega
    · intro o arrival m r ho hn hm ha
      rw [recvTurn_ready uuid (Offer.poll_ready hn (by omega)), hm]

theorem elapsed_eq_zero_iff {start now : Int64} (h : start.toInt ≤ now.toInt) :
    elapsed start now = 0 ↔ now = start := by
  rw [← Int64.toInt_inj]
  unfold elapsed
  omega

/-- `recv` keeps to its time-out behind any number of discarded messages exactly
if the clock had not moved when it read the ones before the last, or the
deadline has passed. -/
theorem keeps_timeout_iff (uuid : Bytes) (timeout : UInt32) (start : Int64)
    (discarded : List Offer) (s : Waiting)
    (h : exec (discard uuid) (Waiting.start timeout start) discarded = some s) :
    s.KeepsTimeout uuid timeout start ↔
      (∀ o ∈ discarded.dropLast, o.now = start) ∨ deadline timeout start ≤ s.clock.toInt := by
  obtain ⟨hs, hnow, hleft⟩ := left_after h
  rw [keepsTimeout_iff_lasts, wait_toInt timeout (by omega), hleft]
  rcases List.eq_nil_or_concat discarded with rfl | ⟨earlier, o, rfl⟩
  · cases h
    simp [deadline, Waiting.start]
  · rw [List.concat_eq_append] at h hnow ⊢
    obtain ⟨r, hr, ht⟩ := exec_append.mp h
    obtain ⟨t, ht, he⟩ := exec_cons.mp ht
    cases he
    obtain ⟨_, hclock, _⟩ := (left_after hr).1.turn ht
    have hlast : s.clock.toInt = start.toInt + elapsed start o.now := by
      have hle := hs.clock
      rw [hclock] at hle ⊢
      unfold elapsed
      omega
    have hearlier : (∀ o' ∈ earlier, o'.now = start) ↔
        (earlier.map fun o => elapsed start o.now).sum = 0 := by
      rw [List.sum_eq_zero_iff_forall_eq_nat]
      simp only [List.mem_map, forall_exists_index, and_imp, forall_apply_eq_imp_iff₂]
      refine forall₂_congr fun o' ho' => ?_
      exact (elapsed_eq_zero_iff (hnow o' (List.mem_append_left _ ho'))).symm
    rw [List.dropLast_concat, hearlier, hlast, List.map_append, List.sum_append]
    simp only [List.map_cons, List.map_nil, List.sum_cons, List.sum_nil, deadline]
    omega

/-- A message that is not for the call, taken at the instant it arrives. -/
def otherAt (polled : Int) (now : Int64) : Offer :=
  ⟨polled, some (now.toInt, [ofString "other", ofString "text"]), now⟩

theorem burst_keeps_timeout : ∃ s, exec (discard (ofString "call")) (Waiting.start 10 0)
      [otherAt 0 0, otherAt 0 0, otherAt 0 400] = some s ∧
    s.KeepsTimeout (ofString "call") 10 0 := by
  obtain ⟨s, hs⟩ : ∃ s, exec (discard (ofString "call")) (Waiting.start 10 0)
    [otherAt 0 0, otherAt 0 0, otherAt 0 400] = some s := ⟨_, rfl⟩
  refine ⟨s, hs, (keeps_timeout_iff (ofString "call") 10 0 _ s hs).mpr (Or.inl ?_)⟩
  simp [otherAt]

/-- A ten-second call that expires after seven, ahead of its reply. -/
theorem expires_early : ∃ s, exec (discard (ofString "call")) (Waiting.start 10 0)
      [otherAt 0 3000, otherAt 3000 4000] = some s ∧
    s.clock = 4000 ∧ s.loop.wait = 3000 ∧ deadline 10 0 = 10000 ∧
    Offer.poll ⟨4000, some (8000, [ofString "call", ofString "reply"]), 8000⟩ s.loop.wait = .null :=
  ⟨_, rfl, rfl, rfl, rfl, rfl⟩

/-- The clock does not go back along a stream. -/
structure Chronological (start : Int64) (stream : Nat → Offer) : Prop where
  begins : start.toInt ≤ (stream 0).polled
  reads : ∀ k, (stream k).polled ≤ (stream k).now.toInt
  polls : ∀ k, (stream k).now.toInt ≤ (stream (k + 1)).polled

/-- The loop behind the first turns of a stream, if none of them returns. -/
def turns (uuid : Bytes) (timeout : UInt32) (start : Int64) (stream : Nat → Offer) (k : Nat) :
    Option Waiting :=
  exec (discard uuid) (Waiting.start timeout start) ((List.range k).map stream)

/-- At most one message is taken once the deadline has passed, and the loop
ends if it passes. -/
structure EndsInTime (uuid : Bytes) (timeout : UInt32) (start : Int64) (stream : Nat → Offer) :
    Prop where
  oneMore : ∀ j k, j < k → deadline timeout start ≤ (stream j).now.toInt →
    turns uuid timeout start stream (k + 1) = none
  ends : (∃ k, deadline timeout start ≤ (stream k).now.toInt) →
    ∃ n, turns uuid timeout start stream n = none

section Stream

variable {uuid : Bytes} {timeout : UInt32} {start : Int64} {stream : Nat → Offer} {k n : Nat}
  {s t : Waiting}

theorem turns_succ : turns uuid timeout start stream (k + 1) = some t ↔
    ∃ s, turns uuid timeout start stream k = some s ∧ discard uuid s (stream k) = some t := by
  unfold turns
  rw [List.range_succ, List.map_append, exec_append]
  simp [exec]

theorem turns_of_le (h : turns uuid timeout start stream n = some t) (hk : k ≤ n) :
    ∃ s, turns uuid timeout start stream k = some s := by
  induction n, hk using Nat.le_induction generalizing t with
  | base => exact ⟨t, h⟩
  | succ n _ ih =>
    obtain ⟨s, hs, _⟩ := turns_succ.mp h
    exact ih hs

/-- Once the deadline has passed, the polls do not wait. -/
theorem turns_past_deadline (h : turns uuid timeout start stream (k + 1) = some s)
    (hk : deadline timeout start ≤ (stream k).now.toInt) :
    s.clock = (stream k).now ∧ s.loop.wait.toInt = 0 := by
  obtain ⟨r, hr, hs⟩ := turns_succ.mp h
  obtain ⟨hsince, _, hleft⟩ := left_after hr
  obtain ⟨_, hclock, htimeout⟩ := hsince.turn hs
  have hzero : s.loop.pollerTimeout.toNat = 0 := by
    unfold deadline at hk
    unfold elapsed at htimeout
    omega
  refine ⟨hclock, ?_⟩
  rw [wait_toInt timeout (by omega), hzero]
  rfl

end Stream

/-- A `recv` that takes messages for others ends in time exactly if, whenever it
takes one past the deadline, the next message has not arrived when it polls
again. -/
theorem ends_in_time_iff (uuid : Bytes) (timeout : UInt32) (start : Int64)
    (stream : Nat → Offer) (hclock : Chronological start stream)
    (hothers : ∀ k arrival m, (stream k).next = some (arrival, m) → behind [uuid] m = none) :
    EndsInTime uuid timeout start stream ↔
      ∀ k s, turns uuid timeout start stream (k + 1) = some s →
        deadline timeout start ≤ (stream k).now.toInt →
        ∀ arrival m, (stream (k + 1)).next = some (arrival, m) →
          (stream (k + 1)).polled < arrival := by
  constructor
  · intro h k s hs hk arrival m hn
    by_contra harrived
    obtain ⟨hat, hwait⟩ := turns_past_deadline hs hk
    have htaken : discard uuid s (stream (k + 1)) = some _ :=
      discard_eq.mpr ⟨by rw [hat]; exact hclock.polls k, hclock.reads (k + 1),
        ⟨arrival, m, hn, by omega, hothers (k + 1) arrival m hn⟩, rfl⟩
    have hnone := h.oneMore k (k + 1) (Nat.lt_succ_self k) hk
    rw [turns_succ.mpr ⟨s, hs, htaken⟩] at hnone
    contradiction
  · intro h
    have hstops : ∀ j, deadline timeout start ≤ (stream j).now.toInt →
        turns uuid timeout start stream (j + 2) = none := by
      intro j hj
      by_contra hsome
      obtain ⟨t, ht⟩ := Option.ne_none_iff_exists'.mp hsome
      obtain ⟨s, hs, htaken⟩ := turns_succ.mp ht
      obtain ⟨_, hwait⟩ := turns_past_deadline hs hj
      obtain ⟨_, _, ⟨arrival, m, hn, ha, _⟩, _⟩ := discard_eq.mp htaken
      have hlate := h j s hs hj arrival m hn
      omega
    refine ⟨?_, ?_⟩
    · intro j k hlt hj
      by_contra hsome
      obtain ⟨t, ht⟩ := Option.ne_none_iff_exists'.mp hsome
      obtain ⟨s, hs⟩ := turns_of_le (k := j + 2) ht (by omega)
      rw [hstops j hj] at hs
      contradiction
    · intro hpast
      obtain ⟨k, hk⟩ := hpast
      exact ⟨k + 2, hstops k hk⟩

/-- One message at the deadline, and then none. -/
def lastMinute : Nat → Offer
  | 0 => otherAt 0 1000
  | _ + 1 => ⟨1000, none, 1000⟩

theorem last_minute_ends_in_time : EndsInTime (ofString "call") 1 0 lastMinute := by
  refine (ends_in_time_iff (ofString "call") 1 0 lastMinute ?_ ?_).mpr ?_
  · refine ⟨?_, ?_, ?_⟩
    · decide
    · intro k
      cases k with
      | zero => decide
      | succ k => exact Int.le_refl 1000
    · intro k
      cases k <;> exact Int.le_refl 1000
  · intro k arrival m hn
    cases k with
    | zero =>
      cases hn
      rfl
    | succ k => contradiction
  · intro k s _ _ arrival m hn
    contradiction

/-- Messages that are always there already. -/
def flood : Nat → Offer
  | 0 => otherAt 0 1000
  | _ + 1 => otherAt 1000 1000

theorem flood_never_ends : Chronological 0 flood ∧
    (∀ k arrival m, (flood k).next = some (arrival, m) → behind [ofString "call"] m = none) ∧
    deadline 1 0 ≤ (flood 0).now.toInt ∧
    ∀ k, ∃ s, turns (ofString "call") 1 0 flood k = some s := by
  refine ⟨⟨?_, ?_, ?_⟩, ?_, ?_, ?_⟩
  · decide
  · intro k
    cases k with
    | zero => decide
    | succ k => exact Int.le_refl 1000
  · intro k
    cases k <;> exact Int.le_refl 1000
  · intro k arrival m hn
    cases k <;> (cases hn; rfl)
  · decide
  · intro k
    have hall : turns (ofString "call") 1 0 flood (k + 1) = some ⟨⟨0, 0⟩, 1000⟩ := by
      induction k with
      | zero => rfl
      | succ k ih => exact turns_succ.mpr ⟨_, ih, rfl⟩
    exact turns_of_le hall (Nat.le_succ k)

end FtyCommonMlm.MlmClient
