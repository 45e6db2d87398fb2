import Mathlib.Data.List.Chain
import FtyCommonMlm.Agent.Mainloop

namespace FtyCommonMlm.MlmAgent
open Runs
open Bytes (ofString)

variable {State : Type}

/-- The clock reading of a turn. -/
def Event.reading : Event → Option Int64
  | .interrupted => none
  | .turn t => some t.curClock

/-- The reading is far enough from the end of the clock for the time-out to be
added to it. -/
def Ahead (pollerTimeout : Int32) (c : Int64) : Prop :=
  c.toInt + pollerTimeout.toInt ≤ Int64.maxValue.toInt

/-- A turn notes its reading just in case `tick` is called in it, and the rest of
the turn finds what `tick` leaves. -/
def Calls (agent : MlmAgent State) (l : Loop State) (e : Event) (l' : Loop State) : Prop :=
  ∀ t, e = .turn t →
    (l'.ticks = l.ticks ++ [t.curClock] ∧
      l'.state = if (agent.tick l.state).2 = .returns true then
          ({ l with state := (agent.tick l.state).1 }.dispatch agent t.which).state
        else (agent.tick l.state).1) ∨
    (l'.ticks = l.ticks ∧ l'.state = (l.dispatch agent t.which).state)

/-- What a method does to a loop besides its state and status. -/
theorem after_keeps (l : Loop State) (ended : State × Ending) :
    (l.after ended).lastTick = l.lastTick ∧ (l.after ended).ticks = l.ticks := by
  match ended with
  | (_, .returns true) => exact ⟨rfl, rfl⟩
  | (_, .returns false) => exact ⟨rfl, rfl⟩
  | (_, .throws) => exact ⟨rfl, rfl⟩
  | (_, .crashes) => exact ⟨rfl, rfl⟩

theorem after_running {l : Loop State} {ended : State × Ending} (hl : l.status = .running) :
    (l.after ended).status = .running ↔ ended.2 = .returns true := by
  match ended with
  | (_, .returns true) => simpa [Loop.after] using hl
  | (_, .returns false) => simp [Loop.after]
  | (_, .throws) => simp [Loop.after]
  | (_, .crashes) => simp [Loop.after]

theorem dispatch_keeps (agent : MlmAgent State) (l : Loop State) (which : Which) :
    (l.dispatch agent which).lastTick = l.lastTick ∧
      (l.dispatch agent which).ticks = l.ticks := by
  match which with
  | .null => exact ⟨rfl, rfl⟩
  | .pipe none => exact ⟨rfl, rfl⟩
  | .pipe (some message) => exact after_keeps _ _
  | .client none => exact ⟨rfl, rfl⟩
  | .client (some delivery) =>
    simp only [Loop.dispatch]
    split
    · exact after_keeps _ _
    · split
      · exact after_keeps _ _
      · exact ⟨rfl, rfl⟩
  | .other _ none => exact ⟨rfl, rfl⟩
  | .other which (some message) => exact after_keeps _ _

/-- What comes to the loop is handled on the state alone. -/
theorem dispatch_state {agent : MlmAgent State} {l l' : Loop State} (h : l'.state = l.state)
    (which : Which) : (l'.dispatch agent which).state = (l.dispatch agent which).state := by
  match which with
  | .null => exact h
  | .pipe none => exact h
  | .pipe (some message) => simp [Loop.dispatch, h]
  | .client none => exact h
  | .client (some delivery) =>
    simp only [Loop.dispatch]
    split
    · simp [h]
    · split
      · simp [h]
      · exact h
  | .other _ none => exact h
  | .other which (some message) => simp [Loop.dispatch, h]

/-- The hook is due when the time-out has passed since the last tick. -/
theorem due_iff {pollerTimeout : Int32} {lastTick curClock : Int64} (hT : 0 < pollerTimeout)
    (hlast : Ahead pollerTimeout lastTick) :
    lastTick + pollerTimeout.toInt64 < curClock ↔
      lastTick.toInt + pollerTimeout.toInt < curClock.toInt := by
  have hpos : 0 < pollerTimeout.toInt := Int32.lt_iff_toInt_lt.mp hT
  have hlow := Int64.le_toInt lastTick
  rw [Ahead, Int64.toInt_maxValue] at hlast
  rw [Int64.lt_iff_toInt_lt, Int64.toInt_add, Int32.toInt_toInt64, Int.bmod_eq_of_le] <;> omega

/-- The hook calls `tick` if it is due, and does nothing otherwise. -/
theorem hook_spec (agent : MlmAgent State) {pollerTimeout : Int32} {l : Loop State}
    (curClock : Int64) (hT : 0 < pollerTimeout) (hl : l.status = .running)
    (hlast : Ahead pollerTimeout l.lastTick) :
    (l.lastTick.toInt + pollerTimeout.toInt < curClock.toInt ∧
      (l.hook agent pollerTimeout curClock).ticks = l.ticks ++ [curClock] ∧
      (l.hook agent pollerTimeout curClock).state = (agent.tick l.state).1 ∧
      ((l.hook agent pollerTimeout curClock).status = .running ↔
        (agent.tick l.state).2 = .returns true) ∧
      ((l.hook agent pollerTimeout curClock).status = .running →
        (l.hook agent pollerTimeout curClock).lastTick = curClock)) ∨
    (curClock.toInt ≤ l.lastTick.toInt + pollerTimeout.toInt ∧
      l.hook agent pollerTimeout curClock = l) := by
  by_cases hdue : l.lastTick + pollerTimeout.toInt64 < curClock
  · refine Or.inl ⟨(due_iff hT hlast).mp hdue, ?_⟩
    have hticks : (l.callTick agent curClock).ticks = l.ticks ++ [curClock] :=
      (after_keeps _ _).2
    have hstate : (l.callTick agent curClock).state = (agent.tick l.state).1 :=
      Loop.after_state _ _
    have hstatus : (l.callTick agent curClock).status = .running ↔
        (agent.tick l.state).2 = .returns true := after_running hl
    rw [Loop.hook, if_pos ⟨hT, hdue⟩]
    dsimp only
    split
    · exact ⟨hticks, hstate, hstatus, fun _ => rfl⟩
    · rename_i hstopped
      exact ⟨hticks, hstate, hstatus, fun hrunning => absurd hrunning hstopped⟩
  · refine Or.inr ⟨?_, if_neg fun h => hdue h.2⟩
    exact Int.not_lt.mp fun hlt => hdue ((due_iff hT hlast).mpr hlt)

theorem turn_spec (agent : MlmAgent State) (pollerTimeout : Int32) (l : Loop State) (t : Turn) :
    (l.turn agent pollerTimeout t).ticks = (l.hook agent pollerTimeout t.curClock).ticks ∧
    ((l.turn agent pollerTimeout t).status = .running →
      (l.hook agent pollerTimeout t.curClock).status = .running ∧
      (l.turn agent pollerTimeout t).lastTick =
        (l.hook agent pollerTimeout t.curClock).lastTick) := by
  unfold Loop.turn
  dsimp only
  split
  · rename_i hrunning
    obtain ⟨hlast, hticks⟩ := dispatch_keeps agent (l.hook agent pollerTimeout t.curClock) t.which
    exact ⟨hticks, fun _ => ⟨hrunning, hlast⟩⟩
  · rename_i hstopped
    exact ⟨rfl, fun hrunning => absurd hrunning hstopped⟩

theorem calls_of_turn {agent : MlmAgent State} {pollerTimeout : Int32} {l : Loop State}
    (hT : 0 < pollerTimeout) (hl : l.status = .running) (hlast : Ahead pollerTimeout l.lastTick)
    (t : Turn) : Calls agent l (.turn t) (l.turn agent pollerTimeout t) := by
  intro t' ht
  cases ht
  have hticks := turn_spec agent pollerTimeout l t
  rcases hook_spec agent t.curClock hT hl hlast with ⟨-, hcalled, hstate, hstatus, -⟩ | ⟨-, hsame⟩
  · refine Or.inl ⟨hticks.1.trans hcalled, ?_⟩
    unfold Loop.turn
    dsimp only
    simp only [hstatus]
    split
    · exact dispatch_state hstate t.which
    · exact hstate
  · refine Or.inr ⟨hticks.1.trans (congrArg Loop.ticks hsame), ?_⟩
    unfold Loop.turn
    dsimp only
    rw [hsame, if_pos hl]

/-- The readings made so far, those at which `tick` was called, and the loop. -/
structure Paced (pollerTimeout : Int32) (start : Int64) (readings : List Int64) (l : Loop State) :
    Prop where
  apart : l.ticks.IsChain fun a b => a.toInt + pollerTimeout.toInt < b.toInt
  close : (readings.IsChain fun a b => b.toInt ≤ a.toInt + pollerTimeout.toInt) →
    l.ticks.IsChain fun a b => b.toInt ≤ a.toInt + 2 * pollerTimeout.toInt
  read : ∀ c ∈ l.ticks, c ∈ readings
  last : l.status = .running → l.lastTick = l.ticks.getLast?.getD start
  kept : l.status = .running → ∀ c, readings.getLast? = some c →
    c.toInt ≤ l.lastTick.toInt + pollerTimeout.toInt

theorem start_paced (pollerTimeout : Int32) (start : Int64) (state : State) :
    Paced pollerTimeout start [] (Loop.start start state) :=
  ⟨.nil, fun _ => .nil, by simp [Loop.start], fun _ => rfl, by simp⟩

section Turns

variable {agent : MlmAgent State} {pollerTimeout : Int32} {start : Int64}
  {readings : List Int64} {l : Loop State}

/-- The last tick was called at one of the readings, or is the start. -/
theorem Paced.ahead (hl : Paced pollerTimeout start readings l) (hrunning : l.status = .running)
    (hclock : ∀ c ∈ start :: readings, Ahead pollerTimeout c) :
    Ahead pollerTimeout l.lastTick := by
  rw [hl.last hrunning]
  cases hlast : l.ticks.getLast? with
  | none => exact hclock start List.mem_cons_self
  | some c =>
    exact hclock c (List.mem_cons_of_mem _ (hl.read c (List.mem_of_getLast? hlast)))

/-- `tick` is called at the reading, which is past the time-out. -/
theorem Paced.called {l' : Loop State} {c : Int64} (hT : 0 < pollerTimeout)
    (hl : Paced pollerTimeout start readings l) (hrunning : l.status = .running)
    (hdue : l.lastTick.toInt + pollerTimeout.toInt < c.toInt) (hticks : l'.ticks = l.ticks ++ [c])
    (hlast : l'.status = .running → l'.lastTick = c) :
    Paced pollerTimeout start (readings ++ [c]) l' := by
  have hbefore := hl.last hrunning
  refine ⟨?_, ?_, ?_, ?_, ?_⟩
  · rw [hticks]
    refine List.isChain_append.mpr ⟨hl.apart, .singleton _, ?_⟩
    intro a ha b hb
    cases hb
    rw [hbefore, Option.mem_def.mp ha] at hdue
    exact hdue
  · intro hreadings
    rw [hticks]
    obtain ⟨hclose, _, hnext⟩ := List.isChain_append.mp hreadings
    refine List.isChain_append.mpr ⟨hl.close hclose, .singleton _, ?_⟩
    intro a ha b hb
    cases hb
    -- the reading before the tick was within the time-out of the tick before
    have hsome : readings ≠ [] :=
      List.ne_nil_of_mem (hl.read a (List.mem_of_getLast? ha))
    have hr := List.getLast?_eq_some_getLast hsome
    have hwithin := hl.kept hrunning _ hr
    have hstep := hnext _ hr c rfl
    rw [hbefore, Option.mem_def.mp ha] at hwithin
    simp only [Option.getD_some] at hwithin
    omega
  · intro b hb
    rw [hticks] at hb
    rcases List.mem_append.mp hb with hb | hb
    · exact List.mem_append_left _ (hl.read b hb)
    · exact List.mem_append_right _ hb
  · intro hon
    rw [hlast hon, hticks, List.getLast?_concat]
    rfl
  · intro hon b hb
    have hpos : 0 < pollerTimeout.toInt := Int32.lt_iff_toInt_lt.mp hT
    rw [List.getLast?_concat] at hb
    cases hb
    rw [hlast hon]
    omega

/-- `tick` is not called at the reading, which is within the time-out. -/
theorem Paced.passed {l' : Loop State} {c : Int64} (hl : Paced pollerTimeout start readings l)
    (hrunning : l.status = .running)
    (hdue : c.toInt ≤ l.lastTick.toInt + pollerTimeout.toInt) (hticks : l'.ticks = l.ticks)
    (hlast : l'.status = .running → l'.lastTick = l.lastTick) :
    Paced pollerTimeout start (readings ++ [c]) l' := by
  refine ⟨by rw [hticks]; exact hl.apart, ?_, ?_, ?_, ?_⟩
  · intro hreadings
    rw [hticks]
    exact hl.close (List.isChain_append.mp hreadings).1
  · intro b hb
    rw [hticks] at hb
    exact List.mem_append_left _ (hl.read b hb)
  · intro hon
    rw [hlast hon, hl.last hrunning, hticks]
  · intro hon b hb
    rw [List.getLast?_concat] at hb
    cases hb
    rw [hlast hon]
    exact hdue

theorem Paced.turn (hT : 0 < pollerTimeout) (hl : Paced pollerTimeout start readings l)
    (hrunning : l.status = .running) (hlastTick : Ahead pollerTimeout l.lastTick) (t : Turn) :
    Paced pollerTimeout start (readings ++ [t.curClock]) (l.turn agent pollerTimeout t) := by
  obtain ⟨hturned, hgoes⟩ := turn_spec agent pollerTimeout l t
  rcases hook_spec agent t.curClock hT hrunning hlastTick with
    ⟨hdue, hcalled, _, _, hmoved⟩ | ⟨hdue, hsame⟩
  · refine hl.called hT hrunning hdue (hturned.trans hcalled) ?_
    intro hon
    obtain ⟨hhook, hlast⟩ := hgoes hon
    exact hlast.trans (hmoved hhook)
  · rw [hsame] at hturned hgoes
    exact hl.passed hrunning hdue hturned fun hon => (hgoes hon).2

theorem Paced.step {l' : Loop State} {event : Event} (hT : 0 < pollerTimeout)
    (hl : Paced pollerTimeout start readings l)
    (hclock : ∀ c ∈ start :: readings, Ahead pollerTimeout c)
    (h : mainloop agent pollerTimeout l event = some l') :
    Paced pollerTimeout start (readings ++ event.reading.toList) l' ∧ Calls agent l event l' := by
  cases event with
  | interrupted =>
    simp only [mainloop] at h
    split at h
    · cases h
      simp only [Event.reading, Option.toList_none, List.append_nil]
      refine ⟨⟨hl.apart, hl.close, hl.read, ?_, ?_⟩, ?_⟩
      · intro hrunning
        contradiction
      · intro hrunning
        contradiction
      · intro t ht
        contradiction
    · contradiction
  | turn t =>
    simp only [mainloop] at h
    split at h
    · rename_i hrunning
      cases h
      have hlast := hl.ahead hrunning hclock
      exact ⟨hl.turn hT hrunning hlast t, calls_of_turn hT hrunning hlast t⟩
    · contradiction

end Turns

theorem run_paced {agent : MlmAgent State} {pollerTimeout : Int32} {start : Int64} {state : State}
    {events : List Event} {l : Loop State} (hT : 0 < pollerTimeout)
    (hclock : ∀ c ∈ start :: events.filterMap Event.reading, Ahead pollerTimeout c)
    (h : exec (mainloop agent pollerTimeout) (Loop.start start state) events = some l) :
    Paced pollerTimeout start (events.filterMap Event.reading) l ∧
      Along (mainloop agent pollerTimeout) (Calls agent) (Loop.start start state) events := by
  induction events using List.reverseRecOn generalizing l with
  | nil =>
    cases h
    exact ⟨start_paced pollerTimeout start state, trivial⟩
  | append_singleton events event ih =>
    obtain ⟨u, hu, hl⟩ := exec_append.mp h
    obtain ⟨v, hv, he⟩ := exec_cons.mp hl
    cases he
    rw [List.filterMap_append] at hclock ⊢
    have hbefore : ∀ c ∈ start :: events.filterMap Event.reading, Ahead pollerTimeout c := by
      intro c hc
      apply hclock c
      rw [← List.cons_append]
      exact List.mem_append_left _ hc
    obtain ⟨hpaced, hcalls⟩ := ih hbefore hu
    obtain ⟨hnext, hcall⟩ := hpaced.step hT hbefore hv
    refine ⟨?_, along_append.mpr ⟨hcalls, ?_⟩⟩
    · cases hreading : event.reading with
      | none => simpa [hreading] using hnext
      | some c => simpa [hreading] using hnext
    · intro t ht v' hv'
      rw [hu] at ht
      cases ht
      rw [hv] at hv'
      cases hv'
      exact ⟨hcall, trivial⟩

/-- Two calls of `tick` are never within the time-out of each other. If no two
readings of the clock are further apart than the time-out, no two calls are
further apart than twice the time-out, and while the loop runs the last reading
is within the time-out of the last call, or of the start. -/
theorem ticks_spaced (agent : MlmAgent State) (pollerTimeout : Int32) (start : Int64)
    (state : State) (events : List Event) (l : Loop State) (hT : 0 < pollerTimeout)
    (hclock : ∀ c ∈ start :: events.filterMap Event.reading, Ahead pollerTimeout c)
    (h : exec (mainloop agent pollerTimeout) (Loop.start start state) events = some l) :
    (l.ticks.IsChain fun a b => a.toInt + pollerTimeout.toInt < b.toInt) ∧
    (((events.filterMap Event.reading).IsChain fun a b =>
        b.toInt ≤ a.toInt + pollerTimeout.toInt) →
      l.ticks.IsChain fun a b => b.toInt ≤ a.toInt + 2 * pollerTimeout.toInt) ∧
    (l.status = .running → ∀ c, (events.filterMap Event.reading).getLast? = some c →
      c.toInt ≤ (l.ticks.getLast?.getD start).toInt + pollerTimeout.toInt) ∧
    Along (mainloop agent pollerTimeout) (Calls agent) (Loop.start start state) events := by
  obtain ⟨hp, hcalls⟩ := run_paced hT hclock h
  refine ⟨hp.apart, hp.close, ?_, hcalls⟩
  intro hrunning
  rw [← hp.last hrunning]
  exact hp.kept hrunning

/-- An agent that counts its ticks. -/
def counting : MlmAgent Nat := { tick := fun n => (n + 1, .returns true) }

/-- A turn that takes a message of a stream. -/
def streaming (curClock : Int64) : Event :=
  .turn ⟨.client (some
    ⟨ofString "STREAM DELIVER", ofString "metric", ofString "bus", []⟩), curClock⟩

theorem busy_loop_ticks : ∃ l, exec (mainloop counting 100) (Loop.start 0 0)
      [streaming 50, streaming 120, streaming 200, streaming 260, streaming 330] = some l ∧
    l.ticks = [120, 260] ∧ l.state = 2 ∧
    (l.ticks.IsChain fun a b => a.toInt + (100 : Int32).toInt < b.toInt) ∧
    (l.ticks.IsChain fun a b => b.toInt ≤ a.toInt + 2 * (100 : Int32).toInt) := by
  obtain ⟨l, hl, hticks, hstate⟩ : ∃ l, exec (mainloop counting 100) (Loop.start 0 0)
      [streaming 50, streaming 120, streaming 200, streaming 260, streaming 330] = some l ∧
    l.ticks = [120, 260] ∧ l.state = 2 := ⟨_, rfl, rfl, rfl⟩
  obtain ⟨hapart, hclose, -⟩ := ticks_spaced counting 100 0 0 _ l (by decide)
    (by simp [streaming, Event.reading, Ahead, Int64.toInt_maxValue]) hl
  exact ⟨l, hl, hticks, hstate, hapart, hclose (by simp [streaming, Event.reading])⟩

end FtyCommonMlm.MlmAgent
