import FtyCommonMlm.Agent.Mainloop
import FtyCommonMlm.Lib.Ledger

namespace FtyCommonMlm.MlmAgent
open Runs Ledger
open Bytes (ofString)

/-- What an agent has of its own: `m_client`, `m_defaultZpoller`, the messages
that come to its loop, and the commands `handlePipe` reads off them. -/
inductive Owned
  | client
  | poller
  | message (n : Nat)
  | command (n : Nat)
deriving DecidableEq

/-- How far an agent has come. While it is `building`, `MlmAgent` is constructed
and the constructor of the subclass runs. -/
inductive Stage (State : Type)
  | unborn
  | building (now : Int64)
  | living (l : Loop State)
  /-- The process is gone, and nothing is destroyed any more. -/
  | crashed
  | destroyed
  /-- The constructor of `MlmAgent` has thrown, with a client or without one. -/
  | thrown (client : Bool)

structure Agent (State : Type) where
  stage : Stage State
  /-- Whether there is an `m_defaultZpoller`. -/
  poller : Bool
  messages : Nat

inductive Occurrence (State : Type)
  /-- The constructor of `MlmAgent`: whether there is a client, and what comes of
  the connection if it is given an endpoint and an address. -/
  | construct (client : Bool) (connect : Option Int) (now : Int64)
  /-- A call of `connect` in the constructor of the subclass. -/
  | connect (rc : Int)
  | built (state : State)
  | loop (e : Event)
  | destroy

def Which.arrived : Which → Bool
  | .null => false
  | .pipe message => message.isSome
  | .client delivery => delivery.isSome
  | .other _ message => message.isSome

/-- The command that `MlmAgent::handlePipe` pops, if there is a frame. -/
def commandEntries (n : Nat) (message : Zmsg) : List (Entry Owned) :=
  match message with
  | [] => []
  | _ :: _ => [.made (.command n), .used (.command n), .destroyed (.command n)]

/-- What a turn of the loop does with what it owns, with `n` for the message that
it takes if one arrives. An agent that inherits `handlePipe` has a command, and
one that crashes in a method does not come to the end of the turn. -/
def Which.entries (inherits crashes : Bool) (n : Nat) : Which → List (Entry Owned)
  | .pipe none => []
  | .pipe (some message) =>
    [.made (.message n), .used (.message n)] ++
    (if inherits then commandEntries n message else []) ++
    (if crashes then [] else [.destroyed (.message n)])
  -- from here on, the pipe is not the one
  | .null | .other _ none => [.used .client]
  | .client none => [.used .client, .used .client]
  | .client (some delivery) =>
    [.used .client, .used .client, .made (.message n), .used .client] ++
    (if delivery.command.cStr = ofString "MAILBOX DELIVER" ∨
        delivery.command.cStr = ofString "STREAM DELIVER" then [.used (.message n)]
      else [.used .client]) ++
    (if crashes then [] else [.destroyed (.message n)])
  | .other _ (some _) =>
    [.used .client, .made (.message n), .used (.message n)] ++
    (if crashes then [] else [.destroyed (.message n)])

variable {State : Type}

def Agent.start : Agent State := ⟨.unborn, false, 0⟩

/-- Whether a turn gets beyond its `tick`. -/
def Loop.ticksOn (agent : MlmAgent State) (pollerTimeout : Int32) (l : Loop State) (t : Turn) :
    Bool :=
  (l.hook agent pollerTimeout t.curClock).status = .running

/-- Where a turn of the loop leaves the agent. -/
def Stage.after (l : Loop State) : Stage State :=
  if l.status = .crashed then .crashed else .living l

def Agent.step (agent : MlmAgent State) (pollerTimeout : Int32) (s : Agent State) :
    Occurrence State → Option (Agent State)
  | .construct client connect now =>
    match s.stage with
    | .unborn =>
      if ¬ client then some { s with stage := .thrown false }
      else if connect = some (-1) then some { s with stage := .thrown true }
      else some { s with stage := .building now }
    | _ => none
  | .connect rc =>
    match s.stage with
    -- an exception leaves the constructor of the subclass, and ~MlmAgent runs
    | .building _ => some (if rc = -1 then { s with stage := .destroyed } else s)
    | _ => none
  | .built state =>
    match s.stage with
    | .building now => some { s with stage := .living (Loop.start now state) }
    | _ => none
  | .loop e =>
    match s.stage with
    | .living l =>
      (mainloop agent pollerTimeout l e).map fun l' =>
        match e with
        | .interrupted => { s with stage := .living l' }
        | .turn t =>
          { stage := .after l'
            poller := true
            messages :=
              if l.ticksOn agent pollerTimeout t ∧ t.which.arrived then s.messages + 1
              else s.messages }
    | _ => none
  | .destroy =>
    match s.stage with
    | .living _ => some { s with stage := .destroyed }
    | _ => none

/-- `~MlmAgent`, where `zpoller_destroy` ignores a poller that is not there. -/
def destructor (poller : Bool) : List (Entry Owned) :=
  .destroyed .client :: if poller then [.destroyed .poller] else []

def Agent.entries (agent : MlmAgent State) (pollerTimeout : Int32) (s : Agent State) :
    Occurrence State → List (Entry Owned)
  | .construct client connect _ =>
    if ¬ client then [] else
    .made .client :: if connect.isSome then [.used .client] else []
  | .connect rc => .used .client :: if rc = -1 then destructor s.poller else []
  | .built _ => []
  | .loop .interrupted => []
  | .loop (.turn t) =>
    (if s.poller then [] else [.used .client, .made .poller]) ++ [.used .poller] ++
    match s.stage with
    | .living l =>
      if l.ticksOn agent pollerTimeout t then
        t.which.entries agent.ownHandlePipe.isNone
          ((l.turn agent pollerTimeout t).status = .crashed) (s.messages + 1)
      else []
    | _ => []
  | .destroy => destructor s.poller

def Agent.crashed (s : Agent State) : Prop :=
  match s.stage with
  | .crashed => True
  | _ => False

/-- The lives an agent allows. -/
def Agent.Allows (s : Agent State) : Owned → Life → Prop
  | .client, l =>
    match s.stage with
    | .unborn => l = .unmade
    | .building _ | .living _ | .crashed => l = .alive
    | .destroyed => l = .gone
    | .thrown client => l = if client then .alive else .unmade
  | .poller, l =>
    match s.stage with
    | .living _ => l = if s.poller then .alive else .unmade
    | .crashed => l = .alive
    | .destroyed => l ≠ .alive
    | _ => l = .unmade
  | .message n, l => UpTo s.messages (fun l => l = .alive → s.crashed) n l
  | .command n, l => UpTo s.messages (fun l => l ≠ .alive) n l

/-- The poller is made in the loop. -/
def Agent.Inv (s : Agent State) : Prop :=
  match s.stage with
  | .living _ | .crashed | .destroyed => True
  | _ => s.poller = false

section Steps

variable {agent : MlmAgent State} {pollerTimeout : Int32} {s t : Agent State} {l : Life}

/-- The message that arrives is taken and destroyed, unless the process is gone
before that. -/
theorem entries_message {n : Nat} {which : Which} (inherits crashes : Bool)
    (h : which.arrived = true) :
    life (.message n) .unmade (which.entries inherits crashes n) =
      some (if crashes then .alive else .gone) := by
  have hend : life (Owned.message n) .alive (if crashes then [] else [.destroyed (.message n)]) =
      some (if crashes then .alive else .gone) := by
    cases crashes <;> simp [Entry.object, Life.next]
  cases which with
  | null => contradiction
  | pipe message =>
    cases message with
    | none => contradiction
    | some message =>
      have hcommand : life (Owned.message n) .alive
          (if inherits then commandEntries n message else []) = some .alive := by
        apply life_of_forall_ne
        cases inherits <;> cases message <;> simp [commandEntries, Entry.object]
      simp [Which.entries, life_append, Entry.object, Life.next, hcommand, hend]
  | client delivery =>
    cases delivery with
    | none => contradiction
    | some delivery =>
      simp only [Which.entries, life_append]
      split <;> simp [Entry.object, Life.next, hend]
  | other which message =>
    cases message with
    | none => contradiction
    | some message => simp [Which.entries, Entry.object, Life.next, hend]

/-- A command does not outlive its turn. -/
theorem entries_command {n : Nat} (which : Which) (inherits crashes : Bool) :
    ∃ l', life (.command n) .unmade (which.entries inherits crashes n) = some l' ∧
      l' ≠ .alive := by
  cases which with
  | null => exact ⟨.unmade, rfl, by simp⟩
  | pipe message =>
    cases message with
    | none => exact ⟨.unmade, rfl, by simp⟩
    | some message =>
      cases inherits with
      | false => exact ⟨.unmade, by cases crashes <;> simp [Which.entries, Entry.object], by simp⟩
      | true =>
        cases message with
        | nil =>
          refine ⟨.unmade, ?_, by simp⟩
          cases crashes <;> simp [Which.entries, commandEntries, Entry.object]
        | cons frame rest =>
          refine ⟨.gone, ?_, by simp⟩
          cases crashes <;> simp [Which.entries, commandEntries, Entry.object, Life.next]
  | client delivery =>
    refine ⟨.unmade, ?_, by simp⟩
    cases delivery with
    | none => rfl
    | some delivery =>
      simp only [Which.entries]
      split <;> cases crashes <;> simp [Entry.object]
  | other which message =>
    refine ⟨.unmade, ?_, by simp⟩
    cases message with
    | none => rfl
    | some message => cases crashes <;> simp [Which.entries, Entry.object]

/-- What the entries of a turn are about. -/
theorem entries_object {n : Nat} {which : Which} {inherits crashes : Bool} {e : Entry Owned}
    (he : e ∈ which.entries inherits crashes n) : e = .used .client ∨
      (which.arrived = true ∧ (e.object = .message n ∨ e.object = .command n)) := by
  have hend : e ∈ (if crashes then [] else [.destroyed (Owned.message n)]) →
      e.object = .message n := by
    cases crashes <;> simp +contextual [Entry.object]
  cases which with
  | null => exact Or.inl (List.mem_singleton.mp he)
  | pipe message =>
    cases message with
    | none => contradiction
    | some message =>
      refine Or.inr ⟨rfl, ?_⟩
      simp only [Which.entries, List.mem_append, List.mem_cons, List.not_mem_nil,
        or_false] at he
      rcases he with ((rfl | rfl) | hcommand) | hmessage
      · exact Or.inl rfl
      · exact Or.inl rfl
      · right
        cases inherits <;> cases message <;>
          simp only [commandEntries, if_true, Bool.false_eq_true, if_false, List.mem_cons,
            List.not_mem_nil, or_false] at hcommand
        rcases hcommand with rfl | rfl | rfl <;> rfl
      · exact Or.inl (hend hmessage)
  | client delivery =>
    cases delivery with
    | none =>
      simp only [Which.entries, List.mem_cons, List.not_mem_nil, or_false, or_self] at he
      exact Or.inl he
    | some delivery =>
      simp only [Which.entries, List.mem_append, List.mem_cons, List.not_mem_nil,
        or_false] at he
      rcases he with ((rfl | rfl | rfl | rfl) | hhandled) | hmessage
      · exact Or.inl rfl
      · exact Or.inl rfl
      · exact Or.inr ⟨rfl, Or.inl rfl⟩
      · exact Or.inl rfl
      · split at hhandled <;> rw [List.mem_singleton.mp hhandled]
        · exact Or.inr ⟨rfl, Or.inl rfl⟩
        · exact Or.inl rfl
      · exact Or.inr ⟨rfl, Or.inl (hend hmessage)⟩
  | other which message =>
    cases message with
    | none => exact Or.inl (List.mem_singleton.mp he)
    | some message =>
      simp only [Which.entries, List.mem_append, List.mem_cons, List.not_mem_nil,
        or_false] at he
      rcases he with (rfl | rfl | rfl) | hmessage
      · exact Or.inl rfl
      · exact Or.inr ⟨rfl, Or.inl rfl⟩
      · exact Or.inr ⟨rfl, Or.inl rfl⟩
      · exact Or.inr ⟨rfl, Or.inl (hend hmessage)⟩

/-- Nothing else changes its life in a turn. -/
theorem entries_other {n : Nat} {which : Which} {inherits crashes : Bool} {o : Owned}
    (h : which.arrived = false ∨ (o ≠ .message n ∧ o ≠ .command n))
    (ho : o = .client → l = .alive) :
    life o l (which.entries inherits crashes n) = some l := by
  by_cases hclient : o = .client
  · rw [ho hclient]
    apply life_of_forall_used
    intro e he heo
    rcases entries_object he with rfl | ⟨_, hmessage | hcommand⟩
    · rw [hclient]
    · rw [hmessage, hclient] at heo
      contradiction
    · rw [hcommand, hclient] at heo
      contradiction
  · apply life_of_forall_ne
    intro e he heo
    rcases entries_object he with rfl | ⟨harrived, hown⟩
    · exact hclient heo.symm
    · rcases h with h | h
      · rw [harrived] at h
        contradiction
      · rcases hown with hmessage | hcommand
        · exact h.1 (heo.symm.trans hmessage)
        · exact h.2 (heo.symm.trans hcommand)

/-- The first turn makes the poller, and each one waits on it. -/
theorem life_poll (poller : Bool) {o : Owned} (hclient : o = .client → l = .alive)
    (hpoller : o = .poller → l = if poller then .alive else .unmade) :
    life o l ((if poller then [] else [.used .client, .made .poller]) ++ [.used .poller]) =
      some (if o = .poller then .alive else l) := by
  cases o with
  | client =>
    rw [hclient rfl]
    cases poller <;> rfl
  | poller =>
    rw [hpoller rfl]
    cases poller <;> rfl
  | message n | command n => cases poller <;> simp [Entry.object]

/-- A turn leaves the client and the poller alive, and what it allows of the rest
is what there may be when the process is gone. -/
theorem after_allows (loop : Loop State) (messages : Nat) :
    (Agent.Allows ⟨.after loop, true, messages⟩ .client .alive) ∧
    (Agent.Allows ⟨.after loop, true, messages⟩ .poller .alive) ∧
    (Agent.crashed ⟨.after loop, true, messages⟩ ↔ loop.status = .crashed) := by
  unfold Stage.after
  split
  · rename_i hcrashed
    exact ⟨rfl, rfl, iff_of_true trivial hcrashed⟩
  · rename_i hgoes
    exact ⟨rfl, rfl, iff_of_false id hgoes⟩

/-- A turn makes the next of the messages, or of the commands, if one arrives. -/
theorem turn_numbered {messages n : Nat} {which : Which} {inherits crashes : Bool} {o : Owned}
    {now : Life → Prop} (on : Bool) (h : UpTo messages (fun l => l ≠ .alive) n l)
    (hkept : ∀ l, l ≠ .alive → now l) (hclient : o ≠ .client)
    (hother : n ≠ messages + 1 → o ≠ .message (messages + 1) ∧ o ≠ .command (messages + 1))
    (hmade : which.arrived = true → n = messages + 1 → ∃ l',
      life o .unmade (which.entries inherits crashes (messages + 1)) = some l' ∧ now l') :
    ∃ l', life o l (if on then which.entries inherits crashes (messages + 1) else []) = some l' ∧
      UpTo (if on ∧ which.arrived then messages + 1 else messages) now n l' := by
  cases on with
  | false =>
    simp only [Bool.false_eq_true, false_and, if_false]
    exact ⟨l, rfl, h.mono hkept⟩
  | true =>
    simp only [true_and, if_true]
    by_cases harrived : which.arrived = true
    · rw [if_pos harrived]
      refine h.next (fun _ hl => hl) ?_ (hmade harrived)
      intro hn
      exact entries_other (Or.inr (hother hn)) (fun ho => absurd ho hclient)
    · rw [if_neg harrived]
      exact ⟨l, entries_other (Or.inl (Bool.not_eq_true _ ▸ harrived))
        (fun ho => absurd ho hclient), h.mono hkept⟩

theorem turn_allows {poller : Bool} {messages : Nat} {loop : Loop State} {turn : Turn}
    {o : Owned} (hl : Agent.Allows ⟨.living loop, poller, messages⟩ o l) :
    ∃ l', life o l (Agent.entries agent pollerTimeout ⟨.living loop, poller, messages⟩
        (.loop (.turn turn))) = some l' ∧
      Agent.Allows ⟨.after (loop.turn agent pollerTimeout turn), true,
        if loop.ticksOn agent pollerTimeout turn ∧ turn.which.arrived then messages + 1
        else messages⟩ o l' := by
  have hpoll := life_poll (o := o) (l := l) poller (fun ho => by subst ho; exact hl)
    (fun ho => by subst ho; exact hl)
  obtain ⟨hclient, hpoller, -⟩ := after_allows (loop.turn agent pollerTimeout turn)
    (if loop.ticksOn agent pollerTimeout turn ∧ turn.which.arrived then messages + 1 else messages)
  simp only [Agent.entries]
  rw [life_append, hpoll, Option.bind_some]
  cases o with
  | client =>
    have halive : l = .alive := hl
    subst halive
    refine ⟨.alive, ?_, hclient⟩
    rw [if_neg (by simp)]
    split
    · exact entries_other (Or.inr (by simp)) (fun _ => rfl)
    · rfl
  | poller =>
    refine ⟨.alive, ?_, hpoller⟩
    rw [if_pos rfl]
    split
    · exact entries_other (Or.inr (by simp)) (by simp)
    · rfl
  | message n =>
    have hmessages : UpTo messages (fun l => l = .alive → False) n l := hl
    refine turn_numbered _ hmessages (fun _ hl ha => absurd ha hl) (by simp) (by simp) ?_
    intro harrived hn
    subst hn
    refine ⟨_, entries_message _ _ harrived, ?_⟩
    intro halive
    apply (after_allows _ _).2.2.mpr
    by_contra hgoes
    simp [hgoes] at halive
  | command n =>
    have hcommands : UpTo messages (fun l => l ≠ .alive) n l := hl
    refine turn_numbered _ hcommands (fun _ hl => hl) (by simp) (by simp) ?_
    intro _ hn
    subst hn
    exact entries_command _ _ _

/-- What the agent has, the destructor destroys. -/
theorem destructor_allows {poller : Bool} {messages : Nat} {o : Owned}
    (hclient : o = .client → l = .alive)
    (hpoller : o = .poller → l = if poller then .alive else .unmade)
    (hnumbered : ∀ n, o = .message n ∨ o = .command n →
      UpTo messages (fun l => l ≠ .alive) n l) :
    ∃ l', life o l (destructor poller) = some l' ∧
      Agent.Allows (⟨.destroyed, poller, messages⟩ : Agent State) o l' := by
  cases o with
  | client =>
    rw [hclient rfl]
    exact ⟨.gone, by cases poller <;> rfl, rfl⟩
  | poller =>
    rw [hpoller rfl]
    cases poller with
    | false => exact ⟨.unmade, rfl, by simp [Agent.Allows]⟩
    | true => exact ⟨.gone, rfl, by simp [Agent.Allows]⟩
  | message n =>
    exact ⟨l, by cases poller <;> simp [destructor, Entry.object], hnumbered n (Or.inl rfl)⟩
  | command n =>
    exact ⟨l, by cases poller <;> simp [destructor, Entry.object], hnumbered n (Or.inr rfl)⟩

theorem life_used_client {o : Owned} {ledger : List (Entry Owned)}
    (ho : o = .client → l = .alive) :
    life o l (.used .client :: ledger) = life o l ledger := by
  cases o with
  | client =>
    rw [ho rfl]
    rfl
  | _ => rfl

theorem construct_allows {client : Bool} {connect : Option Int} {now : Int64} (hs : s.Inv)
    (h : s.step agent pollerTimeout (.construct client connect now) = some t) :
    t.Inv ∧ ∀ o l, s.Allows o l →
      ∃ l', life o l (s.entries agent pollerTimeout (.construct client connect now)) = some l' ∧
        t.Allows o l' := by
  obtain ⟨stage, poller, messages⟩ := s
  cases stage with
  | unborn =>
    have hpoller : poller = false := hs
    subst hpoller
    simp only [Agent.step] at h
    cases client with
    | false =>
      cases h
      refine ⟨rfl, ?_⟩
      intro o l hl
      exact ⟨l, rfl, by cases o <;> exact hl⟩
    | true =>
      have hmade : ∀ o l, Agent.Allows (⟨.unborn, false, messages⟩ : Agent State) o l →
          life o l (.made .client :: if connect.isSome then [.used .client] else []) =
            some (if o = .client then .alive else l) := by
        intro o l hl
        cases o with
        | client =>
          have hunmade : l = .unmade := hl
          subst hunmade
          cases connect <;> rfl
        | _ => cases connect <;> simp [Entry.object]
      split at h
      · contradiction
      · split at h
        · cases h
          refine ⟨rfl, ?_⟩
          intro o l hl
          exact ⟨_, hmade o l hl, by cases o <;> first | rfl | exact hl⟩
        · cases h
          refine ⟨rfl, ?_⟩
          intro o l hl
          exact ⟨_, hmade o l hl, by cases o <;> first | rfl | exact hl⟩
  | _ => contradiction

theorem connect_allows {rc : Int} (hs : s.Inv)
    (h : s.step agent pollerTimeout (.connect rc) = some t) :
    t.Inv ∧ ∀ o l, s.Allows o l →
      ∃ l', life o l (s.entries agent pollerTimeout (.connect rc)) = some l' ∧ t.Allows o l' := by
  obtain ⟨stage, poller, messages⟩ := s
  cases stage with
  | building now =>
    have hpoller : poller = false := hs
    subst hpoller
    simp only [Agent.step, Option.some.injEq] at h
    subst h
    by_cases hrc : rc = -1
    · rw [if_pos hrc]
      refine ⟨trivial, ?_⟩
      intro o l hl
      simp only [Agent.entries, if_pos hrc]
      rw [life_used_client (fun ho => by subst ho; exact hl)]
      exact destructor_allows (fun ho => by subst ho; exact hl)
        (fun ho => by subst ho; exact hl) (fun n ho => by rcases ho with rfl | rfl <;> exact hl)
    · rw [if_neg hrc]
      refine ⟨rfl, ?_⟩
      intro o l hl
      simp only [Agent.entries, if_neg hrc]
      rw [life_used_client (fun ho => by subst ho; exact hl)]
      exact ⟨l, rfl, hl⟩
  | _ => contradiction

theorem step_allows {a : Occurrence State} (hs : s.Inv)
    (h : s.step agent pollerTimeout a = some t) : t.Inv ∧ ∀ o l, s.Allows o l →
      ∃ l', life o l (s.entries agent pollerTimeout a) = some l' ∧ t.Allows o l' := by
  cases a with
  | construct client connect now => exact construct_allows hs h
  | connect rc => exact connect_allows hs h
  | built state =>
    obtain ⟨stage, poller, messages⟩ := s
    cases stage with
    | building now =>
      have hpoller : poller = false := hs
      subst hpoller
      cases h
      refine ⟨trivial, ?_⟩
      intro o l hl
      exact ⟨l, rfl, by cases o <;> exact hl⟩
    | _ => contradiction
  | loop e =>
    obtain ⟨stage, poller, messages⟩ := s
    cases stage with
    | living l =>
      simp only [Agent.step, Option.map_eq_some_iff] at h
      obtain ⟨l', hl', rfl⟩ := h
      cases e with
      | interrupted =>
        refine ⟨trivial, ?_⟩
        intro o l hl
        exact ⟨l, rfl, by cases o <;> exact hl⟩
      | turn turn =>
        simp only [mainloop] at hl'
        split at hl'
        · cases hl'
          refine ⟨?_, fun o l hl => turn_allows hl⟩
          simp only [Stage.after]
          split <;> trivial
        · contradiction
    | _ => contradiction
  | destroy =>
    obtain ⟨stage, poller, messages⟩ := s
    cases stage with
    | living l =>
      cases h
      refine ⟨trivial, ?_⟩
      intro o l hl
      exact destructor_allows (fun ho => by subst ho; exact hl) (fun ho => by subst ho; exact hl)
        (fun n ho => by rcases ho with rfl | rfl <;> exact hl)
    | _ => contradiction

/-- Only the constructor of `MlmAgent` throws without a destructor behind it. -/
theorem thrown_iff {a : Occurrence State} (h : s.step agent pollerTimeout a = some t) :
    t.stage = .thrown true ↔ ∃ now, a = .construct true (some (-1)) now := by
  obtain ⟨stage, poller, messages⟩ := s
  cases a with
  | construct client connect now =>
    cases stage with
    | unborn =>
      simp only [Agent.step] at h
      cases client with
      | false =>
        cases h
        simp
      | true =>
        simp only [not_true_eq_false, if_false] at h
        split at h <;> cases h <;> simp_all
    | _ => contradiction
  | connect rc =>
    cases stage with
    | building now =>
      simp only [Agent.step, Option.some.injEq] at h
      subst h
      split <;> simp
    | _ => contradiction
  | built state =>
    cases stage with
    | building now =>
      cases h
      simp
    | _ => contradiction
  | loop e =>
    cases stage with
    | living l =>
      simp only [Agent.step, Option.map_eq_some_iff] at h
      obtain ⟨l', hl', rfl⟩ := h
      cases e with
      | interrupted => simp
      | turn turn =>
        simp only [Stage.after]
        split <;> simp
    | _ => contradiction
  | destroy =>
    cases stage with
    | living l =>
      cases h
      simp
    | _ => contradiction

theorem over_of_thrown {a : Occurrence State} {client : Bool} (hs : s.stage = .thrown client) :
    s.step agent pollerTimeout a = none := by
  cases a <;> simp [Agent.step, hs]

end Steps

def Agent.over (s : Agent State) : Prop :=
  match s.stage with
  | .destroyed | .thrown _ => True
  | _ => False

section Runs

variable {agent : MlmAgent State} {pollerTimeout : Int32} {occurrences : List (Occurrence State)}
  {s : Agent State}

theorem thrown_of_run (h : exec (Agent.step agent pollerTimeout) Agent.start occurrences = some s) :
    s.stage = .thrown true ↔ ∃ now, Occurrence.construct true (some (-1)) now ∈ occurrences := by
  refine inv_of_history (I := fun s done => s.stage = .thrown true ↔
    ∃ now, Occurrence.construct true (some (-1)) now ∈ done) (by simp [Agent.start]) ?_ h
  intro u done a v hu hv
  have hnot : ¬ u.stage = .thrown true := by
    intro hstage
    rw [over_of_thrown hstage] at hv
    contradiction
  rw [thrown_iff hv]
  simp only [List.mem_append, List.mem_singleton]
  constructor
  · intro hgiven
    obtain ⟨now, rfl⟩ := hgiven
    exact ⟨now, Or.inr rfl⟩
  · intro hgiven
    obtain ⟨now, hold | rfl⟩ := hgiven
    · exact absurd (hu.mpr ⟨now, hold⟩) hnot
    · exact ⟨now, rfl⟩

theorem Agent.Allows.alive {o : Owned} (h : s.Allows o .alive) :
    o = .client ∨ o = .poller ∨ (s.crashed ∧ o = .message s.messages) := by
  cases o with
  | client => exact Or.inl rfl
  | poller => exact Or.inr (Or.inl rfl)
  | message n =>
    have hmessage : UpTo s.messages (fun l => l = .alive → s.crashed) n .alive := h
    obtain ⟨hn, hcrashed⟩ := hmessage.alive
    exact Or.inr (Or.inr ⟨hcrashed rfl, hn ▸ rfl⟩)
  | command n =>
    have hcommand : UpTo s.messages (fun l => l ≠ .alive) n .alive := h
    exact absurd rfl hcommand.alive.2

/-- In the end there is at most the client, of an agent whose constructor threw. -/
theorem Agent.Allows.left {o : Owned} {l : Life} (h : s.Allows o l) (hover : s.over) :
    l = .alive ↔ o = .client ∧ s.stage = .thrown true := by
  constructor
  · intro hl
    subst hl
    have hcrashed : ¬ s.crashed := by
      unfold Agent.over at hover
      unfold Agent.crashed
      cases hstage : s.stage <;> simp_all
    rcases h.alive with rfl | rfl | ⟨hgone, -⟩
    · obtain ⟨stage, poller, messages⟩ := s
      cases stage with
      | destroyed => contradiction
      | thrown client =>
        cases client with
        | false => contradiction
        | true => exact ⟨rfl, rfl⟩
      | _ => exact hover.elim
    · obtain ⟨stage, poller, messages⟩ := s
      cases stage with
      | destroyed => exact absurd rfl h
      | thrown client => contradiction
      | _ => exact hover.elim
    · exact absurd hgone hcrashed
  · intro hgiven
    obtain ⟨rfl, hstage⟩ := hgiven
    simpa only [Agent.Allows, hstage, if_true] using h

/-- No method of the subclass takes the process with it. -/
structure Steady (agent : MlmAgent State) : Prop where
  tick : ∀ s, (agent.tick s).2 ≠ .crashes
  pipe : ∀ handle, agent.ownHandlePipe = some handle → ∀ m s, (handle m s).2 ≠ .crashes
  mailbox : ∀ d s, (agent.handleMailbox d s).2 ≠ .crashes
  stream : ∀ d s, (agent.handleStream d s).2 ≠ .crashes
  other : ∀ m which s, (agent.handleOther m which s).2 ≠ .crashes

theorem after_crashed {l : Loop State} {ended : State × Ending} (hl : l.status ≠ .crashed)
    (h : (l.after ended).status = .crashed) : ended.2 = .crashes := by
  match ended with
  | (_, .returns true) => exact absurd h hl
  | (_, .returns false) => contradiction
  | (_, .throws) => contradiction
  | (_, .crashes) => rfl

theorem dispatch_crashed {l : Loop State} {which : Which} (hsteady : Steady agent)
    (hl : l.status ≠ .crashed) (h : (l.dispatch agent which).status = .crashed) :
    which = .pipe (some []) := by
  match which with
  | .null => exact absurd h hl
  | .pipe none => contradiction
  | .pipe (some message) =>
    have hcrashes : (agent.handlePipe message l.state).2 = .crashes := after_crashed hl h
    unfold handlePipe at hcrashes
    split at hcrashes
    · rename_i handle hown
      exact absurd hcrashes (hsteady.pipe handle hown message l.state)
    · cases message with
      | nil => rfl
      | cons frame rest => simp [defaultPipe, Zmsg.popstr] at hcrashes
  | .client none => contradiction
  | .client (some delivery) =>
    simp only [Loop.dispatch] at h
    split at h
    · exact absurd (after_crashed hl h) (hsteady.mailbox delivery l.state)
    · split at h
      · exact absurd (after_crashed hl h) (hsteady.stream delivery l.state)
      · exact absurd h hl
  | .other _ none => contradiction
  | .other which (some message) =>
    exact absurd (after_crashed hl h) (hsteady.other message which l.state)

theorem turn_crashed {l : Loop State} {turn : Turn} (hsteady : Steady agent)
    (hl : l.status = .running) (h : (l.turn agent pollerTimeout turn).status = .crashed) :
    turn.which = .pipe (some []) := by
  have hhook : (l.hook agent pollerTimeout turn.curClock).status ≠ .crashed := by
    intro hcrashed
    simp only [Loop.hook] at hcrashed
    have hcall : (l.callTick agent turn.curClock).status = .crashed →
        (agent.tick l.state).2 = .crashes := after_crashed (by simp [hl])
    split at hcrashed
    · split at hcrashed
      · rename_i hrunning
        exact absurd (hrunning.symm.trans hcrashed) (by simp)
      · exact hsteady.tick l.state (hcall hcrashed)
    · simp [hl] at hcrashed
  unfold Loop.turn at h
  dsimp only at h
  split at h
  · exact dispatch_crashed hsteady hhook h
  · exact absurd h hhook

/-- It is in a turn of the loop that the process ends. -/
theorem crashed_of_step {a : Occurrence State} {t : Agent State}
    (h : s.step agent pollerTimeout a = some t) (hcrashed : t.crashed) :
    ∃ (l : Loop State) (turn : Turn), a = .loop (.turn turn) ∧ l.status = .running ∧
      (l.turn agent pollerTimeout turn).status = .crashed := by
  obtain ⟨stage, poller, messages⟩ := s
  cases a with
  | loop e =>
    cases stage with
    | living l =>
      simp only [Agent.step, Option.map_eq_some_iff] at h
      obtain ⟨l', hl', rfl⟩ := h
      cases e with
      | interrupted => exact hcrashed.elim
      | turn turn =>
        simp only [mainloop] at hl'
        split at hl'
        · rename_i hrunning
          cases hl'
          exact ⟨l, turn, rfl, hrunning, (after_allows _ _).2.2.mp hcrashed⟩
        · contradiction
    | _ => contradiction
  | construct client connect now =>
    cases stage with
    | unborn =>
      simp only [Agent.step] at h
      split at h
      · cases h
        exact hcrashed.elim
      · split at h <;> (cases h; exact hcrashed.elim)
    | _ => contradiction
  | connect rc =>
    cases stage with
    | building now =>
      simp only [Agent.step, Option.some.injEq] at h
      subst h
      split at hcrashed <;> exact hcrashed.elim
    | _ => contradiction
  | built state =>
    cases stage with
    | building now =>
      cases h
      exact hcrashed.elim
    | _ => contradiction
  | destroy =>
    cases stage with
    | living l =>
      cases h
      exact hcrashed.elim
    | _ => contradiction

theorem crashed_of_run (hsteady : Steady agent)
    (h : exec (Agent.step agent pollerTimeout) Agent.start occurrences = some s) :
    s.crashed → ∃ curClock,
      Occurrence.loop (.turn ⟨.pipe (some []), curClock⟩) ∈ occurrences := by
  refine inv_of_history (I := fun s done => s.crashed → ∃ curClock,
    Occurrence.loop (.turn ⟨.pipe (some []), curClock⟩) ∈ done) (fun hcrashed => hcrashed.elim)
    ?_ h
  intro u done a v _ hv hcrashed
  obtain ⟨l, ⟨which, curClock⟩, rfl, hrunning, hends⟩ := crashed_of_step hv hcrashed
  cases turn_crashed hsteady hrunning hends
  exact ⟨curClock, by simp⟩

/-- Whatever the methods of the subclass do, and whatever comes to the loop, an
agent uses nothing that is not there and destroys nothing twice; between the turns
it has its client and its poller, and no message but the one that the process has
ended with. In the end it leaves its client
behind just in case the constructor of `MlmAgent` itself is refused the
connection. Where no method of the subclass ends the process, only a message
without frames on the pipe does. -/
theorem agent_cleaned {agent : MlmAgent State} {pollerTimeout : Int32}
    {occurrences : List (Occurrence State)} {s : Agent State} {ledger : List (Entry Owned)}
    (h : exec (logged (Agent.step agent pollerTimeout) (Agent.entries agent pollerTimeout))
      (Agent.start, []) occurrences = some (s, ledger)) :
    (∀ o, ∃ l, life o .unmade ledger = some l ∧
      (l = .alive → o = .client ∨ o = .poller ∨ (s.crashed ∧ o = .message s.messages))) ∧
    (s.over → (Ledger.Clean ledger ↔
      ∀ now, Occurrence.construct true (some (-1)) now ∉ occurrences)) ∧
    (Steady agent → s.crashed → ∃ curClock,
      Occurrence.loop (.turn ⟨.pipe (some []), curClock⟩) ∈ occurrences) := by
  have hlives : ∀ o, ∃ l, life o .unmade ledger = some l ∧ s.Allows o l := by
    intro o
    refine life_of_run (I := Agent.Inv) (fun s a t hs ht => step_allows hs ht)
      (show Agent.start.Inv from rfl) h ?_
    cases o with
    | message n => exact ⟨fun _ => by simp, fun _ => by simp, fun _ => rfl⟩
    | command n => exact ⟨fun _ => by simp, fun _ => by simp, fun _ => rfl⟩
    | _ => rfl
  refine ⟨?_, ?_, fun hsteady => crashed_of_run hsteady (exec_of_logged h)⟩
  · intro o
    obtain ⟨l, hlife, hl⟩ := hlives o
    exact ⟨l, hlife, fun halive => (halive ▸ hl).alive⟩
  · intro hover
    have hleft : ∀ o, ∃ l, life o .unmade ledger = some l ∧
        (l = .alive ↔ o = .client ∧ s.stage = .thrown true) := by
      intro o
      obtain ⟨l, hlife, hl⟩ := hlives o
      exact ⟨l, hlife, hl.left hover⟩
    have hthrown : (∀ now, Occurrence.construct true (some (-1)) now ∉ occurrences) ↔
        s.stage ≠ .thrown true := by
      rw [Ne, thrown_of_run (exec_of_logged h), not_exists]
    rw [clean_iff_none_left hleft, hthrown]
    constructor
    · intro hnone hstage
      exact hnone .client ⟨rfl, hstage⟩
    · intro hstage o hgiven
      exact hstage hgiven.2

end Runs

/-- An agent that takes a mailbox message, and then stops on `$TERM`. -/
def stoppedRun : List (Occurrence Unit) :=
  [.construct true none 0, .connect 0, .built (),
    .loop (.turn ⟨.client (some ⟨ofString "MAILBOX DELIVER", [], [], [ofString "a"]⟩), 1⟩),
    .loop (.turn ⟨.null, 2⟩), .loop (.turn ⟨.pipe (some [ofString "$TERM"]), 3⟩), .destroy]

/-- One that a message without frames takes with it. -/
def crashedRun : List (Occurrence Unit) :=
  [.construct true none 0, .built (), .loop (.turn ⟨.pipe (some []), 1⟩)]

theorem stopped_agent_cleaned :
    (∃ s ledger, exec (logged (Agent.step base (-1)) (Agent.entries base (-1)))
      (Agent.start, []) stoppedRun = some (s, ledger) ∧ s.messages = 2 ∧
        .destroyed (.command 2) ∈ ledger ∧ Ledger.Clean ledger) ∧
    (∃ s ledger, exec (logged (Agent.step base (-1)) (Agent.entries base (-1)))
      (Agent.start, []) [.construct true (some (-1)) 0] = some (s, ledger) ∧
        ¬ Ledger.Clean ledger) ∧
    ∃ s ledger, exec (logged (Agent.step base (-1)) (Agent.entries base (-1)))
      (Agent.start, []) crashedRun = some (s, ledger) ∧ s.crashed := by
  have hstopped : ∃ s ledger, exec (logged (Agent.step base (-1)) (Agent.entries base (-1)))
      (Agent.start, []) stoppedRun = some (s, ledger) ∧ s.messages = 2 ∧
        .destroyed (.command 2) ∈ ledger ∧ s.over :=
    ⟨_, _, rfl, rfl, by decide, trivial⟩
  have hrefused : ∃ s ledger, exec (logged (Agent.step base (-1)) (Agent.entries base (-1)))
      (Agent.start, []) [.construct true (some (-1)) 0] = some (s, ledger) ∧ s.over :=
    ⟨_, _, rfl, trivial⟩
  obtain ⟨s, ledger, h, hmessages, hcommand, hover⟩ := hstopped
  obtain ⟨s', ledger', h', hover'⟩ := hrefused
  refine ⟨⟨s, ledger, h, hmessages, hcommand, ?_⟩, ⟨s', ledger', h', ?_⟩, _, _, rfl, trivial⟩
  · exact ((agent_cleaned h).2.1 hover).mpr (by simp [stoppedRun])
  · intro hclean
    exact ((agent_cleaned h').2.1 hover').mp hclean 0 (by simp)

end FtyCommonMlm.MlmAgent
