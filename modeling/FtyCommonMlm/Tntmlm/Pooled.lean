import FtyCommonMlm.Pool.Ownership
import FtyCommonMlm.Tntmlm.Session

namespace FtyCommonMlm.Pooled
open Runs
open Bytes (ofString)

/-- Pools of `MlmClient`s, such as `mlm_pool`, with the clients and the threads
that use them. -/
structure World where
  pool : Pool.World
  /-- Each client, without the call under way on it. -/
  clients : Object → MlmClient.State
  /-- The call that the owner of a handle is in. -/
  calls : HandleId → Option MlmClient.Running

def World.start (maxSpare : PoolId → Nat) : World :=
  ⟨Pool.World.start maxSpare, fun _ => .start, fun _ => none⟩

inductive Event
  | pool (op : Pool.Op)
  /-- A message comes for a client, whoever has it, if anybody has. -/
  | arrive (o : Object) (m : Zmsg)
  /-- The owner of a handle makes a call through it, or goes on with one. -/
  | call (h : HandleId) (e : MlmClient.Event)

/-- The handles that an operation of the pool works on. -/
def handlesOf : Pool.Op → List HandleId
  | .get _ h | .destroy h | .setPool h _ | .release h => [h]
  | .moveConstruct h src | .moveAssign h src => [h, src]
  | .drop _ _ | .setMaximumSize _ _ => []

/-- A thread does nothing else to a handle while it is in a call through it.
Nothing keeps threads apart but that each works on handles of its own. -/
def step (w : World) : Event → Option World
  | .pool op =>
    if ∀ h ∈ handlesOf op, (w.calls h).isNone then
      (Pool.step w.pool op).map fun pool => { w with pool := pool }
    else none
  | .arrive o m =>
    if o < w.pool.constructed ∧ o ∉ w.pool.destroyed then
      (MlmClient.step (w.clients o) (.arrive m)).map fun client =>
        { w with clients := Function.update w.clients o client }
    else none
  | .call _ (.arrive _) => none
  | .call h e =>
    match w.pool.handles[h]?.bind Pool.Ptr.object with
    | none => none
    | some o =>
      (MlmClient.step { w.clients o with running := w.calls h } e).map fun client =>
        { w with
          clients := Function.update w.clients o { client with running := none }
          calls := Function.update w.calls h client.running }

/-- The call under way on a client, found through the handles that give access
to it. -/
def World.callOn (w : World) (o : Object) : Option MlmClient.Running :=
  w.pool.handles.toList.findSome? fun e => if e.2.object = some o then w.calls e.1 else none

/-- A client with the call under way on it. -/
def World.session (w : World) (o : Object) : MlmClient.State :=
  { w.clients o with running := w.callOn o }

/-- With a call under way, or none, the client is as some sequence of calls
leaves it. -/
def InSession (client : MlmClient.State) (running : Option MlmClient.Running) : Prop :=
  ∃ events, exec MlmClient.step MlmClient.State.start events =
    some { client with running := running }

structure Inv (w : World) : Prop where
  placed : Pool.OnePlace w.pool
  calling : ∀ h, w.calls h ≠ none → ∃ o, w.pool.At (.handle h) o
  held : ∀ h o, w.pool.At (.handle h) o → InSession (w.clients o) (w.calls h)
  unheld : ∀ o, (∀ h, ¬ w.pool.At (.handle h) o) → InSession (w.clients o) none

theorem start_inv (maxSpare : PoolId → Nat) : Inv (World.start maxSpare) := by
  refine ⟨Pool.start_onePlace maxSpare, ?_, ?_, ?_⟩
  · intro h hcall
    exact absurd rfl hcall
  · intro h o _
    exact ⟨[], rfl⟩
  · intro o _
    exact ⟨[], rfl⟩

/-- Handles that an operation does not work on stay as they are. -/
theorem step_handles {w w' : Pool.World} {op : Pool.Op} (hs : Pool.step w op = some w')
    {h : HandleId} (hh : h ∉ handlesOf op) : w'.handles[h]? = w.handles[h]? := by
  cases op with
  | get k i =>
    have hne : h ≠ i := by simpa [handlesOf] using hh
    simp only [Pool.step] at hs
    split at hs
    · contradiction
    · cases hs
      rw [Placement.getElem?_insert, if_neg hne]
  | moveConstruct i src =>
    have hne : h ≠ i ∧ h ≠ src := by simpa [handlesOf] using hh
    simp only [Pool.step] at hs
    split at hs
    · contradiction
    · split at hs
      · contradiction
      · cases hs
        rw [Placement.getElem?_insert, if_neg hne.1, Placement.getElem?_insert, if_neg hne.2]
  | moveAssign i src =>
    have hne : h ≠ i ∧ h ≠ src := by simpa [handlesOf] using hh
    simp only [Pool.step] at hs
    split at hs
    · split at hs
      · cases hs
        rfl
      · rename_i po _ _ _ _
        cases hs
        rw [Placement.getElem?_insert, if_neg hne.1, Placement.getElem?_insert, if_neg hne.2,
          (Pool.doUnlink_keeps w po).1]
    · contradiction
  | destroy i =>
    have hne : h ≠ i := by simpa [handlesOf] using hh
    simp only [Pool.step] at hs
    split at hs
    · contradiction
    · rename_i po _
      cases hs
      rw [Placement.getElem?_erase, if_neg hne, (Pool.doUnlink_keeps w po).1]
  | setPool i p | release i =>
    have hne : h ≠ i := by simpa [handlesOf] using hh
    simp only [Pool.step] at hs
    split at hs
    · contradiction
    · cases hs
      rw [Placement.getElem?_insert, if_neg hne]
  | drop k n | setMaximumSize k n =>
    simp only [Pool.step, Option.some.injEq] at hs
    subst hs
    rfl

theorem Inv.pool {w : World} {p : Pool.World} {op : Pool.Op} (hw : Inv w)
    (hfree : ∀ h ∈ handlesOf op, (w.calls h).isNone) (hs : Pool.step w.pool op = some p) :
    Inv { w with pool := p } := by
  have hkept : ∀ h o, w.calls h ≠ none → (p.At (.handle h) o ↔ w.pool.At (.handle h) o) := by
    intro h o hcall
    have hnot : h ∉ handlesOf op := fun hmem =>
      hcall (Option.isNone_iff_eq_none.mp (hfree h hmem))
    simp only [Pool.World.At, step_handles hs hnot]
  have hplaced : Pool.OnePlace p := Pool.step_onePlace hw.placed hs
  -- a client that no owner in a call has is between two calls
  have hidle : ∀ o, (∀ h, w.calls h ≠ none → ¬ w.pool.At (.handle h) o) →
      InSession (w.clients o) none := by
    intro o hnone
    by_cases hheld : ∃ h, w.pool.At (.handle h) o
    · obtain ⟨h, hat⟩ := hheld
      have hsession := hw.held h o hat
      by_cases hcall : w.calls h = none
      · rwa [hcall] at hsession
      · exact absurd hat (hnone h hcall)
    · exact hw.unheld o fun h hat => hheld ⟨h, hat⟩
  refine ⟨hplaced, ?_, ?_, ?_⟩
  · intro h hcall
    obtain ⟨o, hat⟩ := hw.calling h hcall
    exact ⟨o, (hkept h o hcall).mpr hat⟩
  · intro h o hat
    by_cases hcall : w.calls h = none
    · have hsession : InSession (w.clients o) none := by
        apply hidle
        intro h' hcall' hat'
        have hsame := hplaced.eq_of_at hat ((hkept h' o hcall').mpr hat')
        cases hsame
        exact hcall' hcall
      change InSession (w.clients o) (w.calls h)
      rwa [hcall]
    · exact hw.held h o ((hkept h o hcall).mp hat)
  · intro o hnone
    apply hidle
    intro h hcall hat
    exact hnone h ((hkept h o hcall).mpr hat)

/-- One more event of a client's session. -/
theorem InSession.extend {client s : MlmClient.State} {running : Option MlmClient.Running}
    (h : InSession client running) {e : MlmClient.Event}
    (hs : MlmClient.step { client with running := running } e = some s) :
    ∃ events, exec MlmClient.step MlmClient.State.start events = some s := by
  obtain ⟨events, hevents⟩ := h
  exact ⟨events ++ [e], exec_append.mpr ⟨_, hevents, exec_cons.mpr ⟨s, hs, rfl⟩⟩⟩

theorem Inv.arrive {w w' : World} {o : Object} {m : Zmsg} (hw : Inv w)
    (hs : step w (.arrive o m) = some w') : Inv w' := by
  simp only [step] at hs
  split at hs
  · cases hs
    have hsession : ∀ p running, InSession (w.clients p) running →
        InSession (Function.update w.clients o { w.clients o with
          arrived := (w.clients o).arrived ++ [m], inbox := (w.clients o).inbox ++ [m] } p)
        running := by
      intro p running hp
      by_cases hpo : p = o
      · subst hpo
        rw [Function.update_self]
        exact hp.extend (e := .arrive m) rfl
      · rw [Function.update_of_ne hpo]
        exact hp
    exact ⟨hw.placed, hw.calling, fun h p hat => hsession p _ (hw.held h p hat),
      fun p hnone => hsession p _ (hw.unheld p hnone)⟩
  · contradiction

theorem Inv.call {w : World} {h : HandleId} {o : Object} {e : MlmClient.Event}
    {s : MlmClient.State} (hw : Inv w) (hat : w.pool.At (.handle h) o)
    (hs : MlmClient.step { w.clients o with running := w.calls h } e = some s) :
    Inv { w with
      clients := Function.update w.clients o { s with running := none }
      calls := Function.update w.calls h s.running } := by
  have hother : ∀ p running, p ≠ o → InSession (w.clients p) running →
      InSession (Function.update w.clients o { s with running := none } p) running := by
    intro p running hpo hp
    rw [Function.update_of_ne hpo]
    exact hp
  refine ⟨hw.placed, ?_, ?_, ?_⟩
  · intro i hcall
    by_cases hi : i = h
    · rw [hi]
      exact ⟨o, hat⟩
    · simp only [Function.update_of_ne hi] at hcall
      exact hw.calling i hcall
  · intro i p hp
    by_cases hi : i = h
    · subst hi
      have hpo : p = o := Option.some.inj (hp.symm.trans hat)
      subst hpo
      simp only [Function.update_self]
      exact (hw.held i p hat).extend hs
    · -- nobody else has the client
      have hpo : p ≠ o := by
        intro he
        subst he
        have hsame := hw.placed.eq_of_at hp hat
        cases hsame
        exact hi rfl
      simp only [Function.update_of_ne hi]
      exact hother p _ hpo (hw.held i p hp)
  · intro p hnone
    have hpo : p ≠ o := by
      intro he
      subst he
      exact hnone h hat
    exact hother p none hpo (hw.unheld p hnone)

theorem step_inv {w w' : World} {e : Event} (hw : Inv w) (hs : step w e = some w') : Inv w' := by
  cases e with
  | pool op =>
    simp only [step] at hs
    split at hs
    · rename_i hfree
      obtain ⟨p, hp, rfl⟩ := Option.map_eq_some_iff.mp hs
      exact hw.pool hfree hp
    · contradiction
  | arrive o m => exact hw.arrive hs
  | call h e =>
    cases e with
    | arrive m => contradiction
    | _ =>
      simp only [step] at hs
      split at hs
      · contradiction
      · rename_i o hat
        obtain ⟨s, hstep, rfl⟩ := Option.map_eq_some_iff.mp hs
        exact hw.call hat hstep

/-- Through whichever handle it is found, the call is that of the owner of the
one handle there is. -/
theorem Inv.callOn_held {w : World} (hw : Inv w) {h : HandleId} {o : Object}
    (hat : w.pool.At (.handle h) o) : w.callOn o = w.calls h := by
  have howner : ∀ e ∈ w.pool.handles.toList, e.2.object = some o → e.1 = h := by
    intro e he heo
    have hget := Std.TreeMap.mem_toList_iff_getElem?_eq_some.mp he
    have hsame := hw.placed.eq_of_at (p := .handle e.1) (by simp [Pool.World.At, hget, heo]) hat
    cases hsame
    rfl
  obtain ⟨ptr, hptr, hobject⟩ := Option.bind_eq_some_iff.mp hat
  cases hfound : w.callOn o with
  | none =>
    have hnone := List.findSome?_eq_none_iff.mp hfound (h, ptr)
      (Std.TreeMap.mem_toList_iff_getElem?_eq_some.mpr hptr)
    rw [if_pos hobject] at hnone
    exact hnone.symm
  | some r =>
    obtain ⟨e, he, hcall⟩ := List.exists_of_findSome?_eq_some hfound
    split at hcall
    · rename_i heo
      rw [← howner e he heo]
      exact hcall.symm
    · contradiction

theorem Inv.callOn_unheld {w : World} {o : Object} (hnone : ∀ h, ¬ w.pool.At (.handle h) o) :
    w.callOn o = none := by
  rw [World.callOn, List.findSome?_eq_none_iff]
  intro e he
  have hget := Std.TreeMap.mem_toList_iff_getElem?_eq_some.mp he
  split
  · rename_i heo
    exact absurd (by simp [Pool.World.At, hget, heo]) (hnone e.1)
  · rfl

/-- However many threads use the pools, and whatever they do to their handles
between their calls, no two have the same client, and the calls on a client, by
one owner after another, are one session: they share out all its arrivals, and
each takes up to the first message that is for it. -/
theorem clients_in_session (maxSpare : PoolId → Nat) (events : List Event) (w : World)
    (h : exec step (World.start maxSpare) events = some w) :
    (∀ h h' o, w.pool.At (.handle h) o → w.pool.At (.handle h') o → h = h') ∧
    (∀ h o, w.pool.At (.handle h) o → (w.session o).running = w.calls h) ∧
    ∀ o, (∃ calls, exec MlmClient.step MlmClient.State.start calls = some (w.session o)) ∧
      MlmClient.Inv (w.session o) := by
  have hw : Inv w := inv_of_exec (start_inv maxSpare) (fun _ _ _ hs hstep => step_inv hs hstep) h
  refine ⟨?_, ?_, ?_⟩
  · intro h h' o hat hat'
    have hsame := hw.placed.eq_of_at hat hat'
    cases hsame
    rfl
  · intro h o hat
    exact hw.callOn_held hat
  · intro o
    have hsession : InSession (w.clients o) (w.callOn o) := by
      by_cases hheld : ∃ h, w.pool.At (.handle h) o
      · obtain ⟨h, hat⟩ := hheld
        rw [hw.callOn_held hat]
        exact hw.held h o hat
      · have hnone : ∀ h, ¬ w.pool.At (.handle h) o := fun h hat => hheld ⟨h, hat⟩
        rw [Inv.callOn_unheld hnone]
        exact hw.unheld o hnone
    obtain ⟨calls, hcalls⟩ := hsession
    exact ⟨⟨calls, hcalls⟩, inv_of_exec MlmClient.start_inv
      (fun _ _ _ hs hstep => MlmClient.step_inv hs hstep) hcalls⟩

def crossingUid : Zuuid := ⟨ofString "CAFE", by decide, by decide⟩

/-- A reply that comes when the client has gone back to `mlm_pool` and has another
owner. -/
def crossingRun : List Event :=
  [.pool (.get 0 0),
    .call 0 (.requestreply (ofString "AGENT1") (ofString "TEST") 1 (some []) 0 crossingUid 0),
    .call 0 (.turn ⟨0, fun _ => .null⟩), .pool (.destroy 0), .pool (.get 0 1),
    .arrive 0 [crossingUid.text, ofString "REPLY", ofString "late"],
    .call 1 (.recv (ofString "uuid34") 2 0), .pool (.get 0 2), .call 2 (.recv [] 2 0),
    .arrive 0 [ofString "uuid34", ofString "OK"],
    .call 1 (.turn ⟨5, fun _ =>
      .ready (some [crossingUid.text, ofString "REPLY", ofString "late"])⟩),
    .call 1 (.turn ⟨6, fun _ => .ready (some [ofString "uuid34", ofString "OK"])⟩)]

theorem crossing_reply_in_session : ∃ w, exec step (World.start fun _ => 20) crossingRun = some w ∧
    (w.session 0).finished.map MlmClient.Finished.result = [none, some [ofString "OK"]] ∧
    w.pool.At (.handle 1) 0 ∧ (w.calls 2).isSome = true ∧ MlmClient.Inv (w.session 0) :=
  ⟨_, rfl, rfl, rfl, rfl, ((clients_in_session (fun _ => 20) crossingRun _ rfl).2.2 0).2⟩

end FtyCommonMlm.Pooled
