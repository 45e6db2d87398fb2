import Mathlib.Logic.Function.Basic
import FtyCommonMlm.Lib.Runs

namespace SharedLog
open Runs

/-- One log for all readers. What is sent is shown later, in order; a reader that
is attached has its first place in the log and the next one it will read. -/
structure State (Reader Message : Type) where
  sent : List Message
  shown : Nat
  readers : Reader → Option (Nat × Nat)
  heard : Reader → List Message

inductive Action (Reader Message : Type)
  | send (m : Message)
  | reveal
  | attach (r : Reader)
  | read (r : Reader)
  | detach (r : Reader)

variable {Reader Message : Type}

def start : State Reader Message := ⟨[], 0, fun _ => none, fun _ => []⟩

variable [DecidableEq Reader]

/-- A reader reads on from where the log was when it attached. -/
def step (s : State Reader Message) : Action Reader Message → Option (State Reader Message)
  | .send m => some { s with sent := s.sent ++ [m] }
  | .reveal => if s.shown < s.sent.length then some { s with shown := s.shown + 1 } else none
  | .attach r =>
    match s.readers r with
    | none => some { s with readers := Function.update s.readers r (some (s.shown, s.shown)) }
    | some _ => none
  | .read r =>
    match s.readers r with
    | none => none
    | some (first, next) =>
      (s.sent.take s.shown)[next]?.map fun m =>
        { s with
          readers := Function.update s.readers r (some (first, next + 1))
          heard := Function.update s.heard r (s.heard r ++ [m]) }
  | .detach r =>
    match s.readers r with
    | none => none
    | some _ => some { s with readers := Function.update s.readers r none }

/-- What a reader has heard is in the order of the log, and since it attached
nothing is missing. -/
def Reads (shown : List Message) (heard : List Message) : Option (Nat × Nat) → Prop
  | none => heard.Sublist shown
  | some (first, next) => first ≤ next ∧ next ≤ shown.length ∧
    ∃ earlier, heard = earlier ++ (shown.take next).drop first ∧
      earlier.Sublist (shown.take first)

structure Inv (s : State Reader Message) : Prop where
  shown : s.shown ≤ s.sent.length
  reads : ∀ r, Reads (s.sent.take s.shown) (s.heard r) (s.readers r)

section Steps

variable {shown heard more : List Message} {place : Option (Nat × Nat)} {first next : Nat}
  {s t : State Reader Message} {r : Reader} {a : Action Reader Message}

theorem Reads.sublist (h : Reads shown heard place) : heard.Sublist shown := by
  match place, h with
  | none, h => exact h
  | some (first, next), ⟨_, _, earlier, hheard, hearlier⟩ =>
    rw [hheard, ← List.take_append_drop first shown]
    refine List.Sublist.append (by simpa using hearlier) ?_
    rw [List.take_append_drop]
    exact (List.take_sublist next shown).drop first

theorem Reads.grow (h : Reads shown heard place) : Reads (shown ++ more) heard place := by
  match place, h with
  | none, h => exact h.trans (List.sublist_append_left shown more)
  | some (first, next), ⟨hle, hnext, earlier, hheard, hearlier⟩ =>
    refine ⟨hle, by simp; omega, earlier, ?_, ?_⟩
    · rw [List.take_append_of_le_length hnext]
      exact hheard
    · rw [List.take_append_of_le_length (Nat.le_trans hle hnext)]
      exact hearlier

theorem Reads.attach (h : Reads shown heard none) :
    Reads shown heard (some (shown.length, shown.length)) :=
  ⟨Nat.le_refl _, Nat.le_refl _, heard, by simp, by
    rw [List.take_length]
    exact h⟩

theorem Reads.read {m : Message} (h : Reads shown heard (some (first, next)))
    (hm : shown[next]? = some m) : Reads shown (heard ++ [m]) (some (first, next + 1)) := by
  obtain ⟨hle, hnext, earlier, hheard, hearlier⟩ := h
  obtain ⟨hlt, _⟩ := List.getElem?_eq_some_iff.mp hm
  refine ⟨by omega, hlt, earlier, ?_, hearlier⟩
  have hlength : first ≤ (shown.take next).length := by simp; omega
  rw [List.take_add_one, hm, Option.toList_some, List.drop_append_of_le_length hlength, hheard,
    List.append_assoc]

omit [DecidableEq Reader] in
theorem start_inv : Inv (start : State Reader Message) :=
  ⟨Nat.le_refl _, fun _ => List.Sublist.refl _⟩

theorem step_inv (hs : Inv s) (h : step s a = some t) : Inv t := by
  have hlength : (s.sent.take s.shown).length = s.shown := by
    rw [List.length_take]
    exact Nat.min_eq_left hs.shown
  cases a with
  | send m =>
    cases h
    refine ⟨by simpa using Nat.le_succ_of_le hs.shown, ?_⟩
    intro r
    rw [List.take_append_of_le_length hs.shown]
    exact hs.reads r
  | reveal =>
    simp only [step] at h
    split at h
    · rename_i hlt
      cases h
      refine ⟨hlt, ?_⟩
      intro r
      rw [List.take_add_one]
      exact (hs.reads r).grow
    · contradiction
  | attach r =>
    simp only [step] at h
    split at h
    · rename_i hnone
      cases h
      refine ⟨hs.shown, ?_⟩
      intro r'
      by_cases hr : r' = r
      · subst hr
        have hreads := hs.reads r'
        rw [hnone] at hreads
        simpa [hlength] using hreads.attach
      · simpa [Function.update_of_ne hr] using hs.reads r'
    · contradiction
  | read r =>
    simp only [step] at h
    split at h
    · contradiction
    · rename_i first next hsome
      obtain ⟨m, hm, rfl⟩ := Option.map_eq_some_iff.mp h
      refine ⟨hs.shown, ?_⟩
      intro r'
      by_cases hr : r' = r
      · subst hr
        have hreads := hs.reads r'
        rw [hsome] at hreads
        simpa using hreads.read hm
      · simpa [Function.update_of_ne hr] using hs.reads r'
  | detach r =>
    simp only [step] at h
    split at h
    · contradiction
    · cases h
      refine ⟨hs.shown, ?_⟩
      intro r'
      by_cases hr : r' = r
      · subst hr
        simpa [Reads] using (hs.reads r').sublist
      · simpa [Function.update_of_ne hr] using hs.reads r'

end Steps

/-- Sending is appending. -/
theorem exec_send (s : State Reader Message) (ms : List Message) :
    exec step s (ms.map .send) = some { s with sent := s.sent ++ ms } := by
  induction ms generalizing s with
  | nil => simp [exec]
  | cons m ms ih => simp [exec, step, ih]

/-- In every run, each reader hears the log in its order, without a gap since it
attached. -/
theorem reads_of_run {as : List (Action Reader Message)} {s : State Reader Message}
    (h : exec step start as = some s) : Inv s :=
  inv_of_exec start_inv (fun _ _ _ hs ht => step_inv hs ht) h

end SharedLog
