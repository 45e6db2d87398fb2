import FtyCommonMlm.Pool.Model

namespace FtyCommonMlm.Pool
open Runs

/-- No free list holds a null `unique_ptr`. -/
def NullFree (w : World) : Prop := ∀ k, none ∉ (w.pools k).freePool

/-- The operation does not unlink a handle without an object, such as a
moved-from one, from a pool that still accepts objects. -/
def KeepsNullsOut (w : World) (op : Op) : Prop :=
  ∀ po k, unlinks w op = some po → po.pool = some k → po.object = none →
    (w.pools k).accepts = false

/-- If the operation is `get`, `getPointer()` of the new handle is not null. -/
def GivesObject (_ : World) (op : Op) (w' : World) : Prop :=
  ∀ k h, op = .get k h → ∃ o, w'.handles[h]? = some ⟨some o, some k⟩

theorem start_nullFree (maxSpare : PoolId → Nat) : NullFree (World.start maxSpare) := by
  intro k
  simp [World.start]

/-- From a state without nulls, one operation brings a null into a free list
exactly when it unlinks an empty handle from a pool with room. -/
theorem step_nullFree_iff {w w' : World} {op : Op} (hn : NullFree w)
    (h : step w op = some w') : NullFree w' ↔ KeepsNullsOut w op := by
  constructor
  · intro hn' po k hu hp ho
    rcases step_freePool h k with ⟨hnone, _⟩ | ⟨po', hu', hlist⟩
    · rw [hnone] at hu
      contradiction
    · rw [hu'] at hu
      cases hu
      by_contra ha
      have hacc : (w.pools k).accepts = true := by simpa using ha
      rw [if_pos ⟨hp, hacc⟩, ho] at hlist
      exact hn' k (by simp [hlist])
  · intro hg k hmem
    rcases step_freePool h k with ⟨_, n, hlist⟩ | ⟨po, hu, hlist⟩
    · rw [hlist] at hmem
      exact hn k (List.mem_of_mem_take hmem)
    · rw [hlist] at hmem
      split at hmem
      · rename_i hroom
        rcases List.mem_append.mp hmem with hold | hnew
        · exact hn k hold
        · have ho : po.object = none := (List.mem_singleton.mp hnew).symm
          have hfull := hg po k hu hroom.1 ho
          rw [hroom.2] at hfull
          contradiction
      · exact hn k hmem

theorem step_givesObject {w w' : World} {op : Op} (hn : NullFree w)
    (h : step w op = some w') : GivesObject w op w' := by
  intro k i he
  subst he
  simp only [step] at h
  split at h
  · contradiction
  · cases h
    simp only [Std.TreeMap.getElem?_insert_self, Option.some.injEq]
    unfold get
    split
    · exact ⟨_, rfl⟩
    · rename_i it hlast
      cases it with
      | none => exact absurd (List.mem_of_getLast? hlast) (hn k)
      | some o => exact ⟨o, rfl⟩

/-- The free lists hold no null and every `get` hands out an object exactly in
the runs that never unlink an empty handle from a pool with room. -/
theorem never_null_iff (maxSpare : PoolId → Nat) (ops : List Op) :
    (Always step NullFree (World.start maxSpare) ops ∧
      Along step GivesObject (World.start maxSpare) ops) ↔
    Guarded step KeepsNullsOut (World.start maxSpare) ops := by
  have hs := start_nullFree maxSpare
  have hlists : Along step (fun _ _ w' => NullFree w') (World.start maxSpare) ops ↔
      Guarded step KeepsNullsOut (World.start maxSpare) ops :=
    along_iff_guarded hs (fun _ _ _ hn h => step_nullFree_iff hn h)
      (fun _ _ _ hn hg h => (step_nullFree_iff hn h).mpr hg)
  constructor
  · intro hgiven
    obtain ⟨⟨_, hnull⟩, _⟩ := hgiven
    exact hlists.mp hnull
  · intro hg
    refine ⟨⟨hs, hlists.mpr hg⟩, along_of_guarded hs hg ?_⟩
    intro w op w' hn hop h
    exact ⟨(step_nullFree_iff hn h).mpr hop, step_givesObject hn h⟩

/-- A handle is moved from and then destroyed: its pool takes the null, and the
next `get` hands it out. -/
theorem moved_from_handle_returns_null :
    ((exec step (World.start fun _ => 3) [.get 0 0, .moveConstruct 1 0, .destroy 0]).map
        fun w => (w.pools 0).freePool) = some [none] ∧
    ((exec step (World.start fun _ => 3)
        [.get 0 0, .moveConstruct 1 0, .destroy 0, .get 0 2]).bind
      fun w => w.handles[2]?) = some ⟨none, some 0⟩ := by
  decide

end FtyCommonMlm.Pool
