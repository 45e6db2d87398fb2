import FtyCommonMlm.Pool.Ownership
import FtyCommonMlm.Pool.Limits

namespace FtyCommonMlm.Pool
open Runs

/-- The free lists that handles coming back to a pool with this limit can make. -/
def Fillable (s : Nat) (l : List (Option Object)) : Prop :=
  ∃ returned : List Ptr,
    (returned.foldl (fun p po => (p.put po).1) (⟨[], s⟩ : Pool)).freePool = l

/-- What changing the limit of a pool to `s` should do: the longest part of the
free list that returns under the new limit could have made is kept, and nothing
else is discarded than the rest of it. -/
structure Resized (w : World) (k : PoolId) (s : Nat) (w' : World) : Prop where
  kept : (w'.pools k).freePool <+: (w.pools k).freePool
  fillable : Fillable s (w'.pools k).freePool
  longest : ∀ l, l <+: (w.pools k).freePool → Fillable s l →
    l.length ≤ (w'.pools k).freePool.length
  discarded : w'.destroyed = w.destroyed ++
    ((w.pools k).freePool.drop (w'.pools k).freePool.length).reduceOption

theorem put_maxSpare (p : Pool) (po : Ptr) : (p.put po).1.maxSpare = p.maxSpare := by
  unfold put
  split <;> rfl

/-- Returns never take a free list over its limit. -/
theorem puts_within {p : Pool} (returned : List Ptr)
    (hp : p.maxSpare = 0 ∨ p.freePool.length ≤ p.maxSpare) :
    p.maxSpare = 0 ∨
      (returned.foldl (fun p po => (p.put po).1) p).freePool.length ≤ p.maxSpare := by
  induction returned generalizing p with
  | nil => exact hp
  | cons po returned ih =>
    have hput : (p.put po).1.maxSpare = 0 ∨
        (p.put po).1.freePool.length ≤ (p.put po).1.maxSpare := by
      rw [put_maxSpare, put_freePool]
      split
      · rename_i ha
        rcases accepts_iff.mp ha with hzero | hlt
        · exact Or.inl hzero
        · rw [List.length_append, List.length_singleton]
          exact Or.inr hlt
      · exact hp
    have hrest := ih hput
    rw [put_maxSpare] at hrest
    exact hrest

/-- Returning the objects one by one makes the list, while it is within the
limit. -/
theorem puts_fill {p : Pool} (l : List (Option Object))
    (hp : p.maxSpare = 0 ∨ p.freePool.length + l.length ≤ p.maxSpare) :
    ((l.map fun o => (⟨o, none⟩ : Ptr)).foldl (fun p po => (p.put po).1) p).freePool =
      p.freePool ++ l := by
  induction l generalizing p with
  | nil => simp
  | cons o l ih =>
    rw [List.length_cons] at hp
    have ha : p.accepts = true := accepts_iff.mpr (by unfold size; omega)
    have hput : (p.put ⟨o, none⟩).1.freePool = p.freePool ++ [o] := by
      rw [put_freePool, if_pos ha]
    have hrest := ih (p := (p.put ⟨o, none⟩).1) (by
      rw [put_maxSpare, hput, List.length_append, List.length_singleton]
      omega)
    rw [hput, List.append_assoc] at hrest
    exact hrest

theorem fillable_iff {s : Nat} {l : List (Option Object)} :
    Fillable s l ↔ s = 0 ∨ l.length ≤ s := by
  constructor
  · intro h
    obtain ⟨returned, hl⟩ := h
    have hwithin := puts_within (p := ⟨[], s⟩) returned (Or.inr (Nat.zero_le s))
    rw [hl] at hwithin
    exact hwithin
  · intro h
    exact ⟨_, puts_fill (p := ⟨[], s⟩) l (by simpa using h)⟩

theorem resized_iff {w w' : World} {k : PoolId} {s : Nat}
    (h : step w (.setMaximumSize k s) = some w') :
    Resized w k s w' ↔ s ≠ 0 ∨ (w.pools k).freePool = [] := by
  simp only [step, Option.some.injEq] at h
  subst h
  have hkept : (Function.update w.pools k ((w.pools k).setMaximumSize s).1 k).freePool =
      (w.pools k).freePool.take s := by
    rw [update_freePool (setMaximumSize_freePool _ _), if_pos rfl]
  constructor
  · intro h
    by_contra hnot
    obtain ⟨hzero, hspare⟩ := not_or.mp hnot
    rw [not_not] at hzero
    subst hzero
    have hlongest := h.longest _ (List.prefix_refl _) (fillable_iff.mpr (Or.inl rfl))
    rw [hkept, List.take_zero, List.length_nil] at hlongest
    exact hspare (List.length_eq_zero_iff.mp (Nat.le_zero.mp hlongest))
  · intro h
    refine ⟨?_, ?_, ?_, ?_⟩
    · rw [hkept]
      exact List.take_prefix _ _
    · rw [hkept, fillable_iff, List.length_take]
      omega
    · intro l hl hfill
      have hle := hl.length_le
      rw [hkept, List.length_take]
      rcases h with hs | hnil
      · have hwithin := fillable_iff.mp hfill
        omega
      · rw [hnil] at hle ⊢
        simpa using hle
    · rw [setMaximumSize_gone, hkept, List.length_take]
      rw [List.drop_eq_drop_min]

/-- Over a run the pools read a new limit as `put` reads it exactly if no limit
is lifted while there are spare objects. -/
theorem resizes_iff (maxSpare : PoolId → Nat) (ops : List Op) :
    Along step (fun w op w' => ∀ k s, op = .setMaximumSize k s → Resized w k s w')
        (World.start maxSpare) ops ↔
      Guarded step (fun w op => ∀ k s, op = .setMaximumSize k s →
        s ≠ 0 ∨ (w.pools k).freePool = []) (World.start maxSpare) ops := by
  refine along_iff_guarded (I := fun _ => True) trivial ?_ (fun _ _ _ _ _ _ => trivial)
  intro w op w' _ h
  constructor
  · intro hr k s he
    subst he
    exact (resized_iff h).mp (hr k s rfl)
  · intro hg k s he
    subst he
    exact (resized_iff h).mpr (hg k s rfl)

/-- A pool whose limit is lifted discards its spare object, though it would take
one back. -/
theorem lifted_limit_discards : ∃ w w',
    exec step (World.start fun _ => 2) [.get 0 0, .destroy 0] = some w ∧
    (w.pools 0).freePool = [some 0] ∧ Fillable 0 [some 0] ∧
    step w (.setMaximumSize 0 0) = some w' ∧ (w'.pools 0).freePool = [] ∧ w'.destroyed = [0] :=
  ⟨_, _, rfl, rfl, ⟨[⟨some 0, none⟩], rfl⟩, rfl, rfl, rfl⟩

end FtyCommonMlm.Pool
