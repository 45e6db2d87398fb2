import FtyCommonMlm.Pool.Ownership

namespace FtyCommonMlm.Pool
open Runs Placement

/-- Pools, some of which are gone by now, with their handles. -/
structure Lifetime where
  world : World
  gone : PoolId → Bool

inductive LifeOp
  | op (op : Op)
  /-- `~Pool` -/
  | destroyPool (k : PoolId)

/-- The pools whose mutex an operation enters. -/
def enters (w : World) (op : Op) : List PoolId :=
  match op with
  | .get k _ | .drop k _ | .setMaximumSize k _ => [k]
  | _ => ((unlinks w op).bind Ptr.pool).toList

/-- A pool that is gone must not be entered any more. `~Pool` clears the free pool
as `drop(0)` does. -/
def Lifetime.step (s : Lifetime) : LifeOp → Option Lifetime
  | .op op =>
    if ∃ k ∈ enters s.world op, s.gone k = true then none
    else (Pool.step s.world op).map fun w => { s with world := w }
  | .destroyPool k =>
    if s.gone k then none
    else (Pool.step s.world (.drop k 0)).map fun w =>
      { world := w, gone := Function.update s.gone k true }

def Lifetime.start (maxSpare : PoolId → Nat) : Lifetime :=
  ⟨World.start maxSpare, fun _ => false⟩

/-- Whether an operation leaves no handle with a pool that is gone. -/
def Outlives (s : Lifetime) : LifeOp → Prop
  | .destroyPool k => ∀ (h : HandleId) po, s.world.handles[h]? = some po → po.pool ≠ some k
  | .op (.setPool _ (some k)) => s.gone k = false
  | .op _ => True

structure Ended (s : Lifetime) : Prop where
  onePlace : OnePlace s.world
  empty : ∀ k, s.gone k = true → (s.world.pools k).freePool = []

/-- No handle gives its object back to a pool that is gone. -/
def Outlived (s : Lifetime) : Prop :=
  ∀ (h : HandleId) po k, s.world.handles[h]? = some po → po.pool = some k → s.gone k = false

section Steps

variable {s t : Lifetime} {w w' : World} {op : Op}

/-- Only the pools that an operation enters get spares. -/
theorem freePool_of_not_enters (h : Pool.step w op = some w') {k : PoolId} (hk : k ∉ enters w op)
    (hempty : (w.pools k).freePool = []) : (w'.pools k).freePool = [] := by
  rcases step_freePool h k with ⟨_, n, hn⟩ | ⟨po, hpo, hput⟩
  · rw [hn, hempty, List.take_nil]
  · have hother : po.pool ≠ some k := by
      intro hpool
      have hunlinked : ((unlinks w op).bind Ptr.pool).toList = [k] := by
        rw [hpo, Option.bind_some, hpool, Option.toList_some]
      cases op with
      | destroy i | moveAssign i src =>
        simp only [enters, hunlinked] at hk
        exact hk List.mem_cons_self
      | _ => contradiction
    rw [hput, if_neg (fun hgiven => hother hgiven.1), hempty]

/-- The pool of a handle comes from a handle, or from the operation. -/
theorem pool_of_step (h : Pool.step w op = some w') {i : HandleId} {po : Ptr}
    (hi : w'.handles[i]? = some po) :
    po.pool = none ∨ (∃ (j : HandleId) (po' : Ptr), w.handles[j]? = some po' ∧ po'.pool = po.pool) ∨
      (∃ k, op = .get k i ∧ po.pool = some k) ∨ op = .setPool i po.pool := by
  have hmoved : ∀ {dst src : HandleId} {ptr : Ptr}, w.handles[src]? = some ptr →
      ((w.handles.insert src { ptr with object := none }).insert dst ptr)[i]? = some po →
      ∃ (j : HandleId) (po' : Ptr), w.handles[j]? = some po' ∧ po'.pool = po.pool := by
    intro dst src ptr hsrc hi
    rw [getElem?_insert, getElem?_insert] at hi
    split_ifs at hi
    · cases hi
      exact ⟨src, _, hsrc, rfl⟩
    · cases hi
      exact ⟨src, ptr, hsrc, rfl⟩
    · exact ⟨i, po, hi, rfl⟩
  cases op with
  | get k j =>
    simp only [Pool.step] at h
    split at h
    · contradiction
    · cases h
      rw [getElem?_insert] at hi
      split_ifs at hi with hij
      · subst hij
        refine Or.inr (Or.inr (Or.inl ⟨k, rfl, ?_⟩))
        rw [← Option.some.inj hi, get]
        split <;> rfl
      · exact Or.inr (Or.inl ⟨i, po, hi, rfl⟩)
  | moveConstruct j src =>
    simp only [Pool.step] at h
    split at h
    · contradiction
    · split at h
      · contradiction
      · rename_i ptr hsrc
        cases h
        exact Or.inr (Or.inl (hmoved hsrc hi))
  | moveAssign j src =>
    simp only [Pool.step] at h
    split at h
    · rename_i po' ptr hj hsrc
      split at h
      · cases h
        exact Or.inr (Or.inl ⟨i, po, hi, rfl⟩)
      · cases h
        dsimp only at hi
        rw [(doUnlink_keeps w po').1] at hi
        exact Or.inr (Or.inl (hmoved hsrc hi))
    · contradiction
  | destroy j =>
    simp only [Pool.step] at h
    split at h
    · contradiction
    · rename_i po' hj
      cases h
      dsimp only at hi
      rw [(doUnlink_keeps w po').1, getElem?_erase] at hi
      split_ifs at hi
      exact Or.inr (Or.inl ⟨i, po, hi, rfl⟩)
  | setPool j p =>
    simp only [Pool.step] at h
    split at h
    · contradiction
    · cases h
      rw [getElem?_insert] at hi
      split_ifs at hi with hij
      · cases hi
        subst hij
        exact Or.inr (Or.inr (Or.inr rfl))
      · exact Or.inr (Or.inl ⟨i, po, hi, rfl⟩)
  | release j =>
    simp only [Pool.step] at h
    split at h
    · contradiction
    · cases h
      rw [getElem?_insert] at hi
      split_ifs at hi
      · cases hi
        exact Or.inl rfl
      · exact Or.inr (Or.inl ⟨i, po, hi, rfl⟩)
  | drop k n | setMaximumSize k n =>
    cases h
    exact Or.inr (Or.inl ⟨i, po, hi, rfl⟩)

theorem op_eq : s.step (.op op) = some t ↔ (∀ k ∈ enters s.world op, s.gone k = false) ∧
    ∃ w, Pool.step s.world op = some w ∧ { s with world := w } = t := by
  simp only [Lifetime.step]
  split
  · rename_i hentered
    obtain ⟨k, hk, hgone⟩ := hentered
    simp only [reduceCtorEq, false_iff]
    intro hgiven
    rw [hgiven.1 k hk] at hgone
    contradiction
  · rename_i hnone
    rw [Option.map_eq_some_iff, and_iff_right]
    intro k hk
    exact Bool.not_eq_true _ ▸ fun hgone => hnone ⟨k, hk, hgone⟩

theorem destroy_handles {h : HandleId} (hs : Pool.step w (.destroy h) = some w') (i : HandleId) :
    w'.handles[i]? = if i = h then none else w.handles[i]? := by
  simp only [Pool.step] at hs
  split at hs
  · contradiction
  · rename_i po hpo
    cases hs
    dsimp only
    rw [(doUnlink_keeps w po).1, getElem?_erase]

/-- What `~Pool` leaves. -/
def Lifetime.closed (s : Lifetime) (k : PoolId) : Lifetime where
  world := { s.world with
    pools := Function.update s.world.pools k ((s.world.pools k).drop 0).1
    destroyed := s.world.destroyed ++ ((s.world.pools k).drop 0).2 }
  gone := Function.update s.gone k true

theorem destroyPool_eq {k : PoolId} :
    s.step (.destroyPool k) = some t ↔ s.gone k = false ∧ s.closed k = t := by
  simp only [Lifetime.step, Pool.step, Option.map_some, Option.ite_none_left_eq_some,
    Bool.not_eq_true, Option.some.injEq, Lifetime.closed]

theorem closed_onePlace (hs : OnePlace s.world) (k : PoolId) : OnePlace (s.closed k).world := by
  have hdrop : Pool.step s.world (.drop k 0) = some (s.closed k).world := rfl
  exact step_onePlace hs hdrop

theorem closed_freePool (s : Lifetime) (k j : PoolId) : ((s.closed k).world.pools j).freePool =
    if j = k then [] else (s.world.pools j).freePool := by
  rw [Lifetime.closed, update_freePool (drop_freePool _ _), List.take_zero]

theorem closed_gone (s : Lifetime) (k j : PoolId) :
    (s.closed k).gone j = if j = k then true else s.gone j :=
  Function.update_apply s.gone k true j

theorem step_ended {a : LifeOp} (hs : Ended s) (h : s.step a = some t) : Ended t := by
  cases a with
  | op op =>
    obtain ⟨halive, w, hw, rfl⟩ := op_eq.mp h
    refine ⟨step_onePlace hs.onePlace hw, ?_⟩
    intro k hk
    refine freePool_of_not_enters hw ?_ (hs.empty k hk)
    intro hin
    rw [halive k hin] at hk
    contradiction
  | destroyPool k =>
    obtain ⟨-, rfl⟩ := destroyPool_eq.mp h
    refine ⟨closed_onePlace hs.onePlace k, ?_⟩
    intro j hj
    rw [closed_freePool]
    rw [closed_gone] at hj
    split_ifs at hj ⊢ with hjk
    · rfl
    · exact hs.empty j hj

theorem step_outlived {a : LifeOp} (hs : Outlived s) (ha : Outlives s a) (h : s.step a = some t) :
    Outlived t := by
  intro i po k hi hpool
  cases a with
  | op op =>
    obtain ⟨halive, w, hw, rfl⟩ := op_eq.mp h
    rcases pool_of_step hw hi with hnil | ⟨j, po', hj, hsame⟩ | ⟨j, rfl, hj⟩ | rfl
    · rw [hnil] at hpool
      contradiction
    · exact hs j po' k hj (hsame.trans hpool)
    · rw [hpool] at hj
      cases hj
      exact halive k List.mem_cons_self
    · rw [hpool] at ha
      exact ha
  | destroyPool j =>
    obtain ⟨-, rfl⟩ := destroyPool_eq.mp h
    rw [closed_gone, if_neg]
    · exact hs i po k hi hpool
    · intro he
      subst he
      exact ha i po hi hpool

end Steps

/-- The pools still to be destroyed have all the spares, and all the handles
give their objects back to them. -/
structure Closing (ks : List PoolId) (s : Lifetime) : Prop where
  onePlace : OnePlace s.world
  alive : ∀ k ∈ ks, s.gone k = false
  spare : ∀ k, (s.world.pools k).freePool ≠ [] → k ∈ ks
  held : ∀ (h : HandleId) po k, s.world.handles[h]? = some po → po.pool = some k → k ∈ ks

section Closing

variable {s : Lifetime} {ks : List PoolId}

theorem Closing.destroy (hs : Closing ks s) {h : HandleId} {po : Ptr}
    (hpo : s.world.handles[h]? = some po) :
    ∃ t, s.step (.op (.destroy h)) = some t ∧ Closing ks t ∧
      (∀ i : HandleId, t.world.handles[i]? = if i = h then none else s.world.handles[i]?) ∧
      t.world.constructed = s.world.constructed := by
  obtain ⟨w, hw, hconstructed⟩ : ∃ w, Pool.step s.world (.destroy h) = some w ∧
      w.constructed = s.world.constructed := by
    simp only [Pool.step, hpo]
    exact ⟨_, rfl, (doUnlink_keeps s.world po).2.1⟩
  have herased := destroy_handles hw
  refine ⟨{ s with world := w }, op_eq.mpr ⟨?_, w, hw, rfl⟩, ?_, herased, hconstructed⟩
  · intro k hk
    simp only [enters, unlinks, hpo, Option.bind_some, Option.mem_toList] at hk
    exact hs.alive k (hs.held h po k hpo hk)
  · refine ⟨step_onePlace hs.onePlace hw, hs.alive, ?_, ?_⟩
    · intro k hk
      by_cases hpool : po.pool = some k
      · exact hs.held h po k hpo hpool
      · apply hs.spare k
        intro hempty
        refine hk (freePool_of_not_enters hw ?_ hempty)
        simpa [enters, unlinks, hpo] using hpool
    · intro i po' k hi hpool
      dsimp only at hi
      rw [herased] at hi
      split_ifs at hi
      exact hs.held i po' k hi hpool

/-- The handles can all be destroyed, in any order. -/
theorem Closing.destroyHandles (hs : Closing ks s) {is : List HandleId} (hnodup : is.Nodup)
    (hall : ∀ i : HandleId, i ∈ is ↔ (s.world.handles[i]?).isSome) :
    ∃ t, exec Lifetime.step s (is.map fun i => .op (.destroy i)) = some t ∧ Closing ks t ∧
      (∀ i : HandleId, t.world.handles[i]? = none) ∧ t.world.constructed = s.world.constructed := by
  induction is generalizing s with
  | nil =>
    refine ⟨s, rfl, hs, ?_, rfl⟩
    intro i
    have hnot := (hall i).not.mp List.not_mem_nil
    simpa using hnot
  | cons i is ih =>
    obtain ⟨hi, hnodup⟩ := List.nodup_cons.mp hnodup
    obtain ⟨po, hpo⟩ := Option.isSome_iff_exists.mp ((hall i).mp List.mem_cons_self)
    obtain ⟨u, hu, hclosing, hhandles, hconstructed⟩ := hs.destroy hpo
    obtain ⟨t, ht, hdone⟩ := ih hclosing hnodup (by
      intro j
      rw [hhandles]
      by_cases hj : j = i
      · subst hj
        simpa using hi
      · rw [if_neg hj, ← hall j, List.mem_cons, or_iff_right hj])
    exact ⟨t, exec_cons.mpr ⟨u, hu, ht⟩, hdone.1, hdone.2.1, hdone.2.2.trans hconstructed⟩

/-- Then the pools can all be destroyed, in any order, and no spare is left. -/
theorem Closing.destroyPools (hs : Closing ks s) (hnodup : ks.Nodup)
    (hnone : ∀ i : HandleId, s.world.handles[i]? = none) :
    ∃ t, exec Lifetime.step s (ks.map .destroyPool) = some t ∧ Closing [] t ∧
      (∀ i : HandleId, t.world.handles[i]? = none) ∧ t.world.constructed = s.world.constructed := by
  induction ks generalizing s with
  | nil => exact ⟨s, rfl, hs, hnone, rfl⟩
  | cons k ks ih =>
    obtain ⟨hk, hnodup⟩ := List.nodup_cons.mp hnodup
    have hclosing : Closing ks (s.closed k) := by
      refine ⟨closed_onePlace hs.onePlace k, ?_, ?_, ?_⟩
      · intro j hj
        rw [closed_gone, if_neg (ne_of_mem_of_not_mem hj hk)]
        exact hs.alive j (List.mem_cons_of_mem _ hj)
      · intro j hj
        rw [closed_freePool] at hj
        split_ifs at hj with hjk
        · contradiction
        · exact (List.mem_cons.mp (hs.spare j hj)).resolve_left hjk
      · intro i po j hi
        rw [show (s.closed k).world.handles[i]? = none from hnone i] at hi
        contradiction
    obtain ⟨t, ht, hdone⟩ := ih hclosing hnodup hnone
    have hstep : s.step (.destroyPool k) = some (s.closed k) :=
      destroyPool_eq.mpr ⟨hs.alive k List.mem_cons_self, rfl⟩
    exact ⟨t, exec_cons.mpr ⟨_, hstep, ht⟩, hdone⟩

/-- Without handles and spares, the destroyed objects are those constructed. -/
theorem Closing.destroyed (hs : Closing [] s) (hnone : ∀ i : HandleId, s.world.handles[i]? = none) :
    s.world.destroyed.Perm (List.range s.world.constructed) := by
  have hnodup : s.world.destroyed.Nodup := by
    rw [List.nodup_iff_getElem?_ne_getElem?]
    intro i j hij hj he
    have hat : ∀ n, s.world.destroyed[n]? = some s.world.destroyed[j] →
        n = j := fun n hn => Place.destroyed.inj (hs.onePlace.eq_of_at
          (show s.world.At (.destroyed n) _ from hn) (List.getElem?_eq_getElem hj))
    have := hat i (he.trans (List.getElem?_eq_getElem hj))
    omega
  refine (List.perm_ext_iff_of_nodup hnodup List.nodup_range).mpr ?_
  intro o
  rw [List.mem_range]
  constructor
  · intro ho
    obtain ⟨i, hi⟩ := List.mem_iff_getElem?.mp ho
    exact hs.onePlace.known (.destroyed i) o hi
  · intro ho
    obtain ⟨p, hp, -⟩ := hs.onePlace.unique o ho
    cases p with
    | handle i => simp [World.At, hnone] at hp
    | spare k i =>
      have hempty : (s.world.pools k).freePool = [] := by
        by_contra hne
        exact absurd (hs.spare k hne) List.not_mem_nil
      simp [World.At, hempty] at hp
    | destroyed i => exact List.mem_iff_getElem?.mpr ⟨i, hp⟩

end Closing

/-- The handles are destroyed, then the pools. -/
def closeDown (is : List HandleId) (ks : List PoolId) : List LifeOp :=
  is.map (fun i => .op (.destroy i)) ++ ks.map .destroyPool

theorem start_ended (maxSpare : PoolId → Nat) : Ended (Lifetime.start maxSpare) :=
  ⟨start_onePlace maxSpare, fun _ _ => rfl⟩

theorem start_outlived (maxSpare : PoolId → Nat) : Outlived (Lifetime.start maxSpare) := by
  intro h po k hpo
  simp [Lifetime.start, World.start] at hpo

/-- A handle destroyed on a run has not outlived its pool. -/
theorem alive_of_destroyed {s t : Lifetime} {is : List HandleId} (hnodup : is.Nodup)
    (h : exec Lifetime.step s (is.map fun i => .op (.destroy i)) = some t) {i : HandleId}
    (hi : i ∈ is) {po : Ptr} {k : PoolId} (hpo : s.world.handles[i]? = some po)
    (hpool : po.pool = some k) : s.gone k = false := by
  induction is generalizing s with
  | nil => contradiction
  | cons j is ih =>
    obtain ⟨hj, hnodup⟩ := List.nodup_cons.mp hnodup
    obtain ⟨u, hu, ht⟩ := exec_cons.mp h
    obtain ⟨halive, w, hw, rfl⟩ := op_eq.mp hu
    rcases List.mem_cons.mp hi with rfl | hi
    · apply halive
      simp [enters, unlinks, hpo, hpool]
    · apply ih hnodup ht hi
      rw [destroy_handles hw, if_neg (ne_of_mem_of_not_mem hi hj)]
      exact hpo

/-- From any state a run reaches, the handles and then the pools can all be
destroyed, each in any order, if and only if no handle has outlived the pool it
gives its object back to, a moved-from handle included. Every object ever
constructed is then destroyed, once. -/
theorem handles_then_pools_cleaned (maxSpare : PoolId → Nat) (ops : List LifeOp) (s : Lifetime)
    (hs : exec Lifetime.step (Lifetime.start maxSpare) ops = some s)
    (is : List HandleId) (ks : List PoolId) (his : is.Perm s.world.handles.keys)
    (hks : ks.Nodup) (halive : ∀ k ∈ ks, s.gone k = false)
    (hpools : ∀ k, s.gone k = false → k ∉ ks → (s.world.pools k).freePool = [] ∧
      ∀ (i : HandleId) po, s.world.handles[i]? = some po → po.pool ≠ some k) :
    ((∃ t, exec Lifetime.step s (closeDown is ks) = some t) ↔ Outlived s) ∧
    (∀ t, exec Lifetime.step s (closeDown is ks) = some t →
      t.world.destroyed.Perm (List.range s.world.constructed)) ∧
    (Guarded Lifetime.step Outlives (Lifetime.start maxSpare) ops → Outlived s) := by
  have hnodup : is.Nodup := by
    rw [his.nodup_iff]
    exact Std.TreeMap.nodup_keys
  have hhandles : ∀ i : HandleId, i ∈ is ↔ (s.world.handles[i]?).isSome := by
    intro i
    rw [his.mem_iff, Std.TreeMap.mem_keys, ← Std.TreeMap.isSome_getElem?_iff_mem]
  have hended : Ended s :=
    inv_of_exec (start_ended maxSpare) (fun _ _ _ hi hu => step_ended hi hu) hs
  have hclosing : Outlived s → Closing ks s := by
    intro houtlived
    refine ⟨hended.onePlace, halive, ?_, ?_⟩
    · intro k hk
      by_contra hnot
      cases hgone : s.gone k with
      | true => exact hk (hended.empty k hgone)
      | false => exact hk (hpools k hgone hnot).1
    · intro i po k hi hpool
      by_contra hnot
      exact (hpools k (houtlived i po k hi hpool) hnot).2 i po hi hpool
  have houtlived : ∀ t, exec Lifetime.step s (closeDown is ks) = some t → Outlived s := by
    intro t ht i po k hi hpool
    obtain ⟨u, hu, -⟩ := exec_append.mp ht
    exact alive_of_destroyed hnodup hu ((hhandles i).mpr (by rw [hi]; rfl)) hi hpool
  have hclosed : Outlived s → ∃ t, exec Lifetime.step s (closeDown is ks) = some t ∧
      t.world.destroyed.Perm (List.range s.world.constructed) := by
    intro hout
    obtain ⟨u, hu, hclosing, hnone, hconstructed⟩ := (hclosing hout).destroyHandles hnodup hhandles
    obtain ⟨t, ht, hend, hnone, hconstructed'⟩ := hclosing.destroyPools hks hnone
    refine ⟨t, exec_append.mpr ⟨u, hu, ht⟩, ?_⟩
    rw [← hconstructed, ← hconstructed']
    exact hend.destroyed hnone
  refine ⟨⟨?_, ?_⟩, ?_, ?_⟩
  · intro hgiven
    obtain ⟨t, ht⟩ := hgiven
    exact houtlived t ht
  · intro hout
    obtain ⟨t, ht, -⟩ := hclosed hout
    exact ⟨t, ht⟩
  · intro t ht
    obtain ⟨t', ht', hperm⟩ := hclosed (houtlived t ht)
    rw [ht] at ht'
    cases ht'
    exact hperm
  · intro hg
    exact inv_of_guarded (start_outlived maxSpare) hg
      (fun _ _ _ hi ha hu => step_outlived hi ha hu) hs

/-- Handle 0 has been moved from and still has pool 0. -/
def movedBetweenPools : List LifeOp :=
  [.op (.get 0 0), .op (.get 1 1), .op (.moveConstruct 2 0), .op (.destroy 1), .destroyPool 1]

theorem moved_from_handle_cleaned :
    ∃ s t, exec Lifetime.step (Lifetime.start fun _ => 1) movedBetweenPools = some s ∧
      exec Lifetime.step s (closeDown [2, 0] [0]) = some t ∧
      t.world.destroyed.Perm (List.range 2) := by
  refine ⟨_, _, rfl, rfl, ?_⟩
  refine (handles_then_pools_cleaned (fun _ => 1) movedBetweenPools _ rfl [2, 0] [0]
    (List.Perm.swap 0 2 []) (by decide) (by decide) ?_).2.1 _ rfl
  intro k halive hk
  rw [List.mem_singleton] at hk
  refine ⟨?_, ?_⟩
  · by_cases h1 : k = 1
    · subst h1
      rfl
    · simp [Function.update_of_ne, Lifetime.start, World.start, h1]
  · intro i po hi hpool
    have hmem : i ∈ [0, 2] :=
      Std.TreeMap.mem_keys.mpr (Std.TreeMap.mem_iff_isSome_getElem?.mpr (by rw [hi]; rfl))
    simp only [List.mem_cons, List.not_mem_nil, or_false] at hmem
    rcases hmem with rfl | rfl
    · cases hi
      cases hpool
      contradiction
    · cases hi
      cases hpool
      contradiction

end FtyCommonMlm.Pool
