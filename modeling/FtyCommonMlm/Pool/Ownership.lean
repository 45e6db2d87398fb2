import Mathlib.Data.List.ReduceOption
import FtyCommonMlm.Lib.Placement
import FtyCommonMlm.Pool.Model

namespace FtyCommonMlm.Pool
open Runs Placement

/-- Where an object can be: held by a handle, at an index of a free list, or at
an index of the destroyed ones. -/
inductive Place
  | handle (h : HandleId)
  | spare (k : PoolId) (i : Nat)
  | destroyed (i : Nat)
deriving DecidableEq

def World.At (w : World) : Place → Object → Prop
  | .handle h, o => w.handles[h]?.bind Ptr.object = some o
  | .spare k i, o => (w.pools k).freePool[i]? = some (some o)
  | .destroyed i, o => w.destroyed[i]? = some o

/-- The place the object of an unlinked handle goes to. -/
def World.unlinkPlace (w : World) (po : Ptr) : Place :=
  match po.pool with
  | none => .destroyed w.destroyed.length
  | some k =>
    if (w.pools k).accepts then .spare k (w.pools k).freePool.length
    else .destroyed w.destroyed.length

/-- The place an object of a shrunk free list goes to. -/
def World.shrinkPlace (w : World) (k : PoolId) (n : Nat) : Place → Place
  | .spare j i =>
    if j = k ∧ n ≤ i then
      .destroyed (w.destroyed.length +
        (((w.pools k).freePool.drop n).take (i - n)).reduceOption.length)
    else .spare j i
  | p => p

theorem drop_gone (p : Pool) (n : Nat) : (p.drop n).2 = (p.freePool.drop n).reduceOption := by
  unfold drop
  split
  · rfl
  · rename_i hle
    rw [List.drop_eq_nil_of_le (Nat.not_lt.mp hle)]
    rfl

theorem setMaximumSize_gone (p : Pool) (n : Nat) :
    (p.setMaximumSize n).2 = (p.freePool.drop n).reduceOption := by
  unfold setMaximumSize
  dsimp only
  split
  · rfl
  · rename_i hle
    rw [List.drop_eq_nil_of_le (Nat.not_lt.mp hle)]
    rfl

theorem doUnlink_keeps (w : World) (po : Ptr) :
    (w.doUnlink po).1.handles = w.handles ∧ (w.doUnlink po).1.constructed = w.constructed ∧
      (w.doUnlink po).1.destroyed = w.destroyed := by
  unfold World.doUnlink
  cases po.pool <;> exact ⟨rfl, rfl, rfl⟩

/-- Where the objects of a list with nulls are in the list without them. -/
theorem getElem?_reduceOption_iff {α : Type} {l : List (Option α)} {x : α} {j : Nat} :
    l.reduceOption[j]? = some x ↔
      ∃ i, l[i]? = some (some x) ∧ j = (l.take i).reduceOption.length := by
  induction l generalizing j with
  | nil => simp
  | cons a l ih =>
    cases a with
    | none =>
      rw [List.reduceOption_cons_of_none, ih]
      constructor
      · intro hgiven
        obtain ⟨i, hi, rfl⟩ := hgiven
        exact ⟨i + 1, hi, by simp⟩
      · intro hgiven
        obtain ⟨i, hi, rfl⟩ := hgiven
        cases i with
        | zero => simp at hi
        | succ i => exact ⟨i, hi, by simp⟩
    | some a =>
      rw [List.reduceOption_cons_of_some]
      constructor
      · intro hj
        cases j with
        | zero => exact ⟨0, by simpa using hj, by simp⟩
        | succ j =>
          obtain ⟨i, hi, rfl⟩ := ih.mp hj
          exact ⟨i + 1, hi, by simp⟩
      · intro hgiven
        obtain ⟨i, hi, rfl⟩ := hgiven
        cases i with
        | zero => simpa using hi
        | succ i =>
          simp only [List.take_succ_cons, List.reduceOption_cons_of_some, List.length_cons,
            List.getElem?_cons_succ]
          exact ih.mpr ⟨i, hi, rfl⟩

/-- An unlinked object goes to the free list of the handle's pool, or stays with
the handle, which is about to destroy it. -/
theorem doUnlink_cases (w : World) (po : Ptr) :
    (∃ k, w.unlinkPlace po = .spare k (w.pools k).freePool.length ∧
      (w.doUnlink po).2.object = none ∧ (w.doUnlink po).1.pools = Function.update w.pools k
        { w.pools k with freePool := (w.pools k).freePool ++ [po.object] }) ∨
    (w.unlinkPlace po = .destroyed w.destroyed.length ∧ (w.doUnlink po).2 = po ∧
      (w.doUnlink po).1.pools = w.pools) := by
  unfold World.doUnlink World.unlinkPlace
  cases hp : po.pool with
  | none => exact Or.inr ⟨rfl, rfl, rfl⟩
  | some k =>
    cases ha : (w.pools k).accepts with
    | true => exact Or.inl ⟨k, by simp [ha], by simp [put, ha], by simp [put, ha]⟩
    | false => exact Or.inr ⟨by simp [ha], by simp [put, ha], by simp [put, ha]⟩

/-- Unlinking a handle and forgetting it moves its object only. -/
theorem doUnlink_moved {w w' : World} {h : HandleId} {po : Ptr} (hpo : w.handles[h]? = some po)
    (hh : ∀ i, w'.handles[i]? = if i = h then none else w.handles[i]?)
    (hp : w'.pools = (w.doUnlink po).1.pools)
    (hd : w'.destroyed = w.destroyed ++ (w.doUnlink po).2.object.toList) :
    Moved (fun p => if p = .handle h then w.unlinkPlace po else p) w.At w'.At := by
  apply moved_one
  intro q o
  have hheld : w.At (.handle h) o ↔ po.object = some o := by simp [World.At, hpo]
  have hhandle : ∀ i, w'.At (.handle i) o ↔ i ≠ h ∧ w.At (.handle i) o := by
    intro i
    simp only [World.At, hh i]
    split <;> simp_all
  rw [hheld]
  rcases doUnlink_cases w po with ⟨k, hplace, hobject, hpools⟩ | ⟨hplace, hobject, hpools⟩
  · rw [hobject, Option.toList_none, List.append_nil] at hd
    rw [hpools] at hp
    rw [hplace]
    cases q with
    | handle i => simpa using hhandle i
    | destroyed i => simp [World.At, hd]
    | spare j i =>
      by_cases hj : j = k
      · subst hj
        simpa [World.At, hp] using getElem?_concat_iff
      · simp [World.At, hp, hj]
  · rw [hobject] at hd
    rw [hpools] at hp
    rw [hplace]
    cases q with
    | handle i => simpa using hhandle i
    | destroyed i => simpa [World.At, hd] using getElem?_append_toList_iff
    | spare j i => simp [World.At, hp]

/-- A handle moved from gives its object to the new one. -/
theorem handOver_moved {w w' : World} {h src : HandleId} {ptr : Ptr}
    (hsrc : w.handles[src]? = some ptr) (hnew : w.handles[h]? = none)
    (hh : ∀ i, w'.handles[i]? = if i = h then some ptr else
      if i = src then some { ptr with object := none } else w.handles[i]?)
    (hp : w'.pools = w.pools) (hd : w'.destroyed = w.destroyed) :
    Moved (fun p => if p = .handle src then .handle h else p) w.At w'.At := by
  apply moved_one
  intro q o
  have hheld : w.At (.handle src) o ↔ ptr.object = some o := by simp [World.At, hsrc]
  rw [hheld]
  cases q with
  | handle i =>
    simp only [World.At, hh i]
    by_cases hi : i = h
    · subst hi
      simp [hnew]
    · by_cases his : i = src
      · subst his
        simp [hi]
      · simp [hi, his]
  | spare j i => simp [World.At, hp]
  | destroyed i => simp [World.At, hd]

/-- Shrinking a free list has its last objects destroyed. -/
theorem shrink_moved {w w' : World} {k : PoolId} {n : Nat} (hh : w'.handles = w.handles)
    (hp : ∀ j, (w'.pools j).freePool =
      if j = k then (w.pools k).freePool.take n else (w.pools j).freePool)
    (hd : w'.destroyed = w.destroyed ++ ((w.pools k).freePool.drop n).reduceOption) :
    Moved (w.shrinkPlace k n) w.At w'.At := by
  have htake : ∀ i o, w'.At (.spare k i) o ↔ i < n ∧ w.At (.spare k i) o := by
    intro i o
    by_cases hi : i < n <;> simp [World.At, hp, hi]
  have hdrop : ∀ i o, ((w.pools k).freePool.drop n)[i]? = some (some o) ↔
      w.At (.spare k (n + i)) o := by
    intro i o
    simp [World.At, List.getElem?_drop]
  apply moved_intro
  · intro p o hat
    cases p with
    | handle i => simpa [World.At, World.shrinkPlace, hh] using hat
    | destroyed i =>
      simp only [World.At, World.shrinkPlace, hd] at hat ⊢
      rw [List.getElem?_append_left (List.getElem?_eq_some_iff.mp hat).1]
      exact hat
    | spare j i =>
      by_cases hgone : j = k ∧ n ≤ i
      · obtain ⟨rfl, hge⟩ := hgone
        simp only [World.shrinkPlace, hge, and_self, if_true, World.At, hd]
        rw [List.getElem?_append_right (Nat.le_add_right _ _), Nat.add_sub_cancel_left]
        refine getElem?_reduceOption_iff.mpr ⟨i - n, (hdrop _ o).mpr ?_, rfl⟩
        rw [Nat.add_sub_cancel' hge]
        exact hat
      · simp only [World.shrinkPlace, if_neg hgone]
        by_cases hj : j = k
        · subst hj
          exact (htake i o).mpr ⟨Nat.not_le.mp fun hle => hgone ⟨rfl, hle⟩, hat⟩
        · simpa [World.At, hp, hj] using hat
  · intro q o hat
    cases q with
    | handle i => exact ⟨.handle i, by simpa [World.At, hh] using hat, rfl⟩
    | spare j i =>
      by_cases hj : j = k
      · subst hj
        obtain ⟨hlt, hat⟩ := (htake i o).mp hat
        exact ⟨.spare j i, hat, if_neg (by omega)⟩
      · refine ⟨.spare j i, ?_, if_neg (fun he => hj he.1)⟩
        simpa [World.At, hp, hj] using hat
    | destroyed i =>
      simp only [World.At, hd, List.getElem?_append] at hat
      split at hat
      · exact ⟨.destroyed i, hat, rfl⟩
      · rename_i hge
        obtain ⟨j, hj, hij⟩ := getElem?_reduceOption_iff.mp hat
        refine ⟨.spare k (n + j), (hdrop j o).mp hj, ?_⟩
        simp only [World.shrinkPlace, Nat.le_add_right, and_self, if_true,
          Nat.add_sub_cancel_left, ← hij]
        congr 1
        omega

/-- A `get` from a free list hands its last object to the new handle. -/
theorem getSpare_moved {w w' : World} {k : PoolId} {h : HandleId} {it : Option Object}
    (hlast : (w.pools k).freePool.getLast? = some it) (hnew : w.handles[h]? = none)
    (hh : ∀ i, w'.handles[i]? = if i = h then some ⟨it, some k⟩ else w.handles[i]?)
    (hp : ∀ j, (w'.pools j).freePool =
      if j = k then (w.pools k).freePool.dropLast else (w.pools j).freePool)
    (hd : w'.destroyed = w.destroyed) :
    Moved (fun p => if p = .spare k ((w.pools k).freePool.length - 1) then .handle h else p)
      w.At w'.At := by
  apply moved_one
  intro q o
  have hback : w.At (.spare k ((w.pools k).freePool.length - 1)) o ↔ it = some o := by
    rw [List.getLast?_eq_getElem?] at hlast
    simp [World.At, hlast]
  rw [hback]
  cases q with
  | handle i =>
    by_cases hi : i = h
    · subst hi
      simp [World.At, hh, hnew]
    · simp [World.At, hh, hi]
  | destroyed i => simp [World.At, hd]
  | spare j i =>
    by_cases hj : j = k
    · subst hj
      simp only [World.At, hp, if_true, List.getElem?_dropLast, ne_eq, Place.spare.injEq, true_and]
      constructor
      · intro hi
        split at hi
        · rename_i hlt
          exact Or.inl ⟨by omega, hi⟩
        · contradiction
      · intro hor
        rcases hor with ⟨hne, hi⟩ | ⟨he, _⟩
        · have hlt := (List.getElem?_eq_some_iff.mp hi).1
          rw [if_pos (by omega)]
          exact hi
        · contradiction
    · simp [World.At, hp, hj]

theorem update_freePool {w : World} {k : PoolId} {p : Pool} {l : List (Option Object)}
    (hp : p.freePool = l) (j : PoolId) : (Function.update w.pools k p j).freePool =
      if j = k then l else (w.pools j).freePool := by
  by_cases hj : j = k
  · subst hj
    simpa using hp
  · simp [hj]

/-- A `get` constructs an object for its handle, or takes one from the free
list. -/
theorem get_moved {w w' : World} {k : PoolId} {h : HandleId}
    (hs : step w (.get k h) = some w') :
    (w'.constructed = w.constructed ∧
      ∃ f, Moved f w.At w'.At ∧ ∀ i, f (.destroyed i) = .destroyed i) ∨
    (w'.constructed = w.constructed + 1 ∧
      ∃ h, ∀ q o, w'.At q o ↔ w.At q o ∨ q = .handle h ∧ o = w.constructed) := by
  simp only [step] at hs
  split at hs
  · contradiction
  · rename_i hnew
    have hnone : w.handles[h]? = none := by simpa using hnew
    cases hlast : (w.pools k).freePool.getLast? with
    | none =>
      simp only [get, hlast] at hs
      cases hs
      refine Or.inr ⟨rfl, h, ?_⟩
      intro q o
      cases q with
      | handle i =>
        by_cases hi : i = h
        · subst hi
          simp [World.At, hnone, eq_comm]
        · simp [World.At, getElem?_insert, hi]
      | spare j i => simp [World.At]
      | destroyed i => simp [World.At]
    | some it =>
      simp only [get, hlast] at hs
      cases hs
      refine Or.inl ⟨rfl, _, getSpare_moved hlast hnone (fun i => getElem?_insert)
        (update_freePool rfl) rfl, ?_⟩
      intro i
      simp

theorem moveAssign_moved {w w' : World} {h src : HandleId}
    (hs : step w (.moveAssign h src) = some w') :
    w'.constructed = w.constructed ∧
      ∃ f, Moved f w.At w'.At ∧ ∀ i, f (.destroyed i) = .destroyed i := by
  simp only [step] at hs
  split at hs
  · rename_i po ptr hpo hsrc
    split at hs
    · cases hs
      exact ⟨rfl, id, moved_id, fun i => rfl⟩
    · rename_i hne
      cases hs
      have hsh : src ≠ h := by
        intro he
        subst he
        rw [hpo] at hsrc
        cases hsrc
        exact hne rfl
      obtain ⟨hhandles, hconstructed, hdestroyed⟩ := doUnlink_keeps w po
      -- the old object of the handle goes first, then the new one comes
      let mid : World := { (w.doUnlink po).1 with
        handles := w.handles.erase h
        destroyed := w.destroyed ++ (w.doUnlink po).2.object.toList }
      have hmid : ∀ i, mid.handles[i]? = if i = h then none else w.handles[i]? :=
        fun i => getElem?_erase
      have hgone : Moved _ w.At mid.At := doUnlink_moved hpo hmid rfl rfl
      have hsrc' : mid.handles[src]? = some ptr := by rw [hmid, if_neg hsh, hsrc]
      have hnew : mid.handles[h]? = none := by rw [hmid, if_pos rfl]
      refine ⟨hconstructed, _, hgone.comp (handOver_moved hsrc' hnew ?_ rfl ?_), ?_⟩
      · intro i
        rw [hhandles, getElem?_insert, getElem?_insert, hmid]
        by_cases hi : i = h
        · simp [hi]
        · simp [hi]
      · rw [hdestroyed]
      · intro i
        simp
  · contradiction

/-- What one operation does with the objects: it moves some of them and leaves
the destroyed ones where they are, or it puts one it constructs in a handle. -/
theorem step_moved {w w' : World} {op : Op} (hs : step w op = some w') :
    (w'.constructed = w.constructed ∧
      ∃ f, Moved f w.At w'.At ∧ ∀ i, f (.destroyed i) = .destroyed i) ∨
    (w'.constructed = w.constructed + 1 ∧
      ∃ h, ∀ q o, w'.At q o ↔ w.At q o ∨ q = .handle h ∧ o = w.constructed) := by
  cases op with
  | get k h => exact get_moved hs
  | moveConstruct h src =>
    simp only [step] at hs
    split at hs
    · contradiction
    · rename_i hnew
      split at hs
      · contradiction
      · rename_i ptr hsrc
        cases hs
        refine Or.inl ⟨rfl, _, handOver_moved hsrc (by simpa using hnew) ?_ rfl rfl, ?_⟩
        · intro i
          rw [getElem?_insert, getElem?_insert]
        · intro i
          simp
  | moveAssign h src => exact Or.inl (moveAssign_moved hs)
  | destroy h =>
    simp only [step] at hs
    split at hs
    · contradiction
    · rename_i po hpo
      cases hs
      obtain ⟨hhandles, hconstructed, hdestroyed⟩ := doUnlink_keeps w po
      refine Or.inl ⟨hconstructed, _, doUnlink_moved hpo ?_ rfl (by rw [hdestroyed]), ?_⟩
      · intro i
        rw [hhandles, getElem?_erase]
      · intro i
        simp
  | setPool h p | release h =>
    simp only [step] at hs
    split at hs
    · contradiction
    · rename_i po hpo
      cases hs
      refine Or.inl ⟨rfl, id, ?_, fun i => rfl⟩
      intro q o
      cases q with
      | handle i =>
        by_cases hi : i = h
        · subst hi
          simp [World.At, hpo]
        · simp [World.At, getElem?_insert, hi]
      | spare j i => simp [World.At]
      | destroyed i => simp [World.At]
  | drop k n =>
    simp only [step, Option.some.injEq] at hs
    subst hs
    exact Or.inl ⟨rfl, w.shrinkPlace k n, shrink_moved rfl (update_freePool (drop_freePool _ _))
      (by rw [drop_gone]), fun i => rfl⟩
  | setMaximumSize k n =>
    simp only [step, Option.some.injEq] at hs
    subst hs
    exact Or.inl ⟨rfl, w.shrinkPlace k n,
      shrink_moved rfl (update_freePool (setMaximumSize_freePool _ _))
      (by rw [setMaximumSize_gone]), fun i => rfl⟩

/-- Each object constructed so far is in exactly one place. -/
def OnePlace (w : World) : Prop := Placed (fun o => o < w.constructed) w.At

theorem start_onePlace (maxSpare : PoolId → Nat) : OnePlace (World.start maxSpare) := by
  refine ⟨?_, ?_⟩
  · intro p o hp
    cases p <;> simp [World.At, World.start] at hp
  · intro o ho
    exact absurd ho (Nat.not_lt_zero o)

theorem step_onePlace {w w' : World} {op : Op} (hw : OnePlace w) (hs : step w op = some w') :
    OnePlace w' := by
  rcases step_moved hs with ⟨hc, f, hf, _⟩ | ⟨hc, h, hnew⟩
  · refine (hw.moved hf).congr ?_ (fun _ _ => Iff.rfl)
    intro o
    rw [hc]
  · refine (hw.added (Nat.lt_irrefl _) hnew).congr ?_ (fun _ _ => Iff.rfl)
    intro o
    rw [hc]
    omega

theorem step_destroyed {w w' : World} {op : Op} {i : Nat} {o : Object}
    (hs : step w op = some w') (hi : w.At (.destroyed i) o) : w'.At (.destroyed i) o := by
  rcases step_moved hs with ⟨_, f, hf, hstay⟩ | ⟨_, h, hnew⟩
  · have hat := hf.at_of hi
    rw [hstay] at hat
    exact hat
  · exact (hnew _ o).mpr (Or.inl hi)

/-- Every object `get` ever constructed is held by exactly one handle, or stored
exactly once in one free list, or destroyed, once and for all. -/
theorem object_in_one_place (maxSpare : PoolId → Nat) (ops later : List Op) (w w' : World)
    (hw : exec step (World.start maxSpare) ops = some w) (hw' : exec step w later = some w') :
    (∀ o, o < w.constructed → ∃! p, w.At p o) ∧ (∀ p o, w.At p o → o < w.constructed) ∧
    (∀ h h' o, w.At (.handle h) o → w.At (.handle h') o → h = h') ∧
    ∀ i o, w.At (.destroyed i) o → w'.At (.destroyed i) o ∧ ∀ p, w'.At p o → p = .destroyed i := by
  have hone : OnePlace w :=
    inv_of_exec (start_onePlace maxSpare) (fun _ _ _ hi hs => step_onePlace hi hs) hw
  have hone' : OnePlace w' := inv_of_exec hone (fun _ _ _ hi hs => step_onePlace hi hs) hw'
  refine ⟨hone.unique, hone.known, ?_, ?_⟩
  · intro h h' o hh hh'
    exact Place.handle.inj (hone.eq_of_at hh hh')
  · intro i o hi
    have hstays : w'.At (.destroyed i) o :=
      inv_of_exec (I := fun w => w.At (.destroyed i) o) hi
        (fun _ _ _ hi hs => step_destroyed hs hi) hw'
    exact ⟨hstays, fun p hp => hone'.eq_of_at hp hstays⟩

def movedOver : List Op :=
  [.get 0 0, .get 0 1, .get 0 2, .destroy 0, .moveConstruct 3 2, .moveAssign 1 3]

def afterwards : List Op := [.setPool 1 none, .drop 0 0, .get 0 4]

/-- The object of handle 1 is destroyed when handle 3 is moved over it, as the
pool is full, and is not seen again. -/
theorem moved_over_object_in_one_place :
    ∃ w w', exec step (World.start fun _ => 1) movedOver = some w ∧
      exec step w afterwards = some w' ∧ w.At (.destroyed 0) 1 ∧
      (∃! p, w.At p 2) ∧ ∀ p, w'.At p 1 → p = .destroyed 0 := by
  refine ⟨_, _, rfl, rfl, rfl, ?_, ?_⟩
  · exact (object_in_one_place (fun _ => 1) movedOver [] _ _ rfl rfl).1 2 (by decide)
  · exact ((object_in_one_place (fun _ => 1) movedOver afterwards _ _ rfl rfl).2.2.2 0 1 rfl).2

end FtyCommonMlm.Pool
