import Mathlib.Logic.Function.Basic
import Mathlib.Tactic.Common
import FtyCommonMlm.Lib.Runs

namespace FtyCommonMlm

/-- The address of one `ObjectType`. The pool never looks inside the object. -/
abbrev Object := Nat

abbrev PoolId := Nat

abbrev HandleId := Nat

/-- `Pool::Ptr`. A moved-from handle has a null object and keeps its pool. -/
structure Pool.Ptr where
  /-- `m_object` -/
  object : Option Object
  /-- `m_pool` -/
  pool : Option PoolId
deriving DecidableEq, Repr

structure Pool where
  /-- `m_freePool`, the back of the vector at the end of the list. -/
  freePool : List (Option Object)
  /-- `m_maxSpare` -/
  maxSpare : Nat
deriving DecidableEq, Repr

namespace Pool

/-- The test `put` makes under the lock. -/
def accepts (p : Pool) : Bool := p.maxSpare == 0 || p.freePool.length < p.maxSpare

/-- `Pool::put`: the pool and the handle afterwards, and whether the object
went into the free pool. -/
def put (p : Pool) (po : Ptr) : Pool × Ptr × Bool :=
  if p.accepts then
    ({ p with freePool := p.freePool ++ [po.object] }, ⟨none, none⟩, true)
  else (p, po, false)

/-- `Pool::get` of the pool at address `self`: the pool afterwards, the handle,
and whether `fresh` was constructed for it. -/
def get (p : Pool) (self : PoolId) (fresh : Object) : Pool × Ptr × Bool :=
  match p.freePool.getLast? with
  | none => (p, ⟨some fresh, some self⟩, true)
  | some it => ({ p with freePool := p.freePool.dropLast }, ⟨it, some self⟩, false)

/-- `m_freePool.resize(n)` where it shrinks the vector: the pool and the
objects destroyed. -/
def resize (p : Pool) (n : Nat) : Pool × List Object :=
  ({ p with freePool := p.freePool.take n }, (p.freePool.drop n).reduceOption)

/-- `Pool::drop` -/
def drop (p : Pool) (keep : Nat) : Pool × List Object :=
  if p.freePool.length > keep then p.resize keep else (p, [])

/-- `Pool::setMaximumSize` -/
def setMaximumSize (p : Pool) (s : Nat) : Pool × List Object :=
  let p := { p with maxSpare := s }
  if p.freePool.length > s then p.resize s else (p, [])

/-- `Pool::size`, `Pool::getCurrentSize` -/
def size (p : Pool) : Nat := p.freePool.length

/-- `Pool::getMaximumSize` -/
def getMaximumSize (p : Pool) : Nat := p.maxSpare

/-- Any number of pools and the handles that exist at one moment. -/
structure World where
  pools : PoolId → Pool
  handles : Std.TreeMap HandleId Ptr
  /-- How many objects `make_unique` has constructed. The next one gets this
  number as its address. -/
  constructed : Nat
  /-- The objects destroyed so far, in order. -/
  destroyed : List Object

/-- Freshly constructed pools, each with its own limit. -/
def World.start (maxSpare : PoolId → Nat) : World :=
  ⟨fun k => ⟨[], maxSpare k⟩, ∅, 0, []⟩

/-- `Ptr::doUnlink`. The result of `put` is ignored. -/
def World.doUnlink (w : World) (po : Ptr) : World × Ptr :=
  match po.pool with
  | none => (w, po)
  | some k =>
    let (p, po, _) := (w.pools k).put po
    ({ w with pools := Function.update w.pools k p }, po)

/-- The operations of the threads. Each of them enters the pool's mutex at most
once, and the rest of it touches only the handles of the calling thread, so an
interleaving of threads is a sequence of whole operations. -/
inductive Op
  /-- `Ptr h = pool.get()` -/
  | get (k : PoolId) (h : HandleId)
  /-- `Ptr h(std::move(src))` -/
  | moveConstruct (h src : HandleId)
  /-- `h = std::move(src)` -/
  | moveAssign (h src : HandleId)
  /-- `h.~Ptr()` -/
  | destroy (h : HandleId)
  | setPool (h : HandleId) (p : Option PoolId)
  | release (h : HandleId)
  | drop (k : PoolId) (keep : Nat)
  | setMaximumSize (k : PoolId) (s : Nat)
deriving DecidableEq, Repr

def step (w : World) : Op → Option World
  | .get k h =>
    if w.handles.contains h then none else
    let (p, po, made) := (w.pools k).get k w.constructed
    some { w with
      pools := Function.update w.pools k p
      handles := w.handles.insert h po
      constructed := if made then w.constructed + 1 else w.constructed }
  | .moveConstruct h src =>
    if w.handles.contains h then none else
    match w.handles[src]? with
    | none => none
    | some ptr =>
      some { w with handles := (w.handles.insert src { ptr with object := none }).insert h ptr }
  | .moveAssign h src =>
    match w.handles[h]?, w.handles[src]? with
    | some po, some ptr =>
      -- the guard compares the objects, so it also stops a self move
      if po.object = ptr.object then some w else
      let (w, po) := w.doUnlink po
      some { w with
        handles := (w.handles.insert src { ptr with object := none }).insert h ptr
        destroyed := w.destroyed ++ po.object.toList }
    | _, _ => none
  | .destroy h =>
    match w.handles[h]? with
    | none => none
    | some po =>
      let (w, po) := w.doUnlink po
      some { w with
        handles := w.handles.erase h
        destroyed := w.destroyed ++ po.object.toList }
  | .setPool h p =>
    match w.handles[h]? with
    | none => none
    | some po => some { w with handles := w.handles.insert h { po with pool := p } }
  | .release h =>
    match w.handles[h]? with
    | none => none
    | some po => some { w with handles := w.handles.insert h { po with pool := none } }
  | .drop k keep =>
    let (p, gone) := (w.pools k).drop keep
    some { w with
      pools := Function.update w.pools k p
      destroyed := w.destroyed ++ gone }
  | .setMaximumSize k s =>
    let (p, gone) := (w.pools k).setMaximumSize s
    some { w with
      pools := Function.update w.pools k p
      destroyed := w.destroyed ++ gone }

/-- The handle an operation runs `doUnlink` on, as it is before the operation. -/
def unlinks (w : World) : Op → Option Ptr
  | .destroy h => w.handles[h]?
  | .moveAssign h src =>
    match w.handles[h]?, w.handles[src]? with
    | some po, some ptr => if po.object = ptr.object then none else some po
    | _, _ => none
  | _ => none

theorem put_freePool (p : Pool) (po : Ptr) :
    (p.put po).1.freePool = if p.accepts then p.freePool ++ [po.object] else p.freePool := by
  unfold put
  split <;> rfl

theorem get_freePool (p : Pool) (self : PoolId) (fresh : Object) :
    (p.get self fresh).1.freePool = p.freePool.dropLast := by
  unfold get
  split
  · rename_i he
    simp [List.getLast?_eq_none_iff.mp he]
  · rfl

theorem drop_freePool (p : Pool) (keep : Nat) : (p.drop keep).1.freePool = p.freePool.take keep := by
  unfold drop
  split
  · rfl
  · rename_i hle
    exact (List.take_of_length_le (Nat.not_lt.mp hle)).symm

theorem setMaximumSize_freePool (p : Pool) (s : Nat) :
    (p.setMaximumSize s).1.freePool = p.freePool.take s := by
  unfold setMaximumSize
  dsimp only
  split
  · rfl
  · rename_i hle
    exact (List.take_of_length_le (Nat.not_lt.mp hle)).symm

/-- `doUnlink` returns the object to the handle's own pool, if it accepts it,
and leaves every other free list alone. -/
theorem doUnlink_freePool (w : World) (po : Ptr) (k : PoolId) :
    ((w.doUnlink po).1.pools k).freePool =
      if po.pool = some k ∧ (w.pools k).accepts then (w.pools k).freePool ++ [po.object]
      else (w.pools k).freePool := by
  unfold World.doUnlink
  cases hp : po.pool with
  | none => simp
  | some j =>
    by_cases hjk : k = j
    · subst hjk
      simp [put_freePool]
    · simp [Function.update_of_ne hjk, Ne.symm hjk]

/-- All one operation can do to a free list: it keeps a prefix of the list, or
it appends the object of the handle it unlinks. -/
theorem step_freePool {w w' : World} {op : Op} (h : step w op = some w') (k : PoolId) :
    (unlinks w op = none ∧ ∃ n, (w'.pools k).freePool = (w.pools k).freePool.take n) ∨
    (∃ po, unlinks w op = some po ∧ (w'.pools k).freePool =
      if po.pool = some k ∧ (w.pools k).accepts then (w.pools k).freePool ++ [po.object]
      else (w.pools k).freePool) := by
  have hkeep : ∀ j p, (∃ n, p.freePool = (w.pools j).freePool.take n) →
      ∃ n, (Function.update w.pools j p k).freePool = (w.pools k).freePool.take n := by
    intro j p hp
    by_cases hjk : k = j
    · subst hjk
      simpa using hp
    · exact ⟨(w.pools k).freePool.length, by simp [Function.update_of_ne hjk]⟩
  have hsame : ∃ n, (w.pools k).freePool = (w.pools k).freePool.take n :=
    ⟨(w.pools k).freePool.length, by simp⟩
  cases op with
  | get j i =>
    simp only [step] at h
    split at h
    · contradiction
    · cases h
      refine Or.inl ⟨rfl, hkeep j _ ⟨(w.pools j).freePool.length - 1, ?_⟩⟩
      rw [get_freePool, List.dropLast_eq_take]
  | moveConstruct i src =>
    simp only [step] at h
    split at h
    · contradiction
    · split at h
      · contradiction
      · cases h
        exact Or.inl ⟨rfl, hsame⟩
  | moveAssign i src =>
    simp only [step] at h
    split at h
    · rename_i po ptr hi hsrc
      split at h
      · rename_i heq
        cases h
        exact Or.inl ⟨by simp [unlinks, hi, hsrc, heq], hsame⟩
      · rename_i hne
        cases h
        exact Or.inr ⟨po, by simp [unlinks, hi, hsrc, hne], doUnlink_freePool w po k⟩
    · contradiction
  | destroy i =>
    simp only [step] at h
    split at h
    · contradiction
    · rename_i po hi
      cases h
      exact Or.inr ⟨po, hi, doUnlink_freePool w po k⟩
  | setPool i p =>
    simp only [step] at h
    split at h
    · contradiction
    · cases h
      exact Or.inl ⟨rfl, hsame⟩
  | release i =>
    simp only [step] at h
    split at h
    · contradiction
    · cases h
      exact Or.inl ⟨rfl, hsame⟩
  | drop j keep =>
    simp only [step, Option.some.injEq] at h
    subst h
    exact Or.inl ⟨rfl, hkeep j _ ⟨keep, drop_freePool _ _⟩⟩
  | setMaximumSize j s =>
    simp only [step, Option.some.injEq] at h
    subst h
    exact Or.inl ⟨rfl, hkeep j _ ⟨s, setMaximumSize_freePool _ _⟩⟩

end Pool

end FtyCommonMlm
