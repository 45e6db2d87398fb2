import FtyCommonMlm.Lib.Placement
import FtyCommonMlm.Lib.Runs

namespace FtyCommonMlm

/-- The address of one object that a guard can be given. -/
abbrev Pointer := Nat

abbrev GuardId := Nat

structure MlmObjGuard where
  /-- `ptr_` -/
  ptr : Option Pointer
deriving DecidableEq, Repr

namespace MlmObjGuard
open Runs Placement

/-- A `T*` handed to a guard: a null pointer, or an object created for it. -/
inductive Raw
  | null
  | fresh
deriving DecidableEq, Repr

/-- The guards that exist at one moment. -/
structure World where
  guards : Std.TreeMap GuardId MlmObjGuard
  /-- How many objects have been created. The next one gets this number as its
  address. -/
  created : Nat
  /-- The objects passed to the destructor function so far, in order. -/
  destroyed : List Pointer

def World.start : World := ⟨∅, 0, []⟩

def World.raw (w : World) : Raw → World × Option Pointer
  | .null => (w, none)
  | .fresh => ({ w with created := w.created + 1 }, some w.created)

/-- `destructor(&ptr_)`: it frees the object, if there is one, and nulls the
pointer. -/
def World.destructor (w : World) (guard : MlmObjGuard) : World × MlmObjGuard :=
  ({ w with destroyed := w.destroyed ++ guard.ptr.toList }, ⟨none⟩)

/-- What a program can do with guards. The copy constructor is deleted, and a
guard never moves. The copy assignment is the one the compiler declares. -/
inductive Op
  /-- `MlmObjGuard g` -/
  | construct (g : GuardId)
  /-- `MlmObjGuard g(ptr)` -/
  | constructFrom (g : GuardId) (ptr : Raw)
  /-- `g = ptr` -/
  | assignRaw (g : GuardId) (ptr : Raw)
  /-- `g = other` -/
  | assign (g other : GuardId)
  /-- `g.~MlmObjGuard()` -/
  | destroy (g : GuardId)
deriving DecidableEq, Repr

def step (w : World) : Op → Option World
  | .construct g =>
    if w.guards.contains g then none
    else some { w with guards := w.guards.insert g ⟨none⟩ }
  | .constructFrom g ptr =>
    if w.guards.contains g then none else
    let (w, ptr) := w.raw ptr
    some { w with guards := w.guards.insert g ⟨ptr⟩ }
  | .assignRaw g ptr =>
    match w.guards[g]? with
    | none => none
    | some guard =>
      let (w, ptr) := w.raw ptr
      let (w, guard) := w.destructor guard
      some { w with guards := w.guards.insert g { guard with ptr := ptr } }
  | .assign g other =>
    match w.guards[g]?, w.guards[other]? with
    -- the pointer is copied, and the one it is written over is lost
    | some guard, some other =>
      some { w with guards := w.guards.insert g { guard with ptr := other.ptr } }
    | _, _ => none
  | .destroy g =>
    match w.guards[g]? with
    | none => none
    | some guard =>
      let (w, _) := w.destructor guard
      some { w with guards := w.guards.erase g }

/-- The pointer of a live guard. -/
def World.held (w : World) (g : GuardId) : Option Pointer := w.guards[g]?.bind MlmObjGuard.ptr

/-- No live guard holds a destroyed object, and once the live guards are gone,
in whatever order, each object has been destroyed exactly once. -/
structure World.Owned (w : World) : Prop where
  held : ∀ g p, w.held g = some p → p ∉ w.destroyed
  gone : ∀ (order : List GuardId) w', exec step w (order.map Op.destroy) = some w' →
    w'.guards.isEmpty = true → ∀ p, p < w.created → w'.destroyed.count p = 1

/-- A guard is assigned from a guard that holds the same pointer only. -/
def Unshared (w : World) (op : Op) : Prop :=
  ∀ g other, op = .assign g other → w.held g = w.held other

/-- Where an object can be: held by a guard, or at an index of the destroyed
ones. -/
inductive Place
  | guard (g : GuardId)
  | destroyed (i : Nat)
deriving DecidableEq

def World.At (w : World) : Place → Pointer → Prop
  | .guard g, p => w.held g = some p
  | .destroyed i, p => w.destroyed[i]? = some p

/-- Each object created is in one place, and there are no others. -/
def World.Kept (w : World) : Prop := Placed (fun p => p < w.created) w.At

theorem held_insert {w w' : World} {g : GuardId} {guard : MlmObjGuard}
    (h : w'.guards = w.guards.insert g guard) (i : GuardId) :
    w'.held i = if i = g then guard.ptr else w.held i := by
  unfold World.held
  rw [h, getElem?_insert]
  split <;> rfl

/-- The pointer is copied, and nothing is destroyed. -/
theorem step_assign {w w' : World} {g other : GuardId} (h : step w (.assign g other) = some w') :
    (∀ i, w'.held i = if i = g then w.held other else w.held i) ∧
      w'.destroyed = w.destroyed ∧ w'.created = w.created := by
  simp only [step] at h
  split at h
  · rename_i guard otherGuard hg hother
    cases h
    refine ⟨?_, rfl, rfl⟩
    intro i
    rw [held_insert rfl]
    simp [World.held, hother]
  · contradiction

/-- The destructor function runs on the pointer of the guard that goes. -/
theorem step_destroy {w w' : World} {g : GuardId} (h : step w (.destroy g) = some w') :
    w'.guards = w.guards.erase g ∧ w'.destroyed = w.destroyed ++ (w.held g).toList ∧
      w'.created = w.created := by
  simp only [step] at h
  split at h
  · contradiction
  · rename_i guard hg
    cases h
    simp [World.destructor, World.held, hg]

theorem held_after {w w' : World} {g : GuardId} (h : step w (.destroy g) = some w')
    (i : GuardId) : w'.held i = if i = g then none else w.held i := by
  unfold World.held
  rw [(step_destroy h).1, getElem?_erase]
  split <;> rfl

/-- The object of a guard that goes is one of the destroyed ones then. -/
theorem destroy_moved {w w' : World} {g : GuardId} (h : step w (.destroy g) = some w') :
    Moved (fun p => if p = .guard g then .destroyed w.destroyed.length else p) w.At w'.At := by
  apply moved_one
  intro q p
  cases q with
  | guard i =>
    simp only [World.At, held_after h i]
    split <;> simp_all
  | destroyed i => simpa [World.At, (step_destroy h).2.1] using getElem?_append_toList_iff

theorem World.Kept.destroy {w w' : World} {g : GuardId} (hw : w.Kept)
    (h : step w (.destroy g) = some w') : w'.Kept := by
  obtain ⟨_, _, hcreated⟩ := step_destroy h
  refine (Placed.moved hw (destroy_moved h)).congr ?_ ?_
  · intro p
    rw [hcreated]
  · intro q p
    exact Iff.rfl

theorem World.Kept.same {w w' : World} (h : w.Kept) (hheld : ∀ i, w'.held i = w.held i)
    (hdestroyed : w'.destroyed = w.destroyed) (hcreated : w'.created = w.created) : w'.Kept := by
  refine Placed.congr h ?_ ?_
  · intro p
    rw [hcreated]
  · intro q p
    cases q with
    | guard i => simp only [World.At, hheld]
    | destroyed i => simp only [World.At, hdestroyed]

/-- A raw pointer goes to a guard that holds none. -/
theorem World.Kept.given {w w' : World} {g : GuardId} (ptr : Raw) (h : w.Kept)
    (hg : w.held g = none)
    (hheld : ∀ i, w'.held i = if i = g then (w.raw ptr).2 else w.held i)
    (hdestroyed : w'.destroyed = w.destroyed) (hcreated : w'.created = (w.raw ptr).1.created) :
    w'.Kept := by
  cases ptr with
  | null =>
    refine h.same ?_ hdestroyed hcreated
    intro i
    rw [hheld]
    split
    · rename_i hi
      rw [hi, hg]
      rfl
    · rfl
  | fresh =>
    have hnew : ¬ w.created < w.created := Nat.lt_irrefl _
    have hat : ∀ q p, w'.At q p ↔ w.At q p ∨ q = .guard g ∧ p = w.created := by
      intro q p
      cases q with
      | guard i =>
        simp only [World.At, hheld]
        split
        · rename_i hi
          subst hi
          simp [hg, World.raw, eq_comm]
        · rename_i hi
          simp [hi]
      | destroyed i => simp [World.At, hdestroyed]
    refine (Placed.added h hnew hat).congr ?_ ?_
    · intro p
      rw [hcreated]
      exact Nat.lt_succ_iff_lt_or_eq
    · intro q p
      exact Iff.rfl

theorem start_kept : World.start.Kept := by
  refine ⟨?_, ?_⟩
  · intro q p hq
    cases q with
    | guard g => simp [World.At, World.held, World.start] at hq
    | destroyed i => simp [World.At, World.start] at hq
  · intro p hp
    exact absurd hp (Nat.not_lt_zero p)

theorem held_of_absent {w : World} {g : GuardId} (h : ¬ w.guards.contains g = true) :
    w.held g = none := by
  have hnone : w.guards[g]? = none := by simpa using h
  simp [World.held, hnone]

theorem step_kept {w w' : World} {op : Op} (hw : w.Kept) (hop : Unshared w op)
    (h : step w op = some w') : w'.Kept := by
  cases op with
  | construct g =>
    simp only [step] at h
    split at h
    · contradiction
    · rename_i hnew
      cases h
      refine hw.same ?_ rfl rfl
      intro i
      rw [held_insert rfl]
      split
      · rename_i hi
        rw [hi, held_of_absent hnew]
      · rfl
  | constructFrom g ptr =>
    simp only [step] at h
    split at h
    · contradiction
    · rename_i hnew
      cases h
      refine hw.given ptr (held_of_absent hnew) ?_ ?_ rfl
      · cases ptr <;> exact held_insert rfl
      · cases ptr <;> rfl
  | assignRaw g ptr =>
    simp only [step] at h
    split at h
    · contradiction
    · rename_i guard hg
      cases h
      -- the old object goes first, then the new pointer comes
      let mid : World := { w with
        guards := w.guards.erase g
        destroyed := w.destroyed ++ (w.held g).toList }
      have hdestroy : step w (.destroy g) = some mid := by
        simp [step, hg, World.destructor, World.held, mid]
      have hmid : mid.Kept := hw.destroy hdestroy
      have hheld : ∀ i, mid.held i = if i = g then none else w.held i := by
        intro i
        simp only [mid, World.held, getElem?_erase]
        split <;> rfl
      refine hmid.given ptr (g := g) ?_ ?_ ?_ ?_
      · rw [hheld, if_pos rfl]
      · intro i
        rw [hheld]
        cases ptr <;> (rw [held_insert rfl]; split <;> rfl)
      · cases ptr <;> simp [World.destructor, World.raw, World.held, hg, mid]
      · cases ptr <;> rfl
  | assign g other =>
    obtain ⟨hheld, hdestroyed, hcreated⟩ := step_assign h
    refine hw.same ?_ hdestroyed hcreated
    intro i
    rw [hheld]
    split
    · rename_i hi
      rw [hi, hop g other rfl]
    · rfl
  | destroy g => exact hw.destroy h

theorem exists_destroy {w : World} {g : GuardId} {p : Pointer} (h : w.held g = some p) :
    ∃ w', step w (.destroy g) = some w' := by
  obtain ⟨guard, hguard, _⟩ := Option.bind_eq_some_iff.mp h
  simp [step, hguard]

/-- The live guards can always be destroyed one after another. -/
theorem exists_gone (w : World) : ∃ (order : List GuardId) (w' : World),
    exec step w (order.map Op.destroy) = some w' ∧ w'.guards.isEmpty = true := by
  induction hn : w.guards.size generalizing w with
  | zero =>
    refine ⟨[], w, rfl, ?_⟩
    rw [Std.TreeMap.isEmpty_eq_size_eq_zero, hn]
    rfl
  | succ n ih =>
    have hlive : w.guards.isEmpty = false := by
      rw [Std.TreeMap.isEmpty_eq_size_eq_zero, hn]
      rfl
    obtain ⟨g, hg⟩ := Std.TreeMap.isEmpty_eq_false_iff_exists_mem.mp hlive
    obtain ⟨guard, hguard⟩ := Option.isSome_iff_exists.mp
      (Std.TreeMap.mem_iff_isSome_getElem?.mp hg)
    obtain ⟨w₁, hw₁⟩ : ∃ w₁, step w (.destroy g) = some w₁ := by simp [step, hguard]
    have hsize : w₁.guards.size = n := by
      rw [(step_destroy hw₁).1, Std.TreeMap.size_erase,
        if_pos (Std.TreeMap.mem_iff_contains.mp hg), hn]
      exact Nat.add_sub_cancel n 1
    obtain ⟨order, w', hexec, hempty⟩ := ih w₁ hsize
    exact ⟨g :: order, w', exec_cons.mpr ⟨w₁, hw₁, hexec⟩, hempty⟩

/-- What destroying a guard preserves, destroying any number of them does. -/
theorem destroys_preserve {I : World → Prop}
    (hstep : ∀ w g w', I w → step w (.destroy g) = some w' → I w') {w w' : World}
    {order : List GuardId} (hw : I w) (h : exec step w (order.map Op.destroy) = some w') :
    I w' := by
  induction order generalizing w with
  | nil =>
    cases h
    exact hw
  | cons g order ih =>
    obtain ⟨w₁, hw₁, h⟩ := exec_cons.mp h
    exact ih (hstep w g w₁ hw hw₁) h

/-- With each object in one place, destroying the guards destroys each object
once. -/
theorem World.Kept.owned {w : World} (hw : w.Kept) : w.Owned := by
  refine ⟨?_, ?_⟩
  · intro g p hg hp
    obtain ⟨i, hi⟩ := List.mem_iff_getElem?.mp hp
    have hplace := hw.eq_of_at (p := .guard g) (q := .destroyed i) hg hi
    contradiction
  · intro order w' h hempty p hp
    obtain ⟨hw', hcreated⟩ : w'.Kept ∧ w'.created = w.created := by
      refine destroys_preserve (I := fun u => u.Kept ∧ u.created = w.created) ?_ ⟨hw, rfl⟩ h
      intro u g u' hu hstep
      exact ⟨hu.1.destroy hstep, (step_destroy hstep).2.2.trans hu.2⟩
    obtain ⟨q, hq, huniq⟩ := hw'.unique p (hcreated ▸ hp)
    cases q with
    | guard g =>
      have hnone : w'.held g = none := by
        refine held_of_absent ?_
        simp [Std.TreeMap.isEmpty_iff_forall_contains.mp hempty g]
      exact absurd (hnone.symm.trans hq) nofun
    | destroyed i =>
      refine count_eq_one ⟨i, hq, ?_⟩
      intro j hj
      exact Place.destroyed.inj (huniq (.destroyed j) hj)

/-- An object in no place is never destroyed. -/
theorem World.Owned.somewhere {w : World} (hw : w.Owned) {p : Pointer} (hp : p < w.created) :
    ∃ q, w.At q p := by
  by_contra hnot
  obtain ⟨order, w', h, hempty⟩ := exists_gone w
  have hnowhere : ∀ q, ¬ w'.At q p := by
    refine destroys_preserve (I := fun u => ∀ q, ¬ u.At q p) ?_ (not_exists.mp hnot) h
    intro u g u' hu hstep q hq
    obtain ⟨r, hr, _⟩ := (destroy_moved hstep q p).mp hq
    exact hu r hr
  have hone := hw.gone order w' h hempty p hp
  have hmem : p ∈ w'.destroyed := List.count_pos_iff.mp (by omega)
  obtain ⟨i, hi⟩ := List.mem_iff_getElem?.mp hmem
  exact hnowhere (.destroyed i) hi

/-- An object two guards hold is destroyed by both of them. -/
theorem World.Owned.unshared {w : World} (hw : w.Owned) {g other : GuardId} {p : Pointer}
    (hp : p < w.created) (hg : w.held g = some p) (hother : w.held other = some p) :
    g = other := by
  by_contra hne
  obtain ⟨w₁, hw₁⟩ := exists_destroy hg
  have hother₁ : w₁.held other = some p := by rw [held_after hw₁, if_neg (Ne.symm hne), hother]
  obtain ⟨w₂, hw₂⟩ := exists_destroy hother₁
  obtain ⟨order, w', h, hempty⟩ := exists_gone w₂
  have hone := hw.gone (g :: other :: order) w'
    (exec_cons.mpr ⟨w₁, hw₁, exec_cons.mpr ⟨w₂, hw₂, h⟩⟩) hempty p hp
  have htwice : 2 ≤ w₂.destroyed.count p := by
    rw [(step_destroy hw₂).2.1, (step_destroy hw₁).2.1, hg, hother₁]
    simp
  have hgrows : w₂.destroyed.count p ≤ w'.destroyed.count p := by
    refine destroys_preserve (I := fun u => w₂.destroyed.count p ≤ u.destroyed.count p) ?_
      (Nat.le_refl _) h
    intro u i u' hu hstep
    rw [(step_destroy hstep).2.1, List.count_append]
    omega
  omega

/-- What holds after an operation on objects that are each in one place shows
whether it has assigned one guard from another with a different pointer. -/
theorem step_owned_iff {w w' : World} {op : Op} (hw : w.Kept) (h : step w op = some w') :
    w'.Owned ↔ Unshared w op := by
  constructor
  · intro hw' g other he
    subst he
    obtain ⟨hheld, hdestroyed, hcreated⟩ := step_assign h
    by_contra hne
    cases hother : w.held other with
    | some p =>
      have hp : p < w'.created := hcreated ▸ hw.known (.guard other) p hother
      have hg' : w'.held g = some p := by rw [hheld, if_pos rfl, hother]
      have hother' : w'.held other = some p := by
        rw [hheld]
        split <;> exact hother
      exact hne (by rw [hw'.unshared hp hg' hother'])
    | none =>
      obtain ⟨p, hg⟩ : ∃ p, w.held g = some p := by
        rw [← Option.isSome_iff_exists, Option.isSome_iff_ne_none, ← hother]
        exact hne
      -- the object the guard held is in no place now
      obtain ⟨q, hq⟩ := hw'.somewhere (hcreated ▸ hw.known (.guard g) p hg)
      cases q with
      | guard i =>
        simp only [World.At, hheld] at hq
        split at hq
        · rw [hother] at hq
          contradiction
        · rename_i hi
          exact hi (Place.guard.inj (hw.eq_of_at (p := .guard i) (q := .guard g) hq hg))
      | destroyed i =>
        rw [World.At, hdestroyed] at hq
        have hplace := hw.eq_of_at (p := .destroyed i) (q := .guard g) hq hg
        contradiction
  · intro hop
    exact (step_kept hw hop h).owned

theorem owned_iff_unshared (ops : List Op) :
    Always step World.Owned World.start ops ↔ Guarded step Unshared World.start ops := by
  have hrun : Along step (fun _ _ w => w.Owned) World.start ops ↔
      Guarded step Unshared World.start ops :=
    along_iff_guarded (I := World.Kept) start_kept (fun _ _ _ hw h => step_owned_iff hw h)
      (fun _ _ _ hw hop h => step_kept hw hop h)
  unfold Always
  rw [hrun]
  exact and_iff_right start_kept.owned

/-- One guard assigned from another, and then both gone. -/
def sharing : List Op :=
  [.constructFrom 0 .fresh, .constructFrom 1 .fresh, .assign 0 1, .destroy 1, .destroy 0]

theorem shared_object_destroyed_twice : ∃ w, exec step World.start sharing = some w ∧
    w.guards.isEmpty = true ∧ w.created = 2 ∧
    w.destroyed.count 0 = 0 ∧ w.destroyed.count 1 = 2 :=
  ⟨_, rfl, rfl, rfl, rfl, rfl⟩

end MlmObjGuard

end FtyCommonMlm
