import FtyCommonMlm.Lib.Placement
import FtyCommonMlm.Pool.NullFree

namespace FtyCommonMlm.Pool
open Runs Placement

/-- The operations of threads that only get handles and let go of them, and
that change the limit. -/
def Op.plain : Op → Bool
  | .get _ _ | .destroy _ | .drop _ _ | .setMaximumSize _ _ => true
  | _ => false

/-- The free list is within the limit, where there is one. -/
def WithinLimit (p : Pool) : Prop := p.maxSpare ≠ 0 → p.size ≤ p.maxSpare

/-- A state that plain operations reach. -/
structure Plain (w : World) : Prop where
  limit : ∀ k, WithinLimit (w.pools k)
  spare : NullFree w
  held : ∀ (h : HandleId) (po : Ptr), w.handles[h]? = some po → ∃ o k, po = ⟨some o, some k⟩

theorem accepts_iff {p : Pool} : p.accepts = true ↔ p.maxSpare = 0 ∨ p.size < p.maxSpare := by
  simp [accepts, size]

/-- Destroying a handle with an object puts the object in its pool, if there is
room, and destroys it otherwise. -/
theorem destroy_held {w : World} {h : HandleId} {o : Object} {k : PoolId}
    (hpo : w.handles[h]? = some ⟨some o, some k⟩) :
    step w (.destroy h) = some (if (w.pools k).accepts then
      { w with
        pools := Function.update w.pools k
          { w.pools k with freePool := (w.pools k).freePool ++ [some o] }
        handles := w.handles.erase h }
      else { w with handles := w.handles.erase h, destroyed := w.destroyed ++ [o] }) := by
  cases ha : (w.pools k).accepts <;> simp [step, hpo, World.doUnlink, put, ha]

theorem start_plain (maxSpare : PoolId → Nat) : Plain (World.start maxSpare) := by
  refine ⟨?_, start_nullFree maxSpare, ?_⟩
  · intro k _
    exact Nat.zero_le _
  · intro h po hpo
    simp [World.start] at hpo

theorem withinLimit_update {w : World} {k : PoolId} {p : Pool}
    (hw : ∀ j, WithinLimit (w.pools j)) (hp : WithinLimit p) (j : PoolId) :
    WithinLimit (Function.update w.pools k p j) := by
  by_cases hj : j = k
  · subst hj
    simpa using hp
  · simpa [hj] using hw j

theorem nullFree_update {w : World} {k : PoolId} {p : Pool} (hw : NullFree w)
    (hp : none ∉ p.freePool) (j : PoolId) :
    none ∉ (Function.update w.pools k p j).freePool := by
  by_cases hj : j = k
  · subst hj
    simpa using hp
  · simpa [hj] using hw j

/-- Changing the pools in a way that keeps the limit and lets no null in. -/
theorem Plain.update {w : World} (hw : Plain w) {k : PoolId} {p : Pool} (destroyed : List Object)
    (hlimit : WithinLimit p) (hnull : none ∉ p.freePool) :
    Plain { w with pools := Function.update w.pools k p, destroyed := destroyed } :=
  ⟨withinLimit_update hw.limit hlimit, nullFree_update hw.spare hnull, hw.held⟩

theorem Plain.erase {w : World} (hw : Plain w) (h : HandleId) :
    Plain { w with handles := w.handles.erase h } := by
  refine ⟨hw.limit, hw.spare, ?_⟩
  intro i po hpo
  apply hw.held i po
  simp only [getElem?_erase] at hpo
  split at hpo
  · contradiction
  · exact hpo

theorem Plain.get {w w' : World} {k : PoolId} {h : HandleId} (hw : Plain w)
    (hs : step w (.get k h) = some w') : Plain w' := by
  obtain ⟨o, ho⟩ := step_givesObject hw.spare hs k h rfl
  simp only [step] at hs
  split at hs
  · contradiction
  · cases hs
    refine ⟨withinLimit_update hw.limit ?_, nullFree_update hw.spare ?_, ?_⟩
    · intro hne
      have hmax : ((w.pools k).get k w.constructed).1.maxSpare = (w.pools k).maxSpare := by
        unfold Pool.get
        split <;> rfl
      rw [hmax] at hne ⊢
      have hle := hw.limit k hne
      simp only [size] at hle ⊢
      rw [get_freePool, List.length_dropLast]
      omega
    · rw [get_freePool]
      exact fun hn => hw.spare k ((List.dropLast_sublist _).subset hn)
    · intro i po hpo
      by_cases hi : i = h
      · subst hi
        rw [ho] at hpo
        exact ⟨o, k, (Option.some.inj hpo).symm⟩
      · rw [getElem?_insert, if_neg hi] at hpo
        exact hw.held i po hpo

theorem Plain.destroy {w w' : World} {h : HandleId} (hw : Plain w)
    (hs : step w (.destroy h) = some w') : Plain w' := by
  cases hpo : w.handles[h]? with
  | none => simp [step, hpo] at hs
  | some po =>
    obtain ⟨o, k, rfl⟩ := hw.held h po hpo
    rw [destroy_held hpo, Option.some.injEq] at hs
    subst hs
    split
    · rename_i ha
      apply (hw.update w.destroyed ?_ ?_).erase h
      · intro hne
        have hroom := (accepts_iff.mp ha).resolve_left hne
        simp only [size, List.length_append, List.length_singleton] at hroom ⊢
        omega
      · simpa using hw.spare k
    · have he := hw.erase h
      exact ⟨he.limit, he.spare, he.held⟩

theorem Plain.shrink {w : World} (hw : Plain w) {k : PoolId} {p : Pool} {n : Nat}
    (destroyed : List Object) (hf : p.freePool = (w.pools k).freePool.take n)
    (hlimit : WithinLimit p) :
    Plain { w with pools := Function.update w.pools k p, destroyed := destroyed } := by
  apply hw.update destroyed hlimit
  rw [hf]
  exact fun hn => hw.spare k (List.mem_of_mem_take hn)

theorem step_plain {w w' : World} {op : Op} (hw : Plain w) (hop : op.plain = true)
    (hs : step w op = some w') : Plain w' := by
  cases op with
  | get k h => exact hw.get hs
  | destroy h => exact hw.destroy hs
  | drop k n =>
    simp only [step, Option.some.injEq] at hs
    subst hs
    apply hw.shrink _ (drop_freePool _ n)
    have hmax : ((w.pools k).drop n).1.maxSpare = (w.pools k).maxSpare := by
      unfold Pool.drop
      split <;> rfl
    intro hne
    rw [hmax] at hne ⊢
    have hle := hw.limit k hne
    simp only [size] at hle ⊢
    rw [drop_freePool, List.length_take]
    omega
  | setMaximumSize k n =>
    simp only [step, Option.some.injEq] at hs
    subst hs
    apply hw.shrink _ (setMaximumSize_freePool _ n)
    have hmax : ((w.pools k).setMaximumSize n).1.maxSpare = n := by
      unfold Pool.setMaximumSize
      dsimp only
      split <;> rfl
    intro _
    simp only [size]
    rw [hmax, setMaximumSize_freePool, List.length_take]
    omega
  | _ => contradiction

/-- How many of `n` returned objects the pool takes. -/
def room (p : Pool) (n : Nat) : Nat := if p.maxSpare = 0 then n else p.maxSpare - p.size

theorem room_accepts {p : Pool} {n : Nat} (it : Option Object) (ha : p.accepts = true) :
    p.room (n + 1) = { p with freePool := p.freePool ++ [it] }.room n + 1 := by
  have hroom := accepts_iff.mp ha
  simp only [room, size, List.length_append, List.length_singleton] at hroom ⊢
  split
  · rfl
  · omega

theorem room_full {p : Pool} {n : Nat} (ha : p.accepts = false) : p.room n = 0 := by
  have hfull : ¬ (p.maxSpare = 0 ∨ p.size < p.maxSpare) := by simp [← accepts_iff, ha]
  obtain ⟨hne, hge⟩ := not_or.mp hfull
  rw [room, if_neg hne]
  omega

/-- Handles of one pool are destroyed one after another: the pool takes their
objects while it has room, and the rest are destroyed. -/
theorem destroy_all {w : World} {k : PoolId} {hs : List HandleId} {objects : List Object}
    (hnodup : hs.Nodup)
    (hheld : hs.map (fun h => w.handles[h]?) = objects.map (fun o => some ⟨some o, some k⟩)) :
    ∃ w', exec step w (hs.map .destroy) = some w' ∧
      (w'.pools k).freePool = (w.pools k).freePool ++
        (objects.take ((w.pools k).room objects.length)).map some ∧
      w'.destroyed = w.destroyed ++ objects.drop ((w.pools k).room objects.length) := by
  induction hs generalizing w objects with
  | nil =>
    rw [List.map_nil, eq_comm, List.map_eq_nil_iff] at hheld
    subst hheld
    exact ⟨w, rfl, by simp, by simp⟩
  | cons h hs ih =>
    obtain ⟨hnot, hnodup⟩ := List.nodup_cons.mp hnodup
    cases objects with
    | nil => simp at hheld
    | cons o objects =>
      simp only [List.map_cons, List.cons.injEq] at hheld
      obtain ⟨ho, hheld⟩ := hheld
      -- the other handles are the same after the first is destroyed
      have hrest : hs.map (fun i => (w.handles.erase h)[i]?) =
          objects.map (fun o => some ⟨some o, some k⟩) := by
        rw [← hheld]
        apply List.map_congr_left
        intro i hi
        have hne : i ≠ h := by
          intro he
          subst he
          exact hnot hi
        rw [getElem?_erase, if_neg hne]
      have hstep := destroy_held ho
      cases ha : (w.pools k).accepts with
      | true =>
        rw [if_pos ha] at hstep
        obtain ⟨w', hw', hfree, hgone⟩ := ih (w := { w with
          pools := Function.update w.pools k
            { w.pools k with freePool := (w.pools k).freePool ++ [some o] }
          handles := w.handles.erase h }) hnodup hrest
        refine ⟨w', exec_cons.mpr ⟨_, hstep, hw'⟩, ?_, ?_⟩
        · rw [hfree]
          simp [room_accepts (some o) ha]
        · rw [hgone]
          simp [room_accepts (some o) ha]
      | false =>
        rw [if_neg (by simp [ha])] at hstep
        obtain ⟨w', hw', hfree, hgone⟩ := ih (w := { w with
          handles := w.handles.erase h
          destroyed := w.destroyed ++ [o] }) hnodup hrest
        rw [room_full ha] at hfree hgone
        refine ⟨w', exec_cons.mpr ⟨_, hstep, hw'⟩, ?_, ?_⟩
        · rw [hfree, room_full ha]
          simp
        · rw [hgone, room_full ha]
          simp

/-- The bound handles of a plain state have objects. -/
theorem Plain.objects {w : World} (hw : Plain w) {k : PoolId} {hs : List HandleId}
    (hbound : ∀ h ∈ hs, ∃ po, w.handles[h]? = some po ∧ po.pool = some k) :
    ∃ objects : List Object,
      hs.map (fun h => w.handles[h]?) = objects.map (fun o => some ⟨some o, some k⟩) := by
  induction hs with
  | nil => exact ⟨[], rfl⟩
  | cons h hs ih =>
    obtain ⟨objects, htail⟩ := ih (fun i hi => hbound i (List.mem_cons_of_mem h hi))
    obtain ⟨po, hpo, hk⟩ := hbound h List.mem_cons_self
    obtain ⟨o, j, rfl⟩ := hw.held h po hpo
    cases hk
    exact ⟨o :: objects, by rw [List.map_cons, List.map_cons, hpo, htail]⟩

/-- What the pool holds when `n` objects have come back, however many there
were and in whatever order they came. -/
theorem size_filled {p : Pool} {n : Nat} (hp : WithinLimit p) :
    p.size + min (p.room n) n =
      if p.maxSpare = 0 then p.size + n else min (p.size + n) p.maxSpare := by
  unfold room
  split
  · omega
  · rename_i hne
    have hle := hp hne
    omega

/-- In every state that threads reach by getting and destroying handles,
dropping spares and changing limits, the spares are within the limit, and
destroying handles bound to the pool, in any order, fills it up to the limit
and destroys the other objects. -/
theorem returns_fill_to_limit (maxSpare : PoolId → Nat) (ops : List Op) (w : World)
    (hops : ∀ op ∈ ops, op.plain = true)
    (hw : exec step (World.start maxSpare) ops = some w) (k : PoolId) :
    WithinLimit (w.pools k) ∧ none ∉ (w.pools k).freePool ∧
    ∀ hs : List HandleId, hs.Nodup →
      (∀ h ∈ hs, ∃ po, w.handles[h]? = some po ∧ po.pool = some k) →
      ∃ w' kept gone, exec step w (hs.map .destroy) = some w' ∧
        hs.map (fun h => w.handles[h]?) =
          (kept ++ gone).map (fun o => some ⟨some o, some k⟩) ∧
        (w'.pools k).freePool = (w.pools k).freePool ++ kept.map some ∧
        w'.destroyed = w.destroyed ++ gone ∧
        (w'.pools k).size =
          if (w.pools k).maxSpare = 0 then (w.pools k).size + hs.length
          else min ((w.pools k).size + hs.length) (w.pools k).maxSpare := by
  have hplain : Plain w := inv_of_guarded (start_plain maxSpare)
    (guarded_of_forall fun op hop _ => hops op hop) (fun _ _ _ hi hop hs => step_plain hi hop hs) hw
  refine ⟨hplain.limit k, hplain.spare k, ?_⟩
  intro hs hnodup hbound
  obtain ⟨objects, hheld⟩ := hplain.objects hbound
  obtain ⟨w', hw', hfree, hgone⟩ := destroy_all hnodup hheld
  have hlength : objects.length = hs.length := by
    have hlen := congrArg List.length hheld
    simpa using hlen.symm
  refine ⟨w', _, _, hw', ?_, hfree, hgone, ?_⟩
  · rw [List.take_append_drop]
    exact hheld
  · rw [← size_filled (hplain.limit k), ← hlength]
    simp only [size, hfree, List.length_append, List.length_map, List.length_take]

def lowered : List Op :=
  [.get 0 0, .get 0 1, .get 0 2, .get 0 3, .destroy 3, .setMaximumSize 0 2, .drop 0 0]

/-- The limit is lowered while three handles are out, and they come back. -/
theorem lowered_limit_filled :
    ∃ w, exec step (World.start fun _ => 5) lowered = some w ∧
      ∃ w', exec step w ([1, 0, 2].map .destroy) = some w' ∧ (w'.pools 0).size = 2 := by
  have hrun : ∃ w, exec step (World.start fun _ => 5) lowered = some w ∧
      (w.pools 0).maxSpare = 2 ∧ (w.pools 0).size = 0 ∧
      ∀ h ∈ [1, 0, 2], w.handles[h]? = some ⟨some h, some 0⟩ :=
    ⟨_, rfl, rfl, rfl, by decide⟩
  obtain ⟨w, hw, hmax, hzero, hheld⟩ := hrun
  obtain ⟨w', kept, gone, hw', _, _, _, hsize⟩ :=
    (returns_fill_to_limit (fun _ => 5) lowered w (by decide) hw 0).2.2 [1, 0, 2] (by decide)
      (fun h hh => ⟨_, hheld h hh, rfl⟩)
  refine ⟨w, hw, w', hw', ?_⟩
  rw [hsize, hmax, hzero]
  rfl

end FtyCommonMlm.Pool
