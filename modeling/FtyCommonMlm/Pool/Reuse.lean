import FtyCommonMlm.Pool.Limits
import FtyCommonMlm.Pool.Ownership

namespace FtyCommonMlm.Pool
open Runs Placement

/-- The operations of a program that only gets handles of one pool and lets go
of them. -/
def Op.uses (k : PoolId) : Op → Bool
  | .get j _ => j == k
  | .destroy _ => true
  | _ => false

/-- How many handles exist. -/
def World.live (w : World) : Nat := w.handles.size

/-- The object an operation returns to a pool. -/
def returns (w : World) : Op → List Object
  | .destroy h => (w.handles[h]?.bind Ptr.object).toList
  | _ => []

/-- The objects returned on a run, in order. -/
def returned (w : World) : List Op → List Object
  | [] => []
  | op :: ops =>
    returns w op ++ (match step w op with
      | none => []
      | some w' => returned w' ops)

/-- Each spare was returned, and what was returned later is not below it in the
free list. -/
def Stacked (freePool : List (Option Object)) (past : List Object) : Prop :=
  ∀ below o, below ++ [some o] <+: freePool →
    ∃ older newer, past = older ++ o :: newer ∧ ∀ x ∈ newer, some x ∉ below ++ [some o]

/-- Nothing is destroyed: each object the pool constructed is spare or held. -/
structure Kept (k : PoolId) (w : World) (past : List Object) : Prop where
  plain : Plain w
  bound : ∀ (h : HandleId) (po : Ptr), w.handles[h]? = some po → po.pool = some k
  total : (w.pools k).size + w.live = w.constructed
  destroyed : w.destroyed = []
  stacked : Stacked (w.pools k).freePool past

theorem start_kept (maxSpare : PoolId → Nat) (k : PoolId) : Kept k (World.start maxSpare) [] := by
  refine ⟨start_plain maxSpare, ?_, rfl, rfl, ?_⟩
  · intro h po hpo
    simp [World.start] at hpo
  · intro below o hp
    simp [World.start] at hp

theorem Stacked.push {freePool : List (Option Object)} {past : List Object} {o : Object}
    (h : Stacked freePool past) (ho : some o ∉ freePool) :
    Stacked (freePool ++ [some o]) (past ++ [o]) := by
  intro below x hp
  rcases List.prefix_concat_iff.mp hp with heq | hp
  · obtain ⟨_, hx⟩ := List.append_inj' heq rfl
    cases hx
    exact ⟨past, [], rfl, fun _ hm => absurd hm List.not_mem_nil⟩
  · obtain ⟨older, newer, hpast, hnewer⟩ := h below x hp
    refine ⟨older, newer ++ [o], by simp [hpast], ?_⟩
    intro y hy
    rcases List.mem_append.mp hy with hy | hy
    · exact hnewer y hy
    · rw [List.mem_singleton.mp hy]
      exact fun hm => ho (hp.subset hm)

theorem Stacked.pop {freePool : List (Option Object)} {past : List Object}
    (h : Stacked freePool past) : Stacked freePool.dropLast past :=
  fun below o hp => h below o (hp.trans (List.dropLast_prefix freePool))

/-- The last spare is the one returned last. -/
theorem Stacked.last {freePool : List (Option Object)} {past : List Object} {o : Object}
    (h : Stacked freePool past) (ho : freePool.getLast? = some (some o)) :
    ∃ older newer, past = older ++ o :: newer ∧ ∀ x ∈ newer, some x ∉ freePool := by
  obtain ⟨below, hbelow⟩ := List.getLast?_eq_some_iff.mp ho
  rw [hbelow] at h ⊢
  exact h below o (List.prefix_refl _)

/-- A new handle is counted, and it is the only one that is new. -/
theorem live_insert {w : World} {h : HandleId} (po : Ptr) (hnew : w.handles.contains h = false) :
    (w.handles.insert h po).size = w.live + 1 := by
  rw [Std.TreeMap.size_insert, hnew]
  rfl

theorem live_erase {w : World} {h : HandleId} {po : Ptr} (hpo : w.handles[h]? = some po) :
    (w.handles.erase h).size + 1 = w.live := by
  have hin : w.handles.contains h = true := by
    rw [Std.TreeMap.contains_eq_isSome_getElem?, hpo]
    rfl
  have hne := Std.TreeMap.isEmpty_eq_false_of_contains hin
  rw [Std.TreeMap.isEmpty_eq_size_eq_zero, beq_eq_false_iff_ne] at hne
  rw [Std.TreeMap.size_erase, if_pos hin, World.live]
  omega

theorem Kept.get {k : PoolId} {w w' : World} {past : List Object} {h : HandleId}
    (hw : Kept k w past) (hs : step w (.get k h) = some w') :
    Kept k w' past ∧ (w'.pools k).maxSpare = (w.pools k).maxSpare ∧
      w'.constructed = max w.constructed w'.live := by
  have hplain := hw.plain.get hs
  have htotal := hw.total
  simp only [step] at hs
  split at hs
  · contradiction
  · rename_i hnew
    have hbound : ∀ (it : Option Object) (i : HandleId) (po : Ptr),
        (w.handles.insert h ⟨it, some k⟩)[i]? = some po → po.pool = some k := by
      intro it i po hi
      rw [getElem?_insert] at hi
      split at hi
      · cases hi
        rfl
      · exact hw.bound i po hi
    cases hlast : (w.pools k).freePool.getLast? with
    | none =>
      have hempty : (w.pools k).freePool = [] := List.getLast?_eq_none_iff.mp hlast
      have hlive := live_insert ⟨some w.constructed, some k⟩ (Bool.not_eq_true _ ▸ hnew)
      simp only [Pool.get, hlast, Function.update_eq_self, if_true] at hs
      cases hs
      simp only [size, World.live, hempty, List.length_nil] at htotal hlive
      refine ⟨⟨hplain, hbound _, ?_, hw.destroyed, hw.stacked⟩, rfl, ?_⟩
      · simp only [size, World.live, hempty, List.length_nil]
        omega
      · simp only [World.live]
        omega
    | some it =>
      have hlive := live_insert ⟨it, some k⟩ (Bool.not_eq_true _ ▸ hnew)
      have hpos : 0 < (w.pools k).freePool.length := by
        rw [List.length_pos_iff]
        intro he
        simp [he] at hlast
      simp only [Pool.get, hlast, Bool.false_eq_true, if_false] at hs
      cases hs
      simp only [size, World.live] at htotal hlive
      refine ⟨⟨hplain, hbound it, ?_, hw.destroyed, ?_⟩, by simp, ?_⟩
      · simp only [size, World.live, Function.update_self, List.length_dropLast]
        omega
      · simp only [Function.update_self]
        exact hw.stacked.pop
      · simp only [World.live]
        omega

theorem Kept.destroy {k : PoolId} {w w' : World} {past : List Object} {h : HandleId}
    (hw : Kept k w past) (hone : OnePlace w)
    (hlimit : (w.pools k).maxSpare = 0 ∨ w.constructed ≤ (w.pools k).maxSpare)
    (hs : step w (.destroy h) = some w') :
    Kept k w' (past ++ returns w (.destroy h)) ∧ (w'.pools k).maxSpare = (w.pools k).maxSpare ∧
      w'.constructed = w.constructed ∧ w'.live < w.live := by
  cases hpo : w.handles[h]? with
  | none => simp [step, hpo] at hs
  | some po =>
    obtain ⟨o, j, rfl⟩ := hw.plain.held h po hpo
    cases hw.bound h _ hpo
    have hplain := hw.plain.destroy hs
    have hlive := live_erase hpo
    have htotal := hw.total
    have haccepts : (w.pools k).accepts = true := by
      rw [accepts_iff]
      omega
    rw [destroy_held hpo, if_pos haccepts, Option.some.injEq] at hs
    subst hs
    have hnot : some o ∉ (w.pools k).freePool := by
      intro hm
      obtain ⟨i, hi⟩ := List.mem_iff_getElem?.mp hm
      have hspare : w.At (.spare k i) o := hi
      have hheld : w.At (.handle h) o := by simp [World.At, hpo]
      exact absurd (hone.eq_of_at hspare hheld) (by simp)
    refine ⟨⟨hplain, ?_, ?_, hw.destroyed, ?_⟩, by simp, rfl, ?_⟩
    · intro i po hi
      simp only [getElem?_erase] at hi
      split at hi
      · contradiction
      · exact hw.bound i po hi
    · simp only [size, World.live, Function.update_self, List.length_append,
        List.length_singleton] at htotal hlive ⊢
      omega
    · simp only [returns, hpo, Function.update_self]
      exact hw.stacked.push hnot
    · simp only [World.live] at hlive ⊢
      omega

/-- One operation under a limit that the objects constructed so far fit in. -/
theorem step_kept {k : PoolId} {w w' : World} {past : List Object} {op : Op}
    (hw : Kept k w past) (hone : OnePlace w) (hop : op.uses k = true)
    (hlimit : (w.pools k).maxSpare = 0 ∨ w.constructed ≤ (w.pools k).maxSpare)
    (hs : step w op = some w') :
    Kept k w' (past ++ returns w op) ∧ (w'.pools k).maxSpare = (w.pools k).maxSpare ∧
      w'.constructed = max w.constructed w'.live := by
  cases op with
  | get j h =>
    cases beq_iff_eq.mp hop
    have hget := hw.get hs
    simpa [returns] using hget
  | destroy h =>
    obtain ⟨hkept, hmax, hsame, hless⟩ := hw.destroy hone hlimit hs
    refine ⟨hkept, hmax, ?_⟩
    have htotal := hw.total
    omega
  | _ => contradiction

/-- As many objects are constructed as there were handles at once. -/
theorem run_kept {k : PoolId} {w w' : World} {past : List Object} {ops : List Op}
    (hw : Kept k w past) (hone : OnePlace w) (hops : ∀ op ∈ ops, op.uses k = true)
    (hlimit : (w.pools k).maxSpare = 0 ∨
      max w.constructed (peak step World.live w ops) ≤ (w.pools k).maxSpare)
    (h : exec step w ops = some w') :
    Kept k w' (past ++ returned w ops) ∧
      w'.constructed = max w.constructed (peak step World.live w ops) := by
  induction ops generalizing w past with
  | nil =>
    cases h
    have htotal := hw.total
    refine ⟨by simpa [returned] using hw, ?_⟩
    simp only [peak]
    omega
  | cons op ops ih =>
    obtain ⟨v, hs, ht⟩ := exec_cons.mp h
    rw [peak_cons hs] at hlimit ⊢
    obtain ⟨hkept, hmax, hcount⟩ :=
      step_kept hw hone (hops op List.mem_cons_self) (by omega) hs
    have hlive : v.live ≤ peak step World.live v ops := le_peak
    have htotal := hw.total
    obtain ⟨hend, hpeak⟩ := ih hkept (step_onePlace hone hs)
      (fun op hop => hops op (List.mem_cons_of_mem _ hop)) (by rw [hmax]; omega) ht
    refine ⟨?_, by omega⟩
    simpa [returned, hs] using hend

/-- A pool whose limit is no smaller than the number of handles ever held at
once constructs that many objects, destroys none, and hands out the spare that
was returned last. -/
theorem constructed_is_peak (maxSpare : PoolId → Nat) (k : PoolId) (ops : List Op) (w : World)
    (hops : ∀ op ∈ ops, op.uses k = true)
    (hlimit : maxSpare k = 0 ∨ peak step World.live (World.start maxSpare) ops ≤ maxSpare k)
    (hw : exec step (World.start maxSpare) ops = some w) :
    w.constructed = peak step World.live (World.start maxSpare) ops ∧ w.destroyed = [] ∧
    ∀ before h after w₀ w₁, ops = before ++ .get k h :: after →
      exec step (World.start maxSpare) before = some w₀ → step w₀ (.get k h) = some w₁ →
      w₁.constructed = w₀.constructed →
      ∃ o older newer, w₁.handles[h]? = some ⟨some o, some k⟩ ∧
        some o ∈ (w₀.pools k).freePool ∧
        returned (World.start maxSpare) before = older ++ o :: newer ∧
        ∀ x ∈ newer, some x ∉ (w₀.pools k).freePool := by
  have hprefix : ∀ before rest v, ops = before ++ rest →
      exec step (World.start maxSpare) before = some v →
      Kept k v (returned (World.start maxSpare) before) ∧
        v.constructed = peak step World.live (World.start maxSpare) before := by
    intro before rest v hsplit hv
    have hzero : (World.start maxSpare).constructed = 0 := rfl
    have hle : peak step World.live (World.start maxSpare) before ≤
        peak step World.live (World.start maxSpare) ops := by
      rw [hsplit]
      exact peak_le_append
    have hfits : ((World.start maxSpare).pools k).maxSpare = 0 ∨
        max (World.start maxSpare).constructed (peak step World.live (World.start maxSpare) before) ≤
          ((World.start maxSpare).pools k).maxSpare := by
      rw [hzero, Nat.zero_max]
      exact hlimit.imp_right (Nat.le_trans hle)
    have hrun := run_kept (start_kept maxSpare k) (start_onePlace maxSpare)
      (fun op hop => hops op (hsplit ▸ List.mem_append_left rest hop)) hfits hv
    rw [hzero, Nat.zero_max, List.nil_append] at hrun
    exact hrun
  obtain ⟨hkept, hpeak⟩ := hprefix ops [] w (List.append_nil ops).symm hw
  refine ⟨hpeak, hkept.destroyed, ?_⟩
  intro before h after w₀ w₁ hsplit hbefore hs hsame
  obtain ⟨hkept, _⟩ := hprefix before _ w₀ hsplit hbefore
  obtain ⟨o, ho⟩ := step_givesObject hkept.plain.spare hs k h rfl
  have hlast : (w₀.pools k).freePool.getLast? = some (some o) := by
    simp only [step] at hs
    split at hs
    · contradiction
    · cases hlast : (w₀.pools k).freePool.getLast? with
      | none =>
        simp only [Pool.get, hlast, if_true] at hs
        cases hs
        simp at hsame
      | some it =>
        simp only [Pool.get, hlast] at hs
        cases hs
        simp only [Std.TreeMap.getElem?_insert_self, Option.some.injEq, Ptr.mk.injEq] at ho
        rw [ho.1]
  obtain ⟨older, newer, hpast, hnewer⟩ := hkept.stacked.last hlast
  exact ⟨o, older, newer, ho, List.mem_of_getLast? hlast, hpast, hnewer⟩

def busy : List Op :=
  [.get 0 0, .get 0 1, .destroy 0, .get 0 2, .get 0 3, .destroy 1, .destroy 3, .get 0 0]

/-- Three handles at most are held at once, so three objects are constructed. -/
theorem busy_pool_constructs_three :
    ∃ w, exec step (World.start fun _ => 3) busy = some w ∧ w.constructed = 3 ∧
      w.destroyed = [] := by
  refine ⟨_, rfl, ?_⟩
  have h := constructed_is_peak (fun _ => 3) 0 busy _ (by decide) (by decide) rfl
  exact ⟨h.1, h.2.1⟩

end FtyCommonMlm.Pool
