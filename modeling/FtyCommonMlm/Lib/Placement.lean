import Mathlib.Data.List.NodupEquivFin
import Mathlib.Logic.ExistsUnique
import Mathlib.Tactic.Common

namespace Placement

variable {Place Object : Type} {Known : Object → Prop} {At At' At'' : Place → Object → Prop}
  {f g : Place → Place}

/-- Every known object is in exactly one place, and there is nothing else in
any place. -/
structure Placed (Known : Object → Prop) (At : Place → Object → Prop) : Prop where
  known : ∀ p o, At p o → Known o
  unique : ∀ o, Known o → ∃! p, At p o

/-- What is in a place afterwards is what `f` takes there. -/
def Moved (f : Place → Place) (At At' : Place → Object → Prop) : Prop :=
  ∀ q o, At' q o ↔ ∃ p, At p o ∧ f p = q

theorem moved_intro (hgo : ∀ p o, At p o → At' (f p) o)
    (hcome : ∀ q o, At' q o → ∃ p, At p o ∧ f p = q) : Moved f At At' := by
  intro q o
  constructor
  · exact hcome q o
  · intro hgiven
    obtain ⟨p, hp, rfl⟩ := hgiven
    exact hgo p o hp

theorem moved_id : Moved id At At := by
  intro q o
  simp

theorem Moved.at_of (h : Moved f At At') {p : Place} {o : Object} (hp : At p o) : At' (f p) o :=
  (h (f p) o).mpr ⟨p, hp, rfl⟩

theorem Moved.comp (h : Moved f At At') (h' : Moved g At' At'') : Moved (g ∘ f) At At'' := by
  intro q o
  constructor
  · intro hq
    obtain ⟨r, hr, rfl⟩ := (h' q o).mp hq
    obtain ⟨p, hp, rfl⟩ := (h r o).mp hr
    exact ⟨p, hp, rfl⟩
  · intro hgiven
    obtain ⟨p, hp, rfl⟩ := hgiven
    exact h'.at_of (h.at_of hp)

/-- The contents of `src` go to `dst`, and the rest stays. -/
theorem moved_one [DecidableEq Place] {src dst : Place}
    (h : ∀ q o, At' q o ↔ q ≠ src ∧ At q o ∨ q = dst ∧ At src o) :
    Moved (fun p => if p = src then dst else p) At At' := by
  apply moved_intro
  · intro p o hp
    split
    · rename_i he
      exact (h dst o).mpr (Or.inr ⟨rfl, he ▸ hp⟩)
    · rename_i hne
      exact (h p o).mpr (Or.inl ⟨hne, hp⟩)
  · intro q o hq
    rcases (h q o).mp hq with ⟨hne, hq⟩ | ⟨rfl, hs⟩
    · exact ⟨q, hq, if_neg hne⟩
    · exact ⟨src, hs, if_pos rfl⟩

theorem Placed.eq_of_at (h : Placed Known At) {p q : Place} {o : Object} (hp : At p o)
    (hq : At q o) : p = q :=
  (h.unique o (h.known p o hp)).unique hp hq

/-- Moving objects about keeps each of them in one place. -/
theorem Placed.moved (h : Placed Known At) (hm : Moved f At At') : Placed Known At' := by
  refine ⟨?_, ?_⟩
  · intro q o hq
    obtain ⟨p, hp, _⟩ := (hm q o).mp hq
    exact h.known p o hp
  · intro o ho
    obtain ⟨p, hp, huniq⟩ := h.unique o ho
    refine ⟨f p, hm.at_of hp, ?_⟩
    intro q hq
    obtain ⟨p', hp', rfl⟩ := (hm q o).mp hq
    rw [huniq p' hp']

/-- So does putting an object that was unknown in one place. -/
theorem Placed.added (h : Placed Known At) {p : Place} {x : Object} (hx : ¬ Known x)
    (ha : ∀ q o, At' q o ↔ At q o ∨ q = p ∧ o = x) : Placed (fun o => Known o ∨ o = x) At' := by
  refine ⟨?_, ?_⟩
  · intro q o hq
    rcases (ha q o).mp hq with hq | ⟨_, ho⟩
    · exact Or.inl (h.known q o hq)
    · exact Or.inr ho
  · intro o hor
    rcases hor with ho | rfl
    · obtain ⟨r, hr, huniq⟩ := h.unique o ho
      refine ⟨r, (ha r o).mpr (Or.inl hr), ?_⟩
      intro q hq
      rcases (ha q o).mp hq with hq | ⟨_, rfl⟩
      · exact huniq q hq
      · exact absurd ho hx
    · refine ⟨p, (ha p o).mpr (Or.inr ⟨rfl, rfl⟩), ?_⟩
      intro q hq
      rcases (ha q o).mp hq with hq | ⟨hqp, _⟩
      · exact absurd (h.known q o hq) hx
      · exact hqp

theorem Placed.congr {Known' : Object → Prop} (h : Placed Known At) (hk : ∀ o, Known' o ↔ Known o)
    (ha : ∀ p o, At' p o ↔ At p o) : Placed Known' At' := by
  refine ⟨?_, ?_⟩
  · intro p o hp
    exact (hk o).mpr (h.known p o ((ha p o).mp hp))
  · intro o ho
    obtain ⟨p, hp, huniq⟩ := h.unique o ((hk o).mp ho)
    exact ⟨p, (ha p o).mpr hp, fun q hq => huniq q ((ha q o).mp hq)⟩

theorem getElem?_insert {V : Type} {t : Std.TreeMap Nat V} {h i : Nat} {v : V} :
    (t.insert h v)[i]? = if i = h then some v else t[i]? := by
  by_cases hi : i = h
  · subst hi
    simp
  · simp [Std.TreeMap.getElem?_insert, hi, Ne.symm hi]

theorem getElem?_erase {V : Type} {t : Std.TreeMap Nat V} {h i : Nat} :
    (t.erase h)[i]? = if i = h then none else t[i]? := by
  by_cases hi : i = h
  · subst hi
    simp
  · simp [Std.TreeMap.getElem?_erase, hi, Ne.symm hi]

theorem getElem?_concat_iff {α : Type} {l : List α} {x y : α} {i : Nat} :
    (l ++ [x])[i]? = some y ↔ l[i]? = some y ∨ i = l.length ∧ x = y := by
  rw [List.getElem?_append]
  split
  · rename_i hi
    constructor
    · exact Or.inl
    · intro hor
      rcases hor with h | ⟨rfl, _⟩
      · exact h
      · omega
  · rename_i hi
    rw [List.getElem?_singleton, List.getElem?_eq_none (Nat.not_lt.mp hi)]
    constructor
    · intro h
      split at h
      · rename_i hz
        exact Or.inr ⟨by omega, Option.some.inj h⟩
      · contradiction
    · intro hor
      rcases hor with h | ⟨rfl, rfl⟩
      · contradiction
      · simp

theorem getElem?_append_toList_iff {α : Type} {l : List α} {x : Option α} {y : α} {i : Nat} :
    (l ++ x.toList)[i]? = some y ↔ l[i]? = some y ∨ i = l.length ∧ x = some y := by
  cases x with
  | none => simp
  | some x => simpa using getElem?_concat_iff

/-- An object at one index of a list only is in the list once. -/
theorem count_eq_one {α : Type} [DecidableEq α] {l : List α} {x : α}
    (h : ∃! i : Nat, l[i]? = some x) : l.count x = 1 := by
  obtain ⟨i, hi, huniq⟩ := h
  have hpos : 0 < l.count x := List.count_pos_iff.mpr (List.mem_of_getElem? hi)
  have hle : ¬ 2 ≤ l.count x := by
    intro htwo
    obtain ⟨n, m, hlt, hn, hm⟩ := List.duplicate_iff_exists_distinct_get.mp
      (List.duplicate_iff_two_le_count.mpr htwo)
    have hni := huniq n (List.getElem?_eq_some_iff.mpr ⟨n.isLt, hn.symm⟩)
    have hmi := huniq m (List.getElem?_eq_some_iff.mpr ⟨m.isLt, hm.symm⟩)
    omega
  omega

end Placement
