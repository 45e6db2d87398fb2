import Mathlib.Data.List.Basic
import Mathlib.Data.List.Nodup

/-- A map as its entries in the order of their keys. -/
structure SortedMap (α β : Type) [LT α] where
  entries : List (α × β)
  sorted : entries.Pairwise fun d e => d.1 < e.1
deriving DecidableEq

namespace SortedMap

variable {α β : Type} [LT α]

def empty : SortedMap α β := ⟨[], .nil⟩

theorem eq_of_entries {m n : SortedMap α β} (h : m.entries = n.entries) : m = n := by
  cases m
  cases n
  cases h
  rfl

variable [LE α] [Std.LawfulOrderLT α]

theorem keys_nodup (m : SortedMap α β) : (m.entries.map Prod.fst).Nodup := by
  rw [List.Nodup, List.pairwise_map]
  exact m.sorted.imp fun hlt => Std.ne_of_lt hlt

variable [Std.IsLinearOrder α]

/-- A map is determined by what its entries are. -/
theorem ext_mem {m n : SortedMap α β} (h : ∀ x, x ∈ m.entries ↔ x ∈ n.entries) : m = n := by
  have hperm : m.entries.Perm n.entries :=
    (List.perm_ext_iff_of_nodup m.keys_nodup.of_map n.keys_nodup.of_map).mpr h
  refine eq_of_entries (hperm.eq_of_pairwise ?_ m.sorted n.sorted)
  intro x y _ _ hlt hgt
  exact absurd (Std.lt_trans hlt hgt) Std.lt_irrefl

variable [DecidableEq α] [DecidableLT α]

/-- Entries with a new value for a key, which stands where the order puts it. -/
def insertEntry (k : α) (v : β) : List (α × β) → List (α × β)
  | [] => [(k, v)]
  | e :: l =>
    if k < e.1 then (k, v) :: e :: l
    else if k = e.1 then (k, v) :: l
    else e :: insertEntry k v l

theorem mem_insertEntry {k : α} {v : β} {l : List (α × β)}
    (hl : l.Pairwise fun d e => d.1 < e.1) {x : α × β} :
    x ∈ insertEntry k v l ↔ x = (k, v) ∨ (x.1 ≠ k ∧ x ∈ l) := by
  induction l with
  | nil => simp [insertEntry]
  | cons e l ih =>
    obtain ⟨hhead, htail⟩ := List.pairwise_cons.mp hl
    unfold insertEntry
    split
    · rename_i hlt
      have hne : ∀ y ∈ e :: l, y.1 ≠ k := by
        intro y hy
        rcases List.mem_cons.mp hy with rfl | hy
        · exact (Std.ne_of_lt hlt).symm
        · exact (Std.ne_of_lt (Std.lt_trans hlt (hhead y hy))).symm
      rw [List.mem_cons]
      exact or_congr Iff.rfl ⟨fun hx => ⟨hne x hx, hx⟩, fun hx => hx.2⟩
    · split
      · rename_i he
        have hne : ∀ y ∈ l, y.1 ≠ k := by
          intro y hy
          rw [he]
          exact (Std.ne_of_lt (hhead y hy)).symm
        rw [List.mem_cons]
        refine or_congr Iff.rfl ⟨fun hx => ⟨hne x hx, List.mem_cons_of_mem _ hx⟩, ?_⟩
        intro hx
        rcases List.mem_cons.mp hx.2 with rfl | hmem
        · exact absurd he.symm hx.1
        · exact hmem
      · rename_i hne
        rw [List.mem_cons, ih htail, List.mem_cons]
        constructor
        · intro hx
          rcases hx with rfl | rfl | hx
          · exact Or.inr ⟨fun he => hne he.symm, Or.inl rfl⟩
          · exact Or.inl rfl
          · exact Or.inr ⟨hx.1, Or.inr hx.2⟩
        · intro hx
          rcases hx with rfl | ⟨hk, rfl | hx⟩
          · exact Or.inr (Or.inl rfl)
          · exact Or.inl rfl
          · exact Or.inr (Or.inr ⟨hk, hx⟩)

theorem sorted_insertEntry {k : α} {v : β} {l : List (α × β)}
    (hl : l.Pairwise fun d e => d.1 < e.1) :
    (insertEntry k v l).Pairwise fun d e => d.1 < e.1 := by
  induction l with
  | nil => exact List.pairwise_singleton _ _
  | cons e l ih =>
    obtain ⟨hhead, htail⟩ := List.pairwise_cons.mp hl
    unfold insertEntry
    split
    · rename_i hlt
      refine List.pairwise_cons.mpr ⟨?_, hl⟩
      intro y hy
      rcases List.mem_cons.mp hy with rfl | hy
      · exact hlt
      · exact Std.lt_trans hlt (hhead y hy)
    · rename_i hnlt
      split
      · rename_i he
        refine List.pairwise_cons.mpr ⟨?_, htail⟩
        intro y hy
        rw [he]
        exact hhead y hy
      · rename_i hne
        refine List.pairwise_cons.mpr ⟨?_, ih htail⟩
        intro y hy
        rcases (mem_insertEntry htail).mp hy with rfl | hy
        · exact Std.lt_of_le_of_ne (Std.not_lt.mp hnlt) (fun he => hne he.symm)
        · exact hhead y hy.2

def insert (m : SortedMap α β) (k : α) (v : β) : SortedMap α β :=
  ⟨insertEntry k v m.entries, sorted_insertEntry m.sorted⟩

@[simp] theorem mem_insert {m : SortedMap α β} {k : α} {v : β} {x : α × β} :
    x ∈ (m.insert k v).entries ↔ x = (k, v) ∨ (x.1 ≠ k ∧ x ∈ m.entries) := mem_insertEntry m.sorted

/-- What the entries of a list, put in one after another, leave in a map. -/
theorem mem_foldl_insert {m : SortedMap α β} {l : List (α × β)} (hl : (l.map Prod.fst).Nodup)
    {x : α × β} :
    x ∈ (l.foldl (fun m e => m.insert e.1 e.2) m).entries ↔
      x ∈ l ∨ (x.1 ∉ l.map Prod.fst ∧ x ∈ m.entries) := by
  induction l generalizing m with
  | nil => simp
  | cons e l ih =>
    obtain ⟨hhead, htail⟩ := List.nodup_cons.mp hl
    rw [List.foldl_cons, ih htail, mem_insert]
    by_cases hx : x = e
    · subst hx
      simp [hhead]
    · simp only [List.mem_cons, hx, false_or, List.map_cons, not_or]
      constructor
      · intro h
        rcases h with h | ⟨hnot, hne, h⟩
        · exact Or.inl h
        · exact Or.inr ⟨⟨hne, hnot⟩, h⟩
      · intro h
        rcases h with h | ⟨⟨hne, hnot⟩, h⟩
        · exact Or.inl h
        · exact Or.inr ⟨hnot, hne, h⟩

/-- The entries of a map, in whatever order they are put in, make the map. -/
theorem foldl_insert_eq {m : SortedMap α β} {l : List (α × β)} (h : l.Perm m.entries) :
    l.foldl (fun m e => m.insert e.1 e.2) empty = m := by
  have hl : (l.map Prod.fst).Nodup := (h.map Prod.fst).nodup_iff.mpr m.keys_nodup
  apply ext_mem
  intro x
  rw [mem_foldl_insert hl, h.mem_iff]
  simp [empty]

end SortedMap
