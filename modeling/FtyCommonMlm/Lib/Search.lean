import Mathlib.Logic.Basic

namespace Search

variable {Item Result Job : Type}

/-- Nothing seen so far is what the search looks for. -/
def Missed (found : Item → Option Result) (seen : List Item) : Prop := ∀ x ∈ seen, found x = none

/-- A search took the items of `block` in order and stopped with `result`: at
the first item it looks for, or without having met one. -/
structure Stopped (found : Item → Option Result) (block : List Item) (result : Option Result) :
    Prop where
  ahead : Missed found block.dropLast
  last : result = block.getLast?.bind found

variable {found : Item → Option Result} {seen : List Item} {result : Option Result}

theorem Missed.nil : Missed found [] := by
  intro x hx
  contradiction

theorem Missed.snoc (h : Missed found seen) {x : Item} (hx : found x = none) :
    Missed found (seen ++ [x]) := by
  intro y hy
  rcases List.mem_append.mp hy with hy | hy
  · exact h y hy
  · rw [List.mem_singleton.mp hy]
    exact hx

theorem Missed.gaveUp (h : Missed found seen) : Stopped found seen none := by
  refine ⟨fun x hx => h x (List.dropLast_subset seen hx), ?_⟩
  cases hl : seen.getLast? with
  | none => rfl
  | some x => exact (h x (List.mem_of_getLast? hl)).symm

theorem Missed.stopped (h : Missed found seen) (x : Item) :
    Stopped found (seen ++ [x]) (found x) := by
  refine ⟨?_, by simp⟩
  rw [List.dropLast_concat]
  exact h

/-- The item a finished search stopped at, if it found one. -/
def hit (block : List Item) (result : Option Result) : Option Item :=
  if result.isSome then block.getLast? else none

theorem mem_of_hit {block : List Item} {x : Item} (h : hit block result = some x) : x ∈ block := by
  unfold hit at h
  split at h
  · exact List.mem_of_getLast? h
  · contradiction

theorem isSome_of_hit {block : List Item} {x : Item} (h : hit block result = some x) :
    result.isSome = true := by
  unfold hit at h
  split at h
  · assumption
  · contradiction

theorem Stopped.found_hit {block : List Item} (h : Stopped found block result) {x : Item}
    (hx : hit block result = some x) : found x = result := by
  unfold hit at hx
  split at hx
  · rw [h.last, hx, Option.bind_some]
  · contradiction

/-- Searches that share one sequence of items stop at different places of it. -/
theorem hits_sublist (jobs : List Job) (block : Job → List Item) (result : Job → Option Result) :
    (jobs.filterMap (fun j => hit (block j) (result j))).Sublist (jobs.map block).flatten := by
  induction jobs with
  | nil => exact List.Sublist.refl []
  | cons j jobs ih =>
    rw [List.map_cons, List.flatten_cons, List.filterMap_cons]
    cases hj : hit (block j) (result j) with
    | none => exact ih.trans (List.sublist_append_right _ _)
    | some x =>
      have hx : [x].Sublist (block j) := List.singleton_sublist.mpr (mem_of_hit hj)
      exact hx.append ih

end Search
