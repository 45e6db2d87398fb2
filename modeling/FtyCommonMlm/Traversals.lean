import Mathlib.Data.List.Induction
import FtyCommonMlm.Utils

namespace FtyCommonMlm.MlmUtils
open Bytes (ofString)

/-- A hash somebody else made, and the strings there are. -/
structure Memory where
  store : Store
  hash : Zhash

inductive HashOp
  | construct (value : Bytes)
  | destroy (a : Address)
  /-- `zhash_insert` with a key's `c_str()` and a pointer, or null -/
  | insert (key : Bytes) (value : Option Address)
deriving DecidableEq

def Memory.step (t : Traversal) (mem : Memory) : HashOp → Memory
  | .construct value => { mem with store := (mem.store.construct value).2 }
  | .destroy a => { mem with store := mem.store.destroy a }
  | .insert key value => { mem with hash := mem.hash.insert t key.cStr value }

def Memory.after (t : Traversal) (ops : List HashOp) : Memory :=
  ops.foldl (Memory.step t) ⟨⟨[]⟩, ⟨[]⟩⟩

/-- The items that the loop of `zhash_to_map` comes to: it ends at the first null. -/
def Zhash.ahead (hash : Zhash) : List Item := hash.items.takeWhile fun item => item.value.isSome

/-- The item's entry in the map, if its value is alive. -/
def Store.entry (store : Store) (item : Item) : Option (Bytes × Bytes) :=
  (item.value.bind store.read).map fun val => (item.key, val)

/-- What was inserted for a key. What comes later for it changes nothing. -/
def inserted (key : Bytes) : List HashOp → Option (Option Address)
  | [] => none
  | .insert k value :: ops => if k.cStr = key then some value else inserted key ops
  | _ :: ops => inserted key ops

section Loop

variable {store : Store} {hash : Zhash} {items : List Item} {map m : StringMap}

/-- The lookup of an item's key finds its value. -/
theorem Zhash.lookup_item (hkeys : (hash.items.map Item.key).Nodup) {item : Item}
    (h : item ∈ hash.items) : hash.lookup item.key = item.value := by
  obtain ⟨found, hfound, hkey, hlookup⟩ := Zhash.lookup_of_mem h
  rw [hlookup, List.inj_on_of_nodup_map hkeys hfound h hkey]

theorem loop_eq_some (hkeys : (hash.items.map Item.key).Nodup) (hsub : items ⊆ hash.items) :
    zhashToMapLoop store hash items map = some m ↔
      (∀ item ∈ items.takeWhile fun item => item.value.isSome, (store.entry item).isSome) ∧
        ((items.takeWhile fun item => item.value.isSome).filterMap store.entry).foldl
          (fun map e => map.insert e.1 e.2) map = m := by
  induction items generalizing map with
  | nil => simp [zhashToMapLoop]
  | cons item items ih =>
    have hsub' : items ⊆ hash.items := fun i hi => hsub (List.mem_cons_of_mem _ hi)
    have hlookup := Zhash.lookup_item hkeys (hsub List.mem_cons_self)
    cases hvalue : item.value with
    | none => simp [zhashToMapLoop, hvalue]
    | some a =>
      have hentry : store.entry item = (store.read a).map fun val => (item.key, val) := by
        rw [Store.entry, hvalue, Option.bind_some]
      rw [hvalue] at hlookup
      simp only [zhashToMapLoop, hvalue, hlookup, List.takeWhile_cons, Option.isSome_some, if_true,
        List.forall_mem_cons, hentry, List.filterMap_cons]
      cases store.read a with
      | none => simp
      | some val => simpa using ih hsub'

theorem entry_key {item : Item} {e : Bytes × Bytes} (h : store.entry item = some e) :
    item.key = e.1 := by
  obtain ⟨val, _, rfl⟩ := Option.map_eq_some_iff.mp h
  rfl

theorem zhashToMap_eq_some (hkeys : (hash.items.map Item.key).Nodup) :
    zhashToMap store hash = some m ↔
      (∀ item ∈ hash.ahead, (store.entry item).isSome) ∧
      ∀ e, e ∈ m.entries ↔ ∃ item ∈ hash.ahead, store.entry item = some e := by
  rw [zhashToMap, loop_eq_some hkeys (List.Subset.refl _)]
  refine and_congr_right fun halive => ?_
  have hnodup : ((hash.ahead.filterMap store.entry).map Prod.fst).Nodup := by
    have hfst : (hash.ahead.filterMap store.entry).map Prod.fst = hash.ahead.map Item.key := by
      rw [List.map_filterMap, ← List.filterMap_eq_map]
      apply List.filterMap_congr
      intro item hitem
      obtain ⟨e, he⟩ := Option.isSome_iff_exists.mp (halive item hitem)
      simp [he, entry_key he]
    rw [hfst]
    exact hkeys.sublist ((List.takeWhile_prefix _).sublist.map _)
  have hmem : ∀ e, e ∈ ((hash.ahead.filterMap store.entry).foldl
      (fun map e => map.insert e.1 e.2) SortedMap.empty).entries ↔
      ∃ item ∈ hash.ahead, store.entry item = some e := by
    intro e
    rw [SortedMap.mem_foldl_insert hnodup, List.mem_filterMap]
    simp [SortedMap.empty]
  constructor
  · intro h e
    rw [← h]
    exact hmem e
  · intro h
    apply SortedMap.ext_mem
    intro e
    exact (hmem e).trans (h e).symm

end Loop

section Inserted

variable {t : Traversal} {ops : List HashOp} {key : Bytes}

theorem after_snoc (t : Traversal) (ops : List HashOp) (op : HashOp) :
    Memory.after t (ops ++ [op]) = (Memory.after t ops).step t op :=
  List.foldl_concat _ _ _ _

theorem inserted_snoc (key : Bytes) (ops : List HashOp) (op : HashOp) :
    inserted key (ops ++ [op]) = (inserted key ops).or (inserted key [op]) := by
  induction ops with
  | nil => rfl
  | cons first ops ih =>
    cases first with
    | insert k value =>
      simp only [List.cons_append, inserted, ih]
      split <;> rfl
    | _ => exact ih

/-- An insertion adds one item, if its key is new. -/
theorem Zhash.mem_insert_iff {hash : Zhash} {value : Option Address} {item : Item} :
    item ∈ (hash.insert t key value).items ↔
      item ∈ hash.items ∨ key ∉ hash.items.map Item.key ∧ item = ⟨key, value⟩ := by
  unfold Zhash.insert
  split
  · rename_i hmem
    simp [hmem]
  · rename_i hnew
    rw [(t.perm _).mem_iff, List.mem_cons]
    constructor
    · intro h
      exact h.symm.imp id fun he => ⟨hnew, he⟩
    · intro h
      exact h.symm.imp And.right id

theorem Zhash.insert_keys {hash : Zhash} (value : Option Address)
    (h : (hash.items.map Item.key).Nodup) :
    ((hash.insert t key value).items.map Item.key).Nodup := by
  unfold Zhash.insert
  split
  · exact h
  · rename_i hnew
    rw [((t.perm _).map Item.key).nodup_iff]
    exact List.nodup_cons.mpr ⟨hnew, h⟩

/-- The items of a hash are what was inserted first for each key. -/
theorem mem_after (t : Traversal) (ops : List HashOp) :
    ((Memory.after t ops).hash.items.map Item.key).Nodup ∧
    ∀ item, item ∈ (Memory.after t ops).hash.items ↔ inserted item.key ops = some item.value := by
  induction ops using List.reverseRecOn with
  | nil => simp [Memory.after, inserted]
  | append_singleton ops op ih =>
    obtain ⟨hkeys, hitems⟩ := ih
    rw [after_snoc]
    cases op with
    | insert k value =>
      refine ⟨Zhash.insert_keys value hkeys, ?_⟩
      intro item
      have hnew : k.cStr ∉ (Memory.after t ops).hash.items.map Item.key ↔
          inserted k.cStr ops = none := by
        rw [Option.eq_none_iff_forall_ne_some, List.mem_map, not_exists]
        constructor
        · intro h v hv
          exact h ⟨k.cStr, v⟩ ⟨(hitems _).mpr hv, rfl⟩
        · intro h item hitem
          apply h item.value
          rw [← hitem.2]
          exact (hitems item).mp hitem.1
      rw [Memory.step, Zhash.mem_insert_iff, hitems, hnew, inserted_snoc]
      by_cases hk : k.cStr = item.key
      · rw [inserted, if_pos hk, hk]
        cases inserted item.key ops with
        | some v => simp
        | none =>
          cases item
          simp [eq_comm]
      · rw [inserted, if_neg hk, inserted, Option.or_none, or_iff_left]
        intro h
        exact hk (congrArg Item.key h.2).symm
    | construct value | destroy a =>
      refine ⟨hkeys, ?_⟩
      intro item
      simp only [inserted_snoc, inserted, Option.or_none]
      exact hitems item

theorem insert_mem {value : Option Address} (h : inserted key ops = some value) :
    ∃ k, .insert k value ∈ ops := by
  induction ops with
  | nil => contradiction
  | cons op ops ih =>
    have hlater : inserted key ops = some value → ∃ k, .insert k value ∈ op :: ops := by
      intro hops
      obtain ⟨k, hk⟩ := ih hops
      exact ⟨k, List.mem_cons_of_mem _ hk⟩
    cases op with
    | insert k v =>
      rw [inserted] at h
      split at h
      · cases h
        exact ⟨k, List.mem_cons_self⟩
      · exact hlater h
    | construct v | destroy a => exact hlater h

end Inserted

/-- The order has nothing to do with the strings. -/
theorem after_store (t t' : Traversal) (ops : List HashOp) :
    (Memory.after t ops).store = (Memory.after t' ops).store := by
  induction ops using List.reverseRecOn with
  | nil => rfl
  | append_singleton ops op ih =>
    rw [after_snoc, after_snoc]
    cases op <;> simp only [Memory.step, ih]

theorem zhashToMap_inserted (t : Traversal) {ops : List HashOp}
    (hnull : ∀ key, .insert key none ∉ ops) (m : StringMap) :
    zhashToMap (Memory.after t ops).store (Memory.after t ops).hash = some m ↔
      (∀ key a, inserted key ops = some (some a) →
        ((Memory.after t ops).store.read a).isSome) ∧
      ∀ key val, (key, val) ∈ m.entries ↔ ∃ a, inserted key ops = some (some a) ∧
        (Memory.after t ops).store.read a = some val := by
  obtain ⟨hkeys, hitems⟩ := mem_after t ops
  have hvalue : ∀ item ∈ (Memory.after t ops).hash.items, item.value.isSome := by
    intro item hitem
    by_contra hnone
    have hinserted := (hitems item).mp hitem
    rw [Option.not_isSome_iff_eq_none.mp hnone] at hinserted
    obtain ⟨k, hk⟩ := insert_mem hinserted
    exact hnull k hk
  have hahead : (Memory.after t ops).hash.ahead = (Memory.after t ops).hash.items :=
    List.takeWhile_eq_self_iff.mpr hvalue
  rw [zhashToMap_eq_some hkeys, hahead]
  refine and_congr ?_ ?_
  · constructor
    · intro h key a hinserted
      have hentry := h ⟨key, some a⟩ ((hitems _).mpr hinserted)
      simpa [Store.entry] using hentry
    · intro h item hitem
      obtain ⟨a, ha⟩ := Option.isSome_iff_exists.mp (hvalue item hitem)
      have hinserted := (hitems item).mp hitem
      rw [ha] at hinserted
      simpa [Store.entry, ha] using h item.key a hinserted
  · rw [Prod.forall]
    refine forall_congr' fun key => forall_congr' fun val => iff_congr Iff.rfl ?_
    constructor
    · intro hgiven
      obtain ⟨item, hitem, hentry⟩ := hgiven
      obtain ⟨a, ha⟩ := Option.isSome_iff_exists.mp (hvalue item hitem)
      have hinserted := (hitems item).mp hitem
      rw [ha] at hinserted
      simp only [Store.entry, ha, Option.bind_some, Option.map_eq_some_iff, Prod.mk.injEq] at hentry
      obtain ⟨_, hread, rfl, rfl⟩ := hentry
      exact ⟨a, hinserted, hread⟩
    · intro hgiven
      obtain ⟨a, hinserted, hread⟩ := hgiven
      exact ⟨⟨key, some a⟩, (hitems _).mpr hinserted, by simp [Store.entry, hread]⟩

/-- What `zhash_to_map` makes of a hash is made of the items ahead of the first
null: their values have to be alive, and they are the map. Without nulls it is
what was inserted first for each key, in whatever order the hash is iterated. -/
theorem zhash_to_map_iff (t : Traversal) (ops : List HashOp) (m : StringMap) :
    (zhashToMap (Memory.after t ops).store (Memory.after t ops).hash = some m ↔
      (∀ item ∈ (Memory.after t ops).hash.ahead,
        ((Memory.after t ops).store.entry item).isSome) ∧
      ∀ e, e ∈ m.entries ↔ ∃ item ∈ (Memory.after t ops).hash.ahead,
        (Memory.after t ops).store.entry item = some e) ∧
    ((∀ key, .insert key none ∉ ops) →
      (zhashToMap (Memory.after t ops).store (Memory.after t ops).hash = some m ↔
        (∀ key a, inserted key ops = some (some a) →
          ((Memory.after t ops).store.read a).isSome) ∧
        ∀ key val, (key, val) ∈ m.entries ↔ ∃ a, inserted key ops = some (some a) ∧
          (Memory.after t ops).store.read a = some val) ∧
      ∀ t', zhashToMap (Memory.after t' ops).store (Memory.after t' ops).hash =
        zhashToMap (Memory.after t ops).store (Memory.after t ops).hash) := by
  refine ⟨zhashToMap_eq_some (mem_after t ops).1, ?_⟩
  intro hnull
  refine ⟨zhashToMap_inserted t hnull m, ?_⟩
  intro t'
  apply Option.ext
  intro n
  rw [zhashToMap_inserted t hnull, zhashToMap_inserted t' hnull, after_store t' t]

def turnedRound : Traversal := ⟨List.reverse, fun items => List.reverse_perm items⟩

def twoInserted : List HashOp :=
  [.construct (ofString "M1"), .insert (ofString "model") (some 0), .construct (ofString "SN"),
    .insert (ofString "serial_no") (some 1), .insert (ofString "model") (some 1)]

/-- The second insertion for the model changes nothing, and neither does the order. -/
theorem two_inserted_read :
    (Memory.after newestFirst twoInserted).hash.items ≠
        (Memory.after turnedRound twoInserted).hash.items ∧
      zhashToMap (Memory.after turnedRound twoInserted).store
          (Memory.after turnedRound twoInserted).hash =
        zhashToMap (Memory.after newestFirst twoInserted).store
          (Memory.after newestFirst twoInserted).hash ∧
      ((zhashToMap (Memory.after newestFirst twoInserted).store
        (Memory.after newestFirst twoInserted).hash).map SortedMap.entries) =
        some [(ofString "model", ofString "M1"), (ofString "serial_no", ofString "SN")] := by
  refine ⟨by decide, ?_, rfl⟩
  refine ((zhash_to_map_iff newestFirst twoInserted .empty).2 ?_).2 turnedRound
  intro key h
  simp [twoInserted] at h

end FtyCommonMlm.MlmUtils
