import FtyCommonMlm.Lib.CString
import FtyCommonMlm.Lib.SortedMap

namespace FtyCommonMlm.MlmUtils
open Bytes (ofString)

/-- A `std::map<std::string, std::string>`. -/
abbrev StringMap := SortedMap Bytes Bytes

abbrev Address := Nat

/-- The strings there have been, by address. One that is destroyed is none. -/
structure Store where
  strings : List (Option Bytes)

def Store.construct (store : Store) (value : Bytes) : Address × Store :=
  (store.strings.length, ⟨store.strings ++ [some value]⟩)

def Store.destroy (store : Store) (a : Address) : Store := ⟨store.strings.set a none⟩

/-- What a `const char*` to a string's bytes reads, if the string is alive. -/
def Store.read (store : Store) (a : Address) : Option Bytes :=
  store.strings[a]?.join.map Bytes.cStr

/-- A map as it is in memory: where the value of each key is. -/
abbrev Nodes := List (Bytes × Address)

/-- The parameter of `map_to_zhash`, a copy. -/
def Store.copyMap (store : Store) : List (Bytes × Bytes) → Nodes × Store
  | [] => ([], store)
  | (key, value) :: entries =>
    let (a, store) := store.construct value
    let (nodes, store) := store.copyMap entries
    ((key, a) :: nodes, store)

def Store.destroyMap (store : Store) (nodes : Nodes) : Store :=
  nodes.foldl (fun store node => store.destroy node.2) store

/-- What a `zhash_t` without autofree keeps of an insertion: a copy of the key,
and the pointer. -/
structure Item where
  key : Bytes
  value : Option Address
deriving DecidableEq

/-- The order a hash is iterated in is its own affair, but every entry is
visited once. -/
structure Traversal where
  order : List Item → List Item
  perm : ∀ items, (order items).Perm items

/-- A `zhash_t`: its items as `zhash_first` and `zhash_next` come to them. -/
structure Zhash where
  items : List Item

def Zhash.lookup (hash : Zhash) (key : Bytes) : Option Address :=
  (hash.items.find? (fun item => item.key = key)).bind Item.value

/-- `zhash_insert`. An entry that is there stays. -/
def Zhash.insert (t : Traversal) (hash : Zhash) (key : Bytes) (value : Option Address) : Zhash :=
  if key ∈ hash.items.map Item.key then hash else ⟨t.order (⟨key, value⟩ :: hash.items)⟩

-- The loop of zhash_to_map. It ends at an item that is null, and there is no
-- result when it reads a string that is not alive.
def zhashToMapLoop (store : Store) (hash : Zhash) : List Item → StringMap → Option StringMap
  | [], map => some map
  | item :: items, map =>
    match item.value with
    | none => some map
    | some _ =>
      match hash.lookup item.key with
      | none => zhashToMapLoop store hash items map
      | some val => (store.read val).bind fun val =>
          zhashToMapLoop store hash items (map.insert item.key val)

def zhashToMap (store : Store) (hash : Zhash) : Option StringMap :=
  zhashToMapLoop store hash hash.items .empty

/-- The loop of `map_to_zhash`. -/
def fill (t : Traversal) (nodes : Nodes) (hash : Zhash) : Zhash :=
  nodes.foldl (fun hash i => hash.insert t i.1.cStr (some i.2)) hash

/-- `map_to_zhash`, with the end of its parameter's life. -/
def mapToZhash (t : Traversal) (store : Store) (m : StringMap) : Zhash × Store :=
  let (nodes, store) := store.copyMap m.entries
  (fill t nodes ⟨[]⟩, store.destroyMap nodes)

/-- Every value of a hash is alive and what the map says. -/
def Live (store : Store) (hash : Zhash) (m : StringMap) : Prop :=
  ∀ item ∈ hash.items, ∃ a v, item.value = some a ∧ store.read a = some v ∧
    (item.key, v) ∈ m.entries

theorem Zhash.mem_insert {t : Traversal} {hash : Zhash} {key : Bytes} {value : Option Address}
    {item : Item} (h : item ∈ (hash.insert t key value).items) :
    item = ⟨key, value⟩ ∨ item ∈ hash.items := by
  unfold Zhash.insert at h
  split at h
  · exact Or.inr h
  · exact List.mem_cons.mp ((t.perm _).mem_iff.mp h)

theorem Zhash.insert_ne_nil (t : Traversal) (hash : Zhash) (key : Bytes)
    (value : Option Address) : (hash.insert t key value).items ≠ [] := by
  intro he
  unfold Zhash.insert at he
  split at he
  · rename_i hmem
    rw [he] at hmem
    contradiction
  · have hitems : t.order (⟨key, value⟩ :: hash.items) = [] := he
    have hperm := t.perm (⟨key, value⟩ :: hash.items)
    rw [hitems] at hperm
    exact List.cons_ne_nil _ _ hperm.nil_eq.symm

/-- The lookup of a key that the hash has finds one of its items. -/
theorem Zhash.lookup_of_mem {hash : Zhash} {item : Item} (h : item ∈ hash.items) :
    ∃ found ∈ hash.items, found.key = item.key ∧ hash.lookup item.key = found.value := by
  obtain ⟨found, hfound⟩ := Option.isSome_iff_exists.mp
    (List.find?_isSome.mpr ⟨item, h, decide_eq_true rfl⟩ :
      (hash.items.find? fun i => i.key = item.key).isSome)
  refine ⟨found, List.mem_of_find?_eq_some hfound, ?_, ?_⟩
  · simpa using List.find?_some hfound
  · rw [Zhash.lookup, hfound]
    rfl

theorem copyMap_strings (store : Store) (entries : List (Bytes × Bytes)) :
    (store.copyMap entries).2.strings = store.strings ++ entries.map fun e => some e.2 := by
  induction entries generalizing store with
  | nil => simp [Store.copyMap]
  | cons e entries ih => simp [Store.copyMap, ih, Store.construct]

/-- Each value of the parameter is alive at its node. -/
theorem copyMap_nodes (store : Store) (entries : List (Bytes × Bytes)) :
    (store.copyMap entries).1.map (fun n => (n.1, (store.copyMap entries).2.strings[n.2]?)) =
      entries.map fun e => (e.1, some (some e.2)) := by
  induction entries generalizing store with
  | nil => rfl
  | cons e entries ih =>
    have hrest := ih (store.construct e.2).2
    have hhead : (store.copyMap (e :: entries)).2.strings[store.strings.length]? =
        some (some e.2) := by
      rw [copyMap_strings]
      simp
    exact List.cons_eq_cons.mpr ⟨Prod.ext rfl hhead, hrest⟩

/-- Without NUL bytes that is what reading through the pointers gives. -/
theorem copyMap_read (store : Store) {entries : List (Bytes × Bytes)}
    (h : ∀ e ∈ entries, e.1.NoNul ∧ e.2.NoNul) :
    (store.copyMap entries).1.map (fun n => (n.1.cStr, (store.copyMap entries).2.read n.2)) =
      entries.map fun e => (e.1, some e.2) := by
  have hnodes := congrArg (List.map fun p : Bytes × Option (Option Bytes) =>
    (p.1.cStr, p.2.join.map Bytes.cStr)) (copyMap_nodes store entries)
  simp only [List.map_map] at hnodes
  refine hnodes.trans (List.map_congr_left ?_)
  intro e he
  simp [(h e he).1.cStr_eq, (h e he).2.cStr_eq]

theorem read_destroy {store : Store} {a b : Address} (h : b = a ∨ store.read a = none) :
    (store.destroy b).read a = none := by
  unfold Store.read Store.destroy at *
  rw [List.getElem?_set]
  by_cases he : b = a
  · rw [if_pos he]
    split <;> rfl
  · rw [if_neg he]
    exact h.resolve_left he

/-- Behind its destruction nothing of the parameter can be read. -/
theorem read_destroyMap {store : Store} {nodes : Nodes} {a : Address}
    (h : a ∈ nodes.map Prod.snd ∨ store.read a = none) :
    (store.destroyMap nodes).read a = none := by
  induction nodes generalizing store with
  | nil => simpa [Store.destroyMap] using h
  | cons node nodes ih =>
    apply ih
    by_cases hrest : a ∈ nodes.map Prod.snd
    · exact Or.inl hrest
    · refine Or.inr (read_destroy ?_)
      rcases h with h | h
      · rcases List.mem_cons.mp h with he | h
        · exact Or.inl he.symm
        · exact absurd h hrest
      · exact Or.inr h

def toItem (node : Bytes × Address) : Item := ⟨node.1.cStr, some node.2⟩

theorem fill_cons (t : Traversal) (node : Bytes × Address) (nodes : Nodes) (hash : Zhash) :
    fill t (node :: nodes) hash = fill t nodes (hash.insert t node.1.cStr (some node.2)) := rfl

/-- Nodes whose keys differ as C strings are all put in. -/
theorem fill_perm (t : Traversal) (nodes : Nodes) (hash : Zhash)
    (h : (nodes.map (fun n => n.1.cStr) ++ hash.items.map Item.key).Nodup) :
    (fill t nodes hash).items.Perm (nodes.map toItem ++ hash.items) := by
  induction nodes generalizing hash with
  | nil => exact .refl _
  | cons node nodes ih =>
    have hcycle : (nodes.map (fun n => n.1.cStr) ++
        (node.1.cStr :: hash.items.map Item.key)).Nodup := by
      rw [List.map_cons, List.cons_append] at h
      exact List.perm_middle.nodup_iff.mpr h
    have hnew : node.1.cStr ∉ hash.items.map Item.key := by
      rw [List.map_cons, List.cons_append, List.nodup_cons] at h
      exact fun hmem => h.1 (List.mem_append_right _ hmem)
    have hinsert : hash.insert t node.1.cStr (some node.2) =
        ⟨t.order (toItem node :: hash.items)⟩ := if_neg hnew
    have hperm := t.perm (toItem node :: hash.items)
    have hkeys := (hperm.map Item.key).append_left (nodes.map fun n => n.1.cStr)
    have hrest := ih ⟨t.order (toItem node :: hash.items)⟩
      (hkeys.nodup_iff.mpr hcycle)
    rw [fill_cons, hinsert, List.map_cons, List.cons_append]
    exact hrest.trans ((hperm.append_left _).trans List.perm_middle)

/-- Nothing but the nodes' values gets into the hash. -/
theorem mem_fill {t : Traversal} {nodes : Nodes} {hash : Zhash} {item : Item}
    (h : item ∈ (fill t nodes hash).items) : item ∈ nodes.map toItem ∨ item ∈ hash.items := by
  induction nodes generalizing hash with
  | nil => exact Or.inr h
  | cons node nodes ih =>
    rw [fill_cons] at h
    rcases ih h with h | h
    · exact Or.inl (List.mem_cons_of_mem _ h)
    · rcases Zhash.mem_insert h with rfl | h
      · exact Or.inl List.mem_cons_self
      · exact Or.inr h

theorem fill_ne_nil {t : Traversal} {nodes : Nodes} {hash : Zhash}
    (h : nodes ≠ [] ∨ hash.items ≠ []) : (fill t nodes hash).items ≠ [] := by
  induction nodes generalizing hash with
  | nil => exact h.resolve_left fun hne => hne rfl
  | cons node nodes ih =>
    rw [fill_cons]
    exact ih (Or.inr (Zhash.insert_ne_nil t hash _ _))

/-- While all its strings are alive, a hash is read item by item. -/
theorem zhashToMapLoop_live {store : Store} {hash : Zhash} (val : Item → Bytes)
    {items : List Item} (map : StringMap)
    (h : ∀ item ∈ items, item.value ≠ none ∧
      ∃ a, hash.lookup item.key = some a ∧ store.read a = some (val item)) :
    zhashToMapLoop store hash items map =
      some ((items.map fun item => (item.key, val item)).foldl
        (fun map e => map.insert e.1 e.2) map) := by
  induction items generalizing map with
  | nil => rfl
  | cons item items ih =>
    obtain ⟨hvalue, a, hlookup, hread⟩ := h item List.mem_cons_self
    obtain ⟨v, hv⟩ := Option.ne_none_iff_exists'.mp hvalue
    have hrest := ih (map.insert item.key (val item))
      (fun i hi => h i (List.mem_cons_of_mem _ hi))
    simp only [zhashToMapLoop, hv, hlookup, hread, Option.bind_some, hrest, List.map_cons,
      List.foldl_cons]

/-- A hash filled with values that are alive is read back as the map. -/
theorem zhashToMap_fill (t : Traversal) {alive : Store} {nodes : Nodes} {m : StringMap}
    (hread : nodes.map (fun n => (n.1.cStr, alive.read n.2)) =
      m.entries.map fun e => (e.1, some e.2)) :
    zhashToMap alive (fill t nodes ⟨[]⟩) = some m := by
  have hcut : nodes.map (fun n => n.1.cStr) = m.entries.map Prod.fst := by
    have hkeys := congrArg (List.map Prod.fst) hread
    simpa only [List.map_map, Function.comp_def] using hkeys
  have hperm : (fill t nodes ⟨[]⟩).items.Perm (nodes.map toItem) := by
    have hfill := fill_perm t nodes ⟨[]⟩ (by simp [hcut, m.keys_nodup])
    rwa [List.append_nil] at hfill
  have hnodup : ((fill t nodes ⟨[]⟩).items.map Item.key).Nodup := by
    rw [(hperm.map Item.key).nodup_iff, List.map_map]
    exact hcut ▸ m.keys_nodup
  let val := fun item : Item => (item.value.bind alive.read).getD []
  have hlive : ∀ item ∈ (fill t nodes ⟨[]⟩).items, item.value ≠ none ∧
      ∃ a, (fill t nodes ⟨[]⟩).lookup item.key = some a ∧ alive.read a = some (val item) := by
    intro item hitem
    obtain ⟨n, hn, rfl⟩ := List.mem_map.mp (hperm.mem_iff.mp hitem)
    have hmem : (n.1.cStr, alive.read n.2) ∈ m.entries.map fun e => (e.1, some e.2) :=
      hread ▸ List.mem_map_of_mem (f := fun n : Bytes × Address => (n.1.cStr, alive.read n.2)) hn
    obtain ⟨e, _, he⟩ := List.mem_map.mp hmem
    have hvalue : alive.read n.2 = some e.2 := (Prod.mk.inj he).2.symm
    obtain ⟨found, hfound, hkey, hlookup⟩ := Zhash.lookup_of_mem hitem
    rw [List.inj_on_of_nodup_map hnodup hfound hitem hkey] at hlookup
    refine ⟨Option.some_ne_none _, n.2, hlookup, ?_⟩
    simp [val, toItem, hvalue]
  have hentries : (nodes.map toItem).map (fun item => (item.key, val item)) = m.entries := by
    have hvals := congrArg (List.map fun p : Bytes × Option Bytes => (p.1, p.2.getD [])) hread
    simpa [Function.comp_def, val, toItem] using hvals
  rw [zhashToMap, zhashToMapLoop_live val .empty hlive]
  have hall := hperm.map fun item => (item.key, val item)
  rw [hentries] at hall
  rw [SortedMap.foldl_insert_eq hall]

/-- The round trip is one as long as the parameter of `map_to_zhash` is alive. -/
theorem round_trip_while_alive (t : Traversal) (store : Store) {m : StringMap}
    (hm : ∀ e ∈ m.entries, e.1.NoNul ∧ e.2.NoNul) :
    zhashToMap (store.copyMap m.entries).2 (fill t (store.copyMap m.entries).1 ⟨[]⟩) = some m :=
  zhashToMap_fill t (copyMap_read store hm)

/-- After the call of `map_to_zhash` no value of its hash is alive. -/
theorem mapToZhash_dead {t : Traversal} {store : Store} {m : StringMap} {item : Item}
    (h : item ∈ (mapToZhash t store m).1.items) :
    ∃ a, item.value = some a ∧ (mapToZhash t store m).2.read a = none := by
  rcases mem_fill h with h | h
  · obtain ⟨n, hn, rfl⟩ := List.mem_map.mp h
    exact ⟨n.2, rfl, read_destroyMap (Or.inl (List.mem_map_of_mem hn))⟩
  · contradiction

theorem mapToZhash_nil {t : Traversal} {store : Store} {m : StringMap} (h : m.entries = []) :
    (mapToZhash t store m).1.items = [] := by
  simp [mapToZhash, h, Store.copyMap, fill]

theorem mapToZhash_ne_nil {t : Traversal} {store : Store} {m : StringMap} (h : m.entries ≠ []) :
    (mapToZhash t store m).1.items ≠ [] := by
  refine fill_ne_nil (Or.inl ?_)
  intro hnil
  have hkeys := congrArg List.length (copyMap_nodes store m.entries)
  rw [hnil] at hkeys
  exact h (List.eq_nil_of_length_eq_zero (by simpa using hkeys.symm))

/-- Reading a hash with values that are not alive has no result. -/
theorem zhashToMap_dead {store : Store} {hash : Zhash} (hne : hash.items ≠ [])
    (h : ∀ item ∈ hash.items, ∃ a, item.value = some a ∧ store.read a = none) :
    zhashToMap store hash = none := by
  obtain ⟨item, items, hitems⟩ := List.exists_cons_of_ne_nil hne
  have hitem : item ∈ hash.items := by simp [hitems]
  obtain ⟨a, hvalue, _⟩ := h item hitem
  obtain ⟨found, hfound, _, hlookup⟩ := Zhash.lookup_of_mem hitem
  obtain ⟨b, hb, hdead⟩ := h found hfound
  simp [zhashToMap, hitems, zhashToMapLoop, hvalue, hlookup, hb, hdead]

/-- The round trip gives the map back, and the values of the hash are alive,
just in case there are none. -/
theorem round_trip_iff (t : Traversal) (store : Store) (m : StringMap) :
    (zhashToMap (mapToZhash t store m).2 (mapToZhash t store m).1 = some m ↔ m.entries = []) ∧
    (Live (mapToZhash t store m).2 (mapToZhash t store m).1 m ↔ m.entries = []) := by
  refine ⟨⟨?_, ?_⟩, ⟨?_, ?_⟩⟩
  · intro h
    apply Classical.byContradiction
    intro hne
    rw [zhashToMap_dead (mapToZhash_ne_nil hne) fun _ => mapToZhash_dead] at h
    contradiction
  · intro h
    have hempty : m = .empty := SortedMap.eq_of_entries h
    rw [zhashToMap, mapToZhash_nil h, zhashToMapLoop, hempty]
  · intro h
    apply Classical.byContradiction
    intro hne
    obtain ⟨item, hitem⟩ := List.exists_mem_of_ne_nil _ (mapToZhash_ne_nil hne)
    obtain ⟨a, v, ha, hv, _⟩ := h item hitem
    obtain ⟨b, hb, hdead⟩ := mapToZhash_dead hitem
    rw [ha, Option.some.injEq] at hb
    rw [hb, hdead] at hv
    contradiction
  · intro h item hitem
    rw [mapToZhash_nil h] at hitem
    contradiction

def oneEntry : StringMap :=
  ⟨[(ofString "model", ofString "M1")], List.pairwise_singleton _ _⟩

def newestFirst : Traversal := ⟨id, fun _ => .refl _⟩

/-- The hash points to a string that is gone. -/
theorem one_entry_lost :
    (mapToZhash newestFirst ⟨[]⟩ oneEntry).1.items = [⟨ofString "model", some 0⟩] ∧
    (mapToZhash newestFirst ⟨[]⟩ oneEntry).2.read 0 = none ∧
    zhashToMap (mapToZhash newestFirst ⟨[]⟩ oneEntry).2
      (mapToZhash newestFirst ⟨[]⟩ oneEntry).1 ≠ some oneEntry := by
  refine ⟨rfl, rfl, ?_⟩
  intro h
  contradiction

end FtyCommonMlm.MlmUtils
