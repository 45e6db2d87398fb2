import Mathlib.Algebra.GroupWithZero.Nat
import FtyCommonMlm.Mailbox.SyncClient
import FtyCommonMlm.Uuid

namespace FtyCommonMlm
open MlmSyncClient (pidWidth uniqueId)
open Bytes (ofString)

namespace MlmStreamClient

/-- `<m_cliendId>.PUB.<m_stream>[thread id in hexa]` -/
def publisherId (clientId stream : Bytes) (threadId : UInt32) : Bytes :=
  clientId ++ ofString ".PUB." ++ stream ++ ofString "." ++ Hex.padded pidWidth threadId.toNat

def listenerId (clientId stream : Bytes) (threadId : UInt32) : Bytes :=
  clientId ++ ofString ".SUB." ++ stream ++ ofString "." ++ Hex.padded pidWidth threadId.toNat

end MlmStreamClient

/-- The name that `MlmClient::connect` connects with. -/
def MlmClient.connectName (uuid : Octets) : Bytes := ofString "rest." ++ FtyUuid.strCanonical uuid

/-- A client of malamute, by what makes its address: one of a synchronous request,
one that publishes, one that listens, or one of a pool. -/
inductive Connection
  | sync (clientId : Bytes) (threadId : Int32)
  | publisher (clientId stream : Bytes) (threadId : Int32)
  | listener (clientId stream : Bytes) (threadId : Int32)
  | rest (uuid : Octets)

namespace Connection

/-- The address of a connection, the name as a C string. -/
def address : Connection → Bytes
  | sync clientId threadId => (uniqueId clientId threadId.toUInt32).cStr
  | publisher clientId stream threadId =>
    (MlmStreamClient.publisherId clientId stream threadId.toUInt32).cStr
  | listener clientId stream threadId =>
    (MlmStreamClient.listenerId clientId stream threadId.toUInt32).cStr
  | rest uuid => (MlmClient.connectName uuid).cStr

def thread : Connection → Option Int32
  | sync _ threadId | publisher _ _ threadId | listener _ _ threadId => some threadId
  | rest _ => none

/-- What an address has in front of the thread. -/
def stem : Connection → Bytes
  | sync clientId _ => clientId
  | publisher clientId stream _ => clientId ++ ofString ".PUB." ++ stream
  | listener clientId stream _ => clientId ++ ofString ".SUB." ++ stream
  | rest uuid => MlmClient.connectName uuid

/-- The names that an address is made from. -/
def names : Connection → List Bytes
  | sync clientId _ => [clientId]
  | publisher clientId stream _ | listener clientId stream _ => [clientId, stream]
  | rest _ => []

/-- There are no dots in the names. -/
def Plain (c : Connection) : Prop := ∀ name ∈ c.names, 46 ∉ name

instance (c : Connection) : Decidable c.Plain :=
  inferInstanceAs (Decidable (∀ name ∈ c.names, 46 ∉ name))

variable {c d : Connection}

theorem dashed_last (widths : List Nat) (s : Bytes) :
    ∃ front, FtyUuid.dashed widths s = front ++ s.drop widths.sum := by
  induction widths generalizing s with
  | nil => exact ⟨[], rfl⟩
  | cons width widths ih =>
    obtain ⟨front, hfront⟩ := ih (s.drop width)
    refine ⟨s.take width ++ 45 :: front, ?_⟩
    rw [FtyUuid.dashed, hfront, List.drop_drop, List.sum_cons]
    simp

theorem mem_dashed {widths : List Nat} {s : Bytes} {x : UInt8}
    (h : x ∈ FtyUuid.dashed widths s) : x = 45 ∨ x ∈ s := by
  induction widths generalizing s with
  | nil => exact Or.inr h
  | cons width widths ih =>
    rcases List.mem_append.mp h with h | h
    · exact Or.inr (List.mem_of_mem_take h)
    · rcases List.mem_cons.mp h with rfl | h
      · exact Or.inl rfl
      · exact (ih h).imp id fun hx => List.mem_of_mem_drop hx

theorem connectName_noNul (uuid : Octets) : (MlmClient.connectName uuid).NoNul := by
  refine Bytes.NoNul.append (by decide) ?_
  intro h
  have hdigit : ∀ d < 16, (Nat.digitChar d).toNat.toUInt8 ≠ 0 := by decide
  rcases mem_dashed h with h | h
  · contradiction
  · obtain ⟨d, hd, he⟩ := Hex.mem_ofBytes h
    exact hdigit d hd he

/-- All but the clients of a pool have the thread at the end. -/
theorem address_of_thread {threadId : Int32} (h : ∀ name ∈ c.names, name.NoNul)
    (ht : c.thread = some threadId) : c.address = uniqueId c.stem threadId.toUInt32 := by
  have hcut : ∀ {stem : Bytes}, stem.NoNul →
      (uniqueId stem threadId.toUInt32).cStr = uniqueId stem threadId.toUInt32 := by
    intro stem hstem
    exact MlmSyncClient.address_eq hstem _
  cases c with
  | sync clientId t =>
    cases ht
    exact hcut (h clientId (by simp [names]))
  | publisher clientId stream t =>
    cases ht
    exact hcut (((h clientId (by simp [names])).append (by decide)).append
      (h stream (by simp [names])))
  | listener clientId stream t =>
    cases ht
    exact hcut (((h clientId (by simp [names])).append (by decide)).append
      (h stream (by simp [names])))
  | rest uuid => contradiction

theorem address_of_rest (h : c.thread = none) :
    ∃ uuid, c = .rest uuid ∧ c.address = MlmClient.connectName uuid := by
  cases c with
  | rest uuid => exact ⟨uuid, rfl, (connectName_noNul uuid).cStr_eq⟩
  | _ => contradiction

/-- The dot ahead of the thread would be a digit of the UUID. -/
theorem rest_ne {uuid : Octets} {stem : Bytes} {threadId : UInt32} :
    MlmClient.connectName uuid ≠ uniqueId stem threadId := by
  intro h
  obtain ⟨front, hlast⟩ := dashed_last [8, 4, 4, 4] (Hex.ofBytes uuid.toList)
  have hlt : threadId.toNat < 16 ^ pidWidth := threadId.toNat_lt
  have hwidth : (Hex.padded pidWidth threadId.toNat).length = 8 :=
    Hex.length_padded (by decide) hlt
  have hlong : (Hex.ofBytes uuid.toList).length = 32 := by
    rw [Hex.length_ofBytes, Vector.length_toList]
  have hsplit : (ofString "rest." ++ front) ++ (Hex.ofBytes uuid.toList).drop 20 =
      stem ++ 46 :: Hex.padded pidWidth threadId.toNat := by
    have hdot : ofString "." = [46] := rfl
    simpa [MlmClient.connectName, FtyUuid.strCanonical, hlast, uniqueId, hdot] using h
  have hlength := congrArg List.length hsplit
  simp only [List.length_append, List.length_drop, List.length_cons, hlong, hwidth] at hlength
  have hdigits : (Hex.ofBytes uuid.toList).drop 20 =
      stem.drop (ofString "rest." ++ front).length ++ 46 :: Hex.padded pidWidth threadId.toNat := by
    rw [← List.drop_append_of_le_length (by rw [List.length_append]; omega), ← hsplit,
      List.drop_left]
  have hdot : 46 ∈ Hex.ofBytes uuid.toList := by
    apply List.mem_of_mem_drop (i := 20)
    rw [hdigits]
    simp
  obtain ⟨digit, hdigit, he⟩ := Hex.mem_ofBytes hdot
  have hnot : ∀ d < 16, (Nat.digitChar d).toNat.toUInt8 ≠ 46 := by decide
  exact hnot digit hdigit he

theorem address_eq_iff (hc : ∀ name ∈ c.names, name.NoNul) (hd : ∀ name ∈ d.names, name.NoNul) :
    c.address = d.address ↔ c.thread = d.thread ∧ c.stem = d.stem := by
  cases htc : c.thread with
  | none =>
    obtain ⟨uuid, rfl, haddr⟩ := address_of_rest htc
    rw [haddr]
    cases htd : d.thread with
    | none =>
      obtain ⟨uuid', rfl, haddr'⟩ := address_of_rest htd
      rw [haddr']
      exact ⟨fun h => ⟨rfl, h⟩, fun h => h.2⟩
    | some threadId =>
      rw [address_of_thread hd htd]
      exact ⟨fun h => absurd h rest_ne, fun h => absurd h.1 (by simp)⟩
  | some threadId =>
    rw [address_of_thread hc htc]
    cases htd : d.thread with
    | none =>
      obtain ⟨uuid, rfl, haddr⟩ := address_of_rest htd
      rw [haddr]
      exact ⟨fun h => absurd h.symm rest_ne, fun h => absurd h.1 (by simp)⟩
    | some threadId' =>
      rw [address_of_thread hd htd]
      constructor
      · intro h
        obtain ⟨hstem, hthread⟩ := MlmSyncClient.uniqueId_inj h
        exact ⟨congrArg some (congrArg UInt32.toInt32 hthread), hstem⟩
      · intro h
        rw [h.2, Option.some.inj h.1]

theorem split_dot {a b x y : Bytes} (ha : 46 ∉ a) (hb : 46 ∉ b)
    (h : a ++ 46 :: x = b ++ 46 :: y) : a = b ∧ x = y := by
  have htake : ∀ {a x : Bytes}, 46 ∉ a → (a ++ 46 :: x).takeWhile (· != 46) = a := by
    intro a x ha
    have hall : ∀ u ∈ a, (u != 46) = true := fun u hu => bne_iff_ne.mpr fun he => ha (he ▸ hu)
    rw [List.takeWhile_append_of_pos hall]
    simp
  have hab : a = b := by rw [← htake (x := x) ha, h, htake hb]
  subst hab
  exact ⟨rfl, (List.cons.inj (List.append_cancel_left h)).2⟩

/-- Plain names can be read back. -/
theorem eq_of_stem (hc : c.Plain) (hd : d.Plain) (ht : c.thread = d.thread)
    (h : c.stem = d.stem) : c = d := by
  have hpub : ofString ".PUB." = 46 :: ofString "PUB." := rfl
  have hsub : ofString ".SUB." = 46 :: ofString "SUB." := rfl
  have hdotted : ∀ {clientId a x : Bytes}, 46 ∉ clientId → clientId ≠ a ++ 46 :: x := by
    intro clientId a x hplain he
    exact hplain (he ▸ by simp)
  cases c with
  | sync clientId t =>
    have hplain : 46 ∉ clientId := hc clientId (by simp [names])
    cases d with
    | sync clientId' t' => simp_all [stem, thread]
    | publisher clientId' stream t' =>
      simp only [stem, hpub, List.append_assoc, List.cons_append] at h
      exact absurd h (hdotted hplain)
    | listener clientId' stream t' =>
      simp only [stem, hsub, List.append_assoc, List.cons_append] at h
      exact absurd h (hdotted hplain)
    | rest uuid => contradiction
  | publisher clientId stream t =>
    have hplain : 46 ∉ clientId := hc clientId (by simp [names])
    cases d with
    | sync clientId' t' =>
      simp only [stem, hpub, List.append_assoc, List.cons_append] at h
      exact absurd h.symm (hdotted (hd clientId' (by simp [names])))
    | publisher clientId' stream' t' =>
      simp only [stem, hpub, List.append_assoc, List.cons_append] at h
      obtain ⟨rfl, hstream⟩ := split_dot hplain (hd clientId' (by simp [names])) h
      rw [List.append_cancel_left hstream, Option.some.inj ht]
    | listener clientId' stream' t' =>
      simp only [stem, hpub, hsub, List.append_assoc, List.cons_append] at h
      obtain ⟨_, hkind⟩ := split_dot hplain (hd clientId' (by simp [names])) h
      exact absurd (List.cons.inj hkind).1 (by decide)
    | rest uuid => contradiction
  | listener clientId stream t =>
    have hplain : 46 ∉ clientId := hc clientId (by simp [names])
    cases d with
    | sync clientId' t' =>
      simp only [stem, hsub, List.append_assoc, List.cons_append] at h
      exact absurd h.symm (hdotted (hd clientId' (by simp [names])))
    | publisher clientId' stream' t' =>
      simp only [stem, hpub, hsub, List.append_assoc, List.cons_append] at h
      obtain ⟨_, hkind⟩ := split_dot hplain (hd clientId' (by simp [names])) h
      exact absurd (List.cons.inj hkind).1 (by decide)
    | listener clientId' stream' t' =>
      simp only [stem, hsub, List.append_assoc, List.cons_append] at h
      obtain ⟨rfl, hstream⟩ := split_dot hplain (hd clientId' (by simp [names])) h
      rw [List.append_cancel_left hstream, Option.some.inj ht]
    | rest uuid => contradiction
  | rest uuid =>
    cases d with
    | rest uuid' =>
      have huuid := List.append_cancel_left h
      rw [FtyUuid.strCanonical_injective huuid]
    | _ => contradiction

/-- Two connections of a process share an address just in case they are of one
thread, or of none, and what their names make is the same. With names without
dots that is one connection only. -/
theorem addresses_apart :
    (∀ c d : Connection, (∀ name ∈ c.names, name.NoNul) → (∀ name ∈ d.names, name.NoNul) →
      (c.address = d.address ↔ c.thread = d.thread ∧ c.stem = d.stem)) ∧
    ∀ c d : Connection, c.Plain → d.Plain → (∀ name ∈ c.names, name.NoNul) →
      (∀ name ∈ d.names, name.NoNul) → (c.address = d.address ↔ c = d) := by
  refine ⟨fun c d => address_eq_iff, ?_⟩
  intro c d hc hd hcn hdn
  constructor
  · intro h
    obtain ⟨ht, hstem⟩ := (address_eq_iff hcn hdn).mp h
    exact eq_of_stem hc hd ht hstem
  · intro h
    rw [h]

/-- A dot in a client id: a request and a message published in one thread. -/
theorem dotted_names_share_address :
    Connection.address (.sync (ofString "asset.PUB.alerts") 1) =
        Connection.address (.publisher (ofString "asset") (ofString "alerts") 1) ∧
      Connection.address (.sync (ofString "asset") 1) ≠
        Connection.address (.publisher (ofString "asset") (ofString "alerts") 1) := by
  refine ⟨(addresses_apart.1 _ _ (by decide) (by decide)).mpr ⟨rfl, rfl⟩, ?_⟩
  intro h
  cases (addresses_apart.2 _ _ (by decide) (by decide) (by decide) (by decide)).mp h

end Connection

end FtyCommonMlm
