import Mathlib.Algebra.GroupWithZero.Nat
import FtyCommonMlm.Uuid

namespace FtyCommonMlm.FtyUuid
open Runs
open Bytes (ofString)

/-- Takes out the dashes behind groups of characters. -/
def undashed : List Nat → Bytes → Option Bytes
  | [], s => some s
  | width :: widths, s =>
    match s.drop width with
    | dash :: rest => if dash = 45 then (undashed widths rest).map (s.take width ++ ·) else none
    | [] => none

/-- How a UUID is read: 8-4-4-4-12 hexadecimal digits in lower case. -/
def read (s : Bytes) : Option Octets :=
  match (undashed [8, 4, 4, 4] s).bind Hex.toBytes? with
  | none => none
  | some t => if h : t.length = 16 then some ⟨t.toArray, by simpa using h⟩ else none

/-- The text that says there is no UUID. -/
def marker : Bytes := ofString "ffffffff-ffff-ffff-ffff-ffffffffffff"

def version (o : Octets) : UInt8 := o.get 6 >>> 4

/-- The two bits ahead of the clock sequence. -/
def variant (o : Octets) : UInt8 := o.get 8 >>> 6

def allOnes : Octets := Vector.replicate 16 0xff

theorem undashed_iff {widths : List Nat} {s t : Bytes} (hlength : widths.sum ≤ t.length) :
    undashed widths s = some t ↔ s = dashed widths t := by
  induction widths generalizing s t with
  | nil => simp [undashed, dashed]
  | cons width widths ih =>
    rw [List.sum_cons] at hlength
    constructor
    · intro h
      simp only [undashed] at h
      split at h
      · rename_i dash rest hdrop
        split at h
        · rename_i hdash
          obtain ⟨t', ht', rfl⟩ := Option.map_eq_some_iff.mp h
          have hwidth : (s.take width).length = width := by
            have hlt := congrArg List.length hdrop
            rw [List.length_drop, List.length_cons] at hlt
            rw [List.length_take]
            omega
          rw [List.length_append, hwidth] at hlength
          have hrest := (ih (by omega)).mp ht'
          rw [dashed, List.take_left' hwidth, List.drop_left' hwidth, ← hrest, ← hdash, ← hdrop,
            List.take_append_drop]
        · contradiction
      · contradiction
    · intro h
      have hwidth : (t.take width).length = width := by
        rw [List.length_take]
        omega
      have hrest : undashed widths (dashed widths (t.drop width)) = some (t.drop width) := by
        refine (ih ?_).mpr rfl
        rw [List.length_drop]
        omega
      rw [h, undashed, dashed, List.drop_left' hwidth, List.take_left' hwidth]
      simp [hrest]

/-- What is read as a UUID is its canonical text, and no other. -/
theorem read_iff {s : Bytes} {o : Octets} : read s = some o ↔ s = strCanonical o := by
  constructor
  · intro h
    simp only [read] at h
    split at h
    · contradiction
    · rename_i t ht
      split at h
      · rename_i hlength
        cases h
        obtain ⟨digits, hdigits, hbytes⟩ := Option.bind_eq_some_iff.mp ht
        have htext := Hex.toBytes?_eq_some_iff.mp hbytes
        have hlong : [8, 4, 4, 4].sum ≤ digits.length := by
          rw [htext, Hex.length_ofBytes, hlength]
          decide
        rw [(undashed_iff hlong).mp hdigits, htext]
        simp [strCanonical]
      · contradiction
  · intro h
    have hlong : [8, 4, 4, 4].sum ≤ (Hex.ofBytes o.toList).length := by
      rw [Hex.length_ofBytes, Vector.length_toList]
      decide
    have hdigits : undashed [8, 4, 4, 4] s = some (Hex.ofBytes o.toList) :=
      (undashed_iff hlong).mpr h
    simp [read, hdigits, Hex.toBytes?_ofBytes, Vector.toList]

theorem stamp_version (hash : Digest) :
    version (stamp hash) = 5 ∧ variant (stamp hash) = 2 := by
  have hsix : (stamp hash).get 6 = (hash[6] &&& 0x0F ||| 0x50) :=
    getElem_stamp hash (show 6 < 16 by decide)
  have hlast : (stamp hash).get 8 = (hash[8] &&& 0x3F ||| 0x80) :=
    getElem_stamp hash (show 8 < 16 by decide)
  rw [version, variant, hsix, hlast]
  refine ⟨?_, ?_⟩ <;> apply UInt8.eq_of_toBitVec_eq <;>
    simp [BitVec.ushiftRight_or_distrib, BitVec.ushiftRight_and_distrib]

theorem marker_eq : marker = strCanonical allOnes := rfl

/-- A calculated UUID is not the marker. -/
theorem calculated_ne_marker (hash : Digest) : strCanonical (stamp hash) ≠ marker := by
  intro h
  rw [marker_eq] at h
  have hones : version allOnes = 15 := rfl
  have hversion := (stamp_version hash).1
  rw [strCanonical_injective h, hones] at hversion
  exact absurd hversion (by decide)

theorem calculate_text (sha1 : Bytes → Digest) (self : FtyUuid) (mfr model serial : Option CString) :
    (∃ hash, mfr.isSome ∧ model.isSome ∧ serial.isSome ∧
      calculate sha1 (some self) mfr model serial =
        (strCanonical (stamp hash), some ⟨stamp hash⟩)) ∨
    ((mfr = none ∨ model = none ∨ serial = none) ∧
      calculate sha1 (some self) mfr model serial = (marker, some self)) := by
  cases mfr with
  | none => exact Or.inr ⟨Or.inl rfl, rfl⟩
  | some mfr =>
    cases model with
    | none => exact Or.inr ⟨Or.inr (Or.inl rfl), rfl⟩
    | some model =>
      cases serial with
      | none => exact Or.inr ⟨Or.inr (Or.inr rfl), rfl⟩
      | some serial => exact Or.inl ⟨_, rfl, rfl, rfl, rfl⟩

/-- Whatever an object has been through, `fty_uuid_create` answers with a UUID in
canonical text. It is the marker just in case a device lacks information, or only
ones are drawn; else it is the text of what the object holds now, and of version 5
if it is for a device. -/
theorem create_answers_uuid (sha1 : Bytes → Digest) (fresh : FtyUuid) (calls : List Call)
    (uuid : Option FtyUuid) (hrun : exec (step sha1) (some fresh) calls = some uuid) (ext : Ext)
    (assetType : CString) (drawn : Octets) :
    ∃ text o after, create sha1 ext assetType uuid drawn = some (text, some after) ∧
      read text = some o ∧
      (text = marker ↔ if assetType.bytes = ofString "device" then
        ext (ofString "manufacturer") = none ∨ ext (ofString "model") = none ∨
          ext (ofString "serial_no") = none
        else drawn = allOnes) ∧
      (text ≠ marker → after.uuid = o ∧
        (assetType.bytes = ofString "device" → version o = 5 ∧ variant o = 2)) := by
  obtain ⟨self, rfl⟩ := Option.isSome_iff_exists.mp (isSome_of_exec hrun)
  by_cases htype : assetType.bytes = ofString "device"
  · rcases calculate_text sha1 self (ext (ofString "manufacturer")) (ext (ofString "model"))
      (ext (ofString "serial_no")) with ⟨hash, hmfr, hmodel, hserial, heq⟩ | ⟨hnone, heq⟩
    · refine ⟨_, stamp hash, ⟨stamp hash⟩, by rw [create, if_pos htype, heq], read_iff.mpr rfl,
        ?_, fun _ => ⟨rfl, fun _ => stamp_version hash⟩⟩
      rw [if_pos htype]
      constructor
      · intro h
        exact absurd h (calculated_ne_marker hash)
      · intro h
        rcases h with h | h | h
        · simp [h] at hmfr
        · simp [h] at hmodel
        · simp [h] at hserial
    · refine ⟨marker, allOnes, self, by rw [create, if_pos htype, heq],
        read_iff.mpr marker_eq, ?_, fun h => absurd rfl h⟩
      rw [if_pos htype]
      exact ⟨fun _ => hnone, fun _ => rfl⟩
  · refine ⟨strCanonical drawn, drawn, ⟨drawn⟩, by rw [create, if_neg htype]; rfl,
      read_iff.mpr rfl, ?_, fun _ => ⟨rfl, fun h => absurd h htype⟩⟩
    rw [if_neg htype, marker_eq, strCanonical_injective.eq_iff]

theorem answer_for_device :
    ∃ text o after, create ipcSha1 ipcExt device (some ⟨randomOctets⟩) randomOctets =
      some (text, some after) ∧ read text = some o ∧ text ≠ marker ∧ version o = 5 := by
  have hrun : exec (step ipcSha1) (some zeroUuid) [.generate randomOctets] =
      some (some ⟨randomOctets⟩) := rfl
  obtain ⟨text, o, after, hcreate, hread, hmarker, hrest⟩ :=
    create_answers_uuid ipcSha1 zeroUuid _ _ hrun ipcExt device randomOctets
  have hne : text ≠ marker := by
    intro h
    have hnone := hmarker.mp h
    rw [if_pos (show device.bytes = ofString "device" from rfl)] at hnone
    rcases hnone with h | h | h <;> contradiction
  exact ⟨text, o, after, hcreate, hread, hne, ((hrest hne).2 rfl).1⟩

end FtyCommonMlm.FtyUuid
