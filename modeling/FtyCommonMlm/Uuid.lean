import FtyCommonMlm.Lib.Runs
import FtyCommonMlm.Lib.Hex
import FtyCommonMlm.Lib.Fields

namespace FtyCommonMlm
open Runs Fields
open Bytes (ofString)

/-- What a `zuuid_t` holds. -/
abbrev Octets := Vector UInt8 16

/-- What `SHA1` writes, `SHA_DIGEST_LENGTH` bytes. -/
abbrev Digest := Vector UInt8 20

/-- `zhash_lookup` in a table of strings. -/
abbrev Ext := Bytes → Option CString

structure FtyUuid where
  uuid : Octets

namespace FtyUuid

def eatonNs : Bytes :=
  [0x93, 0x3d, 0x6c, 0x80, 0xde, 0xa9, 0x8c, 0x6b, 0xd1, 0x11, 0x8b, 0x3b, 0x46, 0xa1, 0x81, 0xf1]

/-- Groups of characters with a dash behind each, and then the rest. -/
def dashed : List Nat → Bytes → Bytes
  | [], s => s
  | width :: widths, s => s.take width ++ 45 :: dashed widths (s.drop width)

/-- `zuuid_str_canonical`. -/
def strCanonical (o : Octets) : Bytes := dashed [8, 4, 4, 4] (Hex.ofBytes o.toList)

/-- The format `"%s%s%s%s"`. -/
def src (mfr model serial : CString) : Bytes :=
  eatonNs ++ mfr.bytes ++ model.bytes ++ serial.bytes

/-- `fty_sha1`. The data ends where `strlen` says. -/
def ftySha1 (sha1 : Bytes → Digest) (data : Bytes) : Digest := sha1 data.cStr

/-- The version and the variant of the UUID, and `zuuid_set`, which copies
sixteen bytes. -/
def stamp (hash : Digest) : Octets :=
  let hash := hash.set 6 (hash[6] &&& 0x0F)
  let hash := hash.set 6 (hash[6] ||| 0x50)
  let hash := hash.set 8 (hash[8] &&& 0x3F)
  let hash := hash.set 8 (hash[8] ||| 0x80)
  Vector.ofFn fun i => hash[i.val]

-- An object or a string that is null is none. The object is left as it is then.
def calculate (sha1 : Bytes → Digest) (self : Option FtyUuid) (mfr model serial : Option CString) :
    Bytes × Option FtyUuid :=
  match self, mfr, model, serial with
  | some _, some mfr, some model, some serial =>
    let src := src mfr model serial
    let uuid := stamp (ftySha1 sha1 src)
    (strCanonical uuid, some ⟨uuid⟩)
  | _, _, _, _ => (ofString "ffffffff-ffff-ffff-ffff-ffffffffffff", self)

/-- `fty_uuid_generate`, with the bytes that `zuuid_new` draws. A null object
crashes. -/
def generate (self : Option FtyUuid) (drawn : Octets) : Option (Bytes × Option FtyUuid) :=
  self.map fun _ => (strCanonical drawn, some ⟨drawn⟩)

def create (sha1 : Bytes → Digest) (ext : Ext) (assetType : CString) (uuid : Option FtyUuid)
    (drawn : Octets) : Option (Bytes × Option FtyUuid) :=
  let serial := ext (ofString "serial_no")
  let model := ext (ofString "model")
  let mfr := ext (ofString "manufacturer")
  if assetType.bytes = ofString "device" then some (calculate sha1 uuid mfr model serial)
  else generate uuid drawn

/-- A call on an object, with what it draws. -/
inductive Call where
  | calculate (mfr model serial : Option CString)
  | generate (drawn : Octets)
  | create (ext : Ext) (assetType : CString) (drawn : Octets)

def step (sha1 : Bytes → Digest) (self : Option FtyUuid) : Call → Option (Option FtyUuid)
  | .calculate mfr model serial => some (calculate sha1 self mfr model serial).2
  | .generate drawn => (generate self drawn).map Prod.snd
  | .create ext assetType drawn => (create sha1 ext assetType self drawn).map Prod.snd

/-- The bits of a hash that a UUID keeps. -/
def kept (hash : Digest) : Octets :=
  Vector.ofFn fun i =>
    if i.val = 6 then hash[6] &&& 0x0F else if i.val = 8 then hash[8] &&& 0x3F else hash[i.val]

theorem dashed_injective (widths : List Nat) {s t : Bytes} (hlen : s.length = t.length)
    (h : dashed widths s = dashed widths t) : s = t := by
  induction widths generalizing s t with
  | nil => exact h
  | cons width widths ih =>
    have htake : (s.take width).length = (t.take width).length := by
      rw [List.length_take, List.length_take, hlen]
    obtain ⟨hgroup, hrest⟩ := List.append_inj h htake
    have hdrop : (s.drop width).length = (t.drop width).length := by
      rw [List.length_drop, List.length_drop, hlen]
    rw [← List.take_append_drop width s, hgroup, ih hdrop (List.cons.inj hrest).2,
      List.take_append_drop]

/-- The text of a UUID determines its bytes. -/
theorem strCanonical_injective : Function.Injective strCanonical := by
  intro o o' h
  have hlen : (Hex.ofBytes o.toList).length = (Hex.ofBytes o'.toList).length := by
    rw [Hex.length_ofBytes, Hex.length_ofBytes, Vector.length_toList, Vector.length_toList]
  exact Vector.toList_inj.mp (Hex.ofBytes_injective (dashed_injective _ hlen h))

/-- Setting bits outside a mask loses nothing of what the mask keeps. -/
theorem and_or_eq_iff {x y mask bits : UInt8} (h : bits &&& mask = 0) :
    x &&& mask ||| bits = y &&& mask ||| bits ↔ x &&& mask = y &&& mask := by
  have hcancel : ∀ z : UInt8, (z &&& mask ||| bits) &&& mask = z &&& mask := by
    intro z
    have hdistrib : (z &&& mask ||| bits) &&& mask = (z &&& mask &&& mask) ||| (bits &&& mask) :=
      UInt8.eq_of_toBitVec_eq BitVec.and_or_distrib_right
    rw [hdistrib, h, UInt8.and_assoc, UInt8.and_self, UInt8.or_zero]
  constructor
  · intro he
    rw [← hcancel x, he, hcancel y]
  · intro he
    rw [he]

theorem getElem_stamp (hash : Digest) {i : Nat} (hi : i < 16) :
    (stamp hash)[i] =
      if i = 6 then hash[6] &&& 0x0F ||| 0x50 else
      if i = 8 then hash[8] &&& 0x3F ||| 0x80 else hash[i] := by
  by_cases h6 : i = 6
  · subst h6
    simp [stamp]
  · by_cases h8 : i = 8
    · subst h8
      simp [stamp]
    · simp [stamp, h6, h8, Vector.getElem_set, Ne.symm h6, Ne.symm h8]

theorem getElem_kept (hash : Digest) {i : Nat} (hi : i < 16) :
    (kept hash)[i] =
      if i = 6 then hash[6] &&& 0x0F else if i = 8 then hash[8] &&& 0x3F else hash[i] := by
  simp [kept]

/-- A UUID has the bits of the hash that it keeps, and no others. -/
theorem stamp_eq_iff {hash hash' : Digest} : stamp hash = stamp hash' ↔ kept hash = kept hash' := by
  rw [Vector.ext_iff, Vector.ext_iff]
  refine forall_congr' fun i => forall_congr' fun hi => ?_
  rw [getElem_stamp _ hi, getElem_stamp _ hi, getElem_kept _ hi, getElem_kept _ hi]
  split
  · exact and_or_eq_iff rfl
  · split
    · exact and_or_eq_iff rfl
    · exact Iff.rfl

/-- What a calculated UUID is made from. -/
@[ext] structure Asset where
  mfr : CString
  model : CString
  serial : CString

def Asset.fields (a : Asset) : List Bytes := [a.mfr.bytes, a.model.bytes, a.serial.bytes]

/-- The bytes `SHA1` is given for an asset. -/
def Asset.hashed (a : Asset) : Bytes := (src a.mfr a.model a.serial).cStr

/-- The UUID that `fty_uuid_calculate` returns for an asset. -/
def Asset.calculated (sha1 : Bytes → Digest) (a : Asset) (self : FtyUuid) : Bytes :=
  (calculate sha1 (some self) (some a.mfr) (some a.model) (some a.serial)).1

/-- No collision of two inputs on the bits that are kept. -/
def Apart (sha1 : Bytes → Digest) (s t : Bytes) : Prop := kept (sha1 s) = kept (sha1 t) → s = t

theorem Asset.hashed_eq (a : Asset) : a.hashed = eatonNs ++ a.fields.flatten := by
  have hns : eatonNs.NoNul := by decide
  have hnul := ((hns.append a.mfr.noNul).append a.model.noNul).append a.serial.noNul
  rw [Asset.hashed, src, hnul.cStr_eq]
  simp [Asset.fields]

theorem Asset.calculated_eq (sha1 : Bytes → Digest) (a : Asset) (self : FtyUuid) :
    a.calculated sha1 self = strCanonical (stamp (sha1 a.hashed)) := rfl

/-- The bytes hashed tell how the text of an asset reads, not where its fields
end. -/
theorem Asset.hashed_eq_iff {a b : Asset} : a.hashed = b.hashed ↔ Recut a.fields b.fields := by
  have hfields : a.fields.length = b.fields.length := rfl
  rw [recut_iff hfields, Asset.hashed_eq, Asset.hashed_eq, List.append_cancel_left_eq]

theorem Asset.calculated_eq_iff {sha1 : Bytes → Digest} {a b : Asset} {self self' : FtyUuid}
    (hsha : Apart sha1 a.hashed b.hashed) :
    a.calculated sha1 self = b.calculated sha1 self' ↔ a.hashed = b.hashed := by
  rw [Asset.calculated_eq, Asset.calculated_eq, strCanonical_injective.eq_iff, stamp_eq_iff]
  constructor
  · exact hsha
  · intro h
    rw [h]

/-- Where the texts of models and of serial numbers have fixed lengths, there is
one cut only. -/
theorem Asset.hashed_ne_of_lengths {a b : Asset} (hne : a ≠ b)
    (hmodel : a.model.bytes.length = b.model.bytes.length)
    (hserial : a.serial.bytes.length = b.serial.bytes.length) : a.hashed ≠ b.hashed := by
  intro h
  have hrecut := Asset.hashed_eq_iff.mp h
  have htotal := congrArg List.length hrecut.flatten_eq
  simp only [Asset.fields, List.length_flatten, List.map_cons, List.map_nil, List.sum_cons,
    List.sum_nil] at htotal
  have hmfr : a.mfr.bytes.length = b.mfr.bytes.length := by omega
  have hfields := hrecut.eq_of_lengths (by simp [Asset.fields, hmfr, hmodel, hserial])
  simp only [Asset.fields, List.cons.injEq, and_true] at hfields
  obtain ⟨he, he', he''⟩ := hfields
  exact hne (Asset.ext (CString.ext he) (CString.ext he') (CString.ext he''))

/-- Two assets have different bytes hashed, and get different UUIDs, just in case
neither is another cut of the text of the other. Different assets with models of
one length and serial numbers of one length are no such cuts. -/
theorem uuids_differ_iff (sha1 : Bytes → Digest) (a b : Asset)
    (hsha : Apart sha1 a.hashed b.hashed) (self self' : FtyUuid) :
    (a.hashed ≠ b.hashed ↔ ¬ Recut a.fields b.fields) ∧
      (a.calculated sha1 self ≠ b.calculated sha1 self' ↔ ¬ Recut a.fields b.fields) ∧
      (a ≠ b → a.model.bytes.length = b.model.bytes.length →
        a.serial.bytes.length = b.serial.bytes.length → ¬ Recut a.fields b.fields) := by
  have hcut := not_congr (Asset.hashed_eq_iff (a := a) (b := b))
  refine ⟨hcut, not_congr ((Asset.calculated_eq_iff hsha).trans Asset.hashed_eq_iff), ?_⟩
  intro hne hmodel hserial
  exact hcut.mp (Asset.hashed_ne_of_lengths hne hmodel hserial)

def ipc3000 : Asset :=
  ⟨.lit "EATON", .lit "IPC3000", .lit "LA71042052"⟩

def nextIpc3000 : Asset := { ipc3000 with serial := .lit "LA71042053" }

/-- The hashes of the two. -/
def ipcSha1 (data : Bytes) : Digest :=
  if data = ipc3000.hashed then
    #v[0xc7, 0xcc, 0x6f, 0xfe, 0xf3, 0x6f, 0x55, 0xee, 0xb5, 0xd4,
      0x3e, 0x40, 0xa2, 0xfe, 0x08, 0xa3, 0x6b, 0x70, 0x68, 0xba]
  else
    #v[0xf4, 0x66, 0xdd, 0xec, 0xcf, 0xdc, 0xc3, 0xfe, 0x90, 0x31,
      0x65, 0x81, 0x4a, 0x61, 0x38, 0x69, 0xf8, 0x7e, 0xd5, 0x6a]

def zeroUuid : FtyUuid := ⟨Vector.replicate 16 0⟩

theorem ipcs_differ :
    ipc3000.calculated ipcSha1 zeroUuid = ofString "c7cc6ffe-f36f-55ee-b5d4-3e40a2fe08a3" ∧
    ¬ Recut ipc3000.fields nextIpc3000.fields ∧
    (ipc3000.hashed ≠ nextIpc3000.hashed ↔ ¬ Recut ipc3000.fields nextIpc3000.fields) ∧
    (ipc3000.calculated ipcSha1 zeroUuid ≠ nextIpc3000.calculated ipcSha1 zeroUuid ↔
      ¬ Recut ipc3000.fields nextIpc3000.fields) := by
  have hsha : Apart ipcSha1 ipc3000.hashed nextIpc3000.hashed := by
    intro h
    exact absurd (congrArg (fun o : Octets => o[0]) h) (by decide)
  have hdiffer := uuids_differ_iff ipcSha1 ipc3000 nextIpc3000 hsha zeroUuid zeroUuid
  exact ⟨rfl, hdiffer.1.mp (by decide), hdiffer.1, hdiffer.2.1⟩

/-- `ipc3000` with three letters of its model behind its manufacturer. -/
def recutIpc3000 : Asset :=
  { ipc3000 with mfr := .lit "EATONIPC", model := .lit "3000" }

theorem recut_ipc_collides :
    ipc3000 ≠ recutIpc3000 ∧ ipc3000.hashed = recutIpc3000.hashed ∧
    ∀ (sha1 : Bytes → Digest) (self self' : FtyUuid),
      ipc3000.calculated sha1 self = recutIpc3000.calculated sha1 self' := by
  refine ⟨?_, rfl, fun _ _ _ => rfl⟩
  intro h
  exact absurd (congrArg (fun a : Asset => a.mfr.bytes.length) h) (by decide)

/-- All the information there is to calculate from. -/
structure Complete (ext : Ext) (a : Asset) : Prop where
  mfr : ext (ofString "manufacturer") = some a.mfr
  model : ext (ofString "model") = some a.model
  serial : ext (ofString "serial_no") = some a.serial

/-- The object of a `fty_uuid_t` stays, whatever is called on it. -/
theorem isSome_of_exec {sha1 : Bytes → Digest} {fresh : FtyUuid} {calls : List Call}
    {uuid : Option FtyUuid} (h : exec (step sha1) (some fresh) calls = some uuid) :
    uuid.isSome := by
  have hcalculate : ∀ (self : Option FtyUuid) mfr model serial, self.isSome →
      (calculate sha1 self mfr model serial).2.isSome := by
    intro self mfr model serial hself
    unfold calculate
    split
    · rfl
    · exact hself
  have hgenerate : ∀ (self : Option FtyUuid) drawn after, generate self drawn = some after →
      after.2.isSome := by
    intro self drawn after hafter
    obtain ⟨_, _, rfl⟩ := Option.map_eq_some_iff.mp hafter
    rfl
  refine inv_of_exec (I := fun self : Option FtyUuid => self.isSome) rfl ?_ h
  intro self call after hself hstep
  cases call with
  | calculate mfr model serial =>
    cases hstep
    exact hcalculate self mfr model serial hself
  | generate drawn =>
    obtain ⟨_, hafter, rfl⟩ := Option.map_eq_some_iff.mp hstep
    exact hgenerate self drawn _ hafter
  | create ext assetType drawn =>
    obtain ⟨made, hmade, rfl⟩ := Option.map_eq_some_iff.mp hstep
    unfold create at hmade
    split at hmade
    · cases hmade
      exact hcalculate self _ _ _ hself
    · exact hgenerate self drawn _ hmade

theorem create_device {sha1 : Bytes → Digest} {ext : Ext} {a : Asset} {assetType : CString}
    {uuid : Option FtyUuid} (fresh : FtyUuid) (drawn : Octets) (hext : Complete ext a)
    (htype : assetType.bytes = ofString "device") (huuid : uuid.isSome) :
    (create sha1 ext assetType uuid drawn).map Prod.fst = some (a.calculated sha1 fresh) := by
  obtain ⟨self, rfl⟩ := Option.isSome_iff_exists.mp huuid
  simp only [create, if_pos htype, hext.mfr, hext.model, hext.serial]
  rfl

/-- Bytes of version 4, as `zuuid_new` draws them. -/
def randomOctets : Octets := ((Vector.replicate 16 0).set 6 0x40).set 8 0x80

/-- The version of a calculated UUID is 5. -/
theorem stamp_ne_random (hash : Digest) : stamp hash ≠ randomOctets := by
  intro h
  have hversion := congrArg (fun o : Octets => o[6].toBitVec[4]) h
  simp [getElem_stamp, randomOctets] at hversion

theorem create_other {sha1 : Bytes → Digest} {ext : Ext} {a : Asset} {assetType : CString}
    (fresh : FtyUuid) (htype : assetType.bytes ≠ ofString "device") :
    (create sha1 ext assetType (some fresh) randomOctets).map Prod.fst ≠
      some (a.calculated sha1 fresh) := by
  intro h
  simp only [create, if_neg htype, generate, Option.map_some, Option.some.injEq,
    Asset.calculated_eq] at h
  exact stamp_ne_random _ (strCanonical_injective h).symm

/-- With all the information, two calls return the calculated UUID, whatever the
objects have been through and whatever is drawn, just in case both are for a
device. -/
theorem create_calculates_iff (sha1 : Bytes → Digest) (ext : Ext) (a : Asset)
    (hext : Complete ext a) (assetType assetType' : CString) (fresh fresh' : FtyUuid) :
    (∀ (calls calls' : List Call) (uuid uuid' : Option FtyUuid) (drawn drawn' : Octets),
      exec (step sha1) (some fresh) calls = some uuid →
      exec (step sha1) (some fresh') calls' = some uuid' →
      (create sha1 ext assetType uuid drawn).map Prod.fst = some (a.calculated sha1 fresh) ∧
      (create sha1 ext assetType' uuid' drawn').map Prod.fst = some (a.calculated sha1 fresh)) ↔
    assetType.bytes = ofString "device" ∧ assetType'.bytes = ofString "device" := by
  constructor
  · intro h
    have hnow := h [] [] (some fresh) (some fresh') randomOctets randomOctets rfl rfl
    refine ⟨?_, ?_⟩
    · apply Classical.byContradiction
      intro htype
      exact create_other fresh htype hnow.1
    · apply Classical.byContradiction
      intro htype
      exact create_other fresh' htype hnow.2
  · intro h calls calls' uuid uuid' drawn drawn' hrun hrun'
    exact ⟨create_device fresh drawn hext h.1 (isSome_of_exec hrun),
      create_device fresh drawn' hext h.2 (isSome_of_exec hrun')⟩

/-- A table with all the information about `ipc3000`. -/
def ipcExt : Ext := fun key =>
  if key = ofString "manufacturer" then some ipc3000.mfr
  else if key = ofString "model" then some ipc3000.model
  else if key = ofString "serial_no" then some ipc3000.serial
  else none

def device : CString := .lit "device"

def room : CString := .lit "room"

theorem device_calculated :
    (create ipcSha1 ipcExt device (some ⟨randomOctets⟩) randomOctets).map Prod.fst =
      some (ipc3000.calculated ipcSha1 zeroUuid) := by
  have hext : Complete ipcExt ipc3000 := ⟨rfl, rfl, rfl⟩
  have hiff := create_calculates_iff ipcSha1 ipcExt ipc3000 hext device device zeroUuid zeroUuid
  have hrun : exec (step ipcSha1) (some zeroUuid) [.generate randomOctets] =
      some (some ⟨randomOctets⟩) := rfl
  exact (hiff.mpr ⟨rfl, rfl⟩ _ [] _ _ randomOctets randomOctets hrun rfl).1

/-- The source of a room's UUID is never looked at. -/
theorem room_not_calculated :
    Complete ipcExt ipc3000 ∧
    (create ipcSha1 ipcExt room (some zeroUuid) randomOctets).map Prod.fst =
      some (ofString "00000000-0000-4000-8000-000000000000") ∧
    ipc3000.calculated ipcSha1 zeroUuid ≠ ofString "00000000-0000-4000-8000-000000000000" :=
  ⟨⟨rfl, rfl, rfl⟩, rfl, by decide⟩

end FtyUuid

end FtyCommonMlm
