import FtyCommonMlm.Lib.Ledger
import FtyCommonMlm.Uuid

namespace FtyCommonMlm.FtyUuid
open Runs Ledger
open Bytes (ofString)

/-- What the functions allocate, each kind in the order of allocation. -/
inductive Allocated
  | object (n : Nat)
  | zuuid (n : Nat)
  | src (n : Nat)
  | hash (n : Nat)
deriving DecidableEq

/-- What the caller's `fty_uuid_t*` points to. -/
structure Pointed where
  object : Nat
  zuuid : Nat
  value : FtyUuid

structure Caller where
  self : Option Pointed
  objects : Nat
  zuuids : Nat
  hashes : Nat

def Caller.start : Caller := ⟨none, 0, 0, 0⟩

inductive Op
  /-- `fty_uuid_new`, with the bytes that `zuuid_new` draws -/
  | new (drawn : Octets)
  | call (c : Call)
  /-- `fty_uuid_destroy`, which nulls the pointer -/
  | destroy

/-- How a call comes by its answer. -/
inductive Work
  | marks
  | calculates
  | generates
deriving DecidableEq

def calculateWork (mfr model serial : Option CString) : Work :=
  if mfr.isSome ∧ model.isSome ∧ serial.isSome then .calculates else .marks

def Call.work : Call → Work
  | .calculate mfr model serial => calculateWork mfr model serial
  | .generate _ => .generates
  | .create ext assetType _ =>
    if assetType.bytes = ofString "device" then
      calculateWork (ext (ofString "manufacturer")) (ext (ofString "model"))
        (ext (ofString "serial_no"))
    else .generates

/-- A pointer to an object is not overwritten with a new one. -/
def Caller.step (sha1 : Bytes → Digest) (s : Caller) : Op → Option Caller
  | .new drawn =>
    if s.self.isSome then none
    else some ⟨some ⟨s.objects, s.zuuids, ⟨drawn⟩⟩, s.objects + 1, s.zuuids + 1, s.hashes⟩
  | .call c =>
    (FtyUuid.step sha1 (s.self.map Pointed.value) c).map fun value =>
      match s.self, value with
      | some p, some value =>
        match c.work with
        | .marks => { s with self := some { p with value := value } }
        | .calculates =>
          { s with self := some { p with value := value }, hashes := s.hashes + 1 }
        | .generates =>
          { s with self := some ⟨p.object, s.zuuids, value⟩, zuuids := s.zuuids + 1 }
      | _, _ => s
  | .destroy => some { s with self := none }

/-- What `fty_uuid_calculate` does, when nothing is null. -/
def calculateEntries (p : Pointed) (n : Nat) : List (Entry Allocated) :=
  [.made (.src n), .made (.hash n), .used (.src n), .used (.hash n), .used (.object p.object),
    .used (.zuuid p.zuuid), .used (.hash n), .destroyed (.hash n), .destroyed (.src n),
    .used (.object p.object), .used (.zuuid p.zuuid)]

def generateEntries (p : Pointed) (n : Nat) : List (Entry Allocated) :=
  [.used (.object p.object), .destroyed (.zuuid p.zuuid), .made (.zuuid n),
    .used (.object p.object), .used (.zuuid n)]

def destroyEntries (p : Pointed) : List (Entry Allocated) :=
  [.used (.object p.object), .destroyed (.zuuid p.zuuid), .destroyed (.object p.object)]

def Caller.entries (s : Caller) : Op → List (Entry Allocated)
  | .new _ => [.made (.object s.objects), .made (.zuuid s.zuuids), .used (.object s.objects)]
  | .call c =>
    match s.self, c.work with
    | none, _ | some _, .marks => []
    | some p, .calculates => calculateEntries p s.hashes
    | some p, .generates => generateEntries p s.zuuids
  | .destroy =>
    match s.self with
    | none => []
    | some p => destroyEntries p

/-- Whether the text an answer points to is still that of the answer's zuuid. -/
def Op.keeps : Op → Bool
  | .new _ => true
  | .call c => c.work ≠ .generates
  | .destroy => false

/-- All an operation can do. -/
inductive Stepped (s : Caller) : Op → List (Entry Allocated) → Caller → Prop
  | new (drawn : Octets) (hself : s.self = none) :
      Stepped s (.new drawn)
        [.made (.object s.objects), .made (.zuuid s.zuuids), .used (.object s.objects)]
        ⟨some ⟨s.objects, s.zuuids, ⟨drawn⟩⟩, s.objects + 1, s.zuuids + 1, s.hashes⟩
  | idle (op : Op)
      (hop : (∃ c, op = .call c ∧ c.work ≠ .generates) ∨ op = .destroy ∧ s.self = none) :
      Stepped s op [] s
  | calculates (c : Call) (p : Pointed) (value : FtyUuid) (hself : s.self = some p)
      (hwork : c.work = .calculates) :
      Stepped s (.call c) (calculateEntries p s.hashes)
        { s with self := some { p with value := value }, hashes := s.hashes + 1 }
  | generates (c : Call) (p : Pointed) (value : FtyUuid) (hself : s.self = some p)
      (hwork : c.work = .generates) :
      Stepped s (.call c) (generateEntries p s.zuuids)
        { s with self := some ⟨p.object, s.zuuids, value⟩, zuuids := s.zuuids + 1 }
  | destroy (p : Pointed) (hself : s.self = some p) :
      Stepped s .destroy (destroyEntries p) { s with self := none }

section Steps

variable {sha1 : Bytes → Digest} {c : Call}

theorem calculateWork_ne (mfr model serial : Option CString) :
    calculateWork mfr model serial ≠ .generates := by
  rw [calculateWork]
  split <;> simp

theorem step_null {value : Option FtyUuid} (h : step sha1 none c = some value) :
    c.work ≠ .generates ∧ value = none := by
  cases c with
  | calculate mfr model serial =>
    cases h
    exact ⟨calculateWork_ne mfr model serial, rfl⟩
  | generate drawn => contradiction
  | create ext assetType drawn =>
    simp only [step, create] at h
    split at h
    · rename_i htype
      cases h
      rw [Call.work, if_pos htype]
      exact ⟨calculateWork_ne _ _ _, rfl⟩
    · contradiction

theorem step_value (sha1 : Bytes → Digest) (v : FtyUuid) (c : Call) :
    ∃ v', step sha1 (some v) c = some (some v') ∧ (c.work = .marks → v' = v) := by
  have hcalculate : ∀ mfr model serial, ∃ v', (calculate sha1 (some v) mfr model serial).2 =
      some v' ∧ (calculateWork mfr model serial = .marks → v' = v) := by
    intro mfr model serial
    cases mfr with
    | none => exact ⟨v, rfl, fun _ => rfl⟩
    | some mfr =>
      cases model with
      | none => exact ⟨v, rfl, fun _ => rfl⟩
      | some model =>
        cases serial with
        | none => exact ⟨v, rfl, fun _ => rfl⟩
        | some serial => exact ⟨_, rfl, by simp [calculateWork]⟩
  cases c with
  | calculate mfr model serial =>
    obtain ⟨v', hv, hmarks⟩ := hcalculate mfr model serial
    exact ⟨v', congrArg some hv, hmarks⟩
  | generate drawn => exact ⟨⟨drawn⟩, rfl, by simp [Call.work]⟩
  | create ext assetType drawn =>
    by_cases htype : assetType.bytes = ofString "device"
    · obtain ⟨v', hv, hmarks⟩ := hcalculate (ext (ofString "manufacturer"))
        (ext (ofString "model")) (ext (ofString "serial_no"))
      refine ⟨v', ?_, ?_⟩
      · simp only [step, create, if_pos htype, Option.map_some, hv]
      · rw [Call.work, if_pos htype]
        exact hmarks
    · refine ⟨⟨drawn⟩, ?_, ?_⟩
      · simp [step, create, if_neg htype, generate]
      · simp [Call.work, if_neg htype]

theorem step_cases {s t : Caller} {op : Op} (h : s.step sha1 op = some t) :
    Stepped s op (s.entries op) t := by
  cases op with
  | new drawn =>
    simp only [Caller.step] at h
    split at h
    · contradiction
    · rename_i hself
      cases h
      exact .new drawn (Option.not_isSome_iff_eq_none.mp hself)
  | call c =>
    obtain ⟨value, hvalue, ht⟩ := Option.map_eq_some_iff.mp h
    cases hself : s.self with
    | none =>
      rw [hself, Option.map_none] at hvalue
      obtain ⟨hwork, rfl⟩ := step_null hvalue
      simp only [hself] at ht
      subst ht
      simp only [Caller.entries, hself]
      exact .idle _ (Or.inl ⟨c, rfl, hwork⟩)
    | some p =>
      obtain ⟨v, hv, hmarks⟩ := step_value sha1 p.value c
      rw [hself, Option.map_some, hv] at hvalue
      cases hvalue
      simp only [hself] at ht
      simp only [Caller.entries, hself]
      cases hwork : c.work with
      | marks =>
        rw [hwork, hmarks hwork] at ht
        have hsame : s = t := by
          rw [← ht]
          cases s
          cases hself
          rfl
        rw [← hsame]
        exact .idle _ (Or.inl ⟨c, rfl, by simp [hwork]⟩)
      | calculates =>
        rw [hwork] at ht
        rw [← ht]
        exact .calculates c p v hself hwork
      | generates =>
        rw [hwork] at ht
        rw [← ht]
        exact .generates c p v hself hwork
  | destroy =>
    cases h
    cases hself : s.self with
    | none =>
      have hsame : { s with self := none } = s := by
        cases s
        cases hself
        rfl
      simp only [Caller.entries, hself, hsame]
      exact .idle _ (Or.inr ⟨rfl, hself⟩)
    | some p =>
      simp only [Caller.entries, hself]
      exact .destroy p hself

/-- What is pointed to has been allocated. -/
def Caller.Inv (s : Caller) : Prop :=
  ∀ p, s.self = some p → p.object < s.objects ∧ p.zuuid < s.zuuids

/-- There is the object that the pointer points to, with its zuuid, and nothing else. -/
def Caller.Allows (s : Caller) : Allocated → Life → Prop
  | .object n, l => Held (s.self.map Pointed.object) s.objects n l
  | .zuuid n, l => Held (s.self.map Pointed.zuuid) s.zuuids n l
  | .src n, l | .hash n, l => Held none s.hashes n l

theorem step_inv {s t : Caller} {op : Op} (hs : s.Inv) (h : s.step sha1 op = some t) : t.Inv := by
  intro q hq
  have hstep := step_cases h
  generalize s.entries op = entries at hstep
  cases hstep with
  | new drawn hself =>
    cases hq
    exact ⟨Nat.lt_succ_self _, Nat.lt_succ_self _⟩
  | idle => exact hs q hq
  | calculates c p value hself hwork =>
    cases hq
    exact hs p hself
  | generates c p value hself hwork =>
    cases hq
    exact ⟨(hs p hself).1, Nat.lt_succ_self _⟩
  | destroy p hself => contradiction

theorem new_allows {s : Caller} {o : Allocated} {l : Life} {value : FtyUuid} (hself : s.self = none)
    (hl : s.Allows o l) :
    ∃ l', life o l [.made (.object s.objects), .made (.zuuid s.zuuids),
        .used (.object s.objects)] = some l' ∧
      Caller.Allows ⟨some ⟨s.objects, s.zuuids, value⟩, s.objects + 1, s.zuuids + 1, s.hashes⟩
        o l' := by
  cases o with
  | object n =>
    simp only [Caller.Allows, hself] at hl
    refine hl.made ?_ ?_
    · intro hn
      simp [Entry.object, Ne.symm hn]
    · intro hn
      simp [Entry.object, Life.next, hn]
  | zuuid n =>
    simp only [Caller.Allows, hself] at hl
    refine hl.made ?_ ?_
    · intro hn
      simp [Entry.object, Ne.symm hn]
    · intro hn
      simp [Entry.object, Life.next, hn]
  | src n | hash n => exact ⟨l, by simp [Entry.object], hl⟩

theorem calculates_allows {s : Caller} {o : Allocated} {l : Life} {p : Pointed} {value : FtyUuid}
    (hself : s.self = some p) (hl : s.Allows o l) :
    ∃ l', life o l (calculateEntries p s.hashes) = some l' ∧ Caller.Allows
      { s with self := some { p with value := value }, hashes := s.hashes + 1 } o l' := by
  cases o with
  | object n =>
    simp only [Caller.Allows, hself] at hl
    refine hl.used ?_ ?_
    · intro hn
      simp [calculateEntries, Entry.object, Ne.symm hn]
    · intro hn
      simp [calculateEntries, Entry.object, Life.next, hn]
  | zuuid n =>
    simp only [Caller.Allows, hself] at hl
    refine hl.used ?_ ?_
    · intro hn
      simp [calculateEntries, Entry.object, Ne.symm hn]
    · intro hn
      simp [calculateEntries, Entry.object, Life.next, hn]
  | src n | hash n =>
    refine Held.brief hl ?_ ?_
    · intro hn
      simp [calculateEntries, Entry.object, Ne.symm hn]
    · intro hn
      simp [calculateEntries, Entry.object, Life.next, hn]

theorem generates_allows {s : Caller} {o : Allocated} {l : Life} {p : Pointed} {value : FtyUuid}
    (hs : s.Inv) (hself : s.self = some p) (hl : s.Allows o l) :
    ∃ l', life o l (generateEntries p s.zuuids) = some l' ∧ Caller.Allows
      { s with self := some ⟨p.object, s.zuuids, value⟩, zuuids := s.zuuids + 1 } o l' := by
  cases o with
  | object n =>
    simp only [Caller.Allows, hself] at hl
    refine hl.used ?_ ?_
    · intro hn
      simp [generateEntries, Entry.object, Ne.symm hn]
    · intro hn
      simp [generateEntries, Entry.object, Life.next, hn]
  | zuuid n =>
    simp only [Caller.Allows, hself] at hl
    -- the old one goes before the new one is made
    have hgone : ∃ l', life (Allocated.zuuid n) l
        [.used (.object p.object), .destroyed (.zuuid p.zuuid)] = some l' ∧
        Held none s.zuuids n l' := by
      refine hl.destroyed (hs p hself).2 ?_ ?_
      · intro hn
        simp [Entry.object, Ne.symm hn]
      · intro hn
        simp [Entry.object, Life.next, hn]
    obtain ⟨l₁, hlife₁, hl₁⟩ := hgone
    have hnew : ∃ l', life (Allocated.zuuid n) l₁
        [.made (.zuuid s.zuuids), .used (.object p.object), .used (.zuuid s.zuuids)] = some l' ∧
        Held (some s.zuuids) (s.zuuids + 1) n l' := by
      refine hl₁.made ?_ ?_
      · intro hn
        simp [Entry.object, Ne.symm hn]
      · intro hn
        simp [Entry.object, Life.next, hn]
    obtain ⟨l₂, hlife₂, hl₂⟩ := hnew
    refine ⟨l₂, ?_, hl₂⟩
    have hsplit : generateEntries p s.zuuids =
        [.used (.object p.object), .destroyed (.zuuid p.zuuid)] ++ [.made (.zuuid s.zuuids),
          .used (.object p.object), .used (.zuuid s.zuuids)] := rfl
    rw [hsplit, life_append, hlife₁, Option.bind_some, hlife₂]
  | src n | hash n => exact ⟨l, by simp [generateEntries, Entry.object], hl⟩

theorem destroy_allows {s : Caller} {o : Allocated} {l : Life} {p : Pointed} (hs : s.Inv)
    (hself : s.self = some p) (hl : s.Allows o l) :
    ∃ l', life o l (destroyEntries p) = some l' ∧
      Caller.Allows { s with self := none } o l' := by
  obtain ⟨hobject, hzuuid⟩ := hs p hself
  cases o with
  | object n =>
    simp only [Caller.Allows, hself] at hl
    refine hl.destroyed hobject ?_ ?_
    · intro hn
      simp [destroyEntries, Entry.object, Ne.symm hn]
    · intro hn
      simp [destroyEntries, Entry.object, Life.next, hn]
  | zuuid n =>
    simp only [Caller.Allows, hself] at hl
    refine hl.destroyed hzuuid ?_ ?_
    · intro hn
      simp [destroyEntries, Entry.object, Ne.symm hn]
    · intro hn
      simp [destroyEntries, Entry.object, Life.next, hn]
  | src n | hash n => exact ⟨l, by simp [destroyEntries, Entry.object], hl⟩

theorem step_allows {s t : Caller} {op : Op} (hs : s.Inv) (h : s.step sha1 op = some t) :
    t.Inv ∧ ∀ o l, s.Allows o l →
      ∃ l', life o l (s.entries op) = some l' ∧ t.Allows o l' := by
  refine ⟨step_inv hs h, ?_⟩
  intro o l hl
  have hstep := step_cases h
  generalize s.entries op = entries at hstep ⊢
  cases hstep with
  | new drawn hself => exact new_allows hself hl
  | idle => exact ⟨l, rfl, hl⟩
  | calculates c p value hself hwork => exact calculates_allows hself hl
  | generates c p value hself hwork => exact generates_allows hs hself hl
  | destroy p hself => exact destroy_allows hs hself hl

/-- Another zuuid than the one numbered `z` is in use now, and always will be. -/
def Caller.Left (z : Nat) (s : Caller) : Prop :=
  z < s.zuuids ∧ s.self.map Pointed.zuuid ≠ some z

theorem step_left {s t : Caller} {op : Op} {z : Nat} (hs : s.Left z)
    (h : s.step sha1 op = some t) : t.Left z := by
  obtain ⟨hz, hleft⟩ := hs
  have hstep := step_cases h
  generalize s.entries op = entries at hstep
  cases hstep with
  | new drawn hnone => exact ⟨Nat.lt_succ_of_lt hz, by simpa using Nat.ne_of_gt hz⟩
  | idle => exact ⟨hz, hleft⟩
  | calculates c p value hself hwork =>
    rw [hself] at hleft
    exact ⟨hz, hleft⟩
  | generates c p value hself hwork =>
    exact ⟨Nat.lt_succ_of_lt hz, by simpa using Nat.ne_of_gt hz⟩
  | destroy p hself => exact ⟨hz, by simp⟩

theorem step_keeps {s t : Caller} {op : Op} {p : Pointed} (hself : s.self = some p)
    (hkeeps : op.keeps = true) (h : s.step sha1 op = some t) :
    ∃ q, t.self = some q ∧ q.zuuid = p.zuuid := by
  have hstep := step_cases h
  generalize s.entries op = entries at hstep
  cases hstep with
  | new drawn hnone =>
    rw [hself] at hnone
    contradiction
  | idle => exact ⟨p, hself, rfl⟩
  | calculates c q value hq hwork =>
    rw [hself] at hq
    cases hq
    exact ⟨_, rfl, rfl⟩
  | generates c q value hq hwork => simp [Op.keeps, hwork] at hkeeps
  | destroy q hq => simp [Op.keeps] at hkeeps

theorem step_leaves {s t : Caller} {op : Op} {p : Pointed} (hs : s.Inv) (hself : s.self = some p)
    (hleaves : ¬op.keeps = true) (h : s.step sha1 op = some t) : t.Left p.zuuid := by
  have hlt := (hs p hself).2
  have hstep := step_cases h
  generalize s.entries op = entries at hstep
  cases hstep with
  | new drawn hnone => simp [Op.keeps] at hleaves
  | idle _ hop =>
    rcases hop with ⟨c, rfl, hwork⟩ | ⟨rfl, hnone⟩
    · simp [Op.keeps, hwork] at hleaves
    · rw [hself] at hnone
      contradiction
  | calculates c q value hq hwork => simp [Op.keeps, hwork] at hleaves
  | generates c q value hq hwork =>
    exact ⟨Nat.lt_succ_of_lt hlt, by simpa using Nat.ne_of_gt hlt⟩
  | destroy q hq => exact ⟨hlt, by simp⟩

end Steps

variable {sha1 : Bytes → Digest} {s t : Caller} {ops : List Op}

theorem run_zuuid {p : Pointed} (hs : s.Inv) (hself : s.self = some p)
    (h : exec (Caller.step sha1) s ops = some t) :
    t.self.map Pointed.zuuid = some p.zuuid ↔ ∀ op ∈ ops, op.keeps = true := by
  induction ops generalizing s p with
  | nil =>
    cases h
    simp [hself]
  | cons op ops ih =>
    obtain ⟨u, hu, ht⟩ := exec_cons.mp h
    rw [List.forall_mem_cons]
    by_cases hkeeps : op.keeps = true
    · obtain ⟨q, hq, hzuuid⟩ := step_keeps hself hkeeps hu
      rw [← hzuuid, ih (step_inv hs hu) hq ht]
      exact ⟨fun hall => ⟨hkeeps, hall⟩, And.right⟩
    · have hleft : t.Left p.zuuid :=
        inv_of_exec (step_leaves hs hself hkeeps hu) (fun _ _ _ hr hv => step_left hr hv) ht
      exact ⟨fun hback => absurd hback hleft.2, fun hall => absurd hall.1 hkeeps⟩

theorem start_inv : Caller.start.Inv := by
  intro p hp
  contradiction

theorem start_allows (o : Allocated) : Caller.start.Allows o .unmade := by
  cases o with
  | object n | zuuid n | src n | hash n => simp [Caller.Allows, Held, Caller.start]

/-- What the caller's pointer leads to. -/
def Caller.reached (s : Caller) : List Allocated :=
  s.self.elim [] fun p => [.object p.object, .zuuid p.zuuid]

theorem alive_iff_reached {o : Allocated} {l : Life} (h : s.Allows o l) :
    l = .alive ↔ o ∈ s.reached := by
  cases o with
  | object n | zuuid n =>
    refine h.1.trans ?_
    cases hself : s.self with
    | none => simp [Caller.reached, hself]
    | some p => simp [Caller.reached, hself, eq_comm]
  | src n | hash n =>
    refine h.1.trans ?_
    cases hself : s.self with
    | none => simp [Caller.reached, hself]
    | some p => simp [Caller.reached, hself]

/-- What the functions allocate is used while it is there, is freed once, and is all
freed but for what the pointer leads to. An answer can be read, from the time when
`p` is pointed to, until a UUID is generated in its place or the object destroyed. -/
theorem answers_borrowed (sha1 : Bytes → Digest) (before after : List Op) {mid t : Caller}
    {ledger ledger' : List (Entry Allocated)} {p : Pointed}
    (hbefore : exec (logged (Caller.step sha1) Caller.entries) (Caller.start, []) before =
      some (mid, ledger))
    (hself : mid.self = some p)
    (hafter : exec (logged (Caller.step sha1) Caller.entries) (mid, ledger) after =
      some (t, ledger')) :
    (∀ o, ∃ l, life o .unmade ledger' = some l ∧ (l = .alive ↔ o ∈ t.reached)) ∧
      (life (.zuuid p.zuuid) .unmade ledger' = some .alive ↔ ∀ op ∈ after, op.keeps = true) := by
  have hlives : ∀ o, ∃ l, life o .unmade ledger' = some l ∧ t.Allows o l := by
    intro o
    have hrun := exec_append.mpr ⟨_, hbefore, hafter⟩
    exact life_of_run (fun _ _ _ hs ht => step_allows hs ht) start_inv hrun (start_allows o)
  have hmid : mid.Inv :=
    inv_of_exec start_inv (fun _ _ _ hs ht => step_inv hs ht) (exec_of_logged hbefore)
  refine ⟨?_, ?_⟩
  · intro o
    obtain ⟨l, hlife, hl⟩ := hlives o
    exact ⟨l, hlife, alive_iff_reached hl⟩
  · obtain ⟨l, hlife, hl⟩ := hlives (.zuuid p.zuuid)
    rw [hlife, Option.some.injEq, ← run_zuuid hmid hself (exec_of_logged hafter)]
    exact hl.1

/-- The answer for a device is gone with the next one that is generated. -/
theorem answer_overwritten :
    ∃ ledger, exec (logged (Caller.step ipcSha1) Caller.entries) (Caller.start, [])
        [.new randomOctets, .call (.create ipcExt device randomOctets),
          .call (.calculate none none none), .call (.generate randomOctets)] =
        some (⟨some ⟨0, 1, ⟨randomOctets⟩⟩, 1, 2, 1⟩, ledger) ∧
      life (.zuuid 0) .unmade ledger ≠ some .alive := by
  refine ⟨_, rfl, ?_⟩
  intro halive
  have hrun := (answers_borrowed ipcSha1
    [.new randomOctets, .call (.create ipcExt device randomOctets)]
    [.call (.calculate none none none), .call (.generate randomOctets)] rfl rfl rfl).2
  have hkept := hrun.mp halive (.call (.generate randomOctets)) (by simp)
  contradiction

end FtyCommonMlm.FtyUuid
