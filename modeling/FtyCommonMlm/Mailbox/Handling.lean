import FtyCommonMlm.Lib.Ledger
import FtyCommonMlm.Mailbox.BasicServer

namespace FtyCommonMlm.MlmBasicMailboxServer
open Ledger
open Bytes (ofString)

/-- What `handleMailbox` makes for the message with a number: the strings it pops,
by their place in the message, and the reply. -/
inductive Temporary
  | string (n index : Nat)
  | reply (n : Nat)
deriving DecidableEq

def Temporary.number : Temporary → Nat
  | .string n _ | .reply n => n

/-- A mailbox message, and how everything behaves while it is handled. -/
structure Handling where
  subject : Bytes
  sender : Bytes
  message : Zmsg
  handleRequest : HandleRequest
  /-- What `mlm_client_sendto` returns, and whether it takes the reply. -/
  rv : Int
  taken : Bool

/-- The guard of each param destroys it at the end of its turn. -/
def params (n count : Nat) : List (Entry Temporary) :=
  (List.range count).flatMap fun i =>
    [.made (.string n (i + 1)), .used (.string n (i + 1)), .destroyed (.string n (i + 1))]

def replied (n : Nat) (results : List Bytes) (taken : Bool) : List (Entry Temporary) :=
  .made (.reply n) :: .used (.reply n) :: results.map (fun _ => .used (.reply n)) ++
  .used (.reply n) :: if taken then [.passed (.reply n)] else []

/-- What `handleMailbox` does with what it makes. -/
def temporaries (n : Nat) (h : Handling) : List (Entry Temporary) :=
  if h.subject.cStr ≠ ofString "REQUEST" then [] else
  match h.message.popstr with
  -- ptrCorrelationId is null, and the guard has nothing to destroy
  | (none, _) => params n (h.message.size - 1)
  | (some str, message) =>
    .made (.string n 0) :: params n (h.message.size - 1) ++ [.used (.string n 0)] ++
    (if str.cStr = [] then [] else
      match h.handleRequest (senderName h.sender.cStr) (message.map Bytes.cStr) with
      | .error _ => []
      | .ok [] => []
      | .ok results => replied n results h.taken) ++
    [.destroyed (.string n 0)]

/-- The call has something for `mlm_client_sendto` to take. -/
def Handling.replies (name : Bytes) (h : Handling) : Bool :=
  (handleMailbox name h.subject h.sender h.message h.handleRequest h.rv).reply.isSome

section Entries

variable {n : Nat} {l : Life} {results : List Bytes} {taken : Bool}

theorem params_object {count : Nat} {e : Entry Temporary} (h : e ∈ params n count) :
    ∃ i, e.object = .string n (i + 1) := by
  obtain ⟨i, _, hi⟩ := List.mem_flatMap.mp h
  simp only [List.mem_cons, List.not_mem_nil, or_false] at hi
  rcases hi with rfl | rfl | rfl <;> exact ⟨i, rfl⟩

theorem life_params (count i : Nat) :
    life (.string n (i + 1)) .unmade (params n count) =
      some (if i < count then .gone else .unmade) := by
  induction count with
  | zero => rfl
  | succ count ih =>
    have hsnoc : params n (count + 1) = params n count ++
        [.made (.string n (count + 1)), .used (.string n (count + 1)),
          .destroyed (.string n (count + 1))] := by
      simp [params, List.range_succ]
    rw [hsnoc, life_append, ih, Option.bind_some]
    by_cases hi : count = i
    · subst hi
      simp [Entry.object, Life.next]
    · have hlt : i < count + 1 ↔ i < count := by omega
      simp [Entry.object, hi, hlt]

theorem replied_object {e : Entry Temporary} (h : e ∈ replied n results taken) :
    e.object = .reply n := by
  simp only [replied, List.cons_append, List.mem_cons, List.mem_append, List.mem_map] at h
  rcases h with rfl | rfl | ⟨_, _, rfl⟩ | rfl | h
  · rfl
  · rfl
  · rfl
  · rfl
  · split at h
    · rw [List.mem_singleton.mp h]
      rfl
    · contradiction

theorem life_replied : life (.reply n) .unmade (replied n results taken) =
    some (if taken then .gone else .alive) := by
  have hfilled : life (.reply n) .alive (results.map fun _ => Entry.used (Temporary.reply n)) =
      some .alive := life_of_forall_used (by simp)
  unfold replied
  generalize (results.map fun _ => Entry.used (Temporary.reply n)) = frames at hfilled
  cases taken <;> simp [Entry.object, Life.next, life_append, hfilled]

/-- Nothing is made, or the string of the correlation id is there while all the
rest is made. -/
theorem temporaries_cases (name : Bytes) (n : Nat) (h : Handling) :
    (temporaries n h = [] ∧ h.replies name = false) ∨
    ∃ count entries, temporaries n h = .made (.string n 0) :: params n count ++
        [.used (.string n 0)] ++ entries ++ [.destroyed (.string n 0)] ∧
      (entries = [] ∧ h.replies name = false ∨
        ∃ results, entries = replied n results h.taken ∧ h.replies name = true) := by
  by_cases hsubject : h.subject.cStr = ofString "REQUEST"
  · cases hmessage : h.message with
    | nil =>
      refine Or.inl ⟨by simp [temporaries, hsubject, hmessage, Zmsg.popstr, Zmsg.size, params], ?_⟩
      simp [Handling.replies, handleMailbox, hsubject, hmessage, Zmsg.popstr, Zmsg.size,
        Zmsg.popStrings]
    | cons str message =>
      refine Or.inr ⟨_, _, by simp only [temporaries, hsubject, hmessage, Zmsg.popstr,
        ne_eq, not_true_eq_false, if_false]; rfl, ?_⟩
      by_cases hid : str.cStr = []
      · obtain ⟨_, hreply, _⟩ := handleMailbox_ignored name h.subject h.sender (str :: message)
          h.handleRequest h.rv (fun _ id frames he => by cases he; exact hid)
        refine Or.inl ⟨if_pos hid, ?_⟩
        simp [Handling.replies, hmessage, hreply]
      · obtain ⟨_, hreply, _⟩ := handleMailbox_request name h.sender str message
          h.handleRequest h.rv hid
        rw [if_neg hid, Handling.replies, hmessage, handleMailbox_subject hsubject, hreply]
        cases h.handleRequest (senderName h.sender.cStr) (message.map Bytes.cStr) with
        | error e => exact Or.inl ⟨rfl, rfl⟩
        | ok results =>
          cases results with
          | nil => exact Or.inl ⟨rfl, rfl⟩
          | cons r rs => exact Or.inr ⟨r :: rs, rfl, rfl⟩
  · refine Or.inl ⟨by simp [temporaries, hsubject], ?_⟩
    simp [Handling.replies, handleMailbox, hsubject]

end Entries

theorem temporaries_number (n : Nat) (h : Handling) :
    ∀ e ∈ temporaries n h, e.object.number = n := by
  intro e he
  rcases temporaries_cases [] n h with ⟨hnone, _⟩ | ⟨count, entries, hall, hentries⟩
  · rw [hnone] at he
    contradiction
  · rw [hall] at he
    simp only [List.cons_append, List.mem_cons, List.mem_append, List.not_mem_nil, or_false] at he
    rcases he with rfl | ((he | rfl) | he) | rfl
    · rfl
    · obtain ⟨i, hi⟩ := params_object he
      rw [hi]
      rfl
    · rfl
    · rcases hentries with ⟨rfl, _⟩ | ⟨results, rfl, _⟩
      · contradiction
      · rw [replied_object he]
        rfl
    · rfl

theorem life_string (n i : Nat) (h : Handling) :
    ∃ l, life (.string n i) .unmade (temporaries n h) = some l ∧ l ≠ .alive := by
  rcases temporaries_cases [] n h with ⟨hnone, _⟩ | ⟨count, entries, hall, hentries⟩
  · exact ⟨.unmade, by rw [hnone]; rfl, by simp⟩
  · have hother : ∀ l, life (.string n i) l entries = some l := by
      intro l
      rcases hentries with ⟨rfl, _⟩ | ⟨results, rfl, _⟩
      · rfl
      · apply life_of_forall_ne
        intro e he heo
        rw [replied_object he] at heo
        contradiction
    cases i with
    | zero =>
      have hparams : life (.string n 0) .alive (params n count) = some .alive := by
        apply life_of_forall_ne
        intro e he heo
        obtain ⟨i, hi⟩ := params_object he
        rw [hi] at heo
        cases heo
      exact ⟨.gone, by simp [hall, life_append, hparams, hother, Entry.object, Life.next], by simp⟩
    | succ i =>
      refine ⟨if i < count then .gone else .unmade, ?_, by split <;> simp⟩
      simp [hall, life_append, life_params, hother, Entry.object]

theorem life_reply (name : Bytes) (n : Nat) (h : Handling) :
    life (.reply n) .unmade (temporaries n h) =
      some (if h.replies name then if h.taken then .gone else .alive else .unmade) := by
  rcases temporaries_cases name n h with ⟨hnone, hreplies⟩ | ⟨count, entries, hall, hentries⟩
  · rw [hnone, hreplies]
    rfl
  · have hparams : life (.reply n) .unmade (params n count) = some .unmade := by
      apply life_of_forall_ne
      intro e he heo
      obtain ⟨i, hi⟩ := params_object he
      rw [hi] at heo
      cases heo
    rcases hentries with ⟨rfl, hreplies⟩ | ⟨results, rfl, hreplies⟩
    · simp [hall, hreplies, life_append, hparams, Entry.object]
    · simp [hall, hreplies, life_append, hparams, life_replied, Entry.object]

/-- What is left of the messages a server has handled are replies that have not
been taken. -/
theorem life_temporaries (name : Bytes) (hs : List Handling) (o : Temporary) :
    ∃ l, life o .unmade (parts temporaries 0 hs) = some l ∧
      (l = .alive ↔ ∃ n h, o = .reply n ∧ hs[n]? = some h ∧ h.replies name = true ∧
        h.taken = false) := by
  rw [life_parts temporaries_number (Nat.zero_add o.number).symm, Nat.zero_add]
  cases hget : hs[o.number]? with
  | none =>
    refine ⟨.unmade, rfl, ?_⟩
    constructor
    · intro h
      contradiction
    · intro hgiven
      obtain ⟨n, h, rfl, hn, _⟩ := hgiven
      rw [Temporary.number, hn] at hget
      contradiction
  | some h =>
    rw [Option.elim_some]
    cases o with
    | string n i =>
      obtain ⟨l, hlife, hl⟩ := life_string n i h
      refine ⟨l, hlife, fun halive => absurd halive hl, ?_⟩
      intro hgiven
      obtain ⟨m, h', hm, _⟩ := hgiven
      contradiction
    | reply n =>
      refine ⟨_, life_reply name n h, ?_⟩
      have hhere : hs[n]? = some h := hget
      constructor
      · intro halive
        refine ⟨n, h, rfl, hhere, ?_⟩
        split_ifs at halive with hreplies htaken
        exact ⟨hreplies, Bool.not_eq_true _ ▸ htaken⟩
      · intro hgiven
        obtain ⟨m, h', hm, hn, hreplies, htaken⟩ := hgiven
        cases hm
        rw [hhere] at hn
        cases hn
        rw [if_pos hreplies, htaken]
        rfl

/-- However many messages a server handles, whatever they are and whatever its
handler does, no string and no reply is used when it is not there or destroyed
twice, all strings are gone, and what is left behind are the replies that
`mlm_client_sendto` has not taken. -/
theorem handling_cleaned (name : Bytes) (hs : List Handling) :
    (∀ o, ∃ l, life o .unmade (parts temporaries 0 hs) = some l ∧
      (l = .alive ↔ ∃ n h, o = .reply n ∧ hs[n]? = some h ∧ h.replies name = true ∧
        h.taken = false)) ∧
    (Ledger.Clean (parts temporaries 0 hs) ↔
      ∀ h ∈ hs, h.replies name = true → h.taken = true) := by
  refine ⟨life_temporaries name hs, (clean_iff_none_left (life_temporaries name hs)).trans ?_⟩
  constructor
  · intro hnone h hh hreplies
    obtain ⟨n, hn⟩ := List.mem_iff_getElem?.mp hh
    by_contra htaken
    exact hnone (.reply n) ⟨n, h, rfl, hn, hreplies, Bool.not_eq_true _ ▸ htaken⟩
  · intro htaken o hleft
    obtain ⟨n, h, _, hn, hreplies, hnot⟩ := hleft
    have htrue := htaken h (List.mem_of_getElem? hn) hreplies
    rw [hnot] at htrue
    contradiction

end FtyCommonMlm.MlmBasicMailboxServer
