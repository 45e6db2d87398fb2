import FtyCommonMlm.Mailbox.SyncClient

namespace FtyCommonMlm.MlmSyncClient
open Bytes (ofString)

/-- A call whose reply comes: what arrives in the mailbox during the call ahead
of the reply, and the reply with its payload. -/
structure Answered where
  uuid : Zuuid
  ahead : List Zmsg
  reply : Zmsg
  frames : List Bytes
  carries : reply.map Bytes.cStr = uuid.text :: frames

/-- The calls a thread makes with one client id, one after another, and so on
one mailbox. Each takes one message from it. A call that ends ahead of
`mlm_client_recv` takes none, and its reply is among the messages of a later
call. -/
def outcomes : List Zmsg → List Answered → List Outcome
  | _, [] => []
  | waiting, c :: calls =>
    let mailbox := waiting ++ c.ahead ++ [c.reply]
    readReply c.uuid mailbox.head? :: outcomes mailbox.tail calls

/-- Correlation ids are drawn afresh: nothing ahead of a call's reply carries
the call's id. -/
def Fresh : List Zmsg → List Answered → Prop
  | _, [] => True
  | waiting, c :: calls =>
    (∀ m ∈ waiting ++ c.ahead, ¬ Carries c.uuid m) ∧
      Fresh (waiting ++ c.ahead ++ [c.reply]).tail calls

theorem Answered.readReply_eq (c : Answered) :
    readReply c.uuid (some c.reply) = .returned c.frames :=
  readReply_returned_iff.mpr c.carries

/-- The one message the call takes is its reply only if the mailbox holds no
other. -/
theorem Answered.takes_reply_iff (c : Answered) {waiting : List Zmsg}
    (hforeign : ∀ m ∈ waiting ++ c.ahead, ¬ Carries c.uuid m) :
    readReply c.uuid (waiting ++ c.ahead ++ [c.reply]).head? = .returned c.frames ↔
      waiting ++ c.ahead = [] := by
  generalize waiting ++ c.ahead = others at hforeign
  cases others with
  | nil =>
    refine iff_of_true ?_ rfl
    exact c.readReply_eq
  | cons m others =>
    refine iff_of_false ?_ (List.cons_ne_nil m others)
    intro hreturned
    apply hforeign m List.mem_cons_self
    exact readReply_carries.mp ⟨c.frames, hreturned⟩

theorem tail_concat_eq_nil_iff (others : List Zmsg) (reply : Zmsg) :
    (others ++ [reply]).tail = [] ↔ others = [] := by
  cases others with
  | nil => simp
  | cons m others => simp

/-- A call returns its reply just in case nothing was waiting when the thread's
first call began and nothing came ahead of the reply of this call or of an
earlier one: a message left in the mailbox stands ahead of every later reply. -/
theorem returns_reply_iff (waiting : List Zmsg) (calls : List Answered)
    (hfresh : Fresh waiting calls) (k : Nat) (c : Answered) (hc : calls[k]? = some c) :
    (outcomes waiting calls)[k]? = some (.returned c.frames) ↔
      waiting = [] ∧ ∀ d ∈ calls.take (k + 1), d.ahead = [] := by
  induction calls generalizing waiting k with
  | nil => contradiction
  | cons d calls ih =>
    obtain ⟨hforeign, hrest⟩ := hfresh
    cases k with
    | zero =>
      rw [List.getElem?_cons_zero, Option.some.injEq] at hc
      subst hc
      simp only [outcomes, List.getElem?_cons_zero, Option.some.injEq,
        d.takes_reply_iff hforeign, List.append_eq_nil_iff, Nat.zero_add, List.take_succ_cons,
        List.take_zero, List.mem_singleton, forall_eq]
    | succ k =>
      -- what the first call leaves is what the others find waiting
      rw [List.getElem?_cons_succ] at hc
      have htail := ih _ hrest k hc
      rw [tail_concat_eq_nil_iff, List.append_eq_nil_iff] at htail
      simp only [outcomes, List.getElem?_cons_succ, htail, List.take_succ_cons (i := k + 1),
        List.mem_cons, forall_eq_or_imp, and_assoc]

def earlierUuid : Zuuid := ⟨ofString "4e5f", by decide, by decide⟩

def laterUuid : Zuuid := ⟨ofString "6a7b", by decide, by decide⟩

/-- Two calls, with nothing but their replies arriving. -/
def plainCalls : List Answered :=
  [⟨earlierUuid, [], [earlierUuid.text, ofString "one"], [ofString "one"], by decide⟩,
    ⟨laterUuid, [], [laterUuid.text, ofString "two"], [ofString "two"], by decide⟩]

theorem plain_call_returns_reply :
    (outcomes [] plainCalls)[1]? = some (.returned [ofString "two"]) := by
  refine (returns_reply_iff [] plainCalls ?_ 1 _ rfl).mpr ?_
  · simp [Fresh, plainCalls]
  · simp [plainCalls]

/-- One stray message waits, and neither call returns its reply. -/
theorem stray_message_fails_calls :
    Fresh [[ofString "stray"]] plainCalls ∧
    outcomes [[ofString "stray"]] plainCalls =
      [.threw .mismatchCorrelationId, .threw .mismatchCorrelationId] := by
  refine ⟨?_, by decide⟩
  simp only [Fresh, plainCalls]
  decide

end FtyCommonMlm.MlmSyncClient
