import FtyCommonMlm.Mailbox.SyncClient

namespace FtyCommonMlm
open Bytes (ofString)

namespace MlmBasicMailboxServer

/-- What `SyncServer::handleRequest` may throw. -/
inductive Thrown
  | exception (what : Bytes)
  | unknown
deriving DecidableEq

abbrev HandleRequest := Bytes → List Bytes → Except Thrown (List Bytes)

/-- What `handleMailbox` logs as an error: what a catch block caught, or a
reply that could not be sent. -/
inductive Error
  | correlationId (name : Bytes)
  | nullString
  | handler (e : Thrown)
  | sendFailed (name addr : Bytes)
deriving DecidableEq

def Error.what : Error → Bytes
  | .correlationId name => ofString "<" ++ name ++ ofString "> Correlation id frame is empty"
  | .nullString => ofString "basic_string: construction from null is not valid"
  | .handler (.exception what) => what
  | .handler .unknown => ofString "unknown"
  | .sendFailed name addr =>
    ofString "<" ++ name ++ ofString "> s_handle_mailbox: failed to send reply to " ++ addr

/-- The effects of one `handleMailbox`: the sender and payload `handleRequest`
ran on and what it did, the address and frames handed to `mlm_client_sendto`
with subject "REPLY", the error logged, and the value returned. -/
structure Handled where
  invoked : Option (Bytes × List Bytes × Except Thrown (List Bytes)) := none
  reply : Option (Bytes × Zmsg) := none
  logged : Option Error := none
  result : Bool := true
deriving DecidableEq

/-- The sender without its thread id. The subtraction is on `size_t`, and
`substr` stops at the end of the string. -/
def senderName (uniqueSender : Bytes) : Bytes :=
  uniqueSender.take ((2 ^ 64 + uniqueSender.length - MlmSyncClient.pidWidth - 1) % 2 ^ 64)

def replyMessage (correlationId : Bytes) (results : List Bytes) : Zmsg :=
  (Zmsg.addstr [] correlationId).addAll results

/-- `rv` is what `mlm_client_sendto` returns if it is called. -/
def handleMailbox (name subject sender : Bytes) (message : Zmsg)
    (handleRequest : HandleRequest) (rv : Int) : Handled :=
  -- ignore none "REQUEST" message
  if subject.cStr ≠ ofString "REQUEST" then {} else
  let uniqueSender := sender.cStr
  let numberOfFrame := message.size
  let (ptrCorrelationId, message) := message.popstr
  match message.popStrings (numberOfFrame - 1) with
  | none => { logged := some .nullString }
  | some payload =>
    let correlationId := match ptrCorrelationId with
      | none => []
      | some str => str.cStr
    if correlationId = [] then { logged := some (.correlationId name) } else
    let sender := senderName uniqueSender
    let results := handleRequest sender payload
    match results with
    | .error e => { invoked := some (sender, payload, results), logged := some (.handler e) }
    | .ok [] => { invoked := some (sender, payload, results) }
    | .ok frames =>
      { invoked := some (sender, payload, results)
        reply := some (uniqueSender, replyMessage correlationId frames)
        logged := if rv = 0 then none else some (.sendFailed name uniqueSender) }

theorem replyMessage_eq (correlationId : Bytes) (results : List Bytes) :
    replyMessage correlationId results = correlationId.cStr :: results.map Bytes.cStr := by
  simp [replyMessage, Zmsg.addAll_eq, Zmsg.addstr]

/-- The reply a handler's outcome calls for. -/
def replyFor (sender correlationId : Bytes) :
    Except Thrown (List Bytes) → Option (Bytes × Zmsg)
  | .error _ => none
  | .ok [] => none
  | .ok (r :: rs) => some (sender, replyMessage correlationId (r :: rs))

theorem replyFor_eq_some {sender correlationId addr : Bytes} {m : Zmsg}
    {o : Except Thrown (List Bytes)} (h : replyFor sender correlationId o = some (addr, m)) :
    ∃ results, results ≠ [] ∧ o = .ok results ∧ addr = sender ∧
      m = correlationId.cStr :: results.map Bytes.cStr := by
  match o with
  | .error _ => simp [replyFor] at h
  | .ok [] => simp [replyFor] at h
  | .ok (r :: rs) =>
    simp only [replyFor, Option.some.injEq, Prod.mk.injEq] at h
    exact ⟨r :: rs, by simp, rfl, h.1.symm, by rw [← h.2, replyMessage_eq]⟩

/-- The subject is looked at as a C string. -/
theorem handleMailbox_subject {subject : Bytes} (h : subject.cStr = ofString "REQUEST")
    (name sender : Bytes) (message : Zmsg) (handleRequest : HandleRequest) (rv : Int) :
    handleMailbox name subject sender message handleRequest rv =
      handleMailbox name (ofString "REQUEST") sender message handleRequest rv := by
  have hliteral : (ofString "REQUEST").cStr = ofString "REQUEST" := rfl
  simp only [handleMailbox, h, hliteral]

/-- On a well-formed request the handler runs once, on the frames behind the
correlation id, and its outcome alone decides whether a reply is sent. -/
theorem handleMailbox_request (name sender id : Bytes) (frames : Zmsg)
    (handleRequest : HandleRequest) (rv : Int) (hid : id.cStr ≠ []) :
    let ran := handleRequest (senderName sender.cStr) (frames.map Bytes.cStr)
    let handled := handleMailbox name (ofString "REQUEST") sender (id :: frames) handleRequest rv
    handled.invoked = some (senderName sender.cStr, frames.map Bytes.cStr, ran) ∧
    handled.reply = replyFor sender.cStr id.cStr ran ∧ handled.result = true := by
  have hsubject : (ofString "REQUEST").cStr = ofString "REQUEST" := rfl
  have hpop : Zmsg.popStrings (Zmsg.size (id :: frames) - 1) frames =
      some (frames.map Bytes.cStr) := Zmsg.popStrings_length frames
  intro ran handled
  simp only [handled, handleMailbox, hsubject, Zmsg.popstr, hpop, hid, ne_eq, not_true_eq_false,
    if_false]
  cases hran : ran with
  | error e =>
    simp only [ran] at hran
    simp [hran, replyFor]
  | ok results =>
    simp only [ran] at hran
    cases results <;> simp [hran, replyFor]

/-- A message that is no well-formed request is ignored. -/
theorem handleMailbox_ignored (name subject sender : Bytes) (message : Zmsg)
    (handleRequest : HandleRequest) (rv : Int)
    (h : subject.cStr = ofString "REQUEST" → ∀ id frames, message = id :: frames → id.cStr = []) :
    let handled := handleMailbox name subject sender message handleRequest rv
    handled.invoked = none ∧ handled.reply = none ∧ handled.result = true := by
  intro handled
  simp only [handled, handleMailbox]
  by_cases hsubject : subject.cStr = ofString "REQUEST"
  · rw [if_neg (not_not.mpr hsubject)]
    cases message with
    | nil => simp [Zmsg.popstr, Zmsg.size, Zmsg.popStrings]
    | cons id frames =>
      have hid := h hsubject id frames rfl
      have hpop : Zmsg.popStrings (Zmsg.size (id :: frames) - 1) frames =
          some (frames.map Bytes.cStr) := Zmsg.popStrings_length frames
      simp only [Zmsg.popstr, hpop, hid, if_true, and_self]
  · rw [if_pos hsubject]
    simp

end MlmBasicMailboxServer

end FtyCommonMlm
