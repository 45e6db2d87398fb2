import FtyCommonMlm.Lib.Hex
import FtyCommonMlm.Czmq

namespace FtyCommonMlm
open Bytes (ofString)

namespace MlmSyncClient

/-- The `std::runtime_error`s of `syncRequestWithReply`. -/
inductive Error
  | nullClient
  | connecting (endpoint : Bytes)
  | interrupted
  | noCorrelationId
  | mismatchCorrelationId
deriving DecidableEq

def Error.what : Error → Bytes
  | .nullClient => ofString "Malamute error: NULL client pointer"
  | .connecting endpoint =>
    ofString "Malamute error: Error connecting to endpoint <" ++ endpoint ++ ofString ">"
  | .interrupted => ofString "Malamute error: zsys_interrupted"
  | .noCorrelationId => ofString "Malamute error: No correlation id"
  | .mismatchCorrelationId => ofString "Malamute error: Mismatch correlation id"

/-- How a call ends. `aborted` is the process stopping on a null argument:
an assertion of czmq, or the use of a null string. -/
inductive Outcome
  | returned (frames : List Bytes)
  | threw (e : Error)
  | aborted
deriving DecidableEq

-- sizeof(pid_t) * 2
def pidWidth : Nat := 4 * 2

/-- `<clientId>.[thread id in hexa]` -/
def uniqueId (clientId : Bytes) (threadId : UInt32) : Bytes :=
  clientId ++ ofString "." ++ Hex.padded pidWidth threadId.toNat

/-- The address the client connects with: the unique id as a C string. -/
def address (clientId : Bytes) (threadId : UInt32) : Bytes := (uniqueId clientId threadId).cStr

def request (uuid : Zuuid) (payload : List Bytes) : Zmsg :=
  (Zmsg.addstr [] uuid.text).addAll payload

/-- From `zmsg_size(recv)` to the end of the function, on what
`mlm_client_recv` returned. -/
def readReply (uuid : Zuuid) : Option Zmsg → Outcome
  | none => .aborted
  | some recv =>
    let numberOfFrame := recv.size
    if numberOfFrame = 0 then .threw .noCorrelationId else
    match recv.popstr with
    | (none, _) => .aborted
    | (some str, recv) =>
      if str.cStr ≠ uuid.text.cStr then .threw .mismatchCorrelationId else
      match recv.popStrings (numberOfFrame - 1) with
      | none => .aborted
      | some receivedFrames => .returned receivedFrames

theorem request_eq (uuid : Zuuid) (payload : List Bytes) :
    request uuid payload = uuid.text :: payload.map Bytes.cStr := by
  simp [request, Zmsg.addAll_eq, Zmsg.addstr, uuid.noNul.cStr_eq]

/-- A message is the reply to a call when its first frame is the call's
correlation id. -/
def Carries (uuid : Zuuid) (m : Zmsg) : Prop := ∃ frames, m.map Bytes.cStr = uuid.text :: frames

theorem carries_iff {uuid : Zuuid} {m : Zmsg} :
    Carries uuid m ↔ (m.map Bytes.cStr).head? = some uuid.text := by
  cases m <;> simp [Carries]

instance (uuid : Zuuid) (m : Zmsg) : Decidable (Carries uuid m) :=
  decidable_of_iff _ carries_iff.symm

theorem readReply_nil (uuid : Zuuid) : readReply uuid (some []) = .threw .noCorrelationId := rfl

theorem readReply_cons (uuid : Zuuid) (str : Bytes) (m : Zmsg) :
    readReply uuid (some (str :: m)) =
      if str.cStr = uuid.text then .returned (m.map Bytes.cStr)
      else .threw .mismatchCorrelationId := by
  have hpop : Zmsg.popStrings ((str :: m).length - 1) m = some (m.map Bytes.cStr) :=
    Zmsg.popStrings_length m
  by_cases hs : str.cStr = uuid.text <;>
    simp [readReply, Zmsg.size, Zmsg.popstr, uuid.noNul.cStr_eq, hs, Zmsg.popStrings_length]

/-- A normal return comes from a message with the call's own correlation id,
and returns every frame behind it. -/
theorem readReply_returned_iff {uuid : Zuuid} {m : Zmsg} {frames : List Bytes} :
    readReply uuid (some m) = .returned frames ↔
      m.map Bytes.cStr = uuid.text :: frames := by
  cases m with
  | nil => simp [readReply_nil]
  | cons str m =>
    rw [readReply_cons]
    by_cases hs : str.cStr = uuid.text <;> simp [hs]

theorem readReply_carries {uuid : Zuuid} {m : Zmsg} :
    (∃ frames, readReply uuid (some m) = .returned frames) ↔ Carries uuid m := by
  simp only [readReply_returned_iff, Carries]

theorem uniqueId_length (clientId : Bytes) (threadId : UInt32) :
    (uniqueId clientId threadId).length = clientId.length + 1 + pidWidth := by
  have hlt : threadId.toNat < 16 ^ pidWidth := threadId.toNat_lt
  have hw := Hex.length_padded (by decide) hlt
  have hdot : (ofString ".").length = 1 := rfl
  simp only [uniqueId, List.length_append, hw, hdot]

/-- Two calls share a unique id only when both their client id and their
thread are the same. -/
theorem uniqueId_inj {c d : Bytes} {s t : UInt32} (h : uniqueId c s = uniqueId d t) :
    c = d ∧ s = t := by
  have hlen := congrArg List.length h
  rw [uniqueId_length, uniqueId_length] at hlen
  simp only [uniqueId, List.append_assoc] at h
  obtain ⟨hc, hrest⟩ := List.append_inj h (by omega)
  have hhex := List.append_cancel_left hrest
  exact ⟨hc, UInt32.toNat_inj.mp (Hex.padded_injective pidWidth hhex)⟩

theorem address_eq {c : Bytes} (h : c.NoNul) (t : UInt32) : address c t = uniqueId c t :=
  ((h.append (by decide)).append (Hex.padded_noNul pidWidth _)).cStr_eq

theorem address_inj {c d : Bytes} {s t : UInt32} (hc : c.NoNul) (hd : d.NoNul)
    (h : address c s = address d t) : c = d ∧ s = t := by
  rw [address_eq hc, address_eq hd] at h
  exact uniqueId_inj h

end MlmSyncClient

end FtyCommonMlm
