import FtyCommonMlm.Mailbox.BasicServer

namespace FtyCommonMlm
open Bytes (ofString)
open MlmSyncClient (pidWidth)

/-- A `std::string` without NUL bytes. With a thread id behind it its size is
still a `size_t`. -/
structure ClientId where
  bytes : Bytes
  noNul : bytes.NoNul
  size : bytes.length + 1 + pidWidth < 2 ^ 64

namespace ClientId

/-- The address a thread's client connects with. `std::hex` prints the bits of a
`pid_t`. -/
def address (c : ClientId) (threadId : Int32) : Bytes :=
  MlmSyncClient.address c.bytes threadId.toUInt32

theorem eq_of_bytes {c d : ClientId} (h : c.bytes = d.bytes) : c = d := by
  cases c
  cases d
  cases h
  rfl

theorem address_eq (c : ClientId) (t : Int32) :
    c.address t = c.bytes ++ (ofString "." ++ Hex.padded pidWidth t.toUInt32.toNat) := by
  rw [address, MlmSyncClient.address_eq c.noNul, MlmSyncClient.uniqueId, List.append_assoc]

theorem address_noNul (c : ClientId) (t : Int32) : (c.address t).NoNul := Bytes.noNul_cStr _

theorem address_length (c : ClientId) (t : Int32) :
    (c.address t).length = c.bytes.length + 1 + pidWidth := by
  rw [address, MlmSyncClient.address_eq c.noNul, MlmSyncClient.uniqueId_length]

/-- The subtraction of the server is the one on numbers. -/
theorem address_sub (c : ClientId) (t : Int32) :
    (2 ^ 64 + (c.address t).length - pidWidth - 1) % 2 ^ 64 = c.bytes.length := by
  have hsize := c.size
  rw [address_length]
  omega

theorem senderName_address (c : ClientId) (t : Int32) :
    MlmBasicMailboxServer.senderName (c.address t) = c.bytes := by
  rw [MlmBasicMailboxServer.senderName, address_sub, address_eq, List.take_left]

/-- The server hands on the name it has taken from the address. -/
theorem handled_sender {name subject uniqueSender sender : Bytes} {message : Zmsg}
    {handleRequest : MlmBasicMailboxServer.HandleRequest} {rv : Int} {payload : List Bytes}
    {results : Except MlmBasicMailboxServer.Thrown (List Bytes)}
    (h : (MlmBasicMailboxServer.handleMailbox name subject uniqueSender message handleRequest
      rv).invoked = some (sender, payload, results)) :
    sender = MlmBasicMailboxServer.senderName uniqueSender.cStr := by
  by_cases hform : subject.cStr = ofString "REQUEST" ∧ ∃ id frames, message = id :: frames ∧
      id.cStr ≠ []
  · obtain ⟨hsubject, id, frames, rfl, hid⟩ := hform
    have hrequest := MlmBasicMailboxServer.handleMailbox_request name uniqueSender id frames
      handleRequest rv hid
    have hcut : MlmBasicMailboxServer.handleMailbox name subject uniqueSender (id :: frames)
        handleRequest rv = MlmBasicMailboxServer.handleMailbox name (ofString "REQUEST")
          uniqueSender (id :: frames) handleRequest rv := by
      have hliteral : (ofString "REQUEST").cStr = ofString "REQUEST" := rfl
      simp only [MlmBasicMailboxServer.handleMailbox, hsubject, hliteral]
    rw [hcut, hrequest.1] at h
    cases h
    rfl
  · have hignored := MlmBasicMailboxServer.handleMailbox_ignored name subject uniqueSender message
      handleRequest rv (by
        intro hsubject id frames hmessage
        apply Classical.byContradiction
        intro hid
        exact hform ⟨hsubject, id, frames, hmessage, hid⟩)
    rw [hignored.1] at h
    contradiction

theorem address_inj {c d : ClientId} {t u : Int32} (h : c.address t = d.address u) :
    c = d ∧ t = u := by
  obtain ⟨hbytes, hbits⟩ := MlmSyncClient.address_inj c.noNul d.noNul h
  exact ⟨eq_of_bytes hbytes, congrArg UInt32.toInt32 hbits⟩

/-- A request is handled for the client id its address was made from, whatever
that looks like and whatever the thread. No two clients or threads share an
address, and the server subtracts no more than there is. -/
theorem address_round_trip (c : ClientId) (t : Int32) :
    (Hex.padded pidWidth t.toUInt32.toNat).length = pidWidth ∧
    MlmBasicMailboxServer.senderName (c.address t) = c.bytes ∧
    (∀ name subject message handleRequest rv sender payload results,
      (MlmBasicMailboxServer.handleMailbox name subject (c.address t) message handleRequest
        rv).invoked = some (sender, payload, results) → sender = c.bytes) ∧
    (∀ d u, c.address t = d.address u → c = d ∧ t = u) ∧
    pidWidth + 1 ≤ (c.address t).length ∧
    (2 ^ 64 + (c.address t).length - pidWidth - 1) % 2 ^ 64 =
      (c.address t).length - pidWidth - 1 := by
  have hlength := address_length c t
  refine ⟨?width, senderName_address c t, ?handled, fun d u => address_inj, ?fits, ?exact⟩
  case width =>
    have hlt : t.toUInt32.toNat < 16 ^ pidWidth := t.toUInt32.toNat_lt
    exact Hex.length_padded (by decide) hlt
  case handled =>
    intro name subject message handleRequest rv sender payload results h
    rw [handled_sender h, (address_noNul c t).cStr_eq, senderName_address]
  case fits => omega
  case exact =>
    rw [address_sub]
    omega

/-- A client id that ends like an address does. -/
def dotted : ClientId := ⟨ofString "ui.0000000b", by decide, by decide⟩

theorem dotted_id_round_trip :
    dotted.address (-2) = ofString "ui.0000000b.fffffffe" ∧
    MlmBasicMailboxServer.senderName (ofString "ui.0000000b.fffffffe") = ofString "ui.0000000b" := by
  have haddress : dotted.address (-2) = ofString "ui.0000000b.fffffffe" := by decide
  have hround := address_round_trip dotted (-2)
  rw [haddress] at hround
  exact ⟨haddress, hround.2.1⟩

end ClientId

end FtyCommonMlm
