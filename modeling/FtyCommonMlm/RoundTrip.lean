import FtyCommonMlm.Mailbox.BasicServer
import FtyCommonMlm.Stream.Client

namespace FtyCommonMlm.RoundTrip
open MlmSyncClient MlmBasicMailboxServer MlmStreamClient
open Bytes (ofString)

/-- The server's handling of the request of one call. -/
def serve (name sender : Bytes) (uuid : Zuuid) (payload : List Bytes)
    (handleRequest : HandleRequest) (rv : Int) : Handled :=
  handleMailbox name (ofString "REQUEST") sender (request uuid payload) handleRequest rv

variable {name sender : Bytes} {uuid : Zuuid} {payload results : List Bytes}
  {handleRequest : HandleRequest} {rv : Int}

theorem serve_eq :
    let ran := handleRequest (senderName sender.cStr) (payload.map Bytes.cStr)
    (serve name sender uuid payload handleRequest rv).invoked =
        some (senderName sender.cStr, payload.map Bytes.cStr, ran) ∧
      (serve name sender uuid payload handleRequest rv).reply =
        replyFor sender.cStr uuid.text ran := by
  have hid : uuid.text.cStr ≠ [] := by
    rw [uuid.noNul.cStr_eq]
    exact uuid.nonempty
  obtain ⟨hinvoked, hreply, _⟩ := handleMailbox_request name sender uuid.text
    (payload.map Bytes.cStr) handleRequest rv hid
  rw [Bytes.map_cStr_map_cStr] at hinvoked hreply
  rw [uuid.noNul.cStr_eq] at hreply
  unfold serve
  rw [request_eq]
  exact ⟨hinvoked, hreply⟩

theorem served_payload_iff :
    (serve name sender uuid payload handleRequest rv).invoked.map (fun v => v.2.1) = some payload ↔
      ∀ s ∈ payload, s.NoNul := by
  rw [serve_eq.1, Option.map_some, Option.some.injEq]
  exact Bytes.map_cStr_eq_self_iff

theorem returned_results_iff (hne : results ≠ [])
    (hran : handleRequest (senderName sender.cStr) (payload.map Bytes.cStr) = .ok results) :
    (serve name sender uuid payload handleRequest rv).reply.map
        (fun r => readReply uuid (some r.2)) = some (.returned results) ↔
      ∀ s ∈ results, s.NoNul := by
  rw [serve_eq.2, hran]
  cases results with
  | nil => contradiction
  | cons r rs =>
    simp only [replyFor, Option.map_some, Option.some.injEq]
    rw [readReply_returned_iff, replyMessage_eq, uuid.noNul.cStr_eq, List.map_cons,
      uuid.noNul.cStr_eq, Bytes.map_cStr_map_cStr, List.cons.injEq]
    simp only [true_and]
    exact Bytes.map_cStr_eq_self_iff

theorem collected_payload_iff {cfg : Config} {rc : Calls} {m : StreamMsg}
    (hm : publish cfg payload rc = .ok m) :
    collect m = some payload ↔ ∀ s ∈ payload, s.NoNul := by
  rw [collect_eq, (publishOnBus_ok hm).2, Bytes.map_cStr_map_cStr, Option.some.injEq]
  exact Bytes.map_cStr_eq_self_iff

/-- A payload comes through unchanged, from a call to `handleRequest`, from
`handleRequest` to the call's return and from `publish` to a callback, just in
case none of its strings has a NUL byte. -/
theorem payload_unchanged_iff (payload : List Bytes) :
    (∀ name sender uuid handleRequest rv,
      (serve name sender uuid payload handleRequest rv).invoked.map (fun v => v.2.1) =
        some payload ↔ ∀ s ∈ payload, s.NoNul) ∧
    (payload ≠ [] → ∀ name sender uuid asked handleRequest rv,
      handleRequest (senderName sender.cStr) (asked.map Bytes.cStr) = .ok payload →
        ((serve name sender uuid asked handleRequest rv).reply.map
          (fun r => readReply uuid (some r.2)) = some (.returned payload) ↔
            ∀ s ∈ payload, s.NoNul)) ∧
    ∀ cfg rc m, publish cfg payload rc = .ok m →
      (collect m = some payload ↔ ∀ s ∈ payload, s.NoNul) := by
  refine ⟨?_, ?_, ?_⟩
  · intro name sender uuid handleRequest rv
    exact served_payload_iff
  · intro hne name sender uuid asked handleRequest rv hran
    exact returned_results_iff hne hran
  · intro cfg rc m hm
    exact collected_payload_iff hm

def sampleUuid : Zuuid := ⟨ofString "8c9d", by decide, by decide⟩

/-- The string "a", NUL, "b" arrives as "a" in all three directions. -/
theorem nul_byte_cuts_payload :
    (serve [] [] sampleUuid [[97, 0, 98]] (fun _ _ => .ok [[97, 0, 98]]) 0).invoked.map
      (fun v => v.2.1) = some [[97]] ∧
    (serve [] [] sampleUuid [] (fun _ _ => .ok [[97, 0, 98]]) 0).reply.map
      (fun r => readReply sampleUuid (some r.2)) = some (.returned [[97]]) ∧
    (publish localBroker [[97, 0, 98]] {}).toOption.bind collect = some [[97]] :=
  ⟨rfl, rfl, rfl⟩

end FtyCommonMlm.RoundTrip
