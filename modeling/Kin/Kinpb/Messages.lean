/-
  Kin.Kinpb.Messages

  **THE WIRE MESSAGES** (`proto/kin.proto`, `kinpb/kin.pb.go`) and their
  protobuf encoding.

  An `Envelope` carries at most one payload.  `marshal` is the proto3 wire
  format: fields in number order, scalar fields left out at their default,
  a message field always written; it refuses a string field that is not valid
  UTF-8.  The two handshake messages of the schema are never built or read by
  the code and have no constructor here.
-/
import Kin.Lib.GoStd

namespace Kin

open Kin.Lib

/-- SHA-256 of a node's public key. -/
abbrev NodeID := Bytes 32

/-- SHA-256 of a file's content. -/
abbrev FileID := Bytes 32

end Kin

namespace Kin.Kinpb

open Kin.Lib

/-! ## §1. The messages. -/

structure FileRequest where
  fileId : GoString
  deriving DecidableEq, Repr

structure FileResponse where
  fileId : GoString
  size : Int
  notFound : Bool
  deriving DecidableEq, Repr

structure FileChunk where
  fileId : GoString
  data : GoString
  eof : Bool
  deriving DecidableEq, Repr

structure Error where
  code : GoString
  message : GoString
  deriving DecidableEq, Repr

structure RelayRegister where
  nodeId : GoString
  publicKey : GoString
  listenPort : UInt32
  deriving DecidableEq, Repr

structure RelayRegistered where
  externalAddr : GoString
  deriving DecidableEq, Repr

structure RelayConnect where
  targetNodeId : GoString
  deriving DecidableEq, Repr

structure RelayRendezvous where
  peerNodeId : GoString
  peerPublicKey : GoString
  peerExternalAddr : GoString
  deriving DecidableEq, Repr

structure RelayError where
  reason : GoString
  deriving DecidableEq, Repr

structure CatalogFile where
  fileId : GoString
  name : GoString
  size : Int
  modTimeUnix : Int
  ownerNodeId : GoString
  deleted : Bool
  deriving DecidableEq, Repr

structure CatalogOffer where
  files : List CatalogFile
  deriving DecidableEq, Repr

structure CatalogAck where
  receivedCount : UInt32
  deriving DecidableEq, Repr

/-- The `oneof payload` of an envelope. -/
inductive Payload where
  | fileRequest (m : FileRequest)
  | fileResponse (m : FileResponse)
  | fileChunk (m : FileChunk)
  | relayRegister (m : RelayRegister)
  | relayRegistered (m : RelayRegistered)
  | relayConnect (m : RelayConnect)
  | relayRendezvous (m : RelayRendezvous)
  | relayError (m : RelayError)
  | catalogOffer (m : CatalogOffer)
  | catalogAck (m : CatalogAck)
  | error (m : Error)
  deriving DecidableEq, Repr

/-- An envelope; the empty message has no payload. -/
structure Envelope where
  payload : Option Payload
  deriving DecidableEq, Repr

/-- What `fmt` prints for the payload's dynamic type under `%T`. -/
def Envelope.goType (env : Envelope) : String :=
  match env.payload with
  | none => "<nil>"
  | some (.fileRequest _) => "*kinpb.Envelope_FileRequest"
  | some (.fileResponse _) => "*kinpb.Envelope_FileResponse"
  | some (.fileChunk _) => "*kinpb.Envelope_FileChunk"
  | some (.relayRegister _) => "*kinpb.Envelope_RelayRegister"
  | some (.relayRegistered _) => "*kinpb.Envelope_RelayRegistered"
  | some (.relayConnect _) => "*kinpb.Envelope_RelayConnect"
  | some (.relayRendezvous _) => "*kinpb.Envelope_RelayRendezvous"
  | some (.relayError _) => "*kinpb.Envelope_RelayError"
  | some (.catalogOffer _) => "*kinpb.Envelope_CatalogOffer"
  | some (.catalogAck _) => "*kinpb.Envelope_CatalogAck"
  | some (.error _) => "*kinpb.Envelope_Error"

/-! ## §2. The proto3 wire format. -/

/-- A base-128 varint of at most `fuel` bytes; ten hold every 64-bit value. -/
def varintBytes : (fuel : Nat) → Nat → GoString
  | 0, _ => []
  | fuel + 1, n =>
    if n < 128 then [n.toUInt8]
    else (n % 128 + 128).toUInt8 :: varintBytes fuel (n / 128)

/-- A 64-bit varint. -/
def varint (n : Nat) : GoString := varintBytes 10 n

/-- A length-delimited field, left out when empty. -/
def bytesField (num : Nat) (b : GoString) : GoString :=
  if b = [] then [] else varint (8 * num + 2) ++ varint b.length ++ b

/-- A message field, written even when the message is empty. -/
def messageField (num : Nat) (b : GoString) : GoString :=
  varint (8 * num + 2) ++ varint b.length ++ b

/-- An unsigned field, left out when zero. -/
def uintField (num n : Nat) : GoString :=
  if n = 0 then [] else varint (8 * num) ++ varint n

/-- An `int64` field: the two's complement bit pattern as a varint. -/
def intField (num : Nat) (v : Int) : GoString := uintField num (v % 2 ^ 64).toNat

/-- A `bool` field, left out when false. -/
def boolField (num : Nat) (b : Bool) : GoString := uintField num (if b then 1 else 0)

/-- Valid UTF-8: JSON has nothing to replace in it. -/
def validUTF8 (s : GoString) : Bool := decide (jsonString s = s)

def CatalogFile.encode (f : CatalogFile) : GoString :=
  bytesField 1 f.fileId ++ bytesField 2 f.name ++ intField 3 f.size
    ++ intField 4 f.modTimeUnix ++ bytesField 5 f.ownerNodeId ++ boolField 6 f.deleted

/-- The payload's field of the envelope. -/
def Payload.encode : Payload → GoString
  | .fileRequest m => messageField 3 (bytesField 1 m.fileId)
  | .fileResponse m =>
    messageField 4 (bytesField 1 m.fileId ++ intField 2 m.size ++ boolField 3 m.notFound)
  | .fileChunk m =>
    messageField 5 (bytesField 1 m.fileId ++ bytesField 2 m.data ++ boolField 3 m.eof)
  | .relayRegister m =>
    messageField 6
      (bytesField 1 m.nodeId ++ bytesField 2 m.publicKey ++ uintField 3 m.listenPort.toNat)
  | .relayRegistered m => messageField 7 (bytesField 1 m.externalAddr)
  | .relayConnect m => messageField 8 (bytesField 1 m.targetNodeId)
  | .relayRendezvous m =>
    messageField 9
      (bytesField 1 m.peerNodeId ++ bytesField 2 m.peerPublicKey
        ++ bytesField 3 m.peerExternalAddr)
  | .relayError m => messageField 10 (bytesField 1 m.reason)
  | .catalogOffer m =>
    messageField 11 (m.files.flatMap (fun f => messageField 1 f.encode))
  | .catalogAck m => messageField 12 (uintField 1 m.receivedCount.toNat)
  | .error m => messageField 15 (bytesField 1 m.code ++ bytesField 2 m.message)

/-- Every `string` field of the payload is valid UTF-8. -/
def Payload.stringsOK : Payload → Bool
  | .relayRegistered m => validUTF8 m.externalAddr
  | .relayRendezvous m => validUTF8 m.peerExternalAddr
  | .relayError m => validUTF8 m.reason
  | .catalogOffer m => m.files.all (fun f => validUTF8 f.name)
  | .error m => validUTF8 m.code && validUTF8 m.message
  | _ => true

/-- `proto.Marshal(env)`. -/
def Envelope.marshal (env : Envelope) : Except String GoString :=
  match env.payload with
  | none => .ok []
  | some p =>
    if p.stringsOK then .ok p.encode
    else .error "string field contains invalid UTF-8"

example : ({ payload := some (.fileRequest ⟨[7, 8]⟩) } : Envelope).marshal
    = .ok [0x1A, 4, 0x0A, 2, 7, 8] := by decide

end Kin.Kinpb
