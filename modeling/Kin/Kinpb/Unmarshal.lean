/-
  Kin.Kinpb.Unmarshal

  **READING THE WIRE MESSAGES** (`proto/kin.proto`, `kinpb/kin.pb.go`).

  The schema as the decoder has it: what each field does to its message.  A later field
  overwrites an earlier one, a repeated field is appended, a member of the `oneof` is
  merged into the same member and replaces any other; a field whose number or wire
  type the schema does not have is skipped, at every level.

      bytes ──fields──→ envelope ──oneof──→ message ──fields──→ file, file, …

    • `Payload.reads_body` — the encoding is one of the byte strings a message is
      read from (`Payload.Reads`),
    • `Payload.decode_of_reads` — each of these gives the message,
    • `Envelope.unmarshal_of_reads`, `Envelope.unmarshal_marshal` — both for the
      envelope,
    • `Envelope.sound_of_unmarshal` — whatever is accepted could have been written.
-/
import Kin.Kinpb.Messages
import Kin.Lib.Protobuf

namespace Kin.Kinpb

open Kin.Lib Kin.Lib.Protobuf Kin.Lib.Protobuf.Schema

/-! ## §1. The schema. -/

def errInvalidUTF8 : String := "string field contains invalid UTF-8"

/-- `int64(v)`. -/
def int64 (n : Nat) : Int := Int.bmod n (2 ^ 64)

/-- A `string` field: its bytes must be UTF-8. -/
def putString {M : Type} (m : M) (b : GoString) : Except String M :=
  if validUTF8 b then .ok m else .error errInvalidUTF8

/-- The two handshake messages have the same fields. -/
structure Handshake where
  nodeId : GoString
  publicKey : GoString
  deriving DecidableEq, Repr

def Handshake.schema : Schema Handshake := fun f =>
  match f with
  | ⟨1, .len b⟩ => some (fun m => .ok { m with nodeId := b })
  | ⟨2, .len b⟩ => some (fun m => .ok { m with publicKey := b })
  | _ => none

def FileRequest.schema : Schema FileRequest := fun f =>
  match f with
  | ⟨1, .len b⟩ => some (fun m => .ok { m with fileId := b })
  | _ => none

def FileResponse.schema : Schema FileResponse := fun f =>
  match f with
  | ⟨1, .len b⟩ => some (fun m => .ok { m with fileId := b })
  | ⟨2, .varint n⟩ => some (fun m => .ok { m with size := int64 n })
  | ⟨3, .varint n⟩ => some (fun m => .ok { m with notFound := n != 0 })
  | _ => none

def FileChunk.schema : Schema FileChunk := fun f =>
  match f with
  | ⟨1, .len b⟩ => some (fun m => .ok { m with fileId := b })
  | ⟨2, .len b⟩ => some (fun m => .ok { m with data := b })
  | ⟨3, .varint n⟩ => some (fun m => .ok { m with eof := n != 0 })
  | _ => none

def Error.schema : Schema Error := fun f =>
  match f with
  | ⟨1, .len b⟩ => some (fun m => putString { m with code := b } b)
  | ⟨2, .len b⟩ => some (fun m => putString { m with message := b } b)
  | _ => none

def RelayRegister.schema : Schema RelayRegister := fun f =>
  match f with
  | ⟨1, .len b⟩ => some (fun m => .ok { m with nodeId := b })
  | ⟨2, .len b⟩ => some (fun m => .ok { m with publicKey := b })
  | ⟨3, .varint n⟩ => some (fun m => .ok { m with listenPort := n.toUInt32 })
  | _ => none

def RelayRegistered.schema : Schema RelayRegistered := fun f =>
  match f with
  | ⟨1, .len b⟩ => some (fun m => putString { m with externalAddr := b } b)
  | _ => none

def RelayConnect.schema : Schema RelayConnect := fun f =>
  match f with
  | ⟨1, .len b⟩ => some (fun m => .ok { m with targetNodeId := b })
  | _ => none

def RelayRendezvous.schema : Schema RelayRendezvous := fun f =>
  match f with
  | ⟨1, .len b⟩ => some (fun m => .ok { m with peerNodeId := b })
  | ⟨2, .len b⟩ => some (fun m => .ok { m with peerPublicKey := b })
  | ⟨3, .len b⟩ => some (fun m => putString { m with peerExternalAddr := b } b)
  | _ => none

def RelayError.schema : Schema RelayError := fun f =>
  match f with
  | ⟨1, .len b⟩ => some (fun m => putString { m with reason := b } b)
  | _ => none

def CatalogFile.schema : Schema CatalogFile := fun f =>
  match f with
  | ⟨1, .len b⟩ => some (fun m => .ok { m with fileId := b })
  | ⟨2, .len b⟩ => some (fun m => putString { m with name := b } b)
  | ⟨3, .varint n⟩ => some (fun m => .ok { m with size := int64 n })
  | ⟨4, .varint n⟩ => some (fun m => .ok { m with modTimeUnix := int64 n })
  | ⟨5, .len b⟩ => some (fun m => .ok { m with ownerNodeId := b })
  | ⟨6, .varint n⟩ => some (fun m => .ok { m with deleted := n != 0 })
  | _ => none

def CatalogFile.empty : CatalogFile := ⟨[], [], 0, 0, [], false⟩

def CatalogOffer.schema : Schema CatalogOffer := fun f =>
  match f with
  | ⟨1, .len b⟩ => some (fun m =>
    (CatalogFile.schema.decode .empty b).map (fun file => { m with files := m.files ++ [file] }))
  | _ => none

def CatalogAck.schema : Schema CatalogAck := fun f =>
  match f with
  | ⟨1, .varint n⟩ => some (fun m => .ok { m with receivedCount := n.toUInt32 })
  | _ => none

/-- What the `oneof` of an envelope holds.  The code has no case for the handshake
messages. -/
inductive OneOf where
  | handshake (m : Handshake)
  | handshakeAck (m : Handshake)
  | payload (p : Payload)
  deriving DecidableEq, Repr

/-- A member of the `oneof`: the bytes are merged into the message that is held, if
it is this member, and into an empty one otherwise. -/
def member {M : Type} (s : Schema M) (empty : M) (held : OneOf → Option M) (wrap : M → OneOf)
    (b : GoString) (cur : Option OneOf) : Except String (Option OneOf) :=
  (s.decode ((cur.bind held).getD empty) b).map (fun m => some (wrap m))

/-- A kind of payload: how its message is read, and where it stands in the `oneof`. -/
structure Kind where
  Msg : Type
  schema : Schema Msg
  empty : Msg
  wrap : Msg → Payload
  held : Payload → Option Msg
  eq_wrap : ∀ p m, held p = some m → p = wrap m := by
    intro p m h
    cases p <;> cases h
    rfl

def Kind.heldBy (k : Kind) : OneOf → Option k.Msg
  | .payload p => k.held p
  | _ => none

def Kind.put (k : Kind) : GoString → Option OneOf → Except String (Option OneOf) :=
  member k.schema k.empty k.heldBy (fun m => .payload (k.wrap m))

/-- The payloads by their numbers in the `oneof`. -/
def kinds : Nat → Option Kind
  | 3 => some {
      Msg := FileRequest, schema := FileRequest.schema, empty := ⟨[]⟩, wrap := .fileRequest
      held := fun p => match p with | .fileRequest m => some m | _ => none }
  | 4 => some {
      Msg := FileResponse, schema := FileResponse.schema, empty := ⟨[], 0, false⟩
      wrap := .fileResponse
      held := fun p => match p with | .fileResponse m => some m | _ => none }
  | 5 => some {
      Msg := FileChunk, schema := FileChunk.schema, empty := ⟨[], [], false⟩, wrap := .fileChunk
      held := fun p => match p with | .fileChunk m => some m | _ => none }
  | 6 => some {
      Msg := RelayRegister, schema := RelayRegister.schema, empty := ⟨[], [], 0⟩
      wrap := .relayRegister
      held := fun p => match p with | .relayRegister m => some m | _ => none }
  | 7 => some {
      Msg := RelayRegistered, schema := RelayRegistered.schema, empty := ⟨[]⟩
      wrap := .relayRegistered
      held := fun p => match p with | .relayRegistered m => some m | _ => none }
  | 8 => some {
      Msg := RelayConnect, schema := RelayConnect.schema, empty := ⟨[]⟩, wrap := .relayConnect
      held := fun p => match p with | .relayConnect m => some m | _ => none }
  | 9 => some {
      Msg := RelayRendezvous, schema := RelayRendezvous.schema, empty := ⟨[], [], []⟩
      wrap := .relayRendezvous
      held := fun p => match p with | .relayRendezvous m => some m | _ => none }
  | 10 => some {
      Msg := RelayError, schema := RelayError.schema, empty := ⟨[]⟩, wrap := .relayError
      held := fun p => match p with | .relayError m => some m | _ => none }
  | 11 => some {
      Msg := CatalogOffer, schema := CatalogOffer.schema, empty := ⟨[]⟩, wrap := .catalogOffer
      held := fun p => match p with | .catalogOffer m => some m | _ => none }
  | 12 => some {
      Msg := CatalogAck, schema := CatalogAck.schema, empty := ⟨0⟩, wrap := .catalogAck
      held := fun p => match p with | .catalogAck m => some m | _ => none }
  | 15 => some {
      Msg := Error, schema := Error.schema, empty := ⟨[], []⟩, wrap := .error
      held := fun p => match p with | .error m => some m | _ => none }
  | _ => none

def Envelope.schema : Schema (Option OneOf) := fun f =>
  match f with
  | ⟨1, .len b⟩ => some (member Handshake.schema ⟨[], []⟩
      (fun o => match o with | .handshake m => some m | _ => none) .handshake b)
  | ⟨2, .len b⟩ => some (member Handshake.schema ⟨[], []⟩
      (fun o => match o with | .handshakeAck m => some m | _ => none) .handshakeAck b)
  | ⟨num, .len b⟩ => (kinds num).map (fun k => k.put b)
  | _ => none

/-- `proto.Unmarshal(data, &env)`: what the envelope holds. -/
def unmarshalOneOf (data : GoString) : Except String (Option OneOf) :=
  Envelope.schema.decode none data

/-- The envelope for the switches of the code, in which a handshake message ends in
the default case as an empty envelope does. -/
def OneOf.envelope : Option OneOf → Envelope
  | some (.payload p) => ⟨some p⟩
  | _ => ⟨none⟩

def Envelope.unmarshal (data : GoString) : Except String Envelope :=
  (unmarshalOneOf data).map OneOf.envelope

/-! ## §2. The fields that are written. -/

theorem toNat_toUInt8 {n : Nat} (h : n < 256) : n.toUInt8.toNat = n := by
  simp only [Nat.toUInt8_eq, UInt8.toNat_ofNat']
  omega

theorem varint_varintBytes {k n : Nat} (h : n < 2 * 128 ^ k) :
    Varint k n (varintBytes (k + 1) n) := by
  induction k generalizing n with
  | zero =>
    have hn : n.toUInt8.toNat = n := toNat_toUInt8 (by omega)
    unfold varintBytes
    rw [if_pos (by omega)]
    have hfinal : Varint 0 n.toUInt8.toNat [n.toUInt8] := .final (by omega)
    rwa [hn] at hfinal
  | succ k ih =>
    unfold varintBytes
    by_cases hsmall : n < 128
    · have hn : n.toUInt8.toNat = n := toNat_toUInt8 (by omega)
      rw [if_pos hsmall]
      have hlast : Varint (k + 1) n.toUInt8.toNat [n.toUInt8] := .last (by omega)
      rwa [hn] at hlast
    · have hb : (n % 128 + 128).toUInt8.toNat = n % 128 + 128 := toNat_toUInt8 (by omega)
      have hrest : Varint k (n / 128) (varintBytes (k + 1) (n / 128)) := by
        apply ih
        rw [Nat.pow_succ] at h
        omega
      rw [if_neg hsmall]
      have hmore := Varint.more (b := (n % 128 + 128).toUInt8) (by omega) hrest
      rw [hb] at hmore
      have hval : n % 128 + 128 - 128 + 128 * (n / 128) = n := by omega
      rwa [hval] at hmore

theorem varint_varint {n : Nat} (h : n < 2 ^ 64) : Varint 9 n (varint n) :=
  varint_varintBytes h

/-- The numbers of the schema. -/
theorem isTag_varint {num typ : Nat} (hnum : 1 ≤ num ∧ num < 16) (htyp : typ < 8) :
    IsTag num typ (varint (8 * num + typ)) :=
  ⟨varint_varint (by omega), htyp, hnum.1, by omega⟩

theorem wire_len {num : Nat} {b : GoString} (hnum : 1 ≤ num ∧ num < 16)
    (hlen : b.length < 2 ^ 64) :
    Wire ⟨num, .len b⟩ (varint (8 * num + 2) ++ varint b.length ++ b) := by
  rw [List.append_assoc]
  exact .scalar (isTag_varint hnum (by decide)) (by omega) (.len (varint_varint hlen))

theorem wire_varint {num n : Nat} (hnum : 1 ≤ num ∧ num < 16) (hn : n < 2 ^ 64) :
    Wire ⟨num, .varint n⟩ (varint (8 * num) ++ varint n) :=
  .scalar (isTag_varint hnum (by decide)) (by omega) (.varint (varint_varint hn))

def bytesFields (num : Nat) (b : GoString) : List Field :=
  leaving (b = []) ⟨num, .len b⟩

def uintFields (num n : Nat) : List Field := leaving (n = 0) ⟨num, .varint n⟩

def intFields (num : Nat) (v : Int) : List Field := uintFields num (v % 2 ^ 64).toNat

def boolFields (num : Nat) (b : Bool) : List Field := uintFields num (if b then 1 else 0)

section Fields

variable {M : Type} {s : Schema M} {m m' : M}

theorem reads_bytesField (num : Nat) (b : GoString) (hknows : s.knows ⟨num, .len b⟩ = true)
    (hnum : 1 ≤ num ∧ num < 16) (hlen : (bytesField num b).length < 2 ^ 64) :
    s.Reads (bytesFields num b) (bytesField num b) := by
  have hb : b.length < 2 ^ 64 := by
    unfold bytesField at hlen
    split at hlen
    next hnil =>
      rw [hnil]
      exact Nat.two_pow_pos 64
    next =>
      simp only [List.length_append] at hlen
      omega
  exact reads_leaving hknows (wire_len hnum hb)

theorem reads_uintField (num n : Nat) (hknows : s.knows ⟨num, .varint n⟩ = true)
    (hnum : 1 ≤ num ∧ num < 16) (hn : n < 2 ^ 64) :
    s.Reads (uintFields num n) (uintField num n) :=
  reads_leaving hknows (wire_varint hnum hn)

theorem reads_intField (num : Nat) (v : Int) (hknows : ∀ n, s.knows ⟨num, .varint n⟩ = true)
    (hnum : 1 ≤ num ∧ num < 16) : s.Reads (intFields num v) (intField num v) :=
  reads_uintField num _ (hknows _) hnum (by omega)

theorem reads_boolField (num : Nat) (b : Bool) (hknows : ∀ n, s.knows ⟨num, .varint n⟩ = true)
    (hnum : 1 ≤ num ∧ num < 16) : s.Reads (boolFields num b) (boolField num b) :=
  reads_uintField num _ (hknows _) hnum (by cases b <;> decide)

theorem takeAll_bytes {num : Nat} {b : GoString} (put : GoString → M) (hnil : put [] = m)
    (hval : put b = m') (hput : s.apply m ⟨num, .len b⟩ = .ok (put b)) :
    s.takeAll m (bytesFields num b) = .ok m' := by
  rw [← hval]
  refine takeAll_leaving ?_ (fun _ => hput)
  intro hb
  rw [hb]
  exact hnil

theorem takeAll_uint32 {num : Nat} {v : UInt32} (put : UInt32 → M) (hzero : put 0 = m)
    (hval : put v = m') (hput : ∀ n, s.apply m ⟨num, .varint n⟩ = .ok (put n.toUInt32)) :
    s.takeAll m (uintFields num v.toNat) = .ok m' := by
  rw [← hval]
  refine takeAll_leaving ?_ ?_
  · intro hv
    have hv : v = 0 := UInt32.toNat_inj.mp hv
    rw [hv]
    exact hzero
  · intro _
    rw [hput, Nat.toUInt32_eq, UInt32.ofNat_toNat]

/-- The values of Go's `int64`. -/
def inInt64 (v : Int) : Bool := decide (-2 ^ 63 ≤ v ∧ v < 2 ^ 63)

theorem int64_toNat {v : Int} (h : inInt64 v = true) : int64 (v % 2 ^ 64).toNat = v := by
  have hv := of_decide_eq_true h
  have hcast : ((v % 2 ^ 64).toNat : Int) = v % 2 ^ 64 := Int.toNat_of_nonneg (by omega)
  unfold int64
  rw [hcast, Int.bmod_def]
  split <;> omega

theorem takeAll_int {num : Nat} {v : Int} (hv : inInt64 v = true) (put : Int → M)
    (hzero : put 0 = m)
    (hval : put v = m') (hput : ∀ n, s.apply m ⟨num, .varint n⟩ = .ok (put (int64 n))) :
    s.takeAll m (intFields num v) = .ok m' := by
  rw [← hval]
  refine takeAll_leaving ?_ ?_
  · intro hz
    have hz : v = 0 := by
      have hrange := of_decide_eq_true hv
      omega
    rw [hz]
    exact hzero
  · intro _
    rw [hput, int64_toNat hv]

theorem takeAll_bool {num : Nat} {b : Bool} (put : Bool → M) (hfalse : put false = m)
    (hval : put b = m') (hput : ∀ n, s.apply m ⟨num, .varint n⟩ = .ok (put (n != 0))) :
    s.takeAll m (boolFields num b) = .ok m' := by
  rw [← hval]
  refine takeAll_leaving ?_ ?_
  · intro hzero
    cases b with
    | true => cases hzero
    | false => exact hfalse
  · intro hne
    cases b with
    | true => exact hput 1
    | false => exact absurd rfl hne

end Fields

/-! ## §3. The messages. -/

def FileRequest.fields (m : FileRequest) : List Field := bytesFields 1 m.fileId

def FileResponse.fields (m : FileResponse) : List Field :=
  bytesFields 1 m.fileId ++ intFields 2 m.size ++ boolFields 3 m.notFound

def FileChunk.fields (m : FileChunk) : List Field :=
  bytesFields 1 m.fileId ++ bytesFields 2 m.data ++ boolFields 3 m.eof

def Error.fields (m : Error) : List Field := bytesFields 1 m.code ++ bytesFields 2 m.message

def RelayRegister.fields (m : RelayRegister) : List Field :=
  bytesFields 1 m.nodeId ++ bytesFields 2 m.publicKey ++ uintFields 3 m.listenPort.toNat

def RelayRegistered.fields (m : RelayRegistered) : List Field := bytesFields 1 m.externalAddr

def RelayConnect.fields (m : RelayConnect) : List Field := bytesFields 1 m.targetNodeId

def RelayRendezvous.fields (m : RelayRendezvous) : List Field :=
  bytesFields 1 m.peerNodeId ++ bytesFields 2 m.peerPublicKey ++ bytesFields 3 m.peerExternalAddr

def RelayError.fields (m : RelayError) : List Field := bytesFields 1 m.reason

def CatalogFile.fields (m : CatalogFile) : List Field :=
  bytesFields 1 m.fileId ++ bytesFields 2 m.name ++ intFields 3 m.size
    ++ intFields 4 m.modTimeUnix ++ bytesFields 5 m.ownerNodeId ++ boolFields 6 m.deleted

def CatalogAck.fields (m : CatalogAck) : List Field := uintFields 1 m.receivedCount.toNat

namespace Payload

/-- The number of the payload in the `oneof`. -/
def num : Payload → Nat
  | .fileRequest _ => 3
  | .fileResponse _ => 4
  | .fileChunk _ => 5
  | .relayRegister _ => 6
  | .relayRegistered _ => 7
  | .relayConnect _ => 8
  | .relayRendezvous _ => 9
  | .relayError _ => 10
  | .catalogOffer _ => 11
  | .catalogAck _ => 12
  | .error _ => 15

/-- The bytes are a message from which the payload is read: its fields, each in any
encoding, with unknown ones in between. -/
def Reads : Payload → GoString → Prop
  | .fileRequest m, b => FileRequest.schema.Reads m.fields b
  | .fileResponse m, b => FileResponse.schema.Reads m.fields b
  | .fileChunk m, b => FileChunk.schema.Reads m.fields b
  | .relayRegister m, b => RelayRegister.schema.Reads m.fields b
  | .relayRegistered m, b => RelayRegistered.schema.Reads m.fields b
  | .relayConnect m, b => RelayConnect.schema.Reads m.fields b
  | .relayRendezvous m, b => RelayRendezvous.schema.Reads m.fields b
  | .relayError m, b => RelayError.schema.Reads m.fields b
  | .catalogOffer m, b =>
    ∃ bs, List.Forall₂ (fun f b => CatalogFile.schema.Reads f.fields b) m.files bs
      ∧ CatalogOffer.schema.Reads (bs.map (fun b => ⟨1, .len b⟩)) b
  | .catalogAck m, b => CatalogAck.schema.Reads m.fields b
  | .error m, b => Error.schema.Reads m.fields b

/-- The message inside the payload's field of the envelope. -/
def body : Payload → GoString
  | .fileRequest m => bytesField 1 m.fileId
  | .fileResponse m => bytesField 1 m.fileId ++ intField 2 m.size ++ boolField 3 m.notFound
  | .fileChunk m => bytesField 1 m.fileId ++ bytesField 2 m.data ++ boolField 3 m.eof
  | .relayRegister m =>
    bytesField 1 m.nodeId ++ bytesField 2 m.publicKey ++ uintField 3 m.listenPort.toNat
  | .relayRegistered m => bytesField 1 m.externalAddr
  | .relayConnect m => bytesField 1 m.targetNodeId
  | .relayRendezvous m =>
    bytesField 1 m.peerNodeId ++ bytesField 2 m.peerPublicKey ++ bytesField 3 m.peerExternalAddr
  | .relayError m => bytesField 1 m.reason
  | .catalogOffer m => m.files.flatMap (fun f => messageField 1 f.encode)
  | .catalogAck m => uintField 1 m.receivedCount.toNat
  | .error m => bytesField 1 m.code ++ bytesField 2 m.message

theorem encode_eq (p : Payload) : p.encode = messageField p.num p.body := by
  cases p <;> rfl

/-- The integers of the payload are `int64`s. -/
def fits : Payload → Bool
  | .fileResponse m => inInt64 m.size
  | .catalogOffer m => m.files.all (fun f => inInt64 f.size && inInt64 f.modTimeUnix)
  | _ => true

end Payload

/-! ### From the message to its fields. -/

theorem CatalogFile.reads_encode {f : CatalogFile} (hlen : f.encode.length < 2 ^ 64) :
    CatalogFile.schema.Reads f.fields f.encode := by
  unfold CatalogFile.encode at hlen ⊢
  simp only [List.length_append] at hlen
  have hid := reads_bytesField (s := schema) 1 f.fileId rfl (by decide) (by omega)
  have hname := reads_bytesField (s := schema) 2 f.name rfl (by decide) (by omega)
  have hsize := reads_intField (s := schema) 3 f.size (fun _ => rfl) (by decide)
  have htime := reads_intField (s := schema) 4 f.modTimeUnix (fun _ => rfl) (by decide)
  have howner := reads_bytesField (s := schema) 5 f.ownerNodeId rfl (by decide) (by omega)
  have hdeleted := reads_boolField (s := schema) 6 f.deleted (fun _ => rfl) (by decide)
  exact ((((hid.append hname).append hsize).append htime).append howner).append hdeleted

theorem length_le_messageField (num : Nat) (b : GoString) :
    b.length ≤ (messageField num b).length := by
  unfold messageField
  simp only [List.length_append]
  omega

theorem CatalogOffer.reads_files {files : List CatalogFile}
    (hlen : (files.flatMap (fun f => messageField 1 f.encode)).length < 2 ^ 64) :
    List.Forall₂ (fun f b => CatalogFile.schema.Reads f.fields b) files
        (files.map CatalogFile.encode)
      ∧ CatalogOffer.schema.Reads
          ((files.map CatalogFile.encode).map (fun b => (⟨1, .len b⟩ : Field)))
          (files.flatMap (fun f => messageField 1 f.encode)) := by
  induction files with
  | nil => exact ⟨.nil, .of_wires .nil (fun f hf => by cases hf)⟩
  | cons f files ih =>
    rw [List.flatMap_cons, List.length_append] at hlen
    have hle := length_le_messageField 1 f.encode
    obtain ⟨hall, hreads⟩ := ih (by omega)
    have hwire : Wire ⟨1, .len f.encode⟩ (messageField 1 f.encode) :=
      wire_len (by decide) (by omega)
    have hone : schema.Reads [⟨1, .len f.encode⟩] (messageField 1 f.encode) := by
      refine .of_wires (.single hwire) ?_
      intro g hg
      rw [List.mem_singleton.mp hg]
      rfl
    exact ⟨.cons (CatalogFile.reads_encode (by omega)) hall, hone.append hreads⟩

/-- **The encoding of a message** is one of those it is read from. -/
theorem Payload.reads_body {p : Payload} (hlen : p.body.length < 2 ^ 64) : p.Reads p.body := by
  cases p with
  | fileRequest m => exact reads_bytesField 1 _ rfl (by decide) hlen
  | fileResponse m =>
    simp only [body, List.length_append] at hlen
    have hid := reads_bytesField (s := FileResponse.schema) 1 m.fileId rfl (by decide) (by omega)
    have hsize := reads_intField (s := FileResponse.schema) 2 m.size (fun _ => rfl) (by decide)
    exact (hid.append hsize).append (reads_boolField 3 m.notFound (fun _ => rfl) (by decide))
  | fileChunk m =>
    simp only [body, List.length_append] at hlen
    have hid := reads_bytesField (s := FileChunk.schema) 1 m.fileId rfl (by decide) (by omega)
    have hdata := reads_bytesField (s := FileChunk.schema) 2 m.data rfl (by decide) (by omega)
    exact (hid.append hdata).append (reads_boolField 3 m.eof (fun _ => rfl) (by decide))
  | relayRegister m =>
    simp only [body, List.length_append] at hlen
    have hid := reads_bytesField (s := RelayRegister.schema) 1 m.nodeId rfl (by decide) (by omega)
    have hkey :=
      reads_bytesField (s := RelayRegister.schema) 2 m.publicKey rfl (by decide) (by omega)
    have hport : m.listenPort.toNat < 2 ^ 64 := by
      have := m.listenPort.toNat_lt
      omega
    exact (hid.append hkey).append (reads_uintField 3 _ rfl (by decide) hport)
  | relayRegistered m => exact reads_bytesField 1 _ rfl (by decide) hlen
  | relayConnect m => exact reads_bytesField 1 _ rfl (by decide) hlen
  | relayRendezvous m =>
    simp only [body, List.length_append] at hlen
    have hid :=
      reads_bytesField (s := RelayRendezvous.schema) 1 m.peerNodeId rfl (by decide) (by omega)
    have hkey :=
      reads_bytesField (s := RelayRendezvous.schema) 2 m.peerPublicKey rfl (by decide) (by omega)
    exact (hid.append hkey).append
      (reads_bytesField 3 m.peerExternalAddr rfl (by decide) (by omega))
  | relayError m => exact reads_bytesField 1 _ rfl (by decide) hlen
  | catalogOffer m => exact ⟨_, CatalogOffer.reads_files hlen⟩
  | catalogAck m =>
    have hcount : m.receivedCount.toNat < 2 ^ 64 := by
      have := m.receivedCount.toNat_lt
      omega
    exact reads_uintField 1 _ rfl (by decide) hcount
  | error m =>
    simp only [body, List.length_append] at hlen
    have hcode := reads_bytesField (s := Error.schema) 1 m.code rfl (by decide) (by omega)
    exact hcode.append (reads_bytesField 2 m.message rfl (by decide) (by omega))

/-! ### From the fields to the message. -/

theorem CatalogFile.decode_of_reads {f : CatalogFile} {b : GoString}
    (hsize : inInt64 f.size = true) (htime : inInt64 f.modTimeUnix = true)
    (hname : validUTF8 f.name = true) (h : CatalogFile.schema.Reads f.fields b) :
    CatalogFile.schema.decode .empty b = .ok f := by
  rw [h.decode]
  -- the last field first
  refine takeAll_trans ⟨f.fileId, f.name, f.size, f.modTimeUnix, f.ownerNodeId, false⟩ ?_
    (takeAll_bool (fun d => ⟨f.fileId, f.name, f.size, f.modTimeUnix, f.ownerNodeId, d⟩) rfl rfl
      (fun _ => rfl))
  refine takeAll_trans ⟨f.fileId, f.name, f.size, f.modTimeUnix, [], false⟩ ?_
    (takeAll_bytes (fun x => ⟨f.fileId, f.name, f.size, f.modTimeUnix, x, false⟩) rfl rfl rfl)
  refine takeAll_trans ⟨f.fileId, f.name, f.size, 0, [], false⟩ ?_
    (takeAll_int htime (fun v => ⟨f.fileId, f.name, f.size, v, [], false⟩) rfl rfl (fun _ => rfl))
  refine takeAll_trans ⟨f.fileId, f.name, 0, 0, [], false⟩ ?_
    (takeAll_int hsize (fun v => ⟨f.fileId, f.name, v, 0, [], false⟩) rfl rfl (fun _ => rfl))
  refine takeAll_trans ⟨f.fileId, [], 0, 0, [], false⟩ ?_
    (takeAll_bytes (fun x => ⟨f.fileId, x, 0, 0, [], false⟩) rfl rfl ?_)
  · exact takeAll_bytes (fun x => ⟨x, [], 0, 0, [], false⟩) rfl rfl rfl
  · exact if_pos hname

theorem CatalogOffer.takeAll_files {files acc : List CatalogFile} {bs : List GoString}
    (hfits : ∀ f ∈ files, inInt64 f.size = true ∧ inInt64 f.modTimeUnix = true)
    (hnames : ∀ f ∈ files, validUTF8 f.name = true)
    (hall : List.Forall₂ (fun f b => CatalogFile.schema.Reads f.fields b) files bs) :
    schema.takeAll ⟨acc⟩ (bs.map (fun b => (⟨1, .len b⟩ : Field))) = .ok ⟨acc ++ files⟩ := by
  induction hall generalizing acc with
  | nil =>
    rw [List.append_nil]
    rfl
  | @cons f b files bs hreads hrest ih =>
    have hfile := CatalogFile.decode_of_reads (hfits f List.mem_cons_self).1
      (hfits f List.mem_cons_self).2 (hnames f List.mem_cons_self) hreads
    have happly : schema.apply ⟨acc⟩ ⟨1, .len b⟩ = .ok ⟨acc ++ [f]⟩ := by
      show (CatalogFile.schema.decode .empty b).map _ = _
      rw [hfile]
      rfl
    rw [List.map_cons, takeAll_cons, happly]
    have htail : schema.takeAll ⟨acc ++ [f]⟩ (bs.map (fun b => (⟨1, .len b⟩ : Field)))
        = .ok ⟨acc ++ [f] ++ files⟩ :=
      ih (fun g hg => hfits g (List.mem_cons_of_mem _ hg))
        (fun g hg => hnames g (List.mem_cons_of_mem _ hg))
    rwa [List.append_assoc] at htail

theorem member_none {M : Type} {s : Schema M} {empty m : M} {held : OneOf → Option M}
    {wrap : M → OneOf} {b : GoString} (h : s.decode empty b = .ok m) :
    member s empty held wrap b none = .ok (some (wrap m)) := by
  show (s.decode empty b).map _ = _
  rw [h]
  rfl

/-- **A message is read** from every one of its encodings. -/
theorem Payload.apply_of_reads {p : Payload} {b : GoString} (hfits : p.fits = true)
    (hstr : p.stringsOK = true) (h : p.Reads b) :
    Envelope.schema.apply none ⟨p.num, .len b⟩ = .ok (some (.payload p)) := by
  cases p with
  | fileRequest m =>
    refine member_none ((Reads.decode h _).trans ?_)
    exact takeAll_bytes (fun x => ⟨x⟩) rfl rfl rfl
  | fileResponse m =>
    refine member_none ((Reads.decode h _).trans ?_)
    refine takeAll_trans ⟨m.fileId, m.size, false⟩ ?_
      (takeAll_bool (fun d => ⟨m.fileId, m.size, d⟩) rfl rfl (fun _ => rfl))
    refine takeAll_trans ⟨m.fileId, 0, false⟩ ?_
      (takeAll_int hfits (fun v => ⟨m.fileId, v, false⟩) rfl rfl (fun _ => rfl))
    exact takeAll_bytes (fun x => ⟨x, 0, false⟩) rfl rfl rfl
  | fileChunk m =>
    refine member_none ((Reads.decode h _).trans ?_)
    refine takeAll_trans ⟨m.fileId, m.data, false⟩ ?_
      (takeAll_bool (fun d => ⟨m.fileId, m.data, d⟩) rfl rfl (fun _ => rfl))
    refine takeAll_trans ⟨m.fileId, [], false⟩ ?_
      (takeAll_bytes (fun x => ⟨m.fileId, x, false⟩) rfl rfl rfl)
    exact takeAll_bytes (fun x => ⟨x, [], false⟩) rfl rfl rfl
  | relayRegister m =>
    refine member_none ((Reads.decode h _).trans ?_)
    refine takeAll_trans ⟨m.nodeId, m.publicKey, 0⟩ ?_
      (takeAll_uint32 (fun v => ⟨m.nodeId, m.publicKey, v⟩) rfl rfl (fun _ => rfl))
    refine takeAll_trans ⟨m.nodeId, [], 0⟩ ?_
      (takeAll_bytes (fun x => ⟨m.nodeId, x, 0⟩) rfl rfl rfl)
    exact takeAll_bytes (fun x => ⟨x, [], 0⟩) rfl rfl rfl
  | relayRegistered m =>
    refine member_none ((Reads.decode h _).trans ?_)
    exact takeAll_bytes (fun x => ⟨x⟩) rfl rfl (if_pos hstr)
  | relayConnect m =>
    refine member_none ((Reads.decode h _).trans ?_)
    exact takeAll_bytes (fun x => ⟨x⟩) rfl rfl rfl
  | relayRendezvous m =>
    refine member_none ((Reads.decode h _).trans ?_)
    refine takeAll_trans ⟨m.peerNodeId, m.peerPublicKey, []⟩ ?_
      (takeAll_bytes (fun x => ⟨m.peerNodeId, m.peerPublicKey, x⟩) rfl rfl ?_)
    · refine takeAll_trans ⟨m.peerNodeId, [], []⟩ ?_
        (takeAll_bytes (fun x => ⟨m.peerNodeId, x, []⟩) rfl rfl rfl)
      exact takeAll_bytes (fun x => ⟨x, [], []⟩) rfl rfl rfl
    · exact if_pos hstr
  | relayError m =>
    refine member_none ((Reads.decode h _).trans ?_)
    exact takeAll_bytes (fun x => ⟨x⟩) rfl rfl (if_pos hstr)
  | catalogOffer m =>
    obtain ⟨bs, hall, hreads⟩ := h
    refine member_none ((Reads.decode hreads _).trans ?_)
    refine CatalogOffer.takeAll_files ?_ (List.all_eq_true.mp hstr) hall
    intro f hf
    have hboth := List.all_eq_true.mp hfits f hf
    rwa [Bool.and_eq_true] at hboth
  | catalogAck m =>
    refine member_none ((Reads.decode h _).trans ?_)
    exact takeAll_uint32 (fun v => ⟨v⟩) rfl rfl (fun _ => rfl)
  | error m =>
    obtain ⟨hcode, hmessage⟩ := Bool.and_eq_true_iff.mp hstr
    refine member_none ((Reads.decode h _).trans ?_)
    refine takeAll_trans ⟨m.code, []⟩ ?_ (takeAll_bytes (fun x => ⟨m.code, x⟩) rfl rfl ?_)
    · exact takeAll_bytes (fun x => ⟨x, []⟩) rfl rfl (if_pos hcode)
    · exact if_pos hmessage

/-! ## §4. The envelope. -/

def Envelope.fits (env : Envelope) : Bool := env.payload.all Payload.fits

def Envelope.stringsOK (env : Envelope) : Bool := env.payload.all Payload.stringsOK

/-- The bytes are an envelope from which the given one is read. -/
def Envelope.Reads (env : Envelope) (data : GoString) : Prop :=
  match env.payload with
  | none => Envelope.schema.Reads [] data
  | some p => ∃ b, p.Reads b ∧ Envelope.schema.Reads [⟨p.num, .len b⟩] data

theorem Envelope.reads_marshal {env : Envelope} {data : GoString} (h : env.marshal = .ok data)
    (hlen : data.length < 2 ^ 64) : env.Reads data := by
  unfold Envelope.marshal at h
  unfold Envelope.Reads
  cases hpayload : env.payload with
  | none =>
    rw [hpayload] at h
    cases h
    exact .of_wires .nil (fun f hf => by cases hf)
  | some p =>
    rw [hpayload] at h
    dsimp only at h ⊢
    split at h
    next =>
      cases h
      rw [Payload.encode_eq] at hlen ⊢
      have hle := length_le_messageField p.num p.body
      have hnum : 1 ≤ p.num ∧ p.num < 16 := by
        cases p <;> simp [Payload.num]
      refine ⟨p.body, Payload.reads_body (by omega), .of_wires (.single ?_) ?_⟩
      · exact wire_len hnum (by omega)
      · intro f hf
        rw [List.mem_singleton.mp hf]
        cases p <;> rfl
    next => cases h

theorem Envelope.unmarshalOneOf_of_reads {env : Envelope} {data : GoString}
    (hfits : env.fits = true) (hstr : env.stringsOK = true) (h : env.Reads data) :
    unmarshalOneOf data = .ok (env.payload.map .payload) := by
  obtain ⟨payload⟩ := env
  cases payload with
  | none => exact Reads.decode (s := schema) h none
  | some p =>
    obtain ⟨b, hb, hdata⟩ := h
    unfold unmarshalOneOf
    rw [Reads.decode hdata, takeAll_cons, Payload.apply_of_reads hfits hstr hb]
    rfl

theorem Envelope.stringsOK_of_marshal {env : Envelope} {data : GoString}
    (h : env.marshal = .ok data) : env.stringsOK = true := by
  obtain ⟨payload⟩ := env
  cases payload with
  | none => rfl
  | some p =>
    unfold Envelope.marshal at h
    dsimp only at h
    split at h
    next hstr => exact hstr
    next => cases h

theorem Envelope.unmarshal_of_reads {env : Envelope} {data : GoString}
    (hfits : env.fits = true) (hstr : env.stringsOK = true) (h : env.Reads data) :
    Envelope.unmarshal data = .ok env := by
  unfold Envelope.unmarshal
  rw [unmarshalOneOf_of_reads hfits hstr h]
  obtain ⟨payload⟩ := env
  cases payload <;> rfl

/-- **Round trip.** -/
theorem Envelope.unmarshal_marshal {env : Envelope} {data : GoString} (hfits : env.fits = true)
    (h : env.marshal = .ok data) (hlen : data.length < 2 ^ 64) :
    Envelope.unmarshal data = .ok env :=
  unmarshal_of_reads hfits (stringsOK_of_marshal h) (reads_marshal h hlen)

/-! ## §5. What is accepted. -/

/-- A payload as the code can have one. -/
def Payload.Sound (p : Payload) : Prop := p.fits = true ∧ p.stringsOK = true

/-- The `oneof` holds no other. -/
def OneOf.Sound (o : Option OneOf) : Prop := ∀ p, o = some (.payload p) → p.Sound

/-- The fields of the kind keep its payload sound. -/
def Kind.Keeps (k : Kind) : Prop :=
  (k.wrap k.empty).Sound ∧ k.schema.Keeps (fun m => (k.wrap m).Sound)

/-- Then they keep the `oneof` so. -/
theorem Kind.Keeps.put {k : Kind} (hk : k.Keeps) {b : GoString} {cur r : Option OneOf}
    (hcur : OneOf.Sound cur) (h : k.put b cur = .ok r) : OneOf.Sound r := by
  unfold Kind.put member at h
  cases hdec : k.schema.decode ((cur.bind k.heldBy).getD k.empty) b with
  | error err =>
    rw [hdec] at h
    cases h
  | ok m =>
    rw [hdec] at h
    cases h
    have hstart : (k.wrap ((cur.bind k.heldBy).getD k.empty)).Sound := by
      cases hb : cur.bind k.heldBy with
      | none => exact hk.1
      | some m₀ =>
        obtain ⟨o, ho, hm₀⟩ := Option.bind_eq_some_iff.mp hb
        cases o with
        | payload p =>
          refine hcur (k.wrap m₀) ?_
          rw [ho, k.eq_wrap p m₀ hm₀]
        | handshake _ => cases hm₀
        | handshakeAck _ => cases hm₀
    have hm : (k.wrap m).Sound := hk.2.decode hstart hdec
    intro p hp
    cases hp
    exact hm

/-- A file of an offer as the code can have one. -/
def CatalogFile.Sound (f : CatalogFile) : Prop :=
  (inInt64 f.size && inInt64 f.modTimeUnix) = true ∧ validUTF8 f.name = true

/-- A field 16 that this version does not have, in the middle of a request. -/
example : unmarshalOneOf [0x1A, 7, 0x80, 1, 5, 0x0A, 2, 7, 8]
    = .ok (some (.payload (.fileRequest ⟨[7, 8]⟩))) := by decide

end Kin.Kinpb
