/-
  Kin.Protocol.Framing

  **LENGTH-PREFIXED FRAMES** (`internal/protocol/framing.go`).

  A message is written as `[4 bytes big-endian length][protobuf payload]`, and
  not at all if its encoding is longer than 4 MiB.  The size bounds say which of
  the program's messages always fit, `readMsg_writeMsg` that a frame read is the
  message written.

  `proto.Unmarshal` is a parameter.
-/
import Kin.Kinpb.Messages

namespace Kin.Protocol

open Kin.Lib Kin.Kinpb

/-! ## §1. Writing. -/

/-- 4 MiB. -/
def maxMsgSize : Nat := 4 * 2 ^ 20

/-- `binary.BigEndian.PutUint32`. -/
def putUint32 (n : Nat) : GoString :=
  [(n / 2 ^ 24).toUInt8, (n / 2 ^ 16).toUInt8, (n / 2 ^ 8).toUInt8, n.toUInt8]

/-- `WriteMsg` on a stream that takes every byte: the frame, or the error. -/
def writeMsg (env : Envelope) : Except String GoString :=
  match env.marshal with
  | .error err => .error ("framing: marshal: " ++ err)
  | .ok data =>
    if data.length > maxMsgSize then
      .error ("framing: message too large (" ++ toString data.length ++ " > "
        ++ toString maxMsgSize ++ ")")
    else .ok (putUint32 data.length ++ data)

/-- `WriteMsg` writes the message. -/
def accepts (env : Envelope) : Bool :=
  match writeMsg env with
  | .ok _ => true
  | .error _ => false

theorem accepts_iff (env : Envelope) :
    accepts env = true ↔ ∃ data, env.marshal = .ok data ∧ data.length ≤ maxMsgSize := by
  unfold accepts writeMsg
  cases env.marshal with
  | error err => simp
  | ok data =>
    dsimp only
    by_cases h : data.length > maxMsgSize
    · rw [if_pos h]
      refine iff_of_false Bool.false_ne_true ?_
      intro ⟨d, hd, hle⟩
      rw [← Except.ok.inj hd] at hle
      omega
    · rw [if_neg h]
      simp only [true_iff]
      exact ⟨data, rfl, by omega⟩

/-! ## §2. Size bounds. -/

theorem varintBytes_length_le (fuel n : Nat) : (varintBytes fuel n).length ≤ fuel := by
  induction fuel generalizing n with
  | zero => exact Nat.le_refl 0
  | succ fuel ih =>
    unfold varintBytes
    split
    · simp
    · rw [List.length_cons]
      have := ih (n / 128)
      omega

theorem bytesField_length_le (num : Nat) (b : GoString) :
    (bytesField num b).length ≤ 20 + b.length := by
  have hnum := varintBytes_length_le 10 (8 * num + 2)
  have hlen := varintBytes_length_le 10 b.length
  unfold bytesField varint
  split
  · simp
  · simp only [List.length_append]
    omega

theorem messageField_length_le (num : Nat) (b : GoString) :
    (messageField num b).length ≤ 20 + b.length := by
  have hnum := varintBytes_length_le 10 (8 * num + 2)
  have hlen := varintBytes_length_le 10 b.length
  unfold messageField varint
  simp only [List.length_append]
  omega

theorem uintField_length_le (num n : Nat) : (uintField num n).length ≤ 20 := by
  have hnum := varintBytes_length_le 10 (8 * num)
  have hn := varintBytes_length_le 10 n
  unfold uintField varint
  split
  · simp
  · simp only [List.length_append]
    omega

/-- A `FileResponse` always fits. -/
theorem accepts_fileResponse (m : FileResponse) (h : m.fileId.length ≤ 32) :
    accepts ⟨some (.fileResponse m)⟩ = true := by
  rw [accepts_iff]
  refine ⟨_, rfl, ?_⟩
  show (messageField 4
    (bytesField 1 m.fileId ++ intField 2 m.size ++ boolField 3 m.notFound)).length ≤ maxMsgSize
  have hmsg := messageField_length_le 4
    (bytesField 1 m.fileId ++ intField 2 m.size ++ boolField 3 m.notFound)
  have hid := bytesField_length_le 1 m.fileId
  have hsize : (intField 2 m.size).length ≤ 20 := uintField_length_le _ _
  have hflag : (boolField 3 m.notFound).length ≤ 20 := uintField_length_le _ _
  simp only [List.length_append] at hmsg
  unfold maxMsgSize
  omega

/-- A `FileChunk` of at most 64 KiB always fits. -/
theorem accepts_fileChunk (m : FileChunk) (h : m.fileId.length ≤ 32)
    (hdata : m.data.length ≤ 65536) : accepts ⟨some (.fileChunk m)⟩ = true := by
  rw [accepts_iff]
  refine ⟨_, rfl, ?_⟩
  show (messageField 5
    (bytesField 1 m.fileId ++ bytesField 2 m.data ++ boolField 3 m.eof)).length ≤ maxMsgSize
  have hmsg := messageField_length_le 5
    (bytesField 1 m.fileId ++ bytesField 2 m.data ++ boolField 3 m.eof)
  have hid := bytesField_length_le 1 m.fileId
  have hbytes := bytesField_length_le 2 m.data
  have hflag : (boolField 3 m.eof).length ≤ 20 := uintField_length_le _ _
  simp only [List.length_append] at hmsg
  unfold maxMsgSize
  omega

/-! ## §3. Reading. -/

/-- `binary.BigEndian.Uint32`. -/
def uint32 : GoString → Nat
  | [b0, b1, b2, b3] => b0.toNat * 2 ^ 24 + b1.toNat * 2 ^ 16 + b2.toNat * 2 ^ 8 + b3.toNat
  | _ => 0

/-- `ReadMsg` on a stream that holds the given bytes and then ends: the message
and the bytes after it, or the error. -/
def readMsg (unmarshal : GoString → Except String Envelope) (r : GoString) :
    Except String (Envelope × GoString) :=
  if r.length < 4 then .error "EOF"
  else
    let size := uint32 (r.take 4)
    let body := r.drop 4
    if size = 0 then .ok (⟨none⟩, body)
    else if size > maxMsgSize then
      .error ("framing: message too large (" ++ toString size ++ " > " ++ toString maxMsgSize ++ ")")
    else if body.length < size then
      .error ("framing: read body: " ++ if body = [] then "EOF" else "unexpected EOF")
    else
      match unmarshal (body.take size) with
      | .error err => .error ("framing: unmarshal: " ++ err)
      | .ok env => .ok (env, body.drop size)

theorem uint32_putUint32 {n : Nat} (h : n < 2 ^ 32) : uint32 (putUint32 n) = n := by
  show (n / 2 ^ 24).toUInt8.toNat * 2 ^ 24 + (n / 2 ^ 16).toUInt8.toNat * 2 ^ 16
    + (n / 2 ^ 8).toUInt8.toNat * 2 ^ 8 + n.toUInt8.toNat = n
  simp only [Nat.toUInt8_eq, UInt8.toNat_ofNat']
  omega

/-- Only the empty message has an empty encoding. -/
theorem marshal_eq_nil {env : Envelope} (h : env.marshal = .ok []) : env = ⟨none⟩ := by
  have hvarint : ∀ n, varint n ≠ [] := by
    intro n
    unfold varint varintBytes
    split
    · exact List.cons_ne_nil _ _
    · exact List.cons_ne_nil _ _
  have hfield : ∀ num b, messageField num b ≠ [] := by
    intro num b hnil
    unfold messageField at hnil
    simp only [List.append_eq_nil_iff] at hnil
    exact hvarint _ hnil.1.1
  obtain ⟨payload⟩ := env
  cases payload with
  | none => rfl
  | some p =>
    unfold Envelope.marshal at h
    dsimp only at h
    split at h
    · injection h with h
      exfalso
      cases p <;> exact hfield _ _ h
    · cases h

/-- A frame is read by its length, whatever follows it in the stream. -/
theorem readMsg_frame {unmarshal : GoString → Except String Envelope} {env : Envelope}
    {data : GoString} (hdec : unmarshal data = .ok env) (hempty : data = [] → env = ⟨none⟩)
    (hsize : data.length ≤ maxMsgSize) (rest : GoString) :
    readMsg unmarshal (putUint32 data.length ++ data ++ rest) = .ok (env, rest) := by
  have hhead : (putUint32 data.length).length = 4 := rfl
  have htake : (putUint32 data.length ++ data ++ rest).take 4 = putUint32 data.length := by
    rw [List.append_assoc, List.take_left' hhead]
  have hdrop : (putUint32 data.length ++ data ++ rest).drop 4 = data ++ rest := by
    rw [List.append_assoc, List.drop_left' hhead]
  have hlen : uint32 (putUint32 data.length) = data.length := by
    apply uint32_putUint32
    unfold maxMsgSize at hsize
    omega
  unfold readMsg
  simp only [htake, hdrop, hlen]
  rw [if_neg (by simp only [List.length_append, hhead]; omega)]
  by_cases hnil : data = []
  · -- the empty message has no body
    rw [hempty hnil, hnil]
    rfl
  · have hpos : data.length ≠ 0 := fun h => hnil (List.length_eq_zero_iff.mp h)
    rw [if_neg hpos, if_neg (Nat.not_lt.mpr hsize), if_neg (by simp), List.take_left,
      List.drop_left, hdec]

/-- **A frame read is the message written.** -/
theorem readMsg_writeMsg {unmarshal : GoString → Except String Envelope} {env : Envelope}
    {frame : GoString} (hround : ∀ data, env.marshal = .ok data → unmarshal data = .ok env)
    (hwrite : writeMsg env = .ok frame) (rest : GoString) :
    readMsg unmarshal (frame ++ rest) = .ok (env, rest) := by
  unfold writeMsg at hwrite
  split at hwrite
  · cases hwrite
  next data hdata =>
    split at hwrite
    · cases hwrite
    next hsize =>
      injection hwrite with hframe
      subst hframe
      refine readMsg_frame (hround data hdata) ?_ (Nat.not_lt.mp hsize) rest
      intro hnil
      subst hnil
      exact marshal_eq_nil hdata

end Kin.Protocol
