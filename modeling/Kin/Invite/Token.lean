/-
  Kin.Invite.Token

  **INVITE TOKENS** (`internal/invite/invite.go`): parsing, the checks that
  touch no store, and the making of a token.

  A token is `kin:` and the unpadded base64url of

    [32B pubkey][2B endpoint count][endpoints as [2B len][bytes]…]
    [16B nonce][8B expiry][64B signature]

  `Decode` parses it and verifies nothing.  `Validate` looks at the expiry,
  decodes the text once more and verifies the signature over all but its last
  64 bytes, before it turns to the nonce store.

  Ed25519 is a parameter: `verify publicKey message sig`, `sign privKey message`.
-/
import Kin.Lib.Base64

namespace Kin.Invite

open Kin.Lib

/-! ## §1. Tokens. -/

abbrev Nonce := Bytes 16

structure Token where
  publicKey : GoString
  endpoints : List GoString
  nonce : Nonce
  expiresAt : Time
  deriving DecidableEq

/-- The constant `prefix`. -/
def tokenPrefix : GoString := ascii "kin:"

def pubkeySize : Nat := 32

def nonceSize : Nat := 16

def expirySize : Nat := 8

def sigSize : Nat := 64

/-! ## §2. Parsing. -/

/-- The slice expression `data[lo:hi]`, in range. -/
def slice (data : GoString) (lo hi : Nat) : GoString := (data.drop lo).take (hi - lo)

/-- A big-endian unsigned number. -/
def bigEndian (b : GoString) : Nat := b.foldl (fun n x => n * 256 + x.toNat) 0

/-- `var a [n]byte; copy(a[:], src)`. -/
def copyBytes (n : Nat) (src : GoString) : Bytes n :=
  ⟨(src ++ List.replicate n 0).take n, by simp⟩

/-- `time.Unix(sec, 0).UTC()` for `sec` in `int64`; the seconds are counted from
year 1 inside, and wrap around there. -/
def timeUnix (sec : Int) : Time := Time.ofUnix ((sec + 62135596800).bmod (2 ^ 64) - 62135596800)

/-- The endpoint loop, with `n` endpoints to go: they and the offset after them. -/
def unmarshalEndpoints (data : GoString) : (n offset : Nat) → Except String (List GoString × Nat)
  | 0, offset => .ok ([], offset)
  | n + 1, offset =>
    -- the length field, and then the endpoint itself, must end before the nonce
    if offset + 2 > data.length - nonceSize - expirySize - sigSize then
      .error "invite: truncated endpoint"
    else
      let epLen := bigEndian (slice data offset (offset + 2))
      if offset + 2 + epLen > data.length - nonceSize - expirySize - sigSize then
        .error "invite: truncated endpoint data"
      else
        (unmarshalEndpoints data n (offset + 2 + epLen)).map
          (fun r => (slice data (offset + 2) (offset + 2 + epLen) :: r.1, r.2))

def unmarshal (data : GoString) : Except String Token :=
  if data.length < pubkeySize + 2 + nonceSize + expirySize + sigSize then
    .error ("invite: token too short (" ++ toString data.length ++ " bytes)")
  else
    let epCount := bigEndian (slice data pubkeySize (pubkeySize + 2))
    match unmarshalEndpoints data epCount (pubkeySize + 2) with
    | .error err => .error err
    | .ok (endpoints, offset) =>
      if offset + nonceSize > data.length - expirySize - sigSize then
        .error "invite: truncated nonce"
      -- bytes between the expiry and the signature are not looked at
      else if offset + nonceSize + expirySize > data.length - sigSize then
        .error "invite: truncated expiry"
      else
        .ok {
          publicKey := slice data 0 pubkeySize
          endpoints := endpoints
          nonce := copyBytes 16 (slice data offset (offset + nonceSize))
          expiresAt := timeUnix ((bigEndian (slice data (offset + nonceSize)
            (offset + nonceSize + expirySize)) : Int).bmod (2 ^ 64)) }

def decode (raw : GoString) : Except String Token :=
  if ¬ tokenPrefix <+: raw then .error "invite: missing 'kin:' prefix"
  else
    match Base64.decodeString (raw.drop tokenPrefix.length) with
    | .error err => .error ("invite: base64 decode: " ++ err)
    | .ok data => unmarshal data

/-! ## §3. Checks. -/

/-- `t.After(u)`. -/
def after (t u : Time) : Bool := decide (u.unixNano < t.unixNano)

/-- `Validate` up to its first use of the nonce store: the error it returns
there, if any. -/
def checkToken (verify : GoString → GoString → GoString → Bool) (t : Token) (raw : GoString)
    (now : Time) : Option String :=
  if after now t.expiresAt then some "invite: token expired"
  else
    match Base64.decodeString (raw.drop tokenPrefix.length) with
    | .error err => some ("invite: decode for validation: " ++ err)
    | .ok data =>
      -- the signature covers the decoded bytes, not the fields of the token
      if data.length < sigSize then some "invite: data too short for signature"
      else if verify t.publicKey (data.take (data.length - sigSize))
          (data.drop (data.length - sigSize)) then none
      else some "invite: invalid signature"

/-! ## §4. Making a token. -/

/-- `binary.BigEndian.AppendUint16` and `AppendUint64`: the low `n` bytes of a
number. -/
def appendUint : (n : Nat) → Nat → GoString
  | 0, _ => []
  | n + 1, v => (v / 256 ^ n).toUInt8 :: appendUint n v

/-- `DefaultTTL` in nanoseconds. -/
def defaultTTL : Int := 24 * 60 * 60 * 1000000000

/-- `Create`: the bytes of `rand.Read`, or its error, and the time are given. -/
def create (publicKey : GoString) (endpoints : List GoString) (ttl : Int)
    (nonce : Except String Nonce) (now : Time) : Except String Token :=
  match nonce with
  | .error err => .error ("generate nonce: " ++ err)
  | .ok nonce =>
    .ok {
      publicKey := publicKey
      endpoints := endpoints
      nonce := nonce
      expiresAt := ⟨now.unixNano + (if ttl ≤ 0 then defaultTTL else ttl)⟩ }

/-- The endpoint loop of `marshalPayload`. -/
def marshalEndpoints : List GoString → Except String GoString
  | [] => .ok []
  | ep :: rest =>
    if ep.length > 0xFFFF then .error "invite: endpoint string too long"
    else (marshalEndpoints rest).map (fun buf => appendUint 2 ep.length ++ ep ++ buf)

/-- `marshalPayload`: all but the signature. -/
def marshalPayload (t : Token) : Except String GoString :=
  if t.publicKey.length ≠ pubkeySize then
    .error ("invite: public key must be " ++ toString pubkeySize ++ " bytes")
  else if t.endpoints.length > 0xFFFF then .error "invite: too many endpoints"
  else
    (marshalEndpoints t.endpoints).map (fun buf =>
      t.publicKey ++ appendUint 2 t.endpoints.length ++ buf ++ t.nonce.val
        ++ appendUint 8 (t.expiresAt.unix % 2 ^ 64).toNat)

def encode (sign : GoString → GoString → GoString) (t : Token) (privKey : GoString) :
    Except String GoString :=
  (marshalPayload t).map (fun payload =>
    tokenPrefix ++ Base64.encodeToString (payload ++ sign privKey payload))

/-! ## §5. An invite. -/

/-- The invite of the key with seed `00 01 … 1f`: one endpoint,
`127.0.0.1:5000`, the nonce `01 02 … 10`, valid until 1800000000. -/
def inviteText : GoString :=
  ascii ("kin:A6EHv_POEL4dcN0Y50vAmWfk1jCbpQ1fHdyGZBJVMbgAAQAOMTI3LjAuMC4xOjUwMDABAgMEBQYHCAkKCwwN"
    ++ "Dg8QAAAAAGtJ0gDJEa5zgz-ldj3i2YhWNk0KgA740Fho-joxd89PYeGPXuzBU2lLCGgYrO307tcu4K7ikiPrqB4b"
    ++ "pGpAp7J8LVsF")

/-- The text by its parts: appending lists of bytes is quick to evaluate,
appending strings is not. -/
theorem inviteText_eq : inviteText
    = ascii
        "kin:A6EHv_POEL4dcN0Y50vAmWfk1jCbpQ1fHdyGZBJVMbgAAQAOMTI3LjAuMC4xOjUwMDABAgMEBQYHCAkKCwwN"
      ++ ascii
        "Dg8QAAAAAGtJ0gDJEa5zgz-ldj3i2YhWNk0KgA740Fho-joxd89PYeGPXuzBU2lLCGgYrO307tcu4K7ikiPrqB4b"
      ++ ascii "pGpAp7J8LVsF" := by
  unfold inviteText
  rw [ascii_append, ascii_append]

/-- Ed25519 as far as it is asked here: the signature of the invite is good. -/
def verifyInvite (publicKey message sig : GoString) : Bool :=
  decide (sig.length = sigSize) && decide (publicKey = message.take pubkeySize)
    && decide (Base64.decodeString (inviteText.drop tokenPrefix.length) = .ok (message ++ sig))

/-- The nonce `01 02 … 10`. -/
def inviteNonce : Nonce := ⟨[1, 2, 3, 4, 5, 6, 7, 8, 9, 10, 11, 12, 13, 14, 15, 16], rfl⟩

/-- Ed25519 as far as it is asked here: the signature of the invite, and 64 bytes that
are none of anything else. -/
def signInvite (_privKey message : GoString) : GoString :=
  match Base64.decodeString (inviteText.drop tokenPrefix.length) with
  | .ok data =>
    if message = data.take (data.length - sigSize) then data.drop (data.length - sigSize)
    else List.replicate sigSize 0
  | .error _ => List.replicate sigSize 0

theorem length_signInvite (privKey message : GoString) :
    (signInvite privKey message).length = sigSize := by
  have hlen : (Base64.decodeString (inviteText.drop tokenPrefix.length)).map List.length
      = .ok 138 := by
    rw [inviteText_eq]
    decide +kernel
  unfold signInvite
  cases hdata : Base64.decodeString (inviteText.drop tokenPrefix.length) with
  | error err => exact List.length_replicate
  | ok data =>
    rw [hdata] at hlen
    have hlen : data.length = 138 := Except.ok.inj hlen
    dsimp only
    split
    · rw [List.length_drop, hlen]
      rfl
    · exact List.length_replicate

/-- The public key of the seed `00 01 … 1f`. -/
def inviterKey : GoString :=
  [0x03, 0xA1, 0x07, 0xBF, 0xF3, 0xCE, 0x10, 0xBE, 0x1D, 0x70, 0xDD, 0x18, 0xE7, 0x4B, 0xC0, 0x99,
    0x67, 0xE4, 0xD6, 0x30, 0x9B, 0xA5, 0x0D, 0x5F, 0x1D, 0xDC, 0x86, 0x64, 0x12, 0x55, 0x31, 0xB8]

/-- What the invite says. -/
def inviteToken : Token where
  publicKey := inviterKey
  endpoints := [ascii "127.0.0.1:5000"]
  nonce := inviteNonce
  expiresAt := Time.ofUnix 1800000000

end Kin.Invite
