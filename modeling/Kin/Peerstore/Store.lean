/-
  Kin.Peerstore.Store

  **THE PEER STORE** (`internal/peerstore/`): known peers and used invite
  nonces.

  One database with two buckets.  `PutPeer` and `UpdateLastSeen` write the
  peers, `SaveNonce` the nonces; a store is what `Validate` takes as its
  `NonceStore`.

    • `putPeer`, `updateLastSeen`, `getPeer`, `listPeers`, `mergeEndpoints`,
    • `putPeer_nonces`, `updateLastSeen_nonces` — they leave the nonces alone.

  A transaction of the database either fails and changes nothing, or commits.
-/
import Kin.Catalog.Store
import Kin.Invite.Join

namespace Kin.Peerstore

open Kin.Lib

/-! ## §1. Peers. -/

inductive TrustState where
  /-- The empty string. -/
  | unset
  | tofu
  | suspect
  | blocked
  deriving DecidableEq

structure Peer where
  nodeID : NodeID
  publicKey : GoString
  endpoints : List GoString
  trustState : TrustState
  lastSeen : Time
  deriving DecidableEq

/-- `json.Marshal` of a peer, as `json.Unmarshal` reads it back. -/
def Peer.json (p : Peer) : Except String Peer :=
  if p.lastSeen.jsonOK then .ok { p with endpoints := p.endpoints.map jsonString }
  else .error Catalog.yearError

def errKeyChanged : String := "peerstore: public key changed for known node (TOFU violation)"

/-- `mergeEndpoints`: `seen` holds what exists, and does not grow in the second
loop. -/
def mergeEndpoints (existing incoming : List GoString) : List GoString :=
  existing ++ incoming.filter (fun ep => ep ∉ existing)

/-! ## §2. The store. -/

structure Store extends Invite.NonceStore where
  peers : Bucket GoString Peer

/-- `peerstore.Open` on a fresh path. -/
def Store.openFresh : Store := ⟨⟨Bucket.empty⟩, Bucket.empty⟩

namespace Store

/-- What `PutPeer` writes under the peer's id. -/
def updatedPeer (s : Store) (now : Time) (p : Peer) : Except String Peer :=
  match s.peers.get p.nodeID.val with
  | some prev =>
    if prev.publicKey ≠ p.publicKey then .error errKeyChanged
    else
      .ok { p with
        endpoints := mergeEndpoints prev.endpoints p.endpoints
        trustState := if p.trustState = .unset then .tofu else p.trustState
        lastSeen := now }
  | none =>
    .ok { p with
      trustState := if p.trustState = .unset then .tofu else p.trustState
      lastSeen := now }

def putPeer (s : Store) (now : Time) (p : Peer) : Store × Option String :=
  match s.updatedPeer now p with
  | .error err => (s, some err)
  | .ok updated =>
    match updated.json with
    | .error err => (s, some ("marshal peer: " ++ err))
    | .ok data => ({ s with peers := s.peers.put p.nodeID.val data }, none)

def getPeer (s : Store) (nodeID : NodeID) : Option Peer := s.peers.get nodeID.val

def listPeers (s : Store) : List Peer := s.peers.items.map Prod.snd

def updateLastSeen (s : Store) (now : Time) (nodeID : NodeID) : Store × Option String :=
  match s.peers.get nodeID.val with
  | none => (s, none)
  | some p =>
    match ({ p with lastSeen := now } : Peer).json with
    | .error err => (s, some ("marshal peer: " ++ err))
    | .ok data => ({ s with peers := s.peers.put nodeID.val data }, none)

/-! ## §3. What the writes of peers leave alone. -/

@[simp] theorem putPeer_nonces (s : Store) (now : Time) (p : Peer) :
    (s.putPeer now p).1.toNonceStore = s.toNonceStore := by
  unfold putPeer
  split
  · rfl
  · split <;> rfl

@[simp] theorem updateLastSeen_nonces (s : Store) (now : Time) (nodeID : NodeID) :
    (s.updateLastSeen now nodeID).1.toNonceStore = s.toNonceStore := by
  unfold updateLastSeen
  split
  · rfl
  · split <;> rfl

end Store

end Kin.Peerstore
