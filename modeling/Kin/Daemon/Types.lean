/-
  Kin.Daemon.Types

  **WHAT THE DAEMON TELLS ITS CLIENTS** (`internal/daemon/types.go`, and the
  lists that `handlePeers` and `handleCatalog` of `handler.go` build).

  Node ids go over the socket in hexadecimal.  `handlePeers` does not know who
  is connected: it leaves `Online` at its zero value.

    • `hexNodeID_injective` — no two ids are written alike,
    • `peerInfos_offline` — every peer of a response is shown offline,
    • `peerInfos_nodup` — and no id is in it twice.

  `time.RFC3339` is a parameter: the calendar is not modelled.
-/
import Kin.Catalog.Store
import Kin.Peerstore.Endpoints
import Kin.Transfer.Receiver

namespace Kin.Daemon

open Kin.Lib Kin.Kinpb

/-! ## §1. Ids. -/

def hexNodeID (id : NodeID) : GoString := Transfer.hexName id

def shortID (hex : GoString) : GoString := if hex.length > 16 then hex.take 16 else hex

theorem hexDigit_injective {m n : Nat} (hm : m < 16) (hn : n < 16)
    (h : Transfer.hexDigit m = Transfer.hexDigit n) : m = n := by
  have hall : ∀ m < 16, ∀ n < 16, Transfer.hexDigit m = Transfer.hexDigit n → m = n := by decide
  exact hall m hm n hn h

theorem hexDigits_injective {bs cs : List UInt8}
    (h : bs.flatMap (fun b =>
          [Transfer.hexDigit (b.toNat / 16), Transfer.hexDigit (b.toNat % 16)])
        = cs.flatMap (fun b =>
          [Transfer.hexDigit (b.toNat / 16), Transfer.hexDigit (b.toNat % 16)])) : bs = cs := by
  induction bs generalizing cs with
  | nil =>
    cases cs with
    | nil => rfl
    | cons c cs => cases h
  | cons b bs ih =>
    cases cs with
    | nil => cases h
    | cons c cs =>
      simp only [List.flatMap_cons, List.cons_append, List.nil_append, List.cons.injEq] at h
      obtain ⟨hhigh, hlow, hrest⟩ := h
      have hb := b.toNat_lt
      have hc := c.toNat_lt
      have hdiv := hexDigit_injective (by omega) (by omega) hhigh
      have hmod := hexDigit_injective (by omega) (by omega) hlow
      have hbyte : b = c := UInt8.toNat.inj (by omega)
      rw [hbyte, ih hrest]

theorem hexNodeID_injective {a b : NodeID} (h : hexNodeID a = hexNodeID b) : a = b :=
  Bytes.ext (hexDigits_injective h)

/-! ## §2. Peers, files and events. -/

structure StatusResponse where
  nodeID : GoString
  nodeIDShort : GoString
  listenAddr : GoString
  sharedDir : GoString
  peerCount : Int
  relayAddr : GoString
  relayOnline : Bool
  deriving DecidableEq

structure PeerInfo where
  nodeID : GoString
  nodeIDShort : GoString
  trustState : GoString
  lastSeen : GoString
  endpoints : List GoString
  online : Bool
  deriving DecidableEq

structure FileInfo where
  fileID : GoString
  name : GoString
  size : Int
  modTime : GoString
  ownerNodeID : GoString
  isLocal : Bool
  deriving DecidableEq

/-- An event, with its data as the client decodes them. -/
inductive Event where
  | peerOnline (info : PeerInfo)
  | peerOffline (nodeID : GoString)
  | catalogUpdated
  /-- An event of another type, or with data that do not decode. -/
  | other (type : GoString)
  deriving DecidableEq

/-- What `BroadcastPeerOnline` sends. -/
def onlineEvent (peerID : NodeID) : Event :=
  .peerOnline ⟨hexNodeID peerID, shortID (hexNodeID peerID), [], [], [], true⟩

/-- What `BroadcastPeerOffline` sends. -/
def offlineEvent (peerID : NodeID) : Event := .peerOffline (hexNodeID peerID)

def trustText : Peerstore.TrustState → GoString
  | .unset => []
  | .tofu => ascii "tofu"
  | .suspect => ascii "suspect"
  | .blocked => ascii "blocked"

/-- The list of `handlePeers`. -/
def peerInfos (rfc3339 : Time → GoString) (store : Peerstore.Store) : List PeerInfo :=
  store.listPeers.map (fun p => {
    nodeID := hexNodeID p.nodeID
    nodeIDShort := shortID (hexNodeID p.nodeID)
    trustState := trustText p.trustState
    lastSeen := rfc3339 p.lastSeen
    endpoints := p.endpoints
    online := false })

/-- The list of `handleCatalog`, of the node `selfID`. -/
def fileInfos (rfc3339 : Time → GoString) (selfID : NodeID) (catalog : Catalog.Store) :
    List FileInfo :=
  catalog.listAll.map (fun e => {
    fileID := hexNodeID e.fileID
    name := e.name
    size := e.size
    modTime := rfc3339 e.modTime
    ownerNodeID := hexNodeID e.ownerNodeID
    isLocal := decide (e.ownerNodeID = selfID) })

theorem peerInfos_offline (rfc3339 : Time → GoString) (store : Peerstore.Store) :
    ∀ p ∈ peerInfos rfc3339 store, p.online = false := by
  intro p hp
  obtain ⟨q, -, rfl⟩ := List.mem_map.mp hp
  rfl

/-! ## §3. A response has each peer once. -/

/-- Every record stands under the id it is about. -/
def Keyed (store : Peerstore.Store) : Prop :=
  ∀ key p, store.peers.get key = some p → p.nodeID.val = key

theorem Keyed.put {store : Peerstore.Store} (h : Keyed store) {id : NodeID} {p : Peerstore.Peer}
    (hid : p.nodeID = id) : Keyed { store with peers := store.peers.put id.val p } := by
  intro key q hget
  rw [Bucket.get_put] at hget
  split at hget
  next hkey =>
    obtain rfl := Option.some.inj hget
    rw [hid, hkey]
  next => exact h key q hget

theorem Keyed.apply {store : Peerstore.Store} (h : Keyed store) (op : Peerstore.Op) :
    Keyed (op.apply store) := by
  cases op with
  | putPeer now p =>
    show Keyed (store.putPeer now p).1
    unfold Peerstore.Store.putPeer
    cases hupd : store.updatedPeer now p with
    | error err => exact h
    | ok updated =>
      dsimp only
      cases hjson : updated.json with
      | error err => exact h
      | ok data =>
        refine h.put ?_
        rw [Peerstore.json_eq hjson, Peerstore.updatedPeer_eq hupd]
  | updateLastSeen now n =>
    show Keyed (store.updateLastSeen now n).1
    unfold Peerstore.Store.updateLastSeen
    cases hget : store.peers.get n.val with
    | none => exact h
    | some r =>
      dsimp only
      cases hjson : ({ r with lastSeen := now } : Peerstore.Peer).json with
      | error err => exact h
      | ok data =>
        refine h.put ?_
        rw [Peerstore.json_eq hjson]
        exact Bytes.ext (h n.val r hget)
  | saveNonce nonce => exact h
  | getPeer n => exact h
  | listPeers => exact h
  | hasNonce nonce => exact h

theorem keyed_applyAll (ops : List Peerstore.Op) :
    Keyed (Peerstore.Op.applyAll Peerstore.Store.openFresh ops) := by
  have hall : ∀ (ops : List Peerstore.Op) (store : Peerstore.Store), Keyed store →
      Keyed (Peerstore.Op.applyAll store ops) := by
    intro ops
    induction ops with
    | nil => exact fun store h => h
    | cons op ops ih => exact fun store h => ih (op.apply store) (h.apply op)
  exact hall ops _ (fun key p hget => nomatch hget)

theorem peerInfos_nodup (rfc3339 : Time → GoString) {store : Peerstore.Store} (h : Keyed store) :
    ((peerInfos rfc3339 store).map PeerInfo.nodeID).Nodup := by
  unfold peerInfos Peerstore.Store.listPeers
  rw [List.map_map, List.map_map]
  refine List.pairwise_map.mpr (store.peers.sorted.imp_of_mem ?_)
  rintro ⟨k, p⟩ ⟨k', p'⟩ hp hp' hlt heq
  have hk := h k p ((Bucket.get_eq_some_iff _).mpr hp)
  have hk' := h k' p' ((Bucket.get_eq_some_iff _).mpr hp')
  have hid : p.nodeID = p'.nodeID := hexNodeID_injective heq
  exact absurd hlt (by rw [← hk, ← hk', hid]; exact lt_irrefl _)

end Kin.Daemon
