/-
  Kin.Catalog.Store

  **THE CATALOG STORE** (`internal/catalog/{entry,store,convert}.go`).

  Two bbolt buckets: `entries`, keyed by the 64 bytes `owner ++ file`, and the
  denormalised `availability` index, keyed by the file id.  A write runs in ONE
  transaction: it commits or leaves the database as it was (`Store.update`).
  A bucket keeps JSON text; the model keeps the value that reading the text
  back gives, so `Entry.json` both checks the times and normalises the strings.

  Every `time.Now()` of the source is a reading of the transaction's `Clock`,
  in the order the source takes them.
-/
import Kin.Kinpb.Messages

namespace Kin.Catalog

open Kin.Lib

/-! ## §1. Records. -/

/-- A file known to the catalog. -/
structure Entry where
  fileID : FileID
  name : GoString
  size : Int
  modTime : Time
  ownerNodeID : NodeID
  localPath : GoString
  deleted : Bool
  updatedAt : Time
  deriving DecidableEq

/-- A peer has a copy of a file. -/
structure OwnerHint where
  nodeID : NodeID
  seenAt : Time
  deriving DecidableEq

/-- What `encoding/json` says of a time outside the years 0‥9999. -/
def yearError : String :=
  "json: error calling MarshalJSON for type time.Time: " ++
    "Time.MarshalJSON: year outside of range [0,9999]"

/-- `json.Marshal(e)`, as the value that `json.Unmarshal` reads back. -/
def Entry.json (e : Entry) : Except String Entry :=
  if e.modTime.jsonOK && e.updatedAt.jsonOK then
    .ok { e with name := jsonString e.name, localPath := jsonString e.localPath }
  else .error yearError

/-- `json.Marshal(hints)`, as the value read back. -/
def jsonHints (hints : List OwnerHint) : Except String (List OwnerHint) :=
  if hints.all (fun h => h.seenAt.jsonOK) then .ok hints else .error yearError

/-- `fmt.Errorf("<context>: %w", err)`. -/
def wrapErr {α : Type} (context : String) : Except String α → Except String α :=
  Except.mapError (fun err => context ++ ": " ++ err)

/-! ## §2. The transaction helpers. -/

/-- The two buckets of `catalog.db`. -/
structure DB where
  entries : Bucket GoString Entry
  availability : Bucket GoString (List OwnerHint)

/-- The database `Open` creates. -/
def DB.empty : DB := ⟨Bucket.empty, Bucket.empty⟩

def compositeKey (ownerNodeID : NodeID) (fileID : FileID) : GoString :=
  ownerNodeID.val ++ fileID.val

def putEntry (tx : DB) (e : Entry) : Except String DB := do
  let data ← e.json
  return { tx with entries := tx.entries.put (compositeKey e.ownerNodeID e.fileID) data }

def listByPrefixTx (tx : DB) (ownerNodeID : NodeID) : List Entry :=
  ((tx.entries.scan ownerNodeID.val).map Prod.snd).filter (fun e => !e.deleted)

/-- The cursor deletes each key of the scan as it passes it. -/
def deleteByPrefix (tx : DB) (ownerNodeID : NodeID) : DB :=
  { tx with
    entries := ((tx.entries.scan ownerNodeID.val).map Prod.fst).foldl Bucket.delete tx.entries }

/-- The hint loop of `addAvailability`: refresh the node's first hint, or
append one. -/
def markSeen (nodeID : NodeID) (now : Time) : List OwnerHint → List OwnerHint
  | [] => [⟨nodeID, now⟩]
  | h :: hints =>
    if h.nodeID = nodeID then { h with seenAt := now } :: hints
    else h :: markSeen nodeID now hints

def addAvailability (tx : DB) (fileID : FileID) (nodeID : NodeID) (now : Time) :
    Except String DB := do
  let hints := (tx.availability.get fileID.val).getD []
  let data ← jsonHints (markSeen nodeID now hints)
  return { tx with availability := tx.availability.put fileID.val data }

def removeAvailability (tx : DB) (fileID : FileID) (nodeID : NodeID) : Except String DB :=
  match tx.availability.get fileID.val with
  | none => .ok tx
  | some hints =>
    let filtered := hints.filter (fun h => h.nodeID ≠ nodeID)
    -- the key goes with its last owner
    if filtered = [] then .ok { tx with availability := tx.availability.delete fileID.val }
    else do
      let data ← jsonHints filtered
      return { tx with availability := tx.availability.put fileID.val data }

/-! ## §3. Writes. -/

/-- A node's open catalog. -/
structure Store where
  db : DB
  selfID : NodeID

/-- `catalog.Open` on a fresh path. -/
def Store.openFresh (selfID : NodeID) : Store := ⟨DB.empty, selfID⟩

namespace Store

/-- `db.Update(f)`: commit on success, roll back on error. -/
def update (s : Store) (f : DB → Except String DB) : Store × Option String :=
  match f s.db with
  | .ok db => ({ s with db := db }, none)
  | .error err => (s, some err)

def putLocal (s : Store) (clk : Clock) (entry : Entry) : Store × Option String :=
  -- a copy: the caller's entry is not changed
  let e := { entry with ownerNodeID := s.selfID, updatedAt := clk.now 0, deleted := false }
  s.update fun tx => do
    let tx ← wrapErr "put local" (putEntry tx e)
    addAvailability tx e.fileID s.selfID (clk.now 1)

def deleteLocal (s : Store) (clk : Clock) (fileID : FileID) : Store × Option String :=
  s.update fun tx =>
    match tx.entries.get (compositeKey s.selfID fileID) with
    | none => .ok tx -- nothing to delete
    | some e => do
        let tx ← wrapErr "delete local"
          (putEntry tx { e with deleted := true, updatedAt := clk.now 0 })
        removeAvailability tx fileID s.selfID

/-- The insert loop of `PutPeerEntries`. -/
def putPeerLoop (peerNodeID : NodeID) : DB → Clock → List Entry → Except String DB
  | tx, _, [] => .ok tx
  | tx, clk, entry :: rest => do
      let e := { entry with ownerNodeID := peerNodeID, updatedAt := clk.now 0 }
      let tx ← wrapErr "put peer entry" (putEntry tx e)
      -- a tombstone adds no owner, and takes none away
      let tx ← (if e.deleted then .ok tx
        else wrapErr "put peer availability" (addAvailability tx e.fileID peerNodeID (clk.now 1)))
      putPeerLoop peerNodeID tx (clk.drop 2) rest

def putPeerEntries (s : Store) (clk : Clock) (peerNodeID : NodeID) (entries : List Entry) :
    Store × Option String :=
  -- the peer's entries go, its places in the owner lists stay
  s.update fun tx => putPeerLoop peerNodeID (deleteByPrefix tx peerNodeID) clk entries

/-- The availability loop of `RemovePeer`. -/
def removePeerLoop (peerNodeID : NodeID) : DB → List Entry → Except String DB
  | tx, [] => .ok tx
  | tx, e :: rest => do
      let tx ← wrapErr "remove peer availability" (removeAvailability tx e.fileID peerNodeID)
      removePeerLoop peerNodeID tx rest

def removePeer (s : Store) (peerNodeID : NodeID) : Store × Option String :=
  s.update fun tx => do
    -- the listing shows live entries only
    let tx ← removePeerLoop peerNodeID tx (listByPrefixTx tx peerNodeID)
    return deleteByPrefix tx peerNodeID

/-! ## §4. Reads. -/

def listByOwner (s : Store) (nodeID : NodeID) : List Entry := listByPrefixTx s.db nodeID

def listLocal (s : Store) : List Entry := s.listByOwner s.selfID

def lookupLocalByPath (s : Store) (path : GoString) : Option Entry :=
  ((s.db.entries.scan s.selfID.val).map Prod.snd).find?
    (fun e => !e.deleted && decide (e.localPath = path))

def listAll (s : Store) : List Entry :=
  (s.db.entries.items.map Prod.snd).filter (fun e => !e.deleted)

def getOwners (s : Store) (fileID : FileID) : List OwnerHint :=
  (s.db.availability.get fileID.val).getD []

def getEntry (s : Store) (ownerNodeID : NodeID) (fileID : FileID) : Option Entry :=
  s.db.entries.get (compositeKey ownerNodeID fileID)

def listForPeer (s : Store) (excludeNodeID : NodeID) : List Entry :=
  (s.db.entries.items.map Prod.snd).filter
    (fun e => !e.deleted && decide (e.ownerNodeID ≠ excludeNodeID))

end Store

/-! ## §5. To and from the wire. -/

def entryToProto (e : Entry) : Kinpb.CatalogFile where
  fileId := e.fileID.val
  name := e.name
  size := e.size
  modTimeUnix := e.modTime.unix
  ownerNodeId := e.ownerNodeID.val
  deleted := e.deleted

/-- The zero `time.Time` that an entry from the wire has as its `UpdatedAt`. -/
def zeroTime : Time := Time.ofUnix (-62135596800)

def protoToEntry (f : Kinpb.CatalogFile) : Except String Entry :=
  match Bytes.ofList? 32 f.fileId with
  | none => .error s!"file_id must be 32 bytes, got {f.fileId.length}"
  | some fileID =>
    match Bytes.ofList? 32 f.ownerNodeId with
    | none => .error s!"owner_node_id must be 32 bytes, got {f.ownerNodeId.length}"
    | some ownerNodeID =>
      .ok {
        fileID := fileID
        name := f.name
        size := f.size
        modTime := Time.ofUnix f.modTimeUnix
        ownerNodeID := ownerNodeID
        localPath := []
        deleted := f.deleted
        updatedAt := zeroTime }

def entriesToProto (entries : List Entry) : List Kinpb.CatalogFile := entries.map entryToProto

end Kin.Catalog
