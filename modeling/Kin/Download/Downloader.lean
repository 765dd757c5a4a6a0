/-
  Kin.Download.Downloader

  **DOWNLOADS BY CATALOG** (`internal/download/download.go`).

  `Download` asks the catalog who has a file and tries the owners, most recently
  seen first, until one delivers.  What a try does comes in four steps:

      Dial              — a connection to the owner
      RequestFile       — the file arrives as `sharedDir/<hash>`
      renameToOriginal  — it gets the name the owner's catalog entry has, if it can
      index.Add         — its error is only logged

  What each call of the outside comes back with is part of an `Attempt`: for
  `Dial` and `GetEntry` by the node id they are called with, and the ids that are
  dialled are recorded.  Of the file system a path is known by its cleaned text.
-/
import Kin.Catalog.Store
import Kin.Lib.Path
import Kin.Transfer.Download

namespace Kin.Download

open Kin.Lib Kin.Catalog Kin.Kinpb

/-! ## §1. Files. -/

/-- What a path can stand for. -/
inductive Node where
  | file (content : GoString)
  | dir
  /-- A symbolic link; `os.Stat` follows it, and gets somewhere or not. -/
  | link (reaches : Bool)
  deriving DecidableEq

/-- The file system, by path. -/
abbrev Files := GoString → Option Node

namespace Files

/-- `os.Stat` returns no error. -/
def stat (fs : Files) (path : GoString) : Bool :=
  match fs path with
  | none => false
  | some (.link reaches) => reaches
  | some _ => true

def put (fs : Files) (path : GoString) (node : Node) : Files := Function.update fs path (some node)

def remove (fs : Files) (path : GoString) : Files := Function.update fs path none

/-- A successful `os.Rename`: it does not follow a link at `dst`, it replaces it. -/
def rename (fs : Files) (src dst : GoString) : Files :=
  match fs src with
  | some node => (fs.remove src).put dst node
  | none => fs

end Files

/-! ## §2. One owner. -/

/-- A connection, by what arrives on it. -/
abbrev Conn := List (Except String Envelope)

/-- What the calls of one `tryOwner` come back with. -/
structure Attempt where
  /-- `Dial`, by the node id it is called with. -/
  dial : NodeID → Except String Conn
  /-- The receiving side of `RequestFile`. -/
  host : Transfer.Host
  /-- `GetEntry`, by the owner and the file. -/
  getEntry : NodeID → FileID → Except String (Option Entry)
  /-- The error of `os.Rename` in `renameToOriginal`. -/
  rename : Option String
  /-- The error of `index.Add`. -/
  add : Option String

/-- A call of `Dial`: the node ids dialled by it, and what it returns. -/
def Attempt.call (a : Attempt) (peerNodeID : NodeID) : List NodeID × Except String Conn :=
  ([peerNodeID], a.dial peerNodeID)

/-- A `Downloader`; `hash` is SHA-256. -/
structure Downloader where
  hash : GoString → FileID
  sharedDir : GoString
  selfID : NodeID

namespace Downloader

/-- The path that `RequestFile` saves the file under. -/
def hashPath (d : Downloader) (fileID : FileID) : GoString :=
  join d.sharedDir (Transfer.hexName fileID)

/-- `RequestFile` into the shared directory; the temporary file is gone when it
returns. -/
def requestFile (d : Downloader) (fileID : FileID) (host : Transfer.Host) (conn : Conn)
    (fs : Files) : Option (Files × Except String GoString) :=
  match Transfer.requestFile d.hash fileID host conn with
  | none => none
  | some (.error err) => some (fs, .error err)
  | some (.ok saved) =>
    some (fs.put (join d.sharedDir saved.name) (.file saved.content),
      .ok (join d.sharedDir saved.name))

/-- `renameToOriginal`: the files afterwards and the path of the download. -/
def renameToOriginal (d : Downloader) (entry : Except String (Option Entry))
    (renameErr : Option String) (hashPath : GoString) (fs : Files) : Files × GoString :=
  match entry with
  | .error _ => (fs, hashPath)
  | .ok none => (fs, hashPath)
  | .ok (some e) =>
    if e.name = [] then (fs, hashPath)
    else
      let safeName := filepathBase e.name
      if safeName = thisDir ∨ safeName = [slash] then (fs, hashPath)
      else
        let target := join d.sharedDir safeName
        -- a name collision, as far as `Stat` can tell
        if fs.stat target then (fs, hashPath)
        else
          match renameErr with
          | some _ => (fs, hashPath)
          | none => (fs.rename hashPath target, target)

/-- The first `n` bytes of an id under `%x`. -/
def hexID (n : Nat) (id : NodeID) : String :=
  String.ofList ((id.val.take n).flatMap (fun b =>
    [Char.ofNat (Transfer.hexDigit (b.toNat / 16)).toNat,
      Char.ofNat (Transfer.hexDigit (b.toNat % 16)).toNat]))

/-- What a `tryOwner` has done. -/
structure Tried where
  files : Files
  /-- The node ids that `Dial` was called with. -/
  dialed : List NodeID
  /-- The paths that `index.Add` has taken. -/
  indexed : List GoString
  /-- `none` while `RequestFile` is waiting. -/
  result : Option (Except String GoString)

def tryOwner (d : Downloader) (fileID : FileID) (ownerNodeID : NodeID) (a : Attempt) (fs : Files) :
    Tried :=
  match a.call ownerNodeID with
  | (dialed, .error err) =>
    ⟨fs, dialed, [], some (.error ("dial " ++ hexID 8 ownerNodeID ++ ": " ++ err))⟩
  | (dialed, .ok conn) =>
    match d.requestFile fileID a.host conn fs with
    | none => ⟨fs, dialed, [], none⟩
    | some (fs, .error err) => ⟨fs, dialed, [], some (.error ("request file: " ++ err))⟩
    | some (fs, .ok destPath) =>
      let (fs, finalPath) :=
        d.renameToOriginal (a.getEntry ownerNodeID fileID) a.rename destPath fs
      -- an error of `index.Add` is logged, no more
      let indexed := match a.add with
        | some _ => []
        | none => [finalPath]
      ⟨fs, dialed, indexed, some (.ok finalPath)⟩

end Downloader

/-! ## §3. All owners. -/

/-- The errors of `Download`. -/
inductive DownloadError where
  | getOwners (err : String)
  /-- `ErrNoAvailableOwner`. -/
  | noAvailableOwner
  /-- `fmt.Errorf("%w: last error: %v", ErrNoAvailableOwner, lastErr)`. -/
  | allFailed (lastErr : String)
  deriving DecidableEq

namespace DownloadError

def errNoAvailableOwner : String := "download: no available owner for file"

def text : DownloadError → String
  | getOwners err => "download get owners: " ++ err
  | noAvailableOwner => errNoAvailableOwner
  | allFailed lastErr => errNoAvailableOwner ++ ": last error: " ++ lastErr

/-- `errors.Is(err, ErrNoAvailableOwner)`. -/
def isNoAvailableOwner : DownloadError → Bool
  | getOwners _ => false
  | noAvailableOwner => true
  | allFailed _ => true

end DownloadError

/-- `owners[i].SeenAt.After(owners[j].SeenAt)`. -/
def seenAfter (a b : OwnerHint) : Bool := decide (b.seenAt.unixNano < a.seenAt.unixNano)

/-- `sort.Slice` with a given `less`.  It is not stable: of the result is known
that it holds the same elements, none of them before a smaller one. -/
structure SortSlice {α : Type} (less : α → α → Bool) where
  sort : List α → List α
  perm : ∀ l, (sort l).Perm l
  sorted : ∀ l, (sort l).Pairwise (fun a b => less b a = false)

/-- The merge sort is one of them. -/
def SortSlice.merge : SortSlice seenAfter where
  sort l := l.mergeSort (fun a b => !seenAfter b a)
  perm l := List.mergeSort_perm l _
  sorted l := by
    refine (List.pairwise_mergeSort ?_ ?_ l).imp ?_
    · simp only [seenAfter, Bool.not_eq_true', decide_eq_false_iff_not]
      omega
    · simp only [seenAfter, Bool.or_eq_true, Bool.not_eq_true', decide_eq_false_iff_not]
      omega
    · intro a b h
      exact Bool.not_eq_true' _ ▸ h

def filterSelf (owners : List OwnerHint) (selfID : NodeID) : List OwnerHint :=
  owners.filter (fun o => decide (o.nodeID ≠ selfID))

/-- A call of `Download`, as far as it has got. -/
structure Run where
  files : Files
  /-- The node ids dialled, in order. -/
  dialed : List NodeID
  indexed : List GoString
  /-- `none` while the last owner's transfer is waiting. -/
  result : Option (Except DownloadError GoString)

namespace Downloader

variable (d : Downloader)

/-- The loop over the owners; the `k`-th try meets `env k`. -/
def tryOwners (fileID : FileID) (env : Nat → Attempt) :
    (k : Nat) → (lastErr : String) → List OwnerHint → Files → Run
  | _, lastErr, [], fs => ⟨fs, [], [], some (.error (.allFailed lastErr))⟩
  | k, _, owner :: owners, fs =>
    match d.tryOwner fileID owner.nodeID (env k) fs with
    | ⟨fs, dialed, indexed, none⟩ => ⟨fs, dialed, indexed, none⟩
    | ⟨fs, dialed, indexed, some (.ok path)⟩ => ⟨fs, dialed, indexed, some (.ok path)⟩
    | ⟨fs, dialed, indexed, some (.error err)⟩ =>
      let run := tryOwners fileID env (k + 1) err owners fs
      { run with dialed := dialed ++ run.dialed, indexed := indexed ++ run.indexed }

/-- `Download`; `got` is what `GetOwners` returns. -/
def download (srt : SortSlice seenAfter) (got : Except String (List OwnerHint)) (fileID : FileID)
    (env : Nat → Attempt) (fs : Files) : Run :=
  match got with
  | .error err => ⟨fs, [], [], some (.error (.getOwners err))⟩
  | .ok owners =>
    let owners := filterSelf owners d.selfID
    if owners = [] then ⟨fs, [], [], some (.error .noAvailableOwner)⟩
    -- most recently seen first
    else d.tryOwners fileID env 0 "<nil>" (srt.sort owners) fs

end Downloader

end Kin.Download
