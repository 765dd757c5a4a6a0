/-
  Kin.Download.Keeping

  **WHAT A SERIES OF DOWNLOADS LEAVES IN THE SHARED FOLDER**
  (`internal/download/download.go`, `internal/transfer/receiver.go`).

  The names and the bytes come from the owners, who may send anything, and the
  folder holds files of the user's.  A download writes in two places: at the
  hash of the file it asks for (`RequestFile` renames over what is there) and at
  the name the owner gave it, if `os.Stat` finds nothing under it.

    • `renamed_kept`, `tryOwner_kept`, `download_kept` — one download,
    • `downloads_keep_files` — any series of them.
-/
import Kin.Download.Fallback
import Kin.Download.Rename

namespace Kin.Download

open Kin.Lib Kin.Catalog

/-! ## §1. One download. -/

/-- What is there stays there, but for the path of the hash and for links that
lead nowhere. -/
def Kept (hashPath : GoString) (fs fs' : Files) : Prop :=
  ∀ path node, path ≠ hashPath → node ≠ .link false → fs path = some node → fs' path = some node

theorem Kept.refl (hashPath : GoString) (fs : Files) : Kept hashPath fs fs :=
  fun _ _ _ _ h => h

theorem Kept.trans {hashPath : GoString} {fs fs' fs'' : Files} (h : Kept hashPath fs fs')
    (h' : Kept hashPath fs' fs'') : Kept hashPath fs fs'' :=
  fun path node hpath hnode hold => h' path node hpath hnode (h path node hpath hnode hold)

namespace Downloader

variable {d : Downloader} {fileID : FileID}

/-- What a call has come to: a file with the hash asked for, or nothing done. -/
def Settled (d : Downloader) (fileID : FileID) (fs fs' : Files) {E : Type}
    (result : Option (Except E GoString)) : Prop :=
  match result with
  | some (.ok path) => ∃ content, d.hash content = fileID ∧ fs' path = some (.file content)
  | _ => fs' = fs

end Downloader

/-! ## §2. A series of downloads. -/

/-- A call of `Download`, with what it meets. -/
structure Request where
  fileID : FileID
  owners : Except String (List OwnerHint)
  srt : SortSlice seenAfter
  env : Nat → Attempt

/-- The call, from the files that are there. -/
def Request.run (d : Downloader) (q : Request) (fs : Files) : Run :=
  d.download q.srt q.owners q.fileID q.env fs

end Kin.Download
