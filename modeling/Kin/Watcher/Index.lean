/-
  Kin.Watcher.Index

  **WHAT THE WATCHER DOES TO CATALOG AND INDEX**
  (`internal/watcher/watcher.go`, `internal/transfer/localindex.go`).

  `indexFile` puts a file into the catalog and then into the in-memory index;
  `handleRemove` finds the first live entry with a path and takes its content out
  of both.  Both keep ONE path for each content.  The paths of the catalog have
  been through JSON, those of the index have not.

    • `indexFile_localPathOf`, `handleRemove_cases` — what a call changes,
    • `Lockstep` — catalog and index hold the same paths; every call with a path
      in valid UTF-8 keeps it.

  The `onChange` callback and the log are not modelled, nor are symbolic links:
  `os.Stat` and a directory listing agree on what is a regular file.
-/
import Kin.Catalog.Ops
import Kin.Lib.Sha256
import Kin.Transfer.Sender

namespace Kin.Watcher

open Kin.Lib Kin.Catalog Kin.Transfer Kin.Kinpb

/-! ## §1. The shared folder. -/

/-- What `os.Stat` tells. -/
structure FileInfo where
  regular : Bool
  size : Int
  modTime : Time
  deriving DecidableEq, Repr

/-- A file of the shared folder. -/
structure File where
  content : GoString
  modTime : Time
  regular : Bool
  /-- `os.Open` and reading to the end succeed. -/
  readable : Bool
  deriving DecidableEq, Repr

def File.info (f : File) : FileInfo := ⟨f.regular, f.content.length, f.modTime⟩

/-- The files by path, in the order in which `WalkDir` comes to them. -/
abbrev Folder := GoMap GoString File

def Folder.stat (fs : Folder) (path : GoString) : Except GoString FileInfo :=
  match fs.lookup path with
  | none => .error (ascii "stat " ++ path ++ ascii ": no such file or directory")
  | some f => .ok f.info

def hashFile (fs : Folder) (path : GoString) : Except GoString FileID :=
  match fs.lookup path with
  | none => .error (ascii "open " ++ path ++ ascii ": no such file or directory")
  | some f =>
    if f.readable then .ok (Sha256.sum256 f.content)
    else .error (ascii "open " ++ path ++ ascii ": permission denied")

/-! ## §2. The calls. -/

/-- What the watcher keeps up to date. -/
structure Watched where
  catalog : Store
  index : LocalIndex

/-- `LocalIndex.Add`: it hashes the file once more. -/
def add (index : LocalIndex) (fs : Folder) (path : GoString) : Except GoString LocalIndex :=
  match hashFile fs path with
  | .error err => .error (ascii "index add: " ++ err)
  | .ok hash => .ok (index.insert hash path)

/-- The entry that `indexFile` builds. -/
def newEntry (path : GoString) (info : FileInfo) (hash : FileID) : Entry where
  fileID := hash
  name := filepathBase path
  size := info.size
  modTime := info.modTime
  -- `PutLocal` sets owner, `Deleted` and `UpdatedAt` itself
  ownerNodeID := ⟨List.replicate 32 0, rfl⟩
  localPath := path
  deleted := false
  updatedAt := zeroTime

/-- `indexFile`, nothing else happening meanwhile. -/
def indexFile (fs : Folder) (clk : Clock) (path : GoString) (w : Watched) :
    Watched × Option GoString :=
  match fs.stat path with
  | .error err => (w, some err)
  | .ok info =>
    if !info.regular then (w, none)
    else
      match hashFile fs path with
      | .error err => (w, some (ascii "hash " ++ path ++ ascii ": " ++ err))
      | .ok hash =>
        match w.catalog.putLocal clk (newEntry path info hash) with
        | (catalog, some err) =>
          ({ w with catalog := catalog }, some (ascii "catalog put: " ++ ascii err))
        | (catalog, none) =>
          match add w.index fs path with
          | .error err =>
            ({ w with catalog := catalog }, some (ascii "index add: " ++ err))
          | .ok index => (⟨catalog, index⟩, none)

/-- `handleRemove`; its errors are logged. -/
def handleRemove (clk : Clock) (path : GoString) (w : Watched) : Watched :=
  match w.catalog.lookupLocalByPath path with
  | none => w
  | some entry =>
    match w.catalog.deleteLocal clk entry.fileID with
    | (catalog, some _) => { w with catalog := catalog }
    | (catalog, none) => ⟨catalog, w.index.erase entry.fileID⟩

/-- The walk of `scan` over the paths it comes to; what cannot be indexed is
logged. -/
def scanPaths (fs : Folder) : List GoString → Clock → Watched → Watched
  | [], _, w => w
  | path :: paths, clk, w =>
    -- `d.Type().IsRegular()`
    if (fs.lookup path).any File.regular then
      scanPaths fs paths (clk.drop 2) (indexFile fs clk path w).1
    else scanPaths fs paths clk w

/-- `scan` of a folder that does not change meanwhile. -/
def scan (fs : Folder) (clk : Clock) (w : Watched) : Watched := scanPaths fs fs.keys clk w

/-! ## §3. The catalog by content. -/

end Kin.Watcher

namespace Kin.Catalog.Store

open Kin.Lib

/-- The path of an entry that is there and live. -/
def livePath : Option Entry → Option GoString
  | none => none
  | some e => if e.deleted then none else some e.localPath

/-- The path of the live local entry of a content. -/
def localPathOf (s : Store) (h : FileID) : Option GoString := livePath (s.getEntry s.selfID h)

theorem localPathOf_eq_some {s : Store} {h : FileID} {p : GoString} :
    s.localPathOf h = some p
      ↔ ∃ e, s.db.entry s.selfID h = some e ∧ e.deleted = false ∧ e.localPath = p := by
  show livePath (s.db.entry s.selfID h) = some p ↔ _
  cases s.db.entry s.selfID h with
  | none => simp [livePath]
  | some e => cases hd : e.deleted <;> simp [livePath, hd]

/-- The live local entries are the ones `ListLocal` lists. -/
theorem localPathOf_iff_listLocal {s : Store} (hwf : s.db.WF) {h : FileID} {p : GoString} :
    s.localPathOf h = some p ↔ ∃ e ∈ s.listLocal, e.fileID = h ∧ e.localPath = p := by
  rw [localPathOf_eq_some]
  constructor
  · intro ⟨e, he, hlive, hp⟩
    have hid := (hwf.entry_ids he).2
    refine ⟨e, (mem_listByPrefixTx hwf).mpr ⟨?_, hlive⟩, hid, hp⟩
    rw [hid]
    exact he
  · intro ⟨e, he, hid, hp⟩
    obtain ⟨hget, hlive⟩ := (mem_listByPrefixTx hwf).mp he
    rw [hid] at hget
    exact ⟨e, hget, hlive, hp⟩

theorem putLocal_localPathOf {s : Store} (hwf : s.db.WF) (clk : Clock) {entry : Entry}
    (hm : entry.modTime.jsonOK = true) (h : FileID) :
    (s.putLocal clk entry).1.localPathOf h
      = if h = entry.fileID then some (jsonString entry.localPath) else s.localPathOf h := by
  rw [putLocal_spec hwf clk hm]
  unfold localPathOf
  rw [getEntry_eq, getEntry_eq, DB.entry_withHint, DB.entry_withEntry]
  show livePath (if s.selfID = s.selfID ∧ h = entry.fileID then _ else _) = _
  by_cases hh : h = entry.fileID
  · rw [if_pos ⟨rfl, hh⟩, if_pos hh]
    rfl
  · rw [if_neg (fun hand => hh hand.2), if_neg hh]

theorem deleteLocal_localPathOf {s : Store} (hwf : s.db.WF) (clk : Clock) (f h : FileID) :
    (s.deleteLocal clk f).1.localPathOf h = if h = f then none else s.localPathOf h := by
  obtain ⟨db, hdel, hother, hdead, _⟩ := deleteLocal_spec hwf clk f
  rw [hdel]
  show livePath (db.entry s.selfID h) = if h = f then none else livePath (s.db.entry s.selfID h)
  by_cases hh : h = f
  · subst hh
    rw [if_pos rfl]
    cases he : db.entry s.selfID h with
    | none => rfl
    | some e => exact if_pos (hdead e he)
  · rw [if_neg hh, hother _ _ (fun hand => hh hand.2)]

/-- `LookupLocalByPath` finds a live local entry with the path, if there is one. -/
theorem lookupLocalByPath_some {s : Store} (hwf : s.db.WF) {path : GoString} {e : Entry}
    (h : s.lookupLocalByPath path = some e) : s.localPathOf e.fileID = some path := by
  unfold lookupLocalByPath at h
  have hmem := List.mem_of_find?_eq_some h
  have hc := List.find?_some h
  simp only [Bool.and_eq_true, Bool.not_eq_true', decide_eq_true_eq] at hc
  rw [localPathOf_iff_listLocal hwf]
  refine ⟨e, ?_, rfl, hc.2⟩
  show e ∈ ((s.db.entries.scan s.selfID.val).map Prod.snd).filter (fun e => !e.deleted)
  rw [List.mem_filter]
  exact ⟨hmem, by rw [hc.1]; rfl⟩

theorem lookupLocalByPath_none {s : Store} (hwf : s.db.WF) {path : GoString}
    (h : s.lookupLocalByPath path = none) (hash : FileID) : s.localPathOf hash ≠ some path := by
  intro hp
  obtain ⟨e, he, _, hpath⟩ := (localPathOf_iff_listLocal hwf).mp hp
  unfold lookupLocalByPath at h
  change e ∈ ((s.db.entries.scan s.selfID.val).map Prod.snd).filter (fun e => !e.deleted) at he
  obtain ⟨hmem, hlive⟩ := List.mem_filter.mp he
  have hno := List.find?_eq_none.mp h e hmem
  simp only [hlive, Bool.true_and, decide_eq_true_eq] at hno
  exact hno hpath

end Kin.Catalog.Store

namespace Kin.Watcher

open Kin.Lib Kin.Catalog Kin.Transfer Kin.Kinpb

/-! ## §4. What a call changes. -/

/-- The file passes every check of `indexFile`. -/
def File.storable (f : File) : Bool := f.regular && f.readable && f.modTime.jsonOK

theorem stat_of_lookup {fs : Folder} {path : GoString} {f : File} (h : fs.lookup path = some f) :
    fs.stat path = .ok f.info := by
  unfold Folder.stat
  rw [h]

theorem hashFile_of_lookup {fs : Folder} {path : GoString} {f : File}
    (h : fs.lookup path = some f) :
    hashFile fs path
      = if f.readable then .ok (Sha256.sum256 f.content)
        else .error (ascii "open " ++ path ++ ascii ": permission denied") := by
  unfold hashFile
  rw [h]

/-- A file that is missing or fails a check changes nothing. -/
theorem indexFile_skips {fs : Folder} {path : GoString}
    (h : ∀ f, fs.lookup path = some f → f.storable = false) (clk : Clock) (w : Watched) :
    (indexFile fs clk path w).1 = w := by
  unfold indexFile
  cases hf : fs.lookup path with
  | none =>
    unfold Folder.stat
    rw [hf]
  | some f =>
    rw [stat_of_lookup hf, hashFile_of_lookup hf]
    show (if (!f.regular) = true then _ else _ : Watched × Option GoString).1 = w
    have hbad := h f hf
    unfold File.storable at hbad
    cases hreg : f.regular with
    | false => rfl
    | true =>
      cases hread : f.readable with
      | false => rfl
      | true =>
        -- the transaction rolls back
        have hm : ¬ (newEntry path f.info (Sha256.sum256 f.content)).modTime.jsonOK = true := by
          rw [hreg, hread] at hbad
          show ¬ f.modTime.jsonOK = true
          simpa using hbad
        simp only [Bool.not_true, Bool.false_eq_true, if_false, if_true]
        rw [Store.putLocal_error w.catalog clk hm]

/-- **A storable file is put into the catalog and into the index.** -/
theorem indexFile_records {fs : Folder} {path : GoString} {f : File} (hf : fs.lookup path = some f)
    (hs : f.storable = true) {w : Watched} (hwf : w.catalog.db.WF) (clk : Clock) :
    indexFile fs clk path w
      = (⟨(w.catalog.putLocal clk (newEntry path f.info (Sha256.sum256 f.content))).1,
          w.index.insert (Sha256.sum256 f.content) path⟩, none) := by
  unfold File.storable at hs
  simp only [Bool.and_eq_true] at hs
  obtain ⟨⟨hreg, hread⟩, hm⟩ := hs
  have hput := Store.putLocal_spec hwf clk
    (show (newEntry path f.info (Sha256.sum256 f.content)).modTime.jsonOK = true from hm)
  unfold indexFile add
  rw [stat_of_lookup hf, hashFile_of_lookup hf, if_pos hread]
  dsimp only
  rw [if_neg (by show ¬ (!f.regular) = true; rw [hreg]; simp), hput]

/-- The path of each content after `indexFile` of a storable file. -/
theorem indexFile_localPathOf {fs : Folder} {path : GoString} {f : File}
    (hf : fs.lookup path = some f) (hs : f.storable = true) {w : Watched}
    (hwf : w.catalog.db.WF) (clk : Clock) (h : FileID) :
    (indexFile fs clk path w).1.catalog.localPathOf h
      = if h = Sha256.sum256 f.content then some (jsonString path)
        else w.catalog.localPathOf h := by
  have hm : f.modTime.jsonOK = true := by
    unfold File.storable at hs
    simp only [Bool.and_eq_true] at hs
    exact hs.2
  rw [indexFile_records hf hs hwf]
  exact Store.putLocal_localPathOf hwf clk hm h

/-- **`handleRemove` takes out one content with the path, or there is none.** -/
theorem handleRemove_cases {w : Watched} (hwf : w.catalog.db.WF) (clk : Clock) (path : GoString) :
    (∃ h, w.catalog.localPathOf h = some path
        ∧ (∀ g, (handleRemove clk path w).catalog.localPathOf g
            = if g = h then none else w.catalog.localPathOf g)
        ∧ (handleRemove clk path w).catalog = (w.catalog.deleteLocal clk h).1
        ∧ (handleRemove clk path w).index = w.index.erase h)
      ∨ ((∀ h, w.catalog.localPathOf h ≠ some path) ∧ handleRemove clk path w = w) := by
  cases hl : w.catalog.lookupLocalByPath path with
  | none =>
    refine Or.inr ⟨Store.lookupLocalByPath_none hwf hl, ?_⟩
    unfold handleRemove
    rw [hl]
  | some e =>
    obtain ⟨db, hdel, _⟩ := Store.deleteLocal_spec hwf clk e.fileID
    have hcall : handleRemove clk path w
        = ⟨(w.catalog.deleteLocal clk e.fileID).1, w.index.erase e.fileID⟩ := by
      unfold handleRemove
      rw [hl]
      dsimp only
      rw [hdel]
    refine Or.inl ⟨e.fileID, Store.lookupLocalByPath_some hwf hl, fun g => ?_, ?_, ?_⟩
    · rw [hcall]
      exact Store.deleteLocal_localPathOf hwf clk e.fileID g
    · rw [hcall]
    · rw [hcall]

theorem indexFile_wf (fs : Folder) (clk : Clock) (path : GoString) {w : Watched}
    (hwf : w.catalog.db.WF) : (indexFile fs clk path w).1.catalog.db.WF := by
  by_cases h : ∀ f, fs.lookup path = some f → f.storable = false
  · rw [indexFile_skips h]
    exact hwf
  · push Not at h
    obtain ⟨f, hf, hs⟩ := h
    rw [indexFile_records hf (by simpa using hs) hwf]
    exact Op.apply_wf hwf (.putLocal clk _)

theorem handleRemove_wf (clk : Clock) (path : GoString) {w : Watched} (hwf : w.catalog.db.WF) :
    (handleRemove clk path w).catalog.db.WF := by
  rcases handleRemove_cases hwf clk path with ⟨h, _, _, hcat, _⟩ | ⟨_, hsame⟩
  · rw [hcat]
    exact Op.apply_wf hwf (.deleteLocal clk h)
  · rw [hsame]
    exact hwf

/-! ## §5. Catalog and index. -/

/-- Catalog and index hold the same path for each content. -/
def Lockstep (w : Watched) : Prop := ∀ h, w.index.lookup h = w.catalog.localPathOf h

theorem lockstep_indexFile (fs : Folder) (clk : Clock) {path : GoString}
    (hv : validUTF8 path = true) {w : Watched} (hwf : w.catalog.db.WF) (hl : Lockstep w) :
    Lockstep (indexFile fs clk path w).1 := by
  by_cases h : ∀ f, fs.lookup path = some f → f.storable = false
  · rw [indexFile_skips h]
    exact hl
  · push Not at h
    obtain ⟨f, hf, hs⟩ := h
    have hs : f.storable = true := by simpa using hs
    intro g
    rw [indexFile_localPathOf hf hs hwf, indexFile_records hf hs hwf]
    show AList.lookup g (AList.insert _ path w.index) = _
    rw [GoMap.lookup_insert, hl g, show jsonString path = path from of_decide_eq_true hv]

theorem lockstep_handleRemove (clk : Clock) (path : GoString) {w : Watched}
    (hwf : w.catalog.db.WF) (hl : Lockstep w) : Lockstep (handleRemove clk path w) := by
  rcases handleRemove_cases hwf clk path with ⟨h, _, hpaths, _, hidx⟩ | ⟨_, hsame⟩
  · intro g
    rw [hpaths g, hidx, GoMap.lookup_erase, hl g]
  · rw [hsame]
    exact hl

end Kin.Watcher
