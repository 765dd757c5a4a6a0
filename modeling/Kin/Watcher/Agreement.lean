/-
  Kin.Watcher.Agreement

  **DO CATALOG AND INDEX AGREE?** (`internal/watcher/watcher.go`,
  `internal/transfer/localindex.go`).

  `indexFile` reads the file twice: the watcher hashes it for the catalog, and
  `LocalIndex.Add` hashes it again for the index, after the catalog's transaction
  has committed.  As long as the file does not change in between, the two stay in
  lockstep through every sequence of calls.  A file that changes or goes between
  the two reads leaves them apart.

    • `lockstep_along_calls`  — every sequence of undisturbed calls,
    • `index_file_all_or_nothing_iff` — one call, whatever the file system shows it.
-/
import Kin.Watcher.Machine

namespace Kin.Watcher

open Kin.Lib Kin.Catalog Kin.Transfer

/-! ## §1. Calls that do not overlap. -/

/-- A call of the watcher, with the folder as it is during the call. -/
inductive WatchCall where
  | indexFile (fs : Folder) (clk : Clock) (path : GoString)
  | handleRemove (clk : Clock) (path : GoString)

namespace WatchCall

def path : WatchCall → GoString
  | indexFile _ _ p => p
  | handleRemove _ p => p

/-- Catalog and index after the call. -/
def apply (w : Watched) : WatchCall → Watched
  | indexFile fs clk p => (Watcher.indexFile fs clk p w).1
  | handleRemove clk p => Watcher.handleRemove clk p w

def applyAll (w : Watched) (calls : List WatchCall) : Watched := calls.foldl apply w

end WatchCall

/-- A new catalog and a new index. -/
def Watched.openFresh (selfID : NodeID) : Watched := ⟨Store.openFresh selfID, ∅⟩

theorem validUTF8_eq (s : GoString) : Kinpb.validUTF8 s = validString s := by
  rw [Bool.eq_iff_iff, ← jsonString_eq_self_iff]
  exact decide_eq_true_iff

/-- **One call** keeps a well-formed catalog in lockstep with the index. -/
theorem lockstep_apply {w : Watched} (hwf : w.catalog.db.WF) (hl : Lockstep w) {call : WatchCall}
    (hv : validString call.path = true) :
    (call.apply w).catalog.db.WF ∧ Lockstep (call.apply w) := by
  rw [← validUTF8_eq] at hv
  cases call with
  | indexFile fs clk p => exact ⟨indexFile_wf fs clk p hwf, lockstep_indexFile fs clk hv hwf hl⟩
  | handleRemove clk p => exact ⟨handleRemove_wf clk p hwf, lockstep_handleRemove clk p hwf hl⟩

theorem lockstep_applyAll {calls : List WatchCall} (hv : ∀ call ∈ calls, validString call.path = true)
    {w : Watched} (hwf : w.catalog.db.WF) (hl : Lockstep w) :
    (WatchCall.applyAll w calls).catalog.db.WF ∧ Lockstep (WatchCall.applyAll w calls) := by
  induction calls generalizing w with
  | nil => exact ⟨hwf, hl⟩
  | cons call calls ih =>
    obtain ⟨hwf', hl'⟩ := lockstep_apply hwf hl (hv call List.mem_cons_self)
    exact ih (fun c hc => hv c (List.mem_cons_of_mem _ hc)) hwf' hl'

/-- **Catalog and index stay in lockstep.**  After every sequence of calls with
UTF-8 paths, over any contents of the folder: the catalog has a live local entry of a
hash with a path exactly if the index leads from the hash to the path.  So the sender
sends every file that is listed and that it can read, and answers a hash without a
live entry with `NotFound`, whatever is on disk. -/
theorem lockstep_along_calls (selfID : NodeID) (calls : List WatchCall)
    (hv : ∀ call ∈ calls, validString call.path = true) :
    let w := WatchCall.applyAll (Watched.openFresh selfID) calls
    (∀ h p, (∃ e, w.catalog.getEntry w.catalog.selfID h = some e ∧ e.deleted = false
          ∧ e.localPath = p)
        ↔ w.index.lookup h = some p)
      ∧ (∀ e ∈ w.catalog.listLocal, w.index.lookup e.fileID = some e.localPath)
      ∧ (∀ e ∈ w.catalog.listLocal, ∀ (disk : Disk) size reads,
          disk.stat e.localPath = some size → disk.openFile e.localPath = .ok reads →
          reads.complete = true →
          SendsFile ((Sender.mk w.index disk).handleRequest e.fileID) e.fileID size reads.content)
      ∧ ∀ (disk : Disk) (h : FileID), (∀ e ∈ w.catalog.listLocal, e.fileID ≠ h) →
          (Sender.mk w.index disk).handleRequest h = ([sendNotFound h], none) := by
  intro w
  have hstart : Lockstep (Watched.openFresh selfID) := fun h => rfl
  obtain ⟨hwf, hl⟩ : w.catalog.db.WF ∧ Lockstep w := lockstep_applyAll hv DB.wf_empty hstart
  have hlisted : ∀ e ∈ w.catalog.listLocal, w.index.lookup e.fileID = some e.localPath := by
    intro e he
    rw [hl e.fileID, Store.localPathOf_iff_listLocal hwf]
    exact ⟨e, he, rfl, rfl⟩
  refine ⟨fun h p => ?_, hlisted, fun e he disk size reads hstat hopen hcomplete => ?_,
    fun disk h hno => ?_⟩
  · rw [hl h]
    exact Store.localPathOf_eq_some.symm
  · exact handleRequest_sends (s := ⟨w.index, disk⟩) (hlisted e he) hstat hopen hcomplete
  · have hnone : w.index.lookup h = none := by
      rw [hl h, Option.eq_none_iff_forall_ne_some]
      intro p hp
      obtain ⟨e, he, hid, -⟩ := (Store.localPathOf_iff_listLocal hwf).mp hp
      exact hno e he hid
    unfold Sender.handleRequest
    rw [hnone]

/-- A file is indexed, sent on request, and not found once it is removed. -/
theorem lockstep_sent_and_removed :
    let path := ascii "/Kin/a"
    let fs : Folder := (∅ : Folder).insert path ⟨ascii "one", ⟨0⟩, true, true⟩
    let disk : Disk := ⟨fun _ => some 3, fun _ => .ok (.last ⟨ascii "one", by decide⟩ .eof)⟩
    let fileID := Sha256.sum256 (ascii "one")
    let answer := fun calls =>
      (Sender.mk (WatchCall.applyAll (Watched.openFresh (Bytes.lit32 1)) calls).index
        disk).handleRequest fileID
    SendsFile (answer [.indexFile fs Clock.epoch path]) fileID 3 (ascii "one")
      ∧ answer [.indexFile fs Clock.epoch path, .handleRemove Clock.epoch path]
        = ([sendNotFound fileID], none) := by
  intro path fs disk fileID answer
  constructor
  · have hlisted : (WatchCall.applyAll (Watched.openFresh (Bytes.lit32 1))
        [.indexFile fs Clock.epoch path]).catalog.listLocal.map Entry.fileID = [fileID] := by
      decide +kernel
    obtain ⟨e, he, hid⟩ := List.mem_map.mp (hlisted ▸ List.mem_singleton_self fileID)
    have hsends := (lockstep_along_calls (Bytes.lit32 1) [.indexFile fs Clock.epoch path]
      (by decide +kernel)).2.2.1 e he disk 3 _ rfl rfl rfl
    rw [hid] at hsends
    exact hsends
  · exact (lockstep_along_calls (Bytes.lit32 1) _ (by decide +kernel)).2.2.2 disk _
      (by decide +kernel)

/-! ## §2. A file that changes during the call. -/

/-- What the file system shows to one call of `indexFile`. -/
structure Shown where
  /-- `os.Stat`. -/
  stat : Except GoString FileInfo
  /-- `hashFile` of the watcher. -/
  hash : Except GoString FileID
  /-- `hashFile` of `LocalIndex.Add`. -/
  hashAgain : Except GoString FileID

/-- The folder at the three moments of a call. -/
def Shown.ofFolders (fs₁ fs₂ fs₃ : Folder) (path : GoString) : Shown :=
  ⟨fs₁.stat path, hashFile fs₂ path, hashFile fs₃ path⟩

/-- `indexFile` of a file that may change between the accesses to it. -/
def indexFileShown (shown : Shown) (clk : Clock) (path : GoString) (w : Watched) :
    Watched × Option GoString :=
  match shown.stat with
  | .error err => (w, some err)
  | .ok info =>
    if !info.regular then (w, none)
    else
      match shown.hash with
      | .error err => (w, some (ascii "hash " ++ path ++ ascii ": " ++ err))
      | .ok hash =>
        match w.catalog.putLocal clk (newEntry path info hash) with
        | (catalog, some err) =>
          ({ w with catalog := catalog }, some (ascii "catalog put: " ++ ascii err))
        | (catalog, none) =>
          match shown.hashAgain with
          | .error err =>
            ({ w with catalog := catalog },
              some (ascii "index add: " ++ (ascii "index add: " ++ err)))
          | .ok again => (⟨catalog, w.index.insert again path⟩, none)

/-- In a folder that does not change it is `indexFile`. -/
theorem indexFile_eq_shown (fs : Folder) (clk : Clock) (path : GoString) (w : Watched) :
    indexFile fs clk path w = indexFileShown (.ofFolders fs fs fs path) clk path w := by
  unfold indexFile indexFileShown Shown.ofFolders add
  cases hashFile fs path <;> rfl

/-- The steps of a call in a folder that changes between them. -/
theorem steps_eq_shown (fs₁ fs₂ fs₃ : Folder) (clk : Clock) (path : GoString) (w : Watched) :
    let x₁ := CallPC.stat.next fs₁ clk path w
    let x₂ := x₁.2.next fs₂ clk path x₁.1
    let x₃ := x₂.2.next fs₂ clk path x₂.1
    let x₄ := x₃.2.next fs₃ clk path x₃.1
    x₄.2.next fs₃ clk path x₄.1
      = ((indexFileShown (.ofFolders fs₁ fs₂ fs₃ path) clk path w).1,
          .returned (indexFileShown (.ofFolders fs₁ fs₂ fs₃ path) clk path w).2) := by
  unfold indexFileShown Shown.ofFolders
  cases hstat : fs₁.stat path with
  | error err => simp [CallPC.next, hstat]
  | ok info =>
    cases hreg : info.regular with
    | false => simp [CallPC.next, hstat, hreg]
    | true =>
      cases hhash : hashFile fs₂ path with
      | error err => simp [CallPC.next, hstat, hreg, hhash]
      | ok hash =>
        rcases hput : w.catalog.putLocal clk (newEntry path info hash) with ⟨catalog, _ | err⟩
        · cases hagain : hashFile fs₃ path with
          | error err => simp [CallPC.next, hstat, hreg, hhash, hput, hagain]
          | ok again => simp [CallPC.next, hstat, hreg, hhash, hput, hagain]
        · simp [CallPC.next, hstat, hreg, hhash, hput]

/-- The catalog has this very entry and this node as an owner, with the times that
the clock shows now. -/
def AlreadyThere (s : Store) (clk : Clock) (entry : Entry) : Prop :=
  s.getEntry s.selfID entry.fileID = some (s.localCopy clk entry).normal
    ∧ markSeen s.selfID (clk.now 1) (s.getOwners entry.fileID) = s.getOwners entry.fileID

/-- Exactly then a `PutLocal` that succeeds leaves the catalog as it was. -/
theorem putLocal_same_iff {s : Store} (hwf : s.db.WF) (clk : Clock) {entry : Entry}
    (hm : entry.modTime.jsonOK = true) :
    (s.putLocal clk entry).1 = s ↔ AlreadyThere s clk entry := by
  have hhints : s.db.availability.get entry.fileID.val
        = some (markSeen s.selfID (clk.now 1) (s.getOwners entry.fileID))
      ↔ markSeen s.selfID (clk.now 1) (s.getOwners entry.fileID) = s.getOwners entry.fileID := by
    unfold Store.getOwners
    cases s.db.availability.get entry.fileID.val with
    | none => simp [markSeen]
    | some hints => simp [eq_comm]
  rw [Store.putLocal_spec hwf clk hm]
  unfold AlreadyThere
  rw [← hhints, Store.getEntry_eq]
  show (⟨⟨s.db.entries.put (compositeKey s.selfID entry.fileID) (s.localCopy clk entry).normal,
      s.db.availability.put entry.fileID.val
        (markSeen s.selfID (clk.now 1) (s.getOwners entry.fileID))⟩, s.selfID⟩ : Store) = s ↔ _
  obtain ⟨⟨entries, availability⟩, selfID⟩ := s
  rw [Store.mk.injEq, DB.mk.injEq, Bucket.put_eq_self_iff, Bucket.put_eq_self_iff]
  exact and_iff_left rfl

/-- **All or nothing.**  A call that returns an error has changed nothing; after a
call that succeeds on a regular file, each hash it has computed is recorded with the
path in the catalog and in the index alike. -/
structure AllOrNothing (shown : Shown) (clk : Clock) (path : GoString) (w : Watched) : Prop where
  failed : (indexFileShown shown clk path w).2 ≠ none → (indexFileShown shown clk path w).1 = w
  recorded : (indexFileShown shown clk path w).2 = none →
    ∀ info, shown.stat = .ok info → info.regular = true →
      ∀ h, shown.hash = .ok h ∨ shown.hashAgain = .ok h →
        (indexFileShown shown clk path w).1.catalog.localPathOf h = some path
          ∧ (indexFileShown shown clk path w).1.index.lookup h = some path

/-- The second read finds what the first one found, or what it finds and what the
first one found were recorded before. -/
def SecondReadAgrees (shown : Shown) (clk : Clock) (path : GoString) (w : Watched)
    (info : FileInfo) (h : FileID) : Prop :=
  match shown.hashAgain with
  | .error _ => AlreadyThere w.catalog clk (newEntry path info h)
  | .ok again =>
    validString path = true
      ∧ (again = h ∨ (w.index.lookup h = some path ∧ w.catalog.localPathOf again = some path))

/-- If the call gets past its transaction, its second read agrees with the first. -/
def Steady (shown : Shown) (clk : Clock) (path : GoString) (w : Watched) : Prop :=
  ∀ info h, shown.stat = .ok info → info.regular = true → shown.hash = .ok h →
    info.modTime.jsonOK = true → SecondReadAgrees shown clk path w info h

section OneCall

variable {shown : Shown} {clk : Clock} {path : GoString} {w : Watched}

/-- A call that stops before its transaction, or whose transaction is rolled back,
changes nothing; it succeeds only on what is not a regular file. -/
theorem indexFileShown_stopped (hstop : ∀ info h, shown.stat = .ok info → info.regular = true →
      shown.hash = .ok h → ¬ info.modTime.jsonOK = true) :
    (indexFileShown shown clk path w).1 = w
      ∧ ((indexFileShown shown clk path w).2 = none →
        ∀ info, shown.stat = .ok info → info.regular = false) := by
  unfold indexFileShown
  cases hstat : shown.stat with
  | error err => exact ⟨rfl, nofun⟩
  | ok info =>
    dsimp only
    cases hreg : info.regular with
    | false =>
      refine ⟨rfl, fun _ info' hinfo => ?_⟩
      rw [← Except.ok.inj hinfo]
      exact hreg
    | true =>
      cases hhash : shown.hash with
      | error err => exact ⟨rfl, nofun⟩
      | ok h =>
        dsimp only
        rw [Store.putLocal_error w.catalog clk
          (show ¬ (newEntry path info h).modTime.jsonOK = true from
            hstop info h hstat hreg hhash)]
        exact ⟨rfl, nofun⟩

/-- A call that gets past its transaction. -/
theorem indexFileShown_committed (hwf : w.catalog.db.WF) {info : FileInfo} {h : FileID}
    (hstat : shown.stat = .ok info) (hreg : info.regular = true) (hhash : shown.hash = .ok h)
    (hm : info.modTime.jsonOK = true) :
    indexFileShown shown clk path w
      = match shown.hashAgain with
        | .error err =>
          ({ w with catalog := (w.catalog.putLocal clk (newEntry path info h)).1 },
            some (ascii "index add: " ++ (ascii "index add: " ++ err)))
        | .ok again =>
          (⟨(w.catalog.putLocal clk (newEntry path info h)).1, w.index.insert again path⟩,
            none) := by
  have hput : (w.catalog.putLocal clk (newEntry path info h)).2 = none := by
    rw [Store.putLocal_spec hwf clk (show (newEntry path info h).modTime.jsonOK = true from hm)]
  unfold indexFileShown
  rw [hstat, hhash]
  dsimp only
  rw [if_neg (by rw [hreg]; decide)]
  split
  next catalog err heq =>
    rw [heq] at hput
    exact absurd hput nofun
  next catalog heq => rw [heq]

/-- The second read fails: the entry of the first one stays. -/
theorem allOrNothing_error_iff (hwf : w.catalog.db.WF) {info : FileInfo} {h : FileID}
    (hm : info.modTime.jsonOK = true) {err : GoString}
    (hcall : indexFileShown shown clk path w
      = ({ w with catalog := (w.catalog.putLocal clk (newEntry path info h)).1 }, some err)) :
    AllOrNothing shown clk path w ↔ AlreadyThere w.catalog clk (newEntry path info h) := by
  rw [← putLocal_same_iff hwf clk (show (newEntry path info h).modTime.jsonOK = true from hm)]
  constructor
  · intro hall
    have hsame := hall.failed (by rw [hcall]; nofun)
    rw [hcall] at hsame
    exact congrArg Watched.catalog hsame
  · intro hsame
    refine ⟨fun _ => ?_, fun hnone => ?_⟩
    · rw [hcall, hsame]
    · rw [hcall] at hnone
      exact absurd hnone nofun

/-- The second read succeeds: catalog and index have a hash each. -/
theorem allOrNothing_ok_iff (hwf : w.catalog.db.WF) {info : FileInfo} {h again : FileID}
    (hstat : shown.stat = .ok info) (hreg : info.regular = true) (hhash : shown.hash = .ok h)
    (hm : info.modTime.jsonOK = true) (hagain : shown.hashAgain = .ok again)
    (hcall : indexFileShown shown clk path w
      = (⟨(w.catalog.putLocal clk (newEntry path info h)).1, w.index.insert again path⟩, none)) :
    AllOrNothing shown clk path w
      ↔ validString path = true
        ∧ (again = h ∨ (w.index.lookup h = some path ∧ w.catalog.localPathOf again = some path)) := by
  have hcat : ∀ g, (w.catalog.putLocal clk (newEntry path info h)).1.localPathOf g
      = if g = h then some (jsonString path) else w.catalog.localPathOf g :=
    Store.putLocal_localPathOf hwf clk hm
  rw [← jsonString_eq_self_iff]
  constructor
  · intro hall
    have hrec := hall.recorded (by rw [hcall]) info hstat hreg
    rw [hcall] at hrec
    obtain ⟨hcat₁, hidx₁⟩ := hrec h (Or.inl hhash)
    obtain ⟨hcat₂, -⟩ := hrec again (Or.inr hagain)
    rw [hcat, if_pos rfl] at hcat₁
    rw [GoMap.lookup_insert] at hidx₁
    rw [hcat] at hcat₂
    refine ⟨Option.some.inj hcat₁, ?_⟩
    by_cases heq : again = h
    · exact Or.inl heq
    · rw [if_neg (Ne.symm heq)] at hidx₁
      rw [if_neg heq] at hcat₂
      exact Or.inr ⟨hidx₁, hcat₂⟩
  · rintro ⟨hpath, hor⟩
    refine ⟨fun herr => absurd (by rw [hcall]) herr, fun _ _ _ _ g hg => ?_⟩
    have hg : g = h ∨ g = again := by
      rcases hg with hg | hg
      · exact Or.inl (Except.ok.inj (hg.symm.trans hhash))
      · exact Or.inr (Except.ok.inj (hg.symm.trans hagain))
    rw [hcall]
    show _ = some path ∧ AList.lookup g (AList.insert again path w.index) = some path
    rw [hcat, GoMap.lookup_insert, hpath]
    rcases hor with rfl | ⟨hidx, hold⟩
    · rw [or_self] at hg
      rw [if_pos hg, if_pos hg]
      exact ⟨rfl, rfl⟩
    · rcases hg with rfl | rfl
      · rw [if_pos rfl]
        refine ⟨rfl, ?_⟩
        split
        · rfl
        · exact hidx
      · rw [if_pos rfl]
        refine ⟨?_, rfl⟩
        split
        · rfl
        · exact hold

end OneCall

/-- **When `indexFile` is all or nothing.**  Over every catalog that operations can
lead to and every index, and whatever the file system shows to the call at its three
accesses: an error means that nothing has changed, and success on a regular file that
catalog and index have recorded the same hash for the path, if and only if the second
read agrees with the first, in a call that gets past its transaction. -/
theorem index_file_all_or_nothing_iff (selfID : NodeID) (ops : List Op) (index : LocalIndex)
    (shown : Shown) (clk : Clock) (path : GoString) :
    let w : Watched := ⟨Op.applyAll (Store.openFresh selfID) ops, index⟩
    AllOrNothing shown clk path w ↔ Steady shown clk path w := by
  intro w
  have hwf : w.catalog.db.WF := Op.applyAll_wf ops DB.wf_empty
  by_cases hgo : ∃ info h, shown.stat = .ok info ∧ info.regular = true ∧ shown.hash = .ok h
      ∧ info.modTime.jsonOK = true
  · obtain ⟨info, h, hstat, hreg, hhash, hm⟩ := hgo
    have hsteady : Steady shown clk path w ↔ SecondReadAgrees shown clk path w info h := by
      refine ⟨fun hs => hs info h hstat hreg hhash hm, fun hs info' h' hstat' _ hhash' _ => ?_⟩
      obtain rfl : info = info' := Except.ok.inj (hstat.symm.trans hstat')
      obtain rfl : h = h' := Except.ok.inj (hhash.symm.trans hhash')
      exact hs
    have hcall : indexFileShown shown clk path w = _ :=
      indexFileShown_committed hwf hstat hreg hhash hm
    rw [hsteady]
    unfold SecondReadAgrees
    cases hagain : shown.hashAgain with
    | error err =>
      rw [hagain] at hcall
      exact allOrNothing_error_iff hwf hm hcall
    | ok again =>
      rw [hagain] at hcall
      exact allOrNothing_ok_iff hwf hstat hreg hhash hm hagain hcall
  · -- the call does not get that far
    have hstop : ∀ info h, shown.stat = .ok info → info.regular = true → shown.hash = .ok h →
        ¬ info.modTime.jsonOK = true :=
      fun info h hstat hreg hhash hm => hgo ⟨info, h, hstat, hreg, hhash, hm⟩
    obtain ⟨hsame, hirregular⟩ : (indexFileShown shown clk path w).1 = w ∧ _ :=
      indexFileShown_stopped hstop
    refine iff_of_true ⟨fun _ => hsame, fun hnone info hstat hreg => ?_⟩ ?_
    · rw [hirregular hnone info hstat] at hreg
      exact absurd hreg Bool.false_ne_true
    · intro info h hstat hreg hhash hm
      exact absurd hm (hstop info h hstat hreg hhash)

/-- The file goes between the two reads: an error is returned, and the file is a live
local entry that the index does not have. -/
theorem removed_between_reads :
    let path := ascii "/Kin/a"
    let fs : Folder := (∅ : Folder).insert path ⟨ascii "one", ⟨0⟩, true, true⟩
    let w := Watched.openFresh (Bytes.lit32 1)
    let call := indexFileShown (.ofFolders fs fs ∅ path) Clock.epoch path w
    call.2 ≠ none ∧ call.1.catalog.listLocal.map Entry.localPath = [path]
      ∧ w.catalog.listLocal = [] ∧ call.1.index.lookup (Sha256.sum256 (ascii "one")) = none := by
  decide +kernel

end Kin.Watcher
