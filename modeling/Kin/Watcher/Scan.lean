/-
  Kin.Watcher.Scan

  **THE SCAN AT STARTUP** (`Watcher.scan`, called first by `Watcher.Run`).

  The database outlives the daemon; the folder may change in any way while the
  daemon is off.  The scan calls `indexFile` for every regular file and nothing
  else: it adds what it finds and RETRACTS NOTHING.

    • `scanPaths_live` — the contents live after a walk,
    • `scan_reconciles_iff` — catalog and folder agree afterwards exactly if the
      catalog held nothing that the folder has lost.
-/
import Kin.Watcher.Index

namespace Kin.Watcher

open Kin.Lib Kin.Catalog Kin.Transfer

/-! ## §1. Agreement. -/

/-- The content is that of a regular file of the folder. -/
def Folder.Holds (fs : Folder) (h : FileID) : Prop :=
  ∃ path f, fs.lookup path = some f ∧ f.regular = true ∧ Sha256.sum256 f.content = h

/-- `ListLocal` shows the contents of the folder and no others. -/
def Reconciled (fs : Folder) (s : Store) : Prop :=
  ∀ h, h ∈ s.listLocal.map Entry.fileID ↔ fs.Holds h

/-- Nothing in the catalog is missing from the folder, and every content of the
folder is in the catalog or in a file that can be stored. -/
def Reconcilable (fs : Folder) (s : Store) : Prop :=
  (∀ e ∈ s.listLocal, fs.Holds e.fileID)
    ∧ ∀ h, fs.Holds h → h ∈ s.listLocal.map Entry.fileID
        ∨ ∃ path f, fs.lookup path = some f ∧ f.storable = true ∧ Sha256.sum256 f.content = h

/-! ## §2. The walk. -/

theorem mem_listLocal_ids {s : Store} (hwf : s.db.WF) {h : FileID} :
    h ∈ s.listLocal.map Entry.fileID ↔ s.localPathOf h ≠ none := by
  rw [List.mem_map, Option.ne_none_iff_exists']
  constructor
  · intro ⟨e, he, hid⟩
    exact ⟨e.localPath, (Store.localPathOf_iff_listLocal hwf).mpr ⟨e, he, hid, rfl⟩⟩
  · intro ⟨p, hp⟩
    obtain ⟨e, he, hid, _⟩ := (Store.localPathOf_iff_listLocal hwf).mp hp
    exact ⟨e, he, hid⟩

/-- One file: its content is live afterwards if it could be stored. -/
theorem indexFile_live (fs : Folder) (clk : Clock) (path : GoString) {w : Watched}
    (hwf : w.catalog.db.WF) (h : FileID) :
    (indexFile fs clk path w).1.catalog.localPathOf h ≠ none
      ↔ w.catalog.localPathOf h ≠ none
        ∨ ∃ f, fs.lookup path = some f ∧ f.storable = true ∧ Sha256.sum256 f.content = h := by
  by_cases hskip : ∀ f, fs.lookup path = some f → f.storable = false
  · rw [indexFile_skips hskip]
    refine ⟨Or.inl, fun hor => hor.resolve_right ?_⟩
    intro ⟨f, hf, hs, _⟩
    rw [hskip f hf] at hs
    cases hs
  · push Not at hskip
    obtain ⟨f, hf, hs⟩ := hskip
    have hs : f.storable = true := by simpa using hs
    rw [indexFile_localPathOf hf hs hwf]
    by_cases hh : h = Sha256.sum256 f.content
    · rw [if_pos hh]
      exact iff_of_true (Option.some_ne_none _) (Or.inr ⟨f, hf, hs, hh.symm⟩)
    · rw [if_neg hh]
      refine ⟨Or.inl, fun hor => hor.resolve_right ?_⟩
      intro ⟨f', hf', _, hh'⟩
      rw [hf] at hf'
      rw [← Option.some.inj hf'] at hh'
      exact hh hh'.symm

/-- **The contents live after a walk**: those live before, and those of the
storable files on the way. -/
theorem scanPaths_live (fs : Folder) (paths : List GoString) :
    ∀ (clk : Clock) (w : Watched), w.catalog.db.WF →
      (scanPaths fs paths clk w).catalog.db.WF
        ∧ ∀ h, (scanPaths fs paths clk w).catalog.localPathOf h ≠ none
            ↔ w.catalog.localPathOf h ≠ none
              ∨ ∃ path ∈ paths, ∃ f, fs.lookup path = some f ∧ f.storable = true
                  ∧ Sha256.sum256 f.content = h := by
  induction paths with
  | nil =>
    intro clk w hwf
    exact ⟨hwf, fun h => by simp [scanPaths]⟩
  | cons path paths ih =>
    intro clk w hwf
    unfold scanPaths
    by_cases hreg : (fs.lookup path).any File.regular = true
    · rw [if_pos hreg]
      obtain ⟨hwf', hlive⟩ := ih (clk.drop 2) _ (indexFile_wf fs clk path hwf)
      refine ⟨hwf', fun h => ?_⟩
      rw [hlive h, indexFile_live fs clk path hwf, List.exists_mem_cons_iff, or_assoc]
    · -- not a regular file, so not a storable one
      rw [if_neg hreg]
      obtain ⟨hwf', hlive⟩ := ih clk w hwf
      refine ⟨hwf', fun h => ?_⟩
      rw [hlive h, List.exists_mem_cons_iff]
      have hnot : ¬ ∃ f, fs.lookup path = some f ∧ f.storable = true
          ∧ Sha256.sum256 f.content = h := by
        intro ⟨f, hf, hs, _⟩
        refine hreg ?_
        rw [hf]
        unfold File.storable at hs
        simp only [Bool.and_eq_true] at hs
        exact hs.1.1
      simp only [hnot, false_or]

theorem scan_live (fs : Folder) (clk : Clock) {w : Watched} (hwf : w.catalog.db.WF) (h : FileID) :
    (scan fs clk w).catalog.localPathOf h ≠ none
      ↔ w.catalog.localPathOf h ≠ none
        ∨ ∃ path f, fs.lookup path = some f ∧ f.storable = true ∧ Sha256.sum256 f.content = h := by
  rw [show scan fs clk w = scanPaths fs fs.keys clk w from rfl,
    (scanPaths_live fs fs.keys clk w hwf).2 h]
  refine or_congr Iff.rfl ⟨?_, ?_⟩
  · intro ⟨path, _, f, hf⟩
    exact ⟨path, f, hf⟩
  · intro ⟨path, f, hf, hs⟩
    exact ⟨path, AList.mem_keys.mp (AList.lookup_isSome.mp (by rw [hf]; rfl)), f, hf, hs⟩

/-! ## §3. Every database, every folder. -/

/-- **The scan reconciles catalog and folder exactly if it has nothing to
retract** — and no content is found in files only that cannot be stored. -/
theorem scan_reconciles_iff (selfID : NodeID) (ops : List Op) (index : LocalIndex) (fs : Folder)
    (clk : Clock) :
    Reconciled fs (scan fs clk ⟨Op.applyAll (Store.openFresh selfID) ops, index⟩).catalog
      ↔ Reconcilable fs (Op.applyAll (Store.openFresh selfID) ops) := by
  have hwf : (Op.applyAll (Store.openFresh selfID) ops).db.WF := Op.applyAll_wf ops DB.wf_empty
  generalize Op.applyAll (Store.openFresh selfID) ops = s at hwf
  have hwf' : (scan fs clk ⟨s, index⟩).catalog.db.WF :=
    (scanPaths_live fs fs.keys clk ⟨s, index⟩ hwf).1
  have hafter : ∀ h, h ∈ (scan fs clk ⟨s, index⟩).catalog.listLocal.map Entry.fileID
      ↔ h ∈ s.listLocal.map Entry.fileID
        ∨ ∃ path f, fs.lookup path = some f ∧ f.storable = true
          ∧ Sha256.sum256 f.content = h := by
    intro h
    rw [mem_listLocal_ids hwf', mem_listLocal_ids hwf]
    exact scan_live fs clk hwf h
  -- what can be stored is a content of the folder
  have hstored : ∀ h, (∃ path f, fs.lookup path = some f ∧ f.storable = true
      ∧ Sha256.sum256 f.content = h) → fs.Holds h := by
    intro h ⟨path, f, hf, hs, hh⟩
    unfold File.storable at hs
    simp only [Bool.and_eq_true] at hs
    exact ⟨path, f, hf, hs.1.1, hh⟩
  constructor
  · intro hrec
    constructor
    · intro e he
      exact (hrec e.fileID).mp ((hafter e.fileID).mpr (Or.inl (List.mem_map_of_mem he)))
    · intro h hh
      exact (hafter h).mp ((hrec h).mpr hh)
  · intro ⟨hkept, hfound⟩ h
    rw [hafter h]
    constructor
    · intro hor
      rcases hor with hold | hnew
      · obtain ⟨e, he, hid⟩ := List.mem_map.mp hold
        rw [← hid]
        exact hkept e he
      · exact hstored h hnew
    · exact hfound h

/-! ## §4. A file deleted while the daemon was off. -/

/-- A file of the folder, with the text as its content. -/
def textFile (text : String) : File where
  content := ascii text
  modTime := Time.ofUnix 1700000000
  regular := true
  readable := true

/-- The database of a run that indexed `/Kin/a.txt`. -/
def leftBehind : Store :=
  Op.applyAll (Store.openFresh (Bytes.lit32 0xAA))
    [.putLocal Clock.epoch
      (newEntry (ascii "/Kin/a.txt") (textFile "one").info (Sha256.sum256 (ascii "one")))]

/-- The folder is empty, and the file is still listed after the scan. -/
theorem scan_keeps_deleted_file :
    leftBehind.listLocal.map Entry.fileID = [Sha256.sum256 (ascii "one")]
      ∧ (scan ∅ Clock.epoch ⟨leftBehind, ∅⟩).catalog.listLocal.map Entry.fileID
          = [Sha256.sum256 (ascii "one")]
      ∧ ¬ Reconciled ∅ (scan ∅ Clock.epoch ⟨leftBehind, ∅⟩).catalog := by
  have hlisted : (scan ∅ Clock.epoch ⟨leftBehind, ∅⟩).catalog.listLocal.map Entry.fileID
      = [Sha256.sum256 (ascii "one")] := by decide +kernel
  refine ⟨by decide +kernel, hlisted, fun hrec => ?_⟩
  obtain ⟨path, f, hf, _⟩ := (hrec (Sha256.sum256 (ascii "one"))).mp
    (by rw [hlisted]; exact List.mem_singleton.mpr rfl)
  cases hf

end Kin.Watcher
