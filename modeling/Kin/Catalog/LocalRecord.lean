/-
  Kin.Catalog.LocalRecord

  **WHAT THE CATALOG KEEPS OF A LOCAL FILE** (`internal/catalog/store.go`).

  The name and the path of a file are bytes of the operating system; the catalog
  keeps them as JSON text, which is UTF-8.  `LookupLocalByPath` compares the path
  it is given with the path that comes back, so a path that JSON alters is not
  found again and its entry cannot be retracted.

    • `local_record_faithful_iff` — a file is recorded as it is exactly if its
      name and its path are UTF-8.
-/
import Kin.Catalog.Listing

namespace Kin.Catalog

open Kin.Lib

/-- **The file is recorded as it is**, live, and is found by its path. -/
structure Recorded (s : Store) (file : Entry) : Prop where
  entry : ∃ r, s.getEntry s.selfID file.fileID = some r ∧ r.name = file.name ∧ r.size = file.size
    ∧ r.modTime = file.modTime ∧ r.localPath = file.localPath ∧ r.deleted = false
  found : ∃ r, s.lookupLocalByPath file.localPath = some r ∧ r.deleted = false

/-- The path of a live local entry is found. -/
theorem lookupLocalByPath_of_entry {s : Store} (h : s.db.WF) {e : Entry}
    (he : s.db.entry s.selfID e.fileID = some e) (hlive : e.deleted = false) :
    ∃ r, s.lookupLocalByPath e.localPath = some r ∧ r.deleted = false := by
  have hmem : e ∈ s.listLocal := (mem_listByPrefixTx h).mpr ⟨he, hlive⟩
  obtain ⟨r, hr⟩ : ∃ r, s.listLocal.find? (fun x => decide (x.localPath = e.localPath)) = some r := by
    rw [← Option.isSome_iff_exists, List.find?_isSome]
    exact ⟨e, hmem, decide_eq_true rfl⟩
  refine ⟨r, (lookupLocalByPath_eq s _).trans hr, ?_⟩
  exact ((mem_listByPrefixTx h).mp (List.mem_of_find?_eq_some hr)).2

section PutLocal

variable {s : Store} (h : s.db.WF) {clk : Clock} {file : Entry}
  (hok : (s.putLocal clk file).2 = none)

include h hok

/-- What a `PutLocal` that succeeds has written. -/
theorem entry_of_putLocal :
    (s.putLocal clk file).1.db.WF ∧ (s.putLocal clk file).1.selfID = s.selfID
      ∧ (s.putLocal clk file).1.db.entry s.selfID file.fileID
        = some (s.localCopy clk file).normal := by
  have hm : file.modTime.jsonOK = true := by
    by_contra hm
    rw [Store.putLocal_error s clk hm] at hok
    exact absurd hok nofun
  refine ⟨Op.apply_wf h (.putLocal clk file), Op.selfID_apply (.putLocal clk file), ?_⟩
  rw [Store.putLocal_spec h clk hm, DB.entry_withHint, DB.entry_withEntry]
  exact if_pos ⟨rfl, rfl⟩

theorem recorded_iff :
    Recorded (s.putLocal clk file).1 file
      ↔ validString file.name = true ∧ validString file.localPath = true := by
  obtain ⟨hwf, hid, hentry⟩ := entry_of_putLocal h hok
  rw [← jsonString_eq_self_iff, ← jsonString_eq_self_iff]
  constructor
  · rintro ⟨⟨r, hr, hname, -, -, hpath, -⟩, -⟩
    have heq : (s.localCopy clk file).normal = r := by
      rw [Store.getEntry_eq, hid, hentry] at hr
      exact Option.some.inj hr
    rw [← heq] at hname hpath
    exact ⟨hname, hpath⟩
  · rintro ⟨hname, hpath⟩
    refine ⟨⟨(s.localCopy clk file).normal, ?_, hname, rfl, rfl, hpath, rfl⟩, ?_⟩
    · rw [Store.getEntry_eq, hid, hentry]
    · have hfound := lookupLocalByPath_of_entry hwf
        (e := (s.localCopy clk file).normal) (by rw [hid]; exact hentry) rfl
      rw [show (s.localCopy clk file).normal.localPath = file.localPath from hpath] at hfound
      exact hfound

end PutLocal

/-- **When a local file is recorded faithfully.**  In every state the store can
reach, a `PutLocal` that succeeds leaves the file's own name, size, time and path in
its entry, live and found by the path, if and only if name and path are UTF-8. -/
theorem local_record_faithful_iff (selfID : NodeID) (ops : List Op) (clk : Clock) (file : Entry) :
    let s := Op.applyAll (Store.openFresh selfID) ops
    (s.putLocal clk file).2 = none →
      (Recorded (s.putLocal clk file).1 file
        ↔ validString file.name = true ∧ validString file.localPath = true) :=
  fun hok => recorded_iff (Op.applyAll_wf ops DB.wf_empty) hok

/-- A file with an umlaut in its name. -/
theorem local_record_faithful_umlaut :
    let file : Entry := ⟨Bytes.lit32 7, [0xC3, 0xBC], 3, ⟨0⟩, Bytes.lit32 0,
      ascii "/Kin/" ++ [0xC3, 0xBC], false, ⟨0⟩⟩
    Recorded ((Store.openFresh (Bytes.lit32 1)).putLocal Clock.epoch file).1 file :=
  (local_record_faithful_iff (Bytes.lit32 1) [] Clock.epoch _ (by decide +kernel)).mpr
    (by decide +kernel)

/-- A file whose name is the byte `FF`: the catalog has another path for it, and
the file's own path is not found. -/
theorem latin_name_not_found :
    let file : Entry := ⟨Bytes.lit32 7, [0xFF], 3, ⟨0⟩, Bytes.lit32 0, ascii "/Kin/" ++ [0xFF],
      false, ⟨0⟩⟩
    let put := (Store.openFresh (Bytes.lit32 1)).putLocal Clock.epoch file
    put.2 = none
      ∧ (put.1.getEntry (Bytes.lit32 1) file.fileID).map Entry.localPath
        = some (ascii "/Kin/" ++ [0xEF, 0xBF, 0xBD])
      ∧ put.1.lookupLocalByPath file.localPath = none ∧ ¬ Recorded put.1 file := by
  intro file put
  have hnone : put.1.lookupLocalByPath file.localPath = none := by decide +kernel
  refine ⟨by decide +kernel, by decide +kernel, hnone, fun h => ?_⟩
  obtain ⟨r, hr, -⟩ := h.found
  rw [hnone] at hr
  cases hr

end Kin.Catalog
