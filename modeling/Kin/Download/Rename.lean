/-
  Kin.Download.Rename

  **A NAME FROM A PEER.**

  The name in a catalog entry is whatever the owner has sent.  Three checks
  stand between it and `os.Rename`:

      Base          — no directory part is left
      "." and "/"   — names of no file
      Stat          — something is there already; this is what stops `..`, since
                      the parent of the shared directory exists

  `os.Stat` follows links and `os.Rename` does not: a link of that name which
  leads nowhere passes as a free name, and is replaced.

    • `renameToOriginal_cases` — the download stays where it is, or moves to a
      child of the shared directory that `Stat` does not see,
    • `renameToOriginal_stays_iff` — when nothing else is touched.
-/
import Kin.Download.Downloader

namespace Kin.Download

open Kin.Lib Kin.Catalog

namespace Files

theorem stat_eq_false {fs : Files} {path : GoString} (h : fs.stat path = false) :
    fs path = none ∨ fs path = some (.link false) := by
  unfold stat at h
  split at h
  next hnone => exact Or.inl hnone
  next reaches hlink =>
    rw [h] at hlink
    exact Or.inr hlink
  · cases h

variable {fs : Files} {src dst : GoString} {node : Node}

theorem rename_dst (h : fs src = some node) : fs.rename src dst dst = some node := by
  unfold rename
  rw [h]
  exact Function.update_self _ _ _

theorem rename_ne {path : GoString} (hsrc : path ≠ src) (hdst : path ≠ dst) :
    fs.rename src dst path = fs path := by
  unfold rename
  cases fs src with
  | none => rfl
  | some node =>
    show Function.update (fs.remove src) dst (some node) path = fs path
    rw [Function.update_of_ne hdst]
    exact Function.update_of_ne hsrc _ _

end Files

namespace Downloader

/-- The name that the download is to get, when it has one. -/
def OfferedName (entry : Except String (Option Entry)) (safeName : GoString) : Prop :=
  ∃ e, entry = .ok (some e) ∧ filepathBase e.name = safeName ∧ safeName ≠ thisDir
    ∧ safeName ≠ [slash]

/-- **What `renameToOriginal` does**: nothing, or it moves the download to the
offered name, under which `Stat` has found nothing. -/
theorem renameToOriginal_cases (d : Downloader) (entry : Except String (Option Entry))
    (renameErr : Option String) (hashPath : GoString) (fs : Files) :
    (d.renameToOriginal entry renameErr hashPath fs = (fs, hashPath)
        ∧ ¬ ∃ safeName, OfferedName entry safeName ∧ renameErr = none
          ∧ fs.stat (join d.sharedDir safeName) = false)
      ∨ ∃ safeName, OfferedName entry safeName ∧ renameErr = none
        ∧ fs.stat (join d.sharedDir safeName) = false
        ∧ d.renameToOriginal entry renameErr hashPath fs
          = (fs.rename hashPath (join d.sharedDir safeName), join d.sharedDir safeName) := by
  unfold renameToOriginal
  match entry with
  | .error err | .ok none =>
    refine Or.inl ⟨rfl, ?_⟩
    rintro ⟨_, ⟨e, he, -⟩, -⟩
    cases he
  | .ok (some e) =>
    dsimp only
    by_cases hempty : e.name = []
    · rw [if_pos hempty]
      refine Or.inl ⟨rfl, ?_⟩
      -- `Base` of the empty name is `.`
      rintro ⟨_, ⟨e', he, rfl, hdot, -⟩, -⟩
      cases he
      rw [hempty] at hdot
      exact hdot rfl
    · rw [if_neg hempty]
      by_cases hspecial : filepathBase e.name = thisDir ∨ filepathBase e.name = [slash]
      · rw [if_pos hspecial]
        refine Or.inl ⟨rfl, ?_⟩
        rintro ⟨_, ⟨e', he, rfl, hdot, hslash⟩, -⟩
        cases he
        exact hspecial.elim hdot hslash
      · rw [if_neg hspecial]
        obtain ⟨hdot, hslash⟩ := not_or.mp hspecial
        by_cases hstat : fs.stat (join d.sharedDir (filepathBase e.name)) = true
        · rw [if_pos hstat]
          refine Or.inl ⟨rfl, ?_⟩
          rintro ⟨_, ⟨e', he, rfl, -⟩, -, hfree⟩
          cases he
          rw [hstat] at hfree
          cases hfree
        · rw [if_neg hstat]
          cases renameErr with
          | some err =>
            refine Or.inl ⟨rfl, ?_⟩
            rintro ⟨_, -, hnone, -⟩
            cases hnone
          | none =>
            exact Or.inr ⟨_, ⟨e, rfl, rfl, hdot, hslash⟩, rfl,
              Bool.eq_false_iff.mpr hstat, rfl⟩

/-- The download stays a child of the shared directory, with its bytes, and
nothing else that was there is replaced or moved. -/
def Stays (d : Downloader) (hashPath content : GoString) (fs : Files) (out : Files × GoString) :
    Prop :=
  IsChild d.sharedDir out.2 ∧ out.1 out.2 = some (.file content)
    ∧ ∀ path node, path ≠ hashPath → fs path = some node → out.1 path = some node

theorem hexName_proper (fileID : FileID) : ProperName (Transfer.hexName fileID) := by
  obtain ⟨bytes, hlen⟩ := fileID
  have hdigit : ∀ n, n < 16 → Transfer.hexDigit n ≠ slash := by decide
  have hlength : (Transfer.hexName ⟨bytes, hlen⟩).length = 64 := by
    show (bytes.flatMap _).length = 64
    rw [List.length_flatMap]
    simp [hlen]
  refine ⟨?_, ?_, ?_, ?_⟩
  · intro h
    rw [h] at hlength
    cases hlength
  · intro hmem
    obtain ⟨b, -, hb⟩ := List.mem_flatMap.mp hmem
    have hlt := b.toNat_lt
    rcases List.mem_cons.mp hb with hb | hb
    · exact hdigit _ (by omega) hb.symm
    · exact hdigit _ (by omega) (List.mem_singleton.mp hb).symm
  · intro h
    rw [h] at hlength
    cases hlength
  · intro h
    rw [h] at hlength
    cases hlength

/-- Only a proper name can be free: the parent of the shared directory is there. -/
theorem OfferedName.proper {d : Downloader} {entry : Except String (Option Entry)}
    {safeName : GoString} {fs : Files} (h : OfferedName entry safeName)
    (hparent : fs.stat (join d.sharedDir parentDir) = true)
    (hfree : fs.stat (join d.sharedDir safeName) = false) : ProperName safeName := by
  obtain ⟨e, -, rfl, hdot, hslash⟩ := h
  refine filepathBase_proper hdot hslash fun hdotdot => ?_
  rw [hdotdot, hparent] at hfree
  cases hfree

/-- A link that leads nowhere is lost. -/
theorem not_stays_of_link {d : Downloader} {entry : Except String (Option Entry)}
    {hashPath content safeName : GoString} {fs : Files}
    (hdown : fs hashPath = some (.file content)) (hname : OfferedName entry safeName)
    (hlink : fs (join d.sharedDir safeName) = some (.link false)) :
    ¬ d.Stays hashPath content fs (d.renameToOriginal entry none hashPath fs) := by
  have hne : join d.sharedDir safeName ≠ hashPath := by
    intro h
    rw [h, hdown] at hlink
    cases hlink
  -- `Stat` takes the link for a free name
  have hfree : fs.stat (join d.sharedDir safeName) = false := by
    unfold Files.stat
    rw [hlink]
  rcases renameToOriginal_cases d entry none hashPath fs with ⟨-, hno⟩ | ⟨name, hoff, -, -, hout⟩
  · exact absurd ⟨safeName, hname, rfl, hfree⟩ hno
  · -- the entry offers one name only
    have hsame : name = safeName := by
      obtain ⟨e, he, rfl, -⟩ := hoff
      obtain ⟨e', he', rfl, -⟩ := hname
      rw [he] at he'
      cases he'
      rfl
    subst hsame
    rintro ⟨-, -, hkept⟩
    have hafter := hkept _ _ hne hlink
    rw [hout] at hafter
    cases (Files.rename_dst hdown).symm.trans hafter

/-- **When a download leaves everything else alone**: unless `os.Rename` meets,
under the offered name, a link that `os.Stat` cannot follow. -/
theorem renameToOriginal_stays_iff (d : Downloader) (fileID : FileID) (content : GoString)
    (entry : Except String (Option Entry)) (renameErr : Option String) (fs : Files)
    (hdown : fs (d.hashPath fileID) = some (.file content))
    (hparent : fs.stat (join d.sharedDir parentDir) = true) :
    d.Stays (d.hashPath fileID) content fs
        (d.renameToOriginal entry renameErr (d.hashPath fileID) fs)
      ↔ ¬ (renameErr = none ∧ ∃ e, entry = .ok (some e) ∧ filepathBase e.name ≠ thisDir
        ∧ filepathBase e.name ≠ [slash]
        ∧ fs (join d.sharedDir (filepathBase e.name)) = some (.link false)) := by
  constructor
  · rintro hstays ⟨rfl, e, rfl, hdot, hslash, hlink⟩
    exact not_stays_of_link hdown ⟨e, rfl, rfl, hdot, hslash⟩ hlink hstays
  · intro hno
    rcases renameToOriginal_cases d entry renameErr (d.hashPath fileID) fs with
      ⟨hout, -⟩ | ⟨name, hoff, herr, hfree, hout⟩
    · rw [hout]
      exact ⟨isChild_join _ (hexName_proper fileID), hdown, fun _ _ _ hnode => hnode⟩
    · rw [hout]
      refine ⟨isChild_join _ (hoff.proper hparent hfree), Files.rename_dst hdown, ?_⟩
      intro path node hpath hnode
      -- what the target had is nothing, or a link that `Stat` cannot follow
      have htarget : path ≠ join d.sharedDir name := by
        rintro rfl
        obtain ⟨e, rfl, rfl, hdot, hslash⟩ := hoff
        rcases Files.stat_eq_false hfree with hnone | hlink
        · rw [hnone] at hnode
          cases hnode
        · exact hno ⟨herr, e, rfl, hdot, hslash, hlink⟩
      exact (Files.rename_ne hpath htarget).trans hnode

/-- A file id. -/
def someID : FileID := Bytes.lit32 0xAB

/-- A shared directory `/s`. -/
def inS : Downloader := ⟨fun _ => someID, ascii "/s", someID⟩

/-- A file that its owner calls `../report.txt`. -/
def reportEntry : Entry :=
  ⟨someID, ascii "../report.txt", 3, ⟨0⟩, someID, [], false, ⟨0⟩⟩

/-- The download is there, its parent directory, and what `report` says. -/
def filesWith (report : Option Node) : Files := fun path =>
  if path = inS.hashPath someID then some (.file (ascii "abc"))
  else if path = ascii "/" then some .dir
  else if path = ascii "/s/report.txt" then report
  else none

theorem renameToOriginal_stays_report :
    inS.Stays (inS.hashPath someID) (ascii "abc") (filesWith none)
      (inS.renameToOriginal (.ok (some reportEntry)) none (inS.hashPath someID)
        (filesWith none)) := by
  refine (renameToOriginal_stays_iff inS someID (ascii "abc") (.ok (some reportEntry)) none
    (filesWith none) (by decide) (by decide)).mpr ?_
  rintro ⟨-, e, he, -, -, hlink⟩
  cases he
  exact absurd hlink (by decide)

/-- `report.txt` is a link whose target is missing: the download takes its place. -/
theorem dangling_link_replaced :
    (filesWith (some (.link false))) (ascii "/s/report.txt") = some (.link false)
      ∧ (inS.renameToOriginal (.ok (some reportEntry)) none (inS.hashPath someID)
          (filesWith (some (.link false)))).1 (ascii "/s/report.txt") = some (.file (ascii "abc"))
      ∧ ¬ inS.Stays (inS.hashPath someID) (ascii "abc") (filesWith (some (.link false)))
          (inS.renameToOriginal (.ok (some reportEntry)) none (inS.hashPath someID)
            (filesWith (some (.link false)))) := by
  have hname : OfferedName (.ok (some reportEntry)) (ascii "report.txt") :=
    ⟨reportEntry, rfl, by decide, by decide, by decide⟩
  exact ⟨by decide, by decide, not_stays_of_link (by decide) hname (by decide)⟩

end Downloader

end Kin.Download
