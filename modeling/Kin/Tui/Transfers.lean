/-
  Kin.Tui.Transfers

  **DOES EVERY TRANSFER FINISH IN THE LIST?**

  `startDownloads` adds a transfer and issues a command for each selected file
  that is not local; the command's result comes back with the file id only, and
  `MarkDone` gives it to the FIRST transfer with that id, done or not.

  A selection is by file id and a file can have several owners, so one key press
  can start the same id twice.  From then on the second transfer waits for ever.

    • `Recorded` — the list after any history: the first transfer of an id has
      its latest result, the others have none,
    • `transfers_finish_iff` — all results delivered, the list is right exactly
      if no id was started twice.
-/
import Mathlib.Data.List.Perm.Basic
import Kin.Lib.Run
import Kin.Tui.Model

namespace Kin.Tui

open Kin.Lib Kin.Daemon

/-! ## §1. Starts and results. -/

/-- The model, and the download commands it has issued. -/
structure Session where
  model : Model
  /-- The ids of the commands that have not delivered. -/
  pending : List GoString
  /-- The ids of all commands, in the order of their start. -/
  started : List GoString
  /-- The results delivered, in order. -/
  delivered : List (GoString × Option String)

inductive SessionAct where
  /-- `startDownloads`, with the catalog as it is by then. -/
  | start (catalog : CatalogModel)
  /-- The `i`-th of the pending commands delivers. -/
  | result (i : Nat) (err : Option String)

/-- The downloads among the commands. -/
def downloads (cmds : List Cmd) : List GoString :=
  cmds.filterMap (fun
    | .doDownload fileID => some fileID
    | _ => none)

/-- The catalog, replaced. -/
def Model.withCatalog (m : Model) (catalog : CatalogModel) : Model := { m with catalog := catalog }

namespace Session

def new : Session := ⟨.new, [], [], []⟩

def step (libs : Libs) (s : Session) : SessionAct → Option Session
  | .start catalog =>
    let r := (s.model.withCatalog catalog).startDownloads
    some { s with
      model := r.1
      pending := s.pending ++ downloads r.2
      started := s.started ++ downloads r.2 }
  | .result i err =>
    match s.pending[i]? with
    | none => none
    | some fileID =>
      some { s with
        model := (s.model.update libs (.downloadResult fileID err)).1
        pending := s.pending.eraseIdx i
        delivered := s.delivered ++ [(fileID, err)] }

/-- The outcomes that the list shows for an id. -/
def outcomes (fileID : GoString) (ts : List TransferState) : List (Option String) :=
  (ts.filter (fun t => decide (t.fileID = fileID) && t.done)).map TransferState.err

/-- The results delivered for an id. -/
def results (fileID : GoString) (delivered : List (GoString × Option String)) :
    List (Option String) :=
  (delivered.filter (fun r => decide (r.1 = fileID))).map Prod.snd

/-- No transfer is active, and each id has the outcomes that were delivered. -/
def Settled (s : Session) : Prop :=
  s.model.progress.hasActive = false
    ∧ ∀ fileID, (outcomes fileID s.model.progress.transfers).Perm (results fileID s.delivered)

/-! ## §2. The list after any history. -/

def ids (ts : List TransferState) : List GoString := ts.map TransferState.fileID

/-- The latest result delivered for an id. -/
def latest (fileID : GoString) (delivered : List (GoString × Option String)) :
    Option (Option String) :=
  (results fileID delivered).getLast?

/-- The transfer shows what has been delivered for its id. -/
def Shows (delivered : List (GoString × Option String)) (t : TransferState) : Prop :=
  match latest t.fileID delivered with
  | none => t.done = false
  | some err => t.done = true ∧ t.err = err

/-- The list shows the results delivered: at the first transfer of each id, and
there only.  `seen` are the ids of the transfers before. -/
def Recorded (delivered : List (GoString × Option String)) :
    (seen : List GoString) → List TransferState → Prop
  | _, [] => True
  | seen, t :: ts =>
    (if t.fileID ∈ seen then t.done = false else Shows delivered t)
      ∧ Recorded delivered (t.fileID :: seen) ts

theorem results_concat_self (fileID : GoString) (err : Option String)
    (delivered : List (GoString × Option String)) :
    results fileID (delivered ++ [(fileID, err)]) = results fileID delivered ++ [err] := by
  unfold results
  rw [List.filter_append, List.map_append]
  simp

theorem results_concat_ne {fileID other : GoString} (h : other ≠ fileID) (err : Option String)
    (delivered : List (GoString × Option String)) :
    results other (delivered ++ [(fileID, err)]) = results other delivered := by
  unfold results
  rw [List.filter_append, List.map_append]
  simp [Ne.symm h]

theorem shows_concat_ne {fileID : GoString} {t : TransferState} (h : t.fileID ≠ fileID)
    (err : Option String) {delivered : List (GoString × Option String)} :
    Shows (delivered ++ [(fileID, err)]) t ↔ Shows delivered t := by
  unfold Shows latest
  rw [results_concat_ne h]

/-- A result for an id that was seen before the list changes nothing in it. -/
theorem Recorded.concat_seen {delivered : List (GoString × Option String)} {fileID : GoString}
    {err : Option String} {ts : List TransferState} {seen : List GoString} (hseen : fileID ∈ seen)
    (h : Recorded delivered seen ts) : Recorded (delivered ++ [(fileID, err)]) seen ts := by
  induction ts generalizing seen with
  | nil => trivial
  | cons t ts ih =>
    obtain ⟨hhead, htail⟩ := h
    refine ⟨?_, ih (List.mem_cons_of_mem _ hseen) htail⟩
    by_cases hmem : t.fileID ∈ seen
    · rw [if_pos hmem] at hhead ⊢
      exact hhead
    · rw [if_neg hmem] at hhead ⊢
      have hne : t.fileID ≠ fileID := fun heq => hmem (heq ▸ hseen)
      exact (shows_concat_ne hne err).mpr hhead

/-- **One result**: `MarkDone` keeps the list in step with what is delivered. -/
theorem Recorded.markFirst {delivered : List (GoString × Option String)} {fileID : GoString}
    (err : Option String) {ts : List TransferState} {seen : List GoString}
    (hseen : fileID ∉ seen) (h : Recorded delivered seen ts) :
    Recorded (delivered ++ [(fileID, err)]) seen (Tui.markFirst fileID err ts) := by
  induction ts generalizing seen with
  | nil => trivial
  | cons t ts ih =>
    obtain ⟨hhead, htail⟩ := h
    rw [Tui.markFirst]
    by_cases heq : t.fileID = fileID
    · -- this one gets it, and the rest have the id before them
      rw [if_pos heq]
      refine ⟨?_, ?_⟩
      · show if t.fileID ∈ seen then _ else _
        rw [if_neg (heq ▸ hseen)]
        unfold Shows latest
        dsimp only
        rw [heq, results_concat_self, List.getLast?_concat]
        exact ⟨rfl, rfl⟩
      -- `MarkDone` breaks out of its loop here
      · exact htail.concat_seen (heq ▸ List.mem_cons_self)
    · rw [if_neg heq]
      refine ⟨?_, ih (fun hmem => ?_) htail⟩
      · by_cases hmem : t.fileID ∈ seen
        · rw [if_pos hmem] at hhead ⊢
          exact hhead
        · rw [if_neg hmem] at hhead ⊢
          exact (shows_concat_ne heq err).mpr hhead
      · rcases List.mem_cons.mp hmem with hid | hmem
        · exact heq hid.symm
        · exact hseen hmem

/-- **A start**: a new transfer of an id that has no result, or is not new. -/
theorem Recorded.concat {delivered : List (GoString × Option String)} {t : TransferState}
    (hdone : t.done = false) {ts : List TransferState} {seen : List GoString}
    (hnew : t.fileID ∉ seen → t.fileID ∉ ids ts → latest t.fileID delivered = none)
    (h : Recorded delivered seen ts) : Recorded delivered seen (ts ++ [t]) := by
  induction ts generalizing seen with
  | nil =>
    refine ⟨?_, trivial⟩
    by_cases hmem : t.fileID ∈ seen
    · rw [if_pos hmem]
      exact hdone
    · rw [if_neg hmem]
      unfold Shows
      rw [hnew hmem (List.not_mem_nil)]
      exact hdone
  | cons t' ts ih =>
    obtain ⟨hhead, htail⟩ := h
    refine ⟨hhead, ih (fun hmem hids => ?_) htail⟩
    -- new to the rest of the list is new to the whole
    obtain ⟨hne, hmem⟩ := not_or.mp (fun hor => hmem (List.mem_cons.mpr hor))
    exact hnew hmem (fun hids' => (List.mem_cons.mp hids').elim hne hids)

/-! ## §3. What is in the list. -/

theorem latest_eq_none {fileID : GoString} {delivered : List (GoString × Option String)} :
    latest fileID delivered = none ↔ fileID ∉ delivered.map Prod.fst := by
  unfold latest results
  rw [List.getLast?_eq_none_iff, List.map_eq_nil_iff, List.filter_eq_nil_iff]
  constructor
  · intro h hmem
    obtain ⟨r, hr, rfl⟩ := List.mem_map.mp hmem
    exact h r hr (decide_eq_true rfl)
  · intro h r hr hid
    exact h (of_decide_eq_true hid ▸ List.mem_map_of_mem hr)

/-- Nobody is active: every id is listed once. -/
theorem Recorded.nodup {delivered : List (GoString × Option String)} {ts : List TransferState}
    {seen : List GoString} (h : Recorded delivered seen ts) (hdone : ∀ t ∈ ts, t.done = true) :
    (ids ts).Nodup ∧ ∀ fileID ∈ ids ts, fileID ∉ seen := by
  induction ts generalizing seen with
  | nil => exact ⟨List.nodup_nil, fun _ hmem => nomatch hmem⟩
  | cons t ts ih =>
    obtain ⟨hhead, htail⟩ := h
    obtain ⟨hnodup, hfresh⟩ := ih htail (fun t' ht' => hdone t' (List.mem_cons_of_mem _ ht'))
    have hseen : t.fileID ∉ seen := by
      intro hmem
      rw [if_pos hmem, hdone t List.mem_cons_self] at hhead
      cases hhead
    refine ⟨List.nodup_cons.mpr ⟨fun hmem => ?_, hnodup⟩, fun fileID hmem => ?_⟩
    · exact hfresh _ hmem List.mem_cons_self
    · rcases List.mem_cons.mp hmem with rfl | hmem
      · exact hseen
      · exact fun hseen => hfresh _ hmem (List.mem_cons_of_mem _ hseen)

/-- With every id listed once, each transfer shows its result. -/
theorem Recorded.shows {delivered : List (GoString × Option String)} {ts : List TransferState}
    {seen : List GoString} (h : Recorded delivered seen ts) (hnodup : (ids ts).Nodup)
    (hfresh : ∀ fileID ∈ ids ts, fileID ∉ seen) : ∀ t ∈ ts, Shows delivered t := by
  induction ts generalizing seen with
  | nil => exact fun _ hmem => nomatch hmem
  | cons t ts ih =>
    obtain ⟨hhead, htail⟩ := h
    obtain ⟨hnot, hnodup⟩ := List.nodup_cons.mp hnodup
    rw [if_neg (hfresh _ List.mem_cons_self)] at hhead
    have hrest := ih htail hnodup (fun fileID hmem hseen => by
      rcases List.mem_cons.mp hseen with rfl | hseen
      · exact hnot hmem
      · exact hfresh _ (List.mem_cons_of_mem _ hmem) hseen)
    intro t' ht'
    rcases List.mem_cons.mp ht' with rfl | ht'
    · exact hhead
    · exact hrest t' ht'

/-- The outcomes of an id, in a list that shows its results once each. -/
theorem outcomes_eq {delivered : List (GoString × Option String)} {ts : List TransferState}
    (hshows : ∀ t ∈ ts, Shows delivered t) (hnodup : (ids ts).Nodup) (fileID : GoString)
    (hmem : fileID ∈ ids ts) : outcomes fileID ts = (latest fileID delivered).toList := by
  induction ts with
  | nil => cases hmem
  | cons t ts ih =>
    obtain ⟨hnot, hnodup⟩ := List.nodup_cons.mp hnodup
    have hrest := ih (fun t' ht' => hshows t' (List.mem_cons_of_mem _ ht')) hnodup
    unfold outcomes at hrest ⊢
    by_cases heq : t.fileID = fileID
    · -- no other transfer has the id
      have hnone : ts.filter (fun t => decide (t.fileID = fileID) && t.done) = [] := by
        rw [List.filter_eq_nil_iff]
        intro t' ht' h
        rw [Bool.and_eq_true, decide_eq_true_iff] at h
        exact hnot (heq ▸ h.1 ▸ List.mem_map_of_mem ht')
      have hhead := hshows t List.mem_cons_self
      unfold Shows at hhead
      rw [heq] at hhead
      cases hlatest : latest fileID delivered with
      | none =>
        rw [hlatest] at hhead
        rw [List.filter_cons_of_neg (by simp [hhead]), hnone]
        rfl
      | some err =>
        rw [hlatest] at hhead
        rw [List.filter_cons_of_pos (by simp [heq, hhead.1]), hnone, List.map_cons, hhead.2]
        rfl
    · rw [List.filter_cons_of_neg (by simp [heq])]
      exact hrest ((List.mem_cons.mp hmem).resolve_left (Ne.symm heq))

theorem outcomes_of_not_mem {ts : List TransferState} {fileID : GoString}
    (h : fileID ∉ ids ts) : outcomes fileID ts = [] := by
  unfold outcomes
  rw [List.map_eq_nil_iff, List.filter_eq_nil_iff]
  intro t ht hid
  rw [Bool.and_eq_true, decide_eq_true_iff] at hid
  exact h (hid.1 ▸ List.mem_map_of_mem ht)

/-! ## §4. Every run. -/

/-- The list is in step with the history; every command is pending or has
delivered. -/
structure Inv (s : Session) : Prop where
  ids_eq : ids s.model.progress.transfers = s.started
  commands : (s.pending ++ s.delivered.map Prod.fst).Perm s.started
  recorded : Recorded s.delivered [] s.model.progress.transfers

theorem inv_new : Inv new := ⟨rfl, List.Perm.refl _, trivial⟩

/-- A transfer as `AddTransfer` writes it. -/
def fresh (f : FileInfo) : TransferState := ⟨f.fileID, f.name, false, none⟩

/-- The loop of `startDownloads`. -/
theorem startTransfers_eq (fs : List FileInfo) (p : ProgressModel) :
    Model.startTransfers fs p
      = ({ p with transfers := p.transfers ++ (fs.filter (fun f => !f.isLocal)).map fresh },
        (fs.filter (fun f => !f.isLocal)).map (fun f => .doDownload f.fileID)) := by
  induction fs generalizing p with
  | nil => simp [Model.startTransfers]
  | cons f fs ih =>
    rw [Model.startTransfers]
    by_cases hlocal : f.isLocal = true
    · rw [if_pos hlocal, ih, List.filter_cons_of_neg (by simp [hlocal])]
    · rw [if_neg hlocal, ih, List.filter_cons_of_pos (by simp [hlocal])]
      simp [ProgressModel.addTransfer, fresh]

/-- What `startDownloads` does to the list, and the commands it issues. -/
theorem startDownloads_spec (m : Model) :
    ∃ fs : List FileInfo, m.startDownloads.1.progress.transfers
        = m.progress.transfers ++ fs.map fresh
      ∧ downloads m.startDownloads.2 = fs.map FileInfo.fileID := by
  unfold Model.startDownloads
  split
  · exact ⟨[], by simp, rfl⟩
  · rw [startTransfers_eq]
    refine ⟨m.catalog.selectedFiles.filter (fun f => !f.isLocal), ?_, ?_⟩
    · dsimp only
      split <;> rfl
    · dsimp only [downloads]
      rw [List.filterMap_map]
      exact List.filterMap_eq_map_iff_forall_eq_some.mpr (fun _ _ => rfl)

theorem ids_append (ts ts' : List TransferState) : ids (ts ++ ts') = ids ts ++ ids ts' :=
  List.map_append

theorem ids_fresh (fs : List FileInfo) : ids (fs.map fresh) = fs.map FileInfo.fileID := by
  unfold ids
  rw [List.map_map]
  rfl

theorem ids_markFirst (fileID : GoString) (err : Option String) (ts : List TransferState) :
    ids (Tui.markFirst fileID err ts) = ids ts := by
  induction ts with
  | nil => rfl
  | cons t ts ih =>
    rw [Tui.markFirst]
    split
    · rfl
    · show t.fileID :: ids (Tui.markFirst fileID err ts) = _
      rw [ih]
      rfl

/-- New transfers behind a list that knows every id with a result. -/
theorem Recorded.append_fresh {delivered : List (GoString × Option String)}
    {ts : List TransferState} (hknown : ∀ fileID ∈ delivered.map Prod.fst, fileID ∈ ids ts)
    (h : Recorded delivered [] ts) (fs : List FileInfo) :
    Recorded delivered [] (ts ++ fs.map fresh) := by
  induction fs generalizing ts with
  | nil => rwa [List.map_nil, List.append_nil]
  | cons f fs ih =>
    have hone : Recorded delivered [] (ts ++ [fresh f]) := by
      refine h.concat rfl (fun _ hnot => ?_)
      exact latest_eq_none.mpr (fun hmem => hnot (hknown _ hmem))
    have hall := ih (fun fileID hmem => by
      rw [ids_append]
      exact List.mem_append_left _ (hknown fileID hmem)) hone
    rwa [List.append_assoc] at hall

theorem inv_start (libs : Libs) {s t : Session} {catalog : CatalogModel} (h : Inv s)
    (hs : s.step libs (.start catalog) = some t) : Inv t := by
  obtain ⟨fs, htrans, hcmds⟩ := startDownloads_spec (s.model.withCatalog catalog)
  obtain rfl := Option.some.inj hs
  have hsame : (s.model.withCatalog catalog).progress = s.model.progress := rfl
  rw [hsame] at htrans
  refine ⟨?_, ?_, ?_⟩
  · dsimp only
    rw [htrans, hcmds, ids_append, ids_fresh, h.ids_eq]
  · dsimp only
    rw [hcmds, List.append_assoc]
    have hswap : (s.pending ++ (fs.map FileInfo.fileID ++ s.delivered.map Prod.fst)).Perm
        (s.pending ++ s.delivered.map Prod.fst ++ fs.map FileInfo.fileID) := by
      rw [List.append_assoc]
      exact List.perm_append_comm.append_left _
    exact hswap.trans (h.commands.append_right _)
  · dsimp only
    rw [htrans]
    refine h.recorded.append_fresh (fun fileID hmem => ?_) fs
    rw [h.ids_eq]
    exact h.commands.subset (List.mem_append_right _ hmem)

theorem inv_result (libs : Libs) {s t : Session} {i : Nat} {err : Option String} (h : Inv s)
    (hs : s.step libs (.result i err) = some t) : Inv t := by
  unfold step at hs
  dsimp only at hs
  split at hs
  · cases hs
  next fileID hget =>
    obtain rfl := Option.some.inj hs
    refine ⟨?_, ?_, h.recorded.markFirst err List.not_mem_nil⟩
    · show ids (Tui.markFirst fileID err s.model.progress.transfers) = s.started
      rw [ids_markFirst, h.ids_eq]
    · -- the command moves from the pending ones to the delivered ones
      obtain ⟨hi, rfl⟩ := List.getElem?_eq_some_iff.mp hget
      have hmove : (s.pending.eraseIdx i ++ (s.delivered.map Prod.fst ++ [s.pending[i]])).Perm
          (s.pending ++ s.delivered.map Prod.fst) := by
        rw [← List.append_assoc]
        refine (List.perm_append_singleton _ _).trans ?_
        exact (List.getElem_cons_eraseIdx_perm hi).append_right _
      rw [List.map_append]
      exact hmove.trans h.commands

theorem inv_run (libs : Libs) {acts : List SessionAct} {s : Session}
    (h : run (step libs) new acts = some s) : Inv s := by
  refine run_invariant (fun s a t hs ht => ?_) inv_new h
  cases a with
  | start catalog => exact inv_start libs hs ht
  | result i err => exact inv_result libs hs ht

theorem hasActive_eq_false {p : ProgressModel} :
    p.hasActive = false ↔ ∀ t ∈ p.transfers, t.done = true := by
  unfold ProgressModel.hasActive
  rw [List.any_eq_false]
  simp

/-- No id twice among the results: the latest is the only one. -/
theorem results_eq_latest {delivered : List (GoString × Option String)}
    (h : (delivered.map Prod.fst).Nodup) (fileID : GoString) :
    results fileID delivered = (latest fileID delivered).toList := by
  have hlen : (results fileID delivered).length ≤ 1 := by
    have hcount := List.nodup_iff_count_le_one.mp h fileID
    rw [List.count_eq_countP, List.countP_map, List.countP_eq_length_filter] at hcount
    unfold results
    rw [List.length_map]
    simpa [Function.comp_def, beq_eq_decide] using hcount
  unfold latest
  match hres : results fileID delivered with
  | [] => rfl
  | [err] => rfl
  | _ :: _ :: _ =>
    rw [hres] at hlen
    simp at hlen

/-- **Every transfer finishes exactly if no id is started twice**: along every
run of starts and results, once every command has delivered. -/
theorem transfers_finish_iff (libs : Libs) (acts : List SessionAct) (s : Session)
    (hrun : run (step libs) new acts = some s) (hall : s.pending = []) :
    s.Settled ↔ s.started.Nodup := by
  obtain ⟨hids, hcommands, hrec⟩ := inv_run libs hrun
  rw [hall, List.nil_append] at hcommands
  constructor
  -- an id that is listed twice stays active at its second place
  · rintro ⟨hdone, -⟩
    have hnodup := (hrec.nodup (hasActive_eq_false.mp hdone)).1
    rwa [hids] at hnodup
  · intro hnodup
    have hshows := hrec.shows (hids ▸ hnodup) (fun _ _ => List.not_mem_nil)
    refine ⟨hasActive_eq_false.mpr fun t ht => ?_, fun fileID => ?_⟩
    · -- the command of this transfer has delivered
      have hmem : t.fileID ∈ s.delivered.map Prod.fst :=
        hcommands.mem_iff.mpr (hids ▸ List.mem_map_of_mem ht)
      have hshow := hshows t ht
      unfold Shows at hshow
      cases hlatest : latest t.fileID s.delivered with
      | none => exact absurd hmem (latest_eq_none.mp hlatest)
      | some err =>
        rw [hlatest] at hshow
        exact hshow.1
    · rw [results_eq_latest (hcommands.nodup_iff.mpr hnodup)]
      by_cases hmem : fileID ∈ ids s.model.progress.transfers
      · rw [outcomes_eq hshows (hids ▸ hnodup) fileID hmem]
      · have hnone : latest fileID s.delivered = none := by
          refine latest_eq_none.mpr fun hdel => hmem ?_
          rw [hids]
          exact hcommands.subset hdel
        rw [outcomes_of_not_mem hmem, hnone]
        exact List.Perm.refl _

/-- A file as one of its owners has it. -/
def songOf (owner : GoString) : FileInfo :=
  ⟨ascii "f1", ascii "song.ogg", 3, [], owner, false⟩

/-- A catalog with the song of the given owners, marked. -/
def songs (owners : List GoString) : CatalogModel :=
  { CatalogModel.new with files := owners.map songOf, selected := [ascii "f1"] }

/-- Two songs of two owners, marked. -/
def twoSongs : CatalogModel :=
  { CatalogModel.new with
    files := [songOf (ascii "a"), ⟨ascii "f2", ascii "hymn.ogg", 5, [], ascii "b", false⟩]
    selected := [ascii "f1", ascii "f2"] }

/-- Both are started at once; the second one fails before the first one comes. -/
theorem transfers_finish_two_songs :
    ∃ s, run (step Libs.plain) new
        [.start twoSongs, .result 1 (some "connect failed"), .result 0 none] = some s
      ∧ s.pending = []
      ∧ s.delivered = [(ascii "f2", some "connect failed"), (ascii "f1", none)]
      ∧ s.Settled := by
  have hrun : run (step Libs.plain) new
      [.start twoSongs, .result 1 (some "connect failed"), .result 0 none] = some _ := rfl
  exact ⟨_, hrun, rfl, by decide, (transfers_finish_iff Libs.plain _ _ hrun rfl).mpr (by decide)⟩

/-- The song has two owners and both downloads succeed: one of the two transfers
stays active. -/
theorem second_owner_never_done :
    ∃ s, run (step Libs.plain) new
        [.start (songs [ascii "a", ascii "b"]), .result 0 none, .result 0 none] = some s
      ∧ s.pending = [] ∧ s.delivered = [(ascii "f1", none), (ascii "f1", none)]
      ∧ s.model.progress.hasActive = true ∧ ¬ s.Settled := by
  have hrun : run (step Libs.plain) new
      [.start (songs [ascii "a", ascii "b"]), .result 0 none, .result 0 none] = some _ := rfl
  refine ⟨_, hrun, rfl, by decide, by decide, fun hsettled => ?_⟩
  exact absurd hsettled.1 (by decide)

end Session

end Kin.Tui
