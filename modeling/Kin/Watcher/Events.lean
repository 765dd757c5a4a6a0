/-
  Kin.Watcher.Events

  **THE WATCHER FOLLOWING THE FOLDER** (`Watcher.handleEvent`).

  Files are created, modified, renamed and removed; each change leaves its
  events in the queue of `fsnotify`, and the watcher handles them one after the
  other: a Create or Write by the debounced `indexFile`, a Remove or Rename by
  `handleRemove`.  A rename onto another file announces the new name only; the
  file that lay there goes without an event of its own.

  Seen by content, this is a mirror of `Kin.Lib.Mirror` (`view_step`).  So the
  watcher's two promises come with the exact conditions of that library:

    • `records_true_iff` — what is recorded is on disk,
    • `contents_covered_iff` — what is on disk is recorded.
-/
import Kin.Lib.Mirror
import Kin.Lib.Run
import Kin.Watcher.Scan

namespace Kin.Watcher

open Kin.Lib Kin.Catalog Kin.Transfer Kin.Kinpb

/-! ## §1. Events and their handling. -/

/-- The `fsnotify` operations that the watcher reacts to. -/
inductive EventOp where
  | create
  | write
  | remove
  | rename
  deriving DecidableEq, Repr

structure Event where
  name : GoString
  op : EventOp
  deriving DecidableEq, Repr

/-- Create and Write lead to `indexFile`. -/
def EventOp.indexes : EventOp → Bool
  | .create => true
  | .write => true
  | .remove => false
  | .rename => false

@[simp] theorem EventOp.indexes_create : EventOp.create.indexes = true := rfl

@[simp] theorem EventOp.indexes_remove : EventOp.remove.indexes = false := rfl

/-- `handleEvent`, with the debounced call in place of its timer. -/
def handleEvent (fs : Folder) (clk : Clock) (ev : Event) (w : Watched) : Watched :=
  if ev.op.indexes then (indexFile fs clk ev.name w).1 else handleRemove clk ev.name w

/-- A change of the folder. -/
inductive FsAct where
  | create (path : GoString) (f : File)
  /-- New content, and what goes with it. -/
  | modify (path : GoString) (f : File)
  | rename (old new : GoString)
  | remove (path : GoString)

/-- The folder after a change, and the events that announce it. -/
def Folder.apply (fs : Folder) : FsAct → Option (Folder × List Event)
  | .create path f =>
    if fs.lookup path = none ∧ f.regular = true then
      some (fs.insert path f, [⟨path, .create⟩])
    else none
  | .modify path f =>
    if fs.lookup path ≠ none ∧ f.regular = true then
      some (fs.insert path f, [⟨path, .write⟩])
    else none
  | .rename old new =>
    match fs.lookup old with
    | none => none
    | some f =>
      if old = new then none
      else some ((fs.erase old).insert new f, [⟨old, .rename⟩, ⟨new, .create⟩])
  | .remove path =>
    if fs.lookup path ≠ none then some (fs.erase path, [⟨path, .remove⟩]) else none

/-- The folder, the events not yet handled, and what the watcher keeps. -/
structure Sys where
  fs : Folder
  queue : List Event
  watched : Watched

/-- Empty folder, catalog and index. -/
def Sys.init (selfID : NodeID) : Sys := ⟨∅, [], ⟨Store.openFresh selfID, ∅⟩⟩

inductive Act where
  | change (a : FsAct)
  /-- The watcher handles the next event. -/
  | handle (clk : Clock)

def step (s : Sys) : Act → Option Sys
  | .change a =>
    match s.fs.apply a with
    | none => none
    | some (fs, events) => some { s with fs := fs, queue := s.queue ++ events }
  | .handle clk =>
    match s.queue with
    | [] => none
    | ev :: rest => some { s with queue := rest, watched := handleEvent s.fs clk ev s.watched }

/-! ## §2. The promises. -/

/-- The content at a path. -/
def Sys.hashAt (s : Sys) (path : GoString) : Option FileID :=
  (s.fs.lookup path).map (fun f => Sha256.sum256 f.content)

/-- An event about the path is still to be handled. -/
def Sys.Outstanding (s : Sys) (path : GoString) : Prop := ∃ ev ∈ s.queue, ev.name = path

/-- **Soundness**: every live local entry and every pair of the index names a
path that is there with that content. -/
def Sound (s : Sys) : Prop :=
  (∀ e ∈ s.watched.catalog.listLocal, s.hashAt e.localPath = some e.fileID)
    ∧ ∀ h p, s.watched.index.lookup h = some p → s.hashAt p = some h

/-- Soundness while events are outstanding: of paths that have none. -/
def RecordsTrue (s : Sys) : Prop :=
  (∀ e ∈ s.watched.catalog.listLocal,
      ¬ s.Outstanding e.localPath → s.hashAt e.localPath = some e.fileID)
    ∧ ∀ h p, s.watched.index.lookup h = some p → ¬ s.Outstanding p → s.hashAt p = some h

/-- **Completeness**: the content of every file has a live local entry, and the
index leads to a file with that content. -/
def Complete (s : Sys) : Prop :=
  ∀ p h, s.hashAt p = some h →
    (∃ e ∈ s.watched.catalog.listLocal, e.fileID = h)
      ∧ ∃ q, s.watched.index.lookup h = some q ∧ s.hashAt q = some h

/-- When the last event about a path is handled, no live entry gives the path
to another content than the one there (Create, Write), or at most one live entry
has it (Remove, Rename). -/
def Sys.Settles (s : Sys) (ev : Event) (rest : List Event) : Prop :=
  (∃ ev' ∈ rest, ev'.name = ev.name)
    ∨ if ev.op.indexes then
        ∀ e ∈ s.watched.catalog.listLocal,
          e.localPath = ev.name → s.hashAt ev.name = some e.fileID
      else
        ∀ e ∈ s.watched.catalog.listLocal, ∀ e' ∈ s.watched.catalog.listLocal,
          e.localPath = ev.name → e'.localPath = ev.name → e.fileID = e'.fileID

instance (s : Sys) (ev : Event) (rest : List Event) : Decidable (s.Settles ev rest) :=
  inferInstanceAs (Decidable (_ ∨ _))

/-- Every event that is handled settles its path, or leaves it to a later one. -/
def Untangled (s : Sys) : Act → Prop
  | .change _ => True
  | .handle _ => ∀ ev ∈ s.queue.head?, s.Settles ev s.queue.tail

instance (s : Sys) : ∀ a, Decidable (Untangled s a)
  | .change _ => isTrue trivial
  | .handle _ => inferInstanceAs (Decidable (∀ ev ∈ s.queue.head?, s.Settles ev s.queue.tail))

/-- New paths are valid UTF-8. -/
def Act.namesValid : Act → Bool
  | .change (.create path _) => validUTF8 path
  | .change (.rename _ new) => validUTF8 new
  | _ => true

/-- New files can be stored. -/
def Act.filesStorable : Act → Bool
  | .change (.create _ f) => f.storable
  | .change (.modify _ f) => f.storable
  | _ => true

/-! ## §3. The watcher as a mirror. -/

def Event.notice (ev : Event) : Notice GoString :=
  if ev.op.indexes then .changed ev.name else .gone ev.name

@[simp] theorem Event.path_notice (ev : Event) : ev.notice.path = ev.name := by
  unfold Event.notice
  split <;> rfl

/-- Contents by path, notices, paths by content. -/
def Sys.view (s : Sys) : Mirror GoString FileID where
  disk := s.hashAt
  queue := s.queue.map Event.notice
  record := s.watched.catalog.localPathOf

def Act.toChange : Act → Change GoString FileID
  | .change (.create path f) => .put path (Sha256.sum256 f.content)
  | .change (.modify path f) => .put path (Sha256.sum256 f.content)
  | .change (.rename old new) => .move old new
  | .change (.remove path) => .drop path
  | .handle _ => .handle

/-- What every run keeps whose names are valid. -/
structure Inv (s : Sys) : Prop where
  wf : s.watched.catalog.db.WF
  lockstep : Lockstep s.watched
  regular : ∀ p f, s.fs.lookup p = some f → f.regular = true
  validDisk : ∀ p f, s.fs.lookup p = some f → validUTF8 p = true
  validQueue : ∀ ev ∈ s.queue, validUTF8 ev.name = true
  inOrder : s.view.InOrder

theorem hashAt_insert (s : Sys) (path : GoString) (f : File) (queue : List Event) :
    Sys.hashAt { s with fs := s.fs.insert path f, queue := queue }
      = Function.update s.hashAt path (some (Sha256.sum256 f.content)) := by
  funext p
  rw [Function.update_apply]
  show (AList.lookup p (AList.insert path f s.fs)).map _ = _
  rw [GoMap.lookup_insert]
  split <;> rfl

theorem hashAt_erase (s : Sys) (path : GoString) (queue : List Event) :
    Sys.hashAt { s with fs := s.fs.erase path, queue := queue }
      = Function.update s.hashAt path none := by
  funext p
  rw [Function.update_apply]
  show (AList.lookup p (AList.erase path s.fs)).map _ = _
  rw [GoMap.lookup_erase]
  split <;> rfl

/-- Appending an event is appending its notice. -/
theorem map_notice_concat (queue : List Event) (ev : Event) :
    (queue ++ [ev]).map Event.notice = queue.map Event.notice ++ [ev.notice] := by
  rw [List.map_append]
  rfl

/-- The path of a storable file is recorded for its content. -/
theorem localPathOf_indexFile_update {fs : Folder} {path : GoString} {f : File}
    (hf : fs.lookup path = some f) (hs : f.storable = true) {w : Watched}
    (hwf : w.catalog.db.WF) (hv : validUTF8 path = true) (clk : Clock) :
    (indexFile fs clk path w).1.catalog.localPathOf
      = Function.update w.catalog.localPathOf (Sha256.sum256 f.content) (some path) := by
  funext h
  rw [indexFile_localPathOf hf hs hwf, show jsonString path = path from of_decide_eq_true hv,
    Function.update_apply]

/-- What a step can be. -/
theorem step_cases {s t : Sys} {a : Act} (hs : step s a = some t) :
    (∃ path f op, a.toChange = .put path (Sha256.sum256 f.content) ∧ op.indexes = true
        ∧ f.regular = true ∧ (a.filesStorable = true → f.storable = true)
        ∧ (a.namesValid = true → s.fs.lookup path ≠ none ∨ validUTF8 path = true)
        ∧ t = { s with fs := s.fs.insert path f, queue := s.queue ++ [⟨path, op⟩] })
      ∨ (∃ old new f, a.toChange = .move old new ∧ s.fs.lookup old = some f ∧ old ≠ new
        ∧ (a.namesValid = true → validUTF8 new = true)
        ∧ t = { s with
            fs := (s.fs.erase old).insert new f
            queue := s.queue ++ [⟨old, .rename⟩] ++ [⟨new, .create⟩] })
      ∨ (∃ path, a.toChange = .drop path ∧ s.fs.lookup path ≠ none
        ∧ t = { s with fs := s.fs.erase path, queue := s.queue ++ [⟨path, .remove⟩] })
      ∨ ∃ clk ev rest, a.toChange = .handle ∧ s.queue = ev :: rest
        ∧ t = { s with queue := rest, watched := handleEvent s.fs clk ev s.watched } := by
  cases a with
  | change a =>
    simp only [step] at hs
    split at hs
    next => cases hs
    next fs events happly =>
      have ht := (Option.some.inj hs).symm
      cases a with
      | create path f =>
        simp only [Folder.apply] at happly
        split at happly
        next h =>
          obtain ⟨rfl, rfl⟩ := Prod.mk.inj (Option.some.inj happly)
          exact Or.inl ⟨path, f, .create, rfl, rfl, h.2, id, Or.inr, ht⟩
        next => cases happly
      | modify path f =>
        simp only [Folder.apply] at happly
        split at happly
        next h =>
          obtain ⟨rfl, rfl⟩ := Prod.mk.inj (Option.some.inj happly)
          exact Or.inl ⟨path, f, .write, rfl, rfl, h.2, id, fun _ => Or.inl h.1, ht⟩
        next => cases happly
      | rename old new =>
        simp only [Folder.apply] at happly
        split at happly
        next => cases happly
        next f hf =>
          split at happly
          next => cases happly
          next hne =>
            obtain ⟨rfl, rfl⟩ := Prod.mk.inj (Option.some.inj happly)
            refine Or.inr (Or.inl ⟨old, new, f, rfl, hf, hne, id, ?_⟩)
            rw [ht, List.append_assoc]
            rfl
      | remove path =>
        simp only [Folder.apply] at happly
        split at happly
        next h =>
          obtain ⟨rfl, rfl⟩ := Prod.mk.inj (Option.some.inj happly)
          exact Or.inr (Or.inr (Or.inl ⟨path, rfl, h, ht⟩))
        next => cases happly
  | handle clk =>
    simp only [step] at hs
    split at hs
    next => cases hs
    next ev rest hq =>
      exact Or.inr (Or.inr (Or.inr ⟨clk, ev, rest, rfl, hq, (Option.some.inj hs).symm⟩))

/-- Handling an event is handling its notice. -/
theorem view_handle {lossy : Prop} {s : Sys} (hinv : Inv s)
    (hl : lossy ∨ ∀ p f, s.fs.lookup p = some f → f.storable = true) {ev : Event}
    {rest : List Event} (hq : s.queue = ev :: rest) (clk : Clock) :
    Mirror.Step lossy s.view .handle
      (Sys.view { s with queue := rest, watched := handleEvent s.fs clk ev s.watched }) := by
  have hv : validUTF8 ev.name = true := hinv.validQueue ev (by rw [hq]; exact List.mem_cons_self)
  have hqv : s.view.queue = ev.notice :: rest.map Event.notice := by
    show s.queue.map Event.notice = _
    rw [hq]
    rfl
  unfold Event.notice at hqv
  unfold handleEvent
  cases hop : ev.op.indexes with
  | true =>
    rw [hop] at hqv
    by_cases hskip : ∀ f, s.fs.lookup ev.name = some f → f.storable = false
    · -- nothing to index, or a file that cannot be stored
      rw [if_pos rfl, indexFile_skips hskip]
      refine Mirror.Step.pass s.view hqv ?_
      cases hf : s.fs.lookup ev.name with
      | none =>
        refine Or.inl ?_
        show (s.fs.lookup ev.name).map _ = none
        rw [hf]
        rfl
      | some f =>
        refine Or.inr (hl.resolve_right fun hall => ?_)
        have hyes := hall ev.name f hf
        rw [hskip f hf] at hyes
        cases hyes
    · push Not at hskip
      obtain ⟨f, hf, hs⟩ := hskip
      have hs : f.storable = true := by simpa using hs
      have hdisk : s.view.disk ev.name = some (Sha256.sum256 f.content) := by
        show (s.fs.lookup ev.name).map _ = _
        rw [hf]
        rfl
      have hrec : Mirror.Step lossy _ _ _ := .record s.view hqv hdisk
      rw [if_pos rfl]
      unfold Sys.view
      dsimp only
      rw [localPathOf_indexFile_update hf hs hinv.wf hv]
      exact hrec
  | false =>
    rw [hop] at hqv
    rw [if_neg Bool.false_ne_true]
    rcases handleRemove_cases hinv.wf clk ev.name with ⟨h, hh, hpaths, _⟩ | ⟨hnone, hsame⟩
    · have hforget : Mirror.Step lossy _ _ _ := .forget s.view hqv hh
      have hupdate : (handleRemove clk ev.name s.watched).catalog.localPathOf
          = Function.update s.watched.catalog.localPathOf h none := by
        funext g
        rw [hpaths g, Function.update_apply]
      unfold Sys.view
      dsimp only
      rw [hupdate]
      exact hforget
    · rw [hsame]
      exact Mirror.Step.absent s.view hqv hnone

/-- **Every step of the watcher is a step of the mirror**; it loses nothing if
every file can be stored. -/
theorem view_step {lossy : Prop} {s t : Sys} {a : Act} (hinv : Inv s)
    (hl : lossy ∨ ∀ p f, s.fs.lookup p = some f → f.storable = true) (hs : step s a = some t) :
    Mirror.Step lossy s.view a.toChange t.view := by
  rcases step_cases hs with ⟨path, f, op, hc, hop, _, _, _, rfl⟩ | ⟨old, new, f, hc, hf, hne, _, rfl⟩
    | ⟨path, hc, _, rfl⟩ | ⟨clk, ev, rest, hc, hq, rfl⟩
  · have hnotice : Event.notice ⟨path, op⟩ = .changed path := if_pos hop
    rw [hc]
    unfold Sys.view
    rw [hashAt_insert, map_notice_concat, hnotice]
    exact Mirror.Step.put s.view path (Sha256.sum256 f.content)
  · have hdisk : s.view.disk old = some (Sha256.sum256 f.content) := by
      show (s.fs.lookup old).map _ = _
      rw [hf]
      rfl
    have hafter := hashAt_insert { s with fs := s.fs.erase old } new f s.queue
    rw [hashAt_erase] at hafter
    have hmove : Mirror.Step lossy _ _ _ := .move s.view hdisk hne
    rw [show s.view.disk = s.hashAt from rfl, ← hafter] at hmove
    rw [hc]
    unfold Sys.view
    rw [map_notice_concat, map_notice_concat]
    exact hmove
  · rw [hc]
    unfold Sys.view
    rw [hashAt_erase, map_notice_concat]
    exact Mirror.Step.drop s.view path
  · rw [hc]
    exact view_handle hinv hl hq clk

/-! ## §4. What every run keeps. -/

theorem inv_init (selfID : NodeID) : Inv (Sys.init selfID) where
  wf := DB.wf_empty
  lockstep := by
    intro h
    rfl
  regular := by
    intro p f hf
    cases hf
  validDisk := by
    intro p f hf
    cases hf
  validQueue := by
    intro ev hev
    cases hev
  inOrder := by
    intro before n after heq
    cases before <;> cases heq

/-- The files of a folder with one file more. -/
theorem forall_lookup_insert {fs : Folder} {path : GoString} {f : File} {Q : GoString → File → Prop}
    (h : ∀ p g, fs.lookup p = some g → Q p g) (hf : Q path f) :
    ∀ p g, (AList.insert path f fs).lookup p = some g → Q p g := by
  intro p g hg
  rw [GoMap.lookup_insert] at hg
  split at hg
  next hp =>
    rw [hp, ← Option.some.inj hg]
    exact hf
  next => exact h p g hg

theorem forall_lookup_erase {fs : Folder} {path : GoString} {Q : GoString → File → Prop}
    (h : ∀ p g, fs.lookup p = some g → Q p g) :
    ∀ p g, (AList.erase path fs).lookup p = some g → Q p g := by
  intro p g hg
  rw [GoMap.lookup_erase] at hg
  split at hg
  next => cases hg
  next => exact h p g hg

theorem inv_step (s : Sys) (a : Act) (t : Sys) (hinv : Inv s) (ha : a.namesValid = true)
    (hs : step s a = some t) : Inv t := by
  have hord : t.view.InOrder :=
    Mirror.inOrder_step hinv.inOrder (view_step hinv (Or.inl True.intro) hs)
  rcases step_cases hs with ⟨path, f, op, _, _, hreg, _, hname, rfl⟩
    | ⟨old, new, f, _, hf, _, hname, rfl⟩ | ⟨path, _, hp, rfl⟩ | ⟨clk, ev, rest, _, hq, rfl⟩
  · have hv : validUTF8 path = true := by
      rcases hname ha with hold | hnew
      · obtain ⟨g, hg⟩ := Option.ne_none_iff_exists'.mp hold
        exact hinv.validDisk path g hg
      · exact hnew
    exact ⟨hinv.wf, hinv.lockstep, forall_lookup_insert hinv.regular hreg,
      forall_lookup_insert hinv.validDisk hv, forall_mem_concat hinv.validQueue hv, hord⟩
  · have hold : validUTF8 old = true := hinv.validDisk old f hf
    exact ⟨hinv.wf, hinv.lockstep,
      forall_lookup_insert (forall_lookup_erase hinv.regular) (hinv.regular old f hf),
      forall_lookup_insert (forall_lookup_erase hinv.validDisk) (hname ha),
      forall_mem_concat (forall_mem_concat hinv.validQueue hold) (hname ha), hord⟩
  · obtain ⟨g, hg⟩ := Option.ne_none_iff_exists'.mp hp
    exact ⟨hinv.wf, hinv.lockstep, forall_lookup_erase hinv.regular,
      forall_lookup_erase hinv.validDisk,
      forall_mem_concat hinv.validQueue (hinv.validDisk path g hg), hord⟩
  · have hv : validUTF8 ev.name = true := hinv.validQueue ev (by rw [hq]; exact List.mem_cons_self)
    refine ⟨?_, ?_, hinv.regular, hinv.validDisk, fun ev' hev' => ?_, hord⟩
    · show (handleEvent s.fs clk ev s.watched).catalog.db.WF
      unfold handleEvent
      split
      · exact indexFile_wf s.fs clk ev.name hinv.wf
      · exact handleRemove_wf clk ev.name hinv.wf
    · show Lockstep (handleEvent s.fs clk ev s.watched)
      unfold handleEvent
      split
      · exact lockstep_indexFile s.fs clk hv hinv.wf hinv.lockstep
      · exact lockstep_handleRemove clk ev.name hinv.wf hinv.lockstep
    · exact hinv.validQueue ev' (by rw [hq]; exact List.mem_cons_of_mem _ hev')

/-! ## §5. What is recorded is there. -/

theorem pending_notices (queue : List Event) (p : GoString) :
    Pending (queue.map Event.notice) p ↔ ∃ ev ∈ queue, ev.name = p := by
  unfold Pending
  simp only [List.mem_map, exists_exists_and_eq_and, Event.path_notice]

/-- The entries of the catalog decide; the index goes with them. -/
theorem recordsTrue_iff {s : Sys} (hinv : Inv s) : RecordsTrue s ↔ s.view.Truthful := by
  constructor
  · intro h hash p hp hout
    obtain ⟨e, he, hid, hpath⟩ := (Store.localPathOf_iff_listLocal hinv.wf).mp hp
    rw [← hid, ← hpath]
    refine h.1 e he (fun hpend => hout ?_)
    rw [← hpath]
    exact (pending_notices s.queue e.localPath).mpr hpend
  · intro h
    constructor
    · intro e he hout
      exact h e.fileID e.localPath
        ((Store.localPathOf_iff_listLocal hinv.wf).mpr ⟨e, he, rfl, rfl⟩)
        (fun hpend => hout ((pending_notices s.queue e.localPath).mp hpend))
    · intro hash p hp hout
      rw [hinv.lockstep hash] at hp
      exact h hash p hp (fun hpend => hout ((pending_notices s.queue p).mp hpend))

theorem sound_of_recordsTrue {s : Sys} (h : RecordsTrue s) (hq : s.queue = []) : Sound s := by
  have hout : ∀ p, ¬ s.Outstanding p := by
    intro p ⟨ev, hev, _⟩
    rw [hq] at hev
    cases hev
  exact ⟨fun e he => h.1 e he (hout _), fun hash p hp => h.2 hash p hp (hout _)⟩

theorem settles_iff {s : Sys} (hinv : Inv s) (ev : Event) (rest : List Event) :
    s.Settles ev rest
      ↔ Pending (rest.map Event.notice) ev.name
        ∨ if ev.op.indexes then
            ∀ h, s.view.record h = some ev.name → s.view.disk ev.name = some h
          else
            ∀ h h', s.view.record h = some ev.name → s.view.record h' = some ev.name → h = h' := by
  refine or_congr (pending_notices rest ev.name).symm ?_
  have hlisted := fun h => Store.localPathOf_iff_listLocal hinv.wf (h := h) (p := ev.name)
  split
  · constructor
    · intro h hash hp
      obtain ⟨e, he, hid, hpath⟩ := (hlisted hash).mp hp
      rw [← hid]
      exact h e he hpath
    · intro h e he hpath
      exact h e.fileID ((hlisted e.fileID).mpr ⟨e, he, rfl, hpath⟩)
  · constructor
    · intro h hash hash' hp hp'
      obtain ⟨e, he, hid, hpath⟩ := (hlisted hash).mp hp
      obtain ⟨e', he', hid', hpath'⟩ := (hlisted hash').mp hp'
      rw [← hid, ← hid']
      exact h e he e' he' hpath hpath'
    · intro h e he e' he' hpath hpath'
      exact h e.fileID e'.fileID ((hlisted e.fileID).mpr ⟨e, he, rfl, hpath⟩)
        ((hlisted e'.fileID).mpr ⟨e', he', rfl, hpath'⟩)

theorem untangled_iff {s : Sys} (hinv : Inv s) (a : Act) :
    Untangled s a ↔ s.view.Untangled a.toChange := by
  cases a with
  | change a => cases a <;> exact Iff.rfl
  | handle clk =>
    unfold Untangled Mirror.Untangled Act.toChange
    rw [show s.view.queue = s.queue.map Event.notice from rfl]
    cases s.queue with
    | nil => simp
    | cons ev rest =>
      simp only [List.head?_cons, List.tail_cons, Option.mem_def, Option.some.injEq,
        forall_eq', List.map_cons]
      rw [settles_iff hinv]
      unfold Event.notice
      cases ev.op.indexes <;> exact Iff.rfl

/-- **What is recorded is there, exactly as long as no path has two contents.**
In every run with valid names: the records of paths without an outstanding event
are right in every state if and only if each handled event is untangled; and then
everything recorded is right whenever all events have been handled. -/
theorem records_true_iff (selfID : NodeID) (acts : List Act)
    (hv : ∀ a ∈ acts, a.namesValid = true) :
    (StatesMeet step RecordsTrue (Sys.init selfID) acts
        ↔ StepsMeet step Untangled (Sys.init selfID) acts)
      ∧ (StepsMeet step Untangled (Sys.init selfID) acts →
          ∀ t, run step (Sys.init selfID) acts = some t → t.queue = [] → Sound t) := by
  have hinit : RecordsTrue (Sys.init selfID) := by
    constructor
    · intro e he
      cases he
    · intro h p hp
      cases hp
  have hiff : StatesMeet step RecordsTrue (Sys.init selfID) acts
      ↔ StepsMeet step Untangled (Sys.init selfID) acts := by
    refine statesMeet_iff_stepsMeet_within (J := Inv) (D := fun _ a => a.namesValid = true)
      (fun s a t hinv ha hs => inv_step s a t hinv ha hs) (fun s a t hinv hrec ha hs => ?_)
      (stepsMeet_of_forall _ hv) (inv_init selfID) hinit
    rw [recordsTrue_iff (inv_step s a t hinv ha hs), untangled_iff hinv]
    exact Mirror.truthful_step_iff hinv.inOrder ((recordsTrue_iff hinv).mp hrec)
      (view_step hinv (Or.inl True.intro) hs)
  exact ⟨hiff, fun hc t ht hq => sound_of_recordsTrue ((hiff.mpr hc).last ht) hq⟩

/-! ## §6. What is there is recorded. -/

theorem storable_step {s t : Sys} {a : Act} (h : ∀ p f, s.fs.lookup p = some f → f.storable = true)
    (ha : a.filesStorable = true) (hs : step s a = some t) :
    ∀ p f, t.fs.lookup p = some f → f.storable = true := by
  rcases step_cases hs with ⟨path, f, op, _, _, _, hfile, _, rfl⟩ | ⟨old, new, f, _, hf, _, _, rfl⟩
    | ⟨path, _, _, rfl⟩ | ⟨clk, ev, rest, _, _, rfl⟩
  · exact forall_lookup_insert h (hfile ha)
  · exact forall_lookup_insert (forall_lookup_erase h) (h old f hf)
  · exact forall_lookup_erase h
  · exact h

theorem complete_of_covered {s : Sys} (hinv : Inv s) (h : s.view.Covered) (hq : s.queue = []) :
    Complete s := by
  intro p hash hp
  obtain ⟨q, hdisk, hor⟩ := h p hash hp
  have hqv : s.view.queue = [] := by
    show s.queue.map Event.notice = []
    rw [hq]
    rfl
  rw [hqv] at hor
  rcases hor with hin | ⟨hrec, _⟩
  · cases hin
  · obtain ⟨e, he, hid, _⟩ := (Store.localPathOf_iff_listLocal hinv.wf).mp hrec
    refine ⟨⟨e, he, hid⟩, q, ?_, hdisk⟩
    rw [hinv.lockstep hash]
    exact hrec

/-- **What is there is recorded, exactly as long as no copy goes that alone
stands for others.**  In every run with valid names and storable files: each
content of the folder is recorded or about to be, in every state, if and only if
no modification, removal or rename takes the only covering copy of a content that
remains elsewhere; and then every file is in catalog and index whenever all
events have been handled. -/
theorem contents_covered_iff (selfID : NodeID) (acts : List Act)
    (hv : ∀ a ∈ acts, a.namesValid = true ∧ a.filesStorable = true) :
    (StatesMeet step (fun s => s.view.Covered) (Sys.init selfID) acts
        ↔ StepsMeet step (fun s a => s.view.Spares a.toChange) (Sys.init selfID) acts)
      ∧ (StepsMeet step (fun s a => s.view.Spares a.toChange) (Sys.init selfID) acts →
          ∀ t, run step (Sys.init selfID) acts = some t → t.queue = [] → Complete t) := by
  have hinit : (Sys.init selfID).view.Covered := by
    intro p h hp
    cases hp
  have hiff : StatesMeet step (fun s => s.view.Covered) (Sys.init selfID) acts
      ↔ StepsMeet step (fun s a => s.view.Spares a.toChange) (Sys.init selfID) acts := by
    refine statesMeet_iff_stepsMeet_within
      (J := fun s => Inv s ∧ ∀ p f, s.fs.lookup p = some f → f.storable = true)
      (D := fun _ a => a.namesValid = true ∧ a.filesStorable = true)
      (fun s a t hj ha hs => ⟨inv_step s a t hj.1 ha.1 hs, storable_step hj.2 ha.2 hs⟩)
      (fun s a t hj hcov ha hs => ?_) (stepsMeet_of_forall _ hv)
      ⟨inv_init selfID, fun p f hf => by cases hf⟩ hinit
    exact Mirror.covered_step_iff hj.1.inOrder hcov (view_step hj.1 (Or.inr hj.2) hs)
  refine ⟨hiff, fun hc t ht hq => ?_⟩
  have hinv : Inv t := run_invariant_of (C := fun a => a.namesValid = true)
    (fun s a t hinv ha hs => inv_step s a t hinv ha hs) (inv_init selfID)
    (fun a ha => (hv a ha).1) ht
  exact complete_of_covered hinv ((hiff.mpr hc).last ht) hq

/-! ## §7. A modified file, and a file with a copy. -/

/-- `a.txt` is created and indexed; `b.txt` is too, and is removed and retracted. -/
def createRemoveRun : List Act :=
  [.change (.create (ascii "/Kin/a.txt") (textFile "one")), .handle Clock.epoch,
    .change (.create (ascii "/Kin/b.txt") (textFile "two")), .handle Clock.epoch,
    .change (.remove (ascii "/Kin/b.txt")), .handle Clock.epoch]

/-- `a.txt` is on record, and rightly so. -/
theorem records_true_createRemove :
    ∃ t ∈ run step (Sys.init (Bytes.lit32 0xAA)) createRemoveRun,
      t.queue = []
        ∧ t.watched.index.lookup (Sha256.sum256 (ascii "one")) = some (ascii "/Kin/a.txt")
        ∧ (∃ e ∈ t.watched.catalog.listLocal,
            e.fileID = Sha256.sum256 (ascii "one") ∧ e.localPath = ascii "/Kin/a.txt")
        ∧ Sound t := by
  have hend : ∃ t ∈ run step (Sys.init (Bytes.lit32 0xAA)) createRemoveRun,
      t.queue = []
        ∧ t.watched.index.lookup (Sha256.sum256 (ascii "one")) = some (ascii "/Kin/a.txt")
        ∧ ∃ e ∈ t.watched.catalog.listLocal,
            e.fileID = Sha256.sum256 (ascii "one") ∧ e.localPath = ascii "/Kin/a.txt" := by
    decide +kernel
  obtain ⟨t, ht, hq, hidx, hent⟩ := hend
  exact ⟨t, ht, hq, hidx, hent,
    (records_true_iff (Bytes.lit32 0xAA) createRemoveRun (by decide)).2 (by decide +kernel) t ht hq⟩

/-- `a.txt` is indexed, given another content, and indexed again. -/
def modifyRun : List Act :=
  [.change (.create (ascii "/Kin/a.txt") (textFile "one")), .handle Clock.epoch,
    .change (.modify (ascii "/Kin/a.txt") (textFile "two")), .handle Clock.epoch]

/-- The entry of the old content stays, with the path of the new one. -/
theorem modify_leaves_stale_entry :
    ∃ t ∈ run step (Sys.init (Bytes.lit32 0xAA)) modifyRun,
      t.queue = [] ∧ t.hashAt (ascii "/Kin/a.txt") = some (Sha256.sum256 (ascii "two"))
        ∧ t.watched.index.lookup (Sha256.sum256 (ascii "one")) = some (ascii "/Kin/a.txt")
        ∧ (∃ e ∈ t.watched.catalog.listLocal,
            e.fileID = Sha256.sum256 (ascii "one") ∧ e.localPath = ascii "/Kin/a.txt")
        ∧ ¬ Sound t := by
  have hend : ∃ t ∈ run step (Sys.init (Bytes.lit32 0xAA)) modifyRun,
      t.queue = [] ∧ t.hashAt (ascii "/Kin/a.txt") = some (Sha256.sum256 (ascii "two"))
        ∧ t.watched.index.lookup (Sha256.sum256 (ascii "one")) = some (ascii "/Kin/a.txt")
        ∧ ∃ e ∈ t.watched.catalog.listLocal,
            e.fileID = Sha256.sum256 (ascii "one") ∧ e.localPath = ascii "/Kin/a.txt" := by
    decide +kernel
  have hne : Sha256.sum256 (ascii "two") ≠ Sha256.sum256 (ascii "one") := by decide +kernel
  obtain ⟨t, ht, hq, hdisk, hidx, hent⟩ := hend
  refine ⟨t, ht, hq, hdisk, hidx, hent, fun hsound => hne ?_⟩
  have hwrong := hsound.2 _ _ hidx
  rw [hdisk] at hwrong
  exact Option.some.inj hwrong

/-- One file is created and indexed. -/
theorem contents_covered_create :
    ∃ t ∈ run step (Sys.init (Bytes.lit32 0xAA)) (createRemoveRun.take 2),
      t.queue = [] ∧ t.hashAt (ascii "/Kin/a.txt") ≠ none ∧ Complete t := by
  have hend : ∃ t ∈ run step (Sys.init (Bytes.lit32 0xAA)) (createRemoveRun.take 2),
      t.queue = [] ∧ t.hashAt (ascii "/Kin/a.txt") ≠ none := by decide +kernel
  obtain ⟨t, ht, hq, hdisk⟩ := hend
  refine ⟨t, ht, hq, hdisk, (contents_covered_iff (Bytes.lit32 0xAA) (createRemoveRun.take 2)
    (by decide)).2 ?_ t ht hq⟩
  intro u _
  refine ⟨?_, fun v _ => ⟨trivial, trivial⟩⟩
  intro h hp
  cases hp

/-- Two files with one content; the one indexed last is removed. -/
def removeCopyRun : List Act :=
  [.change (.create (ascii "/Kin/a.txt") (textFile "one")), .handle Clock.epoch,
    .change (.create (ascii "/Kin/b.txt") (textFile "one")), .handle Clock.epoch,
    .change (.remove (ascii "/Kin/b.txt")), .handle Clock.epoch]

/-- The other copy is in the folder and nowhere else. -/
theorem removing_a_copy_forgets_the_other :
    ∃ t ∈ run step (Sys.init (Bytes.lit32 0xAA)) removeCopyRun,
      t.queue = [] ∧ t.hashAt (ascii "/Kin/a.txt") = some (Sha256.sum256 (ascii "one"))
        ∧ t.watched.catalog.listLocal = []
        ∧ t.watched.index.lookup (Sha256.sum256 (ascii "one")) = none
        ∧ ¬ Complete t := by
  have hend : ∃ t ∈ run step (Sys.init (Bytes.lit32 0xAA)) removeCopyRun,
      t.queue = [] ∧ t.hashAt (ascii "/Kin/a.txt") = some (Sha256.sum256 (ascii "one"))
        ∧ t.watched.catalog.listLocal = []
        ∧ t.watched.index.lookup (Sha256.sum256 (ascii "one")) = none := by decide +kernel
  obtain ⟨t, ht, hq, hdisk, hlist, hidx⟩ := hend
  refine ⟨t, ht, hq, hdisk, hlist, hidx, fun hcomplete => ?_⟩
  obtain ⟨e, he, _⟩ := (hcomplete _ _ hdisk).1
  rw [hlist] at he
  cases he

end Kin.Watcher
