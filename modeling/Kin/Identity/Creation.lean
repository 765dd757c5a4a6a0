/-
  Kin.Identity.Creation

  **ONE NODE, ONE KEY?** (`internal/identity/identity.go`).

  The daemon, the terminal interface and every command of the tool call
  `LoadOrGenerate` on the same directory.  A process that finds no file makes a
  seed and writes it; nothing locks the file, and `os.WriteFile` truncates it first
  and writes after:

      ReadFile ──no file──▶ Generate ──▶ MkdirAll ──▶ open, truncate ──▶ write … ──▶ close
          └──▶ 32 bytes: the identity; else "identity file corrupt"

  Any number of processes run at once, and each may be killed anywhere.

    • `overlay_take` — what a write adds to a file that holds the seed so far,
    • `step_oneWriter` — as long as one process only has opened the file for writing,
    • `step_settled` — once nobody is about to write,
    • `step_loads` — what a process that reads then comes to,
    • `identity_kept` — all of it, over every run.

  A seed's public key (`ed25519.NewKeyFromSeed`) is a parameter.
-/
import Kin.Kinpb.Messages
import Kin.Lib.Run
import Kin.Lib.Sha256

namespace Kin.KeyFile

open Kin.Lib Kin.Kinpb

/-! ## §1. The processes. -/

abbrev Seed := Bytes 32

structure Identity where
  /-- `PrivKey.Seed()`. -/
  seed : GoString
  pubKey : GoString
  nodeID : NodeID
  deriving DecidableEq

def fromSeed (pub : GoString → GoString) (seed : GoString) : Identity :=
  ⟨seed, pub seed, Sha256.sum256 (pub seed)⟩

/-- Where a call of `LoadOrGenerate` stands. -/
inductive PC where
  /-- `os.ReadFile` has the file open, and has read so much of it. -/
  | reading (got : GoString)
  /-- There was no file. -/
  | missing
  | generated (seed : Seed)
  /-- The directory is there. -/
  | made (seed : Seed)
  /-- The file is open for writing; so many bytes are written. -/
  | writing (seed : Seed) (done : Nat)
  | returned (res : Except String Identity)
  | killed

structure Host where
  /-- `identity.key`. -/
  file : Option GoString
  procs : List PC
  /-- History: the seeds of the processes that have opened the file for writing. -/
  opened : List Seed

def Host.new : Host := ⟨none, [], []⟩

def Host.setProc (s : Host) (i : Nat) (pc : PC) : Host := { s with procs := s.procs.set i pc }

inductive Act where
  /-- A process calls `LoadOrGenerate`, and opens the file for reading. -/
  | start (openErr : Option String)
  /-- One `Read`, of `k + 1` bytes at most. -/
  | read (i k : Nat)
  | generate (i : Nat) (seed : Seed)
  | mkdirAll (i : Nat)
  /-- `os.OpenFile` with `O_CREATE` and `O_TRUNC`. -/
  | openFile (i : Nat)
  /-- One write, of `k + 1` bytes at most. -/
  | write (i k : Nat)
  | close (i : Nat)
  /-- The call that the process is in returns an error. -/
  | fail (i : Nat) (err : String)
  | kill (i : Nat)

/-- `Load` of what was read, with the wrapping of `LoadOrGenerate`. -/
def load (pub : GoString → GoString) (seed : GoString) : Except String Identity :=
  if seed.length ≠ 32 then
    .error ("load identity: " ++ "identity file corrupt: expected 32 bytes, got "
      ++ toString seed.length)
  else .ok (fromSeed pub seed)

/-- The bytes of a file after a write at an offset; a gap reads as zeros. -/
def overlay (file : GoString) (off : Nat) (data : GoString) : GoString :=
  (file ++ List.replicate (off - file.length) 0).take off ++ data ++ file.drop (off + data.length)

/-- What `LoadOrGenerate` makes of an error, by where it comes from. -/
def PC.wrap (err : String) : PC → Option String
  | .reading _ => some ("load identity: " ++ err)
  | .missing => some ("generate identity: " ++ "generate seed: " ++ err)
  | .generated _ => some ("save identity: " ++ "create config dir: " ++ err)
  | .made _ => some ("save identity: " ++ "write identity file: " ++ err)
  | .writing _ _ => some ("save identity: " ++ "write identity file: " ++ err)
  | .returned _ => none
  | .killed => none

def step (pub : GoString → GoString) (s : Host) : Act → Option Host
  | .start openErr =>
    match openErr with
    | some err =>
      some { s with procs := s.procs ++ [.returned (.error ("load identity: " ++ err))] }
    | none =>
      match s.file with
      | none => some { s with procs := s.procs ++ [.missing] }
      | some _ => some { s with procs := s.procs ++ [.reading []] }
  | .read i k =>
    match s.procs[i]?, s.file with
    | some (.reading got), some file =>
      if file.drop got.length = [] then some (s.setProc i (.returned (load pub got)))
      else some (s.setProc i (.reading (got ++ (file.drop got.length).take (k + 1))))
    | _, _ => none
  | .generate i seed =>
    match s.procs[i]? with
    | some .missing => some (s.setProc i (.generated seed))
    | _ => none
  | .mkdirAll i =>
    match s.procs[i]? with
    | some (.generated seed) => some (s.setProc i (.made seed))
    | _ => none
  | .openFile i =>
    match s.procs[i]? with
    | some (.made seed) =>
      some { s.setProc i (.writing seed 0) with file := some [], opened := s.opened ++ [seed] }
    | _ => none
  | .write i k =>
    match s.procs[i]?, s.file with
    | some (.writing seed done), some file =>
      if seed.val.drop done = [] then none
      else
        let data := (seed.val.drop done).take (k + 1)
        some { s.setProc i (.writing seed (done + data.length)) with
          file := some (overlay file done data) }
    | _, _ => none
  | .close i =>
    match s.procs[i]? with
    | some (.writing seed done) =>
      if seed.val.drop done = [] then some (s.setProc i (.returned (.ok (fromSeed pub seed.val))))
      else none
    | _ => none
  | .fail i err =>
    match s.procs[i]? with
    | some pc =>
      match pc.wrap err with
      | some text => some (s.setProc i (.returned (.error text)))
      | none => none
    | none => none
  | .kill i =>
    match s.procs[i]? with
    | some pc =>
      match pc.wrap "" with
      | some _ => some (s.setProc i .killed)
      | none => none
    | none => none

/-- What a step can do. -/
inductive Step (pub : GoString → GoString) (s : Host) : Act → Host → Prop
  | startFails (err : String) :
      Step pub s (.start (some err))
        { s with procs := s.procs ++ [.returned (.error ("load identity: " ++ err))] }
  | startMissing (hfile : s.file = none) :
      Step pub s (.start none) { s with procs := s.procs ++ [.missing] }
  | startReading {file : GoString} (hfile : s.file = some file) :
      Step pub s (.start none) { s with procs := s.procs ++ [.reading []] }
  | readEnd {i : Nat} {got file : GoString} (k : Nat) (hproc : s.procs[i]? = some (.reading got))
      (hfile : s.file = some file) (hend : file.drop got.length = []) :
      Step pub s (.read i k) (s.setProc i (.returned (load pub got)))
  | readMore {i : Nat} {got file : GoString} (k : Nat) (hproc : s.procs[i]? = some (.reading got))
      (hfile : s.file = some file) (hmore : file.drop got.length ≠ []) :
      Step pub s (.read i k)
        (s.setProc i (.reading (got ++ (file.drop got.length).take (k + 1))))
  | generate {i : Nat} (seed : Seed) (hproc : s.procs[i]? = some .missing) :
      Step pub s (.generate i seed) (s.setProc i (.generated seed))
  | mkdirAll {i : Nat} {seed : Seed} (hproc : s.procs[i]? = some (.generated seed)) :
      Step pub s (.mkdirAll i) (s.setProc i (.made seed))
  | openFile {i : Nat} {seed : Seed} (hproc : s.procs[i]? = some (.made seed)) :
      Step pub s (.openFile i)
        { s.setProc i (.writing seed 0) with file := some [], opened := s.opened ++ [seed] }
  | write {i done : Nat} {seed : Seed} {file data : GoString} (k : Nat)
      (hproc : s.procs[i]? = some (.writing seed done)) (hfile : s.file = some file)
      (hdata : data = (seed.val.drop done).take (k + 1)) :
      Step pub s (.write i k)
        { s.setProc i (.writing seed (done + data.length)) with
          file := some (overlay file done data) }
  | close {i done : Nat} {seed : Seed} (hproc : s.procs[i]? = some (.writing seed done)) :
      Step pub s (.close i) (s.setProc i (.returned (.ok (fromSeed pub seed.val))))
  | fail {i : Nat} {pc : PC} {text : String} (err : String) (hproc : s.procs[i]? = some pc) :
      Step pub s (.fail i err) (s.setProc i (.returned (.error text)))
  | kill {i : Nat} {pc : PC} (hproc : s.procs[i]? = some pc) :
      Step pub s (.kill i) (s.setProc i .killed)

theorem step_sound {pub : GoString → GoString} {s t : Host} {a : Act}
    (hs : step pub s a = some t) : Step pub s a t := by
  unfold step at hs
  split at hs
  next openErr =>
    split at hs
    next err =>
      injection hs with hs
      exact hs ▸ .startFails err
    next =>
      split at hs
      next hfile =>
        injection hs with hs
        exact hs ▸ .startMissing hfile
      next file hfile =>
        injection hs with hs
        exact hs ▸ .startReading hfile
  next i k =>
    split at hs
    next got file hproc hfile =>
      split at hs
      next hend =>
        injection hs with hs
        exact hs ▸ .readEnd k hproc hfile hend
      next hmore =>
        injection hs with hs
        exact hs ▸ .readMore k hproc hfile hmore
    next => cases hs
  next i seed =>
    split at hs
    next hproc =>
      injection hs with hs
      exact hs ▸ .generate seed hproc
    next => cases hs
  next i =>
    split at hs
    next seed hproc =>
      injection hs with hs
      exact hs ▸ .mkdirAll hproc
    next => cases hs
  next i =>
    split at hs
    next seed hproc =>
      injection hs with hs
      exact hs ▸ .openFile hproc
    next => cases hs
  next i k =>
    split at hs
    next seed done file hproc hfile =>
      split at hs
      next => cases hs
      next =>
        injection hs with hs
        exact hs ▸ .write k hproc hfile rfl
    next => cases hs
  next i =>
    split at hs
    next seed done hproc =>
      split at hs
      next =>
        injection hs with hs
        exact hs ▸ .close hproc
      next => cases hs
    next => cases hs
  next i err =>
    split at hs
    next pc hproc =>
      split at hs
      next text _ =>
        injection hs with hs
        exact hs ▸ .fail err hproc
      next => cases hs
    next => cases hs
  next i =>
    split at hs
    next pc hproc =>
      split at hs
      next =>
        injection hs with hs
        exact hs ▸ .kill hproc
      next => cases hs
    next => cases hs

/-! ## §2. One process writes. -/

/-- What a write adds to a file that holds the seed so far. -/
theorem overlay_take (seed : GoString) (done k : Nat) (hdone : done ≤ seed.length) :
    overlay (seed.take done) done ((seed.drop done).take k) = seed.take (done + k) := by
  have hlen : (seed.take done).length = done := by
    rw [List.length_take]
    omega
  have hrest : (seed.take done).drop (done + ((seed.drop done).take k).length) = [] :=
    List.drop_of_length_le (by rw [hlen]; exact Nat.le_add_right _ _)
  unfold overlay
  rw [hrest, hlen, Nat.sub_self, List.replicate_zero, List.append_nil, List.append_nil,
    List.take_of_length_le (Nat.le_of_eq hlen), List.take_add]

/-- What is read next follows what was read. -/
theorem read_prefix {got file : GoString} (h : got <+: file) (k : Nat) :
    got ++ (file.drop got.length).take k <+: file := by
  obtain ⟨rest, rfl⟩ := h
  rw [List.drop_left]
  exact (List.prefix_append_right_inj got).mpr (List.take_prefix _ _)

/-- What a process may hold when `seed` is the one that is written, and `file` is on
the disk. -/
def PC.Of (pub : GoString → GoString) (seed : Seed) (file : GoString) : PC → Prop
  | .reading got => got <+: file
  | .writing seed' done => seed' = seed ∧ done ≤ 32 ∧ file = seed.val.take done
  | .returned (.ok id) => id = fromSeed pub seed.val
  | _ => True

/-- Before anyone has opened the file for writing. -/
def PC.Early : PC → Prop
  | .reading _ => False
  | .writing _ _ => False
  | .returned (.ok _) => False
  | _ => True

def PC.isWriting : PC → Bool
  | .writing _ _ => true
  | _ => false

/-- As long as at most one process has opened the file for writing: there is no file,
or it holds the beginning of that process's seed. -/
structure OneWriter (pub : GoString → GoString) (s : Host) : Prop where
  early : s.opened = [] → s.file = none ∧ ∀ pc ∈ s.procs, pc.Early
  one : ∀ seed, s.opened = [seed] → ∃ file, s.file = some file ∧ file <+: seed.val
    ∧ ∀ pc ∈ s.procs, pc.Of pub seed file
  alone : ∀ seed, s.opened = [seed] → ∀ (i j : Nat) (pc pc' : PC), s.procs[i]? = some pc →
    s.procs[j]? = some pc' → pc.isWriting = true → pc'.isWriting = true → i = j

section OneWriter

variable {pub : GoString → GoString} {s : Host}

theorem oneWriter_new : OneWriter pub Host.new := by
  constructor
  · intro _
    exact ⟨rfl, fun pc hpc => by cases hpc⟩
  · intro seed h
    cases h
  · intro seed h
    cases h

/-- A new process. -/
theorem OneWriter.add (h : OneWriter pub s) {pc : PC} (hearly : s.file = none → pc.Early)
    (hof : ∀ seed file, s.file = some file → pc.Of pub seed file) (hquiet : pc.isWriting = false) :
    OneWriter pub { s with procs := s.procs ++ [pc] } := by
  constructor
  · intro hopened
    obtain ⟨hfile, hall⟩ := h.early hopened
    exact ⟨hfile, forall_mem_concat hall (hearly hfile)⟩
  · intro seed hopened
    obtain ⟨file, hfile, hpre, hall⟩ := h.one seed hopened
    exact ⟨file, hfile, hpre, forall_mem_concat hall (hof seed file hfile)⟩
  · intro seed hopened i j pc₁ pc₂ hi hj hw₁ hw₂
    rcases getElem?_concat_cases hi with ⟨-, rfl⟩ | hi
    · rw [hquiet] at hw₁
      cases hw₁
    · rcases getElem?_concat_cases hj with ⟨-, rfl⟩ | hj
      · rw [hquiet] at hw₂
        cases hw₂
      · exact h.alone seed hopened i j pc₁ pc₂ hi hj hw₁ hw₂

/-- A process that goes on without touching the file. -/
theorem OneWriter.move (h : OneWriter pub s) {i : Nat} {pc pc' : PC}
    (hproc : s.procs[i]? = some pc) (hearly : pc.Early → pc'.Early)
    (hof : ∀ seed file, s.file = some file → file <+: seed.val → pc.Of pub seed file →
      pc'.Of pub seed file)
    (hquiet : pc'.isWriting = false) : OneWriter pub (s.setProc i pc') := by
  have hmem : pc ∈ s.procs := List.mem_of_getElem? hproc
  constructor
  · intro hopened
    obtain ⟨hfile, hall⟩ := h.early hopened
    exact ⟨hfile, forall_mem_set hall (hearly (hall pc hmem))⟩
  · intro seed hopened
    obtain ⟨file, hfile, hpre, hall⟩ := h.one seed hopened
    exact ⟨file, hfile, hpre, forall_mem_set hall (hof seed file hfile hpre (hall pc hmem))⟩
  · intro seed hopened j k pc₁ pc₂ hj hk hw₁ hw₂
    rcases getElem?_set_cases hj with ⟨-, rfl⟩ | ⟨-, hj⟩
    · rw [hquiet] at hw₁
      cases hw₁
    · rcases getElem?_set_cases hk with ⟨-, rfl⟩ | ⟨-, hk⟩
      · rw [hquiet] at hw₂
        cases hw₂
      · exact h.alone seed hopened j k pc₁ pc₂ hj hk hw₁ hw₂

/-- The first process to open the file for writing; with a second one nothing is
claimed. -/
theorem OneWriter.openFile (h : OneWriter pub s) {i : Nat} {seed : Seed}
    (hproc : s.procs[i]? = some (.made seed)) :
    OneWriter pub { s.setProc i (.writing seed 0) with
      file := some [], opened := s.opened ++ [seed] } := by
  have hfirst : ∀ seed', s.opened ++ [seed] = [seed'] → s.opened = [] ∧ seed' = seed := by
    intro seed' heq
    cases hopened : s.opened with
    | nil =>
      rw [hopened] at heq
      injection heq with heq
      exact ⟨rfl, heq.symm⟩
    | cons first rest =>
      rw [hopened] at heq
      simp at heq
  have hof : ∀ pc : PC, pc.Early → pc.Of pub seed [] := by
    intro pc hpc
    cases pc with
    | reading got => cases hpc
    | writing seed' done => cases hpc
    | returned res =>
      cases res with
      | ok id => cases hpc
      | error err => trivial
    | _ => trivial
  have hquiet : ∀ pc : PC, pc.Early → pc.isWriting = false := by
    intro pc hpc
    cases pc with
    | writing seed' done => cases hpc
    | _ => rfl
  constructor
  · intro hopened
    have hne : s.opened ++ [seed] = [] := hopened
    simp at hne
  · intro seed' hopened
    obtain ⟨hnone, rfl⟩ := hfirst seed' hopened
    obtain ⟨-, hall⟩ := h.early hnone
    refine ⟨[], rfl, List.nil_prefix, ?_⟩
    exact forall_mem_set (fun pc hpc => hof pc (hall pc hpc)) ⟨rfl, Nat.zero_le _, rfl⟩
  · intro seed' hopened j k pc₁ pc₂ hj hk hw₁ hw₂
    obtain ⟨hnone, -⟩ := hfirst seed' hopened
    obtain ⟨-, hall⟩ := h.early hnone
    rcases getElem?_set_cases hj with ⟨hji, -⟩ | ⟨-, hj⟩
    · rcases getElem?_set_cases hk with ⟨hki, -⟩ | ⟨-, hk⟩
      · rw [hji, hki]
      · rw [hquiet pc₂ (hall pc₂ (List.mem_of_getElem? hk))] at hw₂
        cases hw₂
    · rw [hquiet pc₁ (hall pc₁ (List.mem_of_getElem? hj))] at hw₁
      cases hw₁

/-- The one that writes goes on. -/
theorem OneWriter.write (h : OneWriter pub s) {i done k : Nat} {seed : Seed} {file data : GoString}
    (hproc : s.procs[i]? = some (.writing seed done)) (hfile : s.file = some file)
    (hdata : data = (seed.val.drop done).take (k + 1)) :
    OneWriter pub { s.setProc i (.writing seed (done + data.length)) with
      file := some (overlay file done data) } := by
  have hmem : PC.writing seed done ∈ s.procs := List.mem_of_getElem? hproc
  constructor
  · intro hopened
    obtain ⟨-, hall⟩ := h.early hopened
    exact absurd (hall _ hmem) (fun hearly => hearly)
  · intro seed' hopened
    obtain ⟨file', hfile', -, hall⟩ := h.one seed' hopened
    rw [hfile] at hfile'
    injection hfile' with hfile'
    subst hfile'
    obtain ⟨rfl, hdone, rfl⟩ := hall _ hmem
    have hle : done ≤ seed.val.length := by
      rw [seed.length_eq]
      exact hdone
    have hlen : data.length = min (k + 1) (32 - done) := by
      rw [hdata, List.length_take, List.length_drop, seed.length_eq]
    have hnew : overlay (seed.val.take done) done data = seed.val.take (done + data.length) := by
      have hpre : data <+: seed.val.drop done := hdata ▸ List.take_prefix _ _
      have hself : (seed.val.drop done).take data.length = data :=
        (List.prefix_iff_eq_take.mp hpre).symm
      rw [← hself, overlay_take seed.val done data.length hle, hself]
    refine ⟨_, rfl, ?_, ?_⟩
    · rw [hnew]
      exact List.take_prefix _ _
    · rw [hnew]
      have hgrows : seed.val.take done <+: seed.val.take (done + data.length) :=
        (List.take_prefix_take_left (Nat.le_add_right _ _))
      intro pc hpc
      obtain ⟨j, hj⟩ := List.getElem?_of_mem hpc
      rcases getElem?_set_cases hj with ⟨-, rfl⟩ | ⟨hne, hold⟩
      · exact ⟨rfl, by omega, rfl⟩
      · have hpcof := hall pc (List.mem_of_getElem? hold)
        cases pc with
        | reading got => exact List.IsPrefix.trans hpcof hgrows
        | writing seed' done' => exact absurd (h.alone _ hopened j i _ _ hold hproc rfl rfl) hne
        | returned res =>
          cases res with
          | ok id => exact hpcof
          | error err => trivial
        | _ => trivial
  · intro seed' hopened j l pc₁ pc₂ hj hl hw₁ hw₂
    have hback : ∀ {n : Nat} {pc : PC},
        (s.procs.set i (.writing seed (done + data.length)))[n]? = some pc →
        pc.isWriting = true → n = i := by
      intro n pc hn hw
      rcases getElem?_set_cases hn with ⟨hni, -⟩ | ⟨-, hold⟩
      · exact hni
      · exact h.alone seed' hopened n i _ _ hold hproc hw rfl
    rw [hback hj hw₁, hback hl hw₂]

/-- What a process makes of a file that holds a part of the seed. -/
theorem load_of_prefix {seed : Seed} {got : GoString} {id : Identity} (hpre : got <+: seed.val)
    (h : load pub got = .ok id) : id = fromSeed pub seed.val := by
  unfold load at h
  split at h
  next => cases h
  next hlen =>
    have hlen' : got.length = seed.val.length := by
      rw [seed.length_eq]
      exact Decidable.not_not.mp hlen
    rw [hpre.eq_of_length hlen'] at h
    injection h with h
    exact h.symm

/-- **Every step**, as long as one process at most has opened the file for writing. -/
theorem step_oneWriter {t : Host} {a : Act} (h : OneWriter pub s) (hs : step pub s a = some t) :
    OneWriter pub t := by
  cases step_sound hs with
  | startFails err => exact h.add (fun _ => trivial) (fun _ _ _ => trivial) rfl
  | startMissing hfile => exact h.add (fun _ => trivial) (fun _ _ _ => trivial) rfl
  | startReading hfile =>
    refine h.add (fun hnone => ?_) (fun _ _ _ => List.nil_prefix) rfl
    rw [hfile] at hnone
    cases hnone
  | @readEnd i got file k hproc hfile _ =>
    refine h.move hproc (fun hearly => by cases hearly) ?_ rfl
    intro seed file' _ hpre hgot
    cases hload : load pub got with
    | error err => trivial
    | ok id => exact load_of_prefix (List.IsPrefix.trans hgot hpre) hload
  | @readMore i got file k hproc hfile _ =>
    refine h.move hproc (fun hearly => by cases hearly) ?_ rfl
    intro seed file' hfile' _ hgot
    rw [hfile] at hfile'
    injection hfile' with hfile'
    subst hfile'
    exact read_prefix hgot (k + 1)
  | generate seed hproc => exact h.move hproc id (fun _ _ _ _ _ => trivial) rfl
  | mkdirAll hproc => exact h.move hproc id (fun _ _ _ _ _ => trivial) rfl
  | openFile hproc => exact h.openFile hproc
  | write k hproc hfile hdata => exact h.write hproc hfile hdata
  | close hproc =>
    refine h.move hproc (fun hearly => by cases hearly) ?_ rfl
    rintro seed' file _ _ ⟨rfl, -, -⟩
    rfl
  | fail err hproc | kill hproc =>
    exact h.move hproc (fun _ => trivial) (fun _ _ _ _ _ => trivial) rfl

end OneWriter

/-! ## §3. Nobody is about to write. -/

/-- The process reads, or is done. -/
def PC.Quiet : PC → Prop
  | .reading _ => True
  | .returned _ => True
  | .killed => True
  | _ => False

/-- The file is there, and nobody is on the way to write it. -/
structure Host.Settled (s : Host) (content : GoString) : Prop where
  file : s.file = some content
  quiet : ∀ pc ∈ s.procs, pc.Quiet

/-- What the processes from the `n`-th on may hold. -/
def Later (pub : GoString → GoString) (content : GoString) : PC → Prop
  | .reading got => got <+: content
  | .returned (.ok id) => content.length = 32 ∧ id = fromSeed pub content
  | _ => True

structure SettledSince (pub : GoString → GoString) (n : Nat) (content : GoString) (s : Host) :
    Prop extends s.Settled content where
  length : n ≤ s.procs.length
  later : ∀ (i : Nat) pc, n ≤ i → s.procs[i]? = some pc → Later pub content pc

section Settled

variable {pub : GoString → GoString} {n : Nat} {content : GoString} {s : Host}

theorem SettledSince.add (h : SettledSince pub n content s) {pc : PC} (hquiet : pc.Quiet)
    (hlater : Later pub content pc) :
    SettledSince pub n content { s with procs := s.procs ++ [pc] } := by
  refine ⟨⟨h.file, forall_mem_concat h.quiet hquiet⟩, ?_, ?_⟩
  · show n ≤ (s.procs ++ [pc]).length
    rw [List.length_append]
    exact Nat.le_add_right_of_le h.length
  · intro i pc' hi hpc
    rcases getElem?_concat_cases hpc with ⟨-, rfl⟩ | hold
    · exact hlater
    · exact h.later i pc' hi hold

theorem SettledSince.move (h : SettledSince pub n content s) {i : Nat} {pc pc' : PC}
    (hproc : s.procs[i]? = some pc) (hquiet : pc'.Quiet)
    (hlater : Later pub content pc → Later pub content pc') :
    SettledSince pub n content (s.setProc i pc') := by
  refine ⟨⟨h.file, forall_mem_set h.quiet hquiet⟩, ?_, ?_⟩
  · show n ≤ (s.procs.set i pc').length
    rw [List.length_set]
    exact h.length
  · intro j pc₁ hj hpc
    rcases getElem?_set_cases hpc with ⟨rfl, rfl⟩ | ⟨-, hold⟩
    · exact hlater (h.later _ pc hj hproc)
    · exact h.later j pc₁ hj hold

/-- What is read to the end of the file is the file. -/
theorem read_whole {got : GoString} (hgot : got <+: content) (hend : content.drop got.length = []) :
    got = content := by
  refine List.IsPrefix.eq_of_length_le hgot ?_
  have hlen := congrArg List.length hend
  rw [List.length_drop, List.length_nil] at hlen
  omega

/-- **Every step**, once nobody is about to write. -/
theorem step_settled {t : Host} {a : Act} (h : SettledSince pub n content s)
    (hs : step pub s a = some t) : SettledSince pub n content t := by
  -- a process that is on the way to write is not quiet
  have hbusy : ∀ {i : Nat} {pc : PC}, s.procs[i]? = some pc → pc.Quiet :=
    fun hproc => h.quiet _ (List.mem_of_getElem? hproc)
  cases step_sound hs with
  | startFails err => exact h.add trivial trivial
  | startMissing hfile =>
    rw [h.file] at hfile
    cases hfile
  | startReading hfile => exact h.add trivial List.nil_prefix
  | @readEnd i got file k hproc hfile hend =>
    refine h.move hproc trivial ?_
    intro hgot
    rw [h.file] at hfile
    injection hfile with hfile
    subst hfile
    obtain rfl := read_whole hgot hend
    unfold load
    split
    next => trivial
    next hlen => exact ⟨Decidable.not_not.mp hlen, rfl⟩
  | @readMore i got file k hproc hfile _ =>
    refine h.move hproc trivial ?_
    intro hgot
    rw [h.file] at hfile
    injection hfile with hfile
    subst hfile
    exact read_prefix hgot (k + 1)
  | generate seed hproc | mkdirAll hproc | openFile hproc | write k hproc hfile hdata
  | close hproc =>
    exact absurd (hbusy hproc) (fun hq => hq)
  | fail err hproc => exact h.move hproc trivial (fun _ => trivial)
  | kill hproc => exact h.move hproc trivial (fun _ => trivial)

/-- Neither a call of the process fails nor is it killed. -/
def Unharmed (i : Nat) : Act → Prop
  | .fail j _ => j ≠ i
  | .kill j => j ≠ i
  | _ => True

/-- The reads of a process. -/
def readsOf (i : Nat) (_ : Host) : Act → Bool
  | .read j _ => decide (j = i)
  | _ => false

/-- The process is reading the file, or has returned what `Load` makes of it. -/
def Loading (pub : GoString → GoString) (i : Nat) (content : GoString) (s : Host) : Prop :=
  (∃ got, s.procs[i]? = some (.reading got) ∧ got <+: content)
    ∨ s.procs[i]? = some (.returned (load pub content))

/-- How many reads the process has ahead at most. -/
def readsLeft (i : Nat) (content : GoString) (s : Host) : Nat :=
  match s.procs[i]? with
  | some (.reading got) => content.length - got.length + 1
  | _ => 0

theorem Loading.so_far {i : Nat} {got : GoString} (h : Loading pub i content s)
    (hproc : s.procs[i]? = some (.reading got)) : got <+: content := by
  rcases h with ⟨got', hproc', hgot⟩ | hproc'
  · rw [hproc] at hproc'
    injection hproc' with hproc'
    injection hproc' with hproc'
    exact hproc' ▸ hgot
  · rw [hproc] at hproc'
    cases hproc'

/-- A step of another process. -/
theorem Loading.of_same {i : Nat} {t : Host} {a : Act} (h : Loading pub i content s)
    (hproc : t.procs[i]? = s.procs[i]?) (ha : readsOf i s a = false) :
    Loading pub i content t
      ∧ (if readsOf i s a then 1 else 0) + readsLeft i content t ≤ readsLeft i content s := by
  unfold Loading readsLeft at *
  rw [hproc, ha]
  exact ⟨h, Nat.le_of_eq (Nat.zero_add _)⟩

/-- **Every step** takes the process nearer to its result, or leaves it where it is. -/
theorem step_loads {i : Nat} {t : Host} {a : Act} (hsettled : s.Settled content)
    (h : Loading pub i content s) (ha : Unharmed i a) (hs : step pub s a = some t) :
    Loading pub i content t
      ∧ (if readsOf i s a then 1 else 0) + readsLeft i content t ≤ readsLeft i content s := by
  have hlt : i < s.procs.length := by
    rcases h with ⟨got, hproc, -⟩ | hproc
    · exact (List.getElem?_eq_some_iff.mp hproc).1
    · exact (List.getElem?_eq_some_iff.mp hproc).1
  have hbusy : ∀ {j : Nat} {pc : PC}, s.procs[j]? = some pc → pc.Quiet :=
    fun hproc => hsettled.quiet _ (List.mem_of_getElem? hproc)
  cases step_sound hs with
  | startFails err | startMissing hfile | startReading hfile =>
    exact h.of_same (List.getElem?_append_left hlt) rfl
  | @readEnd j got file k hproc hfile hend =>
    by_cases hji : j = i
    · subst hji
      rw [hsettled.file] at hfile
      injection hfile with hfile
      subst hfile
      obtain rfl := read_whole (h.so_far hproc) hend
      have hnew : (s.setProc j (.returned (load pub got))).procs[j]?
          = some (.returned (load pub got)) := List.getElem?_set_self hlt
      refine ⟨Or.inr hnew, ?_⟩
      unfold readsLeft readsOf
      rw [hnew, hproc]
      simp
    · exact h.of_same (List.getElem?_set_ne hji) (decide_eq_false hji)
  | @readMore j got file k hproc hfile hmore =>
    by_cases hji : j = i
    · subst hji
      rw [hsettled.file] at hfile
      injection hfile with hfile
      subst hfile
      have hpos : 0 < (content.drop got.length).length := List.length_pos_iff.mpr hmore
      have hnew : (s.setProc j (.reading (got ++ (content.drop got.length).take (k + 1)))).procs[j]?
          = some (.reading (got ++ (content.drop got.length).take (k + 1))) :=
        List.getElem?_set_self hlt
      refine ⟨Or.inl ⟨_, hnew, read_prefix (h.so_far hproc) (k + 1)⟩, ?_⟩
      unfold readsLeft readsOf
      rw [hnew, hproc]
      rw [List.length_drop] at hpos
      simp only [decide_true, if_true, List.length_append, List.length_take, List.length_drop]
      omega
    · exact h.of_same (List.getElem?_set_ne hji) (decide_eq_false hji)
  | generate seed hproc | mkdirAll hproc | openFile hproc | write k hproc hfile hdata
  | close hproc =>
    exact absurd (hbusy hproc) (fun hq => hq)
  | fail err hproc => exact h.of_same (List.getElem?_set_ne ha) rfl
  | kill hproc => exact h.of_same (List.getElem?_set_ne ha) rfl

/-- What becomes of a process that opens a settled file: it has returned what `Load`
makes of the file, or it can read on; and it reads so often at most. -/
structure Loads (pub : GoString → GoString) (i : Nat) (content : GoString) (u : Host)
    (acts : List Act) (t : Host) : Prop where
  next : t.procs[i]? = some (.returned (load pub content))
    ∨ ∀ k, ∃ v, step pub t (.read i k) = some v
  reads : countSteps (step pub) (readsOf i) u acts ≤ content.length + 1

theorem loads_of_run (hsettled : s.Settled content) {t : Host} {acts : List Act}
    (hrun : run (step pub) { s with procs := s.procs ++ [.reading []] } acts = some t)
    (hunharmed : ∀ a ∈ acts, Unharmed s.procs.length a) :
    Loads pub s.procs.length content { s with procs := s.procs ++ [.reading []] } acts t := by
  have hnew : (s.procs ++ [PC.reading []])[s.procs.length]? = some (.reading []) :=
    List.getElem?_concat_length
  have hstart : SettledSince pub s.procs.length content
        { s with procs := s.procs ++ [.reading []] }
      ∧ Loading pub s.procs.length content { s with procs := s.procs ++ [.reading []] } := by
    refine ⟨⟨⟨hsettled.file, forall_mem_concat hsettled.quiet trivial⟩, ?_, ?_⟩, ?_⟩
    · show s.procs.length ≤ (s.procs ++ [PC.reading []]).length
      rw [List.length_append]
      exact Nat.le_add_right _ _
    · intro i pc hi hpc
      rcases getElem?_concat_cases hpc with ⟨-, rfl⟩ | hold
      · exact List.nil_prefix
      · have hlt := (List.getElem?_eq_some_iff.mp hold).1
        omega
    · exact Or.inl ⟨[], hnew, List.nil_prefix⟩
  have hmeet : StepsMeet (step pub) (fun _ a => Unharmed s.procs.length a)
      { s with procs := s.procs ++ [.reading []] } acts := stepsMeet_of_forall _ hunharmed
  obtain ⟨hend, hloading⟩ := run_invariant_within
    (J := fun u => SettledSince pub s.procs.length content u ∧ Loading pub s.procs.length content u)
    (fun _ _ _ h ha hs => ⟨step_settled h.1 hs, (step_loads h.1.toSettled h.2 ha hs).1⟩)
    hmeet hstart hrun
  have hcount := countSteps_add_measure (p := readsOf s.procs.length)
    (J := fun u => SettledSince pub s.procs.length content u ∧ Loading pub s.procs.length content u)
    (μ := readsLeft s.procs.length content)
    (fun _ _ _ h ha hs => ⟨step_settled h.1 hs, (step_loads h.1.toSettled h.2 ha hs).1⟩)
    (fun _ _ _ h ha hs => (step_loads h.1.toSettled h.2 ha hs).2) hmeet hstart hrun
  have hleft : readsLeft s.procs.length content { s with procs := s.procs ++ [.reading []] }
      = content.length + 1 := by
    unfold readsLeft
    rw [hnew]
    rfl
  refine ⟨?_, ?_⟩
  · rcases hloading with ⟨got, hproc, -⟩ | hproc
    · refine Or.inr fun k => ?_
      simp only [step, hproc, hend.file]
      split
      · exact ⟨_, rfl⟩
      · exact ⟨_, rfl⟩
    · exact Or.inl hproc
  · rw [← hleft]
    exact (Nat.le_add_right _ _).trans hcount

end Settled

/-! ## §4. Every run. -/

/-- The process has returned the identity. -/
def Host.Returns (s : Host) (i : Nat) (id : Identity) : Prop :=
  s.procs[i]? = some (.returned (.ok id))

/-- **ONE KEY.**  For any number of processes on one directory, any interleaving of
them and any of them killed or failing anywhere: as long as one process only has
opened the file for writing, all that return an identity return that process's, and
the file is the beginning of its seed; and once there is a file and nobody is on the
way to write it, it stays as it is, and a later process returns its identity or none,
and none at all if the file has not 32 bytes.  It does return the identity of a file
of 32 bytes, after 33 reads at most, unless one of its calls fails or it is killed. -/
theorem identity_kept (pub : GoString → GoString) :
    (∀ acts s seed, run (step pub) Host.new acts = some s → s.opened = [seed] →
      (∃ file, s.file = some file ∧ file <+: seed.val)
        ∧ ∀ i id, s.Returns i id → id = fromSeed pub seed.val)
    ∧ ∀ s content, s.Settled content → ∀ acts t, run (step pub) s acts = some t →
      t.Settled content
        ∧ (∀ i id, s.procs.length ≤ i → t.Returns i id →
          content.length = 32 ∧ id = fromSeed pub content)
        ∧ ∃ u, step pub t (.start none) = some u
          ∧ ∀ acts' v, run (step pub) u acts' = some v →
            (∀ a ∈ acts', Unharmed t.procs.length a) →
            Loads pub t.procs.length content u acts' v
              ∧ (content.length = 32 → load pub content = .ok (fromSeed pub content)) := by
  refine ⟨?_, ?_⟩
  · intro acts s seed hrun hopened
    have hone : OneWriter pub s :=
      run_invariant (fun _ _ _ h hs => step_oneWriter h hs) oneWriter_new hrun
    obtain ⟨file, hfile, hpre, hall⟩ := hone.one seed hopened
    exact ⟨⟨file, hfile, hpre⟩, fun i id hid => hall _ (List.mem_of_getElem? hid)⟩
  · intro s content hsettled acts t hrun
    have hstart : SettledSince pub s.procs.length content s := by
      refine ⟨hsettled, Nat.le_refl _, ?_⟩
      intro i pc hi hpc
      have hlt := (List.getElem?_eq_some_iff.mp hpc).1
      omega
    have hend : SettledSince pub s.procs.length content t :=
      run_invariant (fun _ _ _ h hs => step_settled h hs) hstart hrun
    refine ⟨hend.toSettled, fun i id hi hid => hend.later i _ hi hid,
      { t with procs := t.procs ++ [.reading []] }, ?_, fun acts' v hrun' hunharmed => ?_⟩
    · simp only [step, hend.file]
    · exact ⟨loads_of_run hend.toSettled hrun' hunharmed, fun hlen => if_neg (not_not_intro hlen)⟩

/-- Two processes find no file; the second truncates what the first has written.  Each
returns its own identity, and the file holds the second. -/
example (pub : GoString → GoString) : ∃ s, run (step pub) Host.new
      [.start none, .start none, .generate 0 (Bytes.lit32 1), .generate 1 (Bytes.lit32 2),
        .mkdirAll 0, .mkdirAll 1, .openFile 0, .write 0 31, .openFile 1, .close 0, .write 1 31,
        .close 1] = some s
    ∧ s.Returns 0 (fromSeed pub (Bytes.lit32 1).val)
    ∧ s.Returns 1 (fromSeed pub (Bytes.lit32 2).val) ∧ s.file = some (Bytes.lit32 2).val :=
  ⟨_, rfl, rfl, rfl, rfl⟩

end Kin.KeyFile
