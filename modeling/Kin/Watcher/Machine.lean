/-
  Kin.Watcher.Machine

  **`Watcher.Run` AND ITS TIMERS, STEP BY STEP.**

  The goroutine of `Run` walks the folder, adds the watch and then receives
  events; each timer that fires starts a goroutine of its own, which takes the
  debouncer's mutex once and then calls `indexFile`.  The goroutines and the
  changes of the folder interleave freely; a step is one access to the folder, to
  the catalog, to the index, or one critical section of the debouncer.

    • `CallPC` — the steps of one `indexFile` call (`finish_indexFile`: left
      alone, they are `indexFile`),
    • `MainPC` — the steps of `Run`: `scan`, `fsw.Add`, the event loop with
      `schedule`, `cancel` and `handleRemove`,
    • `Machine.step` — the whole; `Machine.Step`, `MainStep` — what a step can be.

  `ctx.Done` and the errors of `fsnotify` are not modelled.
-/
import Kin.Watcher.Events

namespace Kin.Watcher

open Kin.Lib Kin.Catalog Kin.Transfer

/-! ## §1. `indexFile`, step by step. -/

/-- Where a call of `indexFile` stands; `lock` is the timer callback before it. -/
inductive CallPC where
  | lock
  | stat
  | hash (info : FileInfo)
  | put (info : FileInfo) (fileID : FileID)
  /-- `LocalIndex.Add` hashes the file again. -/
  | addHash
  | insert (fileID : FileID)
  | returned (err : Option GoString)
  deriving DecidableEq

def CallPC.isReturned : CallPC → Bool
  | .returned _ => true
  | _ => false

/-- The next step of a call. -/
def CallPC.next (fs : Folder) (clk : Clock) (path : GoString) (w : Watched) :
    CallPC → Watched × CallPC
  | .lock => (w, .stat)
  | .stat =>
    match fs.stat path with
    | .error err => (w, .returned (some err))
    | .ok info => if !info.regular then (w, .returned none) else (w, .hash info)
  | .hash info =>
    match hashFile fs path with
    | .error err => (w, .returned (some (ascii "hash " ++ path ++ ascii ": " ++ err)))
    | .ok fileID => (w, .put info fileID)
  | .put info fileID =>
    match w.catalog.putLocal clk (newEntry path info fileID) with
    | (catalog, some err) =>
      ({ w with catalog := catalog }, .returned (some (ascii "catalog put: " ++ ascii err)))
    | (catalog, none) => ({ w with catalog := catalog }, .addHash)
  | .addHash =>
    match hashFile fs path with
    | .error err => (w, .returned (some (ascii "index add: " ++ (ascii "index add: " ++ err))))
    | .ok fileID => (w, .insert fileID)
  | .insert fileID => ({ w with index := w.index.insert fileID path }, .returned none)
  | .returned err => (w, .returned err)

/-- Steps of a call with nothing in between. -/
def CallPC.finish (fs : Folder) (clk : Clock) (path : GoString) :
    Nat → Watched × CallPC → Watched × CallPC
  | 0, x => x
  | n + 1, (w, pc) => CallPC.finish fs clk path n (pc.next fs clk path w)

/-- **Left alone, the five steps are `indexFile`.** -/
theorem finish_indexFile (fs : Folder) (clk : Clock) (path : GoString) (w : Watched) :
    CallPC.finish fs clk path 5 (w, .stat)
      = ((indexFile fs clk path w).1, .returned (indexFile fs clk path w).2) := by
  unfold indexFile
  cases hstat : fs.stat path with
  | error err => simp [CallPC.finish, CallPC.next, hstat]
  | ok info =>
    cases hreg : info.regular with
    | false => simp [CallPC.finish, CallPC.next, hstat, hreg]
    | true =>
      cases hhash : hashFile fs path with
      | error err => simp [CallPC.finish, CallPC.next, hstat, hreg, hhash]
      | ok hash =>
        cases hput : w.catalog.putLocal clk (newEntry path info hash) with
        | mk catalog err =>
          cases err with
          | some err => simp [CallPC.finish, CallPC.next, hstat, hreg, hhash, hput]
          | none => simp [CallPC.finish, CallPC.next, hstat, hreg, hhash, hput, add]

/-! ## §2. The goroutines. -/

/-- A timer of `time.AfterFunc`; it can be armed again after it has fired. -/
structure Timer where
  path : GoString
  armed : Bool
  deriving DecidableEq

/-- A goroutine started by a timer. -/
structure Call where
  path : GoString
  pc : CallPC
  deriving DecidableEq

/-- Where `Run` stands. -/
inductive MainPC where
  /-- `WalkDir` is about to read the folder. -/
  | readDir
  | walk (rest : List GoString)
  | walkCall (path : GoString) (pc : CallPC) (rest : List GoString)
  | newWatcher
  | addWatch
  /-- The event loop waits for an event. -/
  | select
  | schedule (path : GoString)
  | cancel (path : GoString)
  | lookup (path : GoString)
  | delete (fileID : FileID)
  | indexRemove (fileID : FileID)
  deriving DecidableEq

/-- `fsw.Add` has returned. -/
def MainPC.watching : MainPC → Bool
  | .readDir => false
  | .walk _ => false
  | .walkCall _ _ _ => false
  | .newWatcher => false
  | .addWatch => false
  | _ => true

/-- `Run` handles a Remove or Rename. -/
def MainPC.removing : MainPC → Bool
  | .cancel _ => true
  | .lookup _ => true
  | .delete _ => true
  | .indexRemove _ => true
  | _ => false

structure Machine where
  fs : Folder
  /-- Events delivered and not yet received. -/
  queue : List Event
  main : MainPC
  /-- Every timer created so far; its number is its place. -/
  timers : List Timer
  /-- The debouncer's map. -/
  byPath : GoMap GoString Nat
  calls : List Call
  watched : Watched
  /-- The paths passed to `indexFile` since they were last created or written. -/
  passed : List GoString

namespace Machine

/-- `Run` is about to start. -/
def start (fs : Folder) (w : Watched) : Machine := ⟨fs, [], .readDir, [], ∅, [], w, []⟩

/-- `Run` is in its event loop, and nothing has happened yet. -/
def watchingFrom (fs : Folder) (w : Watched) : Machine := ⟨fs, [], .select, [], ∅, [], w, []⟩

inductive Act where
  | change (a : FsAct)
  /-- `Run` takes a step. -/
  | main (clk : Clock)
  /-- A timer fires. -/
  | fire (i : Nat)
  /-- The goroutine of a timer takes a step. -/
  | call (i : Nat) (clk : Clock)

/-- `indexFile` has begun. -/
def noteStat (path : GoString) (pc : CallPC) (passed : List GoString) : List GoString :=
  if pc = .stat then path :: passed else passed

def schedule (m : Machine) (path : GoString) : Machine :=
  match m.byPath.lookup path with
  | some i => { m with timers := m.timers.set i ⟨path, true⟩ }
  | none =>
    { m with
      timers := m.timers ++ [⟨path, true⟩]
      byPath := m.byPath.insert path m.timers.length }

def cancel (m : Machine) (path : GoString) : Machine :=
  match m.byPath.lookup path with
  | some i => { m with timers := m.timers.set i ⟨path, false⟩, byPath := m.byPath.erase path }
  | none => m

/-- A step of `Run`. -/
def stepMain (clk : Clock) (m : Machine) : Option Machine :=
  match m.main with
  | .readDir =>
    some { m with
      main := .walk (m.fs.keys.filter (fun path => (m.fs.lookup path).any File.regular)) }
  | .walk [] => some { m with main := .newWatcher }
  | .walk (path :: rest) => some { m with main := .walkCall path .stat rest }
  | .walkCall path pc rest =>
    if pc.isReturned then some { m with main := .walk rest }
    else
      some { m with
        watched := (pc.next m.fs clk path m.watched).1
        main := .walkCall path (pc.next m.fs clk path m.watched).2 rest
        passed := noteStat path pc m.passed }
  | .newWatcher => some { m with main := .addWatch }
  | .addWatch => some { m with main := .select }
  | .select =>
    match m.queue with
    | [] => none
    | ev :: queue =>
      some { m with
        queue := queue
        main := if ev.op.indexes then .schedule ev.name else .cancel ev.name }
  | .schedule path => some { m.schedule path with main := .select }
  | .cancel path => some { m.cancel path with main := .lookup path }
  | .lookup path =>
    match m.watched.catalog.lookupLocalByPath path with
    | none => some { m with main := .select }
    | some entry => some { m with main := .delete entry.fileID }
  | .delete fileID =>
    match m.watched.catalog.deleteLocal clk fileID with
    | (catalog, some _) =>
      some { m with watched := { m.watched with catalog := catalog }, main := .select }
    | (catalog, none) =>
      some { m with
        watched := { m.watched with catalog := catalog }, main := .indexRemove fileID }
  | .indexRemove fileID =>
    some { m with
      watched := { m.watched with index := m.watched.index.erase fileID }, main := .select }

/-- A step of the goroutine of a timer; its critical section takes the path out
of the debouncer's map, whatever timer is there by then. -/
def stepCall (clk : Clock) (m : Machine) (i : Nat) (c : Call) : Option Machine :=
  if c.pc.isReturned then none
  else
    some { m with
      byPath := if c.pc = .lock then m.byPath.erase c.path else m.byPath
      watched := (c.pc.next m.fs clk c.path m.watched).1
      calls := m.calls.set i ⟨c.path, (c.pc.next m.fs clk c.path m.watched).2⟩
      passed := noteStat c.path c.pc m.passed }

def step (m : Machine) : Act → Option Machine
  | .change a =>
    match m.fs.apply a with
    | none => none
    | some (fs, events) =>
      some { m with
        fs := fs
        -- what happens before `fsw.Add` returns is not reported
        queue := if m.main.watching then m.queue ++ events else m.queue
        passed := m.passed.filter
          (fun path => !events.any (fun ev => ev.op.indexes && decide (ev.name = path))) }
  | .main clk => m.stepMain clk
  | .fire i =>
    match m.timers[i]? with
    | none => none
    | some t =>
      if t.armed then
        some { m with
          timers := m.timers.set i { t with armed := false }
          calls := m.calls ++ [⟨t.path, .lock⟩] }
      else none
  | .call i clk =>
    match m.calls[i]? with
    | none => none
    | some c => m.stepCall clk i c

/-! ## §3. Small facts. -/

/-- The file that `create` brings. -/
theorem apply_create {fs fs' : Folder} {path : GoString} {f : File} {events : List Event}
    (h : fs.apply (.create path f) = some (fs', events)) :
    fs.lookup path = none ∧ f.regular = true ∧ fs' = fs.insert path f
      ∧ events = [⟨path, .create⟩] := by
  simp only [Folder.apply] at h
  split at h
  next hc =>
    obtain ⟨hfs, hev⟩ := Prod.mk.inj (Option.some.inj h)
    exact ⟨hc.1, hc.2, hfs.symm, hev.symm⟩
  next => cases h

theorem apply_remove {fs fs' : Folder} {path : GoString} {events : List Event}
    (h : fs.apply (.remove path) = some (fs', events)) :
    fs.lookup path ≠ none ∧ fs' = fs.erase path ∧ events = [⟨path, .remove⟩] := by
  simp only [Folder.apply] at h
  split at h
  next hc =>
    obtain ⟨hfs, hev⟩ := Prod.mk.inj (Option.some.inj h)
    exact ⟨hc, hfs.symm, hev.symm⟩
  next => cases h

/-- `schedule` and `cancel` touch timers and map only. -/
theorem schedule_eq (m : Machine) (path : GoString) :
    m.schedule path
      = { m with timers := (m.schedule path).timers, byPath := (m.schedule path).byPath } := by
  unfold schedule
  split <;> rfl

theorem cancel_eq (m : Machine) (path : GoString) :
    m.cancel path
      = { m with timers := (m.cancel path).timers, byPath := (m.cancel path).byPath } := by
  unfold cancel
  split <;> rfl

/-! ## §4. What a step can be. -/

/-- A step of `Run`, by where it stands. -/
inductive MainStep (clk : Clock) (m : Machine) : Machine → Prop
  | readDir (h : m.main = .readDir) :
      MainStep clk m { m with
        main := .walk (m.fs.keys.filter (fun path => (m.fs.lookup path).any File.regular)) }
  | walked (h : m.main = .walk []) : MainStep clk m { m with main := .newWatcher }
  | next {path : GoString} {rest : List GoString} (h : m.main = .walk (path :: rest)) :
      MainStep clk m { m with main := .walkCall path .stat rest }
  | returned {path : GoString} {pc : CallPC} {rest : List GoString}
      (h : m.main = .walkCall path pc rest) (hret : pc.isReturned = true) :
      MainStep clk m { m with main := .walk rest }
  | index {path : GoString} {pc : CallPC} {rest : List GoString}
      (h : m.main = .walkCall path pc rest) (hret : pc.isReturned = false) :
      MainStep clk m { m with
        watched := (pc.next m.fs clk path m.watched).1
        main := .walkCall path (pc.next m.fs clk path m.watched).2 rest
        passed := noteStat path pc m.passed }
  | newWatcher (h : m.main = .newWatcher) : MainStep clk m { m with main := .addWatch }
  | addWatch (h : m.main = .addWatch) : MainStep clk m { m with main := .select }
  | receive {ev : Event} {queue : List Event} (h : m.main = .select) (hq : m.queue = ev :: queue) :
      MainStep clk m { m with
        queue := queue
        main := if ev.op.indexes then .schedule ev.name else .cancel ev.name }
  | schedule {path : GoString} (h : m.main = .schedule path) :
      MainStep clk m { m.schedule path with main := .select }
  | cancel {path : GoString} (h : m.main = .cancel path) :
      MainStep clk m { m.cancel path with main := .lookup path }
  | absent {path : GoString} (h : m.main = .lookup path)
      (hl : m.watched.catalog.lookupLocalByPath path = none) :
      MainStep clk m { m with main := .select }
  | found {path : GoString} {entry : Entry} (h : m.main = .lookup path)
      (hl : m.watched.catalog.lookupLocalByPath path = some entry) :
      MainStep clk m { m with main := .delete entry.fileID }
  | deleteFailed {fileID : FileID} {catalog : Store} {err : String} (h : m.main = .delete fileID)
      (hd : m.watched.catalog.deleteLocal clk fileID = (catalog, some err)) :
      MainStep clk m { m with watched := { m.watched with catalog := catalog }, main := .select }
  | deleted {fileID : FileID} {catalog : Store} (h : m.main = .delete fileID)
      (hd : m.watched.catalog.deleteLocal clk fileID = (catalog, none)) :
      MainStep clk m { m with
        watched := { m.watched with catalog := catalog }, main := .indexRemove fileID }
  | indexRemove {fileID : FileID} (h : m.main = .indexRemove fileID) :
      MainStep clk m { m with
        watched := { m.watched with index := m.watched.index.erase fileID }, main := .select }

theorem stepMain_sound {m t : Machine} {clk : Clock} (hs : m.stepMain clk = some t) :
    MainStep clk m t := by
  unfold stepMain at hs
  split at hs
  next h =>
    cases hs
    exact .readDir h
  next h =>
    cases hs
    exact .walked h
  next h =>
    cases hs
    exact .next h
  next h =>
    split at hs
    next hret =>
      cases hs
      exact .returned h hret
    next hret =>
      cases hs
      exact .index h (Bool.eq_false_iff.mpr hret)
  next h =>
    cases hs
    exact .newWatcher h
  next h =>
    cases hs
    exact .addWatch h
  next h =>
    split at hs
    next => cases hs
    next hq =>
      cases hs
      exact .receive h hq
  next h =>
    cases hs
    exact .schedule h
  next h =>
    cases hs
    exact .cancel h
  next h =>
    split at hs
    next hl =>
      cases hs
      exact .absent h hl
    next hl =>
      cases hs
      exact .found h hl
  next h =>
    split at hs
    next hd =>
      cases hs
      exact .deleteFailed h hd
    next hd =>
      cases hs
      exact .deleted h hd
  next h =>
    cases hs
    exact .indexRemove h

/-- A step, by who takes it. -/
inductive Step (m : Machine) : Act → Machine → Prop
  | change {a : FsAct} {fs : Folder} {events : List Event} (happly : m.fs.apply a = some (fs, events)) :
      Step m (.change a) { m with
        fs := fs
        queue := if m.main.watching then m.queue ++ events else m.queue
        passed := m.passed.filter
          (fun path => !events.any (fun ev => ev.op.indexes && decide (ev.name = path))) }
  | main {clk : Clock} {t : Machine} (hs : MainStep clk m t) : Step m (.main clk) t
  | fire {i : Nat} {tm : Timer} (htm : m.timers[i]? = some tm) (harmed : tm.armed = true) :
      Step m (.fire i) { m with
        timers := m.timers.set i { tm with armed := false }
        calls := m.calls ++ [⟨tm.path, .lock⟩] }
  | call {i : Nat} {clk : Clock} {c : Call} (hc : m.calls[i]? = some c)
      (hret : c.pc.isReturned = false) :
      Step m (.call i clk) { m with
        byPath := if c.pc = .lock then m.byPath.erase c.path else m.byPath
        watched := (c.pc.next m.fs clk c.path m.watched).1
        calls := m.calls.set i ⟨c.path, (c.pc.next m.fs clk c.path m.watched).2⟩
        passed := noteStat c.path c.pc m.passed }

theorem step_sound {m t : Machine} {a : Act} (hs : m.step a = some t) : Step m a t := by
  cases a with
  | change a =>
    simp only [step] at hs
    split at hs
    next => cases hs
    next happly =>
      cases hs
      exact .change happly
  | main clk => exact .main (stepMain_sound hs)
  | fire i =>
    simp only [step] at hs
    split at hs
    next => cases hs
    next htm =>
      split at hs
      next harmed =>
        cases hs
        exact .fire htm harmed
      next => cases hs
  | call i clk =>
    simp only [step] at hs
    split at hs
    next => cases hs
    next hc =>
      unfold stepCall at hs
      split at hs
      next => cases hs
      next hret =>
        cases hs
        exact .call hc (Bool.eq_false_iff.mpr hret)

/-- `Run` does not change the folder. -/
theorem MainStep.fs {m t : Machine} {clk : Clock} (hs : MainStep clk m t) : t.fs = m.fs := by
  cases hs with
  | schedule h => rw [schedule_eq]
  | cancel h => rw [cancel_eq]
  | _ => rfl

end Machine

end Kin.Watcher
