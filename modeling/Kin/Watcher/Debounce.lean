/-
  Kin.Watcher.Debounce

  **THE DEBOUNCER** (`debouncer.schedule`, `debouncer.cancel`, the timer callback).

  The debouncer's map holds a timer for each path that waits to be indexed.  A
  Create or Write arms the path's timer again or creates one; a Remove or Rename
  stops it.  A callback that has fired cannot be stopped any more: it waits for
  the mutex, takes its path out of the map, whatever timer is there by then, and
  calls `indexFile`.  So an armed timer need not be in the map, and a path whose
  timer has fired may be in it.

  Every event and every call of `indexFile` is logged, so that "after the latest
  event" can be said.

    • `Debouncer.step` — a call of `schedule` or `cancel`, a timer that fires, or
      a step of a callback, in any order,
    • `Good` — what every step keeps: the map's timer for a path is a timer for that
      path, and a path that is due has an armed timer or a callback on its way,
    • `trailing_event_kept` — no trailing Create or Write is lost,
    • `comes_to_rest`, `trailing_event_indexed` — left alone, the debouncer has
      called `indexFile` for it in the end,
    • `Machine.debounces_run` — the watcher's timers and callbacks are these.
-/
import Kin.Lib.Timers
import Kin.Watcher.Startup

namespace Kin.Watcher

open Kin.Lib

/-! ## §1. Events. -/

/-- `fsnotify.Op`: one bit for each operation. -/
abbrev FsOp := UInt32

namespace FsOp

def create : FsOp := 1

def write : FsOp := 2

def remove : FsOp := 4

def rename : FsOp := 8

def has (o h : FsOp) : Bool := (o &&& h) != 0

end FsOp

/-- `fsnotify.Event`. -/
structure FsEvent where
  name : GoString
  op : FsOp
  deriving DecidableEq

/-- The event is a Create or a Write. -/
def FsEvent.indexes (ev : FsEvent) : Bool := ev.op.has .create || ev.op.has .write

/-- The event is a Remove or a Rename. -/
def FsEvent.removes (ev : FsEvent) : Bool := ev.op.has .remove || ev.op.has .rename

/-- The bit of an operation that the watcher reacts to. -/
def EventOp.bit : EventOp → FsOp
  | .create => .create
  | .write => .write
  | .remove => .remove
  | .rename => .rename

theorem FsEvent.indexes_bit (name : GoString) (op : EventOp) :
    FsEvent.indexes ⟨name, op.bit⟩ = op.indexes := by
  show (op.bit.has .create || op.bit.has .write) = op.indexes
  cases op <;> decide

theorem FsEvent.removes_bit (name : GoString) (op : EventOp) :
    FsEvent.removes ⟨name, op.bit⟩ = !op.indexes := by
  show (op.bit.has .remove || op.bit.has .rename) = !op.indexes
  cases op <;> decide

/-! ## §2. The debouncer. -/

/-- Where a callback stands. -/
inductive CallbackPC where
  /-- It has fired and waits for the mutex. -/
  | lock
  /-- It has left its critical section and is about to call `indexFile`. -/
  | index
  /-- It has called `indexFile`. -/
  | called
  deriving DecidableEq

/-- A callback that has fired. -/
structure Callback where
  path : GoString
  pc : CallbackPC
  deriving DecidableEq

def Callback.locks (c : Callback) : Bool := c.pc = .lock

/-- It has not called `indexFile`. -/
def Callback.waits (c : Callback) : Bool := c.pc ≠ .called

/-- An entry of the log. -/
inductive Logged where
  | event (ev : FsEvent)
  /-- A call of `indexFile` begins. -/
  | indexFile (path : GoString)
  deriving DecidableEq

def Logged.path : Logged → GoString
  | .event ev => ev.name
  | .indexFile path => path

structure Debouncer where
  timers : Timers GoString
  /-- The map `d.timers`. -/
  byPath : GoMap GoString Nat
  callbacks : List Callback
  log : List Logged

namespace Debouncer

def newDebouncer : Debouncer := ⟨[], ∅, [], []⟩

def schedule (d : Debouncer) (path : GoString) : Debouncer :=
  match d.byPath.lookup path with
  -- a callback that has fired runs on; the timer is armed for one more
  | some i => { d with timers := (d.timers.stop i).reset i }
  | none =>
    { d with
      timers := d.timers.afterFunc path
      byPath := d.byPath.insert path d.timers.length }

def cancel (d : Debouncer) (path : GoString) : Debouncer :=
  match d.byPath.lookup path with
  | some i => { d with timers := d.timers.stop i, byPath := d.byPath.erase path }
  | none => d

/-- `handleEvent`, as far as the debouncer sees it. -/
def handleEvent (d : Debouncer) (ev : FsEvent) : Debouncer :=
  if ev.indexes then d.schedule ev.name
  else if ev.removes then d.cancel ev.name
  else d

inductive Act where
  | event (ev : FsEvent)
  /-- A timer fires. -/
  | fire (i : Nat)
  /-- A callback takes a step. -/
  | callback (i : Nat)
  deriving DecidableEq

/-- The next step of a callback: its critical section, then the call. -/
def stepCallback (d : Debouncer) (i : Nat) (c : Callback) : Option Debouncer :=
  match c.pc with
  | .lock =>
    -- the entry may be of a newer timer
    some { d with
      byPath := d.byPath.erase c.path
      callbacks := d.callbacks.set i ⟨c.path, .index⟩ }
  | .index =>
    some { d with
      callbacks := d.callbacks.set i ⟨c.path, .called⟩
      log := d.log ++ [.indexFile c.path] }
  | .called => none

def step (d : Debouncer) : Act → Option Debouncer
  | .event ev => some { d.handleEvent ev with log := d.log ++ [.event ev] }
  | .fire i =>
    match d.timers.fire i with
    | none => none
    | some (path, timers) =>
      some { d with timers := timers, callbacks := d.callbacks ++ [⟨path, .lock⟩] }
  | .callback i =>
    match d.callbacks[i]? with
    | none => none
    | some c => d.stepCallback i c

/-- A callback for the path has fired and not yet called `indexFile`. -/
def Waiting (d : Debouncer) (path : GoString) : Prop :=
  ∃ c ∈ d.callbacks, c.path = path ∧ c.pc ≠ .called

/-- `ev` is the latest event about its path, and `since` is what came after it. -/
def LatestEvent (d : Debouncer) (ev : FsEvent) (since : List Logged) : Prop :=
  (∃ before, d.log = before ++ .event ev :: since)
    ∧ ∀ ev', .event ev' ∈ since → ev'.name ≠ ev.name

/-! ## §3. What a step can be. -/

inductive Step (d : Debouncer) : Act → Debouncer → Prop
  | event (ev : FsEvent) :
      Step d (.event ev) { d.handleEvent ev with log := d.log ++ [.event ev] }
  | fire {i : Nat} {path : GoString} {timers : Timers GoString}
      (hfire : d.timers.fire i = some (path, timers)) :
      Step d (.fire i) { d with timers := timers, callbacks := d.callbacks ++ [⟨path, .lock⟩] }
  | locked {i : Nat} {path : GoString} (hc : d.callbacks[i]? = some ⟨path, .lock⟩) :
      Step d (.callback i) { d with
        byPath := d.byPath.erase path
        callbacks := d.callbacks.set i ⟨path, .index⟩ }
  | called {i : Nat} {path : GoString} (hc : d.callbacks[i]? = some ⟨path, .index⟩) :
      Step d (.callback i) { d with
        callbacks := d.callbacks.set i ⟨path, .called⟩
        log := d.log ++ [.indexFile path] }

theorem step_sound {d t : Debouncer} {a : Act} (hs : d.step a = some t) : Step d a t := by
  cases a with
  | event ev =>
    cases hs
    exact .event ev
  | fire i =>
    simp only [step] at hs
    split at hs
    next => cases hs
    next hfire =>
      cases hs
      exact .fire hfire
  | callback i =>
    simp only [step] at hs
    split at hs
    next => cases hs
    next c hc =>
      obtain ⟨path, pc⟩ := c
      cases pc with
      | lock =>
        cases hs
        exact .locked hc
      | index =>
        cases hs
        exact .called hc
      | called => cases hs

theorem handleEvent_of_indexes (d : Debouncer) {ev : FsEvent} (h : ev.indexes = true) :
    d.handleEvent ev = d.schedule ev.name :=
  if_pos h

theorem handleEvent_of_removes (d : Debouncer) {ev : FsEvent} (hi : ev.indexes = false)
    (hr : ev.removes = true) : d.handleEvent ev = d.cancel ev.name := by
  unfold handleEvent
  rw [hi, if_neg Bool.false_ne_true, if_pos hr]

theorem handleEvent_of_neither (d : Debouncer) {ev : FsEvent}
    (h : (ev.indexes || ev.removes) = false) : d.handleEvent ev = d := by
  obtain ⟨hi, hr⟩ := (Bool.or_eq_false_iff).mp h
  unfold handleEvent
  rw [hi, hr, if_neg Bool.false_ne_true, if_neg Bool.false_ne_true]

/-- `schedule`, `cancel` and so `handleEvent` touch timers and map only. -/
theorem handleEvent_eq (d : Debouncer) (ev : FsEvent) :
    d.handleEvent ev
      = { d with timers := (d.handleEvent ev).timers, byPath := (d.handleEvent ev).byPath } := by
  unfold handleEvent schedule cancel
  split
  · split <;> rfl
  · split
    · split <;> rfl
    · rfl

/-! ## §4. The map. -/

/-- The map's timer for a path is a timer for that path. -/
def Mapped (d : Debouncer) : Prop := ∀ p i, d.byPath.lookup p = some i → d.timers.Runs i p

theorem Mapped.schedule {d : Debouncer} (h : d.Mapped) (path : GoString) :
    (d.schedule path).Mapped := by
  unfold Debouncer.schedule
  cases hl : d.byPath.lookup path with
  | some i => exact fun p j hj => ((h p j hj).stop i).reset i
  | none =>
    intro p j hj
    simp only [GoMap.lookup_insert] at hj
    split at hj
    next hp =>
      rw [← Option.some.inj hj, hp]
      exact Timers.runs_afterFunc _ _
    next => exact (h p j hj).afterFunc path

theorem Mapped.erase {d : Debouncer} (h : d.Mapped) (path : GoString) :
    Mapped { d with byPath := d.byPath.erase path } := by
  intro p i hi
  simp only [GoMap.lookup_erase] at hi
  split at hi
  · cases hi
  · exact h p i hi

theorem Mapped.cancel {d : Debouncer} (h : d.Mapped) (path : GoString) :
    (d.cancel path).Mapped := by
  unfold Debouncer.cancel
  cases hl : d.byPath.lookup path with
  | some i => exact fun p j hj => (h.erase path p j hj).stop i
  | none => exact h

theorem Mapped.handleEvent {d : Debouncer} (h : d.Mapped) (ev : FsEvent) :
    (d.handleEvent ev).Mapped := by
  unfold Debouncer.handleEvent
  split
  · exact h.schedule ev.name
  · split
    · exact h.cancel ev.name
    · exact h

theorem Mapped.step {d t : Debouncer} {a : Act} (h : d.Mapped) (hs : Step d a t) : t.Mapped := by
  cases hs with
  | event ev => exact h.handleEvent ev
  | fire hfire => exact fun p i hi => (h p i hi).fire hfire
  | locked hc => exact h.erase _
  | called hc => exact h

/-! ## §5. Whose timer is armed. -/

/-- `schedule` arms a timer for the path. -/
theorem armed_schedule {d : Debouncer} (h : d.Mapped) {path p : GoString} :
    (d.schedule path).timers.Armed p ↔ d.timers.Armed p ∨ path = p := by
  unfold schedule
  cases hl : d.byPath.lookup path with
  | some i =>
    show ((d.timers.stop i).reset i).Armed p ↔ _
    rw [Timers.reset_stop]
    exact Timers.armed_reset (h path i hl)
  | none => exact Timers.armed_afterFunc

/-- `cancel` disarms no timer for another path. -/
theorem armed_cancel_of_ne {d : Debouncer} (h : d.Mapped) {path p : GoString} (hne : path ≠ p)
    (ha : d.timers.Armed p) : (d.cancel path).timers.Armed p := by
  unfold cancel
  cases hl : d.byPath.lookup path with
  | some i => exact Timers.armed_stop_of_ne (h path i hl) hne ha
  | none => exact ha

theorem armed_handleEvent {d : Debouncer} (h : d.Mapped) {ev : FsEvent} {p : GoString}
    (hp : (ev.indexes = true ∧ ev.name = p) ∨ (ev.name ≠ p ∧ d.timers.Armed p)) :
    (d.handleEvent ev).timers.Armed p := by
  unfold handleEvent
  split
  next =>
    rw [armed_schedule h]
    rcases hp with ⟨_, hp⟩ | ⟨_, ha⟩
    · exact Or.inr hp
    · exact Or.inl ha
  next hidx =>
    rcases hp with ⟨hidx', _⟩ | ⟨hne, ha⟩
    · exact absurd hidx' hidx
    · split
      · exact armed_cancel_of_ne h hne ha
      · exact ha

/-! ## §6. A path that is due stays on its way. -/

/-- The latest event about the path was a Create or Write, and no `indexFile` has
begun since. -/
def Due (d : Debouncer) (p : GoString) : Prop :=
  Since (fun o => o.path ≠ p) (fun o => ∃ ev, o = .event ev ∧ ev.indexes = true ∧ ev.name = p) d.log

/-- `indexFile` will be called for the path. -/
def Pending (d : Debouncer) (p : GoString) : Prop := d.timers.Armed p ∨ d.Waiting p

/-- What every step keeps. -/
structure Good (d : Debouncer) : Prop where
  mapped : d.Mapped
  kept : ∀ p, d.Due p → d.Pending p

theorem good_newDebouncer : newDebouncer.Good :=
  ⟨fun p i h => (by cases h), fun p h => absurd h (not_since_nil _ _)⟩

/-- An event: a path that is due afterwards was due before, or the event asks for it. -/
theorem due_event {d t : Debouncer} {ev : FsEvent} {p : GoString}
    (hlog : t.log = d.log ++ [.event ev]) (h : t.Due p) :
    (ev.indexes = true ∧ ev.name = p) ∨ (ev.name ≠ p ∧ d.Due p) := by
  unfold Due at h
  rw [hlog, since_concat] at h
  rcases h with ⟨ev', heq, hidx, hp⟩ | h
  · rw [← Logged.event.inj heq] at hidx hp
    exact Or.inl ⟨hidx, hp⟩
  · exact Or.inr h

/-- A call of `indexFile`: its path is not due afterwards. -/
theorem due_indexFile {d t : Debouncer} {path p : GoString}
    (hlog : t.log = d.log ++ [.indexFile path]) (h : t.Due p) : path ≠ p ∧ d.Due p := by
  unfold Due at h
  rw [hlog, since_concat] at h
  rcases h with ⟨ev, heq, _⟩ | h
  · cases heq
  · exact h

/-- A callback's step: the others wait as before. -/
theorem waiting_set {d : Debouncer} {i : Nat} {path p : GoString} {pc pc' : CallbackPC}
    (hc : d.callbacks[i]? = some ⟨path, pc⟩) (hpc : pc' ≠ .called ∨ path ≠ p) (h : d.Waiting p) :
    ∃ c ∈ d.callbacks.set i ⟨path, pc'⟩, c.path = p ∧ c.pc ≠ .called := by
  have hex := exists_mem_set_or (y := (⟨path, pc'⟩ : Callback)) hc
    (fun c => c.path = p ∧ c.pc ≠ .called)
  rcases hex.mpr (Or.inl h) with hset | ⟨hpath, _⟩
  · exact hset
  · -- the callback that took the step is one for this path
    have hpc : pc' ≠ .called := hpc.resolve_right (fun hne => hne hpath)
    exact ⟨⟨path, pc'⟩, List.mem_of_getElem? (getElem?_set_of_getElem? hc), hpath, hpc⟩

/-- **One step**: what is due afterwards has an armed timer or a waiting callback. -/
theorem kept_step {d t : Debouncer} {a : Act} (hd : d.Good) (hs : Step d a t) {p : GoString}
    (hdue : t.Due p) : t.Pending p := by
  cases hs with
  | event ev =>
    rcases due_event rfl hdue with hev | ⟨hne, hdue⟩
    · exact Or.inl (armed_handleEvent hd.mapped (Or.inl hev))
    · rcases hd.kept p hdue with harmed | hwait
      · exact Or.inl (armed_handleEvent hd.mapped (Or.inr ⟨hne, harmed⟩))
      · refine Or.inr ?_
        rw [handleEvent_eq]
        exact hwait
  | fire hfire =>
    -- if the path's timer is the one that fires, its callback waits from now on
    rcases hd.kept p hdue with harmed | ⟨c, hc, hwait⟩
    · rcases Timers.armed_of_fire hfire harmed with harmed | hpath
      · exact Or.inl harmed
      · exact Or.inr ⟨_, List.mem_append_right _ List.mem_cons_self, hpath, by simp⟩
    · exact Or.inr ⟨c, List.mem_append_left _ hc, hwait⟩
  | locked hc =>
    rcases hd.kept p hdue with harmed | hwait
    · exact Or.inl harmed
    · exact Or.inr (waiting_set hc (Or.inl (by decide)) hwait)
  | called hc =>
    obtain ⟨hne, hdue⟩ := due_indexFile rfl hdue
    rcases hd.kept p hdue with harmed | hwait
    · exact Or.inl harmed
    · exact Or.inr (waiting_set hc (Or.inr hne) hwait)

theorem Good.step {d t : Debouncer} {a : Act} (hd : d.Good) (hs : d.step a = some t) : t.Good :=
  ⟨hd.mapped.step (step_sound hs), fun _ hdue => kept_step hd (step_sound hs) hdue⟩

theorem good_run {acts : List Act} {d : Debouncer} (h : run step newDebouncer acts = some d) :
    d.Good :=
  run_invariant (fun _ _ _ hd hs => hd.step hs) good_newDebouncer h

/-- After the latest event about a path, if it was a Create or Write: the path is
on its way, or has been passed to `indexFile`. -/
theorem Good.latest {d : Debouncer} (hd : d.Good) {ev : FsEvent} {since : List Logged}
    (hlatest : d.LatestEvent ev since) (hidx : ev.indexes = true) :
    d.Pending ev.name ∨ .indexFile ev.name ∈ since := by
  by_cases hcall : .indexFile ev.name ∈ since
  · exact Or.inr hcall
  · obtain ⟨⟨before, hlog⟩, hlater⟩ := hlatest
    refine Or.inl (hd.kept _ ⟨before, _, since, hlog, ⟨ev, rfl, hidx, rfl⟩, ?_⟩)
    intro o ho hpath
    cases o with
    | event ev' => exact hlater ev' ho hpath
    | indexFile path => exact hcall (hpath ▸ ho)

/-- **No trailing event is dropped**: in every reachable state, if the latest event
about a path was a Create or Write, a timer for the path is armed, or a callback
for it has fired and not yet called `indexFile`, or a call of `indexFile` for it
began after that event. -/
theorem trailing_event_kept {acts : List Act} {d : Debouncer}
    (hrun : run step newDebouncer acts = some d) {ev : FsEvent} {since : List Logged}
    (hlatest : d.LatestEvent ev since) (hop : ev.op.has .create = true ∨ ev.op.has .write = true) :
    d.timers.Armed ev.name ∨ d.Waiting ev.name ∨ .indexFile ev.name ∈ since := by
  have hidx : ev.indexes = true := (Bool.or_eq_true _ _).mpr hop
  rcases (good_run hrun).latest hlatest hidx with (harmed | hwait) | hcall
  · exact Or.inl harmed
  · exact Or.inr (Or.inl hwait)
  · exact Or.inr (Or.inr hcall)

/-- An event about `a.txt`. -/
def aEvent (op : FsOp) : FsEvent := ⟨ascii "/Kin/a.txt", op⟩

/-- A Write arms the timer again while its callback waits, and the callback takes
it out of the map; the Remove does not find it.  It fires after the next Create
and takes that one's timer out of the map. -/
def orphanRun : List Act :=
  [.event (aEvent .create), .fire 0, .event (aEvent .write), .callback 0, .event (aEvent .remove),
    .event (aEvent .create), .fire 0, .callback 1]

/-- The path is not in the map, and still not forgotten. -/
theorem trailing_event_kept_orphaned :
    ∃ d ∈ run step newDebouncer orphanRun,
      d.byPath.lookup (ascii "/Kin/a.txt") = none ∧ d.LatestEvent (aEvent .create) []
        ∧ (d.timers.Armed (ascii "/Kin/a.txt") ∨ d.Waiting (ascii "/Kin/a.txt")
          ∨ .indexFile (ascii "/Kin/a.txt") ∈ ([] : List Logged)) := by
  have hend : ∃ d ∈ run step newDebouncer orphanRun,
      d.byPath.lookup (ascii "/Kin/a.txt") = none
        ∧ d.log = [.event (aEvent .create), .event (aEvent .write), .event (aEvent .remove)]
          ++ [.event (aEvent .create)] := by decide +kernel
  obtain ⟨d, hd, hmap, hlog⟩ := hend
  have hlatest : d.LatestEvent (aEvent .create) [] :=
    ⟨⟨_, hlog⟩, fun _ h => absurd h List.not_mem_nil⟩
  exact ⟨d, hd, hmap, hlatest, trailing_event_kept hd hlatest (Or.inl (by decide))⟩

/-! ## §7. Left alone, the debouncer comes to rest. -/

/-- Not an event. -/
def Act.quiet : Act → Bool
  | .event _ => false
  | _ => true

/-- The steps that timers and callbacks have yet to take: two for a callback, and
one more for a timer that has yet to fire. -/
def remaining (d : Debouncer) : Nat :=
  3 * d.timers.countP FuncTimer.armed + d.callbacks.countP Callback.locks
    + d.callbacks.countP Callback.waits

theorem remaining_step {d t : Debouncer} {a : Act} (hq : a.quiet = true) (hs : Step d a t) :
    t.remaining + 1 = d.remaining := by
  unfold remaining
  cases hs with
  | event ev => cases hq
  | @fire i path timers hfire =>
    have htimers := Timers.countP_armed_fire hfire
    have hnew : Callback.locks ⟨path, .lock⟩ = true ∧ Callback.waits ⟨path, .lock⟩ = true :=
      ⟨rfl, rfl⟩
    simp only [List.countP_append, List.countP_singleton, hnew, if_true]
    omega
  | @locked i path hc =>
    have hlocks : (d.callbacks.set i ⟨path, .index⟩).countP Callback.locks + 1
        = d.callbacks.countP Callback.locks := countP_set_add hc ⟨path, .index⟩ Callback.locks
    have hwaits := countP_set_add hc ⟨path, .index⟩ Callback.waits
    change _ + 1 = _ + 1 at hwaits
    dsimp only
    omega
  | @called i path hc =>
    have hlocks : (d.callbacks.set i ⟨path, .called⟩).countP Callback.locks
        = d.callbacks.countP Callback.locks := countP_set_add hc ⟨path, .called⟩ Callback.locks
    have hwaits : (d.callbacks.set i ⟨path, .called⟩).countP Callback.waits + 1
        = d.callbacks.countP Callback.waits := countP_set_add hc ⟨path, .called⟩ Callback.waits
    dsimp only
    omega

/-- While no event comes, every step counts. -/
theorem length_quiet_run {acts : List Act} :
    ∀ {d t : Debouncer}, (∀ a ∈ acts, a.quiet = true) → run step d acts = some t →
      acts.length + t.remaining = d.remaining := by
  induction acts with
  | nil =>
    intro d t _ h
    injection h with h
    rw [h, List.length_nil, Nat.zero_add]
  | cons a acts ih =>
    intro d t hq h
    obtain ⟨u, hu, h⟩ := run_cons_eq_some.mp h
    have hstep := remaining_step (hq a List.mem_cons_self) (step_sound hu)
    have hrest := ih (fun b hb => hq b (List.mem_cons_of_mem _ hb)) h
    rw [List.length_cons]
    omega

/-- As long as something remains, a timer or a callback can take a step. -/
theorem exists_quiet_step {d : Debouncer} (h : d.remaining ≠ 0) :
    ∃ a t, a.quiet = true ∧ d.step a = some t := by
  by_cases harmed : d.timers.countP FuncTimer.armed = 0
  · have hwaits : 0 < d.callbacks.countP Callback.waits := by
      have hle : d.callbacks.countP Callback.locks ≤ d.callbacks.countP Callback.waits :=
        List.countP_mono_left (fun c _ hc => by
          have hpc : c.pc = .lock := of_decide_eq_true hc
          exact decide_eq_true (by rw [hpc]; decide))
      unfold remaining at h
      omega
    obtain ⟨c, hc, hw⟩ := List.countP_pos_iff.mp hwaits
    obtain ⟨i, hi⟩ := List.mem_iff_getElem?.mp hc
    refine ⟨.callback i, ?_⟩
    simp only [step, hi, stepCallback]
    split
    next => exact ⟨_, rfl, rfl⟩
    next => exact ⟨_, rfl, rfl⟩
    next hpc => exact absurd hpc (of_decide_eq_true hw)
  · obtain ⟨i, path, timers, hfire⟩ := Timers.exists_fire harmed
    refine ⟨.fire i, ?_⟩
    simp only [step, hfire]
    exact ⟨_, rfl, rfl⟩

/-- Timers and callbacks can take all their steps. -/
theorem comes_to_rest (d : Debouncer) :
    ∃ acts t, (∀ a ∈ acts, a.quiet = true) ∧ acts.length = d.remaining
      ∧ run step d acts = some t := by
  induction hn : d.remaining generalizing d with
  | zero => exact ⟨[], d, fun a ha => absurd ha List.not_mem_nil, rfl, rfl⟩
  | succ n ih =>
    obtain ⟨a, u, hq, hu⟩ := exists_quiet_step (d := d) (by omega)
    have hstep := remaining_step hq (step_sound hu)
    obtain ⟨acts, t, hqs, hlen, hrun⟩ := ih u (by omega)
    refine ⟨a :: acts, t, fun b hb => ?_, ?_, run_cons_eq_some.mpr ⟨u, hu, hrun⟩⟩
    · rcases List.mem_cons.mp hb with hb | hb
      · exact hb ▸ hq
      · exact hqs b hb
    · rw [List.length_cons, hlen]

theorem not_pending_of_rest {d : Debouncer} (h : d.remaining = 0) (p : GoString) :
    ¬ d.Pending p := by
  unfold remaining at h
  have harmed : d.timers.countP FuncTimer.armed = 0 := by omega
  have hwaits : d.callbacks.countP Callback.waits = 0 := by omega
  intro hp
  rcases hp with hp | ⟨c, hc, _, hpc⟩
  · exact Timers.not_armed_of_countP harmed p hp
  · exact List.countP_eq_zero.mp hwaits c hc (decide_eq_true hpc)

/-- While no event comes, only calls of `indexFile` are logged. -/
theorem log_quiet_run {acts : List Act} {d t : Debouncer} (hq : ∀ a ∈ acts, a.quiet = true)
    (hrun : run step d acts = some t) :
    ∃ more, t.log = d.log ++ more ∧ ∀ ev, .event ev ∉ more := by
  refine run_invariant_of (P := fun t => ∃ more, t.log = d.log ++ more ∧ ∀ ev, .event ev ∉ more)
    (C := fun a => a.quiet = true) ?_ ⟨[], by simp, by simp⟩ hq hrun
  intro u a v hu hqa hs
  obtain ⟨more, hlog, hmore⟩ := hu
  cases step_sound hs with
  | event ev => cases hqa
  | fire hfire => exact ⟨more, hlog, hmore⟩
  | locked hc => exact ⟨more, hlog, hmore⟩
  | @called i path hc =>
    refine ⟨more ++ [.indexFile path], by rw [hlog, List.append_assoc], fun ev hev => ?_⟩
    rcases List.mem_append.mp hev with hev | hev
    · exact hmore ev hev
    · cases List.mem_singleton.mp hev

/-- **Left alone, the debouncer comes to it**: after a trailing Create or Write,
once timers and callbacks have taken the steps that remained, in whatever order,
`indexFile` has been called for the path since that event. -/
theorem trailing_event_indexed {d t : Debouncer} (hd : d.Good) {ev : FsEvent}
    {since : List Logged} (hlatest : d.LatestEvent ev since) (hidx : ev.indexes = true)
    {acts : List Act} (hq : ∀ a ∈ acts, a.quiet = true) (hlen : acts.length = d.remaining)
    (hrun : run step d acts = some t) :
    ∃ more, t.LatestEvent ev (since ++ more) ∧ .indexFile ev.name ∈ since ++ more := by
  obtain ⟨more, hlog, hmore⟩ := log_quiet_run hq hrun
  obtain ⟨⟨before, hbefore⟩, hlater⟩ := hlatest
  have hlatest : t.LatestEvent ev (since ++ more) := by
    refine ⟨⟨before, by rw [hlog, hbefore, List.append_assoc, List.cons_append]⟩, ?_⟩
    intro ev' hev'
    rcases List.mem_append.mp hev' with hev' | hev'
    · exact hlater ev' hev'
    · exact absurd hev' (hmore ev')
  have ht : t.Good := run_invariant (fun _ _ _ hd hs => hd.step hs) hd hrun
  have hrest : t.remaining = 0 := by
    have hcount := length_quiet_run hq hrun
    omega
  exact ⟨more, hlatest, (ht.latest hlatest hidx).resolve_left (not_pending_of_rest hrest _)⟩

end Debouncer

/-! ## §8. The watcher's debouncer. -/

def Timer.func (t : Timer) : FuncTimer GoString := ⟨t.path, t.armed⟩

/-- How far the goroutine of a timer is, seen from the debouncer. -/
def CallPC.callback : CallPC → CallbackPC
  | .lock => .lock
  | .stat => .index
  | _ => .called

def Call.callback (c : Call) : Callback := ⟨c.path, c.pc.callback⟩

theorem CallPC.callback_of_not_early {pc : CallPC} (h : ¬ pc.early) : pc.callback = .called := by
  cases pc with
  | lock => exact absurd (Or.inl rfl) h
  | stat => exact absurd (Or.inr rfl) h
  | _ => rfl

namespace Machine

/-- Timers, map and goroutines of the watcher are those of the debouncer. -/
structure Debounces (m : Machine) (d : Debouncer) : Prop where
  timers : d.timers = m.timers.map Timer.func
  byPath : d.byPath = m.byPath
  callbacks : d.callbacks = m.calls.map Call.callback
  mapped : d.Mapped

variable {m t : Machine} {d : Debouncer}

theorem Debounces.schedule (h : m.Debounces d) (path : GoString) :
    (m.schedule path).Debounces (d.schedule path) := by
  have hmapped := h.mapped.schedule path
  unfold Machine.schedule
  unfold Debouncer.schedule at hmapped ⊢
  rw [h.byPath] at hmapped ⊢
  cases hl : m.byPath.lookup path with
  | some i =>
    rw [hl] at hmapped
    refine ⟨?_, rfl, h.callbacks, hmapped⟩
    have hruns := h.mapped path i (by rw [h.byPath]; exact hl)
    show (d.timers.stop i).reset i = _
    rw [Timers.reset_stop, Timers.reset_eq_set hruns, h.timers, List.map_set]
    rfl
  | none =>
    rw [hl] at hmapped
    refine ⟨?_, ?_, h.callbacks, hmapped⟩
    · show d.timers.afterFunc path = _
      rw [h.timers, List.map_append]
      rfl
    · show m.byPath.insert path d.timers.length = _
      rw [h.timers, List.length_map]

theorem Debounces.cancel (h : m.Debounces d) (path : GoString) :
    (m.cancel path).Debounces (d.cancel path) := by
  have hmapped := h.mapped.cancel path
  unfold Machine.cancel
  unfold Debouncer.cancel at hmapped ⊢
  rw [h.byPath] at hmapped ⊢
  cases hl : m.byPath.lookup path with
  | some i =>
    rw [hl] at hmapped
    refine ⟨?_, rfl, h.callbacks, hmapped⟩
    have hruns := h.mapped path i (by rw [h.byPath]; exact hl)
    show d.timers.stop i = _
    rw [Timers.stop_eq_set hruns, h.timers, List.map_set]
    rfl
  | none => exact h

/-- A step of `Run`: a call of `schedule` or `cancel`, or nothing to the debouncer. -/
theorem Debounces.main (h : m.Debounces d) {clk : Clock} (hs : MainStep clk m t) :
    ∃ acts d', run Debouncer.step d acts = some d' ∧ t.Debounces d' := by
  have hidle : ∀ {t : Machine}, t.timers = m.timers → t.byPath = m.byPath → t.calls = m.calls →
      ∃ acts d', run Debouncer.step d acts = some d' ∧ t.Debounces d' := by
    intro t htimers hmap hcalls
    refine ⟨[], d, rfl, ?_, ?_, ?_, h.mapped⟩
    · rw [htimers, h.timers]
    · rw [hmap, h.byPath]
    · rw [hcalls, h.callbacks]
  cases hs with
  | @schedule path _ =>
    obtain ⟨htimers, hmap, hcallbacks, hmapped⟩ := h.schedule path
    have hev := d.handleEvent_of_indexes (FsEvent.indexes_bit path .create)
    rw [← hev] at htimers hmap hcallbacks hmapped
    exact ⟨[.event ⟨path, EventOp.create.bit⟩], _, rfl, htimers, hmap, hcallbacks, hmapped⟩
  | @cancel path _ =>
    obtain ⟨htimers, hmap, hcallbacks, hmapped⟩ := h.cancel path
    have hev := d.handleEvent_of_removes (FsEvent.indexes_bit path .remove)
      (FsEvent.removes_bit path .remove)
    rw [← hev] at htimers hmap hcallbacks hmapped
    exact ⟨[.event ⟨path, EventOp.remove.bit⟩], _, rfl, htimers, hmap, hcallbacks, hmapped⟩
  | _ => exact hidle rfl rfl rfl

/-- A step of a timer's goroutine: one of the callback, or one inside `indexFile`. -/
theorem Debounces.call (h : m.Debounces d) {i : Nat} {clk : Clock} {c : Call}
    (hc : m.calls[i]? = some c) (hret : c.pc.isReturned = false) :
    ∃ acts d', run Debouncer.step d acts = some d' ∧ Debounces { m with
        byPath := if c.pc = .lock then m.byPath.erase c.path else m.byPath
        watched := (c.pc.next m.fs clk c.path m.watched).1
        calls := m.calls.set i ⟨c.path, (c.pc.next m.fs clk c.path m.watched).2⟩
        passed := noteStat c.path c.pc m.passed } d' := by
  have hcallback : d.callbacks[i]? = some c.callback := by
    rw [h.callbacks, List.getElem?_map, hc]
    rfl
  by_cases hlock : c.pc = .lock
  · refine ⟨[.callback i], { d with
        byPath := d.byPath.erase c.path
        callbacks := d.callbacks.set i ⟨c.path, .index⟩ }, ?_, h.timers, ?_, ?_, h.mapped.erase _⟩
    · unfold Call.callback at hcallback
      rw [hlock] at hcallback
      simp [run, Debouncer.step, hcallback, Debouncer.stepCallback, CallPC.callback]
    · simp only [hlock, if_true, h.byPath]
    · simp only [hlock, CallPC.next, List.map_set, h.callbacks]
      rfl
  · have hnext := CallPC.callback_of_not_early
      (CallPC.next_not_early hlock hret m.fs clk c.path m.watched)
    by_cases hstat : c.pc = .stat
    · refine ⟨[.callback i], { d with
          callbacks := d.callbacks.set i ⟨c.path, .called⟩
          log := d.log ++ [.indexFile c.path] }, ?_, h.timers, ?_, ?_, h.mapped⟩
      · unfold Call.callback at hcallback
        rw [hstat] at hcallback
        simp [run, Debouncer.step, hcallback, Debouncer.stepCallback, CallPC.callback]
      · simp only [hlock, if_false, h.byPath]
      · simp only [List.map_set, h.callbacks, Call.callback, hnext]
    · -- inside `indexFile` the debouncer sees no difference
      have hpc : c.pc.callback = .called :=
        CallPC.callback_of_not_early (fun h => h.elim hlock hstat)
      refine ⟨[], d, rfl, h.timers, ?_, ?_, h.mapped⟩
      · simp only [hlock, if_false, h.byPath]
      · rw [Call.callback, hpc, h.callbacks] at hcallback
        simp only [List.map_set, h.callbacks, Call.callback, hnext]
        exact (set_of_getElem? hcallback).symm

theorem Debounces.step (h : m.Debounces d) {a : Act} (hs : Step m a t) :
    ∃ acts d', run Debouncer.step d acts = some d' ∧ t.Debounces d' := by
  cases hs with
  | change happly => exact ⟨[], d, rfl, h.timers, h.byPath, h.callbacks, h.mapped⟩
  | main hs => exact h.main hs
  | @fire i tm htm harmed =>
    have htimer : d.timers[i]? = some ⟨tm.path, true⟩ := by
      rw [h.timers, List.getElem?_map, htm, ← harmed]
      rfl
    have hfire : d.timers.fire i = some (tm.path, d.timers.stop i) :=
      Timers.fire_eq_some.mpr ⟨htimer, rfl⟩
    refine ⟨[.fire i], { d with
        timers := d.timers.stop i
        callbacks := d.callbacks ++ [⟨tm.path, .lock⟩] }, ?_, ?_, h.byPath, ?_,
      fun p j hj => (h.mapped p j hj).stop i⟩
    · simp [run, Debouncer.step, hfire]
    · rw [Timers.stop_eq_set ⟨true, htimer⟩, h.timers, List.map_set]
      rfl
    · rw [h.callbacks, List.map_append]
      rfl
  | call hc hret => exact h.call hc hret

/-- **The watcher's timers and callbacks are the debouncer's**: whatever `Run`, the
timers and the folder do, the debouncer has a run that ends with the same timers,
map and callbacks. -/
theorem debounces_run (fs : Folder) (w : Watched) {acts : List Act} {m : Machine}
    (hrun : run step (start fs w) acts = some m) :
    ∃ calls d, run Debouncer.step Debouncer.newDebouncer calls = some d ∧ m.Debounces d := by
  refine run_simulation (R := Debounces) (fun m a t d h hs => h.step (step_sound hs)) ?_ hrun
  exact ⟨rfl, rfl, rfl, Debouncer.good_newDebouncer.mapped⟩

end Machine

end Kin.Watcher
