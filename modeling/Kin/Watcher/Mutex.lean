/-
  Kin.Watcher.Mutex

  **THE DEBOUNCER'S CRITICAL SECTIONS, STATEMENT BY STATEMENT** (`debouncer.mu`).

  `Kin.Watcher.Debounce` lets `schedule`, `cancel` and a callback's critical
  section happen at once.  Here any number of goroutines call `schedule` and
  `cancel`, each statement is a step, and a timer may fire between any two of
  them: between the lookup and `Stop`, after `Reset`, or after `AfterFunc` and
  before the new timer is in the map.

    • `Threads.finish` — the debouncer once the holder of the mutex is through
      with what it has begun,
    • `finish_step` — a statement is a step of that debouncer or none at all,
    • `threads_refine` — so every run is a run of `Debouncer`,
    • `trailing_event_between_statements` — between any two statements a trailing
      Create or Write is on its way, or its timer is stopped to be armed again.
-/
import Kin.Watcher.Debounce

namespace Kin.Watcher

open Kin.Lib

/-! ## §1. Goroutines and the mutex. -/

/-- The next statement of `schedule` or `cancel`, inside the critical section. -/
inductive HandlerPC where
  | lookup
  | stop (i : Nat)
  | reset (i : Nat)
  | afterFunc
  | assign (i : Nat)
  | delete
  | unlock
  deriving DecidableEq

/-- The next statement of a callback, inside its critical section. -/
inductive SectionPC where
  | delete
  | unlock
  deriving DecidableEq

/-- Who holds the mutex, and what it does next. -/
inductive Holder where
  /-- `schedule` or `cancel`, called for an event. -/
  | handler (ev : FsEvent) (pc : HandlerPC)
  | callback (i : Nat) (pc : SectionPC)
  deriving DecidableEq

structure Threads where
  mu : Option Holder
  /-- The events whose `schedule` or `cancel` waits for the mutex. -/
  calls : List FsEvent
  /-- What the goroutines share; an event is logged when its call takes effect. -/
  shared : Debouncer

namespace Threads

def init : Threads := ⟨none, [], Debouncer.newDebouncer⟩

inductive Act where
  /-- `handleEvent` is called. -/
  | event (ev : FsEvent)
  /-- A waiting call of `schedule` or `cancel` takes the mutex. -/
  | enter (j : Nat)
  /-- A callback that has fired takes the mutex. -/
  | lock (i : Nat)
  /-- The holder of the mutex executes a statement. -/
  | hold
  | fire (i : Nat)
  /-- A callback that has left its critical section calls `indexFile`. -/
  | index (i : Nat)

/-- A statement of `schedule` or `cancel`. -/
def stepHandler (s : Threads) (ev : FsEvent) : HandlerPC → Threads
  | .lookup =>
    match s.shared.byPath.lookup ev.name with
    | some i => { s with mu := some (.handler ev (.stop i)) }
    | none =>
      if ev.indexes then { s with mu := some (.handler ev .afterFunc) }
      else
        { s with
          mu := some (.handler ev .unlock)
          shared := { s.shared with log := s.shared.log ++ [.event ev] } }
  | .stop i =>
    { s with
      mu := some (.handler ev (if ev.indexes then .reset i else .delete))
      shared := { s.shared with
        timers := s.shared.timers.stop i
        log := s.shared.log ++ [.event ev] } }
  | .reset i =>
    { s with
      mu := some (.handler ev .unlock)
      shared := { s.shared with timers := s.shared.timers.reset i } }
  | .afterFunc =>
    { s with
      mu := some (.handler ev (.assign s.shared.timers.length))
      shared := { s.shared with
        timers := s.shared.timers.afterFunc ev.name
        log := s.shared.log ++ [.event ev] } }
  | .assign i =>
    { s with
      mu := some (.handler ev .unlock)
      shared := { s.shared with byPath := s.shared.byPath.insert ev.name i } }
  | .delete =>
    { s with
      mu := some (.handler ev .unlock)
      shared := { s.shared with byPath := s.shared.byPath.erase ev.name } }
  | .unlock => { s with mu := none }

/-- A statement of a callback's critical section. -/
def stepSection (s : Threads) (i : Nat) : SectionPC → Option Threads
  | .delete =>
    match s.shared.callbacks[i]? with
    | none => none
    | some c =>
      some { s with
        mu := some (.callback i .unlock)
        shared := { s.shared with
          byPath := s.shared.byPath.erase c.path
          callbacks := s.shared.callbacks.set i ⟨c.path, .index⟩ } }
  | .unlock => some { s with mu := none }

def step (s : Threads) : Act → Option Threads
  | .event ev =>
    if ev.indexes || ev.removes then some { s with calls := s.calls ++ [ev] }
    else some { s with shared := { s.shared with log := s.shared.log ++ [.event ev] } }
  | .enter j =>
    match s.mu, s.calls[j]? with
    | none, some ev => some { s with mu := some (.handler ev .lookup), calls := s.calls.eraseIdx j }
    | _, _ => none
  | .lock i =>
    match s.mu, s.shared.callbacks[i]? with
    | none, some ⟨_, .lock⟩ => some { s with mu := some (.callback i .delete) }
    | _, _ => none
  | .hold =>
    match s.mu with
    | none => none
    | some (.handler ev pc) => some (s.stepHandler ev pc)
    | some (.callback i pc) => s.stepSection i pc
  | .fire i =>
    match s.shared.timers.fire i with
    | none => none
    | some (path, timers) =>
      some { s with
        shared := { s.shared with
          timers := timers
          callbacks := s.shared.callbacks ++ [⟨path, .lock⟩] } }
  | .index i =>
    match s.shared.callbacks[i]? with
    | some ⟨path, .index⟩ =>
      -- the callback has unlocked the mutex before
      if s.mu = some (.callback i .unlock) then none
      else
        some { s with
          shared := { s.shared with
            callbacks := s.shared.callbacks.set i ⟨path, .called⟩
            log := s.shared.log ++ [.indexFile path] } }
    | _ => none

/-- What a step can be. -/
inductive Step (s : Threads) : Act → Threads → Prop
  | call {ev : FsEvent} (hcall : (ev.indexes || ev.removes) = true) :
      Step s (.event ev) { s with calls := s.calls ++ [ev] }
  | ignored {ev : FsEvent} (hcall : (ev.indexes || ev.removes) = false) :
      Step s (.event ev) { s with
        shared := { s.shared with log := s.shared.log ++ [.event ev] } }
  | enter {j : Nat} {ev : FsEvent} (hmu : s.mu = none) (hev : s.calls[j]? = some ev) :
      Step s (.enter j) { s with
        mu := some (.handler ev .lookup), calls := s.calls.eraseIdx j }
  | lock {i : Nat} {path : GoString} (hmu : s.mu = none)
      (hc : s.shared.callbacks[i]? = some ⟨path, .lock⟩) :
      Step s (.lock i) { s with mu := some (.callback i .delete) }
  | handler {ev : FsEvent} {pc : HandlerPC} (hmu : s.mu = some (.handler ev pc)) :
      Step s .hold (s.stepHandler ev pc)
  | deleted {i : Nat} {c : Callback} (hmu : s.mu = some (.callback i .delete))
      (hc : s.shared.callbacks[i]? = some c) :
      Step s .hold { s with
        mu := some (.callback i .unlock)
        shared := { s.shared with
          byPath := s.shared.byPath.erase c.path
          callbacks := s.shared.callbacks.set i ⟨c.path, .index⟩ } }
  | unlocked {i : Nat} (hmu : s.mu = some (.callback i .unlock)) :
      Step s .hold { s with mu := none }
  | fire {i : Nat} {path : GoString} {timers : Timers GoString}
      (hfire : s.shared.timers.fire i = some (path, timers)) :
      Step s (.fire i) { s with
        shared := { s.shared with
          timers := timers
          callbacks := s.shared.callbacks ++ [⟨path, .lock⟩] } }
  | index {i : Nat} {path : GoString} (hc : s.shared.callbacks[i]? = some ⟨path, .index⟩)
      (hmu : s.mu ≠ some (.callback i .unlock)) :
      Step s (.index i) { s with
        shared := { s.shared with
          callbacks := s.shared.callbacks.set i ⟨path, .called⟩
          log := s.shared.log ++ [.indexFile path] } }

theorem step_sound {s t : Threads} {a : Act} (h : s.step a = some t) : Step s a t := by
  cases a with
  | event ev =>
    simp only [step] at h
    split at h
    next hcall =>
      rw [← Option.some.inj h]
      exact .call hcall
    next hcall =>
      rw [← Option.some.inj h]
      exact .ignored (Bool.eq_false_iff.mpr hcall)
  | enter j =>
    simp only [step] at h
    split at h
    next hmu hev =>
      rw [← Option.some.inj h]
      exact .enter hmu hev
    next => cases h
  | lock i =>
    simp only [step] at h
    split at h
    next hmu hc =>
      rw [← Option.some.inj h]
      exact .lock hmu hc
    next => cases h
  | hold =>
    simp only [step] at h
    split at h
    next => cases h
    next hmu =>
      rw [← Option.some.inj h]
      exact .handler hmu
    next i pc hmu =>
      cases pc with
      | delete =>
        simp only [stepSection] at h
        split at h
        next => cases h
        next hc =>
          rw [← Option.some.inj h]
          exact .deleted hmu hc
      | unlock =>
        rw [← Option.some.inj h]
        exact .unlocked hmu
  | fire i =>
    simp only [step] at h
    split at h
    next => cases h
    next hfire =>
      rw [← Option.some.inj h]
      exact .fire hfire
  | index i =>
    simp only [step] at h
    split at h
    next hc =>
      split at h
      next => cases h
      next hmu =>
        rw [← Option.some.inj h]
        exact .index hc hmu
    next => cases h

/-! ## §2. What the holder of the mutex has begun. -/

/-- The timer that the holder has stopped is armed again. -/
def finishTimers (mu : Option Holder) (timers : Timers GoString) : Timers GoString :=
  match mu with
  | some (.handler _ (.reset i)) => timers.reset i
  | _ => timers

/-- The timer that the holder has created is in the map, and the one that it has
stopped for good is out of it. -/
def finishMap (mu : Option Holder) (byPath : GoMap GoString Nat) : GoMap GoString Nat :=
  match mu with
  | some (.handler ev (.assign i)) => byPath.insert ev.name i
  | some (.handler ev .delete) => byPath.erase ev.name
  | _ => byPath

/-- The debouncer once the holder is through with what it has begun. -/
def finish (s : Threads) : Debouncer :=
  { s.shared with
    timers := finishTimers s.mu s.shared.timers
    byPath := finishMap s.mu s.shared.byPath }

/-- What the holder has found out still holds. -/
def Knows (d : Debouncer) : Holder → Prop
  | .handler ev .lookup => (ev.indexes || ev.removes) = true
  | .handler ev (.stop i) =>
    (ev.indexes || ev.removes) = true ∧ d.byPath.lookup ev.name = some i
  | .handler ev (.reset i) =>
    d.byPath.lookup ev.name = some i ∧ ∀ path, d.timers[i]? ≠ some ⟨path, true⟩
  | .handler ev .afterFunc => ev.indexes = true ∧ d.byPath.lookup ev.name = none
  | .callback i .delete => ∃ path, d.callbacks[i]? = some ⟨path, .lock⟩
  | _ => True

structure Good (s : Threads) : Prop where
  calls : ∀ ev ∈ s.calls, (ev.indexes || ev.removes) = true
  knows : ∀ h, s.mu = some h → Knows s.shared h

theorem good_init : init.Good :=
  ⟨fun ev h => absurd h List.not_mem_nil, fun h hmu => by cases hmu⟩

/-- What the others do meanwhile: timers fire, callbacks call `indexFile`, events are
logged. -/
theorem Knows.mono {d d' : Debouncer} {h : Holder} (hk : Knows d h) (hmap : d'.byPath = d.byPath)
    (htimers : ∀ (i : Nat) path, d.timers[i]? ≠ some ⟨path, true⟩ → d'.timers[i]? ≠ some ⟨path, true⟩)
    (hlocks : ∀ (i : Nat) path, d.callbacks[i]? = some ⟨path, .lock⟩ →
      d'.callbacks[i]? = some ⟨path, .lock⟩) : Knows d' h := by
  cases h with
  | handler ev pc =>
    cases pc with
    | lookup => exact hk
    | stop i => exact ⟨hk.1, by rw [hmap]; exact hk.2⟩
    | reset i => exact ⟨by rw [hmap]; exact hk.1, fun path => htimers i path (hk.2 path)⟩
    | afterFunc => exact ⟨hk.1, by rw [hmap]; exact hk.2⟩
    | _ => trivial
  | callback i pc =>
    cases pc with
    | delete =>
      obtain ⟨path, hc⟩ := hk
      exact ⟨path, hlocks i path hc⟩
    | unlock => trivial

/-- A statement of `schedule` or `cancel` tells the next one what it relies on. -/
theorem knows_stepHandler {s : Threads} {ev : FsEvent} {pc : HandlerPC}
    (hk : Knows s.shared (.handler ev pc)) {h : Holder}
    (hmu : (s.stepHandler ev pc).mu = some h) : Knows (s.stepHandler ev pc).shared h := by
  cases pc with
  | lookup =>
    simp only [stepHandler] at hmu ⊢
    cases hl : s.shared.byPath.lookup ev.name with
    | some i =>
      rw [hl] at hmu
      rw [← Option.some.inj hmu]
      exact ⟨hk, hl⟩
    | none =>
      rw [hl] at hmu
      cases hidx : ev.indexes with
      | true =>
        rw [hidx] at hmu
        rw [← Option.some.inj hmu]
        exact ⟨hidx, hl⟩
      | false =>
        rw [hidx] at hmu
        rw [← Option.some.inj hmu]
        trivial
  | stop i =>
    simp only [stepHandler] at hmu ⊢
    rw [← Option.some.inj hmu]
    cases ev.indexes with
    | true => exact ⟨hk.2, fun path => Timers.stop_disarms _ i i path (Or.inr rfl)⟩
    | false => trivial
  | unlock => cases hmu
  | _ =>
    rw [← Option.some.inj hmu]
    trivial

theorem calls_stepHandler (s : Threads) (ev : FsEvent) (pc : HandlerPC) :
    (s.stepHandler ev pc).calls = s.calls := by
  cases pc with
  | lookup =>
    simp only [stepHandler]
    split
    · rfl
    · split <;> rfl
  | _ => rfl

theorem Good.step {s t : Threads} {a : Act} (hs : s.Good) (h : Step s a t) : t.Good := by
  cases h with
  | call hcall =>
    exact ⟨forall_mem_concat hs.calls hcall, hs.knows⟩
  | ignored _ =>
    exact ⟨hs.calls, fun h hmu => (hs.knows h hmu).mono rfl (fun _ _ => id) (fun _ _ => id)⟩
  | @enter j ev _ hev =>
    refine ⟨fun ev' hev' => hs.calls ev' (List.mem_of_mem_eraseIdx hev'), fun h hmu => ?_⟩
    rw [← Option.some.inj hmu]
    exact hs.calls ev (List.mem_of_getElem? hev)
  | @lock i path _ hc =>
    refine ⟨hs.calls, fun h hmu => ?_⟩
    rw [← Option.some.inj hmu]
    exact ⟨path, hc⟩
  | handler hmu =>
    refine ⟨?_, fun h hmu' => knows_stepHandler (hs.knows _ hmu) hmu'⟩
    rw [calls_stepHandler]
    exact hs.calls
  | deleted _ _ =>
    refine ⟨hs.calls, fun h hmu => ?_⟩
    rw [← Option.some.inj hmu]
    trivial
  | unlocked _ => exact ⟨hs.calls, fun h hmu => by cases hmu⟩
  | @fire i path timers hfire =>
    refine ⟨hs.calls, fun h hmu => (hs.knows h hmu).mono rfl (fun j path hne => ?_)
      (fun j path hc => getElem?_concat_of hc)⟩
    rw [(Timers.fire_eq_some.mp hfire).2]
    exact Timers.stop_disarms _ i j path (Or.inl hne)
  | index hc _ =>
    exact ⟨hs.calls, fun h hmu => (hs.knows h hmu).mono rfl (fun _ _ => id)
      (fun j path hj => getElem?_set_of_ne hc hj (by simp))⟩

/-! ## §3. A statement, seen from the debouncer. -/

variable {s t : Threads}

/-- A call of `schedule` or `cancel` takes effect. -/
theorem run_event {d d' : Debouncer} {ev : FsEvent} (h : d.handleEvent ev = d') :
    run Debouncer.step d [.event ev] = some { d' with log := d.log ++ [.event ev] } := by
  rw [← h]
  rfl

theorem removes_of_not_indexes {ev : FsEvent} (h : (ev.indexes || ev.removes) = true)
    (hidx : ev.indexes = false) : ev.removes = true := by
  rwa [hidx, Bool.false_or] at h

/-- `schedule` takes effect when it stops or creates the timer, `cancel` when it
stops the timer or finds none. -/
theorem finish_handler {ev : FsEvent} {pc : HandlerPC} (hmu : s.mu = some (.handler ev pc))
    (hk : Knows s.shared (.handler ev pc)) :
    ∃ acts, run Debouncer.step s.finish acts = some (s.stepHandler ev pc).finish := by
  obtain ⟨mu, calls, d⟩ := s
  dsimp only at hmu
  subst hmu
  cases pc with
  | lookup =>
    simp only [stepHandler]
    cases hl : d.byPath.lookup ev.name with
    | some i => exact ⟨[], rfl⟩
    | none =>
      cases hidx : ev.indexes with
      | true => exact ⟨[], rfl⟩
      | false =>
        have hev : d.handleEvent ev = d := by
          rw [d.handleEvent_of_removes hidx (removes_of_not_indexes hk hidx)]
          simp only [Debouncer.cancel, hl]
        have hrun := run_event hev
        exact ⟨[.event ev], hrun⟩
  | stop i =>
    obtain ⟨hcall, hl⟩ := hk
    refine ⟨[.event ev], ?_⟩
    simp only [stepHandler]
    cases hidx : ev.indexes with
    | true =>
      have hev : d.handleEvent ev = { d with timers := (d.timers.stop i).reset i } := by
        rw [d.handleEvent_of_indexes hidx]
        simp only [Debouncer.schedule, hl]
      exact run_event (d := d) hev
    | false =>
      have hev : d.handleEvent ev
          = { d with timers := d.timers.stop i, byPath := d.byPath.erase ev.name } := by
        rw [d.handleEvent_of_removes hidx (removes_of_not_indexes hcall hidx)]
        simp only [Debouncer.cancel, hl]
      exact run_event (d := d) hev
  | reset i => exact ⟨[], rfl⟩
  | afterFunc =>
    obtain ⟨hidx, hl⟩ := hk
    have hev : d.handleEvent ev = { d with
        timers := d.timers.afterFunc ev.name
        byPath := d.byPath.insert ev.name d.timers.length } := by
      rw [d.handleEvent_of_indexes hidx]
      simp only [Debouncer.schedule, hl]
    exact ⟨[.event ev], run_event (d := d) hev⟩
  | assign i => exact ⟨[], rfl⟩
  | delete => exact ⟨[], rfl⟩
  | unlock => exact ⟨[], rfl⟩

/-- A timer that fires while the mutex is held is not the one that the holder is
about to arm. -/
theorem fire_finishTimers (hs : s.Good) {i : Nat} {path : GoString} {timers : Timers GoString}
    (hfire : s.shared.timers.fire i = some (path, timers)) :
    (finishTimers s.mu s.shared.timers).fire i = some (path, finishTimers s.mu timers) := by
  unfold finishTimers
  split
  next ev j hmu =>
    have hdisarmed := (hs.knows _ hmu).2 path
    refine Timers.fire_reset_of_ne ?_ hfire
    intro heq
    subst heq
    exact hdisarmed (Timers.fire_eq_some.mp hfire).1
  next => exact hfire

/-- **A statement is a step of the debouncer, or none.** -/
theorem finish_step {a : Act} (hs : s.Good) (h : Step s a t) :
    ∃ acts, run Debouncer.step s.finish acts = some t.finish := by
  cases h with
  | call _ => exact ⟨[], rfl⟩
  | @ignored ev hcall =>
    exact ⟨[.event ev], run_event (s.finish.handleEvent_of_neither hcall)⟩
  | enter hmu _ => exact ⟨[], by simp only [finish, hmu]; rfl⟩
  | lock hmu _ => exact ⟨[], by simp only [finish, hmu]; rfl⟩
  | handler hmu => exact finish_handler hmu (hs.knows _ hmu)
  | @deleted i c hmu hc =>
    -- the callback's critical section takes effect here
    obtain ⟨path, hlock⟩ := hs.knows _ hmu
    have hcl : c = ⟨path, .lock⟩ := Option.some.inj (hc.symm.trans hlock)
    subst hcl
    refine ⟨[.callback i], ?_⟩
    simp [run, Debouncer.step, Debouncer.stepCallback, finish, finishTimers, finishMap, hmu, hc]
  | unlocked hmu => exact ⟨[], by simp only [finish, hmu]; rfl⟩
  | @fire i path timers hfire =>
    refine ⟨[.fire i], ?_⟩
    simp [run, Debouncer.step, finish, fire_finishTimers hs hfire]
  | @index i path hc _ =>
    refine ⟨[.callback i], ?_⟩
    simp [run, Debouncer.step, Debouncer.stepCallback, finish, hc]

/-- **Critical sections are as good as atomic**: whatever the goroutines do, the
debouncer has a run that ends in the state they have begun. -/
theorem threads_refine {acts : List Act} (hrun : run step init acts = some s) :
    s.Good ∧ ∃ calls, run Debouncer.step Debouncer.newDebouncer calls = some s.finish := by
  have hsim : ∃ calls d, run Debouncer.step Debouncer.newDebouncer calls = some d
      ∧ s.Good ∧ s.finish = d := by
    refine run_simulation (R := fun s d => s.Good ∧ s.finish = d) ?_ ⟨good_init, rfl⟩ hrun
    intro s a t d hR h
    obtain ⟨hs, rfl⟩ := hR
    obtain ⟨calls, hcalls⟩ := finish_step hs (step_sound h)
    exact ⟨calls, t.finish, hcalls, hs.step (step_sound h), rfl⟩
  obtain ⟨calls, _, hcalls, hs, rfl⟩ := hsim
  exact ⟨hs, calls, hcalls⟩

/-- **Between any two statements** a trailing Create or Write is on its way or has
been passed to `indexFile`, or a call of `schedule` for the path has stopped its
timer and is about to arm it again. -/
theorem trailing_event_between_statements {acts : List Act} (hrun : run step init acts = some s)
    {ev : FsEvent} {since : List Logged} (hlatest : s.shared.LatestEvent ev since)
    (hidx : ev.indexes = true) :
    s.shared.Pending ev.name ∨ .indexFile ev.name ∈ since
      ∨ ∃ ev' i, s.mu = some (.handler ev' (.reset i)) ∧ ev'.name = ev.name := by
  obtain ⟨hs, calls, hcalls⟩ := threads_refine hrun
  have hgood := Debouncer.good_run hcalls
  rcases hgood.latest (d := s.finish) hlatest hidx with (harmed | hwait) | hcall
  · have harmed : (finishTimers s.mu s.shared.timers).Armed ev.name := harmed
    unfold finishTimers at harmed
    split at harmed
    next ev' i hmu =>
      have hmap : s.finish.byPath.lookup ev'.name = some i := by
        simp only [finish, finishMap, hmu]
        exact (hs.knows _ hmu).1
      have hruns := hgood.mapped ev'.name i hmap
      simp only [finish, finishTimers, hmu] at hruns
      rcases (Timers.armed_reset hruns.of_reset).mp harmed with harmed | hname
      · exact Or.inl (Or.inl harmed)
      · exact Or.inr (Or.inr ⟨ev', i, hmu, hname⟩)
    next => exact Or.inl (Or.inl harmed)
  · exact Or.inl (Or.inr hwait)
  · exact Or.inr (Or.inl hcall)

end Threads

end Kin.Watcher
