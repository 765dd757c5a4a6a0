/-
  Kin.Watcher.Startup

  **FILES CREATED WHILE THE WATCHER STARTS.**

  `Run` reads the folder first and adds the watch after it has indexed what it
  read.  A file created in between is not in the listing and not reported: nobody
  ever comes to it.

    • `InSight` — somebody will still come to a path, or has come,
    • `inSight_step` — no step changes that for a file that is there,
    • `startup_passes_all_iff` — at rest every file has been passed to
      `indexFile` exactly if none was created in the window.
-/
import Kin.Watcher.Machine

namespace Kin.Watcher

open Kin.Lib Kin.Catalog Kin.Transfer

/-! ## §1. Who will come to a path. -/

/-- `Run` itself will come to the path. -/
def MainPC.ahead : MainPC → GoString → Prop
  | .readDir, _ => True
  | .walk rest, p => p ∈ rest
  | .walkCall path pc rest, p => (path = p ∧ pc = .stat) ∨ p ∈ rest
  | .schedule path, p => path = p
  | _, _ => False

/-- The paths that `Run` has in hand. -/
def MainPC.names : MainPC → List GoString
  | .walk rest => rest
  | .walkCall path _ rest => path :: rest
  | .schedule path => [path]
  | _ => []

/-- The call has not begun with `indexFile`. -/
def CallPC.early (pc : CallPC) : Prop := pc = .lock ∨ pc = .stat

theorem CallPC.next_not_early {pc : CallPC} (h : pc ≠ .lock) (hr : pc.isReturned = false)
    (fs : Folder) (clk : Clock) (path : GoString) (w : Watched) :
    ¬ (pc.next fs clk path w).2.early := by
  unfold CallPC.early
  cases pc with
  | lock => exact absurd rfl h
  | stat =>
    simp only [CallPC.next]
    split
    · simp
    · split <;> simp
  | hash info | put info fileID | addHash =>
    simp only [CallPC.next]
    split <;> simp
  | insert fileID => simp [CallPC.next]
  | returned err => cases hr

/-- `Run` comes to a path because it has it in hand, or has yet to read the
folder. -/
theorem MainPC.ahead_names {pc : MainPC} {p : GoString} (h : pc.ahead p) :
    pc = .readDir ∨ p ∈ pc.names := by
  cases pc with
  | readDir => exact Or.inl rfl
  | walk rest => exact Or.inr h
  | walkCall path pc rest =>
    rcases h with ⟨hpath, _⟩ | hrest
    · exact Or.inr (by rw [hpath]; exact List.mem_cons_self)
    · exact Or.inr (List.mem_cons_of_mem _ hrest)
  | schedule path =>
    change path = p at h
    exact Or.inr (by rw [h]; exact List.mem_cons_self)
  | _ => exact h.elim

namespace Machine

/-- The path has been passed to `indexFile`, or will be. -/
def InSight (m : Machine) (p : GoString) : Prop :=
  p ∈ m.passed ∨ m.main.ahead p ∨ (∃ ev ∈ m.queue, ev.name = p)
    ∨ (∃ t ∈ m.timers, t.path = p ∧ t.armed = true) ∨ ∃ c ∈ m.calls, c.path = p ∧ c.pc.early

/-- Every regular file is in sight. -/
def AllInSight (m : Machine) : Prop :=
  ∀ p f, m.fs.lookup p = some f → f.regular = true → m.InSight p

/-- Every regular file has been passed to `indexFile` since it was created. -/
def AllPassed (m : Machine) : Prop :=
  ∀ p f, m.fs.lookup p = some f → f.regular = true → p ∈ m.passed

/-- All delivered events are handled, no timer is armed, and every timer that
fired has called `indexFile`. -/
structure Settled (m : Machine) : Prop where
  main : m.main = .select
  queue : m.queue = []
  timers : ∀ t ∈ m.timers, t.armed = false
  calls : ∀ c ∈ m.calls, ¬ c.pc.early

/-- Files are created and not otherwise changed. -/
def Act.creates : Act → Bool
  | .change (.create _ _) => true
  | .change _ => false
  | _ => true

/-- A file is created before the folder is read or after the watch is added. -/
def OutsideWindow (m : Machine) : Act → Prop
  | .change (.create _ _) => m.main = .readDir ∨ m.main.watching = true
  | _ => True

/-- What runs keep in which files are only created. -/
structure Known (m : Machine) : Prop where
  names : ∀ p ∈ m.main.names, m.fs.lookup p ≠ none
  events : ∀ ev ∈ m.queue, ev.op.indexes = true ∧ m.fs.lookup ev.name ≠ none
  timers : ∀ t ∈ m.timers, m.fs.lookup t.path ≠ none
  calls : ∀ c ∈ m.calls, m.fs.lookup c.path ≠ none
  mapped : ∀ p i, m.byPath.lookup p = some i → ∃ b, m.timers[i]? = some ⟨p, b⟩
  phase : m.main.removing = false
  unlocked : ∀ path pc rest, m.main = .walkCall path pc rest → pc ≠ .lock

/-! ## §2. Nobody loses sight of a file. -/

theorem mem_noteStat {p path : GoString} {pc : CallPC} {passed : List GoString} :
    p ∈ noteStat path pc passed ↔ (pc = .stat ∧ path = p) ∨ p ∈ passed := by
  unfold noteStat
  split
  next h => simp [h, eq_comm]
  next h => simp [h]

/-- `schedule` arms a timer for the path and leaves the others alone. -/
theorem armed_schedule {m : Machine} (hmap : ∀ p i, m.byPath.lookup p = some i →
    ∃ b, m.timers[i]? = some ⟨p, b⟩) (path p : GoString) :
    (∃ t ∈ (m.schedule path).timers, t.path = p ∧ t.armed = true)
      ↔ (∃ t ∈ m.timers, t.path = p ∧ t.armed = true) ∨ path = p := by
  unfold schedule
  cases hl : m.byPath.lookup path with
  | none =>
    show (∃ t ∈ m.timers ++ [⟨path, true⟩], t.path = p ∧ t.armed = true) ↔ _
    simp only [List.mem_append, List.mem_singleton, or_and_right, exists_or, exists_eq_left,
      and_true]
  | some i =>
    obtain ⟨b, hb⟩ := hmap path i hl
    have hex := exists_mem_set_or (y := (⟨path, true⟩ : Timer)) hb
      (fun t => t.path = p ∧ t.armed = true)
    simp only [and_true] at hex
    show (∃ t ∈ m.timers.set i ⟨path, true⟩, t.path = p ∧ t.armed = true) ↔ _
    rw [← hex]
    refine ⟨Or.inl, fun h => ?_⟩
    rcases h with h | ⟨hp, _⟩
    · exact h
    · exact ⟨⟨path, true⟩, List.mem_of_getElem? (getElem?_set_of_getElem? hb), hp, rfl⟩

/-- Two machines that differ in what `Run` has in hand only. -/
theorem inSight_congr {m m' : Machine} {p : GoString} (hpassed : p ∈ m'.passed ↔ p ∈ m.passed)
    (hqueue : m'.queue = m.queue) (htimers : m'.timers = m.timers) (hcalls : m'.calls = m.calls)
    (hmain : m'.main.ahead p ↔ m.main.ahead p) : m'.InSight p ↔ m.InSight p := by
  unfold InSight
  rw [hpassed, hqueue, htimers, hcalls, hmain]

/-- A step of `Run`. -/
theorem inSight_main {m t : Machine} (hk : m.Known) {clk : Clock} (hs : MainStep clk m t)
    {p : GoString} {f : File} (hf : m.fs.lookup p = some f) (hreg : f.regular = true) :
    t.InSight p ↔ m.InSight p := by
  have hphase := hk.phase
  cases hs with
  | readDir h =>
    -- the listing has every regular file that is there
    refine iff_of_true (Or.inr (Or.inl ?_)) (Or.inr (Or.inl (by rw [h]; trivial)))
    show p ∈ m.fs.keys.filter _
    rw [List.mem_filter, hf]
    exact ⟨AList.mem_keys.mp (AList.lookup_isSome.mp (by rw [hf]; rfl)), hreg⟩
  | walked h => exact inSight_congr Iff.rfl rfl rfl rfl (by rw [h]; simp [MainPC.ahead])
  | next h =>
    refine inSight_congr Iff.rfl rfl rfl rfl ?_
    rw [h]
    simp [MainPC.ahead, eq_comm]
  | @returned path pc rest h hret =>
    refine inSight_congr Iff.rfl rfl rfl rfl ?_
    have hpc : pc ≠ .stat := by
      intro heq
      rw [heq] at hret
      cases hret
    rw [h]
    simp [MainPC.ahead, hpc]
  | @index path pc rest h hret =>
    have hnext := CallPC.next_not_early (hk.unlocked path pc rest h) hret m.fs clk path m.watched
    unfold CallPC.early at hnext
    rw [not_or] at hnext
    unfold InSight
    rw [h]
    simp only [mem_noteStat, MainPC.ahead, hnext.2, and_false, false_or]
    grind
  | newWatcher h | addWatch h => exact inSight_congr Iff.rfl rfl rfl rfl (by rw [h]; exact Iff.rfl)
  | @receive ev queue h hq =>
    have hop := (hk.events ev (by rw [hq]; exact List.mem_cons_self)).1
    unfold InSight
    rw [h, hq]
    simp only [hop, if_true, MainPC.ahead, List.exists_mem_cons_iff, false_or, or_assoc]
  | @schedule path h =>
    rw [schedule_eq]
    unfold InSight
    dsimp only
    rw [h, armed_schedule hk.mapped path p]
    simp only [MainPC.ahead, false_or]
    grind
  | cancel h | absent h _ | found h _ | deleteFailed h _ | deleted h _ | indexRemove h =>
    rw [h] at hphase; cases hphase

/-- A timer fires: its goroutine comes to the path instead. -/
theorem inSight_fire {m : Machine} {i : Nat} {tm : Timer} (htm : m.timers[i]? = some tm)
    (harmed : tm.armed = true) (p : GoString) :
    InSight { m with
      timers := m.timers.set i { tm with armed := false }
      calls := m.calls ++ [⟨tm.path, .lock⟩] } p ↔ m.InSight p := by
  have hex := exists_mem_set_or (y := { tm with armed := false }) htm
    (fun t => t.path = p ∧ t.armed = true)
  simp only [harmed, and_true, Bool.false_eq_true, and_false, or_false] at hex
  unfold InSight
  rw [← hex]
  simp only [List.mem_append, List.mem_singleton, or_and_right, exists_or, exists_eq_left]
  unfold CallPC.early
  grind

/-- A goroutine takes a step: at the first step of `indexFile` the path is passed. -/
theorem inSight_call {m : Machine} {clk : Clock} {i : Nat} {c : Call} (hc : m.calls[i]? = some c)
    (hret : c.pc.isReturned = false) (byPath : GoMap GoString Nat) (w : Watched) (p : GoString) :
    InSight { m with
      byPath := byPath
      watched := w
      calls := m.calls.set i ⟨c.path, (c.pc.next m.fs clk c.path m.watched).2⟩
      passed := noteStat c.path c.pc m.passed } p ↔ m.InSight p := by
  unfold InSight
  simp only [mem_noteStat]
  by_cases hlock : c.pc = .lock
  · -- the call stays early
    have hnext : (c.pc.next m.fs clk c.path m.watched).2 = .stat := by
      rw [hlock]
      rfl
    have hex : (∃ c' ∈ m.calls.set i ⟨c.path, .stat⟩, c'.path = p ∧ c'.pc.early)
        ↔ ∃ c' ∈ m.calls, c'.path = p ∧ c'.pc.early := by
      refine exists_mem_set_iff hc ?_
      simp [CallPC.early, hlock]
    rw [hnext, hex]
    simp only [hlock, reduceCtorEq, false_and, false_or]
  · have hnext := CallPC.next_not_early hlock hret m.fs clk c.path m.watched
    have hex := exists_mem_set_or (y := ⟨c.path, (c.pc.next m.fs clk c.path m.watched).2⟩) hc
      (fun c => c.path = p ∧ c.pc.early)
    simp only [hnext, and_false, or_false] at hex
    rw [← hex]
    unfold CallPC.early
    simp only [hlock, false_or]
    grind

/-- A file is created: nothing changes for the others. -/
theorem inSight_create {m : Machine} {path p : GoString} (hp : p ≠ path) (fs : Folder)
    (passed : List GoString) (hpassed : p ∈ passed ↔ p ∈ m.passed) :
    InSight { m with
      fs := fs
      queue := if m.main.watching then m.queue ++ [⟨path, .create⟩] else m.queue
      passed := passed } p ↔ m.InSight p := by
  unfold InSight
  rw [hpassed]
  dsimp only
  split
  · simp only [List.mem_append, List.mem_singleton, or_and_right, exists_or, exists_eq_left,
      Ne.symm hp, or_false]
  · exact Iff.rfl

/-- The new file itself: in sight before the folder is read, and when watched. -/
theorem inSight_created {m : Machine} (hk : m.Known) {path : GoString}
    (hnew : m.fs.lookup path = none) (fs : Folder) (passed : List GoString)
    (hpassed : path ∉ passed) :
    InSight { m with
      fs := fs
      queue := if m.main.watching then m.queue ++ [⟨path, .create⟩] else m.queue
      passed := passed } path ↔ m.main = .readDir ∨ m.main.watching = true := by
  have hevents : ¬ ∃ ev ∈ m.queue, ev.name = path := by
    intro ⟨ev, hev, hname⟩
    exact (hk.events ev hev).2 (hname ▸ hnew)
  have htimers : ¬ ∃ t ∈ m.timers, t.path = path ∧ t.armed = true := by
    intro ⟨t, ht, hpath, _⟩
    exact hk.timers t ht (hpath ▸ hnew)
  have hcalls : ¬ ∃ c ∈ m.calls, c.path = path ∧ c.pc.early := by
    intro ⟨c, hc, hpath, _⟩
    exact hk.calls c hc (hpath ▸ hnew)
  have hahead : m.main.ahead path → m.main = .readDir := by
    intro h
    rcases MainPC.ahead_names h with hread | hname
    · exact hread
    · exact absurd hnew (hk.names path hname)
  unfold InSight
  dsimp only
  constructor
  · intro h
    rcases h with h | h | ⟨ev, hev, hname⟩ | h | h
    · exact absurd h hpassed
    · exact Or.inl (hahead h)
    · cases hw : m.main.watching with
      | true => exact Or.inr rfl
      | false =>
        rw [hw] at hev
        exact absurd ⟨ev, hev, hname⟩ hevents
    · exact absurd h htimers
    · exact absurd h hcalls
  · intro h
    rcases h with hread | hw
    · refine Or.inr (Or.inl ?_)
      rw [hread]
      trivial
    · refine Or.inr (Or.inr (Or.inl ⟨⟨path, .create⟩, ?_, rfl⟩))
      rw [if_pos hw]
      exact List.mem_append_right _ (List.mem_singleton.mpr rfl)

/-! ## §3. Runs in which files are created. -/

theorem known_start (fs : Folder) (w : Watched) : (start fs w).Known where
  names := by
    intro p hp
    cases hp
  events := by
    intro ev hev
    cases hev
  timers := by
    intro t ht
    cases ht
  calls := by
    intro c hc
    cases hc
  mapped := by
    intro p i hi
    cases hi
  phase := rfl
  unlocked := by
    intro path pc rest h
    cases h

/-- A timer that is stopped, armed or fires keeps its path. -/
theorem path_of_set {timers : List Timer} {i j : Nat} {tm : Timer} (htm : timers[i]? = some tm)
    (armed : Bool) {p : GoString} (h : ∃ b, timers[j]? = some ⟨p, b⟩) :
    ∃ b, (timers.set i ⟨tm.path, armed⟩)[j]? = some ⟨p, b⟩ := by
  obtain ⟨b, hb⟩ := h
  by_cases hij : i = j
  · rw [← hij, htm] at hb
    rw [← hij, Option.some.inj hb]
    exact ⟨armed, getElem?_set_of_getElem? htm⟩
  · rw [List.getElem?_set_ne hij]
    exact ⟨b, hb⟩

/-- A step of `Run` that leaves events, timers and calls alone. -/
theorem Known.withMain {m : Machine} (hk : m.Known) (pc : MainPC)
    (hnames : ∀ p ∈ pc.names, m.fs.lookup p ≠ none) (hphase : pc.removing = false)
    (hlock : ∀ path c rest, pc = .walkCall path c rest → c ≠ .lock) (w : Watched)
    (passed : List GoString) : Known { m with main := pc, watched := w, passed := passed } :=
  ⟨hnames, hk.events, hk.timers, hk.calls, hk.mapped, hphase, hlock⟩

theorem known_schedule {m : Machine} (hk : m.Known) {path : GoString}
    (hpath : m.fs.lookup path ≠ none) : Known { m.schedule path with main := .select } := by
  unfold schedule
  cases hl : m.byPath.lookup path with
  | none =>
    refine ⟨nofun, hk.events, forall_mem_concat hk.timers hpath, hk.calls, fun p i hi => ?_, rfl,
      nofun⟩
    change AList.lookup p (AList.insert path m.timers.length m.byPath) = some i at hi
    rw [GoMap.lookup_insert] at hi
    split at hi
    next hp =>
      rw [hp, ← Option.some.inj hi]
      exact ⟨true, List.getElem?_concat_length ..⟩
    next =>
      obtain ⟨b, hb⟩ := hk.mapped p i hi
      exact ⟨b, getElem?_concat_of hb⟩
  | some j =>
    obtain ⟨b, hb⟩ := hk.mapped path j hl
    exact ⟨nofun, hk.events, forall_mem_set hk.timers hpath, hk.calls,
      fun p i hi => path_of_set hb true (hk.mapped p i hi), rfl, nofun⟩

theorem known_main {m t : Machine} (hk : m.Known) {clk : Clock} (hs : MainStep clk m t) :
    t.Known := by
  have hphase := hk.phase
  have hnames := hk.names
  cases hs with
  | readDir h =>
    refine hk.withMain (.walk _) (fun p hp => ?_) rfl nofun _ _
    have hkey := (List.mem_filter.mp hp).1
    exact Option.isSome_iff_ne_none.mp (AList.lookup_isSome.mpr (AList.mem_keys.mpr hkey))
  | walked h => exact hk.withMain .newWatcher nofun rfl nofun _ _
  | @next path rest h =>
    rw [h] at hnames
    refine hk.withMain (.walkCall path .stat rest) hnames rfl (fun _ c _ heq => ?_) _ _
    injection heq with _ heq
    rw [← heq]
    simp
  | @returned path pc rest h hret =>
    rw [h] at hnames
    exact hk.withMain (.walk rest) (fun p hp => hnames p (List.mem_cons_of_mem _ hp)) rfl nofun _ _
  | @index path pc rest h hret =>
    rw [h] at hnames
    refine hk.withMain (.walkCall path (pc.next m.fs clk path m.watched).2 rest) hnames rfl
      (fun _ c _ heq => ?_) _ _
    injection heq with _ heq
    rw [← heq]
    intro hlock
    exact CallPC.next_not_early (hk.unlocked path pc rest h) hret m.fs clk path m.watched
      (Or.inl hlock)
  | newWatcher h => exact hk.withMain .addWatch nofun rfl nofun _ _
  | addWatch h => exact hk.withMain .select nofun rfl nofun _ _
  | @receive ev queue h hq =>
    obtain ⟨hop, hev⟩ := hk.events ev (by rw [hq]; exact List.mem_cons_self)
    rw [hop]
    refine ⟨fun p hp => ?_, fun ev' hev' => ?_, hk.timers, hk.calls, hk.mapped, rfl, nofun⟩
    · rw [List.mem_singleton.mp hp]
      exact hev
    · exact hk.events ev' (by rw [hq]; exact List.mem_cons_of_mem _ hev')
  | @schedule path h =>
    rw [h] at hnames
    exact known_schedule hk (hnames path List.mem_cons_self)
  | cancel h | absent h _ | found h _ | deleteFailed h _ | deleted h _ | indexRemove h =>
    rw [h] at hphase; cases hphase

/-- A folder that keeps its files keeps everything known. -/
theorem Known.mono {m : Machine} (hk : m.Known) {fs : Folder} {queue : List Event}
    (hfs : ∀ p, m.fs.lookup p ≠ none → fs.lookup p ≠ none)
    (hqueue : ∀ ev ∈ queue, ev.op.indexes = true ∧ fs.lookup ev.name ≠ none)
    (passed : List GoString) : Known { m with fs := fs, queue := queue, passed := passed } :=
  ⟨fun p hp => hfs p (hk.names p hp), hqueue, fun t ht => hfs _ (hk.timers t ht),
    fun c hc => hfs _ (hk.calls c hc), hk.mapped, hk.phase, hk.unlocked⟩

/-- A timer fires. -/
theorem known_fire {m : Machine} (hk : m.Known) {i : Nat} {tm : Timer}
    (htm : m.timers[i]? = some tm) :
    Known { m with
      timers := m.timers.set i { tm with armed := false }
      calls := m.calls ++ [⟨tm.path, .lock⟩] } := by
  have htimer := hk.timers tm (List.mem_of_getElem? htm)
  exact ⟨hk.names, hk.events, forall_mem_set hk.timers htimer, forall_mem_concat hk.calls htimer,
    fun p j hj => path_of_set htm false (hk.mapped p j hj), hk.phase, hk.unlocked⟩

/-- A goroutine takes a step; the first one forgets the path's timer. -/
theorem known_call {m : Machine} (hk : m.Known) {i : Nat} {c : Call}
    (hc : m.calls[i]? = some c) (pc : CallPC) (w : Watched) (passed : List GoString) :
    Known { m with
      byPath := if c.pc = .lock then m.byPath.erase c.path else m.byPath
      watched := w
      calls := m.calls.set i ⟨c.path, pc⟩
      passed := passed } := by
  have hpaths : ∀ c' ∈ m.calls.set i ⟨c.path, pc⟩, m.fs.lookup c'.path ≠ none :=
    forall_mem_set hk.calls (hk.calls c (List.mem_of_getElem? hc))
  refine ⟨hk.names, hk.events, hk.timers, hpaths, fun p j hj => hk.mapped p j ?_, hk.phase,
    hk.unlocked⟩
  · change (if c.pc = .lock then m.byPath.erase c.path else m.byPath).lookup p = some j at hj
    split at hj
    next =>
      rw [GoMap.lookup_erase] at hj
      split at hj
      next => cases hj
      next => exact hj
    next => exact hj

/-- **What runs keep in which files are only created.** -/
theorem known_step {m t : Machine} {a : Act} (hk : m.Known) (ha : a.creates = true)
    (hs : Step m a t) : t.Known := by
  cases hs with
  | @change a fs events happly =>
    cases a with
    | create path f =>
      obtain ⟨hnew, hreg, rfl, rfl⟩ := apply_create happly
      have hgrow : ∀ p, m.fs.lookup p ≠ none → (AList.insert path f m.fs).lookup p ≠ none := by
        intro p hp
        rw [GoMap.lookup_insert]
        split
        · simp
        · exact hp
      refine hk.mono hgrow ?_ _
      have hold : ∀ ev ∈ m.queue,
          ev.op.indexes = true ∧ (AList.insert path f m.fs).lookup ev.name ≠ none :=
        fun ev hev => ⟨(hk.events ev hev).1, hgrow _ (hk.events ev hev).2⟩
      split
      · refine forall_mem_concat hold ⟨rfl, ?_⟩
        rw [GoMap.lookup_insert, if_pos rfl]
        simp
      · exact hold
    | modify path f => cases ha
    | rename old new => cases ha
    | remove path => cases ha
  | main hs => exact known_main hk hs
  | fire htm harmed => exact known_fire hk htm
  | call hc hret => exact known_call hk hc _ _ _

/-- **No step changes what is in sight**, as far as it was there. -/
theorem inSight_step {m t : Machine} {a : Act} (hk : m.Known) (ha : a.creates = true)
    (hs : Step m a t) {p : GoString} {f : File} (hf : m.fs.lookup p = some f)
    (hreg : f.regular = true) : t.InSight p ↔ m.InSight p := by
  cases hs with
  | @change a fs events happly =>
    cases a with
    | create path g =>
      obtain ⟨hnew, _, rfl, rfl⟩ := apply_create happly
      have hp : p ≠ path := by
        intro heq
        rw [heq, hnew] at hf
        cases hf
      refine inSight_create hp _ _ ?_
      rw [List.mem_filter]
      simp [Ne.symm hp]
    | modify path g => cases ha
    | rename old new => cases ha
    | remove path => cases ha
  | main hs => exact inSight_main hk hs hf hreg
  | fire htm harmed => exact inSight_fire htm harmed p
  | call hc hret => exact inSight_call hc hret _ _ p

/-- The files after a step: those before it, and the one created. -/
theorem fs_step {m t : Machine} {a : Act} (ha : a.creates = true) (hs : Step m a t) :
    (t.fs = m.fs ∧ m.OutsideWindow a)
      ∨ ∃ path f, a = .change (.create path f) ∧ m.fs.lookup path = none ∧ f.regular = true
          ∧ t.fs = m.fs.insert path f := by
  cases hs with
  | @change a fs events happly =>
    cases a with
    | create path f =>
      obtain ⟨hnew, hreg, rfl, _⟩ := apply_create happly
      exact Or.inr ⟨path, f, rfl, hnew, hreg, rfl⟩
    | modify path f => cases ha
    | rename old new => cases ha
    | remove path => cases ha
  | main hs => exact Or.inl ⟨hs.fs, trivial⟩
  | fire htm harmed => exact Or.inl ⟨rfl, trivial⟩
  | call hc hret => exact Or.inl ⟨rfl, trivial⟩

/-- A step keeps every file in sight exactly if it is outside the window. -/
theorem allInSight_step_iff {m t : Machine} {a : Act} (hk : m.Known) (hm : m.AllInSight)
    (ha : a.creates = true) (hs : Step m a t) : t.AllInSight ↔ m.OutsideWindow a := by
  have hkeep : ∀ p f, m.fs.lookup p = some f → f.regular = true → t.InSight p := by
    intro p f hf hreg
    exact (inSight_step hk ha hs hf hreg).mpr (hm p f hf hreg)
  rcases fs_step ha hs with ⟨hfs, hout⟩ | ⟨path, f, rfl, hnew, hreg, hfs⟩
  · refine iff_of_true ?_ hout
    intro p f hf
    rw [hfs] at hf
    exact hkeep p f hf
  · have hcreated : t.InSight path ↔ m.OutsideWindow (.change (.create path f)) := by
      cases hs with
      | change happly =>
        obtain ⟨_, _, rfl, rfl⟩ := apply_create happly
        refine inSight_created hk hnew _ _ ?_
        rw [List.mem_filter]
        simp
    constructor
    · intro ht
      refine hcreated.mp (ht path f ?_ hreg)
      rw [hfs, GoMap.lookup_insert, if_pos rfl]
    · intro hout p g hg hgreg
      rw [hfs, GoMap.lookup_insert] at hg
      split at hg
      next hp =>
        rw [hp]
        exact hcreated.mpr hout
      next => exact hkeep p g hg hgreg

/-- **At rest, every file has been passed to `indexFile` exactly if none was
created in the window** between the reading of the folder and the return of
`fsw.Add` — whatever the folder and the catalog held before. -/
theorem startup_passes_all_iff {fs : Folder} {w : Watched} {acts : List Act} {t : Machine}
    (hacts : ∀ a ∈ acts, a.creates = true) (hrun : run step (start fs w) acts = some t)
    (hrest : t.Settled) : t.AllPassed ↔ StepsMeet step OutsideWindow (start fs w) acts := by
  have hD : StepsMeet step (fun _ a => a.creates = true) (start fs w) acts :=
    stepsMeet_of_forall _ hacts
  have hknown : ∀ (m : Machine) (a : Act) (m' : Machine), m.Known → a.creates = true →
      m.step a = some m' → m'.Known := fun _ _ _ hk ha hs => known_step hk ha (step_sound hs)
  have hinit : (start fs w).AllInSight := fun p f _ _ => Or.inr (Or.inl trivial)
  calc t.AllPassed
      ↔ t.AllInSight := by
        refine forall_congr' fun p => forall_congr' fun f => forall_congr' fun _ =>
          forall_congr' fun _ => ⟨Or.inl, fun h => ?_⟩
        -- nobody is on the way any more
        rcases h with h | h | ⟨ev, hev, _⟩ | ⟨tm, htm, _, harmed⟩ | ⟨c, hc, _, hearly⟩
        · exact h
        · rw [hrest.main] at h
          exact h.elim
        · rw [hrest.queue] at hev
          cases hev
        · rw [hrest.timers tm htm] at harmed
          cases harmed
        · exact absurd hearly (hrest.calls c hc)
    _ ↔ StatesMeet step AllInSight (start fs w) acts := by
        refine (statesMeet_iff_last_within (J := Known) hknown ?_ hD (known_start fs w) hrun).symm
        intro m a m' hk ha hs ht p f hf hreg
        have hs := step_sound hs
        refine (inSight_step hk ha hs hf hreg).mp (ht p f ?_ hreg)
        rcases fs_step ha hs with ⟨hfs, _⟩ | ⟨path, g, _, hnew, _, hfs⟩
        · rw [hfs]
          exact hf
        · rw [hfs, GoMap.lookup_insert, if_neg]
          · exact hf
          · intro heq
            rw [heq, hnew] at hf
            cases hf
    _ ↔ StepsMeet step OutsideWindow (start fs w) acts :=
        statesMeet_iff_stepsMeet_within (J := Known) hknown
          (fun _ _ _ hk hm ha hs => allInSight_step_iff hk hm ha (step_sound hs)) hD
          (known_start fs w) hinit

/-! ## §4. A file created between the scan and the watch. -/

/-- Empty catalog and index. -/
def emptyWatched : Watched := ⟨Store.openFresh (Bytes.lit32 0xAA), ∅⟩

/-- The folder is read; `a.txt` is created; the watch is added. -/
def windowRun : List Act :=
  [.main Clock.epoch, .change (.create (ascii "/Kin/a.txt") (textFile "one")), .main Clock.epoch,
    .main Clock.epoch, .main Clock.epoch]

/-- `a.txt` is created when the watch is there, and indexed. -/
def watchedRun : List Act :=
  [.main Clock.epoch, .main Clock.epoch, .main Clock.epoch, .main Clock.epoch,
    .change (.create (ascii "/Kin/a.txt") (textFile "one")), .main Clock.epoch, .main Clock.epoch,
    .fire 0, .call 0 Clock.epoch, .call 0 Clock.epoch]

instance (pc : CallPC) : Decidable pc.early := inferInstanceAs (Decidable (_ ∨ _))

/-- A run that ends at rest with the file passed. -/
theorem startup_passes_watched_file :
    ∃ t ∈ run step (start ∅ emptyWatched) watchedRun,
      t.Settled ∧ (t.AllPassed ↔ StepsMeet step OutsideWindow (start ∅ emptyWatched) watchedRun) := by
  have hend : ∃ t ∈ run step (start ∅ emptyWatched) watchedRun,
      t.main = .select ∧ t.queue = [] ∧ (∀ tm ∈ t.timers, tm.armed = false)
        ∧ ∀ c ∈ t.calls, ¬ c.pc.early := by decide +kernel
  obtain ⟨t, ht, hmain, hqueue, htimers, hcalls⟩ := hend
  have hrest : t.Settled := ⟨hmain, hqueue, htimers, hcalls⟩
  exact ⟨t, ht, hrest, startup_passes_all_iff (by decide) ht hrest⟩

/-- All is at rest, the file is there, and `indexFile` has not been called. -/
theorem file_in_window_never_passed :
    ∃ t ∈ run step (start ∅ emptyWatched) windowRun,
      t.Settled ∧ t.fs.lookup (ascii "/Kin/a.txt") = some (textFile "one")
        ∧ ascii "/Kin/a.txt" ∉ t.passed ∧ ¬ t.AllPassed := by
  have hend : ∃ t ∈ run step (start ∅ emptyWatched) windowRun,
      (t.main = .select ∧ t.queue = [] ∧ (∀ tm ∈ t.timers, tm.armed = false)
        ∧ ∀ c ∈ t.calls, ¬ c.pc.early)
        ∧ t.fs.lookup (ascii "/Kin/a.txt") = some (textFile "one")
        ∧ ascii "/Kin/a.txt" ∉ t.passed := by decide +kernel
  obtain ⟨t, ht, ⟨hmain, hqueue, htimers, hcalls⟩, hfile, hnot⟩ := hend
  exact ⟨t, ht, ⟨hmain, hqueue, htimers, hcalls⟩, hfile, hnot, fun hall => hnot (hall _ _ hfile rfl)⟩

end Machine

end Kin.Watcher
