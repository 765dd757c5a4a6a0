/-
  Kin.Watcher.Race

  **A TIMER'S CALL AGAINST THE REMOVAL OF ITS FILE.**

  A file is created once and later removed.  `cancel` cannot stop a timer that
  has fired, so its `indexFile` runs on while the event loop handles the Remove:
  `LookupLocalByPath`, `DeleteLocal` and `LocalIndex.Remove` on one side,
  `PutLocal` and the insert of `LocalIndex.Add` on the other, each on its own.

    • `indexTokens`, `removeTokens` — one call and one removal at most are on
      their way,
    • `Retractable` — whatever is recorded at the path, the removal still finds,
    • `clean_after_removal_iff` — at rest nothing is left of the path exactly if
      the call recorded in time for the removal.
-/
import Kin.Watcher.Startup

namespace Kin.Watcher

open Kin.Lib Kin.Catalog Kin.Transfer Kin.Kinpb

/-! ## §1. One file, one call, one removal. -/

def MainPC.scheduling : MainPC → Bool
  | .schedule _ => true
  | _ => false

/-- `Run` is in its event loop, with events about the path only. -/
def MainPC.about (p : GoString) : MainPC → Prop
  | .select => True
  | .schedule path => path = p
  | .cancel path => path = p
  | .lookup path => path = p
  | .delete _ => True
  | .indexRemove _ => True
  | _ => False

/-- `PutLocal` is behind the call. -/
def CallPC.afterPut : CallPC → Bool
  | .addHash => true
  | .insert _ => true
  | .returned _ => true
  | _ => false

/-- A step that neither puts nor inserts records nothing. -/
theorem CallPC.next_quiet {pc : CallPC}
    (hput : ∀ info g, pc = .put info g → ¬ info.modTime.jsonOK = true)
    (hins : ∀ g, pc ≠ .insert g) (fs : Folder) (clk : Clock) (path : GoString) (w : Watched) :
    (pc.next fs clk path w).1 = w
      ∧ (pc.afterPut = true → (pc.next fs clk path w).2.afterPut = true) := by
  cases pc with
  | lock => exact ⟨rfl, fun h => by cases h⟩
  | stat =>
    refine ⟨?_, fun h => by cases h⟩
    simp only [CallPC.next]
    split
    · rfl
    · split <;> rfl
  | hash info =>
    refine ⟨?_, fun h => by cases h⟩
    simp only [CallPC.next]
    split <;> rfl
  | put info g =>
    refine ⟨?_, fun h => by cases h⟩
    have hm : ¬ (newEntry path info g).modTime.jsonOK = true := hput info g rfl
    have herr := Store.putLocal_error w.catalog clk hm
    simp only [CallPC.next, herr]
  | addHash =>
    simp only [CallPC.next]
    split
    · exact ⟨rfl, fun _ => rfl⟩
    · exact ⟨rfl, fun _ => rfl⟩
  | insert g => exact absurd rfl (hins g)
  | returned err => exact ⟨rfl, fun _ => rfl⟩

namespace Machine

/-- Nothing has happened in the event loop. -/
def Fresh (m : Machine) : Prop :=
  m.main = .select ∧ m.queue = [] ∧ m.timers = [] ∧ m.calls = []

/-- The folder changes at one path only, which is created once. -/
def OneFile (p : GoString) (m : Machine) : Act → Prop
  | .change (.create path _) => path = p ∧ m.Fresh
  | .change (.remove path) => path = p
  | .change _ => False
  | _ => True

/-- The lookup for the Remove event is still to come. -/
def LookupAhead (m : Machine) (p : GoString) : Prop :=
  m.fs.lookup p ≠ none ∨ (∃ ev ∈ m.queue, ev.op.indexes = false) ∨ m.main = .cancel p
    ∨ m.main = .lookup p

/-- No live local entry has the path, and the index maps no hash to it. -/
def Clean (m : Machine) (p : GoString) : Prop :=
  (∀ e ∈ m.watched.catalog.listLocal, e.localPath ≠ p)
    ∧ ∀ h, m.watched.index.lookup h ≠ some p

/-- The Remove event is handled, no timer is armed and no call is under way. -/
structure Over (m : Machine) (p : GoString) : Prop where
  gone : m.fs.lookup p = none
  main : m.main = .select
  queue : m.queue = []
  timers : ∀ t ∈ m.timers, t.armed = false
  calls : ∀ c ∈ m.calls, c.pc.isReturned = true

/-- **In time for the removal**: `PutLocal` (of a path that it stores as it is)
comes before the lookup; the insert comes before `LocalIndex.Remove`, with an
entry that the lookup finds or has found. -/
def InTime (p : GoString) (m : Machine) : Act → Prop
  | .call i _ => ∀ c, m.calls[i]? = some c →
      match c.pc with
      | .put info _ => info.modTime.jsonOK = true → validUTF8 p = true → m.LookupAhead p
      | .insert fileID =>
        (m.LookupAhead p ∧ m.watched.catalog.localPathOf fileID = some p)
          ∨ m.main = .delete fileID ∨ m.main = .indexRemove fileID
      | _ => True
  | _ => True

/-- How many calls there are or will be. -/
def indexTokens (m : Machine) : Nat :=
  m.queue.countP (fun ev => ev.op.indexes) + (if m.main.scheduling then 1 else 0)
    + m.timers.countP Timer.armed + m.calls.length

/-- How many removals there are or will be. -/
def removeTokens (m : Machine) (p : GoString) : Nat :=
  (if (m.fs.lookup p).isSome then 1 else 0) + m.queue.countP (fun ev => !ev.op.indexes)
    + (if m.main.removing then 1 else 0)

/-- What the life of one file keeps. -/
structure Once (p : GoString) (m : Machine) : Prop where
  wf : m.watched.catalog.db.WF
  calls_le : m.indexTokens ≤ 1
  removals_le : m.removeTokens p ≤ 1
  events : ∀ ev ∈ m.queue, ev.name = p
  timers : ∀ t ∈ m.timers, t.path = p
  calls : ∀ c ∈ m.calls, c.path = p
  main : m.main.about p
  /-- The call puts one content. -/
  same : ∀ g g', m.watched.catalog.localPathOf g = some p →
    m.watched.catalog.localPathOf g' = some p → g = g'
  put : ∀ g, m.watched.catalog.localPathOf g = some p → ∃ c ∈ m.calls, c.pc.afterPut = true
  insert : ∀ g, m.watched.index.lookup g = some p → ∃ c ∈ m.calls, c.pc.isReturned = true
  found : ∀ g, m.main = .delete g ∨ m.main = .indexRemove g → ∃ c ∈ m.calls, c.pc.afterPut = true

/-! ## §2. The invariant. -/

theorem Once.single {p : GoString} {m : Machine} (ho : m.Once p) {i : Nat} {c c' : Call}
    (hc : m.calls[i]? = some c) (hc' : c' ∈ m.calls) : c' = c := by
  have hlen : m.calls.length ≤ 1 := by
    have h := ho.calls_le
    unfold indexTokens at h
    omega
  obtain ⟨j, hj⟩ := List.mem_iff_getElem?.mp hc'
  have hi := (List.getElem?_eq_some_iff.mp hc).1
  have hj' := (List.getElem?_eq_some_iff.mp hj).1
  have hij : i = j := by omega
  rw [← hij, hc] at hj
  exact (Option.some.inj hj).symm

/-- What the call has not come to, no call has. -/
theorem Once.not_reached {p : GoString} {m : Machine} (ho : m.Once p) {i : Nat} {c : Call}
    (hc : m.calls[i]? = some c) {q : CallPC → Bool} (hq : q c.pc = false) :
    ¬ ∃ c' ∈ m.calls, q c'.pc = true := by
  intro h
  obtain ⟨c', hc', hq'⟩ := h
  rw [ho.single hc hc', hq] at hq'
  cases hq'

theorem once_watchingFrom {p : GoString} {fs : Folder} {w : Watched} (hfs : fs.lookup p = none)
    (hwf : w.catalog.db.WF) (hclean : (watchingFrom fs w).Clean p) : (watchingFrom fs w).Once p where
  wf := hwf
  calls_le := by
    show 0 ≤ 1
    omega
  removals_le := by
    show (if (fs.lookup p).isSome then 1 else 0) + 0 + 0 ≤ 1
    rw [hfs]
    show 0 ≤ 1
    omega
  events := by
    intro ev hev
    cases hev
  timers := by
    intro t ht
    cases ht
  calls := by
    intro c hc
    cases hc
  main := trivial
  same := by
    intro g _ hg
    obtain ⟨e, he, _, hpath⟩ := (Store.localPathOf_iff_listLocal hwf).mp hg
    exact absurd hpath (hclean.1 e he)
  put := by
    intro g hg
    obtain ⟨e, he, _, hpath⟩ := (Store.localPathOf_iff_listLocal hwf).mp hg
    exact absurd hpath (hclean.1 e he)
  insert := by
    intro g hg
    exact absurd hg (hclean.2 g)
  found := by
    intro g hg
    rcases hg with hg | hg <;> cases hg

/-- Steps that record nothing new. -/
theorem Once.shrink {p : GoString} {m t : Machine} (ho : m.Once p) (hwf : t.watched.catalog.db.WF)
    (hcalls : t.indexTokens ≤ 1) (hremovals : t.removeTokens p ≤ 1)
    (hevents : ∀ ev ∈ t.queue, ev.name = p) (htimers : ∀ tm ∈ t.timers, tm.path = p)
    (hpaths : ∀ c ∈ t.calls, c.path = p) (hmain : t.main.about p)
    (hcat : ∀ g, t.watched.catalog.localPathOf g = some p → m.watched.catalog.localPathOf g = some p)
    (hidx : ∀ g, t.watched.index.lookup g = some p → m.watched.index.lookup g = some p)
    (hafter : (∃ c ∈ m.calls, c.pc.afterPut = true) → ∃ c ∈ t.calls, c.pc.afterPut = true)
    (hreturned : (∃ c ∈ m.calls, c.pc.isReturned = true) → ∃ c ∈ t.calls, c.pc.isReturned = true)
    (hfound : ∀ g, t.main = .delete g ∨ t.main = .indexRemove g →
      (m.main = .delete g ∨ m.main = .indexRemove g)
        ∨ m.watched.catalog.localPathOf g = some p) : t.Once p where
  wf := hwf
  calls_le := hcalls
  removals_le := hremovals
  events := hevents
  timers := htimers
  calls := hpaths
  main := hmain
  same := fun g g' hg hg' => ho.same g g' (hcat g hg) (hcat g' hg')
  put := fun g hg => hafter (ho.put g (hcat g hg))
  insert := fun g hg => hreturned (ho.insert g (hidx g hg))
  found := by
    intro g hg
    rcases hfound g hg with hold | hlive
    · exact hafter (ho.found g hold)
    · exact hafter (ho.put g hlive)

/-- A step of the event loop, with events about the path only. -/
inductive LoopStep (p : GoString) (clk : Clock) (m : Machine) : Machine → Prop
  | receive {ev : Event} {queue : List Event} (hmain : m.main = .select)
      (hq : m.queue = ev :: queue) :
      LoopStep p clk m { m with
        queue := queue
        main := if ev.op.indexes then .schedule ev.name else .cancel ev.name }
  | schedule (hmain : m.main = .schedule p) : LoopStep p clk m { m.schedule p with main := .select }
  | cancel (hmain : m.main = .cancel p) : LoopStep p clk m { m.cancel p with main := .lookup p }
  | absent (hmain : m.main = .lookup p) (hnone : ∀ g, m.watched.catalog.localPathOf g ≠ some p) :
      LoopStep p clk m { m with main := .select }
  | found {g : FileID} (hmain : m.main = .lookup p)
      (hg : m.watched.catalog.localPathOf g = some p) : LoopStep p clk m { m with main := .delete g }
  | delete {g : FileID} (hmain : m.main = .delete g) :
      LoopStep p clk m { m with
        watched := { m.watched with catalog := (m.watched.catalog.deleteLocal clk g).1 }
        main := .indexRemove g }
  | indexRemove {g : FileID} (hmain : m.main = .indexRemove g) :
      LoopStep p clk m { m with
        watched := { m.watched with index := m.watched.index.erase g }, main := .select }

theorem MainStep.loopStep {p : GoString} {m t : Machine} {clk : Clock} (hs : MainStep clk m t)
    (hwf : m.watched.catalog.db.WF) (hmain : m.main.about p) : LoopStep p clk m t := by
  cases hs with
  | readDir h | walked h | next h | returned h _ | index h _ | newWatcher h | addWatch h =>
    rw [h] at hmain; exact hmain.elim
  | receive h hq => exact .receive h hq
  | @schedule path h =>
    obtain rfl : path = p := by
      rw [h] at hmain
      exact hmain
    exact .schedule h
  | @cancel path h =>
    obtain rfl : path = p := by
      rw [h] at hmain
      exact hmain
    exact .cancel h
  | @absent path h hl =>
    obtain rfl : path = p := by
      rw [h] at hmain
      exact hmain
    exact .absent h (Store.lookupLocalByPath_none hwf hl)
  | @found path entry h hl =>
    obtain rfl : path = p := by
      rw [h] at hmain
      exact hmain
    exact .found h (Store.lookupLocalByPath_some hwf hl)
  | @deleteFailed g catalog err h hd =>
    -- the transaction itself does not fail
    obtain ⟨db, hdel, _⟩ := Store.deleteLocal_spec hwf clk g
    rw [hd] at hdel
    cases (Prod.mk.inj hdel).2
  | @deleted g catalog h hd =>
    have hstep : LoopStep p clk m _ := .delete h
    rw [hd] at hstep
    exact hstep
  | indexRemove h => exact .indexRemove h

/-- A step of a call: it puts, it inserts, or it records nothing. -/
inductive CallStep (clk : Clock) (m : Machine) (i : Nat) (c : Call) : Machine → Prop
  | put {info : FileInfo} {g : FileID} (hpc : c.pc = .put info g)
      (hm : info.modTime.jsonOK = true) :
      CallStep clk m i c { m with
        watched := { m.watched with
          catalog := (m.watched.catalog.putLocal clk (newEntry c.path info g)).1 }
        calls := m.calls.set i ⟨c.path, .addHash⟩ }
  | insert {g : FileID} (hpc : c.pc = .insert g) :
      CallStep clk m i c { m with
        watched := { m.watched with index := m.watched.index.insert g c.path }
        calls := m.calls.set i ⟨c.path, .returned none⟩ }
  | quiet {pc : CallPC} (byPath : GoMap GoString Nat) (passed : List GoString)
      (hret : c.pc.isReturned = false)
      (hput : ∀ info g, c.pc = .put info g → ¬ info.modTime.jsonOK = true)
      (hins : ∀ g, c.pc ≠ .insert g) (hafter : c.pc.afterPut = true → pc.afterPut = true) :
      CallStep clk m i c
        { m with byPath := byPath, calls := m.calls.set i ⟨c.path, pc⟩, passed := passed }

theorem callStep_next {m : Machine} (hwf : m.watched.catalog.db.WF) (clk : Clock) (i : Nat)
    {c : Call} (hret : c.pc.isReturned = false) :
    CallStep clk m i c { m with
      byPath := if c.pc = .lock then m.byPath.erase c.path else m.byPath
      watched := (c.pc.next m.fs clk c.path m.watched).1
      calls := m.calls.set i ⟨c.path, (c.pc.next m.fs clk c.path m.watched).2⟩
      passed := noteStat c.path c.pc m.passed } := by
  by_cases hput : ∃ info g, c.pc = .put info g ∧ info.modTime.jsonOK = true
  · obtain ⟨info, g, hpc, hm⟩ := hput
    have hspec := Store.putLocal_spec hwf clk
      (show (newEntry c.path info g).modTime.jsonOK = true from hm)
    have hstep : CallStep clk m i c _ := .put hpc hm
    rw [hpc]
    simp only [CallPC.next, noteStat, hspec, reduceCtorEq, if_false] at hstep ⊢
    exact hstep
  · by_cases hins : ∃ g, c.pc = .insert g
    · obtain ⟨g, hpc⟩ := hins
      have hstep : CallStep clk m i c _ := .insert hpc
      rw [hpc]
      exact hstep
    · have hput' : ∀ info g, c.pc = .put info g → ¬ info.modTime.jsonOK = true :=
        fun info g hpc hm => hput ⟨info, g, hpc, hm⟩
      have hins' : ∀ g, c.pc ≠ .insert g := fun g hpc => hins ⟨g, hpc⟩
      obtain ⟨hw, hafter⟩ := CallPC.next_quiet hput' hins' m.fs clk c.path m.watched
      rw [hw]
      exact .quiet _ _ hret hput' hins' hafter

theorem about_watching {p : GoString} {pc : MainPC} (h : pc.about p) : pc.watching = true := by
  cases pc <;> first | rfl | exact h.elim

/-- The timers after one of them was stopped or armed for a path. -/
theorem timers_set (ts : List Timer) (i : Nat) (path : GoString) (armed : Bool) :
    (ts.set i ⟨path, armed⟩).countP Timer.armed ≤ ts.countP Timer.armed + (if armed then 1 else 0)
      ∧ ∀ t ∈ ts.set i ⟨path, armed⟩, t ∈ ts ∨ t.path = path := by
  constructor
  · cases hi : ts[i]? with
    | none =>
      rw [List.set_eq_of_length_le (List.getElem?_eq_none_iff.mp hi)]
      omega
    | some t =>
      have hcount := countP_set_add hi (⟨path, armed⟩ : Timer) Timer.armed
      dsimp only at hcount
      omega
  · exact forall_mem_set (fun t ht => Or.inl ht) (Or.inr rfl)

/-- `schedule` arms one timer at most, for its path. -/
theorem schedule_timers (m : Machine) (path : GoString) :
    (m.schedule path).timers.countP Timer.armed ≤ m.timers.countP Timer.armed + 1
      ∧ ∀ t ∈ (m.schedule path).timers, t ∈ m.timers ∨ t.path = path := by
  unfold schedule
  cases m.byPath.lookup path with
  | none =>
    refine ⟨?_, forall_mem_concat (fun t ht => Or.inl ht) (Or.inr rfl)⟩
    show (m.timers ++ [(⟨path, true⟩ : Timer)]).countP Timer.armed ≤ _
    simp
  | some i => exact timers_set m.timers i path true

/-- `cancel` arms none. -/
theorem cancel_timers (m : Machine) (path : GoString) :
    (m.cancel path).timers.countP Timer.armed ≤ m.timers.countP Timer.armed
      ∧ ∀ t ∈ (m.cancel path).timers, t ∈ m.timers ∨ t.path = path := by
  unfold cancel
  cases m.byPath.lookup path with
  | none => exact ⟨Nat.le_refl _, fun t ht => Or.inl ht⟩
  | some i => exact timers_set m.timers i path false

/-- A change of the folder: the file comes, or it goes. -/
theorem once_change {p : GoString} {m : Machine} {a : FsAct} {fs : Folder} {events : List Event}
    (ho : m.Once p) (ha : m.OneFile p (.change a)) (happly : m.fs.apply a = some (fs, events))
    (passed : List GoString) :
    Once p { m with fs := fs, queue := m.queue ++ events, passed := passed } := by
  have hcalls := ho.calls_le
  have hremovals := ho.removals_le
  unfold indexTokens at hcalls
  unfold removeTokens at hremovals
  cases a with
  | create path f =>
    obtain ⟨hpath, hmain, hqueue, htimers, hnone⟩ := ha
    obtain ⟨_, _, rfl, rfl⟩ := apply_create happly
    refine ho.shrink ho.wf ?_ ?_ (forall_mem_concat ho.events hpath) ho.timers ho.calls ho.main
      (fun _ h => h) (fun _ h => h) id id (fun _ h => Or.inl h)
    · unfold indexTokens
      dsimp only
      rw [hmain, hqueue, htimers, hnone]
      simp [MainPC.scheduling]
    · unfold removeTokens
      dsimp only
      rw [hmain, hqueue]
      simp only [List.nil_append, List.countP_singleton, EventOp.indexes_create, Bool.not_true,
        Bool.false_eq_true, if_false, MainPC.removing]
      split <;> omega
  | remove path =>
    change path = p at ha
    subst ha
    obtain ⟨hthere, rfl, rfl⟩ := apply_remove happly
    refine ho.shrink ho.wf ?_ ?_ (forall_mem_concat ho.events rfl) ho.timers ho.calls ho.main
      (fun _ h => h) (fun _ h => h) id id (fun _ h => Or.inl h)
    · unfold indexTokens
      simp only [List.countP_append, List.countP_singleton, EventOp.indexes_remove,
        Bool.false_eq_true, if_false]
      omega
    · -- the file's token becomes the event's
      rw [if_pos (Option.isSome_iff_ne_none.mpr hthere)] at hremovals
      unfold removeTokens
      simp only [GoMap.lookup_erase, if_true, Option.isSome_none, Bool.false_eq_true, if_false,
        List.countP_append, List.countP_singleton, EventOp.indexes_remove, Bool.not_false]
      omega
  | modify path f => exact ha.elim
  | rename old new => exact ha.elim

/-- A step of the event loop that touches neither catalog nor index. -/
theorem Once.loop {p : GoString} {m : Machine} (ho : m.Once p) {queue : List Event} {main : MainPC}
    {timers : List Timer} {byPath : GoMap GoString Nat}
    (hcalls : queue.countP (fun ev => ev.op.indexes) + (if main.scheduling then 1 else 0)
      + timers.countP Timer.armed + m.calls.length ≤ 1)
    (hremovals : (if (m.fs.lookup p).isSome then 1 else 0)
      + queue.countP (fun ev => !ev.op.indexes) + (if main.removing then 1 else 0) ≤ 1)
    (hevents : ∀ ev ∈ queue, ev.name = p) (htimers : ∀ tm ∈ timers, tm ∈ m.timers ∨ tm.path = p)
    (hmain : main.about p)
    (hfound : ∀ g, main = .delete g ∨ main = .indexRemove g →
      m.watched.catalog.localPathOf g = some p) :
    Once p { m with queue := queue, main := main, timers := timers, byPath := byPath } := by
  refine ho.shrink ho.wf hcalls hremovals hevents (fun tm htm => ?_) ho.calls hmain (fun _ h => h)
    (fun _ h => h) id id (fun g h => Or.inr (hfound g h))
  rcases htimers tm htm with hold | hnew
  · exact ho.timers tm hold
  · exact hnew

/-- A step of the event loop. -/
theorem once_main {p : GoString} {m t : Machine} (ho : m.Once p) {clk : Clock}
    (hs : LoopStep p clk m t) : t.Once p := by
  have hcalls := ho.calls_le
  have hremovals := ho.removals_le
  unfold indexTokens at hcalls
  unfold removeTokens at hremovals
  cases hs with
  | @receive ev queue hmain hq =>
    -- an event is received: its token goes to the loop
    have hname : ev.name = p := ho.events ev (by rw [hq]; exact List.mem_cons_self)
    have hrest : ∀ ev' ∈ queue, ev'.name = p :=
      fun ev' hev' => ho.events ev' (by rw [hq]; exact List.mem_cons_of_mem _ hev')
    rw [hmain, hq, List.countP_cons] at hcalls hremovals
    rw [hname]
    cases hop : ev.op.indexes with
    | true =>
      simp only [hop, Bool.not_true, Bool.false_eq_true, if_true, if_false, MainPC.scheduling,
        MainPC.removing] at hcalls hremovals
      refine ho.loop ?_ ?_ hrest (fun _ h => Or.inl h) rfl (fun g h => ?_)
      · show _ + 1 + _ + _ ≤ 1
        omega
      · show _ + _ + 0 ≤ 1
        omega
      · rcases h with h | h <;> cases h
    | false =>
      simp only [hop, Bool.not_false, Bool.false_eq_true, if_true, if_false, MainPC.scheduling,
        MainPC.removing] at hcalls hremovals
      refine ho.loop ?_ ?_ hrest (fun _ h => Or.inl h) rfl (fun g h => ?_)
      · show _ + 0 + _ + _ ≤ 1
        omega
      · show _ + _ + 1 ≤ 1
        omega
      · rcases h with h | h <;> cases h
  | schedule hmain =>
    obtain ⟨hcount, hpaths⟩ := schedule_timers m p
    rw [hmain] at hcalls hremovals
    rw [schedule_eq]
    simp only [MainPC.scheduling, if_true] at hcalls
    refine ho.loop ?_ hremovals ho.events hpaths trivial (fun g h => ?_)
    · show m.queue.countP _ + 0 + (m.schedule p).timers.countP _ + _ ≤ 1
      omega
    · rcases h with h | h <;> cases h
  | cancel hmain =>
    obtain ⟨hcount, hpaths⟩ := cancel_timers m p
    rw [hmain] at hcalls hremovals
    rw [cancel_eq]
    simp only [MainPC.scheduling, Bool.false_eq_true, if_false] at hcalls
    refine ho.loop ?_ hremovals ho.events hpaths rfl (fun g h => ?_)
    · show m.queue.countP _ + 0 + (m.cancel p).timers.countP _ + _ ≤ 1
      omega
    · rcases h with h | h <;> cases h
  | absent hmain hnone =>
    rw [hmain] at hcalls hremovals
    simp only [MainPC.removing, if_true] at hremovals
    refine ho.loop hcalls ?_ ho.events (fun _ h => Or.inl h) trivial (fun g h => ?_)
    · show _ + _ + 0 ≤ 1
      omega
    · rcases h with h | h <;> cases h
  | @found g hmain hg =>
    rw [hmain] at hcalls hremovals
    refine ho.loop hcalls hremovals ho.events (fun _ h => Or.inl h) trivial (fun g' h => ?_)
    rcases h with h | h
    · injection h with h
      rw [← h]
      exact hg
    · cases h
  | @delete g hmain =>
    have hcat := Store.deleteLocal_localPathOf ho.wf clk g
    rw [hmain] at hcalls hremovals
    refine ho.shrink (Op.apply_wf ho.wf (.deleteLocal clk g)) hcalls hremovals ho.events ho.timers
      ho.calls trivial (fun g' hg' => ?_) (fun _ h => h) id id (fun g' h => Or.inl (Or.inl ?_))
    · change (m.watched.catalog.deleteLocal clk g).1.localPathOf g' = some p at hg'
      rw [hcat] at hg'
      split at hg'
      next => cases hg'
      next => exact hg'
    · rcases h with h | h
      · cases h
      · injection h with h
        rw [← h]
        exact hmain
  | @indexRemove g hmain =>
    rw [hmain] at hcalls hremovals
    simp only [MainPC.removing, if_true] at hremovals
    refine ho.shrink ho.wf hcalls ?_ ho.events ho.timers ho.calls trivial (fun _ h => h)
      (fun g' hg' => ?_) id id (fun g' h => by rcases h with h | h <;> cases h)
    · show (if (m.fs.lookup p).isSome then 1 else 0) + m.queue.countP _ + 0 ≤ 1
      omega
    · change (AList.erase g m.watched.index).lookup g' = some p at hg'
      rw [GoMap.lookup_erase] at hg'
      split at hg'
      next => cases hg'
      next => exact hg'

/-- A timer fires. -/
theorem once_fire {p : GoString} {m : Machine} (ho : m.Once p) {i : Nat} {tm : Timer}
    (htm : m.timers[i]? = some tm) (harmed : tm.armed = true) :
    Once p { m with
      timers := m.timers.set i { tm with armed := false }
      calls := m.calls ++ [⟨tm.path, .lock⟩] } := by
  have hcalls := ho.calls_le
  have hpath : tm.path = p := ho.timers tm (List.mem_of_getElem? htm)
  have hcount := countP_set_add htm { tm with armed := false } Timer.armed
  rw [if_pos harmed] at hcount
  simp only [Bool.false_eq_true, if_false] at hcount
  unfold indexTokens at hcalls
  have hmem : ∀ {Q : Call → Prop}, (∃ c ∈ m.calls, Q c) → ∃ c ∈ m.calls ++ [⟨tm.path, .lock⟩], Q c :=
    fun ⟨c, hc, hq⟩ => ⟨c, List.mem_append_left _ hc, hq⟩
  refine ho.shrink ho.wf ?_ ho.removals_le ho.events (forall_mem_set ho.timers hpath)
    (forall_mem_concat ho.calls hpath) ho.main (fun _ h => h) (fun _ h => h) hmem hmem
    (fun _ h => Or.inl h)
  unfold indexTokens
  dsimp only
  rw [List.length_append, List.length_singleton]
  omega

/-- A step of the call; it is the only one, so what is recorded is its doing. -/
theorem once_call {p : GoString} {m t : Machine} (ho : m.Once p) {clk : Clock} {i : Nat} {c : Call}
    (hc : m.calls[i]? = some c) (hs : CallStep clk m i c t) : t.Once p := by
  have hpath : c.path = p := ho.calls c (List.mem_of_getElem? hc)
  have hcalls := ho.calls_le
  unfold indexTokens at hcalls
  have hpaths : ∀ pc, ∀ c' ∈ m.calls.set i ⟨c.path, pc⟩, c'.path = p :=
    fun pc => forall_mem_set ho.calls hpath
  have hset : ∀ pc, (⟨c.path, pc⟩ : Call) ∈ m.calls.set i ⟨c.path, pc⟩ :=
    fun pc => List.mem_of_getElem? (getElem?_set_of_getElem? hc)
  -- the call keeps its place, so the count stays
  have hcount : ∀ pc, m.queue.countP (fun ev => ev.op.indexes)
      + (if m.main.scheduling then 1 else 0) + m.timers.countP Timer.armed
      + (m.calls.set i ⟨c.path, pc⟩).length ≤ 1 := by
    intro pc
    rw [List.length_set]
    exact hcalls
  cases hs with
  | @put info g hpc hm =>
    have hnew : ∀ h, (m.watched.catalog.putLocal clk (newEntry c.path info g)).1.localPathOf h
        = some p → h = g := by
      intro h hh
      rw [Store.putLocal_localPathOf ho.wf clk (show (newEntry c.path info g).modTime.jsonOK = true
        from hm)] at hh
      split at hh
      next heq => exact heq
      next => exact absurd (ho.put h hh) (ho.not_reached hc (by rw [hpc]; rfl))
    exact {
      wf := Op.apply_wf ho.wf (.putLocal clk (newEntry c.path info g))
      calls_le := hcount .addHash
      removals_le := ho.removals_le
      events := ho.events
      timers := ho.timers
      calls := hpaths .addHash
      main := ho.main
      same := fun h h' hh hh' => (hnew h hh).trans (hnew h' hh').symm
      put := fun _ _ => ⟨_, hset .addHash, rfl⟩
      insert := fun h hh =>
        absurd (ho.insert h hh) (ho.not_reached hc (by rw [hpc]; rfl))
      found := fun _ _ => ⟨_, hset .addHash, rfl⟩ }
  | @insert g hpc =>
    exact {
      wf := ho.wf
      calls_le := hcount (.returned none)
      removals_le := ho.removals_le
      events := ho.events
      timers := ho.timers
      calls := hpaths (.returned none)
      main := ho.main
      same := ho.same
      put := fun _ _ => ⟨_, hset (.returned none), rfl⟩
      insert := fun _ _ => ⟨_, hset (.returned none), rfl⟩
      found := fun _ _ => ⟨_, hset (.returned none), rfl⟩ }
  | @quiet pc byPath passed hret hput hins hafter =>
    refine ho.shrink ho.wf (hcount pc) ho.removals_le ho.events ho.timers (hpaths pc) ho.main
      (fun _ h => h) (fun _ h => h) ?_ (fun h => absurd h (ho.not_reached hc hret))
      (fun _ h => Or.inl h)
    intro h
    obtain ⟨c', hc', hput⟩ := h
    rw [ho.single hc hc'] at hput
    exact ⟨_, hset pc, hafter hput⟩

theorem once_step {p : GoString} {m t : Machine} {a : Act} (ho : m.Once p) (ha : m.OneFile p a)
    (hs : Step m a t) : t.Once p := by
  cases hs with
  | change happly =>
    rw [if_pos (about_watching ho.main)]
    exact once_change ho ha happly _
  | main hs => exact once_main ho (hs.loopStep ho.wf ho.main)
  | fire htm harmed => exact once_fire ho htm harmed
  | call hc hret => exact once_call ho hc (callStep_next ho.wf _ _ hret)

/-! ## §3. What is recorded, the removal still finds. -/

/-- **Retractable**: a live entry with the path waits for the lookup or is about
to be deleted; a hash of the path in the index is that entry's, or is about to
be removed. -/
def Retractable (p : GoString) (m : Machine) : Prop :=
  (∀ g, m.watched.catalog.localPathOf g = some p → m.LookupAhead p ∨ m.main = .delete g)
    ∧ ∀ g, m.watched.index.lookup g = some p →
        (m.LookupAhead p ∧ m.watched.catalog.localPathOf g = some p)
          ∨ m.main = .delete g ∨ m.main = .indexRemove g

/-- Steps that leave catalog and index as they are, and the lookup ahead or not. -/
theorem retractable_congr {p : GoString} {m t : Machine} (hw : t.watched = m.watched)
    (hahead : t.LookupAhead p ↔ m.LookupAhead p)
    (hdelete : ∀ g, t.main = .delete g ↔ m.main = .delete g)
    (hremove : ∀ g, t.main = .indexRemove g ↔ m.main = .indexRemove g) :
    t.Retractable p ↔ m.Retractable p := by
  unfold Retractable
  simp only [hw, hahead, hdelete, hremove]

/-- While `Run` handles the removal, no other is on its way. -/
theorem Once.alone {p : GoString} {m : Machine} (ho : m.Once p) (hmain : m.main.removing = true) :
    m.fs.lookup p = none ∧ ¬ ∃ ev ∈ m.queue, ev.op.indexes = false := by
  have hremovals := ho.removals_le
  unfold removeTokens at hremovals
  rw [if_pos hmain] at hremovals
  constructor
  · by_contra hfs
    rw [if_pos (Option.isSome_iff_ne_none.mpr hfs)] at hremovals
    omega
  · intro h
    obtain ⟨ev, hev, hop⟩ := h
    have hpos : 0 < m.queue.countP (fun ev => !ev.op.indexes) :=
      List.countP_pos_iff.mpr ⟨ev, hev, by simp [hop]⟩
    omega

/-- Past its lookup, then, no lookup is ahead. -/
theorem Once.not_ahead {p : GoString} {m t : Machine} (ho : m.Once p)
    (hmain : m.main.removing = true) (hfs : t.fs = m.fs) (hq : t.queue = m.queue)
    (hcancel : t.main ≠ .cancel p) (hlookup : t.main ≠ .lookup p) : ¬ t.LookupAhead p := by
  obtain ⟨hnone, hev⟩ := ho.alone hmain
  unfold LookupAhead
  rw [hfs, hq]
  intro h
  rcases h with h | h | h | h
  · exact h hnone
  · exact hev h
  · exact hcancel h
  · exact hlookup h

theorem retractable_change {p : GoString} {m : Machine} {a : FsAct} {fs : Folder}
    {events : List Event} (ho : m.Once p) (ha : m.OneFile p (.change a))
    (happly : m.fs.apply a = some (fs, events)) (passed : List GoString) :
    Retractable p { m with fs := fs, queue := m.queue ++ events, passed := passed }
      ↔ m.Retractable p := by
  cases a with
  | create path f =>
    -- nothing is recorded yet
    obtain ⟨_, _, _, _, hnone⟩ := ha
    have hcat : ∀ g, m.watched.catalog.localPathOf g ≠ some p := by
      intro g hg
      obtain ⟨c, hc, _⟩ := ho.put g hg
      rw [hnone] at hc
      cases hc
    have hidx : ∀ g, m.watched.index.lookup g ≠ some p := by
      intro g hg
      obtain ⟨c, hc, _⟩ := ho.insert g hg
      rw [hnone] at hc
      cases hc
    exact iff_of_true ⟨fun g hg => absurd hg (hcat g), fun g hg => absurd hg (hidx g)⟩
      ⟨fun g hg => absurd hg (hcat g), fun g hg => absurd hg (hidx g)⟩
  | remove path =>
    change path = p at ha
    subst ha
    obtain ⟨hthere, rfl, rfl⟩ := apply_remove happly
    refine retractable_congr rfl (iff_of_true ?_ (Or.inl hthere)) (fun _ => Iff.rfl)
      (fun _ => Iff.rfl)
    exact Or.inr (Or.inl ⟨_, List.mem_append_right _ (List.mem_singleton.mpr rfl), rfl⟩)
  | modify path f => exact ha.elim
  | rename old new => exact ha.elim

theorem retractable_main {p : GoString} {m t : Machine} (ho : m.Once p) {clk : Clock}
    (hs : LoopStep p clk m t) : t.Retractable p ↔ m.Retractable p := by
  cases hs with
  | @receive ev queue hmain hq =>
    have hname : ev.name = p := ho.events ev (by rw [hq]; exact List.mem_cons_self)
    rw [hname]
    cases hop : ev.op.indexes with
    | true =>
      refine retractable_congr rfl ?_ (fun g => by simp [hmain]) (fun g => by simp [hmain])
      simp only [LookupAhead, hmain, hq, List.exists_mem_cons_iff, hop]
      simp
    | false =>
      refine retractable_congr rfl ?_ (fun g => by simp [hmain]) (fun g => by simp [hmain])
      refine iff_of_true (Or.inr (Or.inr (Or.inl rfl))) (Or.inr (Or.inl ⟨ev, ?_, hop⟩))
      rw [hq]
      exact List.mem_cons_self
  | schedule hmain =>
    rw [schedule_eq]
    refine retractable_congr rfl ?_ (fun g => by simp [hmain]) (fun g => by simp [hmain])
    simp [LookupAhead, hmain]
  | cancel hmain =>
    rw [cancel_eq]
    refine retractable_congr rfl ?_ (fun g => by simp [hmain]) (fun g => by simp [hmain])
    exact iff_of_true (Or.inr (Or.inr (Or.inr rfl))) (Or.inr (Or.inr (Or.inl hmain)))
  | absent hmain hnone =>
    -- the lookup finds nothing: then nothing may be recorded
    unfold Retractable
    simp only [hmain, hnone, false_imp_iff, and_false, reduceCtorEq, or_self]
  | @found g hmain hg =>
    -- the lookup finds the only entry there is
    have hahead : m.LookupAhead p := Or.inr (Or.inr (Or.inr hmain))
    have hnot := ho.not_ahead (t := { m with main := .delete g }) (by rw [hmain]; rfl) rfl rfl
      (by simp) (by simp)
    have hsame : ∀ g', m.watched.catalog.localPathOf g' = some p ↔ g = g' :=
      fun g' => ⟨fun h => ho.same g g' hg h, fun h => h ▸ hg⟩
    unfold Retractable
    simp only [hnot, hahead, hmain, hsame, MainPC.delete.injEq, reduceCtorEq, false_and, true_and,
      false_or, or_false, imp_self, imp_true_iff]
  | @delete g hmain =>
    -- the entry goes; its hash is next
    have hrem : m.main.removing = true := by
      rw [hmain]
      rfl
    have hnot := ho.not_ahead hrem rfl rfl (by simp [hmain]) (by simp [hmain])
    have hnot' := ho.not_ahead (t := { m with
      watched := { m.watched with catalog := (m.watched.catalog.deleteLocal clk g).1 }
      main := .indexRemove g }) hrem rfl rfl (by simp) (by simp)
    unfold Retractable
    simp only [hnot, hnot', hmain, Store.deleteLocal_localPathOf ho.wf, MainPC.delete.injEq,
      MainPC.indexRemove.injEq, reduceCtorEq, false_and, false_or, or_false]
    refine and_congr ?_ Iff.rfl
    grind
  | @indexRemove g hmain =>
    have hrem : m.main.removing = true := by
      rw [hmain]
      rfl
    have hnot := ho.not_ahead hrem rfl rfl (by simp [hmain]) (by simp [hmain])
    have hnot' := ho.not_ahead (t := { m with
      watched := { m.watched with index := m.watched.index.erase g }, main := .select }) hrem rfl rfl
      (by simp) (by simp)
    unfold Retractable
    simp only [hnot, hnot', hmain, GoMap.lookup_erase, MainPC.indexRemove.injEq, reduceCtorEq,
      false_and, false_or, or_false]
    refine and_congr Iff.rfl ?_
    grind

/-- `PutLocal` and the insert decide; they are in time or too late for good. -/
theorem retractable_call {p : GoString} {m t : Machine} (ho : m.Once p) {clk : Clock} {i : Nat}
    {c : Call} (hc : m.calls[i]? = some c) (hs : CallStep clk m i c t) :
    (t.Retractable p → m.Retractable p)
      ∧ (m.Retractable p → (t.Retractable p ↔ m.InTime p (.call i clk))) := by
  have hpath : c.path = p := ho.calls c (List.mem_of_getElem? hc)
  have hin : m.InTime p (.call i clk) ↔ match c.pc with
      | .put info _ => info.modTime.jsonOK = true → validUTF8 p = true → m.LookupAhead p
      | .insert fileID =>
        (m.LookupAhead p ∧ m.watched.catalog.localPathOf fileID = some p)
          ∨ m.main = .delete fileID ∨ m.main = .indexRemove fileID
      | _ => True := by
    refine ⟨fun h => h c hc, fun h c' hc' => ?_⟩
    rw [hc] at hc'
    rw [← Option.some.inj hc']
    exact h
  have hidx : c.pc.isReturned = false → ∀ g, m.watched.index.lookup g ≠ some p :=
    fun hret g hg => ho.not_reached hc hret (ho.insert g hg)
  cases hs with
  | @put info g hpc hm =>
    -- before the put nothing is recorded, and nothing is being deleted
    have hbefore : ¬ ∃ c' ∈ m.calls, c'.pc.afterPut = true :=
      ho.not_reached hc (by rw [hpc]; rfl)
    have hcat : ∀ g, m.watched.catalog.localPathOf g ≠ some p := fun g hg => hbefore (ho.put g hg)
    have hidx := hidx (by rw [hpc]; rfl)
    have hdelete : m.main ≠ .delete g := fun h => hbefore (ho.found g (Or.inl h))
    refine ⟨fun _ => ⟨fun g hg => absurd hg (hcat g), fun g hg => absurd hg (hidx g)⟩, fun _ => ?_⟩
    rw [hin, hpc]
    have hstored : ∀ h, (m.watched.catalog.putLocal clk (newEntry c.path info g)).1.localPathOf h
        = some p ↔ h = g ∧ validUTF8 p = true := by
      intro h
      rw [Store.putLocal_localPathOf ho.wf clk (show (newEntry c.path info g).modTime.jsonOK = true
        from hm), hpath]
      split
      next heq =>
        simp [newEntry, validUTF8, show h = g from heq]
      next hne => simp [hcat h, show h ≠ g from hne]
    constructor
    · intro h _ hvalid
      rcases h.1 g ((hstored g).mpr ⟨rfl, hvalid⟩) with hahead | hdel
      · exact hahead
      · exact absurd hdel hdelete
    · intro h
      refine ⟨fun g' hg' => Or.inl ?_, fun g' hg' => absurd hg' (hidx g')⟩
      exact h hm ((hstored g').mp hg').2
  | @insert g hpc =>
    have hidx := hidx (by rw [hpc]; rfl)
    have hlookup : ∀ h, (m.watched.index.insert g c.path).lookup h = some p ↔ h = g := by
      intro h
      rw [GoMap.lookup_insert, hpath]
      split
      next heq => simp [heq]
      next hne => simp [hidx h, hne]
    refine ⟨fun h => ⟨h.1, fun g' hg' => absurd hg' (hidx g')⟩, fun hr => ?_⟩
    rw [hin, hpc]
    constructor
    · intro h
      exact h.2 g ((hlookup g).mpr rfl)
    · intro h
      refine ⟨hr.1, fun g' hg' => ?_⟩
      rw [(hlookup g').mp hg']
      exact h
  | @quiet pc byPath passed hret hput hins hafter =>
    have hquiet : m.InTime p (.call i clk) := by
      rw [hin]
      cases hpc : c.pc with
      | put info g => exact fun h => absurd h (hput info g hpc)
      | insert g => exact absurd hpc (hins g)
      | lock => trivial
      | stat => trivial
      | hash info => trivial
      | addHash => trivial
      | returned err => trivial
    exact ⟨id, fun hr => iff_of_true hr hquiet⟩

/-- **One step** loses what can be retracted only by recording too late, and
gets nothing back. -/
theorem retractable_step {p : GoString} {m t : Machine} {a : Act} (ho : m.Once p)
    (ha : m.OneFile p a) (hs : Step m a t) :
    (t.Retractable p → m.Retractable p)
      ∧ (m.Retractable p → (t.Retractable p ↔ m.InTime p a)) := by
  cases hs with
  | change happly =>
    rw [if_pos (about_watching ho.main)]
    have h := retractable_change ho ha happly
    exact ⟨(h _).mp, fun hr => iff_of_true ((h _).mpr hr) trivial⟩
  | main hs =>
    have h := retractable_main ho (hs.loopStep ho.wf ho.main)
    exact ⟨h.mp, fun hr => iff_of_true (h.mpr hr) trivial⟩
  | fire htm harmed => exact ⟨id, fun hr => iff_of_true hr trivial⟩
  | call hc hret => exact retractable_call ho hc (callStep_next ho.wf _ _ hret)

/-! ## §4. The whole run. -/

theorem clean_iff {p : GoString} {m : Machine} (hwf : m.watched.catalog.db.WF) :
    m.Clean p ↔ (∀ g, m.watched.catalog.localPathOf g ≠ some p)
      ∧ ∀ g, m.watched.index.lookup g ≠ some p := by
  refine and_congr ⟨fun h g hg => ?_, fun h e he hpath => ?_⟩ Iff.rfl
  · obtain ⟨e, he, _, hpath⟩ := (Store.localPathOf_iff_listLocal hwf).mp hg
    exact h e he hpath
  · exact h e.fileID ((Store.localPathOf_iff_listLocal hwf).mpr ⟨e, he, rfl, hpath⟩)

/-- At the end there is nothing that could still be retracted. -/
theorem retractable_iff_clean {p : GoString} {m : Machine} (ho : m.Once p) (hover : m.Over p) :
    m.Retractable p ↔ m.Clean p := by
  rw [clean_iff ho.wf]
  have hnot : ¬ m.LookupAhead p := by
    simp [LookupAhead, hover.gone, hover.main, hover.queue]
  unfold Retractable
  simp only [hnot, hover.main, reduceCtorEq, false_and, or_self, imp_false, ne_eq]

/-- **The file is gone from catalog and index exactly if its call recorded in
time.**  The watcher is in its event loop over any folder without the path and
over the catalog that any operations have left, with nothing of the path in it;
the file is created once and removed; folder, timers, calls and event loop take
their steps in any order, until the Remove is handled and nothing is under way. -/
theorem clean_after_removal_iff {selfID : NodeID} {ops : List Op} {w : Watched} {fs : Folder}
    {p : GoString} {as : List Act} {t : Machine}
    (hw : w.catalog = Op.applyAll (Store.openFresh selfID) ops) (hfs : fs.lookup p = none)
    (hclean : (watchingFrom fs w).Clean p) (hone : StepsMeet step (OneFile p) (watchingFrom fs w) as)
    (hrun : run step (watchingFrom fs w) as = some t) (hover : t.Over p) :
    t.Clean p ↔ StepsMeet step (InTime p) (watchingFrom fs w) as := by
  have hwf : w.catalog.db.WF := by
    rw [hw]
    exact Op.applyAll_wf ops DB.wf_empty
  have hstart := once_watchingFrom hfs hwf hclean
  have hstep : ∀ (m : Machine) (a : Act) (m' : Machine), m.Once p → m.OneFile p a →
      m.step a = some m' → m'.Once p := fun _ _ _ ho ha hs => once_step ho ha (step_sound hs)
  have hend : t.Once p := run_invariant_within hstep hone hstart hrun
  have hnone := (clean_iff (m := watchingFrom fs w) hwf).mp hclean
  calc t.Clean p
      ↔ t.Retractable p := (retractable_iff_clean hend hover).symm
    _ ↔ StatesMeet step (Retractable p) _ as :=
        (statesMeet_iff_last_within (J := Once p) hstep
          (fun _ _ _ ho ha hs => (retractable_step ho ha (step_sound hs)).1) hone hstart hrun).symm
    _ ↔ StepsMeet step (InTime p) _ as :=
        statesMeet_iff_stepsMeet_within (J := Once p) hstep
          (fun _ _ _ ho hr ha hs => (retractable_step ho ha (step_sound hs)).2 hr) hone hstart
          ⟨fun g hg => absurd hg (hnone.1 g), fun g hg => absurd hg (hnone.2 g)⟩

/-! ## §5. A call that outlives the removal. -/

instance (m : Machine) (p : GoString) : Decidable (m.LookupAhead p) :=
  inferInstanceAs (Decidable (_ ∨ _))

instance (m : Machine) : Decidable m.Fresh :=
  inferInstanceAs (Decidable (_ ∧ _))

instance (p : GoString) (m : Machine) (a : Act) : Decidable (m.OneFile p a) := by
  unfold OneFile
  split <;> infer_instance

/-- `a.txt` is created, its timer fires and the call runs to its end; then the
file is removed. -/
def indexedThenRemoved : List Act :=
  [.change (.create (ascii "/Kin/a.txt") (textFile "one")), .main Clock.epoch, .main Clock.epoch,
    .fire 0, .call 0 Clock.epoch, .call 0 Clock.epoch, .call 0 Clock.epoch, .call 0 Clock.epoch,
    .call 0 Clock.epoch, .call 0 Clock.epoch, .change (.remove (ascii "/Kin/a.txt")),
    .main Clock.epoch, .main Clock.epoch, .main Clock.epoch, .main Clock.epoch, .main Clock.epoch]

/-- `a.txt` is removed, and its Remove handled, between the call's hash and its
`PutLocal`. -/
def removedBeforePut : List Act :=
  [.change (.create (ascii "/Kin/a.txt") (textFile "one")), .main Clock.epoch, .main Clock.epoch,
    .fire 0, .call 0 Clock.epoch, .call 0 Clock.epoch, .call 0 Clock.epoch,
    .change (.remove (ascii "/Kin/a.txt")), .main Clock.epoch, .main Clock.epoch,
    .main Clock.epoch, .call 0 Clock.epoch, .call 0 Clock.epoch]

/-- A life of the file after which nothing of it is left. -/
theorem clean_after_removal_indexed :
    ∃ t ∈ run step (watchingFrom ∅ emptyWatched) indexedThenRemoved,
      t.Over (ascii "/Kin/a.txt")
        ∧ (t.Clean (ascii "/Kin/a.txt") ↔ StepsMeet step (InTime (ascii "/Kin/a.txt"))
          (watchingFrom ∅ emptyWatched) indexedThenRemoved) := by
  have hend : ∃ t ∈ run step (watchingFrom ∅ emptyWatched) indexedThenRemoved,
      t.fs.lookup (ascii "/Kin/a.txt") = none ∧ t.main = .select ∧ t.queue = []
        ∧ (∀ tm ∈ t.timers, tm.armed = false) ∧ ∀ c ∈ t.calls, c.pc.isReturned = true := by
    decide +kernel
  obtain ⟨t, ht, hgone, hmain, hqueue, htimers, hcalls⟩ := hend
  have hover : t.Over (ascii "/Kin/a.txt") := ⟨hgone, hmain, hqueue, htimers, hcalls⟩
  have hclean : (watchingFrom ∅ emptyWatched).Clean (ascii "/Kin/a.txt") :=
    ⟨by decide +kernel, fun h hh => by cases hh⟩
  have hw : emptyWatched.catalog = Op.applyAll (Store.openFresh (Bytes.lit32 0xAA)) [] := rfl
  exact ⟨t, ht, hover, clean_after_removal_iff hw rfl hclean (by decide +kernel) ht hover⟩

/-- The Remove is handled and nothing is under way, but the removed file is
listed as a live local file. -/
theorem entry_outlives_removal :
    ∃ t ∈ run step (watchingFrom ∅ emptyWatched) removedBeforePut,
      t.Over (ascii "/Kin/a.txt")
        ∧ StepsMeet step (OneFile (ascii "/Kin/a.txt")) (watchingFrom ∅ emptyWatched) removedBeforePut
        ∧ t.watched.catalog.listLocal.map Entry.localPath = [ascii "/Kin/a.txt"]
        ∧ ¬ t.Clean (ascii "/Kin/a.txt") := by
  have hend : ∃ t ∈ run step (watchingFrom ∅ emptyWatched) removedBeforePut,
      (t.fs.lookup (ascii "/Kin/a.txt") = none ∧ t.main = .select ∧ t.queue = []
        ∧ (∀ tm ∈ t.timers, tm.armed = false) ∧ ∀ c ∈ t.calls, c.pc.isReturned = true)
        ∧ t.watched.catalog.listLocal.map Entry.localPath = [ascii "/Kin/a.txt"] := by
    decide +kernel
  obtain ⟨t, ht, ⟨hgone, hmain, hqueue, htimers, hcalls⟩, hlisted⟩ := hend
  refine ⟨t, ht, ⟨hgone, hmain, hqueue, htimers, hcalls⟩, by decide +kernel, hlisted,
    fun hclean => ?_⟩
  have hmem : ascii "/Kin/a.txt" ∈ t.watched.catalog.listLocal.map Entry.localPath := by
    rw [hlisted]
    exact List.mem_singleton.mpr rfl
  obtain ⟨e, he, hpath⟩ := List.mem_map.mp hmem
  exact hclean.1 e he hpath

end Machine

end Kin.Watcher
