/-
  Kin.Tui.Freshness

  **DOES THE LIST SHOW THE CATALOG?**

  A change of the catalog is announced by an event, the event makes `Update` fetch
  the catalog, and the answer replaces the list:

      change ──▶ announce ──▶ read ──▶ waitForEvent ──▶ fetchCatalog ──▶ answer ──▶ list

  Changes, announcements and fetches overlap in any way.  What may go wrong on
  the way is in `Orderly`: an announcement that is never made, a lost connection, a
  request that fails, an answer that overtakes a newer one, and an announcement that
  is dropped.  The last is harmless as long as ANOTHER announcement waits in the
  full channel: the fetch it leads to comes after the change.

    • `update_shown`            — only an answer changes the list,
    • `shows_catalog_at_rest`   — without these, the list is the catalog whenever
      nothing is under way.
-/
import Kin.Tui.Program

namespace Kin.Tui

open Kin.Lib Kin.Daemon

/-! ## §1. What changes the list. -/

/-- The files of an answer. -/
def Msg.answer? : Msg → Option (List FileInfo)
  | catalogResult (.ok files) => some files
  | _ => none

namespace CatalogModel

theorem toggleSelection_files (m : CatalogModel) : m.toggleSelection.files = m.files := by
  unfold toggleSelection
  split
  · rfl
  · split
    · rfl
    · split <;> rfl

theorem updateSearch_files (lower : GoString → GoString) (m : CatalogModel) (k : KeyMsg) :
    (m.updateSearch lower k).files = m.files := by
  unfold updateSearch
  split
  · rfl
  split
  · split <;> rfl
  split
  · rfl
  split
  · rfl
  split <;> rfl

/-- No key changes the files. -/
theorem update_files (lower : GoString → GoString) (m : CatalogModel) (k : KeyMsg) :
    (m.update lower k).files = m.files := by
  unfold update
  split
  · exact updateSearch_files lower m k
  split
  · rfl
  split
  · rfl
  split
  · rfl
  split
  · rfl
  split
  · rfl
  split
  · rfl
  split
  · rfl
  split
  · exact toggleSelection_files m
  · rfl

end CatalogModel

namespace Model

theorem updatePanel_files (libs : Libs) (m : Model) (k : KeyMsg) :
    (m.updatePanel libs k).catalog.files = m.catalog.files := by
  unfold updatePanel
  split
  · exact m.catalog.update_files libs.lower k
  · dsimp only
    split
    · split <;> split <;> (try split) <;> rfl
    · split <;> (try split) <;> rfl

theorem handleKey_files (libs : Libs) (m : Model) (k : KeyMsg) :
    (m.handleKey libs k).1.catalog.files = m.catalog.files := by
  unfold handleKey
  split
  · rfl
  · split
    · rfl
    · split
      · rfl
      split
      · rfl
      split
      · rfl
      split
      · rfl
      split
      · unfold startDownloads
        split <;> rfl
      split
      · rfl
      split
      · rfl
      · exact m.updatePanel_files libs k

/-- **Only an answer changes the list**, and it replaces it. -/
theorem update_shown (libs : Libs) (m : Model) (msg : Msg) :
    (m.update libs msg).1.catalog.files = msg.answer?.getD m.catalog.files := by
  have hoverlay : ∀ r, (m.handleOverlayResult libs r).1.catalog.files = m.catalog.files := by
    intro r
    unfold handleOverlayResult
    split <;> rfl
  cases msg with
  | key k => exact m.handleKey_files libs k
  | daemonEvent ev => cases ev <;> rfl
  | inviteResult r => exact hoverlay _
  | joinResult r => exact hoverlay _
  | downloadResult fileID err => rfl
  | windowSize width height => rfl
  | statusResult r => cases r <;> rfl
  | peersResult r => cases r <;> rfl
  | catalogResult r => cases r <;> rfl
  | daemonDisconnected => rfl

end Model

/-! ## §2. Nothing goes wrong on the way. -/

namespace Program

/-- The answers that `Update` has not handled, oldest first. -/
def answers (s : Program) : List (List FileInfo) := s.inbox.filterMap Msg.answer?

/-- The steps that keep the list coming. -/
def orderly (s : Program) : ProgramAct → Bool
  | .changeQuietly _ => false
  | .hangup => false
  | .finish .fetchCatalog (.failed _) => false
  -- an announcement is dropped only if another one waits in the channel
  | .read => decide (s.socket.head? = some .catalogUpdated →
      s.ch.length < eventBuffer ∨ .catalogUpdated ∈ s.ch)
  -- an answer does not overtake an older one
  | .handle i => decide (((s.inbox[i]?).bind Msg.answer?).isSome →
      (s.inbox.take i).filterMap Msg.answer? = [])
  | _ => true

/-- The step is one of them. -/
def Orderly (s : Program) (a : ProgramAct) : Prop := s.orderly a = true

instance Orderly.decidable (s : Program) (a : ProgramAct) : Decidable (s.Orderly a) :=
  inferInstanceAs (Decidable (s.orderly a = true))

/-- Nothing is under way but the wait for the next event. -/
def Resting (s : Program) : Prop :=
  s.unsent = 0 ∧ s.socket = [] ∧ s.ch = [] ∧ s.inbox = [] ∧ .fetchCatalog ∉ s.cmds

/-- At rest the list is the catalog. -/
def UpToDate (s : Program) : Prop := s.Resting → s.model.catalog.files = s.files

/-- A fetch is still to come. -/
inductive Pending (s : Program) : Prop where
  | unsent (h : 0 < s.unsent)
  | socket (h : .catalogUpdated ∈ s.socket)
  | channel (h : .catalogUpdated ∈ s.ch)
  | inbox (h : .daemonEvent .catalogUpdated ∈ s.inbox)
  | fetch (h : .fetchCatalog ∈ s.cmds)

/-- What the list will be once the answers are handled. -/
def latest (s : Program) : List FileInfo := s.answers.getLast?.getD s.model.catalog.files

/-- The invariant: the latest answer is the catalog, or a fetch is to come. -/
structure Following (s : Program) : Prop where
  opened : s.closed = false
  latest : s.latest = s.files ∨ s.Pending

variable {libs : ProgramLibs} {s s' : Program}

theorem following_new (files : List FileInfo) : Following (new files) := by
  refine ⟨rfl, Or.inr (.fetch ?_)⟩
  show Cmd.fetchCatalog ∈ Model.init
  decide

theorem Following.upToDate (h : Following s) : UpToDate s := by
  intro ⟨hunsent, hsocket, hch, hinbox, hcmds⟩
  rcases h.latest with hlatest | hpending
  · unfold Program.latest answers at hlatest
    rw [hinbox] at hlatest
    exact hlatest
  · cases hpending with
    | unsent h => omega
    | socket h =>
      rw [hsocket] at h
      cases h
    | channel h =>
      rw [hch] at h
      cases h
    | inbox h =>
      rw [hinbox] at h
      cases h
    | fetch h => exact absurd h hcmds

/-- What a step may do to the places where a fetch is prepared. -/
theorem Pending.mono (h : s.Pending) (hunsent : s.unsent ≤ s'.unsent)
    (hsocket : .catalogUpdated ∈ s.socket → s'.Pending)
    (hch : .catalogUpdated ∈ s.ch → s'.Pending)
    (hinbox : .daemonEvent .catalogUpdated ∈ s.inbox → s'.Pending)
    (hcmds : .fetchCatalog ∈ s.cmds → s'.Pending) : s'.Pending := by
  cases h with
  | unsent h => exact .unsent (Nat.lt_of_lt_of_le h hunsent)
  | socket h => exact hsocket h
  | channel h => exact hch h
  | inbox h => exact hinbox h
  | fetch h => exact hcmds h

/-! ## §3. Step by step. -/

/-- `Update` on a message that is no answer leaves the latest answer alone. -/
theorem latest_update {msg : Msg} (hmsg : msg.answer? = none) :
    (s.update libs msg).latest = s.latest := by
  unfold Program.latest
  show s.answers.getLast?.getD (s.model.update libs.toLibs msg).1.catalog.files
    = s.answers.getLast?.getD s.model.catalog.files
  rw [Model.update_shown, hmsg]
  rfl

theorem Pending.update {msg : Msg} (h : s.Pending) : (s.update libs msg).Pending :=
  h.mono (Nat.le_refl _) (fun h => .socket h) (fun h => .channel h) (fun h => .inbox h)
    (fun h => .fetch (List.mem_append_left _ h))

theorem Following.push (h : Following s) (ev : Event) : Following (s.push ev) := by
  unfold Program.push
  rw [if_neg (by rw [h.opened]; exact Bool.false_ne_true)]
  refine ⟨h.opened, ?_⟩
  rcases h.latest with hlatest | hpending
  · exact Or.inl hlatest
  · exact Or.inr (hpending.mono (Nat.le_refl _) (fun h => .socket (List.mem_append_left _ h))
      (fun h => .channel h) (fun h => .inbox h) (fun h => .fetch h))

theorem Following.announce (h : Following s) (unsent : Nat) :
    Following { s.push .catalogUpdated with unsent := unsent } := by
  refine ⟨(h.push .catalogUpdated).opened, Or.inr (.socket ?_)⟩
  show Event.catalogUpdated ∈ (s.push .catalogUpdated).socket
  unfold Program.push
  rw [if_neg (by rw [h.opened]; exact Bool.false_ne_true)]
  exact List.mem_append_right _ (List.mem_singleton.mpr rfl)

theorem Following.read (h : Following s) (ho : s.Orderly .read) {ev : Event} {rest : List Event}
    (hsocket : s.socket = ev :: rest) :
    Following { s with
      socket := rest
      ch := if s.ch.length < eventBuffer then s.ch ++ [ev] else s.ch
      reads := s.reads ++ [(ev, s.ch.length)] } := by
  refine ⟨h.opened, ?_⟩
  rcases h.latest with hlatest | hpending
  · exact Or.inl hlatest
  refine Or.inr (hpending.mono (Nat.le_refl _) (fun hmem => ?_) (fun hmem => .channel ?_)
    (fun hmem => .inbox hmem) (fun hmem => .fetch hmem))
  · rw [hsocket] at hmem
    rcases List.mem_cons.mp hmem with rfl | hmem
    · -- in the channel now, or dropped, but there is another one
      refine .channel ?_
      show Event.catalogUpdated ∈ if _ then _ else _
      split
      next => exact List.mem_append_right _ (List.mem_singleton.mpr rfl)
      next hfull => exact (of_decide_eq_true ho (by rw [hsocket]; rfl)).resolve_left hfull
    · exact .socket hmem
  · show Event.catalogUpdated ∈ if _ then _ else _
    split
    · exact List.mem_append_left _ hmem
    · exact hmem

theorem Following.update (h : Following s) {msg : Msg} (hmsg : msg.answer? = none) :
    Following (s.update libs msg) := by
  refine ⟨h.opened, ?_⟩
  rcases h.latest with hlatest | hpending
  · refine Or.inl ?_
    rw [latest_update hmsg]
    exact hlatest
  · exact Or.inr hpending.update

/-- The first of the answers is handled. -/
theorem filterMap_eq_cons_eraseIdx {α β : Type*} {f : α → Option β} {l : List α} {i : Nat}
    {x : α} {y : β} (hi : l[i]? = some x) (hx : f x = some y)
    (hfirst : (l.take i).filterMap f = []) :
    l.filterMap f = y :: (l.eraseIdx i).filterMap f := by
  induction l generalizing i with
  | nil => cases hi
  | cons z l ih =>
    cases i with
    | zero =>
      have hz : z = x := Option.some.inj hi
      rw [List.eraseIdx_cons_zero, hz, List.filterMap_cons_some hx]
    | succ i =>
      have hi : l[i]? = some x := hi
      rw [List.take_succ_cons, List.filterMap_cons] at hfirst
      split at hfirst
      next hz =>
        rw [List.eraseIdx_cons_succ, List.filterMap_cons_none hz, List.filterMap_cons_none hz]
        exact ih hi hfirst
      next => cases hfirst

/-- A message leaves the inbox; another announcement stays. -/
theorem Pending.eraseIdx {i : Nat} {msg : Msg} (h : s.Pending) (hi : s.inbox[i]? = some msg)
    (hmsg : msg ≠ .daemonEvent .catalogUpdated) :
    ({ s with inbox := s.inbox.eraseIdx i } : Program).Pending := by
  refine h.mono (Nat.le_refl _) (fun h => .socket h) (fun h => .channel h) (fun h => .inbox ?_)
    (fun h => .fetch h)
  rcases List.mem_cons.mp ((inbox_perm hi).mem_iff.mpr h) with heq | hmem
  · exact absurd heq.symm hmsg
  · exact hmem

/-- A message that is no answer and no announcement. -/
theorem Following.handleOther (h : Following s) {i : Nat} {msg : Msg}
    (hi : s.inbox[i]? = some msg) (hans : msg.answer? = none)
    (hev : msg ≠ .daemonEvent .catalogUpdated) :
    Following { s.update libs msg with inbox := s.inbox.eraseIdx i } := by
  have hupd : Following (s.update libs msg) := h.update hans
  obtain ⟨hopen, hlatest⟩ := hupd
  refine ⟨hopen, ?_⟩
  rcases hlatest with hlatest | hpending
  · refine Or.inl (Eq.trans ?_ hlatest)
    unfold Program.latest answers
    show ((s.inbox.eraseIdx i).filterMap Msg.answer?).getLast?.getD _ = _
    rw [filterMap_eraseIdx hi hans]
    rfl
  · exact Or.inr (hpending.eraseIdx hi hev)

theorem Following.handle (h : Following s) {i : Nat} {msg : Msg} (ho : s.Orderly (.handle i))
    (hi : s.inbox[i]? = some msg) :
    Following { s.update libs msg with inbox := s.inbox.eraseIdx i } := by
  by_cases hev : msg = .daemonEvent .catalogUpdated
  · -- the announcement becomes a fetch
    subst hev
    refine ⟨h.opened, Or.inr (.fetch (List.mem_append_right _ ?_))⟩
    show Cmd.fetchCatalog ∈ [Cmd.fetchCatalog, Cmd.waitForEvent]
    decide
  cases hans : msg.answer? with
  | none => exact h.handleOther hi hans hev
  | some files =>
    -- the oldest answer: what comes after it is still the latest
    have hfirst := of_decide_eq_true ho (by rw [hi]; simp [hans])
    have hanswers := filterMap_eq_cons_eraseIdx hi hans hfirst
    refine ⟨h.opened, ?_⟩
    rcases h.latest with hlatest | hpending
    · refine Or.inl (Eq.trans ?_ hlatest)
      unfold Program.latest answers
      show ((s.inbox.eraseIdx i).filterMap Msg.answer?).getLast?.getD
          (s.model.update libs.toLibs msg).1.catalog.files
        = (s.inbox.filterMap Msg.answer?).getLast?.getD s.model.catalog.files
      rw [hanswers, Model.update_shown, hans, List.getLast?_cons]
      rfl
    · exact Or.inr (hpending.update.eraseIdx (s := s.update libs msg) hi hev)

/-- Only `fetchCatalog` returns an answer. -/
theorem answer?_result {c : Cmd} {ans : Answer} {msg : Option Msg} (hc : c ≠ .fetchCatalog)
    (hres : s.result c ans = some msg) : msg.toList.filterMap Msg.answer? = [] := by
  cases returns_of_result hres with
  | fetchCatalog r => exact absurd rfl hc
  | _ => rfl

/-- An event leaves the channel for the inbox. -/
theorem channel_result {c : Cmd} {ans : Answer} {msg : Option Msg}
    (hres : s.result c ans = some msg) (hmem : Event.catalogUpdated ∈ s.ch) :
    .catalogUpdated ∈ (if c = .waitForEvent then s.ch.tail else s.ch)
      ∨ .daemonEvent .catalogUpdated ∈ s.inbox ++ msg.toList := by
  by_cases hc : c = .waitForEvent
  · subst hc
    rw [if_pos rfl]
    rcases result_waitForEvent hres with ⟨ev, rest, hch, rfl⟩ | ⟨hch, -⟩
    · rw [hch] at hmem ⊢
      rcases List.mem_cons.mp hmem with rfl | hmem
      · exact Or.inr (List.mem_append_right _ (List.mem_singleton.mpr rfl))
      · exact Or.inl hmem
    · rw [hch] at hmem
      cases hmem
  · rw [if_neg hc]
    exact Or.inl hmem

theorem Following.finish (h : Following s) {c : Cmd} {ans : Answer} {msg : Option Msg}
    {stopped : Bool} (ho : s.Orderly (.finish c ans)) (hres : s.result c ans = some msg) :
    Following { s with
      cmds := s.cmds.erase c
      inbox := s.inbox ++ msg.toList
      ch := if c = .waitForEvent then s.ch.tail else s.ch
      stopped := stopped } := by
  refine ⟨h.opened, ?_⟩
  by_cases hfetch : c = .fetchCatalog
  · -- the answer is the catalog of this moment
    subst hfetch
    cases ans with
    | done =>
      cases hres
      refine Or.inl ?_
      unfold Program.latest answers
      show ((s.inbox ++ [Msg.catalogResult (.ok s.files)]).filterMap
        Msg.answer?).getLast?.getD _ = s.files
      rw [List.filterMap_append]
      exact congrArg (·.getD s.model.catalog.files) List.getLast?_concat
    | failed err => cases ho
    | _ => cases hres
  · rcases h.latest with hlatest | hpending
    · refine Or.inl (Eq.trans ?_ hlatest)
      unfold Program.latest answers
      show ((s.inbox ++ msg.toList).filterMap Msg.answer?).getLast?.getD _ = _
      rw [List.filterMap_append, answer?_result hfetch hres, List.append_nil]
    · refine Or.inr (hpending.mono (Nat.le_refl _) (fun hmem => .socket hmem) (fun hmem => ?_)
        (fun hmem => .inbox (List.mem_append_left _ hmem)) (fun hmem => .fetch ?_))
      · rcases channel_result hres hmem with hch | hin
        · exact .channel hch
        · exact .inbox hin
      · exact (List.mem_erase_of_ne (Ne.symm hfetch)).mpr hmem

theorem following_step {a : ProgramAct} (h : Following s) (ho : s.Orderly a)
    (h' : s.step libs a = some s') : Following s' := by
  cases step_sound h' with
  | change files => exact ⟨h.opened, Or.inr (.unsent (Nat.succ_pos _))⟩
  | changeQuietly files | hangup => cases ho
  | announce _ => exact h.announce _
  | write ev => exact h.push ev
  | read hsocket => exact h.read ho hsocket
  | @input msg hin =>
    refine h.update ?_
    cases msg with
    | catalogResult r => cases hin
    | _ => rfl
  | finish _ hres => exact h.finish ho hres
  | handle hi => exact h.handle ho hi

/-- **The list is the catalog whenever nothing is under way**, along every schedule
whose steps are orderly (every change is announced, an announcement is dropped only
while another one waits in the channel, an answer does not overtake an older one, the
connection lasts and no fetch fails): however changes, announcements, fetches, key
presses and answers overlap. -/
theorem shows_catalog_at_rest (libs : ProgramLibs) (files : List FileInfo)
    (as : List ProgramAct) (ho : StepsMeet (step libs) Orderly (new files) as) :
    StatesMeet (step libs) UpToDate (new files) as := by
  have hfollow : StatesMeet (step libs) Following (new files) as :=
    statesMeet_of_stepsMeet (J := fun _ => True) (fun _ _ _ _ _ => trivial)
      (fun _ _ _ _ h ho h' => following_step h ho h') trivial (following_new files) ho
  exact hfollow.mono (fun _ h => h.upToDate)

/-- A text field that ignores its keys. -/
def plainLibs : ProgramLibs where
  toLibs := .plain
  textInput_cmds := by
    intro s msg c hc
    cases hc

/-- Two changes, the second while the first is being fetched. -/
theorem shows_catalog_after_two_changes :
    StatesMeet (step plainLibs) UpToDate (new [])
      [.finish .fetchCatalog .done, .handle 0, .change [], .announce, .read,
        .finish .waitForEvent .done, .handle 0, .change [⟨[1], [2], 3, [], [4], true⟩],
        .finish .fetchCatalog .done, .handle 0, .announce, .read, .finish .waitForEvent .done,
        .handle 0, .finish .fetchCatalog .done, .handle 0] :=
  shows_catalog_at_rest plainLibs [] _ (by decide)

/-- An answer that is overtaken by a newer one stays on the screen. -/
example :
    (run (step plainLibs) (new [])
        [.finish .fetchCatalog .done, .change [⟨[1], [2], 3, [], [4], true⟩], .announce, .read,
          .finish .waitForEvent .done, .handle 1, .finish .fetchCatalog .done, .handle 1,
          .handle 0]).map (fun s => (s.inbox.length, s.model.catalog.files, s.files))
      = some (0, [], [⟨[1], [2], 3, [], [4], true⟩]) := by
  decide

end Program

end Kin.Tui
