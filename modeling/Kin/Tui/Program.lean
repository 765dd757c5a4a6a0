/-
  Kin.Tui.Program

  **THE RUNNING INTERFACE** (`runTUI` of `internal/tui/tui.go`, `commands.go`,
  `Subscribe` of `internal/ipc/client.go`).

  A command that `Update` returns runs in a goroutine of its own; what it returns
  is handled by `Update` some time later, in no fixed order.  Events come through
  a pipe:

      server ──▶ socket ──▶ reader goroutine ──▶ channel (64) ──▶ waitForEvent ──▶ Update

  The reader never blocks: it drops an event that finds the channel full.
  `Update` asks for the next event when it has handled one, and there is never a
  second `waitForEvent` under way.

    • `update_waits`     — which messages ask for the next event,
    • `returns_of_result` — what each command can return,
    • `events_piped`     — the events handled are those that were not dropped, in
      order and once each; the next one is asked for until the end of the connection
      is reported, and it is reported.
-/
import Mathlib.Data.List.Perm.Basic
import Kin.Lib.Run
import Kin.Tui.Model

namespace Kin.Tui

open Kin.Lib Kin.Daemon

/-! ## §1. The commands of `Update`. -/

/-- The text field issues commands of its own kind only. -/
structure ProgramLibs extends Libs where
  textInput_cmds : ∀ s msg, ∀ c ∈ (textInput s msg).2, c = .textInput

/-- The message comes from `waitForEvent`. -/
def Msg.isEvent : Msg → Bool
  | daemonEvent _ => true
  | daemonDisconnected => true
  | _ => false

/-- The event of a message. -/
def Msg.event? : Msg → Option Event
  | daemonEvent ev => some ev
  | _ => none

/-- The message reports the end of the connection. -/
def Msg.isEnd : Msg → Bool
  | daemonDisconnected => true
  | _ => false

/-- How many steps of the event pipe a message has ahead, with the wait it leads to. -/
def Msg.ahead : Msg → Nat
  | daemonEvent _ => 3
  | daemonDisconnected => 1
  | _ => 0

/-- A key press or a new window size. -/
def Msg.isInput : Msg → Bool
  | key _ => true
  | windowSize _ _ => true
  | _ => false

/-- The commands of the overlays. -/
def Cmd.ofOverlay : Cmd → Bool
  | doJoin _ => true
  | confirmed => true
  | textInput => true
  | _ => false

theorem JoinOverlay.forward_cmds (libs : ProgramLibs) (o : JoinOverlay) (msg : Msg) :
    ∀ c ∈ (o.forward libs.toLibs msg).2, c.ofOverlay = true := by
  intro c hc
  unfold JoinOverlay.forward at hc
  split at hc
  · rw [libs.textInput_cmds o.input msg c hc]
    rfl
  · cases hc

theorem JoinOverlay.update_cmds (libs : ProgramLibs) (o : JoinOverlay) (msg : Msg) :
    ∀ c ∈ (o.update libs.toLibs msg).2, c.ofOverlay = true := by
  intro c hc
  have hforward := o.forward_cmds libs msg c
  cases msg with
  | key k =>
    simp only [JoinOverlay.update] at hc
    split at hc
    · cases hc
    · split at hc
      · split at hc
        · cases hc
        · rw [List.mem_singleton.mp hc]
          rfl
      · exact hforward hc
  | joinResult r =>
    cases r with
    | error err => cases hc
    | ok peer => cases hc
  | _ => exact hforward hc

theorem Overlay.update_cmds (libs : ProgramLibs) (o : Overlay) (msg : Msg) :
    ∀ c ∈ (o.update libs.toLibs msg).2, c.ofOverlay = true := by
  intro c hc
  unfold Overlay.update at hc
  split at hc
  · split at hc <;> cases hc
  · split at hc <;> cases hc
  · cases hc
  · cases hc
  · exact JoinOverlay.update_cmds libs _ _ c hc
  · split at hc <;> cases hc
  · split at hc
    · rw [List.mem_singleton.mp hc]
      rfl
    · split at hc <;> cases hc
  · cases hc

theorem Model.startTransfers_cmds (fs : List FileInfo) (p : ProgressModel) :
    ∀ c ∈ (Model.startTransfers fs p).2, ∃ fileID, c = .doDownload fileID := by
  induction fs generalizing p with
  | nil =>
    intro c hc
    cases hc
  | cons f fs ih =>
    intro c hc
    unfold Model.startTransfers at hc
    split at hc
    · exact ih p c hc
    · rcases List.mem_cons.mp hc with rfl | hc
      · exact ⟨_, rfl⟩
      · exact ih _ c hc

/-- A key never asks for an event. -/
theorem Model.handleKey_cmds (libs : ProgramLibs) (m : Model) (k : KeyMsg) :
    Cmd.waitForEvent ∉ (m.handleKey libs.toLibs k).2 := by
  intro hc
  unfold Model.handleKey at hc
  split at hc
  · simp at hc
  · split at hc
    next o _ =>
      have hover := o.update_cmds libs _ _ hc
      cases hover
    next =>
      split at hc
      · simp at hc
      split at hc
      · simp at hc
      split at hc
      · simp at hc
      split at hc
      · simp at hc
      split at hc
      · unfold Model.startDownloads at hc
        split at hc
        · simp at hc
        · obtain ⟨fileID, heq⟩ := Model.startTransfers_cmds _ _ _ hc
          cases heq
      split at hc
      · simp at hc
      split at hc
      · simp at hc
      · simp at hc

/-- **Only an event asks for the next one**, and asks once. -/
theorem Model.update_waits (libs : ProgramLibs) (m : Model) (msg : Msg) :
    (m.update libs.toLibs msg).2.count .waitForEvent = if msg.event?.isSome then 1 else 0 := by
  have hoverlay : ∀ r, (m.handleOverlayResult libs.toLibs r).2.count .waitForEvent = 0 := by
    intro r
    refine List.count_eq_zero_of_not_mem fun hc => ?_
    unfold Model.handleOverlayResult at hc
    split at hc
    next o _ => cases o.update_cmds libs _ _ hc
    next => simp at hc
  cases msg with
  | key k => exact List.count_eq_zero_of_not_mem (m.handleKey_cmds libs k)
  | daemonEvent ev => cases ev <;> rfl
  | inviteResult r => exact hoverlay _
  | joinResult r => exact hoverlay _
  | downloadResult fileID err =>
    show List.count Cmd.waitForEvent (if err = none then [Cmd.fetchCatalog] else []) = 0
    split <;> rfl
  | windowSize width height => rfl
  | statusResult r => cases r <;> rfl
  | peersResult r => cases r <;> rfl
  | catalogResult r => cases r <;> rfl
  | daemonDisconnected => rfl

/-! ## §2. The program and its event pipe. -/

/-- The capacity of the channel `Subscribe` returns. -/
def eventBuffer : Nat := 64

structure Program where
  model : Model
  /-- The commands under way. -/
  cmds : List Cmd
  /-- What commands have returned and `Update` has not handled. -/
  inbox : List Msg
  /-- `tea.Quit` has come through. -/
  stopped : Bool
  /-- What `handleCatalog` answers. -/
  files : List FileInfo
  /-- The changes of the catalog that have still to be announced. -/
  unsent : Nat
  /-- The events written to the socket and not read. -/
  socket : List Event
  ch : List Event
  /-- The reader has returned and closed the channel. -/
  closed : Bool
  /-- The events written, in order. -/
  sent : List Event
  /-- The events read, in order, with the number of those in the channel by then. -/
  reads : List (Event × Nat)
  /-- The events that `Update` has handled, in order. -/
  handled : List Event
  /-- `Update` has handled `daemonDisconnected`. -/
  reported : Bool

/-- What the daemon has to say to a request. -/
inductive Answer where
  | status (resp : StatusResponse)
  | peers (peers : List PeerInfo)
  | text (s : GoString)
  | done
  | failed (err : String)

inductive ProgramAct where
  /-- The catalog changes; `BroadcastCatalogUpdated` is to follow. -/
  | change (files : List FileInfo)
  /-- It changes and nothing follows: `PutLocal` has succeeded, `index.Add` has not. -/
  | changeQuietly (files : List FileInfo)
  /-- `BroadcastCatalogUpdated`. -/
  | announce
  /-- Another event. -/
  | write (ev : Event)
  /-- The reader takes an event from the socket. -/
  | read
  /-- The connection ends. -/
  | hangup
  | input (msg : Msg)
  /-- A command returns. -/
  | finish (c : Cmd) (ans : Answer)
  /-- `Update` handles a message. -/
  | handle (i : Nat)

namespace Program

/-- `NewModel` and `Init`, subscribed. -/
def new (files : List FileInfo) : Program :=
  ⟨.new, Model.init, [], false, files, 0, [], [], false, [], [], [], false⟩

/-- The server writes an event; on a connection that is gone the write fails. -/
def push (s : Program) (ev : Event) : Program :=
  if s.closed then s else { s with socket := s.socket ++ [ev], sent := s.sent ++ [ev] }

/-- What a command returns; `none` while it is blocked. -/
def result (s : Program) : Cmd → Answer → Option (Option Msg)
  | .fetchStatus, .status resp => some (some (.statusResult (.ok resp)))
  | .fetchStatus, .failed err => some (some (.statusResult (.error err)))
  | .fetchPeers, .peers peers => some (some (.peersResult (.ok peers)))
  | .fetchPeers, .failed err => some (some (.peersResult (.error err)))
  | .fetchCatalog, .done => some (some (.catalogResult (.ok s.files)))
  | .fetchCatalog, .failed err => some (some (.catalogResult (.error err)))
  | .doInvite, .text token => some (some (.inviteResult (.ok token)))
  | .doInvite, .failed err => some (some (.inviteResult (.error err)))
  | .doJoin _, .text peer => some (some (.joinResult (.ok peer)))
  | .doJoin _, .failed err => some (some (.joinResult (.error err)))
  | .doDownload fileID, .done => some (some (.downloadResult fileID none))
  | .doDownload fileID, .failed err => some (some (.downloadResult fileID (some err)))
  | .waitForEvent, .done =>
    match s.ch with
    | ev :: _ => some (some (.daemonEvent ev))
    -- a closed channel is drained first
    | [] => if s.closed then some (some .daemonDisconnected) else none
  | .confirmed, .done => some none
  | .textInput, .done => some none
  | .quit, .done => some none
  | _, _ => none

/-- `Update` on a message. -/
def update (libs : ProgramLibs) (s : Program) (msg : Msg) : Program :=
  { s with
    model := (s.model.update libs.toLibs msg).1
    cmds := s.cmds ++ (s.model.update libs.toLibs msg).2
    handled := s.handled ++ msg.event?.toList
    reported := s.reported || msg.isEnd }

def step (libs : ProgramLibs) (s : Program) : ProgramAct → Option Program
  | .change files => some { s with files := files, unsent := s.unsent + 1 }
  | .changeQuietly files => some { s with files := files }
  | .announce =>
    if s.unsent = 0 then none
    else some { s.push .catalogUpdated with unsent := s.unsent - 1 }
  | .write ev => some (s.push ev)
  | .read =>
    match s.socket with
    | [] => none
    | ev :: rest =>
      if s.ch.length < eventBuffer then
        some { s with
          socket := rest
          ch := s.ch ++ [ev]
          reads := s.reads ++ [(ev, s.ch.length)] }
      else some { s with socket := rest, reads := s.reads ++ [(ev, s.ch.length)] }
  | .hangup => some { s with socket := [], closed := true }
  | .input msg => if msg.isInput ∧ s.stopped = false then some (s.update libs msg) else none
  | .finish c ans =>
    if c ∈ s.cmds then
      match s.result c ans with
      | none => none
      | some msg =>
        some { s with
          cmds := s.cmds.erase c
          inbox := s.inbox ++ msg.toList
          ch := if c = .waitForEvent then s.ch.tail else s.ch
          stopped := s.stopped || decide (c = .quit) }
    else none
  | .handle i =>
    match s.inbox[i]? with
    | none => none
    | some msg =>
      if s.stopped then none
      else some { s.update libs msg with inbox := s.inbox.eraseIdx i }

/-- The step relation: what each step needs and what it leads to. -/
inductive Step (libs : ProgramLibs) (s : Program) : ProgramAct → Program → Prop where
  | change (files : List FileInfo) :
      Step libs s (.change files) { s with files := files, unsent := s.unsent + 1 }
  | changeQuietly (files : List FileInfo) :
      Step libs s (.changeQuietly files) { s with files := files }
  | announce (h : s.unsent ≠ 0) :
      Step libs s .announce { s.push .catalogUpdated with unsent := s.unsent - 1 }
  | write (ev : Event) : Step libs s (.write ev) (s.push ev)
  | read {ev : Event} {rest : List Event} (hsocket : s.socket = ev :: rest) :
      Step libs s .read { s with
        socket := rest
        ch := if s.ch.length < eventBuffer then s.ch ++ [ev] else s.ch
        reads := s.reads ++ [(ev, s.ch.length)] }
  | hangup : Step libs s .hangup { s with socket := [], closed := true }
  | input {msg : Msg} (hin : msg.isInput = true) : Step libs s (.input msg) (s.update libs msg)
  | finish {c : Cmd} {ans : Answer} {msg : Option Msg} (hc : c ∈ s.cmds)
      (hres : s.result c ans = some msg) :
      Step libs s (.finish c ans) { s with
        cmds := s.cmds.erase c
        inbox := s.inbox ++ msg.toList
        ch := if c = .waitForEvent then s.ch.tail else s.ch
        stopped := s.stopped || decide (c = .quit) }
  | handle {i : Nat} {msg : Msg} (hi : s.inbox[i]? = some msg) :
      Step libs s (.handle i) { s.update libs msg with inbox := s.inbox.eraseIdx i }

/-- **What a step can do.** -/
theorem step_sound {libs : ProgramLibs} {s s' : Program} {a : ProgramAct}
    (h : s.step libs a = some s') : Step libs s a s' := by
  cases a with
  | change files => cases h; exact .change files
  | changeQuietly files => cases h; exact .changeQuietly files
  | announce =>
    simp only [step] at h
    split at h
    next => cases h
    next hunsent => cases h; exact .announce hunsent
  | write ev => cases h; exact .write ev
  | read =>
    simp only [step] at h
    split at h
    next => cases h
    next ev rest hsocket =>
      have hread : Step libs s .read _ := .read hsocket
      split at h
      next hroom => cases h; rwa [if_pos hroom] at hread
      next hfull => cases h; rwa [if_neg hfull] at hread
  | hangup => cases h; exact .hangup
  | input msg =>
    obtain ⟨hin, h⟩ := Option.ite_none_right_eq_some.mp h
    cases h
    exact .input hin.1
  | finish c ans =>
    obtain ⟨hc, h⟩ := Option.ite_none_right_eq_some.mp h
    split at h
    next => cases h
    next msg hres => cases h; exact .finish hc hres
  | handle i =>
    simp only [step] at h
    split at h
    next => cases h
    next msg hi =>
      obtain ⟨-, h⟩ := Option.ite_none_left_eq_some.mp h
      cases h
      exact .handle hi

/-- What a command can return. -/
inductive Returns : Cmd → Option Msg → Prop where
  | fetchStatus (r : Except String StatusResponse) : Returns .fetchStatus (some (.statusResult r))
  | fetchPeers (r : Except String (List PeerInfo)) : Returns .fetchPeers (some (.peersResult r))
  | fetchCatalog (r : Except String (List FileInfo)) :
      Returns .fetchCatalog (some (.catalogResult r))
  | doInvite (r : Except String GoString) : Returns .doInvite (some (.inviteResult r))
  | doJoin (token : GoString) (r : Except String GoString) :
      Returns (.doJoin token) (some (.joinResult r))
  | doDownload (fileID : GoString) (err : Option String) :
      Returns (.doDownload fileID) (some (.downloadResult fileID err))
  | event (ev : Event) : Returns .waitForEvent (some (.daemonEvent ev))
  | disconnected : Returns .waitForEvent (some .daemonDisconnected)
  | confirmed : Returns .confirmed none
  | textInput : Returns .textInput none
  | quit : Returns .quit none

theorem returns_of_result {s : Program} {c : Cmd} {ans : Answer} {msg : Option Msg}
    (h : s.result c ans = some msg) : Returns c msg := by
  cases c with
  | fetchStatus =>
    cases ans with
    | status resp => cases h; exact .fetchStatus _
    | failed err => cases h; exact .fetchStatus _
    | _ => cases h
  | fetchPeers =>
    cases ans with
    | peers peers => cases h; exact .fetchPeers _
    | failed err => cases h; exact .fetchPeers _
    | _ => cases h
  | fetchCatalog =>
    cases ans with
    | done => cases h; exact .fetchCatalog _
    | failed err => cases h; exact .fetchCatalog _
    | _ => cases h
  | doInvite =>
    cases ans with
    | text token => cases h; exact .doInvite _
    | failed err => cases h; exact .doInvite _
    | _ => cases h
  | doJoin token =>
    cases ans with
    | text peer => cases h; exact .doJoin token _
    | failed err => cases h; exact .doJoin token _
    | _ => cases h
  | doDownload fileID =>
    cases ans with
    | done => cases h; exact .doDownload fileID _
    | failed err => cases h; exact .doDownload fileID _
    | _ => cases h
  | waitForEvent =>
    cases ans with
    | done =>
      simp only [result] at h
      split at h
      · cases h; exact .event _
      · split at h
        · cases h; exact .disconnected
        · cases h
    | _ => cases h
  | confirmed =>
    cases ans with
    | done => cases h; exact .confirmed
    | _ => cases h
  | textInput =>
    cases ans with
    | done => cases h; exact .textInput
    | _ => cases h
  | quit =>
    cases ans with
    | done => cases h; exact .quit
    | _ => cases h

/-! ## §3. Events arrive in order. -/

/-- The events between the channel and `Update`. -/
def flying (s : Program) : List Event := s.inbox.filterMap Msg.event?

/-- How often the next event is being asked for. -/
def waits (s : Program) : Nat := s.cmds.count .waitForEvent + s.inbox.countP Msg.isEvent

/-- The events that did not find the channel full. -/
def kept (s : Program) : List Event :=
  (s.reads.filter (fun r => decide (r.2 < eventBuffer))).map Prod.fst

structure Piped (s : Program) : Prop where
  /-- What did not find the channel full is handled, on its way or in the channel, in
  this order. -/
  order : s.handled ++ s.flying ++ s.ch = s.kept
  /-- Nothing was read that was not written, in this order. -/
  written : (s.reads.map Prod.fst) <+: s.sent
  bounded : s.ch.length ≤ eventBuffer
  /-- While the connection lasts nothing is lost before the reader. -/
  unread : s.closed = false → s.reads.map Prod.fst ++ s.socket = s.sent
  /-- Until the end is reported the next event is being asked for, once … -/
  asked : s.reported = false → s.waits = 1
  /-- … and after that no more: the connection is gone, and all events are handled. -/
  ended : s.reported = true → s.waits = 0 ∧ s.closed = true ∧ s.handled = s.kept

structure Inv (s : Program) : Prop extends Piped s where
  /-- The end is announced by a channel that is closed and empty. -/
  last : s.reported = true ∨ .daemonDisconnected ∈ s.inbox → s.closed = true ∧ s.ch = []
  /-- The reader has gone with the connection. -/
  drained : s.closed = true → s.socket = []

variable {libs : ProgramLibs} {s s' : Program}

theorem inv_new (files : List FileInfo) : Inv (new files) := by
  refine ⟨⟨rfl, List.prefix_rfl, Nat.zero_le _, fun _ => rfl, fun _ => rfl, fun h => ?_⟩,
    fun h => ?_, fun _ => rfl⟩
  · cases h
  · rcases h with h | h <;> cases h

/-- Never is a second one under way. -/
theorem Inv.once (hinv : Inv s) : s.waits ≤ 1 := by
  cases hr : s.reported with
  | false => exact Nat.le_of_eq (hinv.asked hr)
  | true =>
    rw [(hinv.ended hr).1]
    exact Nat.zero_le 1

/-- While one is under way, the end is not reported. -/
theorem Inv.not_reported (hinv : Inv s) (h : 0 < s.waits) : s.reported = false := by
  rw [← Bool.not_eq_true]
  intro hr
  rw [(hinv.ended hr).1] at h
  exact absurd h (Nat.lt_irrefl 0)

/-- The connection of a program to which the end is not yet announced. -/
theorem Inv.unannounced (hinv : Inv s) (hopen : s.closed = false) :
    ¬ (s.reported = true ∨ .daemonDisconnected ∈ s.inbox) := by
  intro h
  rw [(hinv.last h).1] at hopen
  cases hopen

theorem event?_of_not_isEvent {msg : Msg} (h : msg.isEvent = false) : msg.event? = none := by
  cases msg with
  | daemonEvent ev => cases h
  | _ => rfl

/-- No event message, no event. -/
theorem filterMap_event?_eq_nil {msgs : List Msg} (h : msgs.countP Msg.isEvent = 0) :
    msgs.filterMap Msg.event? = [] := by
  rw [List.filterMap_eq_nil_iff]
  intro msg hmsg
  exact event?_of_not_isEvent (Bool.not_eq_true _ ▸ List.countP_eq_zero.mp h msg hmsg)

/-- Only `waitForEvent` returns events. -/
theorem isEvent_result {c : Cmd} {ans : Answer} {msg : Option Msg} (hc : c ≠ .waitForEvent)
    (h : s.result c ans = some msg) : ∀ m ∈ msg, m.isEvent = false := by
  intro m hm
  cases returns_of_result h with
  | event ev => exact absurd rfl hc
  | disconnected => exact absurd rfl hc
  | confirmed | textInput | quit => cases hm
  | _ =>
    cases hm
    rfl

theorem Inv.push (hinv : Inv s) (ev : Event) : Inv (s.push ev) := by
  unfold Program.push
  split
  next => exact hinv
  next hopen =>
    refine ⟨⟨hinv.order, ?_, hinv.bounded, fun hc => ?_, hinv.asked, hinv.ended⟩, hinv.last,
      fun hc => absurd hc hopen⟩
    · exact hinv.written.trans (List.prefix_append _ _)
    · show s.reads.map Prod.fst ++ (s.socket ++ [ev]) = s.sent ++ [ev]
      rw [← List.append_assoc, hinv.unread hc]

theorem kept_concat {ev : Event} {n : Nat} (h : s'.reads = s.reads ++ [(ev, n)]) :
    s'.kept = s.kept ++ (if n < eventBuffer then [ev] else []) := by
  unfold kept
  rw [h, List.filter_append, List.map_append]
  by_cases hn : n < eventBuffer
  · simp [hn]
  · simp [hn]

/-- The reader: one event further in the socket, and perhaps one more in the channel. -/
theorem Inv.read (hinv : Inv s) {ev : Event} {rest : List Event} (hsocket : s.socket = ev :: rest) :
    Inv { s with
      socket := rest
      ch := if s.ch.length < eventBuffer then s.ch ++ [ev] else s.ch
      reads := s.reads ++ [(ev, s.ch.length)] } := by
  have hopen : s.closed = false := by
    rw [← Bool.not_eq_true]
    intro hc
    rw [hinv.drained hc] at hsocket
    cases hsocket
  have hfst : (s.reads ++ [(ev, s.ch.length)]).map Prod.fst ++ rest = s.sent := by
    rw [List.map_append, List.append_assoc, ← hinv.unread hopen, hsocket]
    rfl
  have hunannounced := hinv.unannounced hopen
  refine ⟨⟨?_, ?_, ?_, fun _ => hfst, hinv.asked, fun hr => absurd (Or.inl hr) hunannounced⟩,
    fun hlast => absurd hlast hunannounced, fun hc => ?_⟩
  · rw [kept_concat (s := s) rfl, ← hinv.order]
    show s.handled ++ s.flying ++ (if _ then _ else _) = _
    split
    · exact (List.append_assoc _ _ _).symm
    · exact (List.append_nil _).symm
  · rw [← hfst]
    exact List.prefix_append _ _
  · show (if _ then _ else _ : List Event).length ≤ eventBuffer
    split
    next hroom =>
      rw [List.length_append]
      exact hroom
    next => exact hinv.bounded
  · rw [hopen] at hc
    cases hc

/-- `Update` on a message that is no event. -/
theorem Inv.update (hinv : Inv s) {msg : Msg} (hmsg : msg.isEvent = false) :
    Inv (s.update libs msg) := by
  have hev := event?_of_not_isEvent hmsg
  have hend : msg.isEnd = false := by
    cases msg with
    | daemonDisconnected => cases hmsg
    | _ => rfl
  have hreported : (s.update libs msg).reported = s.reported := by
    show (s.reported || msg.isEnd) = s.reported
    rw [hend, Bool.or_false]
  have hhandled : (s.update libs msg).handled = s.handled := by
    show s.handled ++ msg.event?.toList = s.handled
    rw [hev]
    exact List.append_nil _
  have hwaits : (s.update libs msg).waits = s.waits := by
    show (s.cmds ++ (s.model.update libs.toLibs msg).2).count .waitForEvent
      + s.inbox.countP Msg.isEvent = s.waits
    rw [List.count_append, Model.update_waits, hev]
    rfl
  refine ⟨⟨?_, hinv.written, hinv.bounded, hinv.unread, ?_, ?_⟩, ?_, hinv.drained⟩
  · rw [hhandled]
    exact hinv.order
  · rw [hreported, hwaits]
    exact hinv.asked
  · rw [hreported, hwaits, hhandled]
    exact hinv.ended
  · rw [hreported]
    exact hinv.last

/-- A message in the inbox, and the others. -/
theorem inbox_perm {i : Nat} {msg : Msg} (hi : s.inbox[i]? = some msg) :
    (msg :: s.inbox.eraseIdx i).Perm s.inbox := by
  obtain ⟨hlt, rfl⟩ := List.getElem?_eq_some_iff.mp hi
  exact List.getElem_cons_eraseIdx_perm hlt

theorem countP_inbox {i : Nat} {msg : Msg} (hi : s.inbox[i]? = some msg) :
    s.inbox.countP Msg.isEvent
      = (s.inbox.eraseIdx i).countP Msg.isEvent + if msg.isEvent then 1 else 0 := by
  rw [← (inbox_perm hi).countP_eq, List.countP_cons]

theorem filterMap_eraseIdx {α β : Type*} {f : α → Option β} {l : List α} {i : Nat} {x : α}
    (hi : l[i]? = some x) (hx : f x = none) : (l.eraseIdx i).filterMap f = l.filterMap f := by
  induction l generalizing i with
  | nil => cases hi
  | cons y l ih =>
    cases i with
    | zero =>
      have hy : y = x := Option.some.inj hi
      rw [List.eraseIdx_cons_zero, hy, List.filterMap_cons_none hx]
    | succ i =>
      have hi : l[i]? = some x := hi
      rw [List.eraseIdx_cons_succ, List.filterMap_cons, List.filterMap_cons, ih hi]

/-- A message that is no event leaves the inbox. -/
theorem Inv.eraseIdx (hinv : Inv s) {i : Nat} {msg : Msg} (hi : s.inbox[i]? = some msg)
    (hmsg : msg.isEvent = false) : Inv { s with inbox := s.inbox.eraseIdx i } := by
  have hwaits : ({ s with inbox := s.inbox.eraseIdx i } : Program).waits = s.waits := by
    unfold waits
    rw [countP_inbox hi, hmsg]
    rfl
  have hflying : ({ s with inbox := s.inbox.eraseIdx i } : Program).flying = s.flying := by
    exact filterMap_eraseIdx hi (event?_of_not_isEvent hmsg)
  refine ⟨⟨?_, hinv.written, hinv.bounded, hinv.unread, ?_, ?_⟩, fun h => ?_, hinv.drained⟩
  · rw [hflying]
    exact hinv.order
  · rw [hwaits]
    exact hinv.asked
  · rw [hwaits]
    exact hinv.ended
  · exact hinv.last (h.imp_right List.mem_of_mem_eraseIdx)

/-- While an event message waits for `Update` there is no other, and nobody asks for
the next. -/
theorem Inv.event_alone (hinv : Inv s) {i : Nat} {msg : Msg} (hi : s.inbox[i]? = some msg)
    (hmsg : msg.isEvent = true) :
    s.cmds.count .waitForEvent = 0 ∧ (s.inbox.eraseIdx i).countP Msg.isEvent = 0 := by
  have honce := hinv.once
  unfold waits at honce
  rw [countP_inbox hi, hmsg, if_pos rfl] at honce
  omega

theorem Inv.handleEvent (hinv : Inv s) {i : Nat} {ev : Event}
    (hi : s.inbox[i]? = some (.daemonEvent ev)) :
    Inv { s.update libs (.daemonEvent ev) with inbox := s.inbox.eraseIdx i } := by
  obtain ⟨hcmds, hrest⟩ := hinv.event_alone hi rfl
  have hnil := filterMap_event?_eq_nil hrest
  have hflying : s.flying = [ev] := by
    have hperm := (inbox_perm hi).filterMap Msg.event?
    rw [List.filterMap_cons_some (show (Msg.daemonEvent ev).event? = some ev from rfl), hnil]
      at hperm
    exact List.singleton_perm.mp hperm |>.symm
  have hwaits : ({ s.update libs (.daemonEvent ev) with
      inbox := s.inbox.eraseIdx i } : Program).waits = 1 := by
    show (s.cmds ++ (s.model.update libs.toLibs (.daemonEvent ev)).2).count .waitForEvent
      + (s.inbox.eraseIdx i).countP Msg.isEvent = 1
    rw [List.count_append, Model.update_waits, hcmds, hrest]
    rfl
  have hbefore : s.reported = false := by
    refine hinv.not_reported (Nat.lt_of_lt_of_le ?_ (Nat.le_add_left _ _))
    exact List.countP_pos_iff.mpr ⟨_, List.mem_of_getElem? hi, rfl⟩
  have hreported : (s.reported || (Msg.daemonEvent ev).isEnd) = false := by
    rw [hbefore]
    rfl
  refine ⟨⟨?_, hinv.written, hinv.bounded, hinv.unread, fun _ => hwaits, fun hr => ?_⟩,
    fun hlast => ?_, hinv.drained⟩
  · show s.handled ++ [ev] ++ (s.inbox.eraseIdx i).filterMap Msg.event? ++ s.ch = s.kept
    rw [hnil, ← hinv.order, hflying, List.append_nil]
  · exact absurd (hreported.symm.trans hr) Bool.false_ne_true
  · rcases hlast with hr | hmem
    · exact absurd (hreported.symm.trans hr) Bool.false_ne_true
    · exact hinv.last (Or.inr (List.mem_of_mem_eraseIdx hmem))

theorem Inv.handleDisconnected (hinv : Inv s) {i : Nat}
    (hi : s.inbox[i]? = some .daemonDisconnected) :
    Inv { s.update libs .daemonDisconnected with inbox := s.inbox.eraseIdx i } := by
  obtain ⟨hcmds, hrest⟩ := hinv.event_alone hi rfl
  obtain ⟨hclosed, hch⟩ := hinv.last (Or.inr (List.mem_of_getElem? hi))
  have hflying : s.flying = [] := by
    show s.inbox.filterMap Msg.event? = []
    rw [← filterMap_eraseIdx hi (show Msg.daemonDisconnected.event? = none from rfl)]
    exact filterMap_event?_eq_nil hrest
  have hhandled : s.handled = s.kept := by
    rw [← hinv.order, hflying, hch, List.append_nil, List.append_nil]
  have hwaits : ({ s.update libs .daemonDisconnected with
      inbox := s.inbox.eraseIdx i } : Program).waits = 0 := by
    show (s.cmds ++ (s.model.update libs.toLibs .daemonDisconnected).2).count .waitForEvent
      + (s.inbox.eraseIdx i).countP Msg.isEvent = 0
    rw [List.count_append, Model.update_waits, hcmds, hrest]
    rfl
  have hreported : (s.reported || Msg.daemonDisconnected.isEnd) = true := Bool.or_true _
  refine ⟨⟨?_, hinv.written, hinv.bounded, hinv.unread, fun hr => ?_, fun _ => ?_⟩,
    fun _ => ⟨hclosed, hch⟩, hinv.drained⟩
  · show s.handled ++ [] ++ (s.inbox.eraseIdx i).filterMap Msg.event? ++ s.ch = s.kept
    rw [List.append_nil, filterMap_eraseIdx hi rfl]
    exact hinv.order
  · exact absurd (hr.symm.trans hreported) Bool.false_ne_true
  · refine ⟨hwaits, hclosed, ?_⟩
    show s.handled ++ [] = s.kept
    rw [List.append_nil, hhandled]

theorem Inv.handle (hinv : Inv s) {i : Nat} {msg : Msg} (hi : s.inbox[i]? = some msg) :
    Inv { s.update libs msg with inbox := s.inbox.eraseIdx i } := by
  cases msg with
  | daemonEvent ev => exact hinv.handleEvent hi
  | daemonDisconnected => exact hinv.handleDisconnected hi
  | _ => exact (hinv.update rfl).eraseIdx hi rfl

/-- `waitForEvent` returns the head of the channel, or the end. -/
theorem result_waitForEvent {ans : Answer} {msg : Option Msg}
    (h : s.result .waitForEvent ans = some msg) :
    (∃ ev rest, s.ch = ev :: rest ∧ msg = some (.daemonEvent ev))
      ∨ (s.ch = [] ∧ s.closed = true ∧ msg = some .daemonDisconnected) := by
  cases ans with
  | done =>
    simp only [result] at h
    split at h
    next ev rest hch => exact Or.inl ⟨ev, rest, hch, (Option.some.inj h).symm⟩
    next hch =>
      obtain ⟨hclosed, h⟩ := Option.ite_none_right_eq_some.mp h
      exact Or.inr ⟨hch, hclosed, (Option.some.inj h).symm⟩
  | _ => cases h

/-- Then that is on its way. -/
theorem Inv.finishWait (hinv : Inv s) {ans : Answer} {msg : Option Msg} {stopped : Bool}
    (hc : Cmd.waitForEvent ∈ s.cmds) (hres : s.result .waitForEvent ans = some msg) :
    Inv { s with
      cmds := s.cmds.erase .waitForEvent
      inbox := s.inbox ++ msg.toList
      ch := s.ch.tail
      stopped := stopped } := by
  have hpos : 0 < s.cmds.count .waitForEvent := List.count_pos_iff.mpr hc
  have honce : s.cmds.count .waitForEvent + s.inbox.countP Msg.isEvent ≤ 1 := hinv.once
  have hnone : s.inbox.countP Msg.isEvent = 0 := by omega
  have hreported : s.reported = false :=
    hinv.not_reported (Nat.lt_of_lt_of_le hpos (Nat.le_add_right _ _))
  have hnot : ¬ s.reported = true := by rw [hreported]; exact Bool.false_ne_true
  have hcount : (s.cmds.erase .waitForEvent).count .waitForEvent = 0 := by
    rw [List.count_erase_self]
    omega
  have hflying : s.flying = [] := filterMap_event?_eq_nil hnone
  have horder := hinv.order
  rw [hflying, List.append_nil] at horder
  have hwaits : ∀ m : Msg, m.isEvent = true →
      (s.cmds.erase .waitForEvent).count .waitForEvent
        + (s.inbox ++ [m]).countP Msg.isEvent = 1 := by
    intro m hm
    rw [hcount, List.countP_append, hnone, List.countP_singleton, hm]
    rfl
  rcases result_waitForEvent hres with ⟨ev, rest, hch, rfl⟩ | ⟨hch, hclosed, rfl⟩
  · rw [hch] at horder ⊢
    refine ⟨⟨?_, hinv.written, ?_, hinv.unread, fun _ => hwaits _ rfl,
      fun hr => absurd hr hnot⟩, fun hlast => ?_, hinv.drained⟩
    · show s.handled ++ (s.inbox ++ [Msg.daemonEvent ev]).filterMap Msg.event? ++ rest = s.kept
      have hfly : s.inbox.filterMap Msg.event? = [] := hflying
      rw [List.filterMap_append, hfly, ← horder]
      simp [Msg.event?]
    · have hbound := hinv.bounded
      rw [hch] at hbound
      exact Nat.le_of_succ_le hbound
    · -- the end is not announced: there was still an event
      rcases hlast with hr | hmem
      · exact absurd hr hnot
      · rcases List.mem_append.mp hmem with hmem | hmem
        · have hempty := (hinv.last (Or.inr hmem)).2
          rw [hch] at hempty
          cases hempty
        · cases List.mem_singleton.mp hmem
  · rw [hch] at horder ⊢
    refine ⟨⟨?_, hinv.written, Nat.zero_le _, hinv.unread, fun _ => hwaits _ rfl,
      fun hr => absurd hr hnot⟩, fun _ => ⟨hclosed, rfl⟩, hinv.drained⟩
    show s.handled ++ (s.inbox ++ [Msg.daemonDisconnected]).filterMap Msg.event? ++ [] = s.kept
    have hfly : s.inbox.filterMap Msg.event? = [] := hflying
    rw [List.filterMap_append, hfly, ← horder]
    simp [Msg.event?]

/-- Another command returns. -/
theorem Inv.finishOther (hinv : Inv s) {c : Cmd} {ans : Answer} {msg : Option Msg} {stopped : Bool}
    (hc : c ≠ .waitForEvent) (hres : s.result c ans = some msg) :
    Inv { s with
      cmds := s.cmds.erase c
      inbox := s.inbox ++ msg.toList
      stopped := stopped } := by
  have hmsg := isEvent_result hc hres
  have hevents : msg.toList.countP Msg.isEvent = 0 := by
    rw [List.countP_eq_zero]
    intro m hm
    rw [hmsg m (Option.mem_toList.mp hm)]
    exact Bool.false_ne_true
  have hwaits : (s.cmds.erase c).count .waitForEvent
      + (s.inbox ++ msg.toList).countP Msg.isEvent = s.waits := by
    rw [List.count_erase_of_ne hc.symm, List.countP_append, hevents]
    rfl
  refine ⟨⟨?_, hinv.written, hinv.bounded, hinv.unread, fun hr => ?_, fun hr => ?_⟩,
    fun hlast => ?_, hinv.drained⟩
  · show s.handled ++ (s.inbox ++ msg.toList).filterMap Msg.event? ++ s.ch = s.kept
    rw [List.filterMap_append, filterMap_event?_eq_nil hevents, List.append_nil]
    exact hinv.order
  · exact hwaits.trans (hinv.asked hr)
  · obtain ⟨hnone, hrest⟩ := hinv.ended hr
    exact ⟨hwaits.trans hnone, hrest⟩
  · refine hinv.last (hlast.imp_right fun hmem => ?_)
    rcases List.mem_append.mp hmem with hmem | hmem
    · exact hmem
    · cases hmsg _ (Option.mem_toList.mp hmem)

theorem Inv.finish (hinv : Inv s) {c : Cmd} {ans : Answer} {msg : Option Msg} {stopped : Bool}
    (hc : c ∈ s.cmds) (hres : s.result c ans = some msg) :
    Inv { s with
      cmds := s.cmds.erase c
      inbox := s.inbox ++ msg.toList
      ch := if c = .waitForEvent then s.ch.tail else s.ch
      stopped := stopped } := by
  by_cases hwait : c = .waitForEvent
  · subst hwait
    exact hinv.finishWait hc hres
  · rw [if_neg hwait]
    exact hinv.finishOther hwait hres

/-- The catalog of the daemon is no matter. -/
theorem Inv.daemon (hinv : Inv s) (files : List FileInfo) (unsent : Nat) :
    Inv { s with files := files, unsent := unsent } :=
  ⟨⟨hinv.order, hinv.written, hinv.bounded, hinv.unread, hinv.asked, hinv.ended⟩, hinv.last,
    hinv.drained⟩

theorem Inv.hangup (hinv : Inv s) : Inv { s with socket := [], closed := true } := by
  refine ⟨⟨hinv.order, hinv.written, hinv.bounded, fun hc => ?_, hinv.asked, fun hr => ?_⟩,
    fun hlast => ⟨rfl, (hinv.last hlast).2⟩, fun _ => rfl⟩
  · cases hc
  · obtain ⟨hnone, -, hhandled⟩ := hinv.ended hr
    exact ⟨hnone, rfl, hhandled⟩

theorem inv_step {a : ProgramAct} (hinv : Inv s) (h : s.step libs a = some s') : Inv s' := by
  cases step_sound h with
  | change files | changeQuietly files => exact hinv.daemon files _
  | announce _ => exact (hinv.push .catalogUpdated).daemon _ _
  | write ev => exact hinv.push ev
  | read hsocket => exact hinv.read hsocket
  | hangup => exact hinv.hangup
  | @input msg hin =>
    refine hinv.update ?_
    cases msg with
    | daemonEvent ev => cases hin
    | daemonDisconnected => cases hin
    | _ => rfl
  | finish hc hres => exact hinv.finish hc hres
  | handle hi => exact hinv.handle hi

/-! ## §4. The end of the connection is reported. -/

/-- The steps of the pipe after the reader: `waitForEvent` returns, or `Update` handles
what it has returned. -/
def pipes (s : Program) : ProgramAct → Bool
  | .finish c _ => decide (c = .waitForEvent)
  | .handle i => (s.inbox[i]?).any Msg.isEvent
  | _ => false

/-- How many of them are left once the reader is gone. -/
def left (s : Program) : Nat :=
  2 * s.ch.length + 2 * s.cmds.count .waitForEvent + (s.inbox.map Msg.ahead).sum

theorem ahead_of_not_isEvent {msg : Msg} (h : msg.isEvent = false) : msg.ahead = 0 := by
  cases msg with
  | daemonEvent ev => cases h
  | daemonDisconnected => cases h
  | _ => rfl

theorem left_update (libs : ProgramLibs) (s : Program) (msg : Msg) :
    (s.update libs msg).left = s.left + if msg.event?.isSome then 2 else 0 := by
  show 2 * s.ch.length + 2 * (s.cmds ++ (s.model.update libs.toLibs msg).2).count .waitForEvent
    + (s.inbox.map Msg.ahead).sum = s.left + _
  rw [List.count_append, Model.update_waits]
  unfold left
  split <;> omega

theorem left_eraseIdx {i : Nat} {msg : Msg} (hi : s.inbox[i]? = some msg) :
    s.left = ({ s with inbox := s.inbox.eraseIdx i } : Program).left + msg.ahead := by
  have hsum := ((inbox_perm hi).map Msg.ahead).sum_nat
  rw [List.map_cons, List.sum_cons] at hsum
  unfold left
  dsimp only
  omega

/-- A message is handled. -/
theorem left_handle {i : Nat} {msg : Msg} (hi : s.inbox[i]? = some msg) :
    (if s.pipes (.handle i) then 1 else 0)
      + ({ s.update libs msg with inbox := s.inbox.eraseIdx i } : Program).left = s.left := by
  have hupdate := left_update libs { s with inbox := s.inbox.eraseIdx i } msg
  have herase := left_eraseIdx hi
  have hpipes : s.pipes (.handle i) = msg.isEvent := by
    show (s.inbox[i]?).any Msg.isEvent = msg.isEvent
    rw [hi]
    rfl
  have hafter : ({ s.update libs msg with inbox := s.inbox.eraseIdx i } : Program).left
      = (({ s with inbox := s.inbox.eraseIdx i } : Program).update libs msg).left := rfl
  rw [hpipes, hafter, hupdate, herase]
  cases msg with
  | daemonEvent ev =>
    show 1 + (_ + 2) = _ + 3
    omega
  | daemonDisconnected =>
    show 1 + (_ + 0) = _ + 1
    omega
  | _ =>
    show 0 + (_ + 0) = _ + 0
    omega

/-- A command returns. -/
theorem left_finish {c : Cmd} {ans : Answer} {msg : Option Msg} {stopped : Bool}
    (hc : c ∈ s.cmds) (hres : s.result c ans = some msg) :
    (if s.pipes (.finish c ans) then 1 else 0)
      + ({ s with
          cmds := s.cmds.erase c
          inbox := s.inbox ++ msg.toList
          ch := if c = .waitForEvent then s.ch.tail else s.ch
          stopped := stopped } : Program).left = s.left := by
  have hpipes : s.pipes (.finish c ans) = decide (c = .waitForEvent) := rfl
  have hsum : ((s.inbox ++ msg.toList).map Msg.ahead).sum
      = (s.inbox.map Msg.ahead).sum + (msg.toList.map Msg.ahead).sum := by
    rw [List.map_append, List.sum_append]
  unfold left
  dsimp only
  rw [hpipes, hsum]
  by_cases hwait : c = .waitForEvent
  · subst hwait
    have hcount : (s.cmds.erase .waitForEvent).count .waitForEvent + 1
        = s.cmds.count .waitForEvent := by
      have hpos : 0 < s.cmds.count .waitForEvent := List.count_pos_iff.mpr hc
      rw [List.count_erase_self]
      omega
    rw [← hcount]
    rcases result_waitForEvent hres with ⟨ev, rest, hch, rfl⟩ | ⟨hch, -, rfl⟩
    · rw [hch]
      show 1 + (2 * rest.length + _ + (_ + (3 + 0))) = 2 * (rest.length + 1) + _ + _
      omega
    · rw [hch]
      show 1 + (2 * 0 + _ + (_ + (1 + 0))) = 2 * 0 + _ + _
      omega
  · have hnone : (msg.toList.map Msg.ahead).sum = 0 := by
      cases msg with
      | none => rfl
      | some m =>
        show m.ahead + 0 = 0
        rw [ahead_of_not_isEvent (isEvent_result hwait hres m rfl)]
    rw [decide_eq_false hwait, if_neg hwait, hnone, List.count_erase_of_ne (Ne.symm hwait)]
    exact Nat.zero_add _

/-- **One step** without a connection: one of the pipe is one less to come, and no
other puts the end off. -/
theorem left_step {a : ProgramAct} (hinv : Inv s) (hclosed : s.closed = true)
    (h : s.step libs a = some s') :
    s'.closed = true ∧ (if s.pipes a then 1 else 0) + s'.left = s.left := by
  have hpush : ∀ ev, s.push ev = s := fun ev => if_pos hclosed
  cases step_sound h with
  | change files | changeQuietly files => exact ⟨hclosed, Nat.zero_add _⟩
  | announce _ | write ev =>
    rw [hpush]
    exact ⟨hclosed, Nat.zero_add _⟩
  | read hsocket =>
    rw [hinv.drained hclosed] at hsocket
    cases hsocket
  | hangup => exact ⟨rfl, Nat.zero_add _⟩
  | @input msg hin =>
    have hev : msg.event? = none := by
      cases msg with
      | daemonEvent ev => cases hin
      | _ => rfl
    refine ⟨hclosed, ?_⟩
    rw [left_update, hev]
    exact Nat.zero_add _
  | finish hc hres => exact ⟨hclosed, left_finish hc hres⟩
  | handle hi => exact ⟨hclosed, left_handle hi⟩

/-- A full channel, and an event on its way. -/
theorem Inv.left_le (hinv : Inv s) : s.left ≤ 2 * eventBuffer + 3 := by
  have hsum : ∀ l : List Msg, (l.map Msg.ahead).sum ≤ 3 * l.countP Msg.isEvent := by
    intro l
    induction l with
    | nil => exact Nat.le_refl 0
    | cons m l ih =>
      rw [List.map_cons, List.sum_cons, List.countP_cons]
      cases m with
      | daemonEvent ev =>
        show 3 + _ ≤ 3 * (_ + 1)
        omega
      | daemonDisconnected =>
        show 1 + _ ≤ 3 * (_ + 1)
        omega
      | _ =>
        show 0 + _ ≤ 3 * (_ + 0)
        omega
  have hinbox := hsum s.inbox
  have hbound := hinv.bounded
  have honce := hinv.once
  unfold waits at honce
  unfold left
  omega

/-- Until the end is reported a step of the pipe can be taken: `waitForEvent` does not
block on a closed channel. -/
theorem Inv.pipe_goes_on (hinv : Inv s) (hclosed : s.closed = true) (hgoing : s.stopped = false)
    (hreported : s.reported = false) :
    ∃ a t, s.pipes a = true ∧ s.step libs a = some t := by
  have hone := hinv.asked hreported
  unfold waits at hone
  by_cases hc : Cmd.waitForEvent ∈ s.cmds
  · refine ⟨.finish .waitForEvent .done, ?_⟩
    have hres : ∃ msg, s.result .waitForEvent .done = some msg := by
      simp only [result]
      split
      · exact ⟨_, rfl⟩
      · rw [if_pos hclosed]
        exact ⟨_, rfl⟩
    obtain ⟨msg, hres⟩ := hres
    simp only [step, if_pos hc, hres]
    exact ⟨_, rfl, rfl⟩
  · have hmsg : 0 < s.inbox.countP Msg.isEvent := by
      rw [List.count_eq_zero_of_not_mem hc] at hone
      omega
    obtain ⟨msg, hmem, hev⟩ := List.countP_pos_iff.mp hmsg
    obtain ⟨i, hi⟩ := List.getElem?_of_mem hmem
    refine ⟨.handle i, ?_⟩
    simp only [step, hi, hgoing, pipes, Option.any_some]
    exact ⟨_, hev, rfl⟩

/-- The step that reports the end shows it. -/
theorem err_of_reported {a : ProgramAct} (h : s.step libs a = some s')
    (hbefore : s.reported = false) (hafter : s'.reported = true) :
    s'.model.err = some "daemon disconnected" := by
  have hend : ∀ msg : Msg, (s.reported || msg.isEnd) = true → msg = .daemonDisconnected := by
    intro msg hmsg
    rw [hbefore, Bool.false_or] at hmsg
    cases msg with
    | daemonDisconnected => rfl
    | _ => cases hmsg
  have hsame : s'.reported = s.reported → s'.model.err = some "daemon disconnected" := by
    intro hsame
    rw [hsame, hbefore] at hafter
    cases hafter
  have hpush : ∀ ev, (s.push ev).reported = s.reported := by
    intro ev
    unfold push
    split <;> rfl
  cases step_sound h with
  | announce _ | write ev => exact hsame (hpush _)
  | @input msg hin =>
    cases hend msg hafter
    cases hin
  | @handle i msg hi =>
    cases hend msg hafter
    rfl
  | _ => exact hsame rfl

/-- What follows once the connection has ended. -/
structure ReportsEnd (libs : ProgramLibs) (s : Program) : Prop where
  /-- Until the end is reported a step of the pipe can be taken (if the user has not quit) … -/
  goes_on : s.stopped = false → s.reported = false →
    ∃ a t, s.pipes a = true ∧ s.step libs a = some t
  /-- … of which there are so many at most, whatever else is done in between … -/
  bounded : ∀ bs t, run (step libs) s bs = some t →
    countSteps (step libs) pipes s bs ≤ 2 * eventBuffer + 3
  /-- … and the last of them shows the error. -/
  shown : ∀ a t, s.step libs a = some t → s.reported = false → t.reported = true →
    t.model.err = some "daemon disconnected"

theorem Inv.reportsEnd (hinv : Inv s) (hclosed : s.closed = true) : ReportsEnd libs s := by
  refine ⟨hinv.pipe_goes_on hclosed, fun bs t hrun => ?_, fun a t h => err_of_reported h⟩
  have hcount := countSteps_add_measure (p := pipes) (J := fun s => Inv s ∧ s.closed = true)
    (C := fun _ _ => True) (μ := left)
    (fun _ _ _ hs _ h => ⟨inv_step hs.1 h, (left_step hs.1 hs.2 h).1⟩)
    (fun _ _ _ hs _ h => Nat.le_of_eq (left_step hs.1 hs.2 h).2) (stepsMeet_true bs s)
    ⟨hinv, hclosed⟩ hrun
  exact (Nat.le_add_right _ _).trans (hcount.trans hinv.left_le)

/-- **Events reach `Update` in order and once each**, whatever the user types, however
long the commands take and in whatever order they return.  What is missing was
dropped by a reader that found 64 events in the channel, or is lost with the
connection.  The next event is asked for, once, until the end of the connection is
reported; and it is, after at most 131 steps of the pipe, one of which can be taken
at any time until then. -/
theorem events_piped (libs : ProgramLibs) (files : List FileInfo) (as : List ProgramAct) :
    StatesMeet (step libs) (fun s => Piped s ∧ (s.closed = true → ReportsEnd libs s))
      (new files) as :=
  StatesMeet.mono (fun _ hinv => ⟨hinv.toPiped, hinv.reportsEnd⟩)
    (statesMeet_of_stepsMeet (J := Inv) (C := fun _ _ => True)
      (fun _ _ _ hinv h => inv_step hinv h) (fun _ _ _ hinv _ _ h => inv_step hinv h)
      (inv_new files) (inv_new files) (stepsMeet_true as _))

end Program

end Kin.Tui
