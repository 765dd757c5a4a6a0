/-
  Kin.Tui.Model

  **THE TOP-LEVEL MODEL** (`internal/tui/model.go`, `commands.go`, `statusbar.go`
  and the overlays).

  `Update` takes one message after the other.  A key goes through a list of
  global shortcuts before it comes to the panel with the focus:

      Ctrl+C          — quits
      an open overlay — takes every key
      q               — quits, unless the search box is open
      tab ? f1 p D i J
      the panel

  A `tea.Cmd` is named by what it does; a batch is the list of its commands.
  The text field of the join overlay and `strings.ToLower` belong to libraries
  and are parameters (`Libs`).
-/
import Kin.Tui.Panels

namespace Kin.Tui

open Kin.Lib Kin.Daemon

/-! ## §1. Messages and commands. -/

inductive Cmd where
  | quit
  | fetchStatus
  | fetchPeers
  | fetchCatalog
  | doInvite
  | doJoin (token : GoString)
  | doDownload (fileID : GoString)
  | waitForEvent
  /-- The action of a confirmed dialog; it returns no message. -/
  | confirmed
  /-- A command of the text field. -/
  | textInput
  deriving DecidableEq

/-- The messages; a result is a response or an error. -/
inductive Msg where
  | windowSize (width height : Int)
  | key (k : KeyMsg)
  | statusResult (r : Except String StatusResponse)
  | peersResult (r : Except String (List PeerInfo))
  | catalogResult (r : Except String (List FileInfo))
  | inviteResult (r : Except String GoString)
  | joinResult (r : Except String GoString)
  | downloadResult (fileID : GoString) (err : Option String)
  | daemonEvent (ev : Event)
  | daemonDisconnected

/-- What the libraries decide. -/
structure Libs where
  /-- `strings.ToLower`. -/
  lower : GoString → GoString
  lower_nil : lower [] = []
  /-- The text field's `Update`, on its value. -/
  textInput : GoString → Msg → GoString × List Cmd

/-- Lower-casing of ASCII texts, and a text field that ignores its keys. -/
def Libs.plain : Libs where
  lower s := s.map (fun b => if 65 ≤ b ∧ b ≤ 90 then b + 32 else b)
  lower_nil := rfl
  textInput s _ := (s, [])

/-! ## §2. Overlays. -/

structure JoinOverlay where
  input : GoString
  err : Option String
  success : GoString
  loading : Bool
  deriving DecidableEq

inductive Overlay where
  | help
  | invite (token : GoString) (err : Option String) (loading : Bool)
  | join (o : JoinOverlay)
  | detail (peer : PeerInfo)
  | confirm (message : GoString)
  deriving DecidableEq

/-- `JoinOverlay.Update` after its own cases: the text field, while it is open. -/
def JoinOverlay.forward (libs : Libs) (o : JoinOverlay) (msg : Msg) :
    Option Overlay × List Cmd :=
  if !o.loading ∧ o.success = [] then
    let (input, cmds) := libs.textInput o.input msg
    (some (.join { o with input := input }), cmds)
  else (some (.join o), [])

def JoinOverlay.update (libs : Libs) (o : JoinOverlay) (msg : Msg) :
    Option Overlay × List Cmd :=
  match msg with
  | .key k =>
    if k.matches keys.escape then (none, [])
    else if k.type = .enter ∧ !o.loading then
      if o.input = [] then (some (.join { o with err := some "token is required" }), [])
      else (some (.join { o with loading := true, err := none }), [.doJoin o.input])
    else o.forward libs msg
  | .joinResult (.error err) => (some (.join { o with loading := false, err := some err }), [])
  | .joinResult (.ok peer) => (some (.join { o with loading := false, success := peer }), [])
  | _ => o.forward libs msg

/-- `Overlay.Update`; `none` closes the overlay. -/
def Overlay.update (libs : Libs) (o : Overlay) (msg : Msg) : Option Overlay × List Cmd :=
  match o, msg with
  | .help, .key k =>
    if k.matches keys.escape ∨ k.matches keys.help then (none, []) else (some o, [])
  | .invite _ _ _, .key k => if k.matches keys.escape then (none, []) else (some o, [])
  | .invite token _ _, .inviteResult (.error err) => (some (.invite token (some err) false), [])
  | .invite _ err _, .inviteResult (.ok token) => (some (.invite token err false), [])
  | .join j, msg => j.update libs msg
  | .detail _, .key k =>
    if k.matches keys.escape ∨ k.matches keys.enter then (none, []) else (some o, [])
  | .confirm _, .key k =>
    if k.text ∈ [ascii "y", ascii "Y"] then (none, [.confirmed])
    else if k.text ∈ [ascii "n", ascii "N", ascii "esc"] then (none, [])
    else (some o, [])
  | _, _ => (some o, [])

/-! ## §3. The model. -/

structure StatusBarModel where
  nodeID : GoString
  peerCount : Int
  relayAddr : GoString
  relayOnline : Bool
  deriving DecidableEq

def StatusBarModel.setStatus (resp : StatusResponse) : StatusBarModel :=
  ⟨resp.nodeIDShort, resp.peerCount, resp.relayAddr, resp.relayOnline⟩

inductive Panel where
  | catalog
  | peers
  deriving DecidableEq

structure Model where
  catalog : CatalogModel
  peers : PeerModel
  status : StatusBarModel
  progress : ProgressModel
  focus : Panel
  overlay : Option Overlay
  width : Int
  height : Int
  err : Option String
  quitting : Bool
  deriving DecidableEq

namespace Model

/-- `NewModel`. -/
def new : Model :=
  ⟨.new, .new, ⟨[], 0, [], false⟩, .new, .catalog, none, 0, 0, none, false⟩

def init : List Cmd := [.fetchStatus, .fetchPeers, .fetchCatalog, .waitForEvent]

/-- The loop of `startDownloads` over the files selected. -/
def startTransfers : List FileInfo → ProgressModel → ProgressModel × List Cmd
  | [], p => (p, [])
  | f :: fs, p =>
    -- one transfer for each entry: a file of two owners is listed twice
    if f.isLocal then startTransfers fs p
    else
      let (p, cmds) := startTransfers fs (p.addTransfer f)
      (p, .doDownload f.fileID :: cmds)

def startDownloads (m : Model) : Model × List Cmd :=
  if m.catalog.selectedFiles = [] then (m, [])
  else
    let (p, cmds) := startTransfers m.catalog.selectedFiles m.progress
    ({ m with progress := if cmds ≠ [] then { p with visible := true } else p }, cmds)

/-- The panel with the focus. -/
def updatePanel (libs : Libs) (m : Model) (k : KeyMsg) : Model :=
  match m.focus with
  | .catalog => { m with catalog := m.catalog.update libs.lower k }
  | .peers =>
    let m := { m with peers := m.peers.update k }
    let m := if k.matches keys.enter then
        match m.peers.selectedPeer with
        | some p => { m with overlay := some (.detail p) }
        | none => m
      else m
    if k.matches keys.disconnect then
      match m.peers.selectedPeer with
      | some p =>
        let message := ascii "Remove peer " ++ p.nodeIDShort ++ ascii "?"
        { m with overlay := some (.confirm message) }
      | none => m
    else m

def handleKey (libs : Libs) (m : Model) (k : KeyMsg) : Model × List Cmd :=
  if k.type = .ctrlC then ({ m with quitting := true }, [.quit])
  else
    match m.overlay with
    | some o =>
      let (overlay, cmds) := o.update libs (.key k)
      ({ m with overlay := overlay }, cmds)
    | none =>
      -- of the shortcuts only this one asks for the search box
      if k.matches keys.quit ∧ !m.catalog.searching then
        ({ m with quitting := true }, [.quit])
      else if k.matches keys.tab then
        ({ m with focus := if m.focus = .catalog then .peers else .catalog }, [])
      else if k.matches keys.help then ({ m with overlay := some .help }, [])
      else if k.matches keys.progress then ({ m with progress := m.progress.toggle }, [])
      else if k.matches keys.download then m.startDownloads
      else if k.matches keys.invite then
        ({ m with overlay := some (.invite [] none true) }, [.doInvite])
      else if k.matches keys.join then
        ({ m with overlay := some (.join ⟨[], none, [], false⟩) }, [])
      else (m.updatePanel libs k, [])

def handleEvent (m : Model) (ev : Event) : Model × List Cmd :=
  match ev with
  | .peerOnline info =>
    let peers := m.peers.updatePeerOnline info
    ({ m with peers := peers, status := { m.status with peerCount := peers.peers.length } },
      [.waitForEvent])
  | .peerOffline nodeID =>
    ({ m with peers := m.peers.updatePeerOffline nodeID }, [.waitForEvent])
  | .catalogUpdated => (m, [.fetchCatalog, .waitForEvent])
  | .other _ => (m, [.waitForEvent])

def handleOverlayResult (libs : Libs) (m : Model) (msg : Msg) : Model × List Cmd :=
  match m.overlay with
  | some o =>
    let (overlay, cmds) := o.update libs msg
    ({ m with overlay := overlay }, cmds)
  | none => (m, [])

/-- `recalcLayout`; the status bar takes a line, the borders take two. -/
def recalcLayout (m : Model) : Model :=
  let panelH := m.height - 1 - 2
  { m with catalog := m.catalog.setSize panelH, peers := m.peers.setSize panelH }

def update (libs : Libs) (m : Model) (msg : Msg) : Model × List Cmd :=
  match msg with
  | .windowSize width height => ({ m with width := width, height := height }.recalcLayout, [])
  | .key k => m.handleKey libs k
  | .statusResult (.ok resp) => ({ m with status := .setStatus resp }, [])
  | .statusResult (.error err) => ({ m with err := some err }, [])
  | .peersResult (.error err) => ({ m with err := some err }, [])
  -- the list is replaced, with the flags that events have set
  | .peersResult (.ok peers) =>
    ({ m with
      peers := m.peers.setPeers peers
      status := { m.status with peerCount := peers.length } }, [])
  | .catalogResult (.error err) => ({ m with err := some err }, [])
  | .catalogResult (.ok files) =>
    ({ m with catalog := m.catalog.setFiles libs.lower files }, [])
  | .daemonEvent ev => m.handleEvent ev
  | .daemonDisconnected => ({ m with err := some "daemon disconnected" }, [])
  | .inviteResult r => m.handleOverlayResult libs (.inviteResult r)
  | .joinResult r => m.handleOverlayResult libs (.joinResult r)
  | .downloadResult fileID err =>
    ({ m with progress := m.progress.markDone fileID err },
      if err = none then [.fetchCatalog] else [])

/-- The model after a sequence of messages. -/
def updates (libs : Libs) (m : Model) (msgs : List Msg) : Model :=
  msgs.foldl (fun m msg => (m.update libs msg).1) m

end Model

end Kin.Tui
