/-
  Kin.Tui.Panels

  **THE PANELS** (`internal/tui/catalog_model.go`, `catalog_view.go`,
  `peer_model.go`, `progress.go`).

  The file list with its search box, the peer list and the list of transfers.
  The first two keep a cursor and a window; some of their actions clamp the
  cursor, some scroll the window, some do both:

      SetFiles, Escape, Backspace             — clamp
      Up, Down, half pages                    — clamp and scroll
      First, Last                             — scroll
      typing                                  — both set to zero
      SetSize, Search, Select                 — neither

  `strings.ToLower` is a parameter; widths and styles are left out.
-/
import Mathlib.Data.List.Infix
import Kin.Daemon.Types
import Kin.Lib.Viewport
import Kin.Tui.Keys

namespace Kin.Tui

open Kin.Lib Kin.Daemon

/-! ## §1. The files. -/

structure CatalogModel extends Viewport where
  files : List FileInfo
  /-- The ids of the files marked. -/
  selected : List GoString
  search : GoString
  searching : Bool
  filtered : List FileInfo
  deriving DecidableEq

namespace CatalogModel

/-- `NewCatalogModel`. -/
def new : CatalogModel := ⟨⟨0, 0, 0⟩, [], [], [], false, []⟩

def visible (m : CatalogModel) : List FileInfo :=
  if m.searching ∧ m.search ≠ [] then m.filtered else m.files

def selectedFiles (m : CatalogModel) : List FileInfo :=
  m.visible.filter (fun f => decide (f.fileID ∈ m.selected))

/-- The files whose name matches: `strings.Contains` on lower-cased texts. -/
def matching (lower : GoString → GoString) (search : GoString) (files : List FileInfo) :
    List FileInfo :=
  files.filter (fun f => decide (lower search <:+: lower f.name))

def applyFilter (lower : GoString → GoString) (m : CatalogModel) : CatalogModel :=
  { m with filtered := if m.search = [] then [] else matching lower m.search m.files }

def clampCursor (m : CatalogModel) : CatalogModel :=
  { m with toViewport := m.toViewport.clamp m.visible.length }

def scrollToCursor (m : CatalogModel) : CatalogModel :=
  { m with toViewport := m.toViewport.scroll }

/-- `m.cursor = c`. -/
def setCursor (m : CatalogModel) (c : Int) : CatalogModel :=
  { m with toViewport := { m.toViewport with cursor := c } }

def setFiles (lower : GoString → GoString) (m : CatalogModel) (files : List FileInfo) :
    CatalogModel :=
  ({ m with files := files }.applyFilter lower).clampCursor

/-- `SetSize`; the width is not used here. -/
def setSize (m : CatalogModel) (h : Int) : CatalogModel :=
  { m with toViewport := { m.toViewport with height := h } }

def toggleSelection (m : CatalogModel) : CatalogModel :=
  if m.cursor < 0 then m
  else
    match m.visible[m.cursor.toNat]? with
    | none => m
    | some f =>
      if f.fileID ∈ m.selected then { m with selected := m.selected.filter (· ≠ f.fileID) }
      else { m with selected := f.fileID :: m.selected }

def updateSearch (lower : GoString → GoString) (m : CatalogModel) (k : KeyMsg) : CatalogModel :=
  if k.matches keys.escape then
    ({ m with searching := false, search := [] }.applyFilter lower).clampCursor
  else if k.type = .backspace then
    if m.search ≠ [] then
      -- the last byte, not the last rune
      ({ m with search := m.search.dropLast }.applyFilter lower).clampCursor
    else m
  else if k.type = .runes then
    -- back to the top, without `scrollToCursor`
    let m := { m with search := m.search ++ encodeRunes k.runes }.applyFilter lower
    { m with toViewport := { m.toViewport with cursor := 0, offset := 0 } }
  else if k.matches keys.down then ((m.setCursor (m.cursor + 1)).clampCursor).scrollToCursor
  else if k.matches keys.up then ((m.setCursor (m.cursor - 1)).clampCursor).scrollToCursor
  else m

/-- `Update` on a key. -/
def update (lower : GoString → GoString) (m : CatalogModel) (k : KeyMsg) : CatalogModel :=
  if m.searching then m.updateSearch lower k
  else if k.matches keys.down then ((m.setCursor (m.cursor + 1)).clampCursor).scrollToCursor
  else if k.matches keys.up then ((m.setCursor (m.cursor - 1)).clampCursor).scrollToCursor
  else if k.matches keys.first then (m.setCursor 0).scrollToCursor
  else if k.matches keys.last then (m.setCursor (max 0 (m.visible.length - 1))).scrollToCursor
  else if k.matches keys.halfDown then
    ((m.setCursor (m.cursor + m.height.tdiv 2)).clampCursor).scrollToCursor
  else if k.matches keys.halfUp then
    ((m.setCursor (m.cursor - m.height.tdiv 2)).clampCursor).scrollToCursor
  else if k.matches keys.search then { m with searching := true, search := [] }
  else if k.matches keys.select then m.toggleSelection
  else m

/-- The lines that `CatalogView` writes, by index. -/
def rendered (m : CatalogModel) : List Int := m.toViewport.lines m.visible.length

end CatalogModel

/-! ## §2. The peers. -/

structure PeerModel extends Viewport where
  peers : List PeerInfo
  deriving DecidableEq

/-- The loop of `UpdatePeerOnline` and `UpdatePeerOffline`: the first peer with
the id, if there is one. -/
def setOnline (nodeID : GoString) (online : Bool) : List PeerInfo → Option (List PeerInfo)
  | [] => none
  | p :: ps =>
    if p.nodeID = nodeID then some ({ p with online := online } :: ps)
    else (setOnline nodeID online ps).map (p :: ·)

namespace PeerModel

/-- The zero `PeerModel`. -/
def new : PeerModel := ⟨⟨0, 0, 0⟩, []⟩

def clampCursor (m : PeerModel) : PeerModel :=
  { m with toViewport := m.toViewport.clamp m.peers.length }

def scrollToCursor (m : PeerModel) : PeerModel := { m with toViewport := m.toViewport.scroll }

/-- `m.cursor = c`. -/
def setCursor (m : PeerModel) (c : Int) : PeerModel :=
  { m with toViewport := { m.toViewport with cursor := c } }

def setPeers (m : PeerModel) (peers : List PeerInfo) : PeerModel :=
  { m with peers := peers }.clampCursor

def setSize (m : PeerModel) (h : Int) : PeerModel :=
  { m with toViewport := { m.toViewport with height := h } }

def selectedPeer (m : PeerModel) : Option PeerInfo := m.peers[m.cursor.toNat]?

def updatePeerOnline (m : PeerModel) (info : PeerInfo) : PeerModel :=
  match setOnline info.nodeID true m.peers with
  | some peers => { m with peers := peers }
  -- a peer that the response does not have (yet)
  | none => { m with peers := m.peers ++ [{ info with online := true }] }

/-- `UpdatePeerOffline`: an unknown peer is not added. -/
def updatePeerOffline (m : PeerModel) (nodeID : GoString) : PeerModel :=
  match setOnline nodeID false m.peers with
  | some peers => { m with peers := peers }
  | none => m

/-- `Update` on a key. -/
def update (m : PeerModel) (k : KeyMsg) : PeerModel :=
  if k.matches keys.down then ((m.setCursor (m.cursor + 1)).clampCursor).scrollToCursor
  else if k.matches keys.up then ((m.setCursor (m.cursor - 1)).clampCursor).scrollToCursor
  else if k.matches keys.first then (m.setCursor 0).scrollToCursor
  else if k.matches keys.last then (m.setCursor (max 0 (m.peers.length - 1))).scrollToCursor
  else m

end PeerModel

/-! ## §3. The transfers. -/

structure TransferState where
  fileID : GoString
  fileName : GoString
  done : Bool
  err : Option String
  deriving DecidableEq

structure ProgressModel where
  transfers : List TransferState
  visible : Bool
  deriving DecidableEq

/-- The loop of `MarkDone`: the first transfer with the id, done or not. -/
def markFirst (fileID : GoString) (err : Option String) : List TransferState → List TransferState
  | [] => []
  | t :: ts =>
    if t.fileID = fileID then { t with done := true, err := err } :: ts
    else t :: markFirst fileID err ts

namespace ProgressModel

/-- The zero `ProgressModel`. -/
def new : ProgressModel := ⟨[], false⟩

def toggle (m : ProgressModel) : ProgressModel := { m with visible := !m.visible }

def addTransfer (m : ProgressModel) (f : FileInfo) : ProgressModel :=
  { m with transfers := m.transfers ++ [⟨f.fileID, f.name, false, none⟩] }

def markDone (m : ProgressModel) (fileID : GoString) (err : Option String) : ProgressModel :=
  { m with transfers := markFirst fileID err m.transfers }

def hasActive (m : ProgressModel) : Bool := m.transfers.any (fun t => !t.done)

end ProgressModel

end Kin.Tui
