/-
  Kin.Protocol.Exchange

  **THE CATALOG EXCHANGE OF ONE CONNECTION** (`internal/protocol/handler.go`).

  `sendCatalogOfferTo` lists the catalog for the peer and sends it whole;
  `handleCatalogOffer` skips the files whose ids are not 32 bytes, replaces the
  sender's entries by the rest and answers with their number.  The receiver
  files every entry under the AUTHENTICATED SENDER, whatever owner it names.

  The `onCatalogUpdate` callback tells the local TUI only and is not modelled.
-/
import Kin.Catalog.Ops

namespace Kin.Protocol

open Kin.Lib Kin.Catalog

/-! ## §1. The two halves. -/

/-- The offer `sendCatalogOfferTo` builds for the peer. -/
def catalogOfferFor (s : Store) (peerID : NodeID) : Kinpb.CatalogOffer :=
  ⟨entriesToProto (s.listForPeer peerID)⟩

/-- The conversion loop of `handleCatalogOffer`: bad entries are skipped. -/
def acceptFiles (files : List Kinpb.CatalogFile) : List Entry :=
  files.filterMap (fun f => (protoToEntry f).toOption)

/-- `handleCatalogOffer`: the store afterwards, and the `CatalogAck` or the error. -/
def handleCatalogOffer (s : Store) (clk : Clock) (peerID : NodeID) (offer : Kinpb.CatalogOffer) :
    Store × Except String Kinpb.Envelope :=
  let entries := acceptFiles offer.files
  match s.putPeerEntries clk peerID entries with
  | (s', some err) => (s', .error ("put peer entries: " ++ err))
  | (s', none) => (s', .ok ⟨some (.catalogAck ⟨entries.length.toUInt32⟩)⟩)

theorem handleCatalogOffer_store (s : Store) (clk : Clock) (peerID : NodeID)
    (offer : Kinpb.CatalogOffer) :
    (handleCatalogOffer s clk peerID offer).1
      = (s.putPeerEntries clk peerID (acceptFiles offer.files)).1 := by
  unfold handleCatalogOffer
  dsimp only
  split
  next h => rw [h]
  next h => rw [h]

/-! ## §2. What survives the wire. -/

/-- An entry after its trip over the wire: whole seconds, no local path. -/
def wireCopy (e : Entry) : Entry :=
  { e with modTime := Time.ofUnix e.modTime.unix, localPath := [], updatedAt := zeroTime }

/-- Ids of stored entries are 32 bytes, so none of them is skipped. -/
theorem protoToEntry_entryToProto (e : Entry) :
    protoToEntry (entryToProto e) = .ok (wireCopy e) := by
  unfold protoToEntry entryToProto
  dsimp only
  rw [Bytes.ofList?_val, Bytes.ofList?_val]
  rfl

theorem acceptFiles_entriesToProto (es : List Entry) :
    acceptFiles (entriesToProto es) = es.map wireCopy := by
  induction es with
  | nil => rfl
  | cons e es ih =>
    show acceptFiles (entryToProto e :: entriesToProto es) = _
    unfold acceptFiles at ih ⊢
    rw [List.filterMap_cons, protoToEntry_entryToProto]
    show wireCopy e :: _ = _
    rw [ih]
    rfl

end Kin.Protocol
