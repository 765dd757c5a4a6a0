/-
  Kin.Cmd.Receive

  **TWO RECEIVERS OF ONE OFFER** (`cmd/kin/main.go`, `internal/protocol/handler.go`).

  The command line tool has a copy of the daemon's `handleCatalogOffer`.  The
  loops are the same, and the error of `PutPeerEntries` is not: the daemon
  returns it and sends nothing, the tool logs it and acknowledges all the same.

    • `sameButTimes_handlers` — the stores agree after every offer,
    • `receivers_agree_iff` — the replies agree exactly on the offers that can be
      stored.
-/
import Kin.Protocol.Offer
import Kin.Network.Rest

namespace Kin.Cmd

open Kin.Lib Kin.Catalog Kin.Kinpb Kin.Protocol Kin.Network

/-- `handleReceivedOffer`: the store afterwards, and the message sent. -/
def handleReceivedOffer (cat : Store) (clk : Clock) (peerID : NodeID) (offer : CatalogOffer) :
    Store × Option Envelope :=
  -- the loop that skips bad entries is that of `handleCatalogOffer`, line for line
  let entries := acceptFiles offer.files
  -- whatever `PutPeerEntries` returns
  ((cat.putPeerEntries clk peerID entries).1, some ⟨some (.catalogAck ⟨entries.length.toUInt32⟩)⟩)

/-- What the daemon sends: the error of an offer is logged by `Serve`. -/
def daemonReply (s : Store) (clk : Clock) (peerID : NodeID) (offer : CatalogOffer) :
    Option Envelope :=
  (handleCatalogOffer s clk peerID offer).2.toOption

/-- The transaction that writes the entries of the offer commits. -/
def Committed (s : Store) (clk : Clock) (peerID : NodeID) (offer : CatalogOffer) : Prop :=
  (s.putPeerEntries clk peerID (acceptFiles offer.files)).2 = none

/-- **The receivers agree** on an offer, each with its own clock: the stores up
to times, the replies, and neither acknowledges what it has not committed. -/
structure ReceiversAgree (s : Store) (clk clk' : Clock) (p : NodeID) (offer : CatalogOffer) :
    Prop where
  stores : sameButTimes (handleCatalogOffer s clk p offer).1 (handleReceivedOffer s clk' p offer).1
  replies : daemonReply s clk p offer = (handleReceivedOffer s clk' p offer).2
  daemon_committed : daemonReply s clk p offer ≠ none → Committed s clk p offer
  tool_committed : (handleReceivedOffer s clk' p offer).2 ≠ none → Committed s clk' p offer

/-- The times of the well-formed files can be stored. -/
def TimesFit (offer : CatalogOffer) : Prop :=
  ∀ x ∈ offer.files, wellFormed x = true → (Time.ofUnix x.modTimeUnix).jsonOK = true

section Receive

variable {s : Store} (hwf : s.db.WF) (clk clk' : Clock) (p : NodeID) {offer : CatalogOffer}

include hwf

/-- The same entries, written with different clocks. -/
theorem sameButTimes_putPeerEntries {es : List Entry} (hms : ∀ e ∈ es, e.modTime.jsonOK = true) :
    sameButTimes (s.putPeerEntries clk p es).1 (s.putPeerEntries clk' p es).1 := by
  obtain ⟨db, hput, hdb, hne, hself, hown⟩ := Store.putPeerEntries_spec hwf clk p hms
  obtain ⟨db', hput', hdb', hne', hself', hown'⟩ := Store.putPeerEntries_spec hwf clk' p hms
  rw [hput, hput', sameButTimes_iff hdb hdb']
  refine ⟨fun n f => ?_, fun k => ?_⟩
  · show (db.entry n f).map Entry.untimed = (db'.entry n f).map Entry.untimed
    by_cases hn : n = p
    · rw [hn, hself f, hself' f]
    · rw [hne n f hn, hne' n f hn]
  · show db.ownersAt k = db'.ownersAt k
    by_cases hk : offersLive es k
    · rw [(hown k).1 hk, (hown' k).1 hk]
    · rw [(hown k).2 hk, (hown' k).2 hk]

theorem committed_iff : Committed s clk p offer ↔ TimesFit offer := by
  have htimes := (acceptFiles_spec p offer.files).2.1
  unfold Committed TimesFit
  rw [← htimes]
  by_cases hms : ∀ e ∈ acceptFiles offer.files, e.modTime.jsonOK = true
  · obtain ⟨db, hput, -⟩ := Store.putPeerEntries_spec hwf clk p hms
    rw [hput]
    exact iff_of_true rfl hms
  · have hbad : ∃ e ∈ acceptFiles offer.files, ¬ e.modTime.jsonOK = true := by
      push Not at hms
      exact hms
    rw [Store.putPeerEntries_error hwf clk p hbad]
    exact iff_of_false nofun hms

/-- **The stores agree after every offer**: both are written, or both rolled
back. -/
theorem sameButTimes_handlers :
    sameButTimes (handleCatalogOffer s clk p offer).1 (handleReceivedOffer s clk' p offer).1 := by
  rw [handleCatalogOffer_store]
  show sameButTimes _ (s.putPeerEntries clk' p (acceptFiles offer.files)).1
  by_cases hms : ∀ e ∈ acceptFiles offer.files, e.modTime.jsonOK = true
  · exact sameButTimes_putPeerEntries hwf clk clk' p hms
  · push Not at hms
    rw [Store.putPeerEntries_error hwf clk p hms, Store.putPeerEntries_error hwf clk' p hms]
    exact ⟨rfl, rfl⟩

/-- The daemon acknowledges what it commits. -/
theorem daemonReply_eq (hcommit : Committed s clk p offer) :
    daemonReply s clk p offer
      = some ⟨some (.catalogAck ⟨(acceptFiles offer.files).length.toUInt32⟩)⟩ := by
  have htimes := (committed_iff hwf clk p).mp hcommit
  unfold daemonReply
  rw [(handleCatalogOffer_stores hwf clk p htimes).1, (acceptFiles_spec p offer.files).1]
  rfl

/-- It acknowledges nothing else, on any offer. -/
theorem committed_of_daemonReply (h : daemonReply s clk p offer ≠ none) :
    Committed s clk p offer := by
  by_contra hcommit
  have htimes : ¬ TimesFit offer := fun ht => hcommit ((committed_iff hwf clk p).mpr ht)
  obtain ⟨err, hrefused⟩ := handleCatalogOffer_refuses hwf clk p htimes
  unfold daemonReply at h
  rw [hrefused] at h
  exact h rfl

end Receive

/-- **The two receivers agree exactly on the offers that can be stored.**  For
every store that operations can lead to, every peer and every offer, whatever
the clocks show: they leave the same store and send the same reply, and
acknowledge only what is committed, if and only if the time of each well-formed
file lies in the years 0‥9999. -/
theorem receivers_agree_iff (selfID : NodeID) (ops : List Op) (clk clk' : Clock) (p : NodeID)
    (offer : CatalogOffer) :
    ReceiversAgree (Op.applyAll (Store.openFresh selfID) ops) clk clk' p offer
      ↔ TimesFit offer := by
  have hwf : (Op.applyAll (Store.openFresh selfID) ops).db.WF := Op.applyAll_wf ops DB.wf_empty
  generalize Op.applyAll (Store.openFresh selfID) ops = s at hwf
  constructor
  · intro h
    -- the tool always acknowledges
    exact (committed_iff hwf clk' p).mp (h.tool_committed (Option.some_ne_none _))
  · intro h
    have hcommit := (committed_iff hwf clk p).mpr h
    refine ⟨sameButTimes_handlers hwf clk clk' p, ?_, committed_of_daemonReply hwf clk p,
      fun _ => ?_⟩
    · rw [daemonReply_eq hwf clk p hcommit]
      rfl
    · exact (committed_iff hwf clk' p).mpr h

/-- An offer with a file from the year 10000: the daemon stores nothing and says
nothing, the tool stores nothing and acknowledges two files. -/
theorem late_file_acknowledged :
    let s := Store.openFresh (Bytes.lit32 0xAA)
    daemonReply s Clock.epoch (Bytes.lit32 0xBB) year10000Offer = none
      ∧ (handleReceivedOffer s Clock.epoch (Bytes.lit32 0xBB) year10000Offer).2
        = some ⟨some (.catalogAck ⟨2⟩)⟩
      ∧ (handleReceivedOffer s Clock.epoch (Bytes.lit32 0xBB) year10000Offer).1.listAll = [] := by
  decide +kernel

end Kin.Cmd
