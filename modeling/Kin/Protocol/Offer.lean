/-
  Kin.Protocol.Offer

  **WHAT BECOMES OF THE FILES OF AN OFFER** (`handleCatalogOffer`).

  The conversion loop looks at each file of an offer alone and skips those
  whose ids are not 32 bytes.  What is left goes to `PutPeerEntries`, ONE
  transaction, and `encoding/json` refuses a time outside the years 0‥9999: a
  single such time among the well-formed files, and none of them is stored and
  no `CatalogAck` is sent.

    • `acceptFiles_spec` — what the loop lets through,
    • `handleCatalogOffer_stores`, `handleCatalogOffer_refuses` — all or nothing,
    • `offer_taken_iff` — for every store and every offer: all well-formed
      files are stored and counted exactly if all their times can be.
-/
import Kin.Protocol.Exchange

namespace Kin.Protocol

open Kin.Lib Kin.Catalog Kin.Kinpb

/-! ## §1. What an offer asks for. -/

/-- Both ids of the file are 32 bytes long. -/
def wellFormed (x : CatalogFile) : Bool :=
  decide (x.fileId.length = 32) && decide (x.ownerNodeId.length = 32)

/-- The last well-formed file with the id. -/
def lastFile (f : FileID) (files : List CatalogFile) : Option CatalogFile :=
  (files.filter (fun x => wellFormed x && decide (x.fileId = f.val))).getLast?

/-- The entry of a file from the peer, without its `UpdatedAt`.  A `string` from
the wire is valid UTF-8, which JSON keeps as it is. -/
def storedFile (p : NodeID) (f : FileID) (x : CatalogFile) : Entry where
  fileID := f
  name := jsonString x.name
  size := x.size
  modTime := Time.ofUnix x.modTimeUnix
  ownerNodeID := p
  localPath := []
  deleted := x.deleted
  updatedAt := zeroTime

/-- **The offer is taken**: it is acknowledged with the number of its
well-formed files, under the peer stands the last file of each id, and no other
owner's entry has changed. -/
structure OfferTaken (s : Store) (clk : Clock) (p : NodeID) (offer : CatalogOffer) : Prop where
  acked : ∃ n : UInt32, (handleCatalogOffer s clk p offer).2 = .ok ⟨some (.catalogAck ⟨n⟩)⟩
    ∧ n.toNat = (offer.files.filter wellFormed).length
  stored : ∀ f, ((handleCatalogOffer s clk p offer).1.getEntry p f).map Entry.untimed
    = (lastFile f offer.files).map (storedFile p f)
  others : ∀ n f, n ≠ p → (handleCatalogOffer s clk p offer).1.getEntry n f = s.getEntry n f

/-- The times of the well-formed files can be stored, and `uint32` counts them. -/
def Storable (offer : CatalogOffer) : Prop :=
  (∀ x ∈ offer.files, wellFormed x = true → (Time.ofUnix x.modTimeUnix).jsonOK = true)
    ∧ (offer.files.filter wellFormed).length < 2 ^ 32

/-! ## §2. The conversion loop. -/

/-- The entry of a file, as `ProtoToEntry` makes it. -/
def fileEntry (fileID : FileID) (ownerNodeID : NodeID) (x : CatalogFile) : Entry where
  fileID := fileID
  name := x.name
  size := x.size
  modTime := Time.ofUnix x.modTimeUnix
  ownerNodeID := ownerNodeID
  localPath := []
  deleted := x.deleted
  updatedAt := zeroTime

theorem protoToEntry_wellFormed {x : CatalogFile} (h : wellFormed x = true) :
    ∃ f n, x.fileId = f.val ∧ protoToEntry x = .ok (fileEntry f n x) := by
  unfold wellFormed at h
  simp only [Bool.and_eq_true, decide_eq_true_eq] at h
  refine ⟨⟨x.fileId, h.1⟩, ⟨x.ownerNodeId, h.2⟩, rfl, ?_⟩
  unfold protoToEntry Bytes.ofList?
  rw [dif_pos h.1, dif_pos h.2]
  rfl

theorem protoToEntry_malformed {x : CatalogFile} (h : ¬ wellFormed x = true) :
    (protoToEntry x).toOption = none := by
  unfold wellFormed at h
  simp only [Bool.and_eq_true, decide_eq_true_eq, not_and] at h
  unfold protoToEntry Bytes.ofList?
  by_cases hid : x.fileId.length = 32
  · rw [dif_pos hid, dif_neg (h hid)]
    rfl
  · rw [dif_neg hid]
    rfl

theorem acceptFiles_malformed {x : CatalogFile} (h : ¬ wellFormed x = true)
    (xs : List CatalogFile) : acceptFiles (x :: xs) = acceptFiles xs := by
  unfold acceptFiles
  rw [List.filterMap_cons, protoToEntry_malformed h]

theorem acceptFiles_wellFormed {x : CatalogFile} {e : Entry} (h : protoToEntry x = .ok e)
    (xs : List CatalogFile) : acceptFiles (x :: xs) = e :: acceptFiles xs := by
  unfold acceptFiles
  rw [List.filterMap_cons, h]
  rfl

theorem lastFile_cons (f : FileID) (x : CatalogFile) (xs : List CatalogFile) :
    lastFile f (x :: xs)
      = (lastFile f xs).or
          (if wellFormed x = true ∧ x.fileId = f.val then some x else none) := by
  unfold lastFile
  rw [getLast?_filter_cons]
  simp only [Bool.and_eq_true, decide_eq_true_eq]

/-- **What the loop lets through**: as many entries as there are well-formed
files, with their times, the last entry of an id standing for its last file. -/
theorem acceptFiles_spec (p : NodeID) (files : List CatalogFile) :
    (acceptFiles files).length = (files.filter wellFormed).length
      ∧ ((∀ e ∈ acceptFiles files, e.modTime.jsonOK = true)
          ↔ ∀ x ∈ files, wellFormed x = true → (Time.ofUnix x.modTimeUnix).jsonOK = true)
      ∧ ∀ f, (lastOf f (acceptFiles files)).map (Entry.asStored p)
          = (lastFile f files).map (storedFile p f) := by
  induction files with
  | nil => simp [acceptFiles, lastOf, lastFile]
  | cons x xs ih =>
    obtain ⟨hlen, htimes, hlast⟩ := ih
    by_cases hx : wellFormed x = true
    · obtain ⟨g, n, hg, hconv⟩ := protoToEntry_wellFormed hx
      rw [acceptFiles_wellFormed hconv]
      refine ⟨?_, ?_, ?_⟩
      · rw [List.filter_cons_of_pos hx, List.length_cons, List.length_cons, hlen]
      · simp only [List.forall_mem_cons, hx, forall_const]
        exact and_congr Iff.rfl htimes
      · intro f
        rw [lastOf_cons, lastFile_cons]
        -- a later file with the id wins on both sides
        have hor := hlast f
        cases hl : lastOf f (acceptFiles xs) with
        | some e =>
          cases hl' : lastFile f xs with
          | some x' =>
            rw [hl, hl'] at hor
            exact hor
          | none =>
            rw [hl, hl'] at hor
            cases hor
        | none =>
          cases hl' : lastFile f xs with
          | some x' =>
            rw [hl, hl'] at hor
            cases hor
          | none =>
            show Option.map _ (if g = f then some (fileEntry g n x) else none) = _
            by_cases hgf : g = f
            · subst hgf
              rw [if_pos rfl, if_pos ⟨hx, hg⟩]
              rfl
            · have hne : ¬ (wellFormed x = true ∧ x.fileId = f.val) :=
                fun hand => hgf (Bytes.ext (hg.symm.trans hand.2))
              rw [if_neg hgf, if_neg hne]
              rfl
    · rw [acceptFiles_malformed hx]
      refine ⟨?_, ?_, ?_⟩
      · rw [List.filter_cons_of_neg hx, hlen]
      · rw [List.forall_mem_cons, htimes]
        exact ⟨fun h => ⟨fun h' => absurd h' hx, h⟩, fun h => h.2⟩
      · intro f
        rw [hlast f, lastFile_cons, if_neg (fun hand => hx hand.1), Option.or_none]

/-! ## §3. One offer. -/

section Offer

variable {s : Store} (hwf : s.db.WF) (clk : Clock) (p : NodeID) {offer : CatalogOffer}

include hwf

/-- If every well-formed file has a time that can be stored, they are stored and
acknowledged. -/
theorem handleCatalogOffer_stores
    (htimes : ∀ x ∈ offer.files, wellFormed x = true →
      (Time.ofUnix x.modTimeUnix).jsonOK = true) :
    (handleCatalogOffer s clk p offer).2
        = .ok ⟨some (.catalogAck ⟨(offer.files.filter wellFormed).length.toUInt32⟩)⟩
      ∧ (∀ f, ((handleCatalogOffer s clk p offer).1.getEntry p f).map Entry.untimed
          = (lastFile f offer.files).map (storedFile p f))
      ∧ ∀ n f, n ≠ p → (handleCatalogOffer s clk p offer).1.getEntry n f = s.getEntry n f := by
  obtain ⟨hlen, hiff, hlast⟩ := acceptFiles_spec p offer.files
  obtain ⟨db, hput, _, hne, hself, _⟩ :=
    Store.putPeerEntries_spec hwf clk p (hiff.mpr htimes)
  have hhandle : handleCatalogOffer s clk p offer
      = ({ s with db := db },
          .ok ⟨some (.catalogAck ⟨(acceptFiles offer.files).length.toUInt32⟩)⟩) := by
    unfold handleCatalogOffer
    dsimp only
    rw [hput]
  rw [hhandle, ← hlen]
  refine ⟨rfl, fun f => ?_, fun n f hn => hne n f hn⟩
  rw [← hlast f]
  exact hself f

/-- Otherwise the transaction rolls back, and the error takes the place of the
acknowledgement. -/
theorem handleCatalogOffer_refuses
    (hbad : ¬ ∀ x ∈ offer.files, wellFormed x = true →
      (Time.ofUnix x.modTimeUnix).jsonOK = true) :
    ∃ err, handleCatalogOffer s clk p offer = (s, .error err) := by
  rw [← (acceptFiles_spec p offer.files).2.1] at hbad
  push Not at hbad
  unfold handleCatalogOffer
  dsimp only
  rw [Store.putPeerEntries_error hwf clk p hbad]
  exact ⟨_, rfl⟩

end Offer

/-! ## §4. Every store, every offer. -/

/-- **One refused time costs the whole offer.**  In every store that operations
can lead to, for every peer and every offer: the offer is taken if and only if
the time of each well-formed file lies in the years 0‥9999 (and there are fewer
than 2³² of them). -/
theorem offer_taken_iff (selfID : NodeID) (ops : List Op) (clk : Clock) (p : NodeID)
    (offer : CatalogOffer) :
    OfferTaken (Op.applyAll (Store.openFresh selfID) ops) clk p offer ↔ Storable offer := by
  have hwf : (Op.applyAll (Store.openFresh selfID) ops).db.WF := Op.applyAll_wf ops DB.wf_empty
  generalize Op.applyAll (Store.openFresh selfID) ops = s at hwf
  have hcount : (offer.files.filter wellFormed).length.toUInt32.toNat
      = (offer.files.filter wellFormed).length % 2 ^ 32 := UInt32.toNat_ofNat' ..
  by_cases htimes : ∀ x ∈ offer.files, wellFormed x = true →
      (Time.ofUnix x.modTimeUnix).jsonOK = true
  · obtain ⟨hack, hstored, hothers⟩ := handleCatalogOffer_stores hwf clk p htimes
    constructor
    · intro h
      refine ⟨htimes, ?_⟩
      obtain ⟨n, hn, hlen⟩ := h.acked
      have hack' : n = (offer.files.filter wellFormed).length.toUInt32 := by
        simpa using hn.symm.trans hack
      rw [hack', hcount] at hlen
      omega
    · intro h
      exact ⟨⟨_, hack, by rw [hcount]; exact Nat.mod_eq_of_lt h.2⟩, hstored, hothers⟩
  · obtain ⟨err, hrefused⟩ := handleCatalogOffer_refuses hwf clk p htimes
    constructor
    · intro h
      obtain ⟨n, hack, _⟩ := h.acked
      rw [hrefused] at hack
      cases hack
    · intro h
      exact absurd h.1 htimes

/-! ## §5. A file from the year 10000. -/

/-- A file of node `0xBB`. -/
def offeredAt (b : UInt8) (modTimeUnix : Int) : CatalogFile where
  fileId := (Bytes.lit32 b).val
  name := ascii "b.txt"
  size := 20
  modTimeUnix := modTimeUnix
  ownerNodeId := (Bytes.lit32 0xBB).val
  deleted := false

/-- The offer of two files; the time of the second is the first second of the
year 10000. -/
def year10000Offer : CatalogOffer := ⟨[offeredAt 1 1700000000, offeredAt 2 253402300800]⟩

/-- Nothing of the offer is stored, and nothing is acknowledged. -/
theorem late_file_costs_the_other :
    (handleCatalogOffer (Op.applyAll (Store.openFresh (Bytes.lit32 0xAA)) []) Clock.epoch
        (Bytes.lit32 0xBB) year10000Offer).1.getEntry (Bytes.lit32 0xBB) (Bytes.lit32 1) = none
      ∧ ¬ OfferTaken (Op.applyAll (Store.openFresh (Bytes.lit32 0xAA)) []) Clock.epoch
        (Bytes.lit32 0xBB) year10000Offer := by
  refine ⟨by decide +kernel, fun h => ?_⟩
  have hgone : ((handleCatalogOffer (Op.applyAll (Store.openFresh (Bytes.lit32 0xAA)) [])
      Clock.epoch (Bytes.lit32 0xBB) year10000Offer).1.getEntry (Bytes.lit32 0xBB)
        (Bytes.lit32 1)).map Entry.untimed = none := by decide +kernel
  have hlast : (lastFile (Bytes.lit32 1) year10000Offer.files).map
      (storedFile (Bytes.lit32 0xBB) (Bytes.lit32 1)) ≠ none := by decide +kernel
  exact hlast ((h.stored (Bytes.lit32 1)).symm.trans hgone)

end Kin.Protocol
