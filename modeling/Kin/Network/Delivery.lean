/-
  Kin.Network.Delivery

  **ONE OFFER, END TO END.**

  `ListForPeer` → `EntriesToProto` → `WriteMsg` at the sender, `ReadMsg` →
  `ProtoToEntry` → `PutPeerEntries` at the receiver.  A file that several owners
  hold is offered once for each of them; the receiver keeps the last.

    • `listForPeer_encodes` — stored names are valid UTF-8, so an offer has an
      encoding,
    • `handleCatalogOffer_current` — what the receiver lists afterwards,
    • `handleCatalogOffer_again` — a second delivery refreshes times only,
    • `offer_delivered_end_to_end` — the whole way, for every pair of stores.
-/
import Kin.Network.Rest
import Kin.Protocol.Handler

namespace Kin.Network

open Kin.Lib Kin.Catalog Kin.Protocol Kin.Kinpb

/-! ## §1. What is to arrive. -/

/-- The entry the receiver is to hold of a file that the sender listed last as
`e'`: same name and size, whole seconds, no path, filed under the sender. -/
structure Copied (a : NodeID) (e' e : Entry) : Prop where
  name : e.name = e'.name
  size : e.size = e'.size
  modTime : e.modTime = Time.ofUnix e'.modTime.unix
  localPath : e.localPath = []
  owner : e.ownerNodeID = a

/-- **The receiver `t` lists under `a` what `a` listed**: one entry for each
file id of the listing, the copy of the id's last occurrence, and no other. -/
structure Mirrored (a : NodeID) (listing : List Entry) (t : Store) : Prop where
  once : ((t.listByOwner a).map Entry.fileID).Nodup
  same : ∀ f, f ∈ (t.listByOwner a).map Entry.fileID ↔ f ∈ listing.map Entry.fileID
  last : ∀ e ∈ t.listByOwner a, ∃ e', lastOf e.fileID listing = some e' ∧ Copied a e' e

/-! ## §2. The encoding. -/

/-- Every listing of a store with normal texts can be marshalled. -/
theorem listForPeer_encodes {s : Store} (hwf : s.db.WF) (hn : s.db.normal) (b : NodeID) :
    ∃ data, (offerMsg (catalogOfferFor s b)).marshal = .ok data := by
  have hstrings : (catalogOfferFor s b).files.all (fun f => validUTF8 f.name) = true := by
    rw [List.all_eq_true]
    intro x hx
    obtain ⟨e, he, rfl⟩ := List.mem_map.mp hx
    have hget := ((Store.mem_listForPeer hwf).mp he).1
    have hname : jsonString e.name = e.name := congrArg Entry.name (hn _ _ _ hget)
    exact decide_eq_true hname
  refine ⟨(Payload.catalogOffer (catalogOfferFor s b)).encode, ?_⟩
  show (if (catalogOfferFor s b).files.all (fun f => validUTF8 f.name) = true then _ else _) = _
  rw [if_pos hstrings]

/-! ## §3. The receiver. -/

theorem lastOf_map_wireCopy (f : FileID) (es : List Entry) :
    lastOf f (es.map wireCopy) = (lastOf f es).map wireCopy := by
  unfold lastOf
  rw [List.filter_map, List.getLast?_map]
  rfl

/-- The listed times can be stored again. -/
theorem wireCopy_modTimes {s : Store} (hwf : s.db.WF) (b : NodeID) :
    ∀ e ∈ (s.listForPeer b).map wireCopy, e.modTime.jsonOK = true := by
  intro e he
  obtain ⟨e', he', rfl⟩ := List.mem_map.mp he
  show (Time.ofUnix e'.modTime.unix).jsonOK = true
  rw [Time.jsonOK_ofUnix_unix]
  exact hwf.modTime _ _ ((Store.mem_listForPeer hwf).mp he').1

/-- **A current listing is always taken**: it replaces the sender's entries by
the copies of their last occurrences, and adds the sender to the owners of what
it lists as live. -/
theorem handleCatalogOffer_listing {A B : Store} (hA : A.db.WF) (hB : B.db.WF) (clk : Clock)
    (a b : NodeID) :
    ∃ db ack, handleCatalogOffer B clk a (catalogOfferFor A b) = ({ B with db := db }, .ok ack)
      ∧ db.WF
      ∧ (∀ n f, n ≠ a → db.entry n f = B.db.entry n f)
      ∧ (∀ f, (db.entry a f).map Entry.untimed
          = (lastOf f (A.listForPeer b)).map (fun e => (wireCopy e).asStored a))
      ∧ ∀ k, (offersLive ((A.listForPeer b).map wireCopy) k →
            db.ownersAt k = some (addOwner a ((B.db.ownersAt k).getD [])))
          ∧ (¬ offersLive ((A.listForPeer b).map wireCopy) k →
            db.ownersAt k = B.db.ownersAt k) := by
  obtain ⟨db, hput, hwf, hne, hself, hown⟩ :=
    Store.putPeerEntries_spec hB clk a (wireCopy_modTimes hA b)
  have htaken : handleCatalogOffer B clk a (catalogOfferFor A b)
      = ({ B with db := db },
          .ok ⟨some (.catalogAck ⟨((A.listForPeer b).map wireCopy).length.toUInt32⟩)⟩) := by
    unfold handleCatalogOffer catalogOfferFor
    dsimp only
    rw [acceptFiles_entriesToProto, hput]
  refine ⟨db, _, htaken, hwf, hne, fun f => ?_, hown⟩
  rw [hself f, lastOf_map_wireCopy, Option.map_map]
  rfl

/-- **What the receiver lists afterwards.** -/
theorem handleCatalogOffer_current {A B : Store} (hA : A.db.WF) (hn : A.db.normal) (hB : B.db.WF)
    (clk : Clock) (a b : NodeID) :
    Mirrored a (A.listForPeer b) (handleCatalogOffer B clk a (catalogOfferFor A b)).1 := by
  obtain ⟨db, ack, htaken, hwf, _, hself, _⟩ := handleCatalogOffer_listing hA hB clk a b
  rw [htaken]
  have hstored : ∀ f e, db.entry a f = some e →
      ∃ e', lastOf f (A.listForPeer b) = some e' ∧ e.untimed = (wireCopy e').asStored a := by
    intro f e he
    have hf := hself f
    rw [he, Option.map_some] at hf
    obtain ⟨e', he', heq⟩ := Option.map_eq_some_iff.mp hf.symm
    exact ⟨e', he', heq.symm⟩
  constructor
  · exact listByPrefixTx_nodup hwf a
  · intro f
    simp only [List.mem_map]
    constructor
    · intro ⟨e, he, hef⟩
      obtain ⟨e', hlast, _⟩ := hstored e.fileID e ((mem_listByPrefixTx hwf).mp he).1
      obtain ⟨hmem, hid⟩ := lastOf_mem hlast
      exact ⟨e', hmem, hid.trans hef⟩
    · intro ⟨e₀, he₀, hf⟩
      cases hlast : lastOf f (A.listForPeer b) with
      | none => exact absurd hf (lastOf_eq_none.mp hlast e₀ he₀)
      | some e' =>
        have hentry := hself f
        rw [hlast] at hentry
        obtain ⟨e, he, hunt⟩ := Option.map_eq_some_iff.mp hentry
        have hdel : e.untimed.deleted = e'.deleted := by
          rw [hunt]
          rfl
        -- only live entries are offered, so the copy is live
        have hlive := ((Store.mem_listForPeer hA).mp (lastOf_mem hlast).1).2.1
        have hid := (hwf.entry_ids he).2
        refine ⟨e, (mem_listByPrefixTx hwf).mpr ⟨?_, hdel.trans hlive⟩, hid⟩
        rw [hid]
        exact he
  · intro e he
    have hget := ((mem_listByPrefixTx hwf).mp he).1
    obtain ⟨e', hlast, hunt⟩ := hstored e.fileID e hget
    have hname : jsonString e'.name = e'.name :=
      congrArg Entry.name (hn _ _ _ ((Store.mem_listForPeer hA).mp (lastOf_mem hlast).1).1)
    refine ⟨e', hlast, ?_, ?_, ?_, ?_, (hwf.entry_ids hget).1⟩
    · have h : e.untimed.name = jsonString e'.name := by
        rw [hunt]
        rfl
      exact h.trans hname
    · show e.untimed.size = e'.size
      rw [hunt]
      rfl
    · show e.untimed.modTime = Time.ofUnix e'.modTime.unix
      rw [hunt]
      rfl
    · show e.untimed.localPath = []
      rw [hunt]
      rfl

/-- **A second delivery refreshes times only.** -/
theorem handleCatalogOffer_again {A B : Store} (hA : A.db.WF) (hB : B.db.WF) (clk clk' : Clock)
    (a b : NodeID) :
    sameButTimes
      (handleCatalogOffer (handleCatalogOffer B clk a (catalogOfferFor A b)).1 clk' a
        (catalogOfferFor A b)).1
      (handleCatalogOffer B clk a (catalogOfferFor A b)).1 := by
  obtain ⟨db, ack, htaken, hwf, hne, hself, hown⟩ := handleCatalogOffer_listing hA hB clk a b
  rw [htaken]
  obtain ⟨db', ack', htaken', hwf', hne', hself', hown'⟩ :=
    handleCatalogOffer_listing hA (B := { B with db := db }) hwf clk' a b
  rw [htaken', sameButTimes_iff hwf' hwf]
  constructor
  · intro n f
    show (db'.entry n f).map Entry.untimed = (db.entry n f).map Entry.untimed
    by_cases h : n = a
    · rw [h, hself' f, hself f]
    · rw [hne' n f h]
  · intro k
    show db'.ownersAt k = db.ownersAt k
    by_cases h : offersLive ((A.listForPeer b).map wireCopy) k
    · -- the sender is among the owners already
      rw [(hown' k).1 h]
      show some (addOwner a ((db.ownersAt k).getD [])) = db.ownersAt k
      rw [(hown k).1 h, Option.getD_some, addOwner_idem]
    · exact (hown' k).2 h

/-! ## §4. The whole way. -/

/-- **One offer, end to end.**  For every store of `a` and every store of `b`: if
protobuf gives the offer back and it fits into a frame, then it is written, read
as it was, and applied without error; `b` lists under `a` exactly what `a` listed
for `b`; and to apply the same offer once more changes nothing but times. -/
theorem offer_delivered_end_to_end (a b : NodeID) (opsA opsB : List Op) (clk clk' : Clock)
    (unmarshal : GoString → Except String Envelope) (rest : GoString)
    (hround : ∀ data,
      (offerMsg (catalogOfferFor (Op.applyAll (Store.openFresh a) opsA) b)).marshal = .ok data →
        unmarshal data = .ok (offerMsg (catalogOfferFor (Op.applyAll (Store.openFresh a) opsA) b)))
    (hsize : ∀ data,
      (offerMsg (catalogOfferFor (Op.applyAll (Store.openFresh a) opsA) b)).marshal = .ok data →
        data.length ≤ maxMsgSize) :
    ∃ frame offer t ack,
      writeMsg (offerMsg (catalogOfferFor (Op.applyAll (Store.openFresh a) opsA) b)) = .ok frame
        ∧ readMsg unmarshal (frame ++ rest) = .ok (offerMsg offer, rest)
        ∧ handleCatalogOffer (Op.applyAll (Store.openFresh b) opsB) clk a offer = (t, .ok ack)
        ∧ Mirrored a ((Op.applyAll (Store.openFresh a) opsA).listForPeer b) t
        ∧ sameButTimes (handleCatalogOffer t clk' a offer).1 t := by
  have hA : (Op.applyAll (Store.openFresh a) opsA).db.WF := Op.applyAll_wf opsA DB.wf_empty
  have hB : (Op.applyAll (Store.openFresh b) opsB).db.WF := Op.applyAll_wf opsB DB.wf_empty
  have hn : (Op.applyAll (Store.openFresh a) opsA).db.normal :=
    Op.applyAll_normal opsA DB.wf_empty DB.normal_empty
  generalize Op.applyAll (Store.openFresh a) opsA = A at *
  generalize Op.applyAll (Store.openFresh b) opsB = B at *
  obtain ⟨data, hdata⟩ := listForPeer_encodes hA hn b
  have hwrite : writeMsg (offerMsg (catalogOfferFor A b)) = .ok (putUint32 data.length ++ data) := by
    unfold writeMsg
    rw [hdata]
    dsimp only
    rw [if_neg (Nat.not_lt.mpr (hsize data hdata))]
  have hread := readMsg_writeMsg hround hwrite rest
  have hmirror := handleCatalogOffer_current hA hn hB clk a b
  have hagain := handleCatalogOffer_again hA hB clk clk' a b
  obtain ⟨db, ack, htaken, _⟩ := handleCatalogOffer_listing hA hB clk a b
  rw [htaken] at hmirror hagain
  exact ⟨_, _, _, _, hwrite, hread, htaken, hmirror, hagain⟩

/-- A decoder that knows one message. -/
def readsBack (env : Envelope) (data : GoString) : Except String Envelope :=
  match env.marshal with
  | .error err => .error err
  | .ok data' => if data' = data then .ok env else .error "proto: cannot parse invalid wire-format data"

theorem readsBack_marshal {env : Envelope} {data : GoString} (h : env.marshal = .ok data) :
    readsBack env data = .ok env := by
  unfold readsBack
  rw [h]
  exact if_pos rfl

/-- The shared file under another name. -/
def sharedAs (name : String) : Entry := { sharedFile with name := ascii name }

/-- Node `0xAA` holds the file itself and lists it under `0xCC` as well. -/
def heldTwice : List Op :=
  [.putLocal Clock.epoch (sharedAs "a.txt"),
    .putPeerEntries Clock.epoch (Bytes.lit32 0xCC) [sharedAs "c.txt"]]

/-- What `0xAA` offers to `0xBB` then. -/
def twiceOffered : Envelope :=
  offerMsg (catalogOfferFor (Op.applyAll (Store.openFresh (Bytes.lit32 0xAA)) heldTwice)
    (Bytes.lit32 0xBB))

/-- The file is offered twice and arrives once, under the name it has at `0xCC`. -/
theorem twice_offered_arrives_once :
    ((Op.applyAll (Store.openFresh (Bytes.lit32 0xAA)) heldTwice).listForPeer
        (Bytes.lit32 0xBB)).map Entry.name = [ascii "a.txt", ascii "c.txt"]
      ∧ ∃ frame offer t ack,
        writeMsg twiceOffered = .ok frame
          ∧ readMsg (readsBack twiceOffered) (frame ++ []) = .ok (offerMsg offer, [])
          ∧ handleCatalogOffer (Op.applyAll (Store.openFresh (Bytes.lit32 0xBB)) []) Clock.epoch
              (Bytes.lit32 0xAA) offer = (t, .ok ack)
          ∧ Mirrored (Bytes.lit32 0xAA)
              ((Op.applyAll (Store.openFresh (Bytes.lit32 0xAA)) heldTwice).listForPeer
                (Bytes.lit32 0xBB)) t
          ∧ sameButTimes (handleCatalogOffer t Clock.epoch (Bytes.lit32 0xAA) offer).1 t := by
  have hsize : twiceOffered.marshal.toOption.all (fun data => decide (data.length ≤ maxMsgSize))
      = true := by decide +kernel
  refine ⟨by decide +kernel, ?_⟩
  exact offer_delivered_end_to_end (Bytes.lit32 0xAA) (Bytes.lit32 0xBB) heldTwice [] Clock.epoch
    Clock.epoch (readsBack twiceOffered) [] (fun data hdata => readsBack_marshal hdata)
    (fun data hdata => by
      rw [show twiceOffered.marshal = .ok data from hdata] at hsize
      exact of_decide_eq_true hsize)

end Kin.Network
