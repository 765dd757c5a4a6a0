/-
  Kin.Network.Model

  **NODES THAT EXCHANGE CATALOGS.**

  Every node has its own catalog store.  A node adds and deletes local files,
  sends an offer of its current catalog, and applies the offers that reach it.
  Sending and applying are SEPARATE steps: between them an offer is in flight
  with the content it was listed with, and offers may be applied in any order
  or not at all.

  `held` is proof-only history: the files each node has had as a local entry.
-/
import Kin.Protocol.Exchange
import Kin.Catalog.Availability

namespace Kin.Network

open Kin.Lib Kin.Catalog Kin.Protocol

/-! ## §1. States and steps. -/

/-- A `CatalogOffer` on its way. -/
structure InFlight where
  src : NodeID
  dst : NodeID
  offer : Kinpb.CatalogOffer

structure Net where
  /-- Each node's catalog. -/
  store : NodeID → Store
  /-- Offers sent and not yet applied. -/
  flight : List InFlight
  /-- History: `(n, f)` once node `n` has put `f` as a local entry. -/
  held : List (NodeID × FileID)

/-- Empty catalogs, nothing sent. -/
def Net.init : Net := ⟨Store.openFresh, [], []⟩

inductive Act where
  /-- `PutLocal` at a node. -/
  | putLocal (n : NodeID) (clk : Clock) (entry : Entry)
  /-- `DeleteLocal` at a node. -/
  | deleteLocal (n : NodeID) (clk : Clock) (fileID : FileID)
  /-- `sendCatalogOfferTo`: list the catalog for `dst` and send it. -/
  | send (src dst : NodeID)
  /-- `handleCatalogOffer` at the destination of the `i`-th offer in flight. -/
  | deliver (i : Nat) (clk : Clock)

/-- Put `s` in as the store of node `n`. -/
def Net.setStore (net : Net) (n : NodeID) (s : Store) : Net :=
  { net with store := Function.update net.store n s }

/-- A `PutLocal` that committed enters the history. -/
def Net.remember (net : Net) (n : NodeID) (f : FileID) : Option String → Net
  | none => { net with held := (n, f) :: net.held }
  | some _ => net

/-- The receiving half of an exchange at its destination. -/
def Net.receive (net : Net) (clk : Clock) (o : InFlight) : Net :=
  net.setStore o.dst (handleCatalogOffer (net.store o.dst) clk o.src o.offer).1

/-- The offer `src` would send to `dst` now. -/
def Net.currentOffer (net : Net) (src dst : NodeID) : InFlight :=
  ⟨src, dst, catalogOfferFor (net.store src) dst⟩

def step (net : Net) : Act → Option Net
  | .putLocal n clk entry =>
    let (s, err) := (net.store n).putLocal clk entry
    some ((net.setStore n s).remember n entry.fileID err)
  | .deleteLocal n clk fileID => some (net.setStore n ((net.store n).deleteLocal clk fileID).1)
  | .send src dst => some { net with flight := net.flight ++ [net.currentOffer src dst] }
  | .deliver i clk =>
    (net.flight[i]?).map fun o => { net.receive clk o with flight := net.flight.eraseIdx i }

@[simp] theorem Net.setStore_self (net : Net) (n : NodeID) (s : Store) :
    (net.setStore n s).store n = s := Function.update_self ..

theorem Net.setStore_of_ne (net : Net) {n m : NodeID} (h : m ≠ n) (s : Store) :
    (net.setStore n s).store m = net.store m := Function.update_of_ne h ..

@[simp] theorem remember_store (net : Net) (n : NodeID) (f : FileID) (err : Option String) :
    (net.remember n f err).store = net.store := by
  cases err <;> rfl

@[simp] theorem remember_flight (net : Net) (n : NodeID) (f : FileID) (err : Option String) :
    (net.remember n f err).flight = net.flight := by
  cases err <;> rfl

/-- A file to share. -/
def sharedFile : Entry where
  fileID := Bytes.lit32 1
  name := ascii "a.txt"
  size := 10
  modTime := Time.ofUnix 1700000000
  ownerNodeID := Bytes.lit32 0xAA
  localPath := ascii "/Kin/a.txt"
  deleted := false
  updatedAt := zeroTime

/-! ## §2. What every reachable network satisfies. -/

/-- An offer as the listing of a well-formed store builds it. -/
def InFlight.Genuine (o : InFlight) : Prop :=
  ∃ es, o.offer = ⟨entriesToProto es⟩
    ∧ ∀ e ∈ es, e.deleted = false ∧ e.modTime.jsonOK = true

/-- Every node runs a well-formed store under its own id, and every offer in
flight came from a listing. -/
structure Net.WF (net : Net) : Prop where
  store : ∀ n, (net.store n).db.WF
  selfID : ∀ n, (net.store n).selfID = n
  flight : ∀ o ∈ net.flight, o.Genuine

theorem Net.wf_init : Net.init.WF where
  store _ := DB.wf_empty
  selfID _ := rfl
  flight := by intro o ho; cases ho

/-- What a store lists for a peer makes a genuine offer. -/
theorem currentOffer_genuine {net : Net} (h : net.WF) (src dst : NodeID) :
    (net.currentOffer src dst).Genuine := by
  refine ⟨(net.store src).listForPeer dst, rfl, fun e he => ?_⟩
  obtain ⟨hget, hlive, _⟩ := (Store.mem_listForPeer (h.store src)).mp he
  exact ⟨hlive, (h.store src).modTime _ _ hget⟩

/-- A write at one node leaves the network well-formed. -/
theorem Net.WF.apply {net : Net} (h : net.WF) (n : NodeID) (op : Op) :
    (net.setStore n (op.apply (net.store n))).WF := by
  refine ⟨fun m => ?_, fun m => ?_, h.flight⟩
  · by_cases hm : m = n
    · rw [hm, Net.setStore_self]
      exact op.apply_wf (h.store n)
    · rw [Net.setStore_of_ne _ hm]
      exact h.store m
  · by_cases hm : m = n
    · rw [hm, Net.setStore_self, Op.selfID_apply]
      exact h.selfID n
    · rw [Net.setStore_of_ne _ hm]
      exact h.selfID m

/-- Receiving an offer is a `PutPeerEntries` at the destination. -/
theorem receive_eq (net : Net) (clk : Clock) (o : InFlight) :
    net.receive clk o
      = net.setStore o.dst
          ((Op.putPeerEntries clk o.src (acceptFiles o.offer.files)).apply (net.store o.dst)) := by
  unfold Net.receive
  rw [handleCatalogOffer_store]
  rfl

/-- **What a step can do.**  A local write at one node (which may add to the
history), an offer sent, or an offer received. -/
theorem step_cases {net net' : Net} {a : Act} (h : step net a = some net') :
    (∃ n clk e, a = .putLocal n clk e
      ∧ net' = (net.setStore n ((Op.putLocal clk e).apply (net.store n))).remember n e.fileID
          ((net.store n).putLocal clk e).2)
    ∨ (∃ n clk f, a = .deleteLocal n clk f
      ∧ net' = net.setStore n ((Op.deleteLocal clk f).apply (net.store n)))
    ∨ (∃ src dst, a = .send src dst
      ∧ net' = { net with flight := net.flight ++ [net.currentOffer src dst] })
    ∨ (∃ i clk o, a = .deliver i clk ∧ net.flight[i]? = some o
      ∧ net' = { net.receive clk o with flight := net.flight.eraseIdx i }) := by
  cases a with
  | putLocal n clk e => exact Or.inl ⟨n, clk, e, rfl, (Option.some.inj h).symm⟩
  | deleteLocal n clk f => exact Or.inr (Or.inl ⟨n, clk, f, rfl, (Option.some.inj h).symm⟩)
  | send src dst => exact Or.inr (Or.inr (Or.inl ⟨src, dst, rfl, (Option.some.inj h).symm⟩))
  | deliver i clk =>
    obtain ⟨o, ho, hnet⟩ := Option.map_eq_some_iff.mp h
    exact Or.inr (Or.inr (Or.inr ⟨i, clk, o, rfl, ho, hnet.symm⟩))

/-- **Every step keeps the network well-formed.** -/
theorem step_wf (net : Net) (a : Act) (net' : Net) (h : net.WF) (hs : step net a = some net') :
    net'.WF := by
  rcases step_cases hs with ⟨n, clk, e, _, rfl⟩ | ⟨n, clk, f, _, rfl⟩ | ⟨src, dst, _, rfl⟩
    | ⟨i, clk, o, _, ho, rfl⟩
  · have hw := h.apply n (Op.putLocal clk e)
    cases ((net.store n).putLocal clk e).2
    · exact ⟨hw.store, hw.selfID, hw.flight⟩
    · exact hw
  · exact h.apply n (Op.deleteLocal clk f)
  · exact ⟨h.store, h.selfID, forall_mem_concat h.flight (currentOffer_genuine h src dst)⟩
  · have hw := h.apply o.dst (Op.putPeerEntries clk o.src (acceptFiles o.offer.files))
    rw [← receive_eq] at hw
    exact ⟨hw.store, hw.selfID, fun o' ho' => h.flight o' (List.mem_of_mem_eraseIdx ho')⟩

/-! ## §3. Receiving a genuine offer. -/

/-- The file ids an offer lists. -/
def InFlight.lists (o : InFlight) (f : FileID) : Prop := ∃ file ∈ o.offer.files, file.fileId = f.val

/-- **A genuine offer is always accepted whole**, and all its files are live:
what the destination then holds under the sender is the last occurrence of
each file listed, and the sender joins the owner list of each. -/
theorem receive_spec {net : Net} (h : net.WF) {o : InFlight} (ho : o.Genuine) (clk : Clock) :
    ∃ db, net.receive clk o = net.setStore o.dst ⟨db, o.dst⟩ ∧ db.WF
      ∧ (∀ n f, n ≠ o.src → db.entry n f = (net.store o.dst).db.entry n f)
      ∧ (∀ f, (db.entry o.src f).map Entry.untimed
          = (lastOf f (acceptFiles o.offer.files)).map (Entry.asStored o.src))
      ∧ (∀ f, db.live o.src f ↔ o.lists f)
      ∧ (∀ f : FileID, o.lists f →
          db.ownersAt f.val
            = some (addOwner o.src (((net.store o.dst).db.ownersAt f.val).getD [])))
      ∧ (∀ k, (∀ f : FileID, f.val = k → ¬ o.lists f) →
          db.ownersAt k = (net.store o.dst).db.ownersAt k) := by
  obtain ⟨es, hoff, hes⟩ := ho
  -- ids from a listing have 32 bytes, so no file is skipped
  have hfiles : acceptFiles o.offer.files = es.map wireCopy := by
    rw [hoff]
    exact acceptFiles_entriesToProto es
  -- whole seconds stay in the years JSON takes
  have hms : ∀ e ∈ acceptFiles o.offer.files, e.modTime.jsonOK = true := by
    intro e he
    rw [hfiles] at he
    obtain ⟨e0, he0, rfl⟩ := List.mem_map.mp he
    show (Time.ofUnix e0.modTime.unix).jsonOK = true
    rw [Time.jsonOK_ofUnix_unix]
    exact (hes e0 he0).2
  have hlive : ∀ e ∈ acceptFiles o.offer.files, e.deleted = false := by
    intro e he
    rw [hfiles] at he
    obtain ⟨e0, he0, rfl⟩ := List.mem_map.mp he
    exact (hes e0 he0).1
  have hlists : ∀ f : FileID, o.lists f ↔ ∃ e ∈ acceptFiles o.offer.files, e.fileID = f := by
    intro f
    unfold InFlight.lists
    rw [hfiles, hoff]
    refine ⟨fun ⟨file, hfile, hf⟩ => ?_, fun ⟨e, he, hf⟩ => ?_⟩
    · obtain ⟨e0, he0, rfl⟩ := List.mem_map.mp hfile
      exact ⟨wireCopy e0, List.mem_map_of_mem he0, Bytes.ext hf⟩
    · obtain ⟨e0, he0, rfl⟩ := List.mem_map.mp he
      exact ⟨entryToProto e0, List.mem_map_of_mem he0, by rw [← hf]; rfl⟩
  obtain ⟨db, hput, hwf, hne, hself, hown⟩ :=
    Store.putPeerEntries_spec (h.store o.dst) clk o.src hms
  have hoffers : ∀ f : FileID, offersLive (acceptFiles o.offer.files) f.val ↔ o.lists f := by
    intro f
    rw [offersLive_iff, hlists]
    exact ⟨fun ⟨e, he, hf, _⟩ => ⟨e, he, hf⟩, fun ⟨e, he, hf⟩ => ⟨e, he, hf, hlive e he⟩⟩
  refine ⟨db, ?_, hwf, hne, hself, fun f => ?_, fun f hf => ?_, fun k hk => ?_⟩
  · rw [receive_eq]
    show net.setStore o.dst ((net.store o.dst).putPeerEntries clk o.src _).1 = _
    rw [hput, h.selfID o.dst]
  · rw [live_iff_untimed, hself f, hlists]
    cases hl : lastOf f (acceptFiles o.offer.files) with
    | none =>
      have hnone := lastOf_eq_none.mp hl
      refine iff_of_false (fun ⟨e, he, _⟩ => by cases he) (fun ⟨e, he, hf⟩ => hnone e he hf)
    | some e =>
      obtain ⟨hmem, hf⟩ := lastOf_mem hl
      exact iff_of_true ⟨e.asStored o.src, rfl, hlive e hmem⟩ ⟨e, hmem, hf⟩
  · exact (hown f.val).1 ((hoffers f).mpr hf)
  · refine (hown k).2 (fun ⟨e, he, hek, _⟩ => ?_)
    exact hk e.fileID hek ((hlists e.fileID).mpr ⟨e, he, rfl⟩)

/-! ## §4. The names a catalog records. -/

/-- The catalog names the node as an owner of the file. -/
def names (tx : DB) (n : NodeID) (f : FileID) : Prop := tx.live n f ∨ n ∈ tx.owners f

/-- A `PutLocal` adds one name at most, the node's own, and only if it commits. -/
theorem names_putLocal {s : Store} (h : s.db.WF) (clk : Clock) (e : Entry) {n : NodeID}
    {f : FileID} (hn : names ((Op.putLocal clk e).apply s).db n f) :
    names s.db n f ∨ ((s.putLocal clk e).2 = none ∧ n = s.selfID ∧ f = e.fileID) := by
  by_cases hm : e.modTime.jsonOK = true
  · have hspec := Store.putLocal_spec h clk hm
    have happ : ((Op.putLocal clk e).apply s).db
        = (s.db.withEntry (s.localCopy clk e)).withHint e.fileID s.selfID (clk.now 1) := by
      show (s.putLocal clk e).1.db = _
      rw [hspec]
    by_cases hnew : n = s.selfID ∧ f = e.fileID
    · exact Or.inr ⟨by rw [hspec], hnew⟩
    · -- neither the entry nor the owner list of another key has changed
      refine Or.inl ?_
      rw [happ] at hn
      rcases hn with hl | ho
      · have hentry : ((s.db.withEntry (s.localCopy clk e)).withHint e.fileID s.selfID
            (clk.now 1)).entry n f = s.db.entry n f := by
          rw [DB.entry_withHint, DB.entry_withEntry]
          exact if_neg hnew
        exact Or.inl ((live_congr hentry).mp hl)
      · rcases (DB.mem_owners_withHint _ _ _ _ _ _).mp ho with ho | ⟨hf, hns⟩
        · exact Or.inr ho
        · exact absurd ⟨hns, hf⟩ hnew
  · -- rolled back
    have happ : (Op.putLocal clk e).apply s = s := by
      show (s.putLocal clk e).1 = s
      rw [Store.putLocal_error s clk hm]
    rw [happ] at hn
    exact Or.inl hn

/-- A `DeleteLocal` adds no name. -/
theorem names_deleteLocal {s : Store} (h : s.db.WF) (clk : Clock) (g : FileID) {n : NodeID}
    {f : FileID} (hn : names ((Op.deleteLocal clk g).apply s).db n f) : names s.db n f := by
  obtain ⟨db, hdel, hne, hdead, hsub, _⟩ := Store.deleteLocal_spec h clk g
  have happ : ((Op.deleteLocal clk g).apply s).db = db := by
    show (s.deleteLocal clk g).1.db = db
    rw [hdel]
  rw [happ] at hn
  rcases hn with ⟨e, he, hlive⟩ | ho
  · by_cases hng : n = s.selfID ∧ f = g
    · -- what is left under the deleted key is a tombstone
      rw [hng.1, hng.2] at he
      rw [hdead e he] at hlive
      cases hlive
    · exact Or.inl ⟨e, (hne n f hng).symm.trans he, hlive⟩
  · exact Or.inr (hsub n f ho)

/-- Receiving a genuine offer names the sender for the files it lists. -/
theorem names_receive {net : Net} (h : net.WF) {o : InFlight} (ho : o.Genuine) (clk : Clock)
    (n : NodeID) (f : FileID) :
    (names ((net.receive clk o).store o.dst).db n f →
      names (net.store o.dst).db n f ∨ (n = o.src ∧ o.lists f))
    ∧ (o.lists f → names ((net.receive clk o).store o.dst).db o.src f) := by
  obtain ⟨db, hrec, _, hne, _, hlive, hadd, hkeep⟩ := receive_spec h ho clk
  have hdb : ((net.receive clk o).store o.dst).db = db := by rw [hrec, Net.setStore_self]
  rw [hdb]
  refine ⟨fun hn => ?_, fun hl => Or.inl ((hlive f).mpr hl)⟩
  by_cases hlist : o.lists f
  · -- listed: the sender may be new as an owner, nobody else is
    by_cases hsrc : n = o.src
    · exact Or.inr ⟨hsrc, hlist⟩
    · refine Or.inl (hn.imp (live_congr (hne n f hsrc)).mp (fun hmem => ?_))
      unfold DB.owners at hmem
      rw [hadd f hlist, Option.getD_some, mem_addOwner] at hmem
      exact hmem.resolve_left hsrc
  · refine Or.inl ?_
    -- not listed: the sender's entry is gone, its place in the owner list is as it was
    rcases hn with hl | hmem
    · by_cases hsrc : n = o.src
      · rw [hsrc] at hl
        exact absurd ((hlive f).mp hl) hlist
      · exact Or.inl ((live_congr (hne n f hsrc)).mp hl)
    · unfold DB.owners at hmem
      rw [hkeep f.val (fun g hg => by rw [Bytes.ext hg]; exact hlist)] at hmem
      exact Or.inr hmem

end Kin.Network
