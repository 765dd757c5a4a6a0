/-
  Kin.Network.Ghost

  **FILES NOBODY HAS, KEPT ALIVE BY RE-OFFERS.**

  `ListForPeer` leaves out of an offer only the entries owned by the target.
  Two nodes cannot keep a deleted file alive that way; THREE can: each has the
  file from the two others, so each goes on offering it to both.

    • `OneFile` — the networks in which one file travels, and what an exchange
      does to them (`OneFile.receive`, `OneFile.run_exchanges`),
    • `OneFile.atRest` — settled means at rest there,
    • `ghostRun_spec` — the schedule that leaves a ghost among any three nodes
      or more,
    • `no_ghost_files_iff` — the sets of nodes for which rest implies that no
      ghost is left are those of at most two.
-/
import Kin.Network.Rest

namespace Kin.Network

open Kin.Lib Kin.Catalog Kin.Protocol

/-! ## §1. One file on its way. -/

/-- The copy of the shared file that is stored under a peer. -/
def relayed (n : NodeID) : Entry := (wireCopy sharedFile).asStored n

theorem jsonString_sharedName : jsonString sharedFile.name = sharedFile.name := by decide +kernel

/-- What a peer stores of an entry does not depend on its times. -/
theorem asStored_wireCopy_congr {e e' : Entry} (h : e.untimed = e'.untimed) (p : NodeID) :
    (wireCopy e).asStored p = (wireCopy e').asStored p := by
  show (wireCopy e.untimed).asStored p = (wireCopy e'.untimed).asStored p
  rw [h]

/-- Passing a copy on gives the same copy under the next peer. -/
theorem asStored_wireCopy_relayed (p n : NodeID) : (wireCopy (relayed n)).asStored p = relayed p := by
  -- the name is valid UTF-8, so storing it again changes nothing
  have hname : jsonString (jsonString sharedFile.name) = jsonString sharedFile.name :=
    congrArg jsonString jsonString_sharedName
  unfold relayed wireCopy Entry.asStored Entry.normal Entry.untimed
  simp only [hname]
  rfl

/-- A network in which nothing but the shared file travels. -/
structure OneFile (net : Net) : Prop where
  wf : net.WF
  flight : net.flight = []
  /-- Nothing else is stored. -/
  file : ∀ m n g e, (net.store m).db.entry n g = some e → g = sharedFile.fileID
  /-- A live entry is passed on as the same copy. -/
  wire : ∀ m n g e, (net.store m).db.entry n g = some e → e.deleted = false →
    ∀ p, (wireCopy e).asStored p = relayed p
  /-- What is stored under a peer is the copy. -/
  copy : ∀ m n g e, (net.store m).db.entry n g = some e → n ≠ m → e.untimed = relayed n
  /-- Whoever has the file is listed as an owner. -/
  owners : ∀ m n, knows sharedFile.fileID net m n → n ∈ (net.store m).db.owners sharedFile.fileID

/-- In such a network the shared file is offered or nothing. -/
theorem OneFile.offers_eq {net : Net} (h : OneFile net) {a b : NodeID} {g : FileID}
    (hoff : (knows g net).offers a b) : g = sharedFile.fileID := by
  obtain ⟨z, _, e, he, _⟩ := hoff
  exact h.file a z g e he

/-- **What an offer leaves under its sender**: the copy of a file that is
offered, nothing for any other. -/
theorem OneFile.offered {net : Net} (h : OneFile net) (a b : NodeID) (g : FileID) :
    ((knows g net).offers a b →
      (lastOf g (((net.store a).listForPeer b).map wireCopy)).map (Entry.asStored a)
        = some (relayed a))
    ∧ (¬ (knows g net).offers a b →
      (lastOf g (((net.store a).listForPeer b).map wireCopy)).map (Entry.asStored a) = none) := by
  have hoff : (knows g net).offers a b
      ↔ ∃ e ∈ (net.store a).listForPeer b, e.fileID = g := by
    refine ⟨fun ⟨z, hzb, e, he, hlive⟩ => ?_, fun ⟨e, he, hg⟩ => ?_⟩
    · obtain ⟨hz, hf⟩ := (h.wf.store a).entry_ids he
      exact ⟨e, (Store.mem_listForPeer (h.wf.store a)).mpr
        ⟨by rw [hz, hf]; exact he, hlive, by rw [hz]; exact hzb⟩, hf⟩
    · obtain ⟨hget, hlive, hne⟩ := (Store.mem_listForPeer (h.wf.store a)).mp he
      rw [hg] at hget
      exact ⟨e.ownerNodeID, hne, e, hget, hlive⟩
  rw [hoff]
  -- either the listing has the file, and any occurrence of it becomes the copy, or it has not
  cases hl : lastOf g (((net.store a).listForPeer b).map wireCopy) with
  | none =>
    refine ⟨fun ⟨e, he, hg⟩ => ?_, fun _ => rfl⟩
    exact absurd hg (lastOf_eq_none.mp hl (wireCopy e) (List.mem_map_of_mem he))
  | some x =>
    obtain ⟨hmem, hxg⟩ := lastOf_mem hl
    obtain ⟨e, he, rfl⟩ := List.mem_map.mp hmem
    refine ⟨fun _ => ?_, fun hno => absurd ⟨e, he, hxg⟩ hno⟩
    obtain ⟨hget, hlive, _⟩ := (Store.mem_listForPeer (h.wf.store a)).mp he
    rw [Option.map_some, h.wire a _ _ e hget hlive a]

/-- **One exchange keeps the network a one-file network.** -/
theorem OneFile.receive {net : Net} (h : OneFile net) (clk : Clock) (a b : NodeID) :
    OneFile (net.receive clk (net.currentOffer a b)) := by
  obtain ⟨db, _, hself, hother, hne, hunt, _, hadd, hkeep⟩ := exchange_spec h.wf clk a b
  -- what stands anywhere is old, or it is the copy under the sender
  have hentry : ∀ m n g e, ((net.receive clk (net.currentOffer a b)).store m).db.entry n g = some e →
      (net.store m).db.entry n g = some e
        ∨ (n = a ∧ g = sharedFile.fileID ∧ e.untimed = relayed a) := by
    intro m n g e he
    by_cases hm : m = b
    · subst hm
      rw [hself] at he
      by_cases hn : n = a
      · subst hn
        have hmap := hunt g
        rw [show db.entry n g = some e from he, Option.map_some] at hmap
        by_cases hoff : (knows g net).offers n m
        · rw [(h.offered n m g).1 hoff] at hmap
          exact Or.inr ⟨rfl, h.offers_eq hoff, Option.some.inj hmap⟩
        · rw [(h.offered n m g).2 hoff] at hmap
          cases hmap
      · exact Or.inl ((hne n g hn).symm.trans he)
    · rw [hother m hm] at he
      exact Or.inl he
  refine ⟨receive_wf h.wf clk _, h.flight, fun m n g e he => ?_, fun m n g e he hlive p => ?_,
    fun m n g e he hnm => ?_, fun m n hk => ?_⟩
  · rcases hentry m n g e he with hold | ⟨_, hg, _⟩
    · exact h.file m n g e hold
    · exact hg
  · rcases hentry m n g e he with hold | ⟨_, _, he'⟩
    · exact h.wire m n g e hold hlive p
    · rw [← asStored_wireCopy_relayed p a]
      exact asStored_wireCopy_congr he' p
  · rcases hentry m n g e he with hold | ⟨hn, _, he'⟩
    · exact h.copy m n g e hold hnm
    · rw [hn]
      exact he'
  · -- the owner list of the destination only grows, by the sender if it offers
    have hk' := (knows_receive h.wf clk a b _ m n).mp hk
    by_cases hm : m = b
    · subst hm
      rw [hself]
      show n ∈ (db.ownersAt sharedFile.fileID.val).getD []
      by_cases hoff : (knows sharedFile.fileID net).offers a m
      · rw [hadd _ hoff, Option.getD_some, mem_addOwner]
        rcases hk' with ⟨_, hn, _⟩ | ⟨_, hold⟩
        · exact Or.inl hn
        · exact Or.inr (h.owners m n hold)
      · rw [hkeep _ (fun g hg => by rw [Bytes.ext hg]; exact hoff)]
        rcases hk' with ⟨_, _, hoff'⟩ | ⟨_, hold⟩
        · exact absurd hoff' hoff
        · exact h.owners m n hold
    · rw [hother m hm]
      rcases hk' with ⟨hmb, _, _⟩ | ⟨_, hold⟩
      · exact absurd hmb hm
      · exact h.owners m n hold

/-- **In a one-file network, settled means at rest.** -/
theorem OneFile.atRest {net : Net} (h : OneFile net) {N : Finset NodeID}
    (hset : (knows sharedFile.fileID net).Settled N) : AtRest N net := by
  intro a ha b hb hab clk
  obtain ⟨db, hwf, hself, _, hne, hunt, _, hadd, hkeep⟩ := exchange_spec h.wf clk a b
  rw [hself, sameButTimes_iff hwf (h.wf.store b)]
  refine ⟨fun n g => ?_, fun k => ?_⟩
  · show (db.entry n g).map Entry.untimed = ((net.store b).db.entry n g).map Entry.untimed
    by_cases hn : n = a
    · subst hn
      rw [hunt g]
      cases he : (net.store b).db.entry n g with
      | none =>
        rw [(h.offered n b g).2]
        · rfl
        · intro hoff
          have hg := h.offers_eq hoff
          subst hg
          obtain ⟨e, he', _⟩ := (hset n ha b hb hab).mpr hoff
          rw [he] at he'
          cases he'
      | some e =>
        have hg := h.file b n g e he
        subst hg
        have hcopy := h.copy b n _ e he hab
        -- settled: what is there is what would be offered
        have hlive : e.deleted = false := congrArg Entry.deleted hcopy
        rw [(h.offered n b _).1 ((hset n ha b hb hab).mp ⟨e, he, hlive⟩), Option.map_some, hcopy]
    · rw [hne n g hn]
  · show db.ownersAt k = (net.store b).db.ownersAt k
    by_cases hoff : (knows sharedFile.fileID net).offers a b ∧ k = sharedFile.fileID.val
    · -- the sender is on the list already
      obtain ⟨hoff, rfl⟩ := hoff
      have hmem := h.owners b a ((hset a ha b hb hab).mpr hoff)
      rw [hadd _ hoff]
      unfold DB.owners at hmem
      cases ho : (net.store b).db.ownersAt sharedFile.fileID.val with
      | none =>
        rw [ho] at hmem
        cases hmem
      | some l =>
        rw [ho] at hmem
        exact congrArg some (addOwner_of_mem hmem)
    · refine hkeep k (fun g hg hg' => hoff ?_)
      have hgf := h.offers_eq hg'
      subst hgf
      exact ⟨hg', hg.symm⟩

/-! ## §2. The schedule. -/

/-- Send the current offer and apply it. -/
def exchangeActs (p : NodeID × NodeID) : List Act := [.send p.1 p.2, .deliver 0 Clock.epoch]

/-- One node shares the file, everyone exchanges catalogs in three rounds, and
the node deletes the file. -/
def ghostRun (a : NodeID) (xs : List NodeID) : List Act :=
  .putLocal a Clock.epoch sharedFile :: ((Knows.rounds a xs).flatMap exchangeActs
    ++ [.deleteLocal a Clock.epoch sharedFile.fileID])

/-- The catalog that holds the shared file as a local entry. -/
def sharedStore (a : NodeID) : Store :=
  ⟨(DB.empty.withEntry ((Store.openFresh a).localCopy Clock.epoch sharedFile)).withHint
    sharedFile.fileID a (Clock.epoch.now 1), a⟩

/-- The network once the file is shared at `a`. -/
def sharedNet (a : NodeID) : Net :=
  (Net.init.setStore a (sharedStore a)).remember a sharedFile.fileID none

theorem step_share (a : NodeID) :
    step Net.init (.putLocal a Clock.epoch sharedFile) = some (sharedNet a) := by
  have hput : (Store.openFresh a).putLocal Clock.epoch sharedFile = (sharedStore a, none) :=
    Store.putLocal_spec (s := Store.openFresh a) DB.wf_empty Clock.epoch
      (show sharedFile.modTime.jsonOK = true from rfl)
  show some ((Net.init.setStore a ((Store.openFresh a).putLocal Clock.epoch sharedFile).1).remember a
    sharedFile.fileID ((Store.openFresh a).putLocal Clock.epoch sharedFile).2) = _
  rw [hput]
  rfl

theorem entry_sharedStore (a n : NodeID) (g : FileID) :
    (sharedStore a).db.entry n g
      = if n = a ∧ g = sharedFile.fileID
        then some ((Store.openFresh a).localCopy Clock.epoch sharedFile).normal else none := by
  unfold sharedStore
  rw [DB.entry_withHint, DB.entry_withEntry]
  rfl

/-- The only entry there is the local one at `a`. -/
theorem entry_sharedNet {a m n : NodeID} {g : FileID} {e : Entry}
    (he : ((sharedNet a).store m).db.entry n g = some e) :
    m = a ∧ n = a ∧ g = sharedFile.fileID
      ∧ e = ((Store.openFresh a).localCopy Clock.epoch sharedFile).normal := by
  unfold sharedNet at he
  rw [remember_store] at he
  by_cases hm : m = a
  · subst hm
    rw [Net.setStore_self, entry_sharedStore] at he
    split at he
    next h => exact ⟨rfl, h.1, h.2, (Option.some.inj he).symm⟩
    next => cases he
  · rw [Net.setStore_of_ne _ hm] at he
    cases he

theorem knows_sharedNet (a p q : NodeID) :
    knows sharedFile.fileID (sharedNet a) p q ↔ p = a ∧ q = a := by
  refine ⟨fun ⟨e, he, _⟩ => ?_, fun ⟨hp, hq⟩ => ?_⟩
  · obtain ⟨hm, hn, _⟩ := entry_sharedNet he
    exact ⟨hm, hn⟩
  · subst hp hq
    refine ⟨((Store.openFresh q).localCopy Clock.epoch sharedFile).normal, ?_, rfl⟩
    unfold sharedNet
    rw [remember_store, Net.setStore_self, entry_sharedStore, if_pos ⟨rfl, rfl⟩]

theorem oneFile_sharedNet (a : NodeID) : OneFile (sharedNet a) where
  wf := step_wf Net.init _ _ Net.wf_init (step_share a)
  flight := rfl
  file := fun m n g e he => (entry_sharedNet he).2.2.1
  wire := by
    intro m n g e he _ p
    have hname : jsonString (jsonString sharedFile.name) = jsonString sharedFile.name :=
      congrArg jsonString jsonString_sharedName
    rw [(entry_sharedNet he).2.2.2]
    unfold relayed wireCopy Entry.asStored Entry.normal Entry.untimed Store.localCopy
    simp only [hname]
    rfl
  copy := by
    intro m n g e he hnm
    obtain ⟨hm, hn, _⟩ := entry_sharedNet he
    exact absurd (hn.trans hm.symm) hnm
  owners := by
    intro m n hk
    obtain ⟨hm, hn⟩ := (knows_sharedNet a m n).mp hk
    subst hm hn
    unfold sharedNet
    rw [remember_store, Net.setStore_self]
    exact (DB.mem_owners_withHint _ _ _ _ _ _).mpr (Or.inr ⟨rfl, rfl⟩)

/-- Sending and applying with nothing else in flight is one exchange. -/
theorem run_exchangeActs {net : Net} (hf : net.flight = []) (p : NodeID × NodeID) :
    run step net (exchangeActs p)
      = some (net.receive Clock.epoch (net.currentOffer p.1 p.2)) := by
  obtain ⟨store, flight, held⟩ := net
  simp only at hf
  subst hf
  rfl

/-- **A sequence of exchanges is a sweep of the fact.**  By induction on the
pairs; the networks in between stay one-file networks. -/
theorem OneFile.run_exchanges (ps : List (NodeID × NodeID)) :
    ∀ {net : Net}, OneFile net → ∃ net', run step net (ps.flatMap exchangeActs) = some net'
      ∧ OneFile net' ∧ knows sharedFile.fileID net' = (knows sharedFile.fileID net).sweep ps := by
  induction ps with
  | nil =>
    intro net h
    exact ⟨net, rfl, h, rfl⟩
  | cons p ps ih =>
    intro net h
    -- the first exchange, then the rest from the network it leads to
    have hknows : knows sharedFile.fileID (net.receive Clock.epoch (net.currentOffer p.1 p.2))
        = (knows sharedFile.fileID net).exchange p.1 p.2 :=
      funext fun m => funext fun n => propext (knows_receive h.wf Clock.epoch p.1 p.2 _ m n)
    obtain ⟨net', hrun, hone, hk⟩ := ih (h.receive Clock.epoch p.1 p.2)
    refine ⟨net', ?_, hone, ?_⟩
    · rw [List.flatMap_cons, run_append_eq_some]
      exact ⟨_, run_exchangeActs h.flight p, hrun⟩
    · rw [hk, hknows]
      rfl

/-- **The holder deletes the file**: the network is still a one-file network,
and the holder has forgotten the fact. -/
theorem OneFile.deleteLocal {net : Net} (h : OneFile net) (a : NodeID) :
    ∃ net', step net (.deleteLocal a Clock.epoch sharedFile.fileID) = some net' ∧ OneFile net'
      ∧ knows sharedFile.fileID net' = (knows sharedFile.fileID net).forget a := by
  obtain ⟨db, hdel, hne, hdead, _, hown⟩ :=
    Store.deleteLocal_spec (h.wf.store a) Clock.epoch sharedFile.fileID
  rw [h.wf.selfID a] at hdel hne hdead hown
  have hstep : step net (.deleteLocal a Clock.epoch sharedFile.fileID)
      = some (net.setStore a ⟨db, a⟩) := by
    show some (net.setStore a ((net.store a).deleteLocal Clock.epoch sharedFile.fileID).1) = _
    rw [hdel]
  -- an entry is old, or a tombstone under `a`'s own key
  have hentry : ∀ m n g e, ((net.setStore a ⟨db, a⟩).store m).db.entry n g = some e →
      (m = a ∧ n = a ∧ g = sharedFile.fileID ∧ e.deleted = true)
        ∨ (¬ (m = a ∧ n = a ∧ g = sharedFile.fileID) ∧ (net.store m).db.entry n g = some e) := by
    intro m n g e he
    by_cases hm : m = a
    · subst hm
      rw [Net.setStore_self] at he
      by_cases hng : n = m ∧ g = sharedFile.fileID
      · refine Or.inl ⟨rfl, hng.1, hng.2, hdead e ?_⟩
        rw [hng.1, hng.2] at he
        exact he
      · exact Or.inr ⟨fun hx => hng hx.2, (hne n g hng).symm.trans he⟩
    · rw [Net.setStore_of_ne _ hm] at he
      exact Or.inr ⟨fun hx => hm hx.1, he⟩
  -- deleting takes away `a`'s own fact and nothing else
  have hknows : ∀ m n, knows sharedFile.fileID (net.setStore a ⟨db, a⟩) m n
      ↔ knows sharedFile.fileID net m n ∧ ¬ (m = a ∧ n = a) := by
    intro m n
    refine ⟨fun ⟨e, he, hlive⟩ => ?_, fun ⟨⟨e, he, hlive⟩, hmn⟩ => ⟨e, ?_, hlive⟩⟩
    · rcases hentry m n _ e he with ⟨_, _, _, hd⟩ | ⟨hno, hold⟩
      · rw [hd] at hlive
        cases hlive
      · exact ⟨⟨e, hold, hlive⟩, fun hmn => hno ⟨hmn.1, hmn.2, rfl⟩⟩
    · by_cases hm : m = a
      · subst hm
        rw [Net.setStore_self]
        exact (hne n _ (fun hx => hmn ⟨rfl, hx.1⟩)).trans he
      · rw [Net.setStore_of_ne _ hm]
        exact he
  refine ⟨_, hstep, ⟨step_wf _ _ _ h.wf hstep, h.flight, fun m n g e he => ?_,
    fun m n g e he hlive p => ?_, fun m n g e he hnm => ?_, fun m n hk => ?_⟩,
    funext fun m => funext fun n => propext (hknows m n)⟩
  · rcases hentry m n g e he with ⟨_, _, hg, _⟩ | ⟨_, hold⟩
    · exact hg
    · exact h.file m n g e hold
  · rcases hentry m n g e he with ⟨_, _, _, hd⟩ | ⟨_, hold⟩
    · rw [hd] at hlive
      cases hlive
    · exact h.wire m n g e hold hlive p
  · rcases hentry m n g e he with ⟨hm, hn, _, _⟩ | ⟨_, hold⟩
    · exact absurd (hn.trans hm.symm) hnm
    · exact h.copy m n g e hold hnm
  · obtain ⟨hold, hmn⟩ := (hknows m n).mp hk
    by_cases hm : m = a
    · subst hm
      rw [Net.setStore_self]
      exact hown n _ (h.owners m n hold) (fun hx => hmn ⟨rfl, hx.1⟩)
    · rw [Net.setStore_of_ne _ hm]
      exact h.owners m n hold

/-! ## §3. Ghosts among three nodes or more. -/

theorem ghostRun_within {a : NodeID} {xs : List NodeID} (ha : a ∉ xs) {N : Finset NodeID}
    (hN : ∀ x, x ∈ N ↔ x = a ∨ x ∈ xs) : ∀ act ∈ ghostRun a xs, act.Within N := by
  have haN : a ∈ N := (hN a).mpr (Or.inl rfl)
  intro act hact
  rcases List.mem_cons.mp hact with rfl | hact
  · exact haN
  · rcases List.mem_append.mp hact with hact | hact
    · obtain ⟨⟨p, q⟩, hpq, hact⟩ := List.mem_flatMap.mp hact
      rcases List.mem_cons.mp hact with rfl | hact
      · obtain ⟨hp, hq⟩ := Knows.parties_of_mem_rounds hpq
        exact ⟨(hN p).mpr hp, (hN q).mpr hq, Knows.ne_of_mem_rounds ha hpq⟩
      · rw [List.mem_singleton.mp hact]
        trivial
    · rw [List.mem_singleton.mp hact]
      exact haN

/-- **The ghost**: after this schedule the network is at rest, everyone has the
file from everyone else, and nobody has it. -/
theorem ghostRun_spec {a : NodeID} {xs : List NodeID} (ha : a ∉ xs)
    (hother : ∀ x ∈ xs, ∃ y ∈ xs, y ≠ x) (hxs : xs ≠ []) {N : Finset NodeID}
    (hN : ∀ x, x ∈ N ↔ x = a ∨ x ∈ xs) :
    ∃ net, run step Net.init (ghostRun a xs) = some net ∧ AtRest N net ∧ ¬ GhostFree N net := by
  obtain ⟨net₁, hrun₁, hone₁, hk₁⟩ :=
    OneFile.run_exchanges (Knows.rounds a xs) (oneFile_sharedNet a)
  obtain ⟨net₂, hstep₂, hone₂, hk₂⟩ := hone₁.deleteLocal a
  obtain ⟨hset, hself, hfull⟩ :=
    Knows.rounds_forget_settled ha (knows_sharedNet a) hother hN
  rw [← hk₁, ← hk₂] at hset hself hfull
  refine ⟨net₂, ?_, hone₂.atRest hset, fun hg => ?_⟩
  · refine run_cons_eq_some.mpr ⟨_, step_share a, run_append_eq_some.mpr ⟨net₁, hrun₁, ?_⟩⟩
    exact run_cons_eq_some.mpr ⟨net₂, hstep₂, rfl⟩
  · obtain ⟨x, hx⟩ := List.exists_mem_of_ne_nil xs hxs
    have hax : a ≠ x := fun h => ha (h ▸ hx)
    have haN : a ∈ N := (hN a).mpr (Or.inl rfl)
    have hxN : x ∈ N := (hN x).mpr (Or.inr hx)
    obtain ⟨n, _, hn⟩ := (ghostFree_iff_knows hone₂.wf).mp hg x hxN a sharedFile.fileID
      (hfull a haN x hxN hax)
    exact hself n hn

/-- **WHICH SETS OF NODES ARE SAFE.**  Rest implies that no ghost is left, in
every run among the nodes of `N`, if and only if `N` has at most two nodes; and
in any run among any nodes, a network at rest is free of ghosts if and only if
every file that has travelled over two hops is still held by some node. -/
theorem no_ghost_files_iff (N : Finset NodeID) :
    ((∀ as net, (∀ act ∈ as, act.Within N) → run step Net.init as = some net →
        AtRest N net → GhostFree N net) ↔ N.card ≤ 2)
    ∧ ∀ as net, (∀ act ∈ as, act.Within N) → run step Net.init as = some net → AtRest N net →
        (GhostFree N net
          ↔ ∀ f, TwoHops N net f → ∃ n ∈ N, ∃ e ∈ (net.store n).listLocal, e.fileID = f) := by
  have hinside : ∀ as net, (∀ act ∈ as, act.Within N) → run step Net.init as = some net →
      net.Inside N := fun as net hw hrun => run_invariant_of step_inside (inside_init N) hw hrun
  refine ⟨⟨fun hall => ?_, fun hcard as net hw hrun hr => ?_⟩, fun as net hw hrun hr => ?_⟩
  · -- three nodes: the schedule above, with one of them as the holder
    by_contra hcard
    obtain ⟨a, haN, b, hbN, c, hcN, hab, hac, hbc⟩ := Finset.two_lt_card.mp (not_le.mp hcard)
    have hmem : ∀ x, x ∈ (N.erase a).toList ↔ x ≠ a ∧ x ∈ N := by
      intro x
      rw [Finset.mem_toList, Finset.mem_erase]
    have ha : a ∉ (N.erase a).toList := fun h => ((hmem a).mp h).1 rfl
    have hN : ∀ x, x ∈ N ↔ x = a ∨ x ∈ (N.erase a).toList := by
      intro x
      rw [hmem]
      by_cases hx : x = a
      · simp [hx, haN]
      · simp [hx]
    have hother : ∀ x ∈ (N.erase a).toList, ∃ y ∈ (N.erase a).toList, y ≠ x := by
      intro x _
      by_cases hx : b = x
      · exact ⟨c, (hmem c).mpr ⟨hac.symm, hcN⟩, fun h => hbc (hx.trans h.symm)⟩
      · exact ⟨b, (hmem b).mpr ⟨hab.symm, hbN⟩, hx⟩
    have hxs : (N.erase a).toList ≠ [] :=
      List.ne_nil_of_mem ((hmem b).mpr ⟨hab.symm, hbN⟩)
    obtain ⟨net, hrun, hr, hg⟩ := ghostRun_spec ha hother hxs hN
    exact hg (hall _ net (ghostRun_within ha hN) hrun hr)
  · exact ghostFree_of_two (hinside as net hw hrun) hr hcard
  · exact ghostFree_iff_twoHops (hinside as net hw hrun) hr

def threeNodes : Finset NodeID := {Bytes.lit32 0xAA, Bytes.lit32 0xBB, Bytes.lit32 0xCC}

/-- Three nodes: `0xAA` shares a file, everyone exchanges catalogs, `0xAA`
deletes the file.  The network is at rest, and the file is still in every
catalog though nobody has it. -/
theorem deleted_file_survives_among_three :
    (∀ act ∈ ghostRun (Bytes.lit32 0xAA) [Bytes.lit32 0xBB, Bytes.lit32 0xCC],
      act.Within threeNodes)
    ∧ ∃ net, run step Net.init (ghostRun (Bytes.lit32 0xAA) [Bytes.lit32 0xBB, Bytes.lit32 0xCC])
          = some net
        ∧ AtRest threeNodes net ∧ ¬ GhostFree threeNodes net := by
  have ha : (Bytes.lit32 0xAA : NodeID) ∉ [Bytes.lit32 0xBB, Bytes.lit32 0xCC] := by decide
  have hN : ∀ x, x ∈ threeNodes
      ↔ x = Bytes.lit32 0xAA ∨ x ∈ [(Bytes.lit32 0xBB : NodeID), Bytes.lit32 0xCC] := by
    intro x
    simp [threeNodes]
  exact ⟨ghostRun_within ha hN, ghostRun_spec ha (by decide) (by decide) hN⟩

end Kin.Network
