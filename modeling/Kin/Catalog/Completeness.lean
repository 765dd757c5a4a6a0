/-
  Kin.Catalog.Completeness

  **IS THE AVAILABILITY INDEX COMPLETE?**

  The index may name too many nodes (`Kin.Catalog.Availability`), but never too
  few: a write that makes an entry live lists its owner in the same
  transaction, and an owner leaves a list only together with its live entry.
  Along the way no list gets a node twice and no empty list is kept.

    • `complete_putLocal`, `complete_deleteLocal`, `complete_putPeer`,
      `complete_removePeer` — the four writes on the reader's views,
    • `availability_complete_along_run` — every run of the store.
-/
import Kin.Catalog.Availability

namespace Kin.Catalog

open Kin.Lib

/-! ## §1. The property. -/

/-- **Completeness of the index**: the owner of every live entry is listed for
its file, no list names a node twice and no list is empty. -/
structure AvailabilityComplete (s : Store) : Prop where
  listed : ∀ e ∈ s.listAll, ∃ h ∈ s.getOwners e.fileID, h.nodeID = e.ownerNodeID
  nodup : ∀ k hints, s.db.availability.get k = some hints → (hints.map OwnerHint.nodeID).Nodup
  nonempty : ∀ k hints, s.db.availability.get k = some hints → hints ≠ []

/-- `AvailabilityComplete`, on the reader's views. -/
structure DB.complete (tx : DB) : Prop where
  listed : ∀ n f, tx.live n f → n ∈ tx.owners f
  lists : ∀ k l, tx.ownersAt k = some l → l.Nodup ∧ l ≠ []

theorem availabilityComplete_iff {s : Store} (hwf : s.db.WF) :
    AvailabilityComplete s ↔ s.db.complete := by
  have hlist : ∀ k l, s.db.ownersAt k = some l
      ↔ ∃ hints, s.db.availability.get k = some hints ∧ hints.map OwnerHint.nodeID = l := by
    intro k l
    show (s.db.availability.get k).map _ = some l ↔ _
    rw [Option.map_eq_some_iff]
  constructor
  · intro h
    constructor
    · intro n f hlive
      obtain ⟨e, he, hd⟩ := hlive
      obtain ⟨hn, hf⟩ := hwf.entry_ids he
      have hall : e ∈ s.listAll := (Store.mem_listAll hwf).mpr ⟨by rw [hn, hf]; exact he, hd⟩
      rw [s.mem_owners_iff, ← hn, ← hf]
      exact h.listed e hall
    · intro k l hl
      obtain ⟨hints, hget, rfl⟩ := (hlist k l).mp hl
      exact ⟨h.nodup k hints hget, by simpa using h.nonempty k hints hget⟩
  · intro h
    constructor
    · intro e he
      rw [← s.mem_owners_iff]
      exact h.listed _ _ ⟨e, (Store.mem_listAll hwf).mp he⟩
    · intro k hints hget
      exact (h.lists k _ ((hlist k _).mpr ⟨hints, hget, rfl⟩)).1
    · intro k hints hget
      have hne := (h.lists k _ ((hlist k _).mpr ⟨hints, hget, rfl⟩)).2
      simpa using hne

theorem complete_empty : DB.empty.complete where
  listed := by
    intro n f hlive
    obtain ⟨e, he, _⟩ := hlive
    cases he
  lists := by
    intro k l hl
    cases hl

/-! ## §2. Owner lists. -/

theorem nodup_addOwner {n : NodeID} {l : List NodeID} (h : l.Nodup) : (addOwner n l).Nodup := by
  unfold addOwner
  by_cases hn : n ∈ l
  · rw [if_pos hn]
    exact h
  · rw [if_neg hn]
    exact List.Nodup.append h (List.nodup_singleton n) (by simpa using hn)

theorem addOwner_ne_nil (n : NodeID) (l : List NodeID) : addOwner n l ≠ [] :=
  List.ne_nil_of_mem (mem_addOwner.mpr (Or.inl rfl))

/-- Adding an owner to a list, or to the list of a file that has none, keeps
lists duplicate-free and non-empty. -/
theorem lists_addOwner {tx : DB} (h : ∀ k l, tx.ownersAt k = some l → l.Nodup ∧ l ≠ [])
    (n : NodeID) (k : GoString) :
    (addOwner n ((tx.ownersAt k).getD [])).Nodup ∧ addOwner n ((tx.ownersAt k).getD []) ≠ [] := by
  refine ⟨nodup_addOwner ?_, addOwner_ne_nil n _⟩
  cases hk : tx.ownersAt k with
  | none => exact List.nodup_nil
  | some l => exact (h k l hk).1

theorem lists_dropOwner {o : Option (List NodeID)} {n : NodeID}
    (h : ∀ l, o = some l → l.Nodup ∧ l ≠ []) :
    ∀ l, DB.dropOwner n o = some l → l.Nodup ∧ l ≠ [] := by
  intro l hl
  unfold DB.dropOwner at hl
  obtain ⟨hmap, hne⟩ := Option.filter_eq_some_iff.mp hl
  obtain ⟨l', hl', rfl⟩ := Option.map_eq_some_iff.mp hmap
  exact ⟨(h l' hl').1.filter _, by simpa using hne⟩

/-! ## §3. The four writes. -/

/-- A committed `PutLocal` lists the owner it writes. -/
theorem complete_putLocal {tx : DB} (h : tx.complete) (e : Entry) (t : Time) :
    ((tx.withEntry e).withHint e.fileID e.ownerNodeID t).complete := by
  constructor
  · intro n f hlive
    rw [DB.mem_owners_withHint]
    by_cases hnew : n = e.ownerNodeID ∧ f = e.fileID
    · exact Or.inr ⟨hnew.2, hnew.1⟩
    · have hentry : ((tx.withEntry e).withHint e.fileID e.ownerNodeID t).entry n f
          = tx.entry n f := by
        rw [DB.entry_withHint, DB.entry_withEntry, if_neg hnew]
      exact Or.inl (h.listed n f ((live_congr hentry).mp hlive))
  · intro k l hl
    rw [DB.ownersAt_withHint] at hl
    by_cases hk : k = e.fileID.val
    · rw [if_pos hk] at hl
      rw [← Option.some.inj hl]
      exact lists_addOwner h.lists e.ownerNodeID e.fileID.val
    · rw [if_neg hk] at hl
      exact h.lists k l hl

/-- A committed `DeleteLocal` takes off the list the one owner whose entry it
buries. -/
theorem complete_deleteLocal {tx : DB} (h : tx.complete) {e : Entry} (hdead : e.deleted = true) :
    ((tx.withEntry e).withoutHint e.fileID e.ownerNodeID).complete := by
  constructor
  · intro n f hlive
    have hentry : ((tx.withEntry e).withoutHint e.fileID e.ownerNodeID).entry n f
        = if n = e.ownerNodeID ∧ f = e.fileID then some e.normal else tx.entry n f := by
      rw [DB.entry_withoutHint, DB.entry_withEntry]
    by_cases hnew : n = e.ownerNodeID ∧ f = e.fileID
    · rw [if_pos hnew] at hentry
      obtain ⟨e', he', hd'⟩ := hlive
      rw [hentry] at he'
      rw [← Option.some.inj he', show e.normal.deleted = e.deleted from rfl, hdead] at hd'
      cases hd'
    · rw [if_neg hnew] at hentry
      rw [DB.mem_owners_withoutHint]
      exact ⟨h.listed n f ((live_congr hentry).mp hlive), fun hx => hnew ⟨hx.2, hx.1⟩⟩
  · intro k l hl
    rw [DB.ownersAt_withoutHint] at hl
    by_cases hk : k = e.fileID.val
    · rw [if_pos hk] at hl
      exact lists_dropOwner (h.lists k) l hl
    · rw [if_neg hk] at hl
      exact h.lists k l hl

/-- A committed `PutPeerEntries`: an entry that ends up live was offered live. -/
theorem complete_putPeer {tx db : DB} {p : NodeID} {es : List Entry} (h : tx.complete)
    (hne : ∀ n f, n ≠ p → db.entry n f = tx.entry n f)
    (hself : ∀ f, (db.entry p f).map Entry.untimed = (lastOf f es).map (Entry.asStored p))
    (hown : ∀ k, (offersLive es k → db.ownersAt k = some (addOwner p ((tx.ownersAt k).getD [])))
      ∧ (¬ offersLive es k → db.ownersAt k = tx.ownersAt k)) : db.complete := by
  constructor
  · intro n f hlive
    rw [mem_owners_putPeer hown]
    by_cases hnp : n = p
    · subst hnp
      obtain ⟨e, he, hd⟩ := (live_iff_untimed db n f).mp hlive
      rw [hself f] at he
      obtain ⟨e', hlast, hstored⟩ := Option.map_eq_some_iff.mp he
      rw [← hstored] at hd
      obtain ⟨hmem, hid⟩ := lastOf_mem hlast
      exact Or.inr ⟨rfl, e', hmem, by rw [hid], hd⟩
    · exact Or.inl (h.listed n f ((live_congr (hne n f hnp)).mp hlive))
  · intro k l hl
    by_cases hk : offersLive es k
    · rw [(hown k).1 hk] at hl
      rw [← Option.some.inj hl]
      exact lists_addOwner h.lists p k
    · rw [(hown k).2 hk] at hl
      exact h.lists k l hl

/-- `RemovePeer`: whoever is left has its entries and its places. -/
theorem complete_removePeer {tx db : DB} {p : NodeID} (h : tx.complete)
    (hent : ∀ n f, db.entry n f = if n = p then none else tx.entry n f)
    (hown : ∀ k, db.ownersAt k = tx.ownersAt k ∨ db.ownersAt k = DB.dropOwner p (tx.ownersAt k)) :
    db.complete := by
  constructor
  · intro n f hlive
    have hnp : n ≠ p := by
      intro hnp
      obtain ⟨e, he, _⟩ := hlive
      rw [hent, if_pos hnp] at he
      cases he
    have hold : n ∈ tx.owners f :=
      h.listed n f ((live_congr (by rw [hent, if_neg hnp])).mp hlive)
    unfold DB.owners
    rcases hown f.val with hsame | hdrop
    · rw [hsame]
      exact hold
    · have hmem : n ∈ (tx.withoutHint f p).owners f :=
        (DB.mem_owners_withoutHint _ _ _ _ _).mpr ⟨hold, fun hx => hnp hx.2⟩
      unfold DB.owners at hmem
      rw [DB.ownersAt_withoutHint, if_pos rfl] at hmem
      rw [hdrop]
      exact hmem
  · intro k l hl
    rcases hown k with hsame | hdrop
    · rw [hsame] at hl
      exact h.lists k l hl
    · rw [hdrop] at hl
      exact lists_dropOwner (h.lists k) l hl

/-! ## §4. One step, every run. -/

/-- **One operation** keeps the index complete. -/
theorem op_keeps_complete {s : Store} (hwf : s.db.WF) (h : s.db.complete) (op : Op) :
    (op.apply s).db.complete := by
  cases op with
  | putLocal clk entry =>
    exact Store.putLocal_keeps hwf h clk entry
      (fun _ => complete_putLocal h (s.localCopy clk entry) (clk.now 1))
  | deleteLocal clk f =>
    exact Store.deleteLocal_keeps hwf h clk f (fun e _ => complete_deleteLocal h rfl)
  | putPeerEntries clk p es =>
    refine Store.putPeerEntries_keeps hwf h clk p es (fun hms => ?_)
    obtain ⟨db, hput, _, hne, hself, hown⟩ := Store.putPeerEntries_spec hwf clk p hms
    rw [hput]
    exact complete_putPeer h hne hself hown
  | removePeer p =>
    show (s.removePeer p).1.db.complete
    obtain ⟨db, hrem, _, hent, _⟩ := Store.removePeer_spec hwf p
    have hown := Store.removePeer_ownersAt hwf p
    rw [hrem] at hown ⊢
    exact complete_removePeer h hent hown

/-- **EVERY RUN.**  From an empty database, whatever operations run, the index
is complete in every state they go through. -/
theorem availability_complete_along_run (selfID : NodeID) (ops : List Op) :
    StatesMeet Op.step AvailabilityComplete (Store.openFresh selfID) ops := by
  apply statesMeet_of_stepsMeet (J := fun s => s.db.WF) (C := fun _ _ => True)
  · exact Op.step_wf
  · intro s op t hwf hs _ ht
    injection ht with ht
    rw [← ht, availabilityComplete_iff (op.apply_wf hwf)]
    exact op_keeps_complete hwf ((availabilityComplete_iff hwf).mp hs) op
  · exact DB.wf_empty
  · exact (availabilityComplete_iff DB.wf_empty).mpr complete_empty
  · exact stepsMeet_true ops _

end Kin.Catalog
