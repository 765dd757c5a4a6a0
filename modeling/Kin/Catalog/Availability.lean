/-
  Kin.Catalog.Availability

  **IS THE AVAILABILITY INDEX SOUND?**

  `GetOwners(f)` answers from the denormalised index.  `AvailabilitySound`
  says that it names no node without a LIVE entry for `f`.  Three of the four
  writes keep this unconditionally; `PutPeerEntries` does not: it clears the
  peer's entries but never takes the peer off an owner list, and a live
  occurrence of a file id adds the peer even if a later occurrence of the same
  id is a tombstone.

  `op_keeps_sound_iff` says exactly which calls keep the index sound, and
  `availability_sound_along_run_iff` lifts it to every run of the store.
-/
import Kin.Catalog.Ops
import Kin.Lib.Run

namespace Kin.Catalog

open Kin.Lib

/-! ## §1. The property and the condition. -/

/-- **Soundness of the index**: whoever `GetOwners` lists has a live entry. -/
def AvailabilitySound (s : Store) : Prop :=
  ∀ (f : FileID) (n : NodeID), (∃ h ∈ s.getOwners f, h.nodeID = n) →
    ∃ e, s.getEntry n f = some e ∧ e.deleted = false

/-- The calls that keep the index sound.  A `PutPeerEntries` that JSON lets
through must offer, as the LAST occurrence of its id, a live entry for every
file the peer is listed for already and for every file the list itself offers
as live. -/
def KeepsIndex (s : Store) : Op → Prop
  | .putPeerEntries _ p es =>
    (∀ e ∈ es, e.modTime.jsonOK = true) →
      ∀ f : FileID,
        ((∃ h ∈ s.getOwners f, h.nodeID = p) ∨ ∃ e ∈ es, e.fileID = f ∧ e.deleted = false) →
          ∃ e, lastOf f es = some e ∧ e.deleted = false
  | _ => True

/-! ## §2. Soundness on the reader's views. -/

/-- The owner has a live entry for the file. -/
def DB.live (tx : DB) (n : NodeID) (f : FileID) : Prop :=
  ∃ e, tx.entry n f = some e ∧ e.deleted = false

/-- `AvailabilitySound`, on the database. -/
def DB.sound (tx : DB) : Prop := ∀ f n, n ∈ tx.owners f → tx.live n f

theorem availabilitySound_iff (s : Store) : AvailabilitySound s ↔ s.db.sound := by
  refine forall_congr' fun f => forall_congr' fun n => ?_
  rw [s.mem_owners_iff]
  rfl

/-- Liveness does not depend on the timestamp. -/
theorem live_iff_untimed (tx : DB) (n : NodeID) (f : FileID) :
    tx.live n f ↔ ∃ e, (tx.entry n f).map Entry.untimed = some e ∧ e.deleted = false := by
  refine ⟨fun ⟨e, he, hlive⟩ => ⟨e.untimed, by rw [he]; rfl, hlive⟩, fun ⟨e', he', hlive⟩ => ?_⟩
  obtain ⟨e, he, hee⟩ := Option.map_eq_some_iff.mp he'
  exact ⟨e, he, by rw [← hee] at hlive; exact hlive⟩

theorem live_congr {tx tx' : DB} {n : NodeID} {f : FileID} (h : tx'.entry n f = tx.entry n f) :
    tx'.live n f ↔ tx.live n f := by
  unfold DB.live
  rw [h]

theorem sound_empty : DB.empty.sound := by
  intro f n hn
  cases hn

/-! ## §3. The four writes. -/

/-- A committed `PutLocal`: the new owner gets its live entry in the same
transaction. -/
theorem sound_putLocal {tx : DB} (h : tx.sound) (e : Entry) (hlive : e.deleted = false)
    (t : Time) : ((tx.withEntry e).withHint e.fileID e.ownerNodeID t).sound := by
  intro f n hn
  rw [DB.mem_owners_withHint] at hn
  have hentry : ((tx.withEntry e).withHint e.fileID e.ownerNodeID t).entry n f
      = if n = e.ownerNodeID ∧ f = e.fileID then some e.normal else tx.entry n f := by
    rw [DB.entry_withHint, DB.entry_withEntry]
  by_cases hnew : n = e.ownerNodeID ∧ f = e.fileID
  · rw [if_pos hnew] at hentry
    exact ⟨e.normal, hentry, hlive⟩
  · rw [if_neg hnew] at hentry
    -- any other owner was listed before
    have hold : n ∈ tx.owners f := by
      rcases hn with hn | ⟨hf, hn⟩
      · exact hn
      · exact absurd ⟨hn, hf⟩ hnew
    exact (live_congr hentry).mpr (h f n hold)

/-- A committed `DeleteLocal`: the tombstone's owner leaves the list. -/
theorem sound_deleteLocal {tx : DB} (h : tx.sound) (e : Entry) :
    ((tx.withEntry e).withoutHint e.fileID e.ownerNodeID).sound := by
  intro f n hn
  obtain ⟨hold, hne⟩ := (DB.mem_owners_withoutHint _ _ _ _ _).mp hn
  have hentry : ((tx.withEntry e).withoutHint e.fileID e.ownerNodeID).entry n f = tx.entry n f := by
    rw [DB.entry_withoutHint, DB.entry_withEntry, if_neg (fun hk => hne ⟨hk.2, hk.1⟩)]
  exact (live_congr hentry).mpr (h f n hold)

/-- `RemovePeer`: in a sound index the peer is listed for its live entries
only, and those are the ones it is taken off. -/
theorem sound_removePeer {tx db : DB} {p : NodeID} (h : tx.sound)
    (hent : ∀ n f, db.entry n f = if n = p then none else tx.entry n f)
    (hdrop : ∀ f : FileID, tx.live p f → db.ownersAt f.val = DB.dropOwner p (tx.ownersAt f.val))
    (hkeep : ∀ f : FileID, ¬ tx.live p f → db.ownersAt f.val = tx.ownersAt f.val) : db.sound := by
  intro f n hn
  have hold : n ∈ tx.owners f ∧ n ≠ p := by
    by_cases hlive : tx.live p f
    · -- the peer is taken off this list
      have heq : db.owners f = (tx.withoutHint f p).owners f := by
        unfold DB.owners
        rw [hdrop f hlive, DB.ownersAt_withoutHint, if_pos rfl]
      rw [heq] at hn
      obtain ⟨hmem, hne⟩ := (DB.mem_owners_withoutHint _ _ _ _ _).mp hn
      exact ⟨hmem, fun hnp => hne ⟨rfl, hnp⟩⟩
    · -- no live entry, so by soundness the peer is not on this list
      have heq : db.owners f = tx.owners f := by
        unfold DB.owners
        rw [hkeep f hlive]
      rw [heq] at hn
      exact ⟨hn, fun hnp => hlive (h f p (hnp ▸ hn))⟩
  have hentry : db.entry n f = tx.entry n f := by rw [hent, if_neg hold.2]
  exact (live_congr hentry).mpr (h f n hold.1)

/-- Who is listed after a committed `PutPeerEntries`. -/
theorem mem_owners_putPeer {tx db : DB} {p : NodeID} {es : List Entry}
    (hown : ∀ k, (offersLive es k → db.ownersAt k = some (addOwner p ((tx.ownersAt k).getD [])))
      ∧ (¬ offersLive es k → db.ownersAt k = tx.ownersAt k)) (f : FileID) (n : NodeID) :
    n ∈ db.owners f ↔ n ∈ tx.owners f ∨ (n = p ∧ offersLive es f.val) := by
  unfold DB.owners
  by_cases hlive : offersLive es f.val
  · rw [(hown f.val).1 hlive, Option.getD_some, mem_addOwner]
    simp [hlive, or_comm]
  · rw [(hown f.val).2 hlive]
    simp [hlive]

/-- **A committed `PutPeerEntries` keeps the index sound EXACTLY when every
file the peer was listed for, or is offered live for, ends with a live
occurrence.** -/
theorem sound_putPeer_iff {tx db : DB} {p : NodeID} {es : List Entry} (h : tx.sound)
    (hne : ∀ n f, n ≠ p → db.entry n f = tx.entry n f)
    (hself : ∀ f, (db.entry p f).map Entry.untimed = (lastOf f es).map (Entry.asStored p))
    (hown : ∀ k, (offersLive es k → db.ownersAt k = some (addOwner p ((tx.ownersAt k).getD [])))
      ∧ (¬ offersLive es k → db.ownersAt k = tx.ownersAt k)) :
    db.sound ↔ ∀ f : FileID, (p ∈ tx.owners f ∨ offersLive es f.val) →
      ∃ e, lastOf f es = some e ∧ e.deleted = false := by
  -- under the peer, live means: the last occurrence is live
  have hlive : ∀ f, db.live p f ↔ ∃ e, lastOf f es = some e ∧ e.deleted = false := by
    intro f
    rw [live_iff_untimed, hself f]
    cases lastOf f es with
    | none => simp
    | some e =>
      refine ⟨fun ⟨e', he', hl⟩ => ⟨e, rfl, ?_⟩, fun ⟨e', he', hl⟩ => ⟨e.asStored p, rfl, ?_⟩⟩
      · rw [← Option.some.inj he'] at hl
        exact hl
      · rw [← Option.some.inj he'] at hl
        exact hl
  refine ⟨fun hs f hf => (hlive f).mp (hs f p ?_), fun hc f n hn => ?_⟩
  · rw [mem_owners_putPeer hown]
    exact hf.imp_right (fun hl => ⟨rfl, hl⟩)
  · rw [mem_owners_putPeer hown] at hn
    by_cases hnp : n = p
    · rw [hnp] at hn ⊢
      exact (hlive f).mpr (hc f (hn.imp_right And.right))
    · have hold : n ∈ tx.owners f := hn.resolve_right (fun hx => hnp hx.1)
      exact (live_congr (hne n f hnp)).mpr (h f n hold)

/-! ## §4. One step, every run. -/

theorem offersLive_iff {es : List Entry} {f : FileID} :
    offersLive es f.val ↔ ∃ e ∈ es, e.fileID = f ∧ e.deleted = false := by
  unfold offersLive
  refine exists_congr fun e => and_congr_right fun _ => and_congr_left fun _ => ?_
  exact ⟨Bytes.ext, fun h => h ▸ rfl⟩

/-- **One operation**: from a sound index, exactly the calls that meet
`KeepsIndex` end in a sound one. -/
theorem op_keeps_sound_iff {s : Store} (hwf : s.db.WF) (h : AvailabilitySound s) (op : Op) :
    AvailabilitySound (op.apply s) ↔ KeepsIndex s op := by
  rw [availabilitySound_iff] at h ⊢
  cases op with
  | putLocal clk entry =>
    refine iff_of_true (Store.putLocal_keeps hwf h clk entry (fun _ => ?_)) trivial
    exact sound_putLocal h (s.localCopy clk entry) rfl (clk.now 1)
  | deleteLocal clk f =>
    refine iff_of_true (Store.deleteLocal_keeps hwf h clk f (fun e _ => ?_)) trivial
    exact sound_deleteLocal h (e.tombstone clk)
  | putPeerEntries clk p es =>
    show (s.putPeerEntries clk p es).1.db.sound ↔ _
    unfold KeepsIndex
    by_cases hms : ∀ e ∈ es, e.modTime.jsonOK = true
    · obtain ⟨db, hput, _, hne, hself, hown⟩ := Store.putPeerEntries_spec hwf clk p hms
      rw [hput]
      show db.sound ↔ _
      rw [sound_putPeer_iff h hne hself hown]
      refine ⟨fun hc _ f hf => hc f ?_, fun hc f hf => hc hms f ?_⟩
      · rw [s.mem_owners_iff, offersLive_iff]
        exact hf
      · rw [s.mem_owners_iff, offersLive_iff] at hf
        exact hf
    · -- JSON refuses a time: the transaction rolls back
      refine iff_of_true ?_ (fun hx => absurd hx hms)
      push Not at hms
      rw [Store.putPeerEntries_error hwf clk p hms]
      exact h
  | removePeer p =>
    refine iff_of_true ?_ trivial
    show (s.removePeer p).1.db.sound
    obtain ⟨db, hrem, _, hent, hown⟩ := Store.removePeer_spec hwf p
    rw [hrem]
    exact sound_removePeer h hent (fun f => (hown f).1) (fun f => (hown f).2)

/-- **EVERY RUN.**  From an empty database, the index is sound in every state
a sequence of operations goes through if and only if each of its
`PutPeerEntries` calls meets `KeepsIndex` in the state it is called in. -/
theorem availability_sound_along_run_iff (selfID : NodeID) (ops : List Op) :
    StatesMeet Op.step AvailabilitySound (Store.openFresh selfID) ops
      ↔ StepsMeet Op.step KeepsIndex (Store.openFresh selfID) ops := by
  apply statesMeet_iff_stepsMeet (J := fun s => s.db.WF)
  · exact Op.step_wf
  · intro s op t hwf hs ht
    injection ht with ht
    rw [← ht]
    exact op_keeps_sound_iff hwf hs op
  · exact DB.wf_empty
  · exact (availabilitySound_iff _).mpr sound_empty

/-! ## §5. The phantom owner. -/

/-- A file as node `0xBB` offers it. -/
def offeredFile : Entry where
  fileID := Bytes.lit32 1
  name := ascii "b.txt"
  size := 20
  modTime := Time.ofUnix 1700000000
  ownerNodeID := Bytes.lit32 0xBB
  localPath := []
  deleted := false
  updatedAt := zeroTime

/-- Node `0xBB` offers a file and then, the file gone, an empty catalog. -/
def phantomRun : List Op :=
  [.putPeerEntries Clock.epoch (Bytes.lit32 0xBB) [offeredFile],
    .putPeerEntries Clock.epoch (Bytes.lit32 0xBB) []]

/-- After the empty offer `GetOwners` still names `0xBB`, whose entry is gone. -/
theorem phantom_owner_survives_replace_all :
    ¬ StatesMeet Op.step AvailabilitySound (Store.openFresh (Bytes.lit32 0xAA)) phantomRun := by
  intro h
  have hlast : AvailabilitySound
      ((Op.putPeerEntries Clock.epoch (Bytes.lit32 0xBB) []).apply
        ((Op.putPeerEntries Clock.epoch (Bytes.lit32 0xBB) [offeredFile]).apply
          (Store.openFresh (Bytes.lit32 0xAA)))) := h.last rfl
  have hgone : ((Op.putPeerEntries Clock.epoch (Bytes.lit32 0xBB) []).apply
      ((Op.putPeerEntries Clock.epoch (Bytes.lit32 0xBB) [offeredFile]).apply
        (Store.openFresh (Bytes.lit32 0xAA)))).getEntry (Bytes.lit32 0xBB) (Bytes.lit32 1)
      = none := by decide +kernel
  obtain ⟨e, he, _⟩ := hlast (Bytes.lit32 1) (Bytes.lit32 0xBB) (by decide +kernel)
  rw [hgone] at he
  cases he

end Kin.Catalog
