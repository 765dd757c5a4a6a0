/-
  Kin.Catalog.Ops

  **ONE SPECIFICATION PER CATALOG OPERATION.**

  The four writes of the store as what they do to the reader's views:

    • `putLocal_spec`, `deleteLocal_spec`, `removePeer_spec`,
    • `putPeerEntries_spec` — replace-all: under the peer stands the LAST
      occurrence of each file id of the list, and the peer is added to the
      owner list of every file that some occurrence offers as live,
    • `putPeerEntries_error` — one time JSON refuses, and nothing changes.

  `Op` collects the four; `Op.apply` is the store after one of them, whether
  it committed or rolled back, and keeps the database well-formed.
-/
import Kin.Catalog.Spec

namespace Kin.Catalog

open Kin.Lib

/-! ## §1. Entries up to their timestamp. -/

/-- The entry without its `UpdatedAt`. -/
def Entry.untimed (e : Entry) : Entry := { e with updatedAt := zeroTime }

/-- The copy of an entry that `PutPeerEntries` writes for a peer. -/
def Entry.under (e : Entry) (p : NodeID) (t : Time) : Entry :=
  { e with ownerNodeID := p, updatedAt := t }

/-- What `PutPeerEntries` stores of an entry, without the time. -/
def Entry.asStored (p : NodeID) (e : Entry) : Entry :=
  ({ e with ownerNodeID := p }).normal.untimed

/-- The copy of an entry that `DeleteLocal` writes over it. -/
def Entry.tombstone (e : Entry) (clk : Clock) : Entry :=
  { e with deleted := true, updatedAt := clk.now 0 }

/-- The last occurrence of a file id in a list. -/
def lastOf (f : FileID) (es : List Entry) : Option Entry :=
  (es.filter (fun e => e.fileID = f)).getLast?

theorem lastOf_cons (f : FileID) (e : Entry) (es : List Entry) :
    lastOf f (e :: es) = (lastOf f es).or (if e.fileID = f then some e else none) := by
  unfold lastOf
  rw [getLast?_filter_cons]
  simp only [decide_eq_true_eq]

theorem lastOf_mem {f : FileID} {e : Entry} {es : List Entry} (h : lastOf f es = some e) :
    e ∈ es ∧ e.fileID = f := by
  have hmem := List.mem_of_getLast? h
  exact ⟨List.mem_of_mem_filter hmem, by simpa using (List.mem_filter.mp hmem).2⟩

theorem lastOf_eq_none {f : FileID} {es : List Entry} :
    lastOf f es = none ↔ ∀ e ∈ es, e.fileID ≠ f := by
  unfold lastOf
  rw [List.getLast?_eq_none_iff, List.filter_eq_nil_iff]
  simp

/-- Some occurrence of the file under key `k` is live. -/
def offersLive (es : List Entry) (k : GoString) : Prop :=
  ∃ e ∈ es, e.fileID.val = k ∧ e.deleted = false

/-! ## §2. The two loops. -/

/-- One turn of the insert loop. -/
def DB.withPeerEntry (tx : DB) (p : NodeID) (clk : Clock) (e : Entry) : DB :=
  if e.deleted then tx.withEntry (e.under p (clk.now 0))
  else (tx.withEntry (e.under p (clk.now 0))).withHint e.fileID p (clk.now 1)

theorem DB.WF.withPeerEntry {tx : DB} (h : tx.WF) (p : NodeID) (clk : Clock) {e : Entry}
    (hm : e.modTime.jsonOK = true) : (tx.withPeerEntry p clk e).WF := by
  have hput : (tx.withEntry (e.under p (clk.now 0))).WF := h.withEntry hm
  unfold DB.withPeerEntry
  split
  · exact hput
  · exact hput.withHint (clk.inRange 1)

theorem putPeerLoop_cons {tx : DB} (h : tx.WF) (p : NodeID) (clk : Clock) {e : Entry}
    (hm : e.modTime.jsonOK = true) (es : List Entry) :
    Store.putPeerLoop p tx clk (e :: es)
      = Store.putPeerLoop p (tx.withPeerEntry p clk e) (clk.drop 2) es := by
  -- the entry can be encoded and the clock reads a year JSON takes, so both writes succeed
  have hput : putEntry tx (e.under p (clk.now 0)) = .ok (tx.withEntry (e.under p (clk.now 0))) :=
    putEntry_ok hm (clk.inRange 0)
  have hwf : (tx.withEntry (e.under p (clk.now 0))).WF := h.withEntry hm
  show (wrapErr "put peer entry" (putEntry tx (e.under p (clk.now 0))) >>= fun tx =>
      (if e.deleted then .ok tx
        else wrapErr "put peer availability" (addAvailability tx e.fileID p (clk.now 1))) >>=
          fun tx => Store.putPeerLoop p tx (clk.drop 2) es) = _
  rw [hput]
  unfold DB.withPeerEntry
  split
  · rfl
  · show (wrapErr "put peer availability"
        (addAvailability (tx.withEntry (e.under p (clk.now 0))) e.fileID p (clk.now 1)) >>=
          fun tx => Store.putPeerLoop p tx (clk.drop 2) es) = _
    rw [addAvailability_ok hwf e.fileID p (clk.inRange 1)]
    rfl

/-- The entries under the peer after one turn, without the times. -/
theorem entry_withPeerEntry_self (tx : DB) (p : NodeID) (clk : Clock) (e : Entry) (f : FileID) :
    ((tx.withPeerEntry p clk e).entry p f).map Entry.untimed
      = if e.fileID = f then some (e.asStored p) else (tx.entry p f).map Entry.untimed := by
  have hentry : (tx.withPeerEntry p clk e).entry p f
      = (tx.withEntry (e.under p (clk.now 0))).entry p f := by
    unfold DB.withPeerEntry
    split <;> rfl
  rw [hentry, DB.entry_withEntry]
  by_cases hf : e.fileID = f
  · rw [if_pos ⟨rfl, hf.symm⟩, if_pos hf]
    rfl
  · rw [if_neg (fun h => hf h.2.symm), if_neg hf]

theorem entry_withPeerEntry_ne (tx : DB) {p n : NodeID} (hn : n ≠ p) (clk : Clock) (e : Entry)
    (f : FileID) : (tx.withPeerEntry p clk e).entry n f = tx.entry n f := by
  have hentry : (tx.withPeerEntry p clk e).entry n f
      = (tx.withEntry (e.under p (clk.now 0))).entry n f := by
    unfold DB.withPeerEntry
    split <;> rfl
  rw [hentry, DB.entry_withEntry, if_neg (fun h => hn h.1)]

theorem ownersAt_withPeerEntry (tx : DB) (p : NodeID) (clk : Clock) (e : Entry) (k : GoString) :
    (tx.withPeerEntry p clk e).ownersAt k
      = if e.fileID.val = k ∧ e.deleted = false then some (addOwner p ((tx.ownersAt k).getD []))
        else tx.ownersAt k := by
  unfold DB.withPeerEntry
  cases hd : e.deleted
  · rw [if_neg (by simp), DB.ownersAt_withHint, DB.ownersAt_withEntry]
    by_cases hk : k = e.fileID.val
    · rw [if_pos hk, if_pos ⟨hk.symm, rfl⟩, hk]
      rfl
    · rw [if_neg hk, if_neg (fun h => hk h.1.symm)]
  · rw [if_pos rfl, if_neg (fun h => Bool.noConfusion h.2), DB.ownersAt_withEntry]

/-- **The insert loop.**  By induction on the list: a later occurrence of a
file id overwrites an earlier one, a live occurrence adds the owner for good. -/
theorem putPeerLoop_spec (p : NodeID) (es : List Entry) :
    ∀ (tx : DB) (clk : Clock), tx.WF → (∀ e ∈ es, e.modTime.jsonOK = true) →
      ∃ tx', Store.putPeerLoop p tx clk es = .ok tx' ∧ tx'.WF
        ∧ (∀ n f, n ≠ p → tx'.entry n f = tx.entry n f)
        ∧ (∀ f, (tx'.entry p f).map Entry.untimed
            = ((lastOf f es).map (Entry.asStored p)).or ((tx.entry p f).map Entry.untimed))
        ∧ (∀ k, (offersLive es k → tx'.ownersAt k = some (addOwner p ((tx.ownersAt k).getD [])))
            ∧ (¬ offersLive es k → tx'.ownersAt k = tx.ownersAt k)) := by
  induction es with
  | nil =>
    intro tx clk h _
    refine ⟨tx, rfl, h, fun _ _ _ => rfl, fun f => rfl, fun k => ⟨?_, fun _ => rfl⟩⟩
    intro ⟨e, he, _⟩
    cases he
  | cons e es ih =>
    intro tx clk h hms
    have hm : e.modTime.jsonOK = true := hms e List.mem_cons_self
    obtain ⟨tx', hok, hwf, hne, hself, hown⟩ := ih (tx.withPeerEntry p clk e) (clk.drop 2)
      (h.withPeerEntry p clk hm) (fun e' he' => hms e' (List.mem_cons_of_mem _ he'))
    refine ⟨tx', ?_, hwf, fun n f hn => ?_, fun f => ?_, fun k => ⟨fun hk => ?_, fun hk => ?_⟩⟩
    · rw [putPeerLoop_cons h p clk hm]
      exact hok
    · rw [hne n f hn, entry_withPeerEntry_ne tx hn]
    · -- the tail's last occurrence wins; failing one, this entry; failing it, what was there
      rw [hself f, entry_withPeerEntry_self, lastOf_cons]
      cases lastOf f es with
      | some e' => rfl
      | none =>
        by_cases hf : e.fileID = f
        · rw [if_pos hf, if_pos hf]
          rfl
        · rw [if_neg hf, if_neg hf]
          rfl
    · -- the file is offered live by this entry or by a later one
      by_cases hlater : offersLive es k
      · rw [(hown k).1 hlater, ownersAt_withPeerEntry]
        split
        · rw [Option.getD_some, addOwner_idem]
        · rfl
      · obtain ⟨e', he', hek⟩ := hk
        rw [(hown k).2 hlater, ownersAt_withPeerEntry]
        rcases List.mem_cons.mp he' with rfl | he'
        · rw [if_pos hek]
        · exact absurd ⟨e', he', hek⟩ hlater
    · have hlater : ¬ offersLive es k :=
        fun ⟨e', he', hek⟩ => hk ⟨e', List.mem_cons_of_mem _ he', hek⟩
      have hthis : ¬ (e.fileID.val = k ∧ e.deleted = false) :=
        fun hek => hk ⟨e, List.mem_cons_self, hek⟩
      rw [(hown k).2 hlater, ownersAt_withPeerEntry, if_neg hthis]

/-- The insert loop stops at a modification time JSON refuses. -/
theorem putPeerLoop_error (p : NodeID) (es : List Entry) :
    ∀ (tx : DB) (clk : Clock), tx.WF → (∃ e ∈ es, ¬ e.modTime.jsonOK = true) →
      Store.putPeerLoop p tx clk es = .error ("put peer entry" ++ ": " ++ yearError) := by
  induction es with
  | nil => intro tx clk _ ⟨e, he, _⟩; cases he
  | cons e es ih =>
    intro tx clk h hbad
    by_cases hm : e.modTime.jsonOK = true
    · -- this entry is written; the refused one comes later
      rw [putPeerLoop_cons h p clk hm]
      apply ih _ _ (h.withPeerEntry p clk hm)
      obtain ⟨e', he', hbad'⟩ := hbad
      rcases List.mem_cons.mp he' with rfl | he'
      · exact absurd hm hbad'
      · exact ⟨e', he', hbad'⟩
    · have hput : putEntry tx (e.under p (clk.now 0)) = .error yearError := putEntry_error hm
      show (wrapErr "put peer entry" (putEntry tx (e.under p (clk.now 0))) >>= _) = _
      rw [hput]
      rfl

theorem dropOwner_idem (n : NodeID) (o : Option (List NodeID)) :
    DB.dropOwner n (DB.dropOwner n o) = DB.dropOwner n o := by
  unfold DB.dropOwner
  cases o with
  | none => rfl
  | some l =>
    rw [Option.map_some, Option.filter_some]
    split
    next h =>
      simp only [Option.map_some, List.filter_filter, Bool.and_self]
      rw [Option.filter_some, if_pos h]
    next => rfl

/-- The availability loop of `RemovePeer`. -/
theorem removePeerLoop_spec (p : NodeID) (es : List Entry) :
    ∀ (tx : DB), tx.WF →
      ∃ tx', Store.removePeerLoop p tx es = .ok tx' ∧ tx'.WF
        ∧ tx'.entries = tx.entries
        ∧ (∀ k, ((∃ e ∈ es, e.fileID.val = k) → tx'.ownersAt k = DB.dropOwner p (tx.ownersAt k))
            ∧ ((¬ ∃ e ∈ es, e.fileID.val = k) → tx'.ownersAt k = tx.ownersAt k)) := by
  induction es with
  | nil =>
    intro tx h
    refine ⟨tx, rfl, h, rfl, fun k => ⟨?_, fun _ => rfl⟩⟩
    intro ⟨e, he, _⟩
    cases he
  | cons e es ih =>
    intro tx h
    obtain ⟨tx', hok, hwf, hent, hown⟩ := ih (tx.withoutHint e.fileID p) (h.withoutHint _ _)
    refine ⟨tx', ?_, hwf, ?_, fun k => ⟨fun hk => ?_, fun hk => ?_⟩⟩
    · rw [Store.removePeerLoop, removeAvailability_ok h]
      exact hok
    · rw [hent]
      unfold DB.withoutHint
      split
      · rfl
      · dsimp only
        split <;> rfl
    · -- the file may come again: taking the peer off twice is taking it off once
      by_cases hlater : ∃ e' ∈ es, e'.fileID.val = k
      · rw [(hown k).1 hlater, DB.ownersAt_withoutHint]
        split
        · rw [dropOwner_idem]
        · rfl
      · obtain ⟨e', he', hek⟩ := hk
        rw [(hown k).2 hlater, DB.ownersAt_withoutHint]
        rcases List.mem_cons.mp he' with rfl | he'
        · rw [if_pos hek.symm]
        · exact absurd ⟨e', he', hek⟩ hlater
    · have hlater : ¬ ∃ e' ∈ es, e'.fileID.val = k :=
        fun ⟨e', he', hek⟩ => hk ⟨e', List.mem_cons_of_mem _ he', hek⟩
      rw [(hown k).2 hlater, DB.ownersAt_withoutHint, if_neg]
      exact fun hek => hk ⟨e, List.mem_cons_self, hek.symm⟩

/-! ## §3. The four writes. -/

namespace Store

theorem update_ok {s : Store} {f : DB → Except String DB} {db : DB} (h : f s.db = .ok db) :
    s.update f = ({ s with db := db }, none) := by
  unfold update
  rw [h]

theorem update_error {s : Store} {f : DB → Except String DB} {err : String}
    (h : f s.db = .error err) : s.update f = (s, some err) := by
  unfold update
  rw [h]

/-- The copy of an entry that `PutLocal` writes. -/
def localCopy (s : Store) (clk : Clock) (entry : Entry) : Entry :=
  { entry with ownerNodeID := s.selfID, updatedAt := clk.now 0, deleted := false }

theorem putLocal_spec {s : Store} (h : s.db.WF) (clk : Clock) {entry : Entry}
    (hm : entry.modTime.jsonOK = true) :
    s.putLocal clk entry
      = (⟨(s.db.withEntry (s.localCopy clk entry)).withHint entry.fileID s.selfID (clk.now 1),
          s.selfID⟩, none) := by
  have hput : putEntry s.db (s.localCopy clk entry)
      = .ok (s.db.withEntry (s.localCopy clk entry)) := putEntry_ok hm (clk.inRange 0)
  have hwf : (s.db.withEntry (s.localCopy clk entry)).WF := h.withEntry hm
  have hadd := addAvailability_ok hwf entry.fileID s.selfID (clk.inRange 1)
  apply update_ok (f := fun tx => wrapErr "put local" (putEntry tx (s.localCopy clk entry)) >>=
    fun tx => addAvailability tx entry.fileID s.selfID (clk.now 1))
  rw [hput, ← hadd]
  rfl

theorem putLocal_error (s : Store) (clk : Clock) {entry : Entry}
    (hm : ¬ entry.modTime.jsonOK = true) :
    s.putLocal clk entry = (s, some ("put local" ++ ": " ++ yearError)) := by
  have hput : putEntry s.db (s.localCopy clk entry) = .error yearError := putEntry_error hm
  apply update_error (f := fun tx => wrapErr "put local" (putEntry tx (s.localCopy clk entry)) >>=
    fun tx => addAvailability tx entry.fileID s.selfID (clk.now 1))
  rw [hput]
  rfl

theorem deleteLocal_none {s : Store} (clk : Clock) {f : FileID}
    (he : s.db.entry s.selfID f = none) : s.deleteLocal clk f = (s, none) := by
  unfold DB.entry at he
  apply update_ok
  rw [he]

theorem deleteLocal_some {s : Store} (h : s.db.WF) (clk : Clock) {f : FileID} {e : Entry}
    (he : s.db.entry s.selfID f = some e) :
    s.deleteLocal clk f
      = (⟨(s.db.withEntry (e.tombstone clk)).withoutHint f
            s.selfID, s.selfID⟩, none) := by
  have hm : e.modTime.jsonOK = true := h.modTime _ _ he
  have hput : putEntry s.db (e.tombstone clk)
      = .ok (s.db.withEntry (e.tombstone clk)) :=
    putEntry_ok hm (clk.inRange 0)
  have hwf : (s.db.withEntry (e.tombstone clk)).WF :=
    h.withEntry hm
  unfold DB.entry at he
  apply update_ok
  rw [he]
  show (wrapErr "delete local" (putEntry s.db (e.tombstone clk))
      >>= fun tx => removeAvailability tx f s.selfID) = _
  rw [hput, ← removeAvailability_ok hwf]
  rfl

/-- **What a `DeleteLocal` leaves behind**: no live local entry of the file,
every other entry as it was, every other owner where it was. -/
theorem deleteLocal_spec {s : Store} (h : s.db.WF) (clk : Clock) (f : FileID) :
    ∃ db : DB, s.deleteLocal clk f = (⟨db, s.selfID⟩, none)
      ∧ (∀ n g, ¬ (n = s.selfID ∧ g = f) → db.entry n g = s.db.entry n g)
      ∧ (∀ e, db.entry s.selfID f = some e → e.deleted = true)
      ∧ (∀ n g, n ∈ db.owners g → n ∈ s.db.owners g)
      ∧ (∀ n g, n ∈ s.db.owners g → ¬ (n = s.selfID ∧ g = f) → n ∈ db.owners g) := by
  cases he : s.db.entry s.selfID f with
  | none =>
    refine ⟨s.db, deleteLocal_none clk he, fun _ _ _ => rfl, fun e he' => ?_, fun _ _ => id,
      fun _ _ hn _ => hn⟩
    rw [he] at he'
    cases he'
  | some e =>
    obtain ⟨hown, hfile⟩ := h.entry_ids he
    -- the tombstone goes under the key the entry was read from
    have hentry : ∀ n g, ((s.db.withEntry (e.tombstone clk)).withoutHint f s.selfID).entry n g
        = if n = s.selfID ∧ g = f then some (e.tombstone clk).normal else s.db.entry n g := by
      intro n g
      rw [DB.entry_withoutHint, DB.entry_withEntry]
      show (if n = e.ownerNodeID ∧ g = e.fileID then _ else _) = _
      rw [hown, hfile]
    refine ⟨_, deleteLocal_some h clk he, fun n g hng => ?_, fun e' he' => ?_,
      fun n g hn => ?_, fun n g hn hng => ?_⟩
    · rw [hentry, if_neg hng]
    · rw [hentry, if_pos ⟨rfl, rfl⟩] at he'
      rw [← Option.some.inj he']
      rfl
    · exact ((DB.mem_owners_withoutHint _ _ _ _ _).mp hn).1
    · exact (DB.mem_owners_withoutHint _ _ _ _ _).mpr ⟨hn, fun hx => hng ⟨hx.2, hx.1⟩⟩

/-- **Replace-all**: what a committed `PutPeerEntries` leaves behind. -/
theorem putPeerEntries_spec {s : Store} (h : s.db.WF) (clk : Clock) (p : NodeID)
    {es : List Entry} (hms : ∀ e ∈ es, e.modTime.jsonOK = true) :
    ∃ db, s.putPeerEntries clk p es = ({ s with db := db }, none) ∧ db.WF
      ∧ (∀ n f, n ≠ p → db.entry n f = s.db.entry n f)
      ∧ (∀ f, (db.entry p f).map Entry.untimed = (lastOf f es).map (Entry.asStored p))
      ∧ (∀ k, (offersLive es k →
            db.ownersAt k = some (addOwner p ((s.db.ownersAt k).getD [])))
          ∧ (¬ offersLive es k → db.ownersAt k = s.db.ownersAt k)) := by
  obtain ⟨db, hok, hwf, hne, hself, hown⟩ :=
    putPeerLoop_spec p es (deleteByPrefix s.db p) clk (h.deleteByPrefix p) hms
  refine ⟨db, update_ok hok, hwf, fun n f hn => ?_, fun f => ?_, hown⟩
  · rw [hne n f hn, entry_deleteByPrefix, if_neg hn]
  · rw [hself f, entry_deleteByPrefix, if_pos rfl, Option.map_none, Option.or_none]

theorem putPeerEntries_error {s : Store} (h : s.db.WF) (clk : Clock) (p : NodeID)
    {es : List Entry} (hbad : ∃ e ∈ es, ¬ e.modTime.jsonOK = true) :
    s.putPeerEntries clk p es = (s, some ("put peer entry" ++ ": " ++ yearError)) :=
  update_error (putPeerLoop_error p es _ clk (h.deleteByPrefix p) hbad)

/-- `RemovePeer` takes the peer off the owner lists of its LIVE entries only. -/
theorem removePeer_spec {s : Store} (h : s.db.WF) (p : NodeID) :
    ∃ db, s.removePeer p = ({ s with db := db }, none) ∧ db.WF
      ∧ (∀ n f, db.entry n f = if n = p then none else s.db.entry n f)
      ∧ (∀ f, ((∃ e, s.db.entry p f = some e ∧ e.deleted = false) →
            db.ownersAt f.val = DB.dropOwner p (s.db.ownersAt f.val))
          ∧ ((¬ ∃ e, s.db.entry p f = some e ∧ e.deleted = false) →
            db.ownersAt f.val = s.db.ownersAt f.val)) := by
  obtain ⟨tx, hok, hwf, hent, hown⟩ := removePeerLoop_spec p (listByPrefixTx s.db p) s.db h
  -- the loop sees exactly the files of which the peer has a live entry
  have hlisted : ∀ f : FileID, (∃ e ∈ listByPrefixTx s.db p, e.fileID.val = f.val)
      ↔ ∃ e, s.db.entry p f = some e ∧ e.deleted = false := by
    intro f
    refine ⟨fun ⟨e, he, hf⟩ => ?_, fun ⟨e, he, hlive⟩ => ?_⟩
    · obtain ⟨hget, hlive⟩ := (mem_listByPrefixTx h).mp he
      exact ⟨e, by rw [← Bytes.ext hf]; exact hget, hlive⟩
    · have hf := (h.entry_ids he).2
      exact ⟨e, (mem_listByPrefixTx h).mpr ⟨by rw [hf]; exact he, hlive⟩, by rw [hf]⟩
  refine ⟨deleteByPrefix tx p, ?_, hwf.deleteByPrefix p, fun n f => ?_, fun f => ⟨?_, ?_⟩⟩
  · apply update_ok
    show (removePeerLoop p s.db (listByPrefixTx s.db p) >>= fun tx => pure (deleteByPrefix tx p)) = _
    rw [hok]
    rfl
  · rw [entry_deleteByPrefix]
    unfold DB.entry
    rw [hent]
  · intro hex
    rw [ownersAt_deleteByPrefix, (hown f.val).1 ((hlisted f).mpr hex)]
  · intro hex
    rw [ownersAt_deleteByPrefix, (hown f.val).2 (fun h' => hex ((hlisted f).mp h'))]

/-- Under any key, `RemovePeer` leaves a list as it was or takes the peer off it. -/
theorem removePeer_ownersAt {s : Store} (h : s.db.WF) (p : NodeID) (k : GoString) :
    (s.removePeer p).1.db.ownersAt k = s.db.ownersAt k
      ∨ (s.removePeer p).1.db.ownersAt k = DB.dropOwner p (s.db.ownersAt k) := by
  obtain ⟨tx, hok, _, _, hown⟩ := removePeerLoop_spec p (listByPrefixTx s.db p) s.db h
  have hrem : s.removePeer p = ({ s with db := deleteByPrefix tx p }, none) := by
    apply update_ok
    show (removePeerLoop p s.db (listByPrefixTx s.db p) >>= fun tx => pure (deleteByPrefix tx p)) = _
    rw [hok]
    rfl
  rw [hrem]
  show (deleteByPrefix tx p).ownersAt k = _ ∨ (deleteByPrefix tx p).ownersAt k = _
  rw [ownersAt_deleteByPrefix]
  by_cases hk : ∃ e ∈ listByPrefixTx s.db p, e.fileID.val = k
  · exact Or.inr ((hown k).1 hk)
  · exact Or.inl ((hown k).2 hk)

/-! A write that fails leaves the database alone, so what a write keeps when it
succeeds it keeps. -/

section Keeps

variable {s : Store} {P : DB → Prop}

theorem putLocal_keeps (hwf : s.db.WF) (h : P s.db) (clk : Clock) (entry : Entry)
    (hput : entry.modTime.jsonOK = true →
      P ((s.db.withEntry (s.localCopy clk entry)).withHint entry.fileID s.selfID (clk.now 1))) :
    P (s.putLocal clk entry).1.db := by
  by_cases hm : entry.modTime.jsonOK = true
  · rw [putLocal_spec hwf clk hm]
    exact hput hm
  · rw [putLocal_error s clk hm]
    exact h

theorem deleteLocal_keeps (hwf : s.db.WF) (h : P s.db) (clk : Clock) (f : FileID)
    (hdelete : ∀ e, s.db.entry s.selfID f = some e →
      P ((s.db.withEntry (e.tombstone clk)).withoutHint (e.tombstone clk).fileID
        (e.tombstone clk).ownerNodeID)) : P (s.deleteLocal clk f).1.db := by
  cases he : s.db.entry s.selfID f with
  | none =>
    rw [deleteLocal_none clk he]
    exact h
  | some e =>
    obtain ⟨hn, hf⟩ := hwf.entry_ids he
    have hP := hdelete e he
    rw [show (e.tombstone clk).fileID = f from hf,
      show (e.tombstone clk).ownerNodeID = s.selfID from hn] at hP
    rw [deleteLocal_some hwf clk he]
    exact hP

theorem putPeerEntries_keeps (hwf : s.db.WF) (h : P s.db) (clk : Clock) (p : NodeID)
    (es : List Entry)
    (hput : (∀ e ∈ es, e.modTime.jsonOK = true) → P (s.putPeerEntries clk p es).1.db) :
    P (s.putPeerEntries clk p es).1.db := by
  by_cases hms : ∀ e ∈ es, e.modTime.jsonOK = true
  · exact hput hms
  · push Not at hms
    rw [putPeerEntries_error hwf clk p hms]
    exact h

end Keeps

end Store

/-! ## §4. Operations as steps. -/

/-- One write of the store, with the clock readings it takes. -/
inductive Op where
  | putLocal (clk : Clock) (entry : Entry)
  | deleteLocal (clk : Clock) (fileID : FileID)
  | putPeerEntries (clk : Clock) (peerNodeID : NodeID) (entries : List Entry)
  | removePeer (peerNodeID : NodeID)

/-- The store after an operation, committed or rolled back. -/
def Op.apply (s : Store) : Op → Store
  | .putLocal clk entry => (s.putLocal clk entry).1
  | .deleteLocal clk fileID => (s.deleteLocal clk fileID).1
  | .putPeerEntries clk peerNodeID entries => (s.putPeerEntries clk peerNodeID entries).1
  | .removePeer peerNodeID => (s.removePeer peerNodeID).1

/-- The error an operation returns. -/
def Op.err (s : Store) : Op → Option String
  | .putLocal clk entry => (s.putLocal clk entry).2
  | .deleteLocal clk fileID => (s.deleteLocal clk fileID).2
  | .putPeerEntries clk peerNodeID entries => (s.putPeerEntries clk peerNodeID entries).2
  | .removePeer peerNodeID => (s.removePeer peerNodeID).2

/-- Every operation is enabled in every state. -/
def Op.step (s : Store) (op : Op) : Option Store := some (op.apply s)

theorem Op.selfID_apply {s : Store} (op : Op) : (op.apply s).selfID = s.selfID := by
  have hupd : ∀ f, (s.update f).1.selfID = s.selfID := by
    intro f
    unfold Store.update
    split <;> rfl
  cases op <;> exact hupd _

/-- **Every operation keeps the database well-formed.** -/
theorem Op.apply_wf {s : Store} (h : s.db.WF) (op : Op) : (op.apply s).db.WF := by
  cases op with
  | putLocal clk entry =>
    refine Store.putLocal_keeps h h clk entry (fun hm => ?_)
    have hput : (s.db.withEntry (s.localCopy clk entry)).WF := h.withEntry hm
    exact hput.withHint (clk.inRange 1)
  | deleteLocal clk f =>
    refine Store.deleteLocal_keeps h h clk f (fun e he => ?_)
    have hm : e.modTime.jsonOK = true := h.modTime _ _ he
    have hput : (s.db.withEntry (e.tombstone clk)).WF := h.withEntry hm
    exact hput.withoutHint _ _
  | putPeerEntries clk p es =>
    refine Store.putPeerEntries_keeps h h clk p es (fun hms => ?_)
    obtain ⟨db, hput, hwf, _⟩ := Store.putPeerEntries_spec h clk p hms
    rw [hput]
    exact hwf
  | removePeer p =>
    show (s.removePeer p).1.db.WF
    obtain ⟨db, hrem, hwf, _⟩ := Store.removePeer_spec h p
    rw [hrem]
    exact hwf

theorem Op.step_wf (s : Store) (op : Op) (t : Store) (h : s.db.WF) (ht : op.step s = some t) :
    t.db.WF := by
  unfold Op.step at ht
  injection ht with ht
  exact ht ▸ op.apply_wf h

/-- The store after a sequence of operations. -/
def Op.applyAll (s : Store) (ops : List Op) : Store := ops.foldl Op.apply s

theorem Op.applyAll_selfID (ops : List Op) (s : Store) : (Op.applyAll s ops).selfID = s.selfID := by
  induction ops generalizing s with
  | nil => rfl
  | cons op ops ih => exact (ih (op.apply s)).trans op.selfID_apply

theorem Op.applyAll_wf (ops : List Op) {s : Store} (h : s.db.WF) : (Op.applyAll s ops).db.WF := by
  induction ops generalizing s with
  | nil => exact h
  | cons op ops ih => exact ih (op.apply_wf h)

/-! ## §5. Stored texts.

JSON coerces a text on its way in, and leaves alone what it has coerced. -/

/-- The texts of every entry are ones that JSON leaves alone. -/
def DB.normal (tx : DB) : Prop := ∀ n f e, tx.entry n f = some e → e.normal = e

theorem Entry.normal_normal (e : Entry) : e.normal.normal = e.normal := by
  unfold Entry.normal
  simp only [jsonString_idem]

theorem DB.normal_withEntry {tx : DB} (h : tx.normal) (e : Entry) : (tx.withEntry e).normal := by
  intro n f e' he'
  rw [DB.entry_withEntry] at he'
  split at he'
  next =>
    rw [← Option.some.inj he']
    exact e.normal_normal
  next => exact h n f e' he'

/-- Normality is a matter of name and path. -/
theorem Entry.normal_of_untimed {e e' : Entry} (h : e.untimed = e'.untimed) (hn : e'.normal = e') :
    e.normal = e := by
  have hname : e.untimed.name = e'.untimed.name := by rw [h]
  have hpath : e.untimed.localPath = e'.untimed.localPath := by rw [h]
  change e.name = e'.name at hname
  change e.localPath = e'.localPath at hpath
  have hname' : jsonString e'.name = e'.name := congrArg Entry.name hn
  have hpath' : jsonString e'.localPath = e'.localPath := congrArg Entry.localPath hn
  unfold Entry.normal
  rw [hname, hpath, hname', hpath', ← hname, ← hpath]

/-- **Every operation keeps the stored texts normal.** -/
theorem Op.apply_normal {s : Store} (hwf : s.db.WF) (h : s.db.normal) (op : Op) :
    (op.apply s).db.normal := by
  cases op with
  | putLocal clk entry =>
    exact Store.putLocal_keeps hwf h clk entry
      (fun _ => DB.normal_withEntry h (s.localCopy clk entry))
  | deleteLocal clk f =>
    refine Store.deleteLocal_keeps hwf h clk f (fun e _ n g e' he' => ?_)
    rw [DB.entry_withoutHint] at he'
    exact DB.normal_withEntry h (e.tombstone clk) n g e' he'
  | putPeerEntries clk p es =>
    refine Store.putPeerEntries_keeps hwf h clk p es (fun hms => ?_)
    obtain ⟨db, hput, _, hne, hself, _⟩ := Store.putPeerEntries_spec hwf clk p hms
    rw [hput]
    intro n f e he
    by_cases hn : n = p
    · -- what stands under the peer is the copy of an offered entry
      subst hn
      have hstored := hself f
      rw [he, Option.map_some] at hstored
      obtain ⟨e', _, heq⟩ := Option.map_eq_some_iff.mp hstored.symm
      have hunt : e.untimed = ({ e' with ownerNodeID := n } : Entry).normal.untimed := heq.symm
      exact Entry.normal_of_untimed hunt (Entry.normal_normal _)
    · exact h n f e (by rw [← hne n f hn]; exact he)
  | removePeer p =>
    show (s.removePeer p).1.db.normal
    obtain ⟨db, hrem, _, hent, _⟩ := Store.removePeer_spec hwf p
    rw [hrem]
    intro n f e he
    rw [hent] at he
    split at he
    next => cases he
    next => exact h n f e he

theorem Op.applyAll_normal (ops : List Op) {s : Store} (hwf : s.db.WF) (h : s.db.normal) :
    (Op.applyAll s ops).db.normal := by
  induction ops generalizing s with
  | nil => exact h
  | cons op ops ih => exact ih (op.apply_wf hwf) (op.apply_normal hwf h)

theorem DB.normal_empty : DB.empty.normal := by
  intro n f e he
  cases he

end Kin.Catalog
