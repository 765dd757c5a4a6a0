/-
  Kin.Catalog.Isolation

  **EACH NODE HAS ITS OWN CORNER OF THE CATALOG.**

  A write names the owner it is about: the node itself for `PutLocal` and
  `DeleteLocal`, the peer for `PutPeerEntries` and `RemovePeer`.  The two
  buckets are shared, the owner's keys and hints are not: what the catalog holds
  of every other node is the same before and after.

  The argument follows the transaction.  `DB.SameFor q` relates two databases
  that a reader asking about `q` cannot tell apart; each helper of the store
  keeps it whenever it succeeds, hence so do the loops, and a transaction that
  fails changes nothing at all.
-/
import Kin.Catalog.Ops

namespace Kin.Catalog

open Kin.Lib

/-! ## §1. What a database holds of one node. -/

/-- The hints for one node in an owner list, with the times. -/
def hintsFor (q : NodeID) (hints : List OwnerHint) : List OwnerHint :=
  hints.filter (fun h => decide (h.nodeID = q))

/-- The two databases hold the same of the node `q`. -/
structure DB.SameFor (q : NodeID) (tx tx' : DB) : Prop where
  entry : ∀ f, tx'.entry q f = tx.entry q f
  hints : ∀ k, hintsFor q ((tx'.availability.get k).getD [])
    = hintsFor q ((tx.availability.get k).getD [])

theorem DB.SameFor.refl (q : NodeID) (tx : DB) : tx.SameFor q tx := ⟨fun _ => rfl, fun _ => rfl⟩

theorem DB.SameFor.trans {q : NodeID} {tx₁ tx₂ tx₃ : DB} (h₁ : tx₁.SameFor q tx₂)
    (h₂ : tx₂.SameFor q tx₃) : tx₁.SameFor q tx₃ :=
  ⟨fun f => (h₂.entry f).trans (h₁.entry f), fun k => (h₂.hints k).trans (h₁.hints k)⟩

/-! ## §2. The transaction helpers. -/

theorem bind_eq_ok {α β : Type} {x : Except String α} {f : α → Except String β} {b : β}
    (h : (x >>= f) = .ok b) : ∃ a, x = .ok a ∧ f a = .ok b := by
  cases x with
  | error err => cases h
  | ok a => exact ⟨a, rfl, h⟩

theorem wrapErr_eq_ok {α : Type} {context : String} {x : Except String α} {a : α}
    (h : wrapErr context x = .ok a) : x = .ok a := by
  cases x with
  | error err => cases h
  | ok b => exact h

theorem hintsFor_markSeen {p q : NodeID} (hpq : p ≠ q) (now : Time) (hints : List OwnerHint) :
    hintsFor q (markSeen p now hints) = hintsFor q hints := by
  unfold hintsFor
  induction hints with
  | nil => simp [markSeen, hpq]
  | cons h hints ih =>
    rw [markSeen]
    split
    next hp =>
      -- the refreshed hint is one of `p`'s, on both sides
      rw [List.filter_cons_of_neg (by simpa [hp] using hpq),
        List.filter_cons_of_neg (by simpa [hp] using hpq)]
    next => rw [List.filter_cons, List.filter_cons, ih]

theorem hintsFor_filter_ne {p q : NodeID} (hpq : p ≠ q) (hints : List OwnerHint) :
    hintsFor q (hints.filter (fun h => decide (h.nodeID ≠ p))) = hintsFor q hints := by
  unfold hintsFor
  rw [List.filter_filter]
  apply List.filter_congr
  intro h _
  by_cases hq : h.nodeID = q
  · simp [hq, Ne.symm hpq]
  · simp [hq]

theorem jsonHints_eq_ok {hints data : List OwnerHint} (h : jsonHints hints = .ok data) :
    data = hints := by
  unfold jsonHints at h
  split at h
  · exact (Except.ok.inj h).symm
  · cases h

/-- A list of hints written under one key that has the same hints for `q`. -/
theorem sameFor_putHints {q : NodeID} {tx : DB} {k : GoString} {hints : List OwnerHint}
    (h : hintsFor q hints = hintsFor q ((tx.availability.get k).getD [])) :
    tx.SameFor q { tx with availability := tx.availability.put k hints } := by
  refine ⟨fun _ => rfl, fun k' => ?_⟩
  show hintsFor q (((tx.availability.put k hints).get k').getD []) = _
  rw [Bucket.get_put]
  split
  next hk => rw [hk]; exact h
  next => rfl

theorem sameFor_addAvailability {p q : NodeID} (hpq : p ≠ q) {tx tx' : DB} {f : FileID} {now : Time}
    (h : addAvailability tx f p now = .ok tx') : tx.SameFor q tx' := by
  obtain ⟨data, hdata, htx'⟩ := bind_eq_ok h
  cases htx'
  apply sameFor_putHints
  rw [jsonHints_eq_ok hdata]
  exact hintsFor_markSeen hpq now _

theorem sameFor_removeAvailability {p q : NodeID} (hpq : p ≠ q) {tx tx' : DB} {f : FileID}
    (h : removeAvailability tx f p = .ok tx') : tx.SameFor q tx' := by
  unfold removeAvailability at h
  cases hget : tx.availability.get f.val with
  | none =>
    simp only [hget] at h
    cases h
    exact DB.SameFor.refl q tx
  | some hints =>
    simp only [hget] at h
    have hkeep := hintsFor_filter_ne hpq hints
    split at h
    next hnil =>
      -- the list held `p`'s hints only, so `q` had none in it
      cases h
      refine ⟨fun _ => rfl, fun k => ?_⟩
      show hintsFor q (((tx.availability.delete f.val).get k).getD []) = _
      rw [Bucket.get_delete]
      split
      next hk =>
        rw [hk, hget]
        rw [hnil] at hkeep
        exact hkeep
      next => rfl
    next =>
      obtain ⟨data, hdata, htx'⟩ := bind_eq_ok h
      cases htx'
      apply sameFor_putHints
      rw [jsonHints_eq_ok hdata, hget]
      exact hkeep

theorem sameFor_putEntry {q : NodeID} {tx tx' : DB} {e : Entry} (hq : e.ownerNodeID ≠ q)
    (h : putEntry tx e = .ok tx') : tx.SameFor q tx' := by
  rw [putEntry_eq] at h
  split at h
  · cases h
    refine ⟨fun f => ?_, fun _ => rfl⟩
    rw [DB.entry_withEntry, if_neg (fun hkey => hq hkey.1.symm)]
  · cases h

theorem sameFor_deleteByPrefix {p q : NodeID} (hpq : p ≠ q) (tx : DB) :
    tx.SameFor q (deleteByPrefix tx p) := by
  refine ⟨fun f => ?_, fun _ => rfl⟩
  rw [entry_deleteByPrefix, if_neg (Ne.symm hpq)]

/-! ## §3. The loops. -/

theorem sameFor_putPeerLoop {p q : NodeID} (hpq : p ≠ q) (es : List Entry) {tx tx' : DB}
    {clk : Clock} (h : Store.putPeerLoop p tx clk es = .ok tx') : tx.SameFor q tx' := by
  induction es generalizing tx clk with
  | nil =>
    cases h
    exact DB.SameFor.refl q _
  | cons e es ih =>
    obtain ⟨tx₁, hput, h⟩ := bind_eq_ok h
    obtain ⟨tx₂, hadd, hrest⟩ := bind_eq_ok h
    have h₁ : tx.SameFor q tx₁ := sameFor_putEntry hpq (wrapErr_eq_ok hput)
    have h₂ : tx₁.SameFor q tx₂ := by
      split at hadd
      · cases hadd
        exact DB.SameFor.refl q tx₁
      · exact sameFor_addAvailability hpq (wrapErr_eq_ok hadd)
    exact (h₁.trans h₂).trans (ih hrest)

theorem sameFor_removePeerLoop {p q : NodeID} (hpq : p ≠ q) (es : List Entry) {tx tx' : DB}
    (h : Store.removePeerLoop p tx es = .ok tx') : tx.SameFor q tx' := by
  induction es generalizing tx with
  | nil =>
    cases h
    exact DB.SameFor.refl q _
  | cons e es ih =>
    obtain ⟨tx₁, hremove, hrest⟩ := bind_eq_ok h
    exact (sameFor_removeAvailability hpq (wrapErr_eq_ok hremove)).trans (ih hrest)

/-! ## §4. The four writes. -/

/-- The node a write is about. -/
def Op.owner (selfID : NodeID) : Op → NodeID
  | .putLocal _ _ => selfID
  | .deleteLocal _ _ => selfID
  | .putPeerEntries _ p _ => p
  | .removePeer p => p

/-- A transaction that keeps `q`'s part when it commits keeps it anyway. -/
theorem sameFor_update {q : NodeID} {s : Store} {f : DB → Except String DB}
    (h : ∀ tx', f s.db = .ok tx' → s.db.SameFor q tx') : s.db.SameFor q (s.update f).1.db := by
  unfold Store.update
  cases hf : f s.db with
  | error err => exact DB.SameFor.refl q s.db
  | ok tx' => exact h tx' hf

/-- **One write, one owner**: whatever the write, and whether it commits or
not, the part of every other node stays. -/
theorem sameFor_apply {s : Store} (hwf : s.db.WF) {q : NodeID} (op : Op)
    (hq : op.owner s.selfID ≠ q) : s.db.SameFor q (op.apply s).db := by
  cases op with
  | putLocal clk entry =>
    refine sameFor_update fun tx' h => ?_
    obtain ⟨tx₁, hput, hadd⟩ := bind_eq_ok h
    have h₁ : s.db.SameFor q tx₁ := sameFor_putEntry hq (wrapErr_eq_ok hput)
    exact h₁.trans (sameFor_addAvailability hq hadd)
  | deleteLocal clk f =>
    refine sameFor_update fun tx' h => ?_
    cases hget : s.db.entries.get (compositeKey s.selfID f) with
    | none =>
      simp only [hget] at h
      cases h
      exact DB.SameFor.refl q s.db
    | some e =>
      simp only [hget] at h
      obtain ⟨tx₁, hput, hremove⟩ := bind_eq_ok h
      -- the tombstone goes where its entry was: under the node's own key
      have howner : e.ownerNodeID = s.selfID := (hwf.entry_ids hget).1
      have h₁ : s.db.SameFor q tx₁ := by
        refine sameFor_putEntry ?_ (wrapErr_eq_ok hput)
        show e.ownerNodeID ≠ q
        rw [howner]
        exact hq
      exact h₁.trans (sameFor_removeAvailability hq hremove)
  | putPeerEntries clk p es =>
    refine sameFor_update fun tx' h => ?_
    exact (sameFor_deleteByPrefix hq s.db).trans (sameFor_putPeerLoop hq es h)
  | removePeer p =>
    refine sameFor_update fun tx' h => ?_
    obtain ⟨tx₁, hloop, htx'⟩ := bind_eq_ok h
    cases htx'
    exact (sameFor_removePeerLoop hq _ hloop).trans (sameFor_deleteByPrefix hq tx₁)

/-- **Owner isolation**: in every state the store can reach, a write about one
node leaves what the catalog tells of any other node `q` as it was: its record
of every file, the listing of its files, and its places in every owner list
with their times. -/
theorem owners_isolated (selfID : NodeID) (ops : List Op) (op : Op) (q : NodeID)
    (hq : op.owner selfID ≠ q) :
    let s := Op.applyAll (Store.openFresh selfID) ops
    let s' := op.apply s
    (∀ f, s'.getEntry q f = s.getEntry q f) ∧ s'.listByOwner q = s.listByOwner q
      ∧ ∀ f, hintsFor q (s'.getOwners f) = hintsFor q (s.getOwners f) := by
  intro s s'
  have hwf : s.db.WF := Op.applyAll_wf ops DB.wf_empty
  have hself : s.selfID = selfID := Op.applyAll_selfID ops _
  have hsame : s.db.SameFor q s'.db := sameFor_apply hwf op (by rw [hself]; exact hq)
  refine ⟨hsame.entry, ?_, fun f => hsame.hints f.val⟩
  exact listByPrefixTx_congr (op.apply_wf hwf) hwf hsame.entry

/-- A peer's new listing, on a catalog that holds a file of its own. -/
theorem owners_isolated_listing :
    let me : NodeID := Bytes.lit32 1
    let peer : NodeID := Bytes.lit32 2
    let file : Entry :=
      ⟨Bytes.lit32 7, ascii "a.txt", 3, ⟨0⟩, me, ascii "/home/a.txt", false, ⟨0⟩⟩
    let s := Op.applyAll (Store.openFresh me) [.putLocal Clock.epoch file]
    let s' := (Op.putPeerEntries Clock.epoch peer [file]).apply s
    s.listByOwner me = [file] ∧ s'.listByOwner peer ≠ s.listByOwner peer
      ∧ s'.listByOwner me = s.listByOwner me :=
  ⟨by decide +kernel, by decide +kernel,
    (owners_isolated (Bytes.lit32 1) _ _ (Bytes.lit32 1) (by decide)).2.1⟩

end Kin.Catalog
