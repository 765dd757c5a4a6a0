/-
  Kin.Catalog.Spec

  **WHAT EACH TRANSACTION HELPER DOES TO THE TWO BUCKETS.**

  A reader of the catalog sees two things: the entry under an (owner, file)
  key and the owner list of a file.  `DB.entry` and `DB.ownersAt` are these
  views; every helper of the store gets one lemma per view, and the two loops
  (`putPeerLoop`, `removePeerLoop`) get theirs by induction from the helpers'.

  `DB.WF` is what every write preserves: an entry sits under ITS OWN key, and
  whatever time is stored is one that JSON can write again.
-/
import Kin.Catalog.Store

namespace Kin.Catalog

open Kin.Lib

/-! ## §1. Composite keys. -/

theorem compositeKey_inj {n n' : NodeID} {f f' : FileID}
    (h : compositeKey n f = compositeKey n' f') : n = n' ∧ f = f' := by
  -- both ids have 32 bytes, so the key splits in one way only
  obtain ⟨hn, hf⟩ := List.append_inj h (n.length_eq.trans n'.length_eq.symm)
  exact ⟨Bytes.ext hn, Bytes.ext hf⟩

/-- A composite key starts with the 32 bytes of its own owner and of no other. -/
theorem isPrefix_compositeKey {n n' : NodeID} {f : FileID} :
    n.val <+: compositeKey n' f ↔ n = n' := by
  refine ⟨fun h => ?_, fun h => h ▸ List.prefix_append _ _⟩
  -- two prefixes of one key, of the same length
  have hpre : n.val <+: n'.val :=
    List.prefix_of_prefix_length_le h (List.prefix_append _ _)
      (n.length_eq.trans n'.length_eq.symm).le
  exact Bytes.ext (hpre.eq_of_length (n.length_eq.trans n'.length_eq.symm))

/-! ## §2. The reader's views. -/

/-- The entry as the database gives it back. -/
def Entry.normal (e : Entry) : Entry :=
  { e with name := jsonString e.name, localPath := jsonString e.localPath }

namespace DB

/-- The entry stored for a file of an owner. -/
def entry (tx : DB) (n : NodeID) (f : FileID) : Option Entry :=
  tx.entries.get (compositeKey n f)

/-- The owner list under an availability key, without the times. -/
def ownersAt (tx : DB) (k : GoString) : Option (List NodeID) :=
  (tx.availability.get k).map (List.map OwnerHint.nodeID)

/-- The nodes `GetOwners` lists for a file. -/
def owners (tx : DB) (f : FileID) : List NodeID := (tx.ownersAt f.val).getD []

/-- What every write preserves. -/
structure WF (tx : DB) : Prop where
  /-- An entry sits under its own key. -/
  keyed : ∀ k e, tx.entries.get k = some e → k = compositeKey e.ownerNodeID e.fileID
  /-- A stored modification time can be written again. -/
  modTime : ∀ k e, tx.entries.get k = some e → e.modTime.jsonOK = true
  /-- A stored hint can be written again. -/
  seenAt : ∀ k hints, tx.availability.get k = some hints → ∀ h ∈ hints, h.seenAt.jsonOK = true

theorem wf_empty : DB.empty.WF where
  keyed := by intro k e h; cases h
  modTime := by intro k e h; cases h
  seenAt := by intro k hints h; cases h

/-- A well-formed database finds an entry under the owner and file it names. -/
theorem WF.entry_ids {tx : DB} (h : tx.WF) {n : NodeID} {f : FileID} {e : Entry}
    (he : tx.entry n f = some e) : e.ownerNodeID = n ∧ e.fileID = f := by
  obtain ⟨hn, hf⟩ := compositeKey_inj (h.keyed _ _ he)
  exact ⟨hn.symm, hf.symm⟩

end DB

theorem Store.getEntry_eq (s : Store) (n : NodeID) (f : FileID) : s.getEntry n f = s.db.entry n f :=
  rfl

theorem Store.mem_owners_iff (s : Store) (n : NodeID) (f : FileID) :
    n ∈ s.db.owners f ↔ ∃ h ∈ s.getOwners f, h.nodeID = n := by
  unfold DB.owners DB.ownersAt Store.getOwners
  cases s.db.availability.get f.val with
  | none => simp
  | some hints => simp

/-! ## §3. Writing an entry, deleting an owner's entries. -/

/-- The database after a successful `putEntry`. -/
def DB.withEntry (tx : DB) (e : Entry) : DB :=
  { tx with entries := tx.entries.put (compositeKey e.ownerNodeID e.fileID) e.normal }

theorem putEntry_eq (tx : DB) (e : Entry) :
    putEntry tx e
      = if e.modTime.jsonOK && e.updatedAt.jsonOK then .ok (tx.withEntry e)
        else .error yearError := by
  unfold putEntry Entry.json
  split <;> rfl

theorem putEntry_ok {tx : DB} {e : Entry} (hm : e.modTime.jsonOK = true)
    (hu : e.updatedAt.jsonOK = true) : putEntry tx e = .ok (tx.withEntry e) := by
  rw [putEntry_eq, hm, hu]
  rfl

theorem putEntry_error {tx : DB} {e : Entry} (hm : ¬ e.modTime.jsonOK = true) :
    putEntry tx e = .error yearError := by
  rw [putEntry_eq]
  simp [hm]

namespace DB

theorem entry_withEntry (tx : DB) (e : Entry) (n : NodeID) (f : FileID) :
    (tx.withEntry e).entry n f
      = if n = e.ownerNodeID ∧ f = e.fileID then some e.normal else tx.entry n f := by
  unfold entry withEntry
  rw [Bucket.get_put]
  by_cases h : n = e.ownerNodeID ∧ f = e.fileID
  · rw [if_pos h, if_pos (by rw [h.1, h.2])]
  · rw [if_neg h, if_neg (fun hk => h (compositeKey_inj hk))]

@[simp] theorem ownersAt_withEntry (tx : DB) (e : Entry) (k : GoString) :
    (tx.withEntry e).ownersAt k = tx.ownersAt k := rfl

theorem WF.withEntry {tx : DB} (h : tx.WF) {e : Entry} (hm : e.modTime.jsonOK = true) :
    (tx.withEntry e).WF := by
  have hget : ∀ k e', (tx.withEntry e).entries.get k = some e' →
      (k = compositeKey e.ownerNodeID e.fileID ∧ e' = e.normal) ∨ tx.entries.get k = some e' := by
    intro k e' hk
    unfold DB.withEntry at hk
    rw [Bucket.get_put] at hk
    split at hk
    next heq => exact Or.inl ⟨heq, (Option.some.inj hk).symm⟩
    next => exact Or.inr hk
  refine ⟨fun k e' hk => ?_, fun k e' hk => ?_, h.seenAt⟩
  · rcases hget k e' hk with ⟨hkey, he⟩ | hold
    · rw [hkey, he]; rfl
    · exact h.keyed k e' hold
  · rcases hget k e' hk with ⟨_, he⟩ | hold
    · rw [he]; exact hm
    · exact h.modTime k e' hold

end DB

/-- The cursor loop removes exactly the owner's entries. -/
theorem get_deleteByPrefix (tx : DB) (p : NodeID) (k : GoString) :
    (deleteByPrefix tx p).entries.get k = if p.val <+: k then none else tx.entries.get k := by
  unfold deleteByPrefix
  rw [Bucket.get_foldl_delete]
  by_cases hpre : p.val <+: k
  · rw [if_pos hpre]
    cases hk : tx.entries.get k with
    | none => simp
    | some e =>
      rw [if_pos (List.mem_map.mpr ⟨(k, e), tx.entries.mem_scan.mpr ⟨hpre, hk⟩, rfl⟩)]
  · rw [if_neg hpre, if_neg]
    intro hmem
    obtain ⟨⟨k', e⟩, hscan, rfl⟩ := List.mem_map.mp hmem
    exact hpre (tx.entries.mem_scan.mp hscan).1

theorem entry_deleteByPrefix (tx : DB) (p n : NodeID) (f : FileID) :
    (deleteByPrefix tx p).entry n f = if n = p then none else tx.entry n f := by
  unfold DB.entry
  rw [get_deleteByPrefix]
  by_cases hn : n = p
  · rw [if_pos hn, if_pos (isPrefix_compositeKey.mpr hn.symm)]
  · rw [if_neg hn, if_neg (fun hpre => hn (isPrefix_compositeKey.mp hpre).symm)]

@[simp] theorem ownersAt_deleteByPrefix (tx : DB) (p : NodeID) (k : GoString) :
    (deleteByPrefix tx p).ownersAt k = tx.ownersAt k := rfl

theorem DB.WF.deleteByPrefix {tx : DB} (h : tx.WF) (p : NodeID) : (deleteByPrefix tx p).WF := by
  have hget : ∀ k e, (Catalog.deleteByPrefix tx p).entries.get k = some e →
      tx.entries.get k = some e := by
    intro k e hk
    rw [get_deleteByPrefix] at hk
    split at hk
    next => cases hk
    next => exact hk
  exact ⟨fun k e hk => h.keyed k e (hget k e hk), fun k e hk => h.modTime k e (hget k e hk),
    h.seenAt⟩

/-- A prefix listing shows the owner's live entries. -/
theorem mem_listByPrefixTx {tx : DB} (h : tx.WF) {p : NodeID} {e : Entry} :
    e ∈ listByPrefixTx tx p ↔ tx.entry p e.fileID = some e ∧ e.deleted = false := by
  unfold listByPrefixTx
  rw [List.mem_filter, List.mem_map]
  refine ⟨fun ⟨⟨⟨k, e'⟩, hscan, he⟩, hlive⟩ => ?_, fun ⟨he, hlive⟩ => ?_⟩
  · simp only at he
    subst he
    obtain ⟨hpre, hget⟩ := tx.entries.mem_scan.mp hscan
    -- the key it was found under is its own composite key
    have hkey := h.keyed k e' hget
    rw [hkey] at hpre hget
    have hp := isPrefix_compositeKey.mp hpre
    exact ⟨by rw [hp]; exact hget, by simpa using hlive⟩
  · refine ⟨⟨(compositeKey p e.fileID, e), ?_, rfl⟩, by simpa using hlive⟩
    exact tx.entries.mem_scan.mpr ⟨isPrefix_compositeKey.mpr rfl, he⟩

/-- A prefix listing shows each file once: the keys of the scan are distinct. -/
theorem listByPrefixTx_nodup {tx : DB} (h : tx.WF) (p : NodeID) :
    ((listByPrefixTx tx p).map Entry.fileID).Nodup := by
  have hkeys : (tx.entries.scan p.val).Pairwise (fun x y => x.2.fileID ≠ y.2.fileID) := by
    have hsorted : (tx.entries.scan p.val).Pairwise (fun x y => x.1 < y.1) := by
      rw [Bucket.scan_eq_filter]
      exact tx.entries.sorted.filter _
    refine hsorted.imp_of_mem fun {x y} hx hy hlt heq => ?_
    obtain ⟨hpx, hgx⟩ := tx.entries.mem_scan.mp hx
    obtain ⟨hpy, hgy⟩ := tx.entries.mem_scan.mp hy
    have hkx := h.keyed _ _ hgx
    have hky := h.keyed _ _ hgy
    rw [hkx] at hpx
    rw [hky] at hpy
    have howner : x.2.ownerNodeID = y.2.ownerNodeID :=
      (isPrefix_compositeKey.mp hpx).symm.trans (isPrefix_compositeKey.mp hpy)
    rw [hkx, hky, howner, heq] at hlt
    exact lt_irrefl _ hlt
  have hentries : ((tx.entries.scan p.val).map Prod.snd).Pairwise (fun e e' => e.fileID ≠ e'.fileID) :=
    List.pairwise_map.mpr hkeys
  unfold listByPrefixTx List.Nodup
  rw [List.pairwise_map]
  exact hentries.filter _

/-- A prefix listing depends on the owner's entries only. -/
theorem listByPrefixTx_congr {tx tx' : DB} (h : tx.WF) (h' : tx'.WF) {p : NodeID}
    (heq : ∀ f, tx.entry p f = tx'.entry p f) : listByPrefixTx tx p = listByPrefixTx tx' p := by
  -- whatever is stored under a key with the prefix is an entry of the owner
  have hkey : ∀ {t : DB}, t.WF → ∀ {k : GoString} {e : Entry}, p.val <+: k → t.entries.get k = some e →
      k = compositeKey p e.fileID := by
    intro t ht k e hpre hget
    have hk := ht.keyed k e hget
    rw [hk] at hpre
    rw [hk, isPrefix_compositeKey.mp hpre]
  have hscan : tx.entries.scan p.val = tx'.entries.scan p.val := by
    refine Bucket.scan_congr fun k hpre => ?_
    cases hget : tx.entries.get k with
    | some e =>
      have hk := hkey h hpre hget
      rw [hk] at hget ⊢
      exact hget.symm.trans (heq e.fileID)
    | none =>
      cases hget' : tx'.entries.get k with
      | none => rfl
      | some e =>
        have hk := hkey h' hpre hget'
        rw [hk] at hget hget'
        exact absurd (hget.symm.trans ((heq e.fileID).trans hget')) nofun
  unfold listByPrefixTx
  rw [hscan]

/-- The entries of a listing: live, stored, not the peer's own. -/
theorem Store.mem_listForPeer {s : Store} (h : s.db.WF) {peerID : NodeID} {e : Entry} :
    e ∈ s.listForPeer peerID
      ↔ s.db.entry e.ownerNodeID e.fileID = some e ∧ e.deleted = false
        ∧ e.ownerNodeID ≠ peerID := by
  unfold Store.listForPeer
  rw [List.mem_filter, List.mem_map]
  refine ⟨fun ⟨⟨⟨k, e'⟩, hmem, he⟩, hc⟩ => ?_, fun ⟨he, hlive, hne⟩ => ?_⟩
  · simp only at he
    subst he
    have hget := s.db.entries.get_eq_some_iff.mpr hmem
    have hkey := h.keyed k e' hget
    rw [hkey] at hget
    simp only [Bool.and_eq_true, Bool.not_eq_true', decide_eq_true_eq] at hc
    exact ⟨hget, hc.1, hc.2⟩
  · refine ⟨⟨(compositeKey e.ownerNodeID e.fileID, e), ?_, rfl⟩, ?_⟩
    · exact s.db.entries.get_eq_some_iff.mp he
    · simp [hlive, hne]

/-- The entries of the full listing: live and stored. -/
theorem Store.mem_listAll {s : Store} (h : s.db.WF) {e : Entry} :
    e ∈ s.listAll ↔ s.db.entry e.ownerNodeID e.fileID = some e ∧ e.deleted = false := by
  unfold Store.listAll
  rw [List.mem_filter, List.mem_map]
  refine ⟨fun ⟨⟨⟨k, e'⟩, hmem, he⟩, hc⟩ => ?_, fun ⟨he, hlive⟩ => ?_⟩
  · simp only at he
    subst he
    have hget := s.db.entries.get_eq_some_iff.mpr hmem
    rw [h.keyed k e' hget] at hget
    exact ⟨hget, by simpa using hc⟩
  · refine ⟨⟨(compositeKey e.ownerNodeID e.fileID, e), ?_, rfl⟩, by simpa using hlive⟩
    exact s.db.entries.get_eq_some_iff.mp he

/-! ## §4. The availability index. -/

/-- Append an owner unless it is listed. -/
def addOwner (n : NodeID) (l : List NodeID) : List NodeID := if n ∈ l then l else l ++ [n]

theorem mem_addOwner {n m : NodeID} {l : List NodeID} : m ∈ addOwner n l ↔ m = n ∨ m ∈ l := by
  unfold addOwner
  by_cases h : n ∈ l
  · rw [if_pos h]
    exact ⟨Or.inr, fun hm => hm.elim (fun hmn => hmn ▸ h) id⟩
  · rw [if_neg h, List.mem_append, List.mem_singleton, or_comm]

theorem addOwner_of_mem {n : NodeID} {l : List NodeID} (h : n ∈ l) : addOwner n l = l := if_pos h

theorem addOwner_idem (n : NodeID) (l : List NodeID) : addOwner n (addOwner n l) = addOwner n l :=
  addOwner_of_mem (mem_addOwner.mpr (Or.inl rfl))

theorem map_nodeID_markSeen (n : NodeID) (now : Time) (hints : List OwnerHint) :
    (markSeen n now hints).map OwnerHint.nodeID = addOwner n (hints.map OwnerHint.nodeID) := by
  induction hints with
  | nil => rfl
  | cons h hints ih =>
    unfold markSeen
    by_cases hn : h.nodeID = n
    · rw [if_pos hn]
      simp [addOwner, hn]
    · rw [if_neg hn, List.map_cons, ih]
      -- a new owner goes to the end of the hints and of the list alike
      unfold addOwner
      by_cases hmem : n ∈ hints.map OwnerHint.nodeID
      · rw [if_pos hmem, List.map_cons, if_pos (List.mem_cons_of_mem _ hmem)]
      · rw [if_neg hmem, List.map_cons, if_neg]
        · rfl
        · intro h'
          rcases List.mem_cons.mp h' with h' | h'
          · exact hn h'.symm
          · exact hmem h'

theorem seenAt_markSeen {n : NodeID} {now : Time} {hints : List OwnerHint}
    (hnow : now.jsonOK = true) (hs : ∀ h ∈ hints, h.seenAt.jsonOK = true) :
    ∀ h ∈ markSeen n now hints, h.seenAt.jsonOK = true := by
  induction hints with
  | nil =>
    intro h hh
    rw [markSeen, List.mem_singleton] at hh
    rw [hh]
    exact hnow
  | cons h0 hints ih =>
    intro h hh
    unfold markSeen at hh
    split at hh
    next =>
      rcases List.mem_cons.mp hh with rfl | hh
      · exact hnow
      · exact hs h (List.mem_cons_of_mem _ hh)
    next =>
      rcases List.mem_cons.mp hh with rfl | hh
      · exact hs h List.mem_cons_self
      · exact ih (fun h' hh' => hs h' (List.mem_cons_of_mem _ hh')) h hh

namespace DB

/-- The database after a successful `addAvailability`. -/
def withHint (tx : DB) (f : FileID) (n : NodeID) (now : Time) : DB :=
  { tx with
    availability :=
      tx.availability.put f.val (markSeen n now ((tx.availability.get f.val).getD [])) }

/-- The database after a successful `removeAvailability`. -/
def withoutHint (tx : DB) (f : FileID) (n : NodeID) : DB :=
  match tx.availability.get f.val with
  | none => tx
  | some hints =>
    let filtered := hints.filter (fun h => h.nodeID ≠ n)
    if filtered = [] then { tx with availability := tx.availability.delete f.val }
    else { tx with availability := tx.availability.put f.val filtered }

/-- Take an owner off a list; an empty list is not kept. -/
def dropOwner (n : NodeID) (o : Option (List NodeID)) : Option (List NodeID) :=
  (o.map (List.filter (fun m => m ≠ n))).filter (fun l => l ≠ [])

@[simp] theorem entry_withHint (tx : DB) (f : FileID) (n : NodeID) (now : Time) (m : NodeID)
    (g : FileID) : (tx.withHint f n now).entry m g = tx.entry m g := rfl

theorem ownersAt_withHint (tx : DB) (f : FileID) (n : NodeID) (now : Time) (k : GoString) :
    (tx.withHint f n now).ownersAt k
      = if k = f.val then some (addOwner n (tx.owners f)) else tx.ownersAt k := by
  unfold ownersAt withHint
  rw [Bucket.get_put]
  by_cases hk : k = f.val
  · rw [if_pos hk, if_pos hk, Option.map_some, map_nodeID_markSeen]
    unfold owners ownersAt
    cases tx.availability.get f.val <;> rfl
  · rw [if_neg hk, if_neg hk]

theorem WF.withHint {tx : DB} (h : tx.WF) {f : FileID} {n : NodeID} {now : Time}
    (hnow : now.jsonOK = true) : (tx.withHint f n now).WF := by
  refine ⟨h.keyed, h.modTime, fun k hints hk => ?_⟩
  unfold DB.withHint at hk
  rw [Bucket.get_put] at hk
  split at hk
  next =>
    rw [← Option.some.inj hk]
    apply seenAt_markSeen hnow
    cases hold : tx.availability.get f.val with
    | none => simp
    | some old => exact h.seenAt _ _ hold
  next => exact h.seenAt k hints hk

@[simp] theorem entry_withoutHint (tx : DB) (f : FileID) (n : NodeID) (m : NodeID) (g : FileID) :
    (tx.withoutHint f n).entry m g = tx.entry m g := by
  unfold withoutHint
  split
  · rfl
  · dsimp only
    split <;> rfl

theorem ownersAt_withoutHint (tx : DB) (f : FileID) (n : NodeID) (k : GoString) :
    (tx.withoutHint f n).ownersAt k
      = if k = f.val then dropOwner n (tx.ownersAt k) else tx.ownersAt k := by
  unfold withoutHint
  split
  next hnone =>
    by_cases hk : k = f.val
    · rw [if_pos hk, hk]
      unfold ownersAt
      rw [hnone]
      rfl
    · rw [if_neg hk]
  -- what is left of the list decides between writing it and deleting its key
  next hints hsome =>
    dsimp only
    have hmap : (hints.filter (fun h => h.nodeID ≠ n)).map OwnerHint.nodeID
        = (hints.map OwnerHint.nodeID).filter (fun m => m ≠ n) := by
      rw [List.filter_map]
      rfl
    split
    next hempty =>
      unfold ownersAt
      dsimp only
      rw [Bucket.get_delete]
      by_cases hk : k = f.val
      · subst hk
        rw [if_pos rfl, if_pos rfl, hsome]
        unfold dropOwner
        rw [Option.map_some, Option.map_some, ← hmap, hempty]
        rfl
      · rw [if_neg hk, if_neg hk]
    next hne =>
      unfold ownersAt
      dsimp only
      rw [Bucket.get_put]
      by_cases hk : k = f.val
      · subst hk
        rw [if_pos rfl, if_pos rfl, hsome]
        unfold dropOwner
        rw [Option.map_some, Option.map_some, Option.map_some, ← hmap, Option.filter_some, if_pos]
        simpa using hne
      · rw [if_neg hk, if_neg hk]

theorem WF.withoutHint {tx : DB} (h : tx.WF) (f : FileID) (n : NodeID) : (tx.withoutHint f n).WF := by
  unfold DB.withoutHint
  split
  next => exact h
  next hints hsome =>
    dsimp only
    split
    next =>
      refine ⟨h.keyed, h.modTime, fun k hints' hk => ?_⟩
      simp only at hk
      rw [Bucket.get_delete] at hk
      split at hk
      next => cases hk
      next => exact h.seenAt k hints' hk
    next =>
      refine ⟨h.keyed, h.modTime, fun k hints' hk => ?_⟩
      simp only at hk
      rw [Bucket.get_put] at hk
      split at hk
      next =>
        rw [← Option.some.inj hk]
        intro x hx
        exact h.seenAt _ _ hsome x (List.mem_of_mem_filter hx)
      next => exact h.seenAt k hints' hk

/-- After the removal the node is off the file's list, and only it. -/
theorem mem_owners_withoutHint (tx : DB) (f : FileID) (n : NodeID) (g : FileID) (m : NodeID) :
    m ∈ (tx.withoutHint f n).owners g ↔ m ∈ tx.owners g ∧ ¬ (g = f ∧ m = n) := by
  unfold owners
  rw [ownersAt_withoutHint]
  by_cases hg : g = f
  · subst hg
    rw [if_pos rfl]
    unfold dropOwner
    cases tx.ownersAt g.val with
    | none => simp
    | some l =>
      rw [Option.map_some, Option.filter_some]
      split
      next => simp
      next hempty =>
        -- the list is dropped: everyone on it was `n`
        have hl : l.filter (fun m => m ≠ n) = [] := by simpa using hempty
        have hall : m ∈ l → m = n := by
          intro hm
          simpa using (List.filter_eq_nil_iff.mp hl) m hm
        simpa using hall
  · have hval : g.val ≠ f.val := fun h => hg (Bytes.ext h)
    rw [if_neg hval]
    simp [hg]

theorem mem_owners_withHint (tx : DB) (f : FileID) (n : NodeID) (now : Time) (g : FileID)
    (m : NodeID) :
    m ∈ (tx.withHint f n now).owners g ↔ m ∈ tx.owners g ∨ (g = f ∧ m = n) := by
  show m ∈ ((tx.withHint f n now).ownersAt g.val).getD [] ↔ _
  rw [ownersAt_withHint]
  by_cases hg : g = f
  · subst hg
    rw [if_pos rfl, Option.getD_some, mem_addOwner]
    simp [or_comm]
  · rw [if_neg (fun h => hg (Bytes.ext h))]
    simp [hg, owners]

end DB

theorem jsonHints_ok {hints : List OwnerHint} (h : ∀ x ∈ hints, x.seenAt.jsonOK = true) :
    jsonHints hints = .ok hints := by
  unfold jsonHints
  rw [if_pos (List.all_eq_true.mpr h)]

theorem addAvailability_ok {tx : DB} (h : tx.WF) (f : FileID) (n : NodeID) {now : Time}
    (hnow : now.jsonOK = true) : addAvailability tx f n now = .ok (tx.withHint f n now) := by
  show (jsonHints (markSeen n now ((tx.availability.get f.val).getD [])) >>= fun data =>
      pure { tx with availability := tx.availability.put f.val data }) = _
  rw [jsonHints_ok]
  · rfl
  · apply seenAt_markSeen hnow
    cases hold : tx.availability.get f.val with
    | none => simp
    | some old => exact h.seenAt _ _ hold

theorem removeAvailability_ok {tx : DB} (h : tx.WF) (f : FileID) (n : NodeID) :
    removeAvailability tx f n = .ok (tx.withoutHint f n) := by
  unfold removeAvailability DB.withoutHint
  cases hget : tx.availability.get f.val with
  | none => rfl
  | some hints =>
    dsimp only
    split
    next => rfl
    next =>
      rw [jsonHints_ok]
      · rfl
      · exact fun x hx => h.seenAt _ _ hget x (List.mem_of_mem_filter hx)

end Kin.Catalog
