/-
  Kin.Catalog.Listing

  **WHAT THE LISTINGS SHOW** (`internal/catalog/store.go`).

  `ListByOwner`, `ListLocal` and `LookupLocalByPath` walk over the keys that
  start with an owner's id; `ListAll` and `ListForPeer` walk over every key and
  look at the decoded entry.  The two agree because an entry sits under its own
  key (`DB.WF`), in every state the writes can lead to.

  Main results:
    • `scans_agree`   — each range walk is the full walk, restricted,
    • `putPeerLoop_entry` — what the insert loop stores, and at which time,
    • `replace_all`   — what `PutPeerEntries` leaves under the peer: the last
      occurrence of each file id, whatever stood there before.
-/
import Mathlib.Data.List.Sort
import Kin.Catalog.Ops

namespace Kin.Catalog

open Kin.Lib

/-! ## §1. A range walk is a restricted full walk. -/

/-- The entries under the keys that start with `n` are the entries of `n`. -/
theorem scan_eq_owned {tx : DB} (h : tx.WF) (n : NodeID) :
    (tx.entries.scan n.val).map Prod.snd
      = (tx.entries.items.map Prod.snd).filter (fun e => decide (e.ownerNodeID = n)) := by
  rw [Bucket.scan_eq_filter, List.filter_map]
  congr 1
  refine List.filter_congr fun x hx => ?_
  have hkey : x.1 = compositeKey x.2.ownerNodeID x.2.fileID :=
    h.keyed _ _ (tx.entries.get_eq_some_iff.mpr hx)
  show decide (n.val <+: x.1) = decide (x.2.ownerNodeID = n)
  rw [hkey, decide_eq_decide, isPrefix_compositeKey]
  exact eq_comm

theorem listByOwner_eq {s : Store} (h : s.db.WF) (n : NodeID) :
    s.listByOwner n = s.listAll.filter (fun e => decide (e.ownerNodeID = n)) := by
  show ((s.db.entries.scan n.val).map Prod.snd).filter (fun e => !e.deleted) = _
  rw [scan_eq_owned h]
  unfold Store.listAll
  rw [List.filter_filter, List.filter_filter]
  refine List.filter_congr fun e _ => ?_
  exact Bool.and_comm _ _

theorem listForPeer_eq (s : Store) (n : NodeID) :
    s.listForPeer n = s.listAll.filter (fun e => decide (e.ownerNodeID ≠ n)) := by
  unfold Store.listForPeer Store.listAll
  rw [List.filter_filter]
  refine List.filter_congr fun e _ => ?_
  exact Bool.and_comm _ _

theorem lookupLocalByPath_eq (s : Store) (path : GoString) :
    s.lookupLocalByPath path = s.listLocal.find? (fun e => decide (e.localPath = path)) := by
  show _ = (((s.db.entries.scan s.selfID.val).map Prod.snd).filter (fun e => !e.deleted)).find? _
  rw [List.find?_filter]
  unfold Store.lookupLocalByPath
  simp

/-- **The range walks agree with the full walk**, in every state the store can
reach. -/
theorem scans_agree (selfID : NodeID) (ops : List Op) :
    let s := Op.applyAll (Store.openFresh selfID) ops
    (∀ n, s.listByOwner n = s.listAll.filter (fun e => decide (e.ownerNodeID = n)))
      ∧ (∀ n, s.listForPeer n = s.listAll.filter (fun e => decide (e.ownerNodeID ≠ n)))
      ∧ (∀ path, s.lookupLocalByPath path ≠ none ↔ ∃ e ∈ s.listLocal, e.localPath = path)
      ∧ ∀ path, s.lookupLocalByPath path
          = s.listLocal.find? (fun e => decide (e.localPath = path)) := by
  intro s
  have hwf : s.db.WF := Op.applyAll_wf ops DB.wf_empty
  refine ⟨listByOwner_eq hwf, listForPeer_eq s, fun path => ?_, lookupLocalByPath_eq s⟩
  rw [lookupLocalByPath_eq, ne_eq, List.find?_eq_none]
  push Not
  simp only [decide_eq_true_eq]

/-! ## §2. The order of a listing. -/

/-- What follows a common first part decides. -/
theorem append_lt_append_left {p k k' : GoString} (h : p ++ k < p ++ k') : k < k' := by
  induction p with
  | nil => exact h
  | cons b p ih =>
    rcases List.cons_lex_cons_iff.mp h with hlt | ⟨-, hlt⟩
    · exact absurd hlt (lt_irrefl b)
    · exact ih hlt

/-- An owner's files are listed in the byte order of their ids. -/
theorem listByPrefixTx_sorted {tx : DB} (h : tx.WF) (p : NodeID) :
    (listByPrefixTx tx p).Pairwise (fun e e' => e.fileID.val < e'.fileID.val) := by
  have hkeys : (tx.entries.scan p.val).Pairwise (fun x y => x.2.fileID.val < y.2.fileID.val) := by
    have hsorted : (tx.entries.scan p.val).Pairwise (fun x y => x.1 < y.1) := by
      rw [Bucket.scan_eq_filter]
      exact tx.entries.sorted.filter _
    -- both keys start with the 32 bytes of `p`
    have hkey : ∀ x ∈ tx.entries.scan p.val, x.1 = p.val ++ x.2.fileID.val := by
      intro x hx
      obtain ⟨hpre, hget⟩ := tx.entries.mem_scan.mp hx
      have hk := h.keyed _ _ hget
      rw [hk] at hpre ⊢
      rw [isPrefix_compositeKey.mp hpre]
      rfl
    refine hsorted.imp_of_mem fun {x y} hx hy hlt => ?_
    rw [hkey x hx, hkey y hy] at hlt
    exact append_lt_append_left hlt
  have hentries : ((tx.entries.scan p.val).map Prod.snd).Pairwise
      (fun e e' => e.fileID.val < e'.fileID.val) := List.pairwise_map.mpr hkeys
  exact hentries.filter _

/-! ## §3. Replace-all. -/

/-- Two databases that differ at most in the entries of `p` are one database
once these are deleted. -/
theorem deleteByPrefix_congr {tx tx' : DB} (h : tx.WF) (h' : tx'.WF) {p : NodeID}
    (hav : tx.availability = tx'.availability)
    (hne : ∀ n f, n ≠ p → tx.entry n f = tx'.entry n f) :
    deleteByPrefix tx p = deleteByPrefix tx' p := by
  have hget : ∀ {t t' : DB}, t.WF → (∀ n f, n ≠ p → t.entry n f = t'.entry n f) →
      ∀ {k : GoString} {e : Entry}, ¬ p.val <+: k → t.entries.get k = some e →
        t'.entries.get k = some e := by
    intro t t' ht hsame k e hpre hk
    have hkey := ht.keyed k e hk
    rw [hkey] at hpre hk ⊢
    have hown : e.ownerNodeID ≠ p := fun heq => hpre (isPrefix_compositeKey.mpr heq.symm)
    exact (hsame _ _ hown).symm.trans hk
  have hentries : (deleteByPrefix tx p).entries = (deleteByPrefix tx' p).entries := by
    apply Bucket.ext_get
    intro k
    rw [get_deleteByPrefix, get_deleteByPrefix]
    by_cases hpre : p.val <+: k
    · rw [if_pos hpre, if_pos hpre]
    · rw [if_neg hpre, if_neg hpre]
      apply Option.ext
      intro e
      exact ⟨hget h hne hpre, hget h' (fun n f hn => (hne n f hn).symm) hpre⟩
  show DB.mk (deleteByPrefix tx p).entries tx.availability
    = DB.mk (deleteByPrefix tx' p).entries tx'.availability
  rw [hentries, hav]

/-- The entry as `PutPeerEntries` stores it for `p` at the time `t`. -/
def Entry.storedAt (e : Entry) (p : NodeID) (t : Time) : Entry :=
  { e with
    ownerNodeID := p
    updatedAt := t
    name := jsonString e.name
    localPath := jsonString e.localPath }

/-- Entry `i` of the list is the last one with the file id. -/
def IsLast (f : FileID) (es : List Entry) (i : Nat) (e : Entry) : Prop :=
  es[i]? = some e ∧ e.fileID = f ∧ ∀ j e', i < j → es[j]? = some e' → e'.fileID ≠ f

theorem isLast_zero {f : FileID} {e e' : Entry} {es : List Entry} :
    IsLast f (e :: es) 0 e' ↔ e' = e ∧ e.fileID = f ∧ ∀ d ∈ es, d.fileID ≠ f := by
  constructor
  · rintro ⟨hhead, hf, hlast⟩
    have he : e = e' := Option.some.inj hhead
    subst he
    refine ⟨rfl, hf, fun d hd => ?_⟩
    obtain ⟨j, hj⟩ := List.mem_iff_getElem?.mp hd
    exact hlast (j + 1) d (Nat.succ_pos j) hj
  · rintro ⟨rfl, hf, hrest⟩
    refine ⟨rfl, hf, fun j d hj hd => ?_⟩
    cases j with
    | zero => cases hj
    | succ j => exact hrest d (List.mem_of_getElem? hd)

theorem isLast_succ {f : FileID} {e e' : Entry} {es : List Entry} {i : Nat} :
    IsLast f (e :: es) (i + 1) e' ↔ IsLast f es i e' := by
  refine and_congr Iff.rfl (and_congr Iff.rfl ⟨fun h j d hj hd => ?_, fun h j d hj hd => ?_⟩)
  · exact h (j + 1) d (Nat.succ_lt_succ hj) hd
  · cases j with
    | zero => cases hj
    | succ j => exact h j d (Nat.lt_of_succ_lt_succ hj) hd

/-- The entries under the peer after one turn of the insert loop. -/
theorem entry_withPeerEntry (tx : DB) (p : NodeID) (clk : Clock) (e : Entry) (f : FileID) :
    (tx.withPeerEntry p clk e).entry p f
      = if e.fileID = f then some (e.storedAt p (clk.now 0)) else tx.entry p f := by
  have hentry : (tx.withPeerEntry p clk e).entry p f
      = (tx.withEntry (e.under p (clk.now 0))).entry p f := by
    unfold DB.withPeerEntry
    split <;> rfl
  rw [hentry, DB.entry_withEntry]
  by_cases hf : e.fileID = f
  · rw [if_pos ⟨rfl, hf.symm⟩, if_pos hf]
    rfl
  · rw [if_neg (fun h => hf h.2.symm), if_neg hf]

/-- **The insert loop**, with its times.  By induction on the list: the turn of an entry
takes the next two readings of the clock, a later occurrence overwrites an earlier one. -/
theorem putPeerLoop_entry (p : NodeID) (f : FileID) (r : Entry) (es : List Entry) :
    ∀ {tx tx' : DB} {clk : Clock}, tx.WF → (∀ e ∈ es, e.modTime.jsonOK = true) →
      Store.putPeerLoop p tx clk es = .ok tx' →
      (tx'.entry p f = some r
        ↔ (∃ i e, IsLast f es i e ∧ r = e.storedAt p (clk.now (2 * i)))
          ∨ ((∀ e ∈ es, e.fileID ≠ f) ∧ tx.entry p f = some r)) := by
  induction es with
  | nil =>
    intro tx tx' clk _ _ h
    cases h
    refine ⟨fun h => Or.inr ⟨fun e he => absurd he List.not_mem_nil, h⟩, fun h => ?_⟩
    rcases h with ⟨i, e, hlast, _⟩ | ⟨_, h⟩
    · cases hlast.1
    · exact h
  | cons e es ih =>
    intro tx tx' clk hwf hms h
    have hm := hms e List.mem_cons_self
    rw [putPeerLoop_cons hwf p clk hm] at h
    rw [ih (hwf.withPeerEntry p clk hm) (fun d hd => hms d (List.mem_cons_of_mem _ hd)) h,
      entry_withPeerEntry]
    -- the last occurrence is among the rest, or it is this entry, or there is none
    constructor
    · rintro (⟨i, d, hlast, rfl⟩ | ⟨hrest, htx⟩)
      · refine Or.inl ⟨i + 1, d, isLast_succ.mpr hlast, ?_⟩
        show d.storedAt p (clk.now (2 + 2 * i)) = d.storedAt p (clk.now (2 * (i + 1)))
        rw [Nat.mul_succ, Nat.add_comm]
      · split at htx
        next hf =>
          refine Or.inl ⟨0, e, isLast_zero.mpr ⟨rfl, hf, hrest⟩, (Option.some.inj htx).symm⟩
        next hf => exact Or.inr ⟨List.forall_mem_cons.mpr ⟨hf, hrest⟩, htx⟩
    · rintro (⟨i, d, hlast, rfl⟩ | ⟨hnone, htx⟩)
      · cases i with
        | zero =>
          obtain ⟨rfl, hf, hrest⟩ := isLast_zero.mp hlast
          exact Or.inr ⟨hrest, by rw [if_pos hf]⟩
        | succ i =>
          refine Or.inl ⟨i, d, isLast_succ.mp hlast, ?_⟩
          show d.storedAt p (clk.now (2 * (i + 1))) = d.storedAt p (clk.now (2 + 2 * i))
          rw [Nat.mul_succ, Nat.add_comm]
      · obtain ⟨hf, hrest⟩ := List.forall_mem_cons.mp hnone
        exact Or.inr ⟨hrest, by rw [if_neg hf]; exact htx⟩

/-- What a `PutPeerEntries` that commits leaves under the peer, whatever was there. -/
theorem putPeerEntries_entry {s : Store} (h : s.db.WF) (clk : Clock) (p : NodeID)
    {es : List Entry} (hms : ∀ e ∈ es, e.modTime.jsonOK = true) (f : FileID) (r : Entry) :
    (s.putPeerEntries clk p es).1.getEntry p f = some r
      ↔ ∃ i e, IsLast f es i e ∧ r = e.storedAt p (clk.now (2 * i)) := by
  obtain ⟨db, hok, -⟩ :=
    putPeerLoop_spec p es (deleteByPrefix s.db p) clk (h.deleteByPrefix p) hms
  have hput : s.putPeerEntries clk p es = ({ s with db := db }, none) := Store.update_ok hok
  rw [hput]
  show db.entry p f = some r ↔ _
  rw [putPeerLoop_entry p f r es (h.deleteByPrefix p) hms hok, entry_deleteByPrefix, if_pos rfl]
  exact or_iff_left (fun hx => by cases hx.2)

/-- Listings in order with the same entries are the same. -/
theorem listByPrefixTx_ext {tx tx' : DB} (h : tx.WF) (h' : tx'.WF) {p : NodeID}
    (hsame : ∀ f, tx.entry p f = tx'.entry p f) : listByPrefixTx tx p = listByPrefixTx tx' p := by
  have : Std.Irrefl (fun e e' : Entry => e.fileID.val < e'.fileID.val) :=
    ⟨fun e => List.lt_irrefl _⟩
  have : Std.Asymm (fun e e' : Entry => e.fileID.val < e'.fileID.val) :=
    ⟨fun e e' => List.lt_asymm⟩
  refine (listByPrefixTx_sorted h p).eq_of_mem_iff (listByPrefixTx_sorted h' p) (fun e => ?_)
  rw [mem_listByPrefixTx h, mem_listByPrefixTx h', hsame]

/-- A `PutPeerEntries` that succeeds depends on what is left after the peer's
entries are deleted. -/
theorem putPeerEntries_congr {s s₂ : Store} {clk : Clock} {p : NodeID} {es : List Entry}
    (hid : s₂.selfID = s.selfID) (hdel : deleteByPrefix s₂.db p = deleteByPrefix s.db p)
    (hok : (s.putPeerEntries clk p es).2 = none) :
    s₂.putPeerEntries clk p es = s.putPeerEntries clk p es := by
  unfold Store.putPeerEntries Store.update at hok ⊢
  dsimp only at hok ⊢
  rw [hdel]
  cases hloop : Store.putPeerLoop p (deleteByPrefix s.db p) clk es with
  | ok db => simp only [hid]
  | error err =>
    rw [hloop] at hok
    exact absurd hok nofun

/-- A `PutPeerEntries` that succeeds was given times that JSON can write. -/
theorem modTimes_of_putPeerEntries {s : Store} (h : s.db.WF) {clk : Clock} {p : NodeID}
    {es : List Entry} (hok : (s.putPeerEntries clk p es).2 = none) :
    ∀ e ∈ es, e.modTime.jsonOK = true := by
  by_contra hbad
  push Not at hbad
  rw [Store.putPeerEntries_error h clk p hbad] at hok
  exact absurd hok nofun

/-- **Replace-all.**  A `PutPeerEntries` that succeeds leaves, in every state the
store can reach: under the peer one entry for each file id of the list, its last
occurrence with the peer as its owner and the time of its turn; a listing of the live
ones in the order of their ids; the same entries and the same listing for the peer as
after any other history of any store; and the very state that it leaves after any other
history of this store with the same owner lists and the same entries of the others. -/
theorem replace_all (selfID selfID₂ : NodeID) (ops ops₂ : List Op) (clk : Clock) (p : NodeID)
    (es : List Entry) :
    let s := Op.applyAll (Store.openFresh selfID) ops
    let s₂ := Op.applyAll (Store.openFresh selfID₂) ops₂
    let s' := (s.putPeerEntries clk p es).1
    let s₂' := (s₂.putPeerEntries clk p es).1
    (s.putPeerEntries clk p es).2 = none →
      (∀ f r, s'.getEntry p f = some r
          ↔ ∃ i e, IsLast f es i e ∧ r = e.storedAt p (clk.now (2 * i)))
      ∧ ((∀ e, e ∈ s'.listByOwner p ↔ s'.getEntry p e.fileID = some e ∧ e.deleted = false)
        ∧ (s'.listByOwner p).Pairwise (fun e e' => e.fileID.val < e'.fileID.val))
      ∧ ((s₂.putPeerEntries clk p es).2 = none
        ∧ (∀ f, s₂'.getEntry p f = s'.getEntry p f) ∧ s₂'.listByOwner p = s'.listByOwner p)
      ∧ (selfID₂ = selfID → s₂.db.availability = s.db.availability →
          (∀ n f, n ≠ p → s₂.getEntry n f = s.getEntry n f) →
          s₂.putPeerEntries clk p es = (s', none)) := by
  intro s s₂ s' s₂' hok
  have hwf : s.db.WF := Op.applyAll_wf ops DB.wf_empty
  have hwf₂ : s₂.db.WF := Op.applyAll_wf ops₂ DB.wf_empty
  have hms := modTimes_of_putPeerEntries hwf hok
  obtain ⟨db, hput, hwf', -⟩ := Store.putPeerEntries_spec hwf clk p hms
  obtain ⟨db₂, hput₂, hwf₂', -⟩ := Store.putPeerEntries_spec hwf₂ clk p hms
  have hs' : s' = { s with db := db } := congrArg Prod.fst hput
  have hs₂' : s₂' = { s₂ with db := db₂ } := congrArg Prod.fst hput₂
  have hentry := putPeerEntries_entry hwf clk p hms
  have hsame : ∀ f, s₂'.getEntry p f = s'.getEntry p f := by
    intro f
    apply Option.ext
    intro r
    exact (putPeerEntries_entry hwf₂ clk p hms f r).trans (hentry f r).symm
  refine ⟨hentry, ⟨fun e => ?_, ?_⟩, ⟨congrArg Prod.snd hput₂, hsame, ?_⟩, fun hid hav hne => ?_⟩
  · rw [hs']
    exact mem_listByPrefixTx hwf'
  · rw [hs']
    exact listByPrefixTx_sorted hwf' p
  · rw [hs', hs₂'] at hsame ⊢
    exact listByPrefixTx_ext hwf₂' hwf' hsame
  · have hself : s₂.selfID = s.selfID :=
      (Op.applyAll_selfID ops₂ _).trans
        (hid.trans (Op.applyAll_selfID ops (Store.openFresh selfID)).symm)
    rw [putPeerEntries_congr hself (deleteByPrefix_congr hwf₂ hwf hav hne) hok, ← hok]

/-- Two files, one of them twice, over an entry of an earlier listing: the second
occurrence is the entry with number 2, and its turn takes the fifth reading. -/
theorem replace_all_twice_listed :
    let me : NodeID := Bytes.lit32 1
    let peer : NodeID := Bytes.lit32 2
    let file : UInt8 → String → Bool → Entry := fun b name deleted =>
      ⟨Bytes.lit32 b, ascii name, 3, ⟨0⟩, me, [], deleted, ⟨0⟩⟩
    let s := Op.applyAll (Store.openFresh me)
      [.putPeerEntries Clock.epoch peer [file 9 "old" false]]
    let put := s.putPeerEntries Clock.epoch peer
      [file 8 "b" false, file 7 "a" true, file 7 "c" false]
    put.2 = none ∧ put.1.getEntry peer (Bytes.lit32 9) = none
      ∧ put.1.getEntry peer (Bytes.lit32 7)
        = some ((file 7 "c" false).storedAt peer (Clock.epoch.now 4)) := by
  intro me peer file s put
  have hok : put.2 = none := by decide +kernel
  refine ⟨hok, by decide +kernel, ?_⟩
  refine ((replace_all me me _ [] Clock.epoch peer _ hok).1 (Bytes.lit32 7) _).mpr
    ⟨2, file 7 "c" false, ⟨rfl, rfl, fun j e hj he => ?_⟩, rfl⟩
  have hlt := (List.getElem?_eq_some_iff.mp he).1
  simp only [List.length_cons, List.length_nil] at hlt
  omega

/-- A name that is not UTF-8 is stored as another one. -/
theorem replace_all_alters_name :
    let peer : NodeID := Bytes.lit32 2
    let file : Entry := ⟨Bytes.lit32 7, [0xFF], 3, ⟨0⟩, peer, [], false, ⟨0⟩⟩
    let put := (Store.openFresh (Bytes.lit32 1)).putPeerEntries Clock.epoch peer [file]
    put.2 = none ∧ lastOf file.fileID [file] = some file
      ∧ (put.1.getEntry peer file.fileID).map Entry.name = some [0xEF, 0xBF, 0xBD]
      ∧ file.name ≠ [0xEF, 0xBF, 0xBD] := by
  decide +kernel

end Kin.Catalog
