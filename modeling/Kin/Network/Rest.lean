/-
  Kin.Network.Rest

  **NETWORKS AT REST.**

  A network is at rest when sending and applying every node's current offer
  would change nothing but `UpdatedAt` and `SeenAt`.  For each file id, who has
  it from whom is an instance of the re-offered fact of `Kin.Lib.Gossip`:

    • `knows_receive`   — an exchange of catalogs is an exchange of the fact,
    • `AtRest.settled`  — a network at rest is settled for every file id,
    • `ghostFree_iff`   — at rest, the files that no node holds locally are
      among those that have travelled over two hops.
-/
import Kin.Lib.Gossip
import Kin.Network.Model

namespace Kin.Network

open Kin.Lib Kin.Catalog Kin.Protocol

/-! ## §1. The properties. -/

/-- Two stores agree up to `UpdatedAt` and `SeenAt`. -/
def sameButTimes (s t : Store) : Prop :=
  s.db.entries.mapVal Entry.untimed = t.db.entries.mapVal Entry.untimed
    ∧ s.db.availability.mapVal (List.map OwnerHint.nodeID)
        = t.db.availability.mapVal (List.map OwnerHint.nodeID)

/-- Sending and applying the current offer between any two nodes of `N`
changes nothing. -/
def AtRest (N : Finset NodeID) (net : Net) : Prop :=
  ∀ a ∈ N, ∀ b ∈ N, a ≠ b → ∀ clk,
    sameButTimes ((net.receive clk (net.currentOffer a b)).store b) (net.store b)

/-- Every file id live in some catalog is live as a local entry somewhere. -/
def GhostFree (N : Finset NodeID) (net : Net) : Prop :=
  ∀ m ∈ N, ∀ e ∈ (net.store m).listAll,
    ∃ n ∈ N, ∃ e' ∈ (net.store n).listLocal, e'.fileID = e.fileID

/-- The file has travelled over two hops: `x` lists it under `y` while `y`
lists it under a third node. -/
def TwoHops (N : Finset NodeID) (net : Net) (f : FileID) : Prop :=
  ∃ x ∈ N, ∃ y ∈ N, ∃ z ∈ N, x ≠ y ∧ y ≠ z ∧ x ≠ z
    ∧ (∃ e ∈ (net.store x).listAll, e.ownerNodeID = y ∧ e.fileID = f)
    ∧ ∃ e ∈ (net.store y).listAll, e.ownerNodeID = z ∧ e.fileID = f

/-- The action takes place among the nodes of `N`. -/
def Act.Within (N : Finset NodeID) : Act → Prop
  | .putLocal n _ _ => n ∈ N
  | .deleteLocal n _ _ => n ∈ N
  | .send src dst => src ∈ N ∧ dst ∈ N ∧ src ≠ dst
  | .deliver _ _ => True

/-! ## §2. The views. -/

/-- Who has the file from whom. -/
def knows (f : FileID) (net : Net) : Knows NodeID := fun m n => (net.store m).db.live n f

theorem knows_iff_listAll {net : Net} (h : net.WF) {m n : NodeID} {f : FileID} :
    knows f net m n ↔ ∃ e ∈ (net.store m).listAll, e.ownerNodeID = n ∧ e.fileID = f := by
  refine ⟨fun ⟨e, he, hlive⟩ => ?_, fun ⟨e, he, hn, hf⟩ => ?_⟩
  · obtain ⟨hn, hf⟩ := (h.store m).entry_ids he
    exact ⟨e, (Store.mem_listAll (h.store m)).mpr ⟨by rw [hn, hf]; exact he, hlive⟩, hn, hf⟩
  · obtain ⟨hget, hlive⟩ := (Store.mem_listAll (h.store m)).mp he
    exact ⟨e, by rw [← hn, ← hf]; exact hget, hlive⟩

theorem knows_self_iff {net : Net} (h : net.WF) {n : NodeID} {f : FileID} :
    knows f net n n ↔ ∃ e ∈ (net.store n).listLocal, e.fileID = f := by
  unfold Store.listLocal Store.listByOwner
  rw [h.selfID n]
  refine ⟨fun ⟨e, he, hlive⟩ => ?_, fun ⟨e, he, hf⟩ => ?_⟩
  · have hf := ((h.store n).entry_ids he).2
    exact ⟨e, (mem_listByPrefixTx (h.store n)).mpr ⟨by rw [hf]; exact he, hlive⟩, hf⟩
  · obtain ⟨hget, hlive⟩ := (mem_listByPrefixTx (h.store n)).mp he
    exact ⟨e, by rw [← hf]; exact hget, hlive⟩

/-- What a node lists for a peer is what it has from others than the peer. -/
theorem lists_currentOffer {net : Net} (h : net.WF) {a b : NodeID} {f : FileID} :
    (net.currentOffer a b).lists f ↔ (knows f net).offers a b := by
  refine ⟨fun ⟨file, hfile, hf⟩ => ?_, fun ⟨z, hzb, e, he, hlive⟩ => ?_⟩
  · obtain ⟨e, he, rfl⟩ := List.mem_map.mp hfile
    obtain ⟨hget, hlive, hne⟩ := (Store.mem_listForPeer (h.store a)).mp he
    have hef : e.fileID = f := Bytes.ext hf
    exact ⟨e.ownerNodeID, hne, e, by rw [← hef]; exact hget, hlive⟩
  · obtain ⟨hz, hf⟩ := (h.store a).entry_ids he
    refine ⟨entryToProto e, List.mem_map_of_mem ?_, by rw [← hf]; rfl⟩
    exact (Store.mem_listForPeer (h.store a)).mpr
      ⟨by rw [hz, hf]; exact he, hlive, by rw [hz]; exact hzb⟩

/-- **One exchange**: what the destination holds after it applied the sender's
current offer; nothing else has changed. -/
theorem exchange_spec {net : Net} (h : net.WF) (clk : Clock) (a b : NodeID) :
    ∃ db : DB, db.WF
      ∧ (net.receive clk (net.currentOffer a b)).store b = ⟨db, b⟩
      ∧ (∀ m, m ≠ b → (net.receive clk (net.currentOffer a b)).store m = net.store m)
      ∧ (∀ n f, n ≠ a → db.entry n f = (net.store b).db.entry n f)
      ∧ (∀ f, (db.entry a f).map Entry.untimed
          = (lastOf f (((net.store a).listForPeer b).map wireCopy)).map (Entry.asStored a))
      ∧ (∀ f, db.live a f ↔ (knows f net).offers a b)
      ∧ (∀ f : FileID, (knows f net).offers a b →
          db.ownersAt f.val = some (addOwner a (((net.store b).db.ownersAt f.val).getD [])))
      ∧ (∀ k, (∀ f : FileID, f.val = k → ¬ (knows f net).offers a b) →
          db.ownersAt k = (net.store b).db.ownersAt k) := by
  obtain ⟨db, hrec, hwf, hne, hunt, hlive, hadd, hkeep⟩ :=
    receive_spec h (currentOffer_genuine h a b) clk
  have hlists := fun f => lists_currentOffer h (a := a) (b := b) (f := f)
  have hfiles : acceptFiles (net.currentOffer a b).offer.files
      = ((net.store a).listForPeer b).map wireCopy := acceptFiles_entriesToProto _
  refine ⟨db, hwf, ?_, fun m hm => ?_, hne, fun f => ?_, fun f => (hlive f).trans (hlists f),
    fun f hf => hadd f ((hlists f).mpr hf), fun k hk => hkeep k (fun f hf hl => ?_)⟩
  · rw [hrec]
    exact Net.setStore_self _ _ _
  · rw [hrec]
    exact Net.setStore_of_ne _ hm _
  · rw [← hfiles]
    exact hunt f
  · exact hk f hf ((hlists f).mp hl)

/-- **An exchange of catalogs is an exchange of each fact.** -/
theorem knows_receive {net : Net} (h : net.WF) (clk : Clock) (a b : NodeID) (f : FileID)
    (m n : NodeID) :
    knows f (net.receive clk (net.currentOffer a b)) m n ↔ (knows f net).exchange a b m n := by
  obtain ⟨db, _, hself, hother, hne, _, hlive, _, _⟩ := exchange_spec h clk a b
  show ((net.receive clk (net.currentOffer a b)).store m).db.live n f
    ↔ (m = b ∧ n = a ∧ (knows f net).offers a b) ∨ (¬ (m = b ∧ n = a) ∧ knows f net m n)
  by_cases hm : m = b
  · subst hm
    -- at the destination only the sender's row changes
    rw [hself]
    by_cases hn : n = a
    · subst hn
      simp only [and_self, true_and, not_true_eq_false, false_and, or_false]
      exact hlive f
    · simp only [hn, and_false, false_and, not_false_eq_true, true_and, false_or]
      exact live_congr (hne n f hn)
  · rw [hother m hm]
    simp only [hm, false_and, not_false_eq_true, true_and, false_or]
    exact Iff.rfl

/-- Agreement up to times, in terms of the views. -/
theorem sameButTimes_iff {s t : Store} (hs : s.db.WF) (ht : t.db.WF) :
    sameButTimes s t
      ↔ (∀ n f, (s.db.entry n f).map Entry.untimed = (t.db.entry n f).map Entry.untimed)
        ∧ ∀ k, s.db.ownersAt k = t.db.ownersAt k := by
  refine ⟨fun ⟨he, ho⟩ => ⟨fun n f => ?_, fun k => ?_⟩, fun ⟨he, ho⟩ => ⟨?_, ?_⟩⟩
  · have hget := congrArg (fun b => b.get (compositeKey n f)) he
    simp only [Bucket.get_mapVal] at hget
    exact hget
  · have hget := congrArg (fun b => b.get k) ho
    simp only [Bucket.get_mapVal] at hget
    exact hget
  · refine Bucket.ext_get fun k => ?_
    rw [Bucket.get_mapVal, Bucket.get_mapVal]
    -- a key that either store uses is a composite key
    cases hk : s.db.entries.get k with
    | some e =>
      rw [← hk, hs.keyed k e hk]
      exact he _ _
    | none =>
      cases hk' : t.db.entries.get k with
      | none => rfl
      | some e =>
        rw [← hk, ← hk', ht.keyed k e hk']
        exact he _ _
  · refine Bucket.ext_get fun k => ?_
    rw [Bucket.get_mapVal, Bucket.get_mapVal]
    exact ho k

/-- The entry a node holds decides what it knows. -/
theorem live_congr_untimed {tx tx' : DB} {n : NodeID} {f : FileID}
    (h : (tx.entry n f).map Entry.untimed = (tx'.entry n f).map Entry.untimed) :
    tx.live n f ↔ tx'.live n f := by
  rw [live_iff_untimed, live_iff_untimed, h]

theorem receive_wf {net : Net} (h : net.WF) (clk : Clock) (o : InFlight) : (net.receive clk o).WF := by
  rw [receive_eq]
  exact h.apply o.dst _

/-- **A network at rest is settled for every file id.** -/
theorem AtRest.settled {N : Finset NodeID} {net : Net} (hr : AtRest N net) (h : net.WF)
    (f : FileID) : (knows f net).Settled N := by
  intro a ha b hb hab
  -- resending the offer changes nothing, so `b` has already what `a` offers
  have hsame := hr a ha b hb hab Clock.epoch
  rw [sameButTimes_iff ((receive_wf h _ _).store b) (h.store b)] at hsame
  have hknow : knows f (net.receive Clock.epoch (net.currentOffer a b)) b a ↔ knows f net b a :=
    live_congr_untimed (hsame.1 a f)
  rw [← hknow, knows_receive h]
  unfold Knows.exchange
  simp

/-! ## §3. Runs within a set of nodes. -/

/-- Everything known comes from a node of `N`. -/
structure Net.Inside (N : Finset NodeID) (net : Net) : Prop where
  wf : net.WF
  names : ∀ m n f, Network.names (net.store m).db n f → n ∈ N
  flight : ∀ o ∈ net.flight, o.src ∈ N

theorem inside_init (N : Finset NodeID) : Net.init.Inside N where
  wf := Net.wf_init
  names := by
    intro m n f hn
    rcases hn with ⟨e, he, _⟩ | ho
    · cases he
    · cases ho
  flight := by intro o ho; cases ho

/-- One step among the nodes of `N` brings in no other node. -/
theorem step_inside {N : Finset NodeID} (net : Net) (a : Act) (net' : Net) (h : net.Inside N)
    (ha : a.Within N) (hs : step net a = some net') : net'.Inside N := by
  have hwf' := step_wf net a net' h.wf hs
  rcases step_cases hs with ⟨n, clk, e, rfl, rfl⟩ | ⟨n, clk, f, rfl, rfl⟩ | ⟨src, dst, rfl, rfl⟩
    | ⟨i, clk, o, rfl, ho, rfl⟩
  · refine ⟨hwf', fun m n' f hn => ?_, fun o ho => h.flight o ?_⟩
    · rw [remember_store] at hn
      by_cases hm : m = n
      · rw [hm, Net.setStore_self] at hn
        rcases names_putLocal (h.wf.store n) clk e hn with hold | ⟨_, hself, _⟩
        · exact h.names n n' f hold
        · rw [hself, h.wf.selfID n]
          exact ha
      · rw [Net.setStore_of_ne _ hm] at hn
        exact h.names m n' f hn
    · rw [remember_flight] at ho
      exact ho
  · refine ⟨hwf', fun m n' g hn => ?_, h.flight⟩
    by_cases hm : m = n
    · rw [hm, Net.setStore_self] at hn
      exact h.names n n' g (names_deleteLocal (h.wf.store n) clk f hn)
    · rw [Net.setStore_of_ne _ hm] at hn
      exact h.names m n' g hn
  · exact ⟨hwf', h.names, forall_mem_concat h.flight ha.1⟩
  · have hmem := List.mem_of_getElem? ho
    refine ⟨hwf', fun m n f hn => ?_, fun o' ho' => h.flight o' (List.mem_of_mem_eraseIdx ho')⟩
    by_cases hm : m = o.dst
    · rw [hm] at hn
      rcases (names_receive h.wf (h.wf.flight o hmem) clk n f).1 hn with hold | ⟨hsrc, _⟩
      · exact h.names o.dst n f hold
      · rw [hsrc]
        exact h.flight o hmem
    · have hstore : (net.receive clk o).store m = net.store m := by
        rw [receive_eq, Net.setStore_of_ne _ hm]
      exact h.names m n f (by rw [← hstore]; exact hn)

/-! ## §4. What is at rest and held by nobody. -/

theorem ghostFree_iff_knows {N : Finset NodeID} {net : Net} (h : net.WF) :
    GhostFree N net ↔ ∀ m ∈ N, ∀ n f, knows f net m n → ∃ n' ∈ N, knows f net n' n' := by
  refine ⟨fun hg m hm n f hk => ?_, fun hg m hm e he => ?_⟩
  · obtain ⟨e, he, _, hf⟩ := (knows_iff_listAll h).mp hk
    obtain ⟨n', hn', e', he', hf'⟩ := hg m hm e he
    exact ⟨n', hn', (knows_self_iff h).mpr ⟨e', he', hf'.trans hf⟩⟩
  · obtain ⟨n', hn', hk⟩ := hg m hm _ _ ((knows_iff_listAll h).mpr ⟨e, he, rfl, rfl⟩)
    exact ⟨n', hn', (knows_self_iff h).mp hk⟩

/-- **Two nodes at rest have no ghosts.** -/
theorem ghostFree_of_two {N : Finset NodeID} {net : Net} (h : net.Inside N) (hr : AtRest N net)
    (hcard : N.card ≤ 2) : GhostFree N net := by
  rw [ghostFree_iff_knows h.wf]
  intro m hm n f hk
  have hin : ∀ x y, knows f net x y → y ∈ N := fun x y hxy => h.names x y f (Or.inl hxy)
  rcases (hr.settled h.wf f).source_of_two hcard hin hm hk with hmm | hnn
  · exact ⟨m, hm, hmm⟩
  · exact ⟨n, hin m n hk, hnn⟩

/-- **At rest, a ghost has travelled over two hops.** -/
theorem ghostFree_iff_twoHops {N : Finset NodeID} {net : Net} (h : net.Inside N)
    (hr : AtRest N net) :
    GhostFree N net
      ↔ ∀ f, TwoHops N net f → ∃ n ∈ N, ∃ e ∈ (net.store n).listLocal, e.fileID = f := by
  refine ⟨fun hg f htwo => ?_, fun hg => ?_⟩
  · obtain ⟨x, hx, _, _, _, _, _, _, _, ⟨e, he, _, hf⟩, _⟩ := htwo
    rw [← hf]
    exact hg x hx e he
  · rw [ghostFree_iff_knows h.wf]
    intro m hm n f hk
    have hin : ∀ x y, knows f net x y → y ∈ N := fun x y hxy => h.names x y f (Or.inl hxy)
    rcases (hr.settled h.wf f).source_or_relay hm (hin m n hk) hk with
      hmm | hnn | ⟨z, hzm, hzn, hnz⟩
    · exact ⟨m, hm, hmm⟩
    · exact ⟨n, hin m n hk, hnn⟩
    · -- `n` passed the file on: either that makes two hops, or `m` is `n` itself
      by_cases hmn : m = n
      · exact ⟨m, hm, by rw [← hmn] at hk; exact hk⟩
      · have htwo : TwoHops N net f :=
          ⟨m, hm, n, hin m n hk, z, hin n z hnz, hmn, hzn.symm, hzm.symm,
            (knows_iff_listAll h.wf).mp hk, (knows_iff_listAll h.wf).mp hnz⟩
        obtain ⟨n', hn', e, he, hf⟩ := hg f htwo
        exact ⟨n', hn', (knows_self_iff h.wf).mpr ⟨e, he, hf⟩⟩

end Kin.Network
