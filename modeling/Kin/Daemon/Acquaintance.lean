/-
  Kin.Daemon.Acquaintance

  **WHOM DOES A NODE KNOW, AND ON WHOSE WORD?** (`handleJoin` of
  `internal/daemon/handler.go`, `acceptLoop` of `internal/daemon/daemon.go`,
  `internal/peerstore/store.go`).

  A peer record is written by a join, and its endpoints are merged by later ones;
  an accepted connection only touches `LastSeen`, and only of a known peer.  Invites
  come from anywhere.  Nodes invite, join and accept as in `Kin.Daemon.Invites`.

    • `Net.step_acquaints` — what a call does to the records of all nodes,
    • `Vouched` — everything in a record was signed with the key of the record,
    • `acquaintances` — every run: a node knows whom it has joined, and nobody it
      has merely been joined by.
-/
import Kin.Daemon.Joining

namespace Kin.Daemon

open Kin.Lib Kin.Invite Kin.Peerstore

/-! ## §1. What a join writes. -/

/-- The text is an invite, and its signature is good. -/
def Signed (verify : GoString → GoString → GoString → Bool) (raw : GoString) (tok : Token) : Prop :=
  decode raw = .ok tok
    ∧ ∃ data, Base64.decodeString (raw.drop tokenPrefix.length) = .ok data
      ∧ verify tok.publicKey (data.take (data.length - sigSize))
          (data.drop (data.length - sigSize)) = true

theorem verify_of_checkToken {verify : GoString → GoString → GoString → Bool} {tok : Token}
    {raw : GoString} {now : Time} (h : checkToken verify tok raw now = none) :
    ∃ data, Base64.decodeString (raw.drop tokenPrefix.length) = .ok data
      ∧ verify tok.publicKey (data.take (data.length - sigSize))
          (data.drop (data.length - sigSize)) = true := by
  unfold checkToken at h
  split at h
  next => cases h
  next =>
    cases hdata : Base64.decodeString (raw.drop tokenPrefix.length) with
    | error err =>
      rw [hdata] at h
      cases h
    | ok data =>
      rw [hdata] at h
      dsimp only at h
      split at h
      next => cases h
      next =>
        split at h
        next hverify => exact ⟨data, rfl, hverify⟩
        next => cases h

theorem LetThrough.signed {verify : GoString → GoString → GoString → Bool} {env : JoinEnv}
    {params : Except String GoString} {store : Store} {tok : Token}
    (h : LetThrough verify env params store tok) :
    ∃ raw, params = .ok raw ∧ Signed verify raw tok := by
  obtain ⟨raw, hraw, hdecode, hvalidate⟩ := h
  obtain ⟨hcheck, -⟩ := validate_ok_iff.mp (Prod.ext rfl hvalidate)
  exact ⟨raw, hraw, hdecode, verify_of_checkToken hcheck⟩

theorem connectJoin_of_connects {env : JoinEnv} {tok : Token} (hkey : tok.publicKey.length = 32)
    (h : Connects env tok) (store : Store) :
    connectJoin env tok store
      = (pinPeer env (joinedPeer tok) store, .ok (Sha256.sum256 tok.publicKey)) := by
  unfold connectJoin
  rw [if_neg (not_not_intro hkey), if_neg h.1, h.2]
  rfl

/-- **A join** leaves the records, or pins the peer of a signed token. -/
theorem handleJoin_acquaints (verify : GoString → GoString → GoString → Bool) (env : JoinEnv)
    (params : Except String GoString) (store : Store) :
    ((∃ info, (handleJoin verify env params store).2 = .error info)
        ∧ (handleJoin verify env params store).1.peers = store.peers)
      ∨ ∃ raw tok, params = .ok raw ∧ Signed verify raw tok
        ∧ handleJoin verify env params store
          = (pinPeer env (joinedPeer tok) (spent store tok), .ok (Sha256.sum256 tok.publicKey)) := by
  rcases handleJoin_cases verify env params store with
    ⟨-, info, hjoin⟩ | ⟨tok, hlet, hkey, -, hjoin⟩
  · rw [hjoin]
    exact Or.inl ⟨⟨info, rfl⟩, rfl⟩
  · rw [hjoin]
    rcases connectJoin_cases env hkey (spent store tok) with ⟨hconn, -⟩ | ⟨-, info, hfail⟩
    · obtain ⟨raw, hraw, hsigned⟩ := ((hlet tok).mpr rfl).signed
      exact Or.inr ⟨raw, tok, hraw, hsigned, connectJoin_of_connects hkey hconn _⟩
    · have hfail : connectJoin env tok { store with toNonceStore := store.saveNonce tok.nonce }
          = (spent store tok, .error info) := hfail
      rw [hfail]
      exact Or.inl ⟨⟨info, rfl⟩, rfl⟩

/-- What pinning a peer leaves of a record: it is as before, or it is the peer's, with
the key that was there and the endpoints of both. -/
theorem getPeer_pinPeer (env : JoinEnv) (p : Peer) (store : Store) {n : NodeID} {r : Peer}
    (h : (pinPeer env p store).getPeer n = some r) :
    store.getPeer n = some r
      ∨ n = p.nodeID ∧ (∀ prev, store.getPeer n = some prev → prev.publicKey = p.publicKey)
        ∧ r = { p with
            endpoints := (mergeEndpoints (store.endpointsOf n) p.endpoints).map jsonString
            trustState := p.trust
            lastSeen := env.clk.now 1 } := by
  unfold pinPeer at h
  cases hput : env.putPeerErr with
  | some err =>
    rw [hput] at h
    exact Or.inl h
  | none =>
    rw [hput] at h
    have h : (store.putPeer (env.clk.now 1) p).1.getPeer n = some r := h
    rcases store.putPeer_cases (env.clk.now 1) p with ⟨err, herr⟩ | ⟨data, -, hok⟩
    · rw [herr] at h
      exact Or.inl h
    · by_cases hn : n = p.nodeID
      · subst hn
        have hnone : (store.putPeer (env.clk.now 1) p).2 = none := by
          rw [hok]
        rw [putPeer_record hnone] at h
        refine Or.inr ⟨rfl, fun prev hprev => ?_, (Option.some.inj h).symm⟩
        by_contra hne
        have hchanged := (store.putPeer_error_iff (env.clk.now 1) p).mpr ⟨prev, hprev, hne⟩
        rw [hnone] at hchanged
        cases hchanged
      · rw [hok, Store.getPeer_put, if_neg hn] at h
        exact Or.inl h

/-- Nobody is forgotten. -/
theorem pinPeer_keeps (env : JoinEnv) (p : Peer) {store : Store} {n : NodeID}
    (h : (store.getPeer n).isSome = true) : ((pinPeer env p store).getPeer n).isSome = true := by
  unfold pinPeer
  cases env.putPeerErr with
  | some err => exact h
  | none =>
    show ((store.putPeer (env.clk.now 1) p).1.getPeer n).isSome = true
    rcases store.putPeer_cases (env.clk.now 1) p with ⟨err, herr⟩ | ⟨data, -, hok⟩
    · rw [herr]
      exact h
    · rw [hok, Store.getPeer_put]
      split
      · rfl
      · exact h

/-- Without an error of the database the peer is known afterwards. -/
theorem pinPeer_known {env : JoinEnv} (hput : env.putPeerErr = none) (p : Peer) (store : Store) :
    ((pinPeer env p store).getPeer p.nodeID).isSome = true := by
  cases hget : store.getPeer p.nodeID with
  | some prev =>
    refine pinPeer_keeps env p ?_
    rw [hget]
    rfl
  | none =>
    have hok : (store.putPeer (env.clk.now 1) p).2 = none := by
      refine putPeer_stored (env.clk.inRange 1) fun prev hprev => ?_
      rw [hget] at hprev
      cases hprev
    unfold pinPeer
    rw [hput]
    show ((store.putPeer (env.clk.now 1) p).1.getPeer p.nodeID).isSome = true
    rw [putPeer_record hok]
    rfl

/-- An accepted connection touches the record of a known peer. -/
theorem getPeer_updateLastSeen (store : Store) (now : Time) (m n : NodeID) :
    (store.updateLastSeen now m).1.getPeer n = store.getPeer n
      ∨ ∃ prev, store.getPeer n = some prev
        ∧ (store.updateLastSeen now m).1.getPeer n
          = some { prev with endpoints := prev.endpoints.map jsonString, lastSeen := now } := by
  unfold Store.updateLastSeen
  cases hget : store.peers.get m.val with
  | none => exact Or.inl rfl
  | some prev =>
    dsimp only
    cases hjson : ({ prev with lastSeen := now } : Peer).json with
    | error err => exact Or.inl rfl
    | ok data =>
      dsimp only
      rw [Store.getPeer_put]
      split
      next hn =>
        subst hn
        refine Or.inr ⟨prev, hget, ?_⟩
        rw [json_eq hjson]
      next => exact Or.inl rfl

theorem isSome_updateLastSeen (store : Store) (now : Time) (m n : NodeID) :
    ((store.updateLastSeen now m).1.getPeer n).isSome = (store.getPeer n).isSome := by
  rcases getPeer_updateLastSeen store now m n with hkept | ⟨prev, hprev, hnew⟩
  · rw [hkept]
  · rw [hnew, hprev]
    rfl

/-! ## §2. Every call. -/

section Net

variable {N : Type} [DecidableEq N] {sign : GoString → GoString → GoString}
  {verify : GoString → GoString → GoString → Bool} {net net' : Net N} {a : Net.Act N}

/-- The record of a node in another's store. -/
def Net.record (net : Net N) (v : N) (n : NodeID) : Option Peer := (net.nodes v).store.getPeer n

theorem Net.record_setStore (net : Net N) (v w : N) (store : Store) (n : NodeID) :
    (net.setStore v store).record w n = if w = v then store.getPeer n else net.record w n := by
  unfold Net.record
  rw [Net.setStore_store]
  split <;> rfl

/-- **What a call does to the records**: nothing; or it is an accepted connection and
touches one; or it is a join that has succeeded, with a signed token, and pins its
peer. -/
theorem Net.step_acquaints (hs : net.step sign verify a = some net') :
    (net'.joined = net.joined ∧ ∀ w n, net'.record w n = net.record w n)
      ∨ (∃ v publicKey now, a = .accept v publicKey now ∧ net'.joined = net.joined
        ∧ ∀ w n, net'.record w n
          = if w = v then ((net.nodes v).store.updateLastSeen now (Sha256.sum256 publicKey)).1.getPeer n
            else net.record w n)
      ∨ ∃ v raw env tok, a = .join v (.ok raw) env ∧ Signed verify raw tok
        ∧ net'.joined = net.joined ++ [(v, tok)]
        ∧ ∀ w n, net'.record w n
          = if w = v then (pinPeer env (joinedPeer tok) (spent (net.nodes v).store tok)).getPeer n
            else net.record w n := by
  cases a with
  | invite v nonce now =>
    left
    simp only [Net.step] at hs
    split at hs <;> rw [← Option.some.inj hs] <;> exact ⟨rfl, fun _ _ => rfl⟩
  | accept v publicKey now =>
    right
    left
    cases hs
    exact ⟨v, publicKey, now, rfl, rfl, fun w n => net.record_setStore v w _ n⟩
  | join v params env =>
    rcases handleJoin_acquaints verify env params (net.nodes v).store with
      ⟨⟨info, herr⟩, hpeers⟩ | ⟨raw, tok, rfl, hsigned, hjoin⟩
    · left
      have hresp : net.response verify v params env = .error info := herr
      have hnet : net' = net.setStore v (handleJoin verify env params (net.nodes v).store).1 := by
        simp only [Net.step] at hs
        split at hs
        next hok =>
          rw [hresp] at hok
          cases hok
        next => exact (Option.some.inj hs).symm
      rw [hnet]
      refine ⟨rfl, fun w n => ?_⟩
      rw [Net.record_setStore]
      split
      next hw =>
        subst hw
        show (handleJoin verify env params (net.nodes w).store).1.peers.get n.val
          = (net.nodes w).store.peers.get n.val
        rw [hpeers]
      next => rfl
    · right
      right
      have htok : requestToken (.ok raw) = some tok := by
        show (decode raw).toOption = some tok
        rw [hsigned.1]
        rfl
      have hresp : net.response verify v (.ok raw) env = .ok (Sha256.sum256 tok.publicKey) := by
        unfold Net.response
        rw [hjoin]
      simp only [Net.step, htok, hresp] at hs
      rw [← Option.some.inj hs]
      refine ⟨v, raw, env, tok, rfl, hsigned, rfl, fun w n => ?_⟩
      show (net.setStore v (handleJoin verify env (.ok raw) (net.nodes v).store).1).record w n = _
      rw [Net.record_setStore, hjoin]

/-! ## §3. On whose word. -/

/-- The record says what was signed with its key: the node's id is the hash of the key,
and each endpoint stood in an invite that the key has signed and the node has tried to
join with. -/
structure Vouched (verify : GoString → GoString → GoString → Bool) (as : List (Net.Act N)) (v : N)
    (n : NodeID) (r : Peer) : Prop where
  node : r.nodeID = n
  key : Sha256.sum256 r.publicKey = n
  trust : r.trustState = .tofu
  endpoints : ∀ ep ∈ r.endpoints, ∃ raw env tok, .join v (.ok raw) env ∈ as
    ∧ Signed verify raw tok ∧ tok.publicKey = r.publicKey ∧ ∃ told ∈ tok.endpoints, ep = jsonString told

variable {as : List (Net.Act N)} {v : N} {n : NodeID} {r : Peer}

omit [DecidableEq N] in
/-- JSON replaces what is no UTF-8, once. -/
theorem Vouched.seen (h : Vouched verify as v n r) (now : Time) :
    Vouched verify as v n { r with endpoints := r.endpoints.map jsonString, lastSeen := now } := by
  refine ⟨h.node, h.key, h.trust, fun ep hep => ?_⟩
  obtain ⟨stored, hstored, rfl⟩ := List.mem_map.mp hep
  obtain ⟨raw, env, tok, hmem, hsigned, hkey, told, htold, rfl⟩ := h.endpoints stored hstored
  exact ⟨raw, env, tok, hmem, hsigned, hkey, told, htold, jsonString_idem told⟩

omit [DecidableEq N] in
/-- The record that a join with a signed token writes, beside the one that was there. -/
theorem Vouched.pinned {raw : GoString} {env : JoinEnv} {tok : Token} {store : Store}
    (hmem : .join v (.ok raw) env ∈ as) (hsigned : Signed verify raw tok)
    (hold : ∀ prev, store.getPeer (joinedPeer tok).nodeID = some prev →
      Vouched verify as v (joinedPeer tok).nodeID prev ∧ prev.publicKey = tok.publicKey)
    (now : Time) :
    Vouched verify as v (joinedPeer tok).nodeID
      { joinedPeer tok with
        endpoints :=
          (mergeEndpoints (store.endpointsOf (joinedPeer tok).nodeID) tok.endpoints).map jsonString
        trustState := (joinedPeer tok).trust
        lastSeen := now } := by
  refine ⟨rfl, rfl, rfl, fun ep hep => ?_⟩
  obtain ⟨merged, hmerged, rfl⟩ := List.mem_map.mp hep
  rcases List.mem_append.mp hmerged with hstored | hnew
  · -- it was there already
    unfold Store.endpointsOf at hstored
    cases hprev : store.getPeer (joinedPeer tok).nodeID with
    | none =>
      rw [hprev] at hstored
      cases hstored
    | some prev =>
      rw [hprev] at hstored
      obtain ⟨hvouched, hkey⟩ := hold prev hprev
      obtain ⟨raw', env', tok', hmem', hsigned', hkey', told, htold, rfl⟩ :=
        hvouched.endpoints merged hstored
      exact ⟨raw', env', tok', hmem', hsigned', hkey'.trans hkey, told, htold,
        jsonString_idem told⟩
  · exact ⟨raw, env, tok, hmem, hsigned, rfl, merged, (List.mem_filter.mp hnew).1, rfl⟩

/-- **One call** leaves every record vouched for. -/
theorem vouched_step (h : ∀ v n r, net.record v n = some r → Vouched verify as v n r)
    (ha : a ∈ as) (hs : net.step sign verify a = some net') :
    ∀ v n r, net'.record v n = some r → Vouched verify as v n r := by
  intro w n r hr
  rcases Net.step_acquaints hs with ⟨-, hsame⟩ | ⟨v, publicKey, now, -, -, hseen⟩
    | ⟨v, raw, env, tok, rfl, hsigned, -, hpinned⟩
  · rw [hsame] at hr
    exact h w n r hr
  · rw [hseen] at hr
    split at hr
    next hw =>
      subst hw
      rcases getPeer_updateLastSeen (net.nodes w).store now (Sha256.sum256 publicKey) n with
        hkept | ⟨prev, hprev, hnew⟩
      · rw [hkept] at hr
        exact h w n r hr
      · rw [hnew] at hr
        rw [← Option.some.inj hr]
        exact (h w n prev hprev).seen now
    next => exact h w n r hr
  · rw [hpinned] at hr
    split at hr
    next hw =>
      subst hw
      rcases getPeer_pinPeer env (joinedPeer tok) (spent (net.nodes w).store tok) hr with
        hkept | ⟨rfl, hkey, rfl⟩
      · exact h w n r hkept
      · exact Vouched.pinned ha hsigned
          (fun prev hprev => ⟨h w _ prev hprev, hkey prev hprev⟩) (env.clk.now 1)
    next => exact h w n r hr

/-! ## §4. Who is known. -/

/-- Whom a node knows, it has joined. -/
def Net.KnowsJoined (net : Net N) : Prop :=
  ∀ v n, (net.record v n).isSome = true →
    ∃ tok, (v, tok) ∈ net.joined ∧ Sha256.sum256 tok.publicKey = n

/-- Whom a node has joined, it knows. -/
def Net.JoinedKnown (net : Net N) : Prop :=
  ∀ v tok, (v, tok) ∈ net.joined → (net.record v (Sha256.sum256 tok.publicKey)).isSome = true

theorem knowsJoined_step (h : net.KnowsJoined) (hs : net.step sign verify a = some net') :
    net'.KnowsJoined := by
  intro w n hn
  rcases Net.step_acquaints hs with ⟨hjoined, hsame⟩ | ⟨v, publicKey, now, -, hjoined, hseen⟩
    | ⟨v, raw, env, tok, -, -, hjoined, hpinned⟩
  · rw [hsame] at hn
    rw [hjoined]
    exact h w n hn
  · rw [hseen] at hn
    rw [hjoined]
    split at hn
    next hw =>
      subst hw
      rw [isSome_updateLastSeen] at hn
      exact h w n hn
    next => exact h w n hn
  · rw [hpinned] at hn
    rw [hjoined]
    have hbefore : (net.record w n).isSome = true →
        ∃ tok', (w, tok') ∈ net.joined ++ [(v, tok)] ∧ Sha256.sum256 tok'.publicKey = n := by
      intro hknown
      obtain ⟨tok', hmem, hid⟩ := h w n hknown
      exact ⟨tok', List.mem_append_left _ hmem, hid⟩
    split at hn
    next hw =>
      subst hw
      obtain ⟨r, hr⟩ := Option.isSome_iff_exists.mp hn
      rcases getPeer_pinPeer env (joinedPeer tok) (spent (net.nodes w).store tok) hr with
        hkept | ⟨rfl, -, -⟩
      · exact hbefore (Option.isSome_iff_exists.mpr ⟨r, hkept⟩)
      · exact ⟨tok, List.mem_append_right _ List.mem_cons_self, rfl⟩
    next => exact hbefore hn

theorem joinedKnown_step (h : net.JoinedKnown)
    (hput : ∀ v params env, a = .join v params env → env.putPeerErr = none)
    (hs : net.step sign verify a = some net') : net'.JoinedKnown := by
  intro w tok hmem
  rcases Net.step_acquaints hs with ⟨hjoined, hsame⟩ | ⟨v, publicKey, now, -, hjoined, hseen⟩
    | ⟨v, raw, env, tok', ha, -, hjoined, hpinned⟩
  · rw [hjoined] at hmem
    rw [hsame]
    exact h w tok hmem
  · rw [hjoined] at hmem
    rw [hseen]
    split
    next hw =>
      subst hw
      rw [isSome_updateLastSeen]
      exact h w tok hmem
    next => exact h w tok hmem
  · rw [hjoined] at hmem
    rw [hpinned]
    rcases List.mem_append.mp hmem with hold | hnew
    · split
      next hw =>
        subst hw
        exact pinPeer_keeps env (joinedPeer tok') (h w tok hold)
      next => exact h w tok hold
    · obtain ⟨rfl, rfl⟩ := Prod.mk.inj (List.mem_singleton.mp hnew)
      rw [if_pos rfl]
      exact pinPeer_known (hput w _ env ha) (joinedPeer tok) _

/-- **ACQUAINTANCES.**  For any number of nodes that start with no peers and any run of
invites, joins and accepted connections, whoever made the invites: everything in a
node's peer records was signed with the key of the record, in an invite that this node
itself was given, with each endpoint as `encoding/json` stores it (invalid UTF-8 is
replaced); a node knows only peers it has joined, never one that has merely joined it;
and it knows all it has joined, if no `PutPeer` transaction fails. -/
theorem acquaintances (nodes : N → Node) (hfresh : ∀ v n, (nodes v).store.getPeer n = none)
    {as : List (Net.Act N)} {net : Net N}
    (hrun : run (Net.step sign verify) (Net.new nodes) as = some net) :
    (∀ v n r, net.record v n = some r → Vouched verify as v n r)
      ∧ net.KnowsJoined
      ∧ ((∀ v params env, .join v params env ∈ as → env.putPeerErr = none) → net.JoinedKnown) := by
  have hnone : ∀ v n, (Net.new nodes).record v n = none := hfresh
  refine ⟨?_, ?_, fun hput => ?_⟩
  · refine run_invariant_of (P := fun net => ∀ v n r, net.record v n = some r →
        Vouched verify as v n r) (C := fun a => a ∈ as)
      (fun net a net' h ha hs => vouched_step h ha hs) ?_ (fun a ha => ha) hrun
    intro v n r hr
    rw [hnone] at hr
    cases hr
  · refine run_invariant (P := Net.KnowsJoined)
      (fun net a net' h hs => knowsJoined_step h hs) ?_ hrun
    intro v n hn
    rw [hnone] at hn
    cases hn
  · refine run_invariant_of (P := Net.JoinedKnown) (C := fun a => a ∈ as)
      (fun net a net' h ha hs => joinedKnown_step h (fun v params env heq => ?_) hs) ?_
      (fun a ha => ha) hrun
    · exact hput v params env (heq ▸ ha)
    · intro v tok hmem
      cases hmem

end Net

/-- One link, two joins: the nodes that have joined know the inviter, and the inviter
knows nobody. -/
theorem acquaintances_one_link :
    ∃ net ∈ run (Net.step signInvite verifyInvite) (Net.new threeNodes) twoNodesRun,
      (net.record 1 (Sha256.sum256 inviterKey)).isSome = true ∧ ∀ n, net.record 0 n = none := by
  have hend : ∃ net ∈ run (Net.step signInvite verifyInvite) (Net.new threeNodes) twoNodesRun,
      net.joined = [(1, inviteToken), (2, inviteToken)] := by
    unfold twoNodesRun signInvite verifyInvite
    rw [inviteText_eq]
    decide +kernel
  obtain ⟨net, hnet, hjoined⟩ := hend
  obtain ⟨-, hknows, hknown⟩ := acquaintances threeNodes (fun _ _ => rfl) hnet
  have hput : ∀ v params env, .join v params env ∈ twoNodesRun → env.putPeerErr = none := by
    intro v params env hmem
    simp only [twoNodesRun, List.mem_cons, List.not_mem_nil, or_false, reduceCtorEq, false_or,
      Net.Act.join.injEq] at hmem
    rcases hmem with ⟨-, -, rfl⟩ | ⟨-, -, rfl⟩
    · rfl
    · rfl
  refine ⟨net, hnet, hknown hput 1 inviteToken ?_, fun n => ?_⟩
  · rw [hjoined]
    exact List.mem_cons_self
  · rw [← Option.not_isSome_iff_eq_none]
    intro hn
    obtain ⟨tok, hmem, -⟩ := hknows 0 n hn
    rw [hjoined] at hmem
    simp at hmem

end Kin.Daemon
