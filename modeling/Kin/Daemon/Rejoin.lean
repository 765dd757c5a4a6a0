/-
  Kin.Daemon.Rejoin

  **STORING A KNOWN PEER AGAIN** (`internal/peerstore/store.go`,
  `internal/daemon/handler.go`).

  `PutPeer` starts from the record it is given, not from the stored one, and takes
  over the endpoints only.  The trust state is the caller's, and a join always gives
  `TrustTOFU`: a peer that was blocked is trusted again once it is joined again.

    • `known_peer_update_iff` — a `PutPeer` changes no more than endpoints and last
      seen exactly if it is given the stored trust state; a join keeps the trust
      state exactly of the peers that are trusted on first use.
-/
import Kin.Daemon.FailedJoin
import Kin.Peerstore.Endpoints

namespace Kin.Daemon

open Kin.Lib Kin.Invite Kin.Peerstore

/-- The record that a join stores. -/
def joinedPeer (tok : Token) : Peer :=
  ⟨Sha256.sum256 tok.publicKey, tok.publicKey, tok.endpoints, .tofu, ⟨0⟩⟩

/-- A join that succeeds stores the peer of its token. -/
theorem handleJoin_pins {verify : GoString → GoString → GoString → Bool} {env : JoinEnv}
    {params : Except String GoString} {store : Store} {peerID : NodeID}
    (h : (handleJoin verify env params store).2 = .ok peerID) :
    ∃ tok, requestToken params = some tok
      ∧ (handleJoin verify env params store).1
        = pinPeer env (joinedPeer tok) { store with toNonceStore := store.saveNonce tok.nonce } := by
  rcases handleJoin_cases verify env params store with ⟨-, info, hjoin⟩ | ⟨tok, hlet, hkey, -, hjoin⟩
  · rw [hjoin] at h
    exact absurd h nofun
  · obtain ⟨raw, rfl, hdecode, -⟩ := (hlet tok).mpr rfl
    refine ⟨tok, ?_, ?_⟩
    · show (decode raw).toOption = some tok
      rw [hdecode]
      rfl
    · rw [hjoin] at h ⊢
      unfold connectJoin at h ⊢
      rw [if_neg (not_not_intro hkey)] at h ⊢
      split at h
      next => exact absurd h nofun
      next hends =>
        rw [if_neg hends]
        split at h
        next => exact absurd h nofun
        next hdial =>
          rw [if_neg hdial]
          rfl

/-- A peer that is new, or known with the same key, is stored. -/
theorem putPeer_stored {s : Store} {p : Peer} {now : Time} (hnow : now.jsonOK = true)
    (hkey : ∀ prev, s.getPeer p.nodeID = some prev → prev.publicKey = p.publicKey) :
    (s.putPeer now p).2 = none := by
  unfold Store.getPeer at hkey
  unfold Store.putPeer Store.updatedPeer
  cases hget : s.peers.get p.nodeID.val with
  | none => simp only [Peer.json, hnow, if_true]
  | some prev =>
    simp only [hkey prev hget, ne_eq, not_true_eq_false, if_false, Peer.json, hnow, if_true]

/-- The record of a known peer after a `PutPeer` with its key. -/
theorem putPeer_known_record {s : Store} {now : Time} {p prev : Peer}
    (hget : s.getPeer p.nodeID = some prev) (hid : prev.nodeID = p.nodeID)
    (hkey : prev.publicKey = p.publicKey) (hok : (s.putPeer now p).2 = none) :
    (s.putPeer now p).1.getPeer p.nodeID
      = some { prev with
          endpoints := (mergeEndpoints prev.endpoints p.endpoints).map jsonString
          trustState := p.trust
          lastSeen := now } := by
  have hends : s.endpointsOf p.nodeID = prev.endpoints := by
    unfold Store.endpointsOf
    rw [hget]
    rfl
  rw [putPeer_record hok, hends, hid, hkey]

/-- **Storing a known peer again.**  With the stored key, `PutPeer` leaves a record
that differs in endpoints (merged) and last seen only if and only if the trust state
it is given is the stored one.  A join that stores a known peer keeps its trust state
if and only if that is `tofu`. -/
theorem known_peer_update_iff (s : Store) (prev : Peer) :
    (∀ (now : Time) (p : Peer), s.getPeer p.nodeID = some prev →
        prev.nodeID = p.nodeID → prev.publicKey = p.publicKey → (s.putPeer now p).2 = none →
        ((s.putPeer now p).1.getPeer p.nodeID
            = some { prev with
                endpoints := (mergeEndpoints prev.endpoints p.endpoints).map jsonString
                lastSeen := now }
          ↔ p.trust = prev.trustState))
    ∧ ∀ (verify : GoString → GoString → GoString → Bool) (env : JoinEnv)
        (params : Except String GoString) (tok : Token) (peerID : NodeID),
        requestToken params = some tok →
        (handleJoin verify env params s).2 = .ok peerID → env.putPeerErr = none →
        s.getPeer (Sha256.sum256 tok.publicKey) = some prev →
        prev.publicKey = tok.publicKey →
        (((handleJoin verify env params s).1.getPeer (Sha256.sum256 tok.publicKey)).map
            Peer.trustState = some prev.trustState
          ↔ prev.trustState = .tofu) := by
  constructor
  · intro now p hget hid hkey hok
    rw [putPeer_known_record hget hid hkey hok]
    constructor
    · intro heq
      exact congrArg Peer.trustState (Option.some.inj heq)
    · intro htrust
      rw [htrust]
  · intro verify env params tok peerID hreq hok hput hget hkey
    obtain ⟨tok', hreq', hjoin⟩ := handleJoin_pins hok
    obtain rfl : tok' = tok := Option.some.inj (hreq'.symm.trans hreq)
    -- the peer is known with this key, so `PutPeer` succeeds
    have hstored := putPeer_stored (p := joinedPeer tok')
      (s := { s with toNonceStore := s.saveNonce tok'.nonce }) (env.clk.inRange 1)
      (fun prev' hprev => Option.some.inj (hprev.symm.trans hget) ▸ hkey)
    have hrec := putPeer_record hstored
    rw [hjoin, pinPeer, hput]
    dsimp only
    rw [show Sha256.sum256 tok'.publicKey = (joinedPeer tok').nodeID from rfl, hrec]
    show some TrustState.tofu = some prev.trustState ↔ _
    rw [Option.some.injEq]
    exact eq_comm

/-- A suspect peer is stored again as suspect, with a new endpoint. -/
theorem known_peer_update_suspect :
    let suspect : Peer := ⟨Bytes.lit32 1, [7], [ascii "a:1"], .suspect, ⟨0⟩⟩
    let s := (Store.openFresh.putPeer ⟨0⟩ suspect).1
    (s.putPeer ⟨1⟩ { suspect with endpoints := [ascii "b:2"] }).1.getPeer (Bytes.lit32 1)
      = some { suspect with endpoints := [ascii "a:1", ascii "b:2"], lastSeen := ⟨1⟩ } := by
  intro suspect s
  have hkeeps := ((known_peer_update_iff s suspect).1 ⟨1⟩
    { suspect with endpoints := [ascii "b:2"] } (by decide +kernel) rfl rfl (by decide +kernel)).mpr rfl
  exact hkeeps.trans (by decide +kernel)

/-- A peer that was blocked is joined again with a new link, and is trusted. -/
theorem blocked_peer_trusted_again :
    let peerID := Sha256.sum256 inviterKey
    let store := (Store.openFresh.putPeer ⟨0⟩
      ⟨peerID, inviterKey, [ascii "127.0.0.1:5000"], .blocked, ⟨0⟩⟩).1
    let joined := handleJoin verifyInvite (JoinEnv.good inviteClock) (.ok inviteText) store
    joined.2 = .ok peerID
      ∧ (store.getPeer peerID).map (fun r => (r.publicKey, r.trustState))
        = some (inviterKey, .blocked)
      ∧ (joined.1.getPeer peerID).map (fun r => (r.publicKey, r.trustState))
        = some (inviterKey, .tofu) := by
  unfold verifyInvite
  rw [inviteText_eq]
  decide +kernel

end Kin.Daemon
