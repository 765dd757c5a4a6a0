/-
  Kin.Peerstore.Pinning

  **TRUST ON FIRST USE.**

  The first key stored for a node is its key from then on.  Two writers touch a
  record: `PutPeer` compares the stored key before it writes, and
  `UpdateLastSeen` writes back the record it has read.

    • `putPeer_error_iff` — when `ErrKeyChanged` comes back,
    • `getPeer_apply_ne` — an operation touches the record of its own node only,
    • `pinned_apply`, `pinned_applyAll` — one operation, then every run.
-/
import Kin.Peerstore.Store

namespace Kin.Peerstore

open Kin.Lib

/-! ## §1. Operations and runs. -/

/-- The methods of the store, with the time the clock shows. -/
inductive Op where
  | putPeer (now : Time) (p : Peer)
  | updateLastSeen (now : Time) (nodeID : NodeID)
  | saveNonce (nonce : Invite.Nonce)
  | getPeer (nodeID : NodeID)
  | listPeers
  | hasNonce (nonce : Invite.Nonce)

namespace Op

/-- The node whose record the operation is about. -/
def node : Op → Option NodeID
  | putPeer _ p => some p.nodeID
  | updateLastSeen _ n => some n
  | saveNonce _ => none
  | getPeer n => some n
  | listPeers => none
  | hasNonce _ => none

/-- The store after the operation, whatever it returns. -/
def apply (s : Store) : Op → Store
  | putPeer now p => (s.putPeer now p).1
  | updateLastSeen now n => (s.updateLastSeen now n).1
  | saveNonce nonce => { s with toNonceStore := s.saveNonce nonce }
  | getPeer _ => s
  | listPeers => s
  | hasNonce _ => s

/-- The store after a run. -/
def applyAll (s : Store) (ops : List Op) : Store := ops.foldl apply s

end Op

/-! ## §2. One `PutPeer`. -/

namespace Store

/-- The peer's key goes through `PutPeer` as it is. -/
theorem updatedPeer_key {s : Store} {now : Time} {p updated : Peer}
    (h : s.updatedPeer now p = .ok updated) : updated.publicKey = p.publicKey := by
  unfold updatedPeer at h
  split at h
  · split at h
    · cases h
    · cases h
      rfl
  · cases h
    rfl

/-- Only a known node with another key stops the update. -/
theorem updatedPeer_error {s : Store} {now : Time} {p : Peer} {err : String}
    (h : s.updatedPeer now p = .error err) :
    ∃ r, s.getPeer p.nodeID = some r ∧ r.publicKey ≠ p.publicKey := by
  unfold updatedPeer at h
  split at h
  next prev hget =>
    split at h
    next hne => exact ⟨prev, hget, hne⟩
    next => cases h
  next => cases h

/-- A key that differs from the stored one stops the update. -/
theorem updatedPeer_key_changed {s : Store} (now : Time) {p r : Peer}
    (hget : s.getPeer p.nodeID = some r) (hne : r.publicKey ≠ p.publicKey) :
    s.updatedPeer now p = .error errKeyChanged := by
  unfold updatedPeer
  unfold getPeer at hget
  simp only [hget]
  rw [if_pos hne]

theorem json_publicKey {p data : Peer} (h : p.json = .ok data) : data.publicKey = p.publicKey := by
  unfold Peer.json at h
  split at h
  · cases h
    rfl
  · cases h

/-- What `json.Marshal` has to say is never `ErrKeyChanged`. -/
theorem json_error_ne {p : Peer} {err : String} (h : p.json = .error err) :
    "marshal peer: " ++ err ≠ errKeyChanged := by
  unfold Peer.json at h
  split at h
  · cases h
  · cases h
    decide

/-- **One `PutPeer`**: it returns an error and has not written, or it has written
a record with the peer's key. -/
theorem putPeer_cases (s : Store) (now : Time) (p : Peer) :
    (∃ err, s.putPeer now p = (s, some err))
      ∨ ∃ data, data.publicKey = p.publicKey
        ∧ s.putPeer now p = ({ s with peers := s.peers.put p.nodeID.val data }, none) := by
  unfold putPeer
  cases hupd : s.updatedPeer now p with
  | error err => exact Or.inl ⟨err, rfl⟩
  | ok updated =>
    dsimp only
    cases hjson : updated.json with
    | error err => exact Or.inl ⟨_, rfl⟩
    | ok data => exact Or.inr ⟨data, (json_publicKey hjson).trans (updatedPeer_key hupd), rfl⟩

theorem putPeer_error_iff (s : Store) (now : Time) (p : Peer) :
    (s.putPeer now p).2 = some errKeyChanged
      ↔ ∃ r, s.getPeer p.nodeID = some r ∧ r.publicKey ≠ p.publicKey := by
  constructor
  · intro h
    cases hupd : s.updatedPeer now p with
    | error err => exact updatedPeer_error hupd
    | ok updated =>
      -- only the marshalling can fail now, with a text of its own
      unfold putPeer at h
      simp only [hupd] at h
      cases hjson : updated.json with
      | error err =>
        simp only [hjson] at h
        exact absurd (Option.some.inj h) (json_error_ne hjson)
      | ok data =>
        simp only [hjson] at h
        cases h
  · rintro ⟨r, hget, hne⟩
    unfold putPeer
    rw [updatedPeer_key_changed now hget hne]

/-- A `PutPeer` that returns an error has not written. -/
theorem putPeer_of_error {s : Store} {now : Time} {p : Peer} {err : String}
    (h : (s.putPeer now p).2 = some err) : (s.putPeer now p).1 = s := by
  rcases s.putPeer_cases now p with ⟨err', hput⟩ | ⟨data, -, hput⟩
  · rw [hput]
  · rw [hput] at h
    cases h

/-- `UpdateLastSeen` leaves the store, or rewrites the record with the key it
had. -/
theorem updateLastSeen_cases (s : Store) (now : Time) (n : NodeID) :
    (s.updateLastSeen now n).1 = s
      ∨ ∃ r data, s.getPeer n = some r ∧ data.publicKey = r.publicKey
        ∧ (s.updateLastSeen now n).1 = { s with peers := s.peers.put n.val data } := by
  unfold updateLastSeen getPeer
  cases hget : s.peers.get n.val with
  | none => exact Or.inl rfl
  | some r =>
    dsimp only
    cases hjson : ({ r with lastSeen := now } : Peer).json with
    | error err => exact Or.inl rfl
    | ok data =>
      have hkey := json_publicKey hjson
      exact Or.inr ⟨r, data, rfl, hkey, rfl⟩

theorem getPeer_put (s : Store) (n m : NodeID) (data : Peer) :
    ({ s with peers := s.peers.put n.val data } : Store).getPeer m
      = if m = n then some data else s.getPeer m := by
  show (s.peers.put n.val data).get m.val = _
  rw [Bucket.get_put]
  by_cases hm : m = n
  · rw [if_pos hm, if_pos (by rw [hm])]
  · rw [if_neg hm, if_neg (fun hv => hm (Bytes.ext hv))]
    rfl

end Store

/-! ## §3. Pinned keys. -/

/-- The store knows the node `n`, under the key `key`. -/
def Pinned (s : Store) (n : NodeID) (key : GoString) : Prop :=
  ∃ r, s.getPeer n = some r ∧ r.publicKey = key

/-- An operation changes no record but that of its own node. -/
theorem getPeer_apply_ne (s : Store) {op : Op} {m : NodeID} (hm : op.node ≠ some m) :
    (op.apply s).getPeer m = s.getPeer m := by
  cases op with
  | putPeer now p =>
    have hne : m ≠ p.nodeID := fun h => hm (congrArg some h.symm)
    show (s.putPeer now p).1.getPeer m = _
    rcases s.putPeer_cases now p with ⟨err, hput⟩ | ⟨data, -, hput⟩
    · rw [hput]
    · rw [hput, Store.getPeer_put, if_neg hne]
  | updateLastSeen now n =>
    have hne : m ≠ n := fun h => hm (congrArg some h.symm)
    show (s.updateLastSeen now n).1.getPeer m = _
    rcases s.updateLastSeen_cases now n with hsame | ⟨r, data, _, _, hput⟩
    · rw [hsame]
    · rw [hput, Store.getPeer_put, if_neg hne]
  | saveNonce nonce => rfl
  | getPeer n => rfl
  | listPeers => rfl
  | hasNonce nonce => rfl

theorem pinned_put (s : Store) (n : NodeID) (data : Peer) :
    Pinned { s with peers := s.peers.put n.val data } n data.publicKey :=
  ⟨data, by rw [Store.getPeer_put, if_pos rfl], rfl⟩

theorem pinned_putPeer {s : Store} {now : Time} {p : Peer} (h : (s.putPeer now p).2 = none) :
    Pinned (s.putPeer now p).1 p.nodeID p.publicKey := by
  rcases s.putPeer_cases now p with ⟨err, hput⟩ | ⟨data, hkey, hput⟩
  · rw [hput] at h
    cases h
  · rw [hput, ← hkey]
    exact pinned_put s p.nodeID data

theorem pinned_apply {s : Store} {n : NodeID} {key : GoString} (h : Pinned s n key) (op : Op) :
    Pinned (op.apply s) n key := by
  -- an operation about another node leaves the record in place
  by_cases hn : op.node = some n
  · obtain ⟨r, hget, hkey⟩ := h
    cases op with
    | putPeer now p =>
      cases hn
      show Pinned (s.putPeer now p).1 p.nodeID key
      cases herr : (s.putPeer now p).2 with
      | some err =>
        rw [Store.putPeer_of_error herr]
        exact ⟨r, hget, hkey⟩
      | none =>
        -- it went through, so the new key is the stored one
        have hsame : p.publicKey = key := by
          by_contra hne
          have hchanged := (s.putPeer_error_iff now p).mpr
            ⟨r, hget, fun heq => hne (heq.symm.trans hkey)⟩
          rw [herr] at hchanged
          cases hchanged
        rw [← hsame]
        exact pinned_putPeer herr
    | updateLastSeen now m =>
      cases hn
      show Pinned (s.updateLastSeen now n).1 n key
      rcases s.updateLastSeen_cases now n with hsame | ⟨r', data, hget', hdata, hput⟩
      · rw [hsame]
        exact ⟨r, hget, hkey⟩
      · rw [hget] at hget'
        cases hget'
        rw [hput, ← hkey, ← hdata]
        exact pinned_put s n data
    | getPeer m => exact ⟨r, hget, hkey⟩
    | saveNonce nonce => cases hn
    | listPeers => cases hn
    | hasNonce nonce => cases hn
  · obtain ⟨r, hget, hkey⟩ := h
    exact ⟨r, (getPeer_apply_ne s hn).trans hget, hkey⟩

theorem pinned_applyAll {s : Store} {n : NodeID} {key : GoString} (h : Pinned s n key)
    (ops : List Op) : Pinned (Op.applyAll s ops) n key := by
  induction ops generalizing s with
  | nil => exact h
  | cons op ops ih => exact ih (pinned_apply h op)

/-- **TOFU pinning**, from every state of the store.  After a `PutPeer` that
succeeds, every run keeps the node's record and its key; `ErrKeyChanged` means
exactly that another key is on record, and nothing was written; and an operation
changes the record of no node but its own. -/
theorem tofu_pinning (s : Store) :
    (∀ now p, (s.putPeer now p).2 = none →
        ∀ ops, Pinned (Op.applyAll (s.putPeer now p).1 ops) p.nodeID p.publicKey)
      ∧ (∀ now p, (s.putPeer now p).2 = some errKeyChanged
          ↔ ∃ r, s.getPeer p.nodeID = some r ∧ r.publicKey ≠ p.publicKey)
      ∧ (∀ now p, (s.putPeer now p).2 = some errKeyChanged → (s.putPeer now p).1 = s)
      ∧ (∀ (op : Op) m, op.node ≠ some m → (op.apply s).getPeer m = s.getPeer m) :=
  ⟨fun _ _ hok ops => pinned_applyAll (pinned_putPeer hok) ops, s.putPeer_error_iff,
    fun _ _ => Store.putPeer_of_error, fun _ _ => getPeer_apply_ne s⟩

/-- A second key for a known node is refused, and the first one stays. -/
theorem tofu_pinning_second_key :
    let n : NodeID := Bytes.lit32 1
    let first : Peer := ⟨n, [1], [ascii "a:1"], .unset, ⟨0⟩⟩
    let s := (Store.openFresh.putPeer ⟨0⟩ first).1
    ((s.getPeer n).map Peer.publicKey = some [1]
        ∧ (s.putPeer ⟨1⟩ { first with publicKey := [2] }).2 = some errKeyChanged)
      ∧ Pinned (Op.applyAll s [.putPeer ⟨1⟩ { first with publicKey := [2] },
          .updateLastSeen ⟨2⟩ n]) n [1] :=
  ⟨by decide +kernel,
    (tofu_pinning Store.openFresh).1 ⟨0⟩ ⟨Bytes.lit32 1, [1], [ascii "a:1"], .unset, ⟨0⟩⟩
      (by decide +kernel) _⟩

end Kin.Peerstore
