/-
  Kin.Daemon.Handler

  **INVITING, JOINING AND ACCEPTING** (`internal/daemon/handler.go`,
  `internal/daemon/daemon.go`).

  `handleInvite` makes a link; `handleJoin` takes one, validates it against the
  node's own peer store, dials, and pins the peer; `acceptLoop` takes whatever
  connection comes in.  Each is here from its first step to its last, with no
  other call in between.

    • `validate_eq_run` — left alone, the two transactions of a join are `Validate`,
    • `handleJoin_isOk_iff` — the joins that succeed, by what there is before the call,
    • `handleJoin_ok` — what they have seen and done,
    • `handleJoin_keeps` — no join takes a nonce out of the store.

  The outcomes of the database and of the dial are given.  `Dialer.Dial` hands
  out connections to the id it was asked for, or fails with `ErrNoRoute`.
-/
import Kin.Invite.Grammar
import Kin.Lib.Sha256
import Kin.Peerstore.Store

namespace Kin.Daemon

open Kin.Lib Kin.Invite Kin.Peerstore

/-! ## §1. `Validate`. -/

/-- `Validate`, with the errors of its two transactions. -/
def validate (verify : GoString → GoString → GoString → Bool) (t : Token) (raw : GoString)
    (now : Time) (hasNonceErr saveNonceErr : Option String) (ns : NonceStore) :
    NonceStore × Option String :=
  match checkToken verify t raw now with
  | some err => (ns, some err)
  | none =>
    match hasNonceErr with
    | some err => (ns, some ("invite: nonce check: " ++ err))
    | none =>
      if ns.hasNonce t.nonce then (ns, some "invite: nonce already used")
      else
        match saveNonceErr with
        | some err => (ns, some ("invite: save nonce: " ++ err))
        | none => (ns.saveNonce t.nonce, none)

/-- `Validate` succeeds exactly on a token that is in order and whose nonce is
not recorded, and records it. -/
theorem validate_ok_iff {verify : GoString → GoString → GoString → Bool} {t : Token}
    {raw : GoString} {now : Time} {hasNonceErr saveNonceErr : Option String} {ns ns' : NonceStore} :
    validate verify t raw now hasNonceErr saveNonceErr ns = (ns', none)
      ↔ checkToken verify t raw now = none ∧ hasNonceErr = none ∧ saveNonceErr = none
        ∧ ns.hasNonce t.nonce = false ∧ ns' = ns.saveNonce t.nonce := by
  unfold validate
  cases checkToken verify t raw now with
  | some err => simp
  | none =>
    cases hasNonceErr with
    | some err => simp
    | none =>
      cases hn : ns.hasNonce t.nonce with
      | true => simp
      | false =>
        cases saveNonceErr with
        | some err => simp
        | none => simp [eq_comm]

/-- A `Validate` that fails leaves the store as it was. -/
theorem validate_error {verify : GoString → GoString → GoString → Bool} {t : Token}
    {raw : GoString} {now : Time} {hasNonceErr saveNonceErr : Option String} {ns ns' : NonceStore}
    {err : String} (h : validate verify t raw now hasNonceErr saveNonceErr ns = (ns', some err)) :
    ns' = ns := by
  unfold validate at h
  split at h
  · exact (Prod.mk.inj h).1.symm
  · split at h
    · exact (Prod.mk.inj h).1.symm
    · split at h
      · exact (Prod.mk.inj h).1.symm
      · split at h
        · exact (Prod.mk.inj h).1.symm
        · cases (Prod.mk.inj h).2

theorem startJoin_decoded {verify : GoString → GoString → GoString → Bool} {t : Token}
    {raw : GoString} (hd : decode raw = .ok t) (now : Time) :
    startJoin verify (.ok raw) now = match checkToken verify t raw now with
      | some err => .failed "invalid_token" ("validate invite: " ++ err)
      | none => .checking t := by
  have hne : raw ≠ [] := by
    intro hnil
    rw [hnil] at hd
    cases hd
  cases hcheck : checkToken verify t raw now with
  | none => simp only [startJoin, if_neg hne, hd, hcheck]
  | some err => simp only [startJoin, if_neg hne, hd, hcheck]

/-- **Left alone, the transactions of a join are `Validate`.** -/
theorem validate_eq_run {verify : GoString → GoString → GoString → Bool} {t : Token}
    {raw : GoString} (hd : decode raw = .ok t) (now : Time) (hasNonceErr saveNonceErr : Option String)
    (ns ns' : NonceStore) :
    run (step verify) (Invite.Daemon.new ns)
        [.join (.ok raw) now, .hasNonce 0 hasNonceErr, .saveNonce 0 saveNonceErr]
          = some ⟨ns', [.validated t]⟩
      ↔ validate verify t raw now hasNonceErr saveNonceErr ns = (ns', none) := by
  have hstart : startJoin verify (.ok raw) now = _ := startJoin_decoded hd now
  unfold validate
  cases hc : checkToken verify t raw now with
  | some err =>
    rw [hc] at hstart
    simp [run, step, Invite.Daemon.new, hstart]
  | none =>
    rw [hc] at hstart
    cases hasNonceErr with
    | some err => simp [run, step, Invite.Daemon.new, hstart, afterHasNonce, Invite.Daemon.setJoin]
    | none =>
      cases hn : ns.hasNonce t.nonce with
      | true =>
        simp [run, step, Invite.Daemon.new, hstart, afterHasNonce, hn, Invite.Daemon.setJoin]
      | false =>
        cases saveNonceErr with
        | some err =>
          simp [run, step, Invite.Daemon.new, hstart, afterHasNonce, hn,
            Invite.Daemon.setJoin, saveFailed]
        | none =>
          simp [run, step, Invite.Daemon.new, hstart, afterHasNonce, hn,
            Invite.Daemon.setJoin]

/-! ## §2. `handleInvite`, `handleJoin`, `acceptLoop`. -/

structure ErrorInfo where
  code : String
  message : String
  deriving DecidableEq

/-- `handleInvite`, for the endpoints the node has to offer. -/
def handleInvite (sign : GoString → GoString → GoString) (privKey publicKey : GoString)
    (endpoints : List GoString) (nonce : Except String Nonce) (now : Time) :
    Except ErrorInfo GoString :=
  match create publicKey endpoints defaultTTL nonce now with
  | .error err => .error ⟨"internal", "create invite: " ++ err⟩
  | .ok tok =>
    match encode sign tok privKey with
    | .error err => .error ⟨"internal", "encode invite: " ++ err⟩
    | .ok raw => .ok raw

/-- What happens around a join: the readings of the clock, the errors of the
transactions, and whether the dial gets through. -/
structure JoinEnv where
  clk : Clock
  hasNonceErr : Option String
  saveNonceErr : Option String
  putPeerErr : Option String
  dialed : Bool

/-- Nothing fails. -/
def JoinEnv.good (clk : Clock) : JoinEnv := ⟨clk, none, none, none, true⟩

/-- `PutPeer` after the dial; its error is only logged. -/
def pinPeer (env : JoinEnv) (p : Peer) (store : Store) : Store :=
  match env.putPeerErr with
  | some _ => store
  | none => (store.putPeer (env.clk.now 1) p).1

/-- `handleJoin` after `Validate`. -/
def connectJoin (env : JoinEnv) (tok : Token) (store : Store) : Store × Except ErrorInfo NodeID :=
  if tok.publicKey.length ≠ 32 then
    (store, .error ⟨"invalid_token",
      "unexpected public key length " ++ toString tok.publicKey.length⟩)
  else if tok.endpoints = [] then (store, .error ⟨"invalid_token", "invite has no endpoints"⟩)
  else if !env.dialed then
    (store, .error ⟨"connect_failed", "connect: " ++ "connmgr: no route to peer"⟩)
  else
    (pinPeer env ⟨Sha256.sum256 tok.publicKey, tok.publicKey, tok.endpoints, .tofu, ⟨0⟩⟩ store,
      .ok (Sha256.sum256 tok.publicKey))

/-- `handleJoin`: the peer store afterwards, and the error or the peer of the
new connection. -/
def handleJoin (verify : GoString → GoString → GoString → Bool) (env : JoinEnv)
    (params : Except String GoString) (store : Store) : Store × Except ErrorInfo NodeID :=
  match params with
  | .error err => (store, .error ⟨"invalid_params", "decode params: " ++ err⟩)
  | .ok token =>
    if token = [] then (store, .error ⟨"invalid_params", "token is required"⟩)
    else
      match decode token with
      | .error err => (store, .error ⟨"invalid_token", "decode invite: " ++ err⟩)
      | .ok tok =>
        match validate verify tok token (env.clk.now 0) env.hasNonceErr env.saveNonceErr
          store.toNonceStore with
        | (ns, some err) =>
          ({ store with toNonceStore := ns },
            .error ⟨"invalid_token", "validate invite: " ++ err⟩)
        | (ns, none) => connectJoin env tok { store with toNonceStore := ns }

/-- `acceptLoop` with a connection whose certificate has the key: the peer store
afterwards, and the connection's `PeerNodeID`. -/
def acceptConn (now : Time) (publicKey : GoString) (store : Store) : Store × NodeID :=
  ((store.updateLastSeen now (Sha256.sum256 publicKey)).1, Sha256.sum256 publicKey)

/-! ## §3. What a join does. -/

theorem pinPeer_nonces (env : JoinEnv) (p : Peer) (store : Store) :
    (pinPeer env p store).toNonceStore = store.toNonceStore := by
  unfold pinPeer
  split
  · rfl
  · exact Store.putPeer_nonces store _ p

theorem connectJoin_nonces (env : JoinEnv) (tok : Token) (store : Store) :
    (connectJoin env tok store).1.toNonceStore = store.toNonceStore := by
  unfold connectJoin
  split
  · rfl
  · split
    · rfl
    · split
      · rfl
      · exact pinPeer_nonces env _ store

theorem connectJoin_ok {env : JoinEnv} {tok : Token} {store : Store} {peerID : NodeID}
    (h : (connectJoin env tok store).2 = .ok peerID) : peerID = Sha256.sum256 tok.publicKey := by
  unfold connectJoin at h
  split at h
  · cases h
  · split at h
    · cases h
    · split at h
      · cases h
      · injection h with h
        exact h.symm

section Join

variable {verify : GoString → GoString → GoString → Bool} {env : JoinEnv}
  {params : Except String GoString} {store : Store}

/-- The token of the request. -/
def requestToken (params : Except String GoString) : Option Token :=
  match params with
  | .error _ => none
  | .ok token => (decode token).toOption

/-- **A join that succeeds** brought a token whose nonce was not recorded, has
recorded it, and connects to the token's key. -/
theorem handleJoin_ok {peerID : NodeID} (h : (handleJoin verify env params store).2 = .ok peerID) :
    ∃ tok, requestToken params = some tok ∧ store.hasNonce tok.nonce = false
      ∧ (handleJoin verify env params store).1.toNonceStore = store.saveNonce tok.nonce
      ∧ peerID = Sha256.sum256 tok.publicKey := by
  unfold handleJoin at h ⊢
  cases params with
  | error err => cases h
  | ok token =>
    dsimp only at h ⊢
    split at h
    next => cases h
    next hne =>
      rw [if_neg hne]
      cases hd : decode token with
      | error err =>
        rw [hd] at h
        cases h
      | ok tok =>
        rw [hd] at h
        dsimp only at h ⊢
        refine ⟨tok, ?_, ?_⟩
        · show (decode token).toOption = some tok
          rw [hd]
          rfl
        · split at h
          next => cases h
          next ns hv =>
            obtain ⟨_, _, _, hno, hns⟩ := validate_ok_iff.mp hv
            refine ⟨hno, ?_, connectJoin_ok h⟩
            rw [connectJoin_nonces, hns]

/-- **The join gets through**, by what there is before the call: the request is the text
of a token that is in order at the clock's reading, both transactions work, the nonce
is not in the store, and an endpoint of the token is reached. -/
def GetsThrough (verify : GoString → GoString → GoString → Bool) (env : JoinEnv)
    (params : Except String GoString) (store : Store) (tok : Token) : Prop :=
  ∃ raw, params = .ok raw ∧ decode raw = .ok tok
    ∧ checkToken verify tok raw (env.clk.now 0) = none
    ∧ env.hasNonceErr = none ∧ env.saveNonceErr = none ∧ store.hasNonce tok.nonce = false
    ∧ tok.endpoints ≠ [] ∧ env.dialed = true

theorem connectJoin_isOk_iff {tok : Token} (hkey : tok.publicKey.length = 32) :
    (connectJoin env tok store).2.isOk = true ↔ tok.endpoints ≠ [] ∧ env.dialed = true := by
  unfold connectJoin
  rw [if_neg (not_not_intro hkey)]
  by_cases hend : tok.endpoints = []
  · rw [if_pos hend]
    exact iff_of_false Bool.false_ne_true (fun h => h.1 hend)
  · rw [if_neg hend]
    cases env.dialed with
    | true => exact iff_of_true rfl ⟨hend, rfl⟩
    | false => exact iff_of_false Bool.false_ne_true (fun h => Bool.false_ne_true h.2)

/-- **The joins that succeed** are those that get through. -/
theorem handleJoin_isOk_iff {tok : Token} :
    (requestToken params = some tok ∧ (handleJoin verify env params store).2.isOk = true)
      ↔ GetsThrough verify env params store tok := by
  cases params with
  | error err =>
    refine iff_of_false (fun h => by cases h.1) ?_
    rintro ⟨raw, hraw, -⟩
    cases hraw
  | ok raw =>
    cases hd : decode raw with
    | error err =>
      refine iff_of_false ?_ ?_
      · rintro ⟨htok, -⟩
        rw [requestToken, hd] at htok
        cases htok
      · rintro ⟨raw', hraw, hd', -⟩
        cases hraw
        rw [hd] at hd'
        cases hd'
    | ok tok' =>
      have hne : raw ≠ [] := by
        rintro rfl
        cases hd
      have hjoin : handleJoin verify env (.ok raw) store
          = match validate verify tok' raw (env.clk.now 0) env.hasNonceErr env.saveNonceErr
              store.toNonceStore with
            | (ns, some err) =>
              ({ store with toNonceStore := ns },
                .error ⟨"invalid_token", "validate invite: " ++ err⟩)
            | (ns, none) => connectJoin env tok' { store with toNonceStore := ns } := by
        unfold handleJoin
        dsimp only
        rw [if_neg hne, hd]
      have htoken : requestToken (.ok raw) = some tok' := by
        rw [requestToken, hd]
        rfl
      rw [hjoin, htoken]
      constructor
      · rintro ⟨htok, hok⟩
        cases htok
        split at hok
        next => cases hok
        next ns hv =>
          obtain ⟨hcheck, hhas, hsave, hno, -⟩ := validate_ok_iff.mp hv
          obtain ⟨hend, hdial⟩ := (connectJoin_isOk_iff (decode_key_length hd)).mp hok
          exact ⟨raw, rfl, hd, hcheck, hhas, hsave, hno, hend, hdial⟩
      · rintro ⟨raw', hraw, hd', hcheck, hhas, hsave, hno, hconn⟩
        cases hraw
        cases hd.symm.trans hd'
        rw [validate_ok_iff.mpr ⟨hcheck, hhas, hsave, hno, rfl⟩]
        exact ⟨rfl, (connectJoin_isOk_iff (decode_key_length hd)).mpr hconn⟩

/-- **No join takes a nonce out of the store.** -/
theorem handleJoin_keeps {n : Nonce} (hn : store.hasNonce n = true) :
    (handleJoin verify env params store).1.hasNonce n = true := by
  unfold handleJoin
  cases params with
  | error err => exact hn
  | ok token =>
    dsimp only
    split
    · exact hn
    · split
      · exact hn
      · split
        next ns err hv =>
          rw [validate_error hv]
          exact hn
        next ns hv =>
          obtain ⟨_, _, _, _, hns⟩ := validate_ok_iff.mp hv
          rw [connectJoin_nonces, hns]
          exact (NonceStore.hasNonce_saveNonce store.toNonceStore _ n).mpr (Or.inl hn)

end Join

end Kin.Daemon
