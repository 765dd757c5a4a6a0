/-
  Kin.Daemon.Joining

  **WHERE AN INVITE LEADS** (`handleJoin` of `internal/daemon/handler.go`, `cmdJoin` of
  `cmd/kin/main.go`, over `Dialer.Dial`).

  `Kin.Daemon.Handler` takes the outcome of the dial as given.  Here the dial is the
  one of `Kin.Connmgr.Dial`, with every name server, relay and host in anybody's
  hands.  The endpoints of an invite are signed but may lead anywhere by now; the key
  is what counts.

      text ──decode, validate──→ key, endpoints ──Dial──→ connection ──PutPeer──→ record

    • `Conn.Proven.key` — the key the other end has shown, or a collision of SHA-256,
    • `remembers_pinPeer` — what a join leaves in the peer store,
    • `join_reaches_inviter` — when a join succeeds, and to whom it connects,
    • `joins_agree` — the tool's own join does what the daemon's does.
-/
import Kin.Connmgr.Dial
import Kin.Daemon.Rejoin

namespace Kin.Daemon

open Kin.Lib Kin.Lib.Tries Kin.Invite Kin.Peerstore Kin.Connmgr Kin.Transport

/-! ## §1. A join with its dial. -/

/-- `Dial` with the token's key and endpoints. -/
def dialToken (w : World) (tok : Token) : Except GoString Conn :=
  (dial w (Sha256.sum256 tok.publicKey) tok.endpoints).result

structure Joined where
  store : Store
  result : Except ErrorInfo NodeID
  /-- The connection that goes to `serveJoinedPeer`. -/
  conn : Option Conn

/-- `handleJoin`, with the world it dials into. -/
def handleJoinIn (verify : GoString → GoString → GoString → Bool) (env : JoinEnv) (w : World)
    (params : Except String GoString) (store : Store) : Joined :=
  let dialed := (requestToken params).bind (fun tok => (dialToken w tok).toOption)
  match handleJoin verify { env with dialed := dialed.isSome } params store with
  | (store, .error info) => ⟨store, .error info, none⟩
  | (store, .ok peerID) => ⟨store, .ok peerID, dialed⟩

/-- The key of the first certificate the other end has shown. -/
def shownKey (conn : Conn) : Option GoString :=
  match parseCerts conn.shown with
  | .ok (cert :: _) => cert.ed25519
  | _ => none

/-- **The other end has shown the key, or one that collides with it.** -/
theorem Conn.Proven.key {conn : Conn} {publicKey : GoString}
    (h : conn.Proven (Sha256.sum256 publicKey)) :
    shownKey conn = some publicKey
      ∨ ∃ other, shownKey conn = some other ∧ other ≠ publicKey
        ∧ Sha256.sum256 other = Sha256.sum256 publicKey := by
  obtain ⟨-, certs, hparse, hid⟩ := h
  unfold shownKey
  rw [hparse]
  cases certs with
  | nil => cases hid
  | cons cert certs =>
    unfold nodeIDFromCert at hid
    dsimp only at hid ⊢
    cases hkey : cert.ed25519 with
    | none =>
      rw [hkey] at hid
      cases hid
    | some pub =>
      rw [hkey] at hid
      injection hid with hid
      by_cases heq : pub = publicKey
      · exact Or.inl (congrArg some heq)
      · exact Or.inr ⟨pub, rfl, heq, hid⟩

/-! ## §2. When a join succeeds. -/

/-- The dial gets through exactly if some route does, and by the first that does. -/
theorem dialToken_ok_iff (w : World) (tok : Token) (conn : Conn) :
    dialToken w tok = .ok conn
      ↔ ∃ m, FirstOk (w.attempt (Sha256.sum256 tok.publicKey)) 0 (routes tok.endpoints) m conn := by
  unfold dialToken
  rcases dial_goesDown w (Sha256.sum256 tok.publicKey) tok.endpoints
    with ⟨m, conn', hfirst, hres, -⟩ | ⟨hfail, hres, -⟩
  · rw [hres]
    constructor
    · intro h
      injection h with h
      exact ⟨m, h ▸ hfirst⟩
    · rintro ⟨m', hfirst'⟩
      rw [hfirst.unique hfirst']
  · rw [hres]
    refine iff_of_false (fun h => by cases h) ?_
    rintro ⟨m, hfirst⟩
    exact hfail.not_firstOk m conn hfirst

/-- The store of a join whose token has been let through. -/
def spent (store : Store) (tok : Token) : Store :=
  { store with toNonceStore := store.saveNonce tok.nonce }

/-- What comes of a token that `Validate` has let through. -/
def joinWith (env : JoinEnv) (w : World) (tok : Token) (store : Store) : Joined :=
  if tok.endpoints = [] then
    ⟨spent store tok, .error ⟨"invalid_token", "invite has no endpoints"⟩, none⟩
  else
    match dialToken w tok with
    | .error _ =>
      ⟨spent store tok, .error ⟨"connect_failed", "connect: " ++ "connmgr: no route to peer"⟩,
        none⟩
    | .ok conn =>
      ⟨pinPeer env (joinedPeer tok) (spent store tok), .ok (Sha256.sum256 tok.publicKey),
        some conn⟩

/-- **How far a join gets**: `Validate` stops it with the store as it was, or it goes on
with its token. -/
theorem handleJoinIn_cases (verify : GoString → GoString → GoString → Bool) (env : JoinEnv)
    (w : World) (params : Except String GoString) (store : Store) :
    ((∀ tok, ¬ LetThrough verify env params store tok)
        ∧ ∃ info, handleJoinIn verify env w params store = ⟨store, .error info, none⟩)
      ∨ ∃ tok, (∀ tok', LetThrough verify env params store tok' ↔ tok' = tok)
        ∧ handleJoinIn verify env w params store = joinWith env w tok store := by
  unfold handleJoinIn
  dsimp only
  generalize hdialed : (requestToken params).bind (fun tok => (dialToken w tok).toOption) = dialed
  rcases handleJoin_cases verify { env with dialed := dialed.isSome } params store with
    ⟨hnone, info, hjoin⟩ | ⟨tok, hlet, hkey, hno, hjoin⟩
  · rw [hjoin]
    exact Or.inl ⟨hnone, info, rfl⟩
  · refine Or.inr ⟨tok, hlet, ?_⟩
    have htok : requestToken params = some tok := by
      obtain ⟨raw, rfl, hdecode, -⟩ := (hlet tok).mpr rfl
      show (decode raw).toOption = some tok
      rw [hdecode]
      rfl
    rw [htok] at hdialed
    have hdial : (dialToken w tok).toOption = dialed := hdialed
    rw [hjoin]
    unfold connectJoin joinWith
    rw [if_neg (not_not_intro hkey)]
    by_cases hends : tok.endpoints = []
    · rw [if_pos hends, if_pos hends]
      rfl
    · rw [if_neg hends, if_neg hends]
      cases hres : dialToken w tok with
      | error err =>
        rw [hres] at hdial
        rw [← hdial]
        rfl
      | ok conn =>
        rw [hres] at hdial
        rw [← hdial]
        rfl

/-- What a join with a token leaves in the peer store: the nonce is spent, and the key
is pinned with the endpoints, if the transaction of `PutPeer` succeeds and no other key
is pinned for the node id. -/
structure Remembers (env : JoinEnv) (store after : Store) (tok : Token) : Prop where
  nonces : ∀ n, after.hasNonce n = true ↔ store.hasNonce n = true ∨ n = tok.nonce
  pinned : env.putPeerErr = none →
    (∀ prev, store.getPeer (Sha256.sum256 tok.publicKey) = some prev →
      prev.publicKey = tok.publicKey) →
    after.getPeer (Sha256.sum256 tok.publicKey)
      = some ⟨Sha256.sum256 tok.publicKey, tok.publicKey,
          (mergeEndpoints (store.endpointsOf (Sha256.sum256 tok.publicKey)) tok.endpoints).map
            jsonString,
          .tofu, env.clk.now 1⟩
  /-- Otherwise the record is as it was: the error is only logged. -/
  unpinned : (env.putPeerErr ≠ none
      ∨ ∃ prev, store.getPeer (Sha256.sum256 tok.publicKey) = some prev
        ∧ prev.publicKey ≠ tok.publicKey) →
    after.getPeer (Sha256.sum256 tok.publicKey)
      = store.getPeer (Sha256.sum256 tok.publicKey)
  others : ∀ n, n ≠ Sha256.sum256 tok.publicKey → after.getPeer n = store.getPeer n

theorem hasNonce_spent (store : Store) (tok : Token) (n : Nonce) :
    (spent store tok).hasNonce n = true ↔ store.hasNonce n = true ∨ n = tok.nonce := by
  rw [eq_comm (a := n)]
  exact NonceStore.hasNonce_saveNonce _ _ _

theorem remembers_pinPeer (env : JoinEnv) (store : Store) (tok : Token) :
    Remembers env store (pinPeer env (joinedPeer tok) (spent store tok)) tok := by
  refine ⟨fun n => ?_, fun hput hkey => ?_, fun hno => ?_, fun n hn => ?_⟩
  · show (pinPeer env (joinedPeer tok) (spent store tok)).toNonceStore.hasNonce n = true ↔ _
    rw [pinPeer_nonces]
    exact hasNonce_spent store tok n
  · have hok : ((spent store tok).putPeer (env.clk.now 1) (joinedPeer tok)).2 = none :=
      putPeer_stored (env.clk.inRange 1) hkey
    unfold pinPeer
    rw [hput]
    exact putPeer_record hok
  · unfold pinPeer
    cases hput : env.putPeerErr with
    | some err => rfl
    | none =>
      have hother := hno.resolve_left (not_not_intro hput)
      have herr : ((spent store tok).putPeer (env.clk.now 1) (joinedPeer tok)).2
          = some errKeyChanged :=
        ((spent store tok).putPeer_error_iff (env.clk.now 1) (joinedPeer tok)).mpr hother
      show ((spent store tok).putPeer (env.clk.now 1) (joinedPeer tok)).1.getPeer _ = _
      rw [Store.putPeer_of_error herr]
      rfl
  · unfold pinPeer
    cases env.putPeerErr with
    | some err => rfl
    | none =>
      show ((spent store tok).putPeer (env.clk.now 1) (joinedPeer tok)).1.getPeer n = _
      rcases (spent store tok).putPeer_cases (env.clk.now 1) (joinedPeer tok) with
        ⟨err, herr⟩ | ⟨data, -, hok⟩
      · rw [herr]
        rfl
      · rw [hok, Store.getPeer_put]
        exact if_neg hn

/-- What a join that succeeds has found: the connection leads to the token's key, and
the store remembers the token. -/
structure LeadsTo (env : JoinEnv) (store : Store) (tok : Token) (out : Joined) (peerID : NodeID) :
    Prop where
  peer : peerID = Sha256.sum256 tok.publicKey
  conn : ∃ conn, out.conn = some conn ∧ conn.peerNodeID = peerID
    ∧ (shownKey conn = some tok.publicKey
      ∨ ∃ other, shownKey conn = some other ∧ other ≠ tok.publicKey
        ∧ Sha256.sum256 other = Sha256.sum256 tok.publicKey)
  stored : out.store = pinPeer env (joinedPeer tok) (spent store tok)
  record : Remembers env store out.store tok

theorem joinWith_ok_iff (env : JoinEnv) (w : World) (tok : Token) (store : Store) :
    (∃ peerID, (joinWith env w tok store).result = .ok peerID)
      ↔ ∃ m conn,
        FirstOk (w.attempt (Sha256.sum256 tok.publicKey)) 0 (routes tok.endpoints) m conn := by
  unfold joinWith
  by_cases hends : tok.endpoints = []
  · rw [if_pos hends, hends]
    refine iff_of_false ?_ ?_
    · rintro ⟨peerID, hok⟩
      cases hok
    · rintro ⟨m, conn, hfirst⟩
      exact Nat.not_lt_zero m hfirst.lt
  · rw [if_neg hends]
    cases hres : dialToken w tok with
    | error err =>
      refine iff_of_false ?_ ?_
      · rintro ⟨peerID, hok⟩
        cases hok
      · rintro ⟨m, conn, hfirst⟩
        have hok := (dialToken_ok_iff w tok conn).mpr ⟨m, hfirst⟩
        rw [hres] at hok
        cases hok
    | ok conn =>
      obtain ⟨m, hfirst⟩ := (dialToken_ok_iff w tok conn).mp hres
      exact iff_of_true ⟨_, rfl⟩ ⟨m, conn, hfirst⟩

theorem joinWith_leadsTo {env : JoinEnv} {w : World} {tok : Token} {store : Store}
    {peerID : NodeID} (h : (joinWith env w tok store).result = .ok peerID) :
    LeadsTo env store tok (joinWith env w tok store) peerID := by
  unfold joinWith at h ⊢
  by_cases hends : tok.endpoints = []
  · rw [if_pos hends] at h
    cases h
  · rw [if_neg hends] at h ⊢
    cases hres : dialToken w tok with
    | error err =>
      rw [hres] at h
      cases h
    | ok conn =>
      rw [hres] at h
      injection h with hpeer
      obtain ⟨m, -, route, -, hok⟩ := (dialToken_ok_iff w tok conn).mp hres
      have hproven : conn.Proven (Sha256.sum256 tok.publicKey) := attempt_proven hok
      refine ⟨hpeer.symm, ⟨conn, rfl, ?_, Conn.Proven.key hproven⟩, rfl,
        remembers_pinPeer env store tok⟩
      rw [← hpeer]
      exact hproven.1

/-- **AN INVITE LEADS TO THE INVITER.**  For every request, store and world: a join
succeeds exactly if `Validate` lets its token through and one of the token's routes
answers; and the connection then leads to whoever holds the key of the token (or
one that collides with it under SHA-256), whatever the endpoints, name servers and
relays say; the nonce is spent, and the key is pinned if `PutPeer` succeeds. -/
theorem join_reaches_inviter (verify : GoString → GoString → GoString → Bool) (env : JoinEnv)
    (w : World) (params : Except String GoString) (store : Store) :
    ((∃ peerID, (handleJoinIn verify env w params store).result = .ok peerID)
      ↔ ∃ tok m conn, LetThrough verify env params store tok
        ∧ FirstOk (w.attempt (Sha256.sum256 tok.publicKey)) 0 (routes tok.endpoints) m conn)
    ∧ ∀ peerID, (handleJoinIn verify env w params store).result = .ok peerID →
      ∃ tok, LetThrough verify env params store tok
        ∧ LeadsTo env store tok (handleJoinIn verify env w params store) peerID := by
  rcases handleJoinIn_cases verify env w params store with ⟨hnone, info, hjoin⟩ | ⟨tok, hlet, hjoin⟩
  · rw [hjoin]
    refine ⟨iff_of_false ?_ ?_, ?_⟩
    · rintro ⟨peerID, hok⟩
      cases hok
    · rintro ⟨tok, m, conn, hthrough, -⟩
      exact hnone tok hthrough
    · intro peerID hok
      cases hok
  · rw [hjoin, joinWith_ok_iff]
    constructor
    · constructor
      · rintro ⟨m, conn, hfirst⟩
        exact ⟨tok, m, conn, (hlet tok).mpr rfl, hfirst⟩
      · rintro ⟨tok', m, conn, hthrough, hfirst⟩
        rw [(hlet tok').mp hthrough] at hfirst
        exact ⟨m, conn, hfirst⟩
    · intro peerID hok
      exact ⟨tok, (hlet tok).mpr rfl, joinWith_leadsTo hok⟩

/-! ## §3. The tool's own join. -/

/-- `cmdJoin` after `Validate`, up to the exchange of catalogs. -/
def connectCmd (env : JoinEnv) (listenErr : Option String) (tok : Token) (store : Store) :
    Store × Except String NodeID :=
  if tok.publicKey.length ≠ 32 then
    (store, .error ("invalid invite: unexpected public key length "
      ++ toString tok.publicKey.length))
  else if tok.endpoints = [] then (store, .error "invite has no endpoints")
  else
    match listenErr with
    | some err => (store, .error ("listen: " ++ err))
    | none =>
      if !env.dialed then (store, .error ("connect: " ++ "connmgr: no route to peer"))
      else
        (pinPeer env (joinedPeer tok) store, .ok (Sha256.sum256 tok.publicKey))

/-- `cmdJoin` without a daemon: the peer store afterwards, and the text it ends with or
the peer it has connected to. -/
def cmdJoin (verify : GoString → GoString → GoString → Bool) (env : JoinEnv)
    (listenErr : Option String) (rawToken : GoString) (store : Store) :
    Store × Except String NodeID :=
  match decode rawToken with
  | .error err => (store, .error ("decode invite: " ++ err))
  | .ok tok =>
    match validate verify tok rawToken (env.clk.now 0) env.hasNonceErr env.saveNonceErr
      store.toNonceStore with
    | (ns, some err) =>
      ({ store with toNonceStore := ns }, .error ("validate invite: " ++ err))
    | (ns, none) => connectCmd env listenErr tok { store with toNonceStore := ns }

theorem connectCmd_eq (env : JoinEnv) {tok : Token} (hkey : tok.publicKey.length = 32)
    (store : Store) :
    connectCmd env none tok store
      = ((connectJoin env tok store).1,
          (connectJoin env tok store).2.mapError ErrorInfo.message) := by
  unfold connectCmd connectJoin
  rw [if_neg (not_not_intro hkey), if_neg (not_not_intro hkey)]
  by_cases hends : tok.endpoints = []
  · rw [if_pos hends, if_pos hends]
    rfl
  · rw [if_neg hends, if_neg hends]
    cases env.dialed with
    | true => rfl
    | false => rfl

/-- A tool that cannot listen touches nothing behind `Validate`. -/
theorem connectCmd_deaf (env : JoinEnv) (err : String) (tok : Token) (store : Store) :
    ∃ text, connectCmd env (some err) tok store = (store, .error text) := by
  unfold connectCmd
  split
  · exact ⟨_, rfl⟩
  · split
    · exact ⟨_, rfl⟩
    · exact ⟨_, rfl⟩

/-- The tool and the daemon do the same with a link: the same store, the same peer, and
the daemon's message for the tool's text.  Without a link both stop at once.  A tool
that cannot listen has spent the link all the same. -/
structure JoinsAgree (verify : GoString → GoString → GoString → Bool) (env : JoinEnv)
    (raw : GoString) (store : Store) : Prop where
  same : raw ≠ [] → cmdJoin verify env none raw store
    = ((handleJoin verify env (.ok raw) store).1,
        (handleJoin verify env (.ok raw) store).2.mapError ErrorInfo.message)
  empty : raw = [] → ∃ text info, cmdJoin verify env none raw store = (store, .error text)
    ∧ handleJoin verify env (.ok raw) store = (store, .error info)
  deaf : ∀ err, ∃ text, (cmdJoin verify env (some err) raw store).2 = .error text
    ∧ ((cmdJoin verify env (some err) raw store).1 ≠ store
      ↔ ∃ tok, LetThrough verify env (.ok raw) store tok)

/-- **THE TWO JOINS AGREE**, for every text, store, clock and outcome of the database
and the dial. -/
theorem joins_agree (verify : GoString → GoString → GoString → Bool) (env : JoinEnv)
    (raw : GoString) (store : Store) : JoinsAgree verify env raw store := by
  constructor
  · intro hne
    unfold cmdJoin handleJoin
    dsimp only
    rw [if_neg hne]
    cases hd : decode raw with
    | error err => rfl
    | ok tok =>
      dsimp only
      cases validate verify tok raw (env.clk.now 0) env.hasNonceErr env.saveNonceErr
          store.toNonceStore with
      | mk ns err =>
        cases err with
        | some err => rfl
        | none => exact connectCmd_eq env (decode_key_length hd) _
  · rintro rfl
    exact ⟨_, _, rfl, rfl⟩
  · intro err
    unfold cmdJoin
    cases hd : decode raw with
    | error text =>
      refine ⟨_, rfl, iff_of_false (fun h => h rfl) ?_⟩
      rintro ⟨tok, raw', hraw, hdecode, -⟩
      cases hraw
      rw [hd] at hdecode
      cases hdecode
    | ok tok =>
      dsimp only
      split
      next ns text hv =>
        refine ⟨_, rfl, iff_of_false ?_ ?_⟩
        · rw [validate_error hv]
          exact fun h => h rfl
        · rintro ⟨tok', raw', hraw, hdecode, hnone⟩
          cases hraw
          rw [hd] at hdecode
          cases hdecode
          rw [hv] at hnone
          cases hnone
      next ns hv =>
        obtain ⟨-, -, -, hno, hns⟩ := validate_ok_iff.mp hv
        obtain ⟨text, hdeaf⟩ := connectCmd_deaf env err tok { store with toNonceStore := ns }
        rw [hdeaf, hns]
        refine ⟨text, rfl, iff_of_true (saveNonce_ne hno) ⟨tok, raw, rfl, hd, ?_⟩⟩
        rw [hv]

end Kin.Daemon
