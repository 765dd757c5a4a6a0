/-
  Kin.Daemon.Inviting

  **DOES AN INVITE LEAD HOME?** (`handleInvite` of `internal/daemon/handler.go`,
  `cmdInvite` of `cmd/kin/main.go`, and a join with what they return).

  The daemon offers the address it listens on, unless that is a wildcard, and its
  relay; the tool offers the address it would listen on.

      endpoints ──Create, Encode──→ text ──Decode, Validate──→ endpoints ──Dial──→ connection

  A daemon with a wildcard address and no relay, which is the default, has nothing to
  offer.  It issues an invite all the same, and whoever takes it spends it in vain.

    • `decode_issued`, `checkToken_issued` — the text is understood and in order,
    • `letThrough_issued_iff` — when `Validate` lets it through,
    • `routes_inviteEndpoints` — where `Dial` will look,
    • `invite_leads_home` — the whole way.
-/
import Kin.Daemon.Ipc
import Kin.Daemon.Joining

namespace Kin.Daemon

open Kin.Lib Kin.Lib.Tries Kin.Invite Kin.Peerstore Kin.Connmgr

/-! ## §1. What is offered. -/

/-- The endpoints of `cmdInvite`: the host is compared as a text. -/
def cmdInviteEndpoints (listenAddr relayAddr : GoString) : List GoString :=
  (match splitHostPort listenAddr with
    | .ok (host, _) =>
      if host ≠ ascii "0.0.0.0" ∧ host ≠ [] ∧ host ≠ ascii "::" then [listenAddr] else []
    | .error _ => [])
    ++ (if relayAddr ≠ [] then [ascii "relay://" ++ relayAddr] else [])

/-- `cmdInvite` without a daemon: the text it prints, or the one it fails with. -/
def cmdInvite (sign : GoString → GoString → GoString) (privKey publicKey listenAddr
    relayAddr : GoString) (nonce : Except String Nonce) (now : Time) : Except String GoString :=
  match create publicKey (cmdInviteEndpoints listenAddr relayAddr) defaultTTL nonce now with
  | .error err => .error ("create invite: " ++ err)
  | .ok tok =>
    match encode sign tok privKey with
    | .error err => .error ("encode invite: " ++ err)
    | .ok raw => .ok raw

/-- The ways to a daemon that its invites offer. -/
def ways (libs : IpcLibs) (d : DaemonState) : List Route :=
  (if d.listenAddr ≠ [] ∧ isRoutableListenAddr libs d.listenAddr then [.direct d.listenAddr]
    else [])
    ++ (if d.relayAddr ≠ [] then [.relay d.relayAddr] else [])

theorem isRelay_relay (addr : GoString) : isRelay (ascii "relay://" ++ addr) = true := by
  unfold isRelay relayScheme
  exact List.isPrefixOf_iff_prefix.mpr (List.prefix_append _ _)

/-- The part before the last colon. -/
theorem exists_last_colon {s : GoString} (h : colon ∈ s) :
    ∃ u v, s = u ++ colon :: v ∧ colon ∉ v := by
  obtain ⟨v, u, hrev, hv⟩ := List.eq_append_cons_of_mem (List.mem_reverse.mpr h)
  refine ⟨u.reverse, v.reverse, ?_, ?_⟩
  · rw [← List.reverse_reverse s, hrev]
    simp
  · rwa [List.mem_reverse]

/-- An address that reads like a relay has the host `relay`, if any: the colon of the
scheme is the only one. -/
theorem splitHostPort_relay {addr host port : GoString} (h : isRelay addr = true)
    (hsplit : splitHostPort addr = .ok (host, port)) : host = ascii "relay" := by
  obtain ⟨rest, rfl⟩ := List.isPrefixOf_iff_prefix.mp h
  have haddr : relayScheme ++ rest = ascii "relay" ++ colon :: (ascii "//" ++ rest) := rfl
  rw [haddr] at hsplit
  by_cases hcolon : colon ∈ ascii "//" ++ rest
  · obtain ⟨u, v, huv, hv⟩ := exists_last_colon hcolon
    have hmore : ascii "relay" ++ colon :: (ascii "//" ++ rest)
        = (ascii "relay" ++ colon :: u) ++ colon :: v := by
      rw [huv, List.append_assoc]
      rfl
    have hhead : (ascii "relay" ++ colon :: u).head? ≠ some lbrack := by
      show some (114 : UInt8) ≠ some lbrack
      decide
    rw [hmore, splitHostPort_unbracketed hv hhead
      (List.mem_append_right _ List.mem_cons_self)] at hsplit
    cases hsplit
  · have hhead : ¬ (ascii "relay" ++ colon :: (ascii "//" ++ rest)).head? = some lbrack := by
      show ¬ some (114 : UInt8) = some lbrack
      decide
    unfold splitHostPort at hsplit
    rw [lastIndexByte_append hcolon] at hsplit
    dsimp only at hsplit
    rw [if_neg hhead, List.take_left' rfl, if_neg (by decide)] at hsplit
    cases hstray : strayBracket (ascii "relay" ++ colon :: (ascii "//" ++ rest)) 0 0 with
    | some why =>
      rw [hstray] at hsplit
      cases hsplit
    | none =>
      rw [hstray] at hsplit
      injection hsplit with hsplit
      exact (Prod.mk.inj hsplit).1.symm

/-- **Where `Dial` will look.**  `relay` is no IP address, so an address that is offered
is never taken for a relay. -/
theorem routes_inviteEndpoints {libs : IpcLibs} (hspec : libs.specified (ascii "relay") = false)
    (d : DaemonState) : routes (inviteEndpoints libs d) = ways libs d := by
  have hdirect : d.listenAddr ≠ [] ∧ isRoutableListenAddr libs d.listenAddr = true →
      isRelay d.listenAddr = false := by
    rintro ⟨-, hroutable⟩
    rw [← Bool.not_eq_true]
    intro hrelay
    unfold isRoutableListenAddr at hroutable
    cases hsplit : splitHostPort d.listenAddr with
    | error err =>
      rw [hsplit] at hroutable
      cases hroutable
    | ok hp =>
      rw [hsplit] at hroutable
      obtain ⟨host, port⟩ := hp
      rw [splitHostPort_relay hrelay hsplit] at hroutable
      dsimp only at hroutable
      rw [hspec, Bool.and_false] at hroutable
      cases hroutable
  have hdrop : (ascii "relay://" ++ d.relayAddr).drop relayScheme.length = d.relayAddr :=
    List.drop_left
  unfold inviteEndpoints ways routes
  by_cases hlisten : d.listenAddr ≠ [] ∧ isRoutableListenAddr libs d.listenAddr = true
  · rw [if_pos hlisten, if_pos hlisten]
    split
    · simp [hdirect hlisten, isRelay_relay, hdrop]
    · simp [hdirect hlisten]
  · rw [if_neg hlisten, if_neg hlisten]
    split
    · simp [isRelay_relay, hdrop]
    · rfl

/-! ## §2. What is understood. -/

section Issued

variable {sign : GoString → GoString → GoString} {verify : GoString → GoString → GoString → Bool}
  {privKey publicKey : GoString} {endpoints : List GoString} {nonce : Nonce} {now : Time}

/-- When an invite of this moment expires, in whole seconds. -/
def expiry (now : Time) : Time := .ofUnix (Time.mk (now.unixNano + defaultTTL)).unix

/-- The token of an invite, as its reader has it. -/
def issuedToken (publicKey : GoString) (endpoints : List GoString) (nonce : Nonce) (now : Time) :
    Token :=
  ⟨publicKey, endpoints, nonce, expiry now⟩

/-- The text of an invite. -/
def issuedText (sign : GoString → GoString → GoString) (privKey : GoString) (tok : Token) :
    GoString :=
  tokenPrefix ++ Base64.encodeToString (tok.payload ++ sign privKey tok.payload)

/-- Ed25519 accepts its own signature of the token, which has 64 bytes. -/
structure SignedBy (sign : GoString → GoString → GoString)
    (verify : GoString → GoString → GoString → Bool) (privKey : GoString) (tok : Token) : Prop where
  size : (sign privKey tok.payload).length = sigSize
  verified : verify tok.publicKey tok.payload (sign privKey tok.payload) = true

theorem expiry_isGoTime (h : now.jsonOK = true) : IsGoTime (expiry now) := by
  unfold Time.jsonOK at h
  rw [Bool.and_eq_true, decide_eq_true_eq, decide_eq_true_eq] at h
  obtain ⟨hlo, hhi⟩ := h
  unfold IsGoTime expiry
  rw [Time.unix_ofUnix]
  unfold Time.unix defaultTTL at *
  dsimp only
  omega

/-- **`Encode`** gives the text for what `Create` returns, if the key and the endpoints
fit in. -/
theorem encode_created (sign : GoString → GoString → GoString) (privKey : GoString)
    (hfits : (issuedToken publicKey endpoints nonce now).Fits) :
    encode sign ⟨publicKey, endpoints, nonce, ⟨now.unixNano + defaultTTL⟩⟩ privKey
      = .ok (issuedText sign privKey (issuedToken publicKey endpoints nonce now)) := by
  have hcreated : Token.Fits ⟨publicKey, endpoints, nonce, ⟨now.unixNano + defaultTTL⟩⟩ := hfits
  -- the fraction of a second is not written
  have hpayload : Token.payload ⟨publicKey, endpoints, nonce, ⟨now.unixNano + defaultTTL⟩⟩
      = (issuedToken publicKey endpoints nonce now).payload := by
    unfold Token.payload issuedToken expiry
    rw [Time.unix_ofUnix]
  unfold encode
  rw [marshalPayload_ok hcreated, hpayload]
  rfl

theorem create_eq (publicKey : GoString) (endpoints : List GoString) (nonce : Nonce) (now : Time) :
    create publicKey endpoints defaultTTL (.ok nonce) now
      = .ok ⟨publicKey, endpoints, nonce, ⟨now.unixNano + defaultTTL⟩⟩ := rfl

theorem handleInvite_issued (sign : GoString → GoString → GoString) (privKey : GoString)
    (hfits : (issuedToken publicKey endpoints nonce now).Fits) :
    handleInvite sign privKey publicKey endpoints (.ok nonce) now
      = .ok (issuedText sign privKey (issuedToken publicKey endpoints nonce now)) := by
  unfold handleInvite
  rw [create_eq]
  dsimp only
  rw [encode_created sign privKey hfits]

theorem cmdInvite_issued (sign : GoString → GoString → GoString) (privKey : GoString)
    {listenAddr relayAddr : GoString}
    (hfits : (issuedToken publicKey (cmdInviteEndpoints listenAddr relayAddr) nonce now).Fits) :
    cmdInvite sign privKey publicKey listenAddr relayAddr (.ok nonce) now
      = .ok (issuedText sign privKey
          (issuedToken publicKey (cmdInviteEndpoints listenAddr relayAddr) nonce now)) := by
  unfold cmdInvite
  rw [create_eq]
  dsimp only
  rw [encode_created sign privKey hfits]

/-- **The text is understood.** -/
theorem decode_issued (hfits : (issuedToken publicKey endpoints nonce now).Fits)
    (hsigned : SignedBy sign verify privKey (issuedToken publicKey endpoints nonce now))
    (hnow : now.jsonOK = true) :
    decode (issuedText sign privKey (issuedToken publicKey endpoints nonce now))
      = .ok (issuedToken publicKey endpoints nonce now) := by
  have hread := unmarshal_payload hfits [] hsigned.size
  rw [List.append_nil] at hread
  unfold decode issuedText
  rw [if_neg (not_not_intro (List.prefix_append _ _)), List.drop_left,
    Base64.decodeString_encodeToString]
  dsimp only
  rw [hread, Token.decoded]
  have hexp : timeUnix (issuedToken publicKey endpoints nonce now).expiresAt.unix = expiry now := by
    show timeUnix (expiry now).unix = expiry now
    rw [timeUnix_unix (expiry_isGoTime hnow)]
    unfold expiry
    rw [Time.unix_ofUnix]
  rw [hexp]
  rfl

/-- **The text is in order**, until it expires. -/
theorem checkToken_issued
    (hsigned : SignedBy sign verify privKey (issuedToken publicKey endpoints nonce now))
    (later : Time) :
    checkToken verify (issuedToken publicKey endpoints nonce now)
        (issuedText sign privKey (issuedToken publicKey endpoints nonce now)) later = none
      ↔ after later (expiry now) = false := by
  unfold checkToken issuedText
  rw [List.drop_left, Base64.decodeString_encodeToString]
  dsimp only
  have hlen : (issuedToken publicKey endpoints nonce now).expiresAt = expiry now := rfl
  have hsize := hsigned.size
  have hsign : verify publicKey _ _ = true := hsigned.verified
  rw [hlen]
  generalize (issuedToken publicKey endpoints nonce now).payload = payload at hsize hsign ⊢
  have hshort : ¬ (payload ++ sign privKey payload).length < sigSize := by
    rw [List.length_append, hsize]
    omega
  have hcut : (payload ++ sign privKey payload).length - sigSize = payload.length := by
    rw [List.length_append, hsize]
    omega
  cases after later (expiry now) with
  | true => simp
  | false =>
    rw [if_neg hshort, hcut, List.take_left, List.drop_left]
    show (if false = true then _ else if verify publicKey payload (sign privKey payload) = true
      then none else _) = none ↔ _
    rw [hsign]
    simp

/-- The invite is in time, its nonce is not recorded, and the database works. -/
structure Usable (env : JoinEnv) (store : Store) (nonce : Nonce) (expiresAt : Time) : Prop where
  inTime : after (env.clk.now 0) expiresAt = false
  hasNonce : env.hasNonceErr = none
  saveNonce : env.saveNonceErr = none
  unused : store.hasNonce nonce = false

/-- **When `Validate` lets it through.** -/
theorem letThrough_issued_iff (hfits : (issuedToken publicKey endpoints nonce now).Fits)
    (hsigned : SignedBy sign verify privKey (issuedToken publicKey endpoints nonce now))
    (hnow : now.jsonOK = true) (env : JoinEnv) (store : Store) (tok : Token) :
    LetThrough verify env
        (.ok (issuedText sign privKey (issuedToken publicKey endpoints nonce now))) store tok
      ↔ tok = issuedToken publicKey endpoints nonce now
        ∧ Usable env store nonce (expiry now) := by
  have hdecode : decode (issuedText sign privKey (issuedToken publicKey endpoints nonce now))
      = .ok (issuedToken publicKey endpoints nonce now) := decode_issued hfits hsigned hnow
  have hval : (validate verify (issuedToken publicKey endpoints nonce now)
        (issuedText sign privKey (issuedToken publicKey endpoints nonce now)) (env.clk.now 0)
        env.hasNonceErr env.saveNonceErr store.toNonceStore).2 = none
      ↔ Usable env store nonce (expiry now) := by
    constructor
    · intro h
      obtain ⟨hcheck, hhas, hsave, hunused, -⟩ := validate_ok_iff.mp (Prod.ext rfl h)
      exact ⟨(checkToken_issued hsigned _).mp hcheck, hhas, hsave, hunused⟩
    · intro h
      rw [validate_ok_iff.mpr ⟨(checkToken_issued hsigned _).mpr h.inTime, h.hasNonce,
        h.saveNonce, h.unused, rfl⟩]
  constructor
  · rintro ⟨raw, hraw, hdec, hv⟩
    cases hraw
    rw [hdecode] at hdec
    cases hdec
    exact ⟨rfl, hval.mp hv⟩
  · rintro ⟨rfl, husable⟩
    exact ⟨_, rfl, hdecode, hval.mpr husable⟩

theorem routes_eq_nil_iff {endpoints : List GoString} :
    routes endpoints = [] ↔ endpoints = [] := by
  constructor
  · intro h
    cases endpoints with
    | nil => rfl
    | cons ep endpoints =>
      exfalso
      unfold routes at h
      cases hep : isRelay ep with
      | true => simp [hep] at h
      | false => simp [hep] at h
  · rintro rfl
    rfl

/-- An invite that is spent in vain: no connection, no record of a peer, and the nonce
recorded. -/
structure SpentInVain (store : Store) (tok : Token) (out : Joined) : Prop where
  result : out.result = .error ⟨"invalid_token", "invite has no endpoints"⟩
  conn : out.conn = none
  stored : out.store = spent store tok
  peers : ∀ n, out.store.getPeer n = store.getPeer n
  nonces : ∀ n, out.store.hasNonce n = true ↔ store.hasNonce n = true ∨ n = tok.nonce

/-- Where an invite leads whoever takes it, wherever and whenever. -/
structure LeadsHome (verify : GoString → GoString → GoString → Bool) (tok : Token)
    (ways : List Route) (raw : GoString) : Prop where
  /-- A join succeeds exactly if the invite is usable and one of the ways is open. -/
  joins : ∀ env w store, (∃ peerID, (handleJoinIn verify env w (.ok raw) store).result = .ok peerID)
    ↔ Usable env store tok.nonce tok.expiresAt
      ∧ ∃ m conn, FirstOk (w.attempt (Sha256.sum256 tok.publicKey)) 0 ways m conn
  /-- It has then connected to the key of the invite, and recorded it. -/
  home : ∀ env w store peerID,
    (handleJoinIn verify env w (.ok raw) store).result = .ok peerID →
      LeadsTo env store tok (handleJoinIn verify env w (.ok raw) store) peerID
  /-- With no way to offer, an invite is spent in vain. -/
  dead : ways = [] → ∀ env w store, Usable env store tok.nonce tok.expiresAt →
    SpentInVain store tok (handleJoinIn verify env w (.ok raw) store)

theorem leadsHome_issued (hfits : (issuedToken publicKey endpoints nonce now).Fits)
    (hsigned : SignedBy sign verify privKey (issuedToken publicKey endpoints nonce now))
    (hnow : now.jsonOK = true) :
    LeadsHome verify (issuedToken publicKey endpoints nonce now) (routes endpoints)
      (issuedText sign privKey (issuedToken publicKey endpoints nonce now)) := by
  have hiff := letThrough_issued_iff hfits hsigned hnow
  -- a join of this text stops at `Validate` or goes on with this token
  have hjoin : ∀ env w store,
      (¬ Usable env store nonce (expiry now)
        ∧ ∃ info, handleJoinIn verify env w
            (.ok (issuedText sign privKey (issuedToken publicKey endpoints nonce now))) store
          = ⟨store, .error info, none⟩)
      ∨ (Usable env store nonce (expiry now)
        ∧ handleJoinIn verify env w
            (.ok (issuedText sign privKey (issuedToken publicKey endpoints nonce now))) store
          = joinWith env w (issuedToken publicKey endpoints nonce now) store) := by
    intro env w store
    rcases handleJoinIn_cases verify env w _ store with ⟨hnone, hres⟩ | ⟨tok, hlet, hres⟩
    · refine Or.inl ⟨fun husable => ?_, hres⟩
      exact hnone _ ((hiff env store _).mpr ⟨rfl, husable⟩)
    · obtain ⟨rfl, husable⟩ := (hiff env store tok).mp ((hlet tok).mpr rfl)
      exact Or.inr ⟨husable, hres⟩
  constructor
  · intro env w store
    rcases hjoin env w store with ⟨hnot, info, hres⟩ | ⟨husable, hres⟩
    · rw [hres]
      refine iff_of_false ?_ (fun h => hnot h.1)
      rintro ⟨peerID, hok⟩
      cases hok
    · rw [hres, joinWith_ok_iff]
      exact ⟨fun h => ⟨husable, h⟩, fun h => h.2⟩
  · intro env w store peerID hok
    rcases hjoin env w store with ⟨-, info, hres⟩ | ⟨-, hres⟩
    · rw [hres] at hok
      cases hok
    · rw [hres] at hok ⊢
      exact joinWith_leadsTo hok
  · intro hways env w store husable
    rcases hjoin env w store with ⟨hnot, -⟩ | ⟨-, hres⟩
    · exact absurd husable hnot
    · have hdead : joinWith env w (issuedToken publicKey endpoints nonce now) store
          = ⟨spent store (issuedToken publicKey endpoints nonce now),
              .error ⟨"invalid_token", "invite has no endpoints"⟩, none⟩ :=
        if_pos (routes_eq_nil_iff.mp hways)
      rw [hres, hdead]
      exact ⟨rfl, rfl, rfl, fun _ => rfl, hasNonce_spent store _⟩

end Issued

/-! ## §3. The invites of the daemon and of the tool. -/

/-- **AN INVITE LEADS HOME.**  What the daemon and the tool issue is understood
everywhere: a join with it succeeds exactly if it is made within a day on a node that
has not used it, and one of the ways is open that the issuer had to offer.  It then
leads to the issuer's key.  Of Ed25519 only this is assumed, that it accepts its own
signature of what is issued. -/
theorem invite_leads_home (libs : IpcLibs) (d : DaemonState) {nonce : Nonce}
    (hkey : d.publicKey.length = pubkeySize) (hnonce : d.nonce = .ok nonce)
    (hspec : libs.specified (ascii "relay") = false) :
    ((∀ ep ∈ inviteEndpoints libs d, ep.length ≤ 0xFFFF) →
      SignedBy libs.sign libs.verify d.privKey
        (issuedToken d.publicKey (inviteEndpoints libs d) nonce (d.env.clk.now 0)) →
      ∃ raw, handleInvite libs.sign d.privKey d.publicKey (inviteEndpoints libs d) d.nonce
          (d.env.clk.now 0) = .ok raw
        ∧ LeadsHome libs.verify
          (issuedToken d.publicKey (inviteEndpoints libs d) nonce (d.env.clk.now 0))
          (ways libs d) raw)
    ∧ ∀ listenAddr relayAddr, (∀ ep ∈ cmdInviteEndpoints listenAddr relayAddr,
        ep.length ≤ 0xFFFF) →
      SignedBy libs.sign libs.verify d.privKey
        (issuedToken d.publicKey (cmdInviteEndpoints listenAddr relayAddr) nonce
          (d.env.clk.now 0)) →
      ∃ raw, cmdInvite libs.sign d.privKey d.publicKey listenAddr relayAddr d.nonce
          (d.env.clk.now 0) = .ok raw
        ∧ LeadsHome libs.verify
          (issuedToken d.publicKey (cmdInviteEndpoints listenAddr relayAddr) nonce
            (d.env.clk.now 0))
          (routes (cmdInviteEndpoints listenAddr relayAddr)) raw := by
  have hnow := d.env.clk.inRange 0
  rw [hnonce]
  constructor
  · intro hends hsigned
    have hcount : (inviteEndpoints libs d).length ≤ 0xFFFF := by
      unfold inviteEndpoints
      split <;> split <;> simp
    have hfits := (⟨hkey, hcount, hends⟩ :
      (issuedToken d.publicKey (inviteEndpoints libs d) nonce (d.env.clk.now 0)).Fits)
    refine ⟨_, handleInvite_issued libs.sign d.privKey hfits, ?_⟩
    rw [← routes_inviteEndpoints hspec d]
    exact leadsHome_issued hfits hsigned hnow
  · intro listenAddr relayAddr hends hsigned
    have hcount : (cmdInviteEndpoints listenAddr relayAddr).length ≤ 0xFFFF := by
      unfold cmdInviteEndpoints
      split
      · split <;> split <;> simp
      · split <;> simp
    have hfits := (⟨hkey, hcount, hends⟩ :
      (issuedToken d.publicKey (cmdInviteEndpoints listenAddr relayAddr) nonce
        (d.env.clk.now 0)).Fits)
    exact ⟨_, cmdInvite_issued libs.sign d.privKey hfits,
      leadsHome_issued hfits hsigned hnow⟩

/-- The signature of the invite, and `ParseIP` for IPv4. -/
def inviteIpc : IpcLibs where
  unmarshal _ := .error "unexpected end of JSON input"
  param _ _ := .error "unexpected end of JSON input"
  rfc3339 _ := ascii "1970-01-01T00:00:00Z"
  specified host := (parseIPv4 host).isSome && decide (host ≠ ascii "0.0.0.0")
  sign := signInvite
  verify := verifyInvite

/-- The inviter's daemon, a day before the invite expires. -/
def inviterDaemon (listenAddr : GoString) : DaemonState where
  nodeID := Sha256.sum256 inviterKey
  privKey := []
  publicKey := inviterKey
  store := .openFresh
  listPeersErr := none
  nilEndpoints := fun _ => true
  catalog := .openFresh (Sha256.sum256 inviterKey)
  listAllErr := none
  listenAddr := listenAddr
  sharedDir := ascii "/srv"
  relayAddr := []
  nonce := .ok inviteNonce
  env := .good ⟨fun _ => Time.ofUnix (1800000000 - 86400), fun _ => by decide⟩

theorem issuedToken_invite :
    issuedToken inviterKey [ascii "127.0.0.1:5000"] inviteNonce (Time.ofUnix (1800000000 - 86400))
      = inviteToken := by
  decide +kernel

/-- The signature of the invite is that of the token. -/
theorem signedBy_invite (privKey : GoString) :
    SignedBy inviteIpc.sign inviteIpc.verify privKey inviteToken := by
  unfold inviteIpc
  dsimp only
  refine ⟨length_signInvite _ _, ?_⟩
  unfold verifyInvite signInvite
  rw [inviteText_eq]
  decide +kernel

/-- The daemon offers the address it listens on, and so does the tool: both issue the
invite, and it leads home. -/
theorem invite_leads_home_direct :
    let d := inviterDaemon (ascii "127.0.0.1:5000")
    let direct := [Route.direct (ascii "127.0.0.1:5000")]
    (∃ raw, handleInvite inviteIpc.sign d.privKey d.publicKey (inviteEndpoints inviteIpc d) d.nonce
        (d.env.clk.now 0) = .ok raw ∧ LeadsHome inviteIpc.verify inviteToken direct raw)
    ∧ ∃ raw, cmdInvite inviteIpc.sign d.privKey d.publicKey (ascii "127.0.0.1:5000") [] d.nonce
        (d.env.clk.now 0) = .ok raw ∧ LeadsHome inviteIpc.verify inviteToken direct raw := by
  intro d direct
  have hends : inviteEndpoints inviteIpc d = [ascii "127.0.0.1:5000"] := by decide +kernel
  have hcmd : cmdInviteEndpoints (ascii "127.0.0.1:5000") [] = [ascii "127.0.0.1:5000"] := by
    decide +kernel
  have hways : ways inviteIpc d = direct := by decide +kernel
  have hroutes : routes [ascii "127.0.0.1:5000"] = direct := by decide +kernel
  have htok : issuedToken d.publicKey [ascii "127.0.0.1:5000"] inviteNonce (d.env.clk.now 0)
      = inviteToken := issuedToken_invite
  obtain ⟨hdaemon, htool⟩ := invite_leads_home inviteIpc d rfl
    (show d.nonce = .ok inviteNonce from rfl) (by decide +kernel)
  have htool := htool (ascii "127.0.0.1:5000") []
  rw [hends, hways, htok] at hdaemon
  rw [hcmd, hroutes, htok] at htool
  rw [hends]
  exact ⟨hdaemon (by decide +kernel) (signedBy_invite _), htool (by decide +kernel) (signedBy_invite _)⟩

/-- With the default settings there is nothing to offer. -/
example : ways inviteIpc (inviterDaemon (ascii "[::]:7777")) = [] := by decide +kernel

end Kin.Daemon
