/-
  Kin.Daemon.Frame

  **WHAT PEERS CAN DO TO THE LOCAL CATALOG.**

  The connections of a daemon come from `acceptLoop` and `handleJoin`, each with
  the id of the key the other side has proved to hold; `Serve` stores the offers
  it receives under that id.  Nobody compares the id with the node's own, which
  is the id the LOCAL entries are stored under.

    • `step_catalog` — what a step does to the catalog,
    • `localKept_iff` — which steps leave the local entries as they are,
    • `local_catalog_kept_iff` — every run.
-/
import Kin.Daemon.Invites
import Kin.Protocol.Broadcast
import Kin.Protocol.Offer

namespace Kin.Daemon

open Kin.Lib Kin.Invite Kin.Catalog Kin.Kinpb

/-! ## §1. The daemon. -/

/-- The daemon process. -/
structure Process where
  /-- The node's own key; its id is the hash of it. -/
  publicKey : GoString
  peers : Peerstore.Store
  proto : Protocol.Handler

namespace Process

def nodeID (d : Process) : NodeID := Sha256.sum256 d.publicKey

/-- `Run`: the catalog is opened with the node's id. -/
def start (publicKey : GoString) (peers : Peerstore.Store) (db : DB)
    (sender : Transfer.Sender) : Process :=
  ⟨publicKey, peers, Protocol.Handler.new ⟨db, Sha256.sum256 publicKey⟩ sender⟩

/-- `Run` on the catalog that earlier operations have left. -/
def restart (publicKey : GoString) (peers : Peerstore.Store) (ops : List Op)
    (sender : Transfer.Sender) : Process :=
  start publicKey peers (Op.applyAll (Store.openFresh (Sha256.sum256 publicKey)) ops).db sender

inductive Act where
  /-- `acceptLoop` gets a connection whose certificate has the key. -/
  | accept (publicKey : GoString) (now : Time)
  | join (params : Except String GoString) (env : JoinEnv)
  /-- The watcher writes the catalog and broadcasts it. -/
  | putLocal (clk : Clock) (entry : Entry)
  | deleteLocal (clk : Clock) (fileID : FileID)
  /-- A step of a `Serve` call or of a broadcast. -/
  | proto (a : Protocol.Act)

/-- The handler after a step of its own. -/
def withProto (d : Process) (a : Protocol.Act) : Option Process :=
  (Protocol.step d.proto a).map (fun proto => { d with proto := proto })

/-- One step.  `Serve` is called by `acceptLoop` and `handleJoin` alone, and the
catalog is written by the watcher and by `handleCatalogOffer` alone. -/
def step (verify : GoString → GoString → GoString → Bool) (d : Process) : Act → Option Process
  | .accept publicKey now =>
    let (peers, peerID) := acceptConn now publicKey d.peers
    { d with peers := peers }.withProto (.serve peerID)
  | .join params env =>
    match handleJoin verify env params d.peers with
    | (peers, .ok peerID) => { d with peers := peers }.withProto (.serve peerID)
    | (peers, .error _) => some { d with peers := peers }
  | .putLocal clk entry => d.withProto (.change (.putLocal clk entry))
  | .deleteLocal clk fileID => d.withProto (.change (.deleteLocal clk fileID))
  | .proto (.serve _) => none
  | .proto (.change _) => none
  | .proto a => d.withProto a

/-! ## §2. What is to be kept. -/

/-- The step is the watcher's. -/
def Act.isLocal : Act → Bool
  | .putLocal _ _ => true
  | .deleteLocal _ _ => true
  | _ => false

/-- The entries stored under the node's id, and their listing, are the same. -/
def SameLocal (d d' : Process) : Prop :=
  (∀ f, d'.proto.catalog.getEntry d'.nodeID f = d.proto.catalog.getEntry d.nodeID f)
    ∧ d'.proto.catalog.listLocal = d.proto.catalog.listLocal

/-- The same up to `UpdatedAt`. -/
def SameLocalUntimed (d d' : Process) : Prop :=
  ∀ f, (d'.proto.catalog.getEntry d'.nodeID f).map Entry.untimed
    = (d.proto.catalog.getEntry d.nodeID f).map Entry.untimed

/-- A step that is not the watcher's keeps the local entries. -/
def LocalKept (verify : GoString → GoString → GoString → Bool) (d : Process) (a : Act) : Prop :=
  a.isLocal = false → ∀ d', d.step verify a = some d' → d.SameLocal d'

/-- It keeps them up to `UpdatedAt`. -/
def LocalKeptUntimed (verify : GoString → GoString → GoString → Bool) (d : Process) (a : Act) :
    Prop :=
  a.isLocal = false → ∀ d', d.step verify a = some d' → d.SameLocalUntimed d'

/-- No connection is opened with the node's own id. -/
def NotSelf (verify : GoString → GoString → GoString → Bool) (d : Process) : Act → Prop
  | .accept publicKey _ => Sha256.sum256 publicKey ≠ d.nodeID
  | .join params env => (handleJoin verify env params d.peers).2 ≠ .ok d.nodeID
  | _ => True

/-- An offer that comes in under the node's own id, and can be stored, offers
the local files as they are recorded. -/
def SelfOfferAgrees (d : Process) : Act → Prop
  | .proto (.recv i _ env) =>
    ∀ c offer, d.proto.calls[i]? = some c → c.peer = d.nodeID →
      env.payload = some (.catalogOffer offer) →
      (∀ x ∈ offer.files, Protocol.wellFormed x = true →
        (Time.ofUnix x.modTimeUnix).jsonOK = true) →
      ∀ f, (d.proto.catalog.getEntry d.nodeID f).map Entry.untimed
        = (Protocol.lastFile f offer.files).map (Protocol.storedFile d.nodeID f)
  | _ => True

/-! ## §3. One step. -/

/-- What a step of the handler, other than a change, does to the catalog. -/
theorem proto_catalog {h h' : Protocol.Handler} {a : Protocol.Act} (hs : Protocol.Step h a h')
    (ha : ∀ op, a ≠ .change op) :
    (∃ i clk env c offer, a = .recv i clk env ∧ h.calls[i]? = some c
        ∧ env.payload = some (.catalogOffer offer)
        ∧ h'.catalog = (Protocol.handleCatalogOffer h.catalog clk c.peer offer).1)
      ∨ (h'.catalog = h.catalog
        ∧ ∀ i clk env offer, a = .recv i clk env → env.payload ≠ some (.catalogOffer offer)) := by
  cases hs with
  | @recv i c clk env hc hpc =>
    cases henv : Transfer.isOffer env with
    | true =>
      obtain ⟨offer, hp⟩ := Transfer.isOffer_iff.mp henv
      refine Or.inl ⟨i, clk, env, c, offer, rfl, hc, hp, ?_⟩
      show (h.dispatch c.peer clk env).1 = _
      unfold Protocol.Handler.dispatch
      rw [hp]
      dsimp only
      split
      next hr => rw [hr]
      next hr => rw [hr]
    | false =>
      refine Or.inr ⟨(Protocol.dispatch_catalog h c.peer clk henv).1, ?_⟩
      intro i' clk' env' offer ha' hp
      injection ha' with _ _ henv'
      rw [henv'] at henv
      rw [Transfer.isOffer_iff.mpr ⟨offer, hp⟩] at henv
      cases henv
  | change hok => exact absurd rfl (ha _)
  | changeFailed hfail => exact absurd rfl (ha _)
  | _ => exact Or.inr ⟨rfl, nofun⟩

/-- An offer leaves every owner but its sender alone. -/
theorem offer_other {s : Store} (hwf : s.db.WF) (clk : Clock) {p n : NodeID} (hn : n ≠ p)
    (offer : CatalogOffer) (f : FileID) :
    (Protocol.handleCatalogOffer s clk p offer).1.getEntry n f = s.getEntry n f := by
  by_cases htimes : ∀ x ∈ offer.files, Protocol.wellFormed x = true →
      (Time.ofUnix x.modTimeUnix).jsonOK = true
  · exact (Protocol.handleCatalogOffer_stores hwf clk p htimes).2.2 n f hn
  · obtain ⟨err, hrefused⟩ := Protocol.handleCatalogOffer_refuses hwf clk p htimes
    rw [hrefused]

/-- An offer leaves its sender's entries as they are, times apart, exactly if it
cannot be stored or offers what is there. -/
theorem offer_own_iff {s : Store} (hwf : s.db.WF) (clk : Clock) (p : NodeID) (offer : CatalogOffer) :
    (∀ f, ((Protocol.handleCatalogOffer s clk p offer).1.getEntry p f).map Entry.untimed
        = (s.getEntry p f).map Entry.untimed)
      ↔ ((∀ x ∈ offer.files, Protocol.wellFormed x = true →
            (Time.ofUnix x.modTimeUnix).jsonOK = true) →
          ∀ f, (s.getEntry p f).map Entry.untimed
            = (Protocol.lastFile f offer.files).map (Protocol.storedFile p f)) := by
  by_cases htimes : ∀ x ∈ offer.files, Protocol.wellFormed x = true →
      (Time.ofUnix x.modTimeUnix).jsonOK = true
  · obtain ⟨_, hstored, _⟩ := Protocol.handleCatalogOffer_stores hwf clk p htimes
    constructor
    · intro h _ f
      rw [← h f]
      exact hstored f
    · intro h f
      rw [h htimes f]
      exact hstored f
  · obtain ⟨err, hrefused⟩ := Protocol.handleCatalogOffer_refuses hwf clk p htimes
    rw [hrefused]
    exact iff_of_true (fun f => rfl) (fun h => absurd h htimes)

/-- The catalog is well-formed and is the node's. -/
structure Opened (d : Process) : Prop where
  wf : d.proto.catalog.db.WF
  self : d.proto.catalog.selfID = d.nodeID

variable {verify : GoString → GoString → GoString → Bool} {d d' : Process} {a : Act}

theorem withProto_eq_some {a : Protocol.Act} (h : d.withProto a = some d') :
    ∃ proto, Protocol.Step d.proto a proto ∧ d' = { d with proto := proto } := by
  obtain ⟨proto, hp, rfl⟩ := Option.map_eq_some_iff.mp h
  exact ⟨proto, Protocol.step_sound hp, rfl⟩

/-- **What a step is**: a `Serve` call begins, a join fails, the watcher writes,
or the handler takes a step of its own. -/
theorem step_cases (hs : d.step verify a = some d') :
    (∃ peers peerID, (d.NotSelf verify a → peerID ≠ d.nodeID)
        ∧ a.isLocal = false ∧ (∀ b, a ≠ .proto b)
        ∧ d' = { d with peers := peers, proto := d.proto.register peerID })
      ∨ (∃ peers, a.isLocal = false ∧ (∀ b, a ≠ .proto b) ∧ d' = { d with peers := peers })
      ∨ (∃ op proto, a.isLocal = true ∧ Protocol.Step d.proto (.change op) proto
        ∧ d' = { d with proto := proto })
      ∨ ∃ b proto, a = .proto b ∧ (∀ op, b ≠ .change op) ∧ (∀ peer, b ≠ .serve peer)
        ∧ Protocol.Step d.proto b proto ∧ d' = { d with proto := proto } := by
  cases a with
  | accept publicKey now =>
    exact Or.inl ⟨_, Sha256.sum256 publicKey, id, rfl, nofun, (Option.some.inj hs).symm⟩
  | join params env =>
    simp only [step] at hs
    split at hs
    next peers peerID hj =>
      refine Or.inl ⟨peers, peerID, fun hself heq => hself ?_, rfl, nofun,
        (Option.some.inj hs).symm⟩
      rw [hj, heq]
    next peers err hj => exact Or.inr (Or.inl ⟨peers, rfl, nofun, (Option.some.inj hs).symm⟩)
  | putLocal clk entry | deleteLocal clk fileID =>
    obtain ⟨proto, hp, hd⟩ := withProto_eq_some hs
    exact Or.inr (Or.inr (Or.inl ⟨_, proto, rfl, hp, hd⟩))
  | proto b =>
    refine Or.inr (Or.inr (Or.inr ?_))
    cases b with
    | serve peer => cases hs
    | change op => cases hs
    | _ =>
      obtain ⟨proto, hp, hd⟩ := withProto_eq_some hs
      exact ⟨_, proto, rfl, nofun, nofun, hp, hd⟩

/-- **What a step does to the catalog**, if it is not the watcher's. -/
theorem step_catalog (ha : a.isLocal = false) (hs : d.step verify a = some d') :
    d'.nodeID = d.nodeID
      ∧ ((∃ i clk env c offer, a = .proto (.recv i clk env) ∧ d.proto.calls[i]? = some c
            ∧ env.payload = some (.catalogOffer offer)
            ∧ d'.proto.catalog = (Protocol.handleCatalogOffer d.proto.catalog clk c.peer offer).1)
        ∨ (d'.proto.catalog = d.proto.catalog ∧ d.SelfOfferAgrees a)) := by
  have hagree : (∀ i clk env offer, a = .proto (.recv i clk env) →
      env.payload ≠ some (.catalogOffer offer)) → d.SelfOfferAgrees a := by
    intro hno
    unfold SelfOfferAgrees
    split
    · intro c offer _ _ hp
      exact absurd hp (hno _ _ _ offer rfl)
    · trivial
  rcases step_cases hs with ⟨peers, peerID, _, _, hproto, rfl⟩ | ⟨peers, _, hproto, rfl⟩
    | ⟨op, proto, hlocal, _⟩ | ⟨b, proto, rfl, hchange, _, hp, rfl⟩
  · exact ⟨rfl, Or.inr ⟨rfl, hagree (fun _ _ _ _ h => absurd h (hproto _))⟩⟩
  · exact ⟨rfl, Or.inr ⟨rfl, hagree (fun _ _ _ _ h => absurd h (hproto _))⟩⟩
  · rw [ha] at hlocal
    cases hlocal
  · refine ⟨rfl, ?_⟩
    rcases proto_catalog hp hchange with ⟨i, clk, env, c, offer, rfl, hc, hpay, hcat⟩ | ⟨hcat, hno⟩
    · exact Or.inl ⟨i, clk, env, c, offer, rfl, hc, hpay, hcat⟩
    · refine Or.inr ⟨hcat, hagree (fun i clk env offer h => hno i clk env offer ?_)⟩
      injection h

theorem opened_step (hs : d.step verify a = some d') (h : d.Opened) : d'.Opened := by
  have hoffer : ∀ clk p offer,
      (Protocol.handleCatalogOffer d.proto.catalog clk p offer).1.db.WF
        ∧ (Protocol.handleCatalogOffer d.proto.catalog clk p offer).1.selfID = d.nodeID := by
    intro clk p offer
    rw [Protocol.handleCatalogOffer_store]
    exact ⟨Op.apply_wf h.wf (.putPeerEntries clk p (Protocol.acceptFiles offer.files)),
      (Op.selfID_apply (.putPeerEntries clk p (Protocol.acceptFiles offer.files))).trans h.self⟩
  cases ha : a.isLocal with
  | false =>
    obtain ⟨hid, ⟨i, clk, env, c, offer, _, _, _, hcat⟩ | ⟨hcat, _⟩⟩ := step_catalog ha hs
    · refine ⟨?_, ?_⟩
      · rw [hcat]
        exact (hoffer clk c.peer offer).1
      · rw [hcat, hid]
        exact (hoffer clk c.peer offer).2
    · refine ⟨?_, ?_⟩
      · rw [hcat]
        exact h.wf
      · rw [hcat, hid]
        exact h.self
  | true =>
    rcases step_cases hs with ⟨_, _, _, hl, _⟩ | ⟨_, hl, _⟩ | ⟨op, proto, _, hp, rfl⟩
      | ⟨b, _, rfl, _⟩
    · rw [ha] at hl
      cases hl
    · rw [ha] at hl
      cases hl
    · cases hp with
      | change hok => exact ⟨Op.apply_wf h.wf op, (Op.selfID_apply op).trans h.self⟩
      | changeFailed hfail => exact h
    · cases ha

/-- **One step, up to the times**: the local entries stay exactly if an offer
under the node's own id offers what is recorded. -/
theorem localKeptUntimed_iff (h : d.Opened) (hs : d.step verify a = some d') :
    d.LocalKeptUntimed verify a ↔ d.SelfOfferAgrees a := by
  have hkept : d.LocalKeptUntimed verify a ↔ (a.isLocal = false → d.SameLocalUntimed d') := by
    refine ⟨fun hk ha => hk ha d' hs, fun hk ha d'' hs' => ?_⟩
    rw [hs] at hs'
    rw [← Option.some.inj hs']
    exact hk ha
  rw [hkept]
  cases ha : a.isLocal with
  | true =>
    refine iff_of_true nofun ?_
    cases a with
    | putLocal clk entry => trivial
    | deleteLocal clk fileID => trivial
    | _ => cases ha
  | false =>
    obtain ⟨hid, hcat⟩ := step_catalog ha hs
    unfold SameLocalUntimed
    rw [hid]
    rcases hcat with ⟨i, clk, env, c, offer, rfl, hc, hpay, hcat⟩ | ⟨hcat, hagrees⟩
    · rw [hcat]
      -- what the condition says of this call and this offer
      have hcond : d.SelfOfferAgrees (.proto (.recv i clk env)) ↔ (c.peer = d.nodeID →
          (∀ x ∈ offer.files, Protocol.wellFormed x = true →
            (Time.ofUnix x.modTimeUnix).jsonOK = true) →
          ∀ f, (d.proto.catalog.getEntry d.nodeID f).map Entry.untimed
            = (Protocol.lastFile f offer.files).map (Protocol.storedFile d.nodeID f)) := by
        refine ⟨fun hag hpeer => hag c offer hc hpeer hpay, fun hag c' offer' hc' hpeer hpay' => ?_⟩
        rw [hc] at hc'
        rw [hpay] at hpay'
        injection hpay' with hpay'
        injection hpay' with hpay'
        rw [← hpay']
        exact hag (Option.some.inj hc' ▸ hpeer)
      rw [hcond]
      by_cases hpeer : c.peer = d.nodeID
      · rw [← hpeer]
        simp only [forall_const]
        exact offer_own_iff h.wf clk c.peer offer
      · refine iff_of_true (fun _ f => ?_) (fun heq => absurd heq hpeer)
        rw [offer_other h.wf clk (Ne.symm hpeer)]
    · rw [hcat]
      exact iff_of_true (fun _ _ => rfl) hagrees

/-- No connection has the node's own id. -/
def NoSelfCall (d : Process) : Prop :=
  ∀ (i : Nat) (c : Protocol.ServeCall), d.proto.calls[i]? = some c → c.peer ≠ d.nodeID

theorem noSelfCall_step (hs : d.step verify a = some d') (hself : d.NotSelf verify a)
    (h : d.NoSelfCall) : d'.NoSelfCall := by
  -- a step of the handler gives no call another peer
  have hproto : ∀ {b proto}, Protocol.Step d.proto b proto → (∀ peer, b ≠ .serve peer) →
      ∀ (i : Nat) (c : Protocol.ServeCall), proto.calls[i]? = some c → c.peer ≠ d.nodeID := by
    intro b proto hp hb i c hc
    rcases hp.call hc with ⟨peer, hserve, _⟩ | ⟨c₀, hc₀, rfl | hm⟩
    · exact absurd hserve (hb peer)
    · exact h i c hc₀
    · rw [hm.peer_since.1]
      exact h i c₀ hc₀
  rcases step_cases hs with ⟨peers, peerID, hne, _, _, rfl⟩ | ⟨peers, _, _, rfl⟩
    | ⟨op, proto, _, hp, rfl⟩ | ⟨b, proto, _, _, hserve, hp, rfl⟩
  · intro i c hc
    rcases getElem?_concat_cases (l := d.proto.calls) hc with ⟨_, rfl⟩ | hold
    · exact hne hself
    · exact h i c hold
  · exact h
  · exact hproto hp nofun
  · exact hproto hp hserve

/-- **One step**: with no connection under the node's own id, the local entries
stay what they are. -/
theorem localKept_of_noSelfCall (h : d.Opened) (hno : d.NoSelfCall) : d.LocalKept verify a := by
  intro ha d' hs
  obtain ⟨hid, hcat⟩ := step_catalog ha hs
  have hopened := opened_step hs h
  have hentries : ∀ f, d'.proto.catalog.getEntry d'.nodeID f
      = d.proto.catalog.getEntry d.nodeID f := by
    intro f
    rw [hid]
    rcases hcat with ⟨i, clk, env, c, offer, _, hc, _, hcat⟩ | ⟨hcat, _⟩
    · rw [hcat, offer_other h.wf clk (Ne.symm (hno i c hc))]
    · rw [hcat]
  refine ⟨hentries, ?_⟩
  unfold Store.listLocal Store.listByOwner
  rw [hopened.self, h.self, hid]
  refine listByPrefixTx_congr hopened.wf h.wf fun f => ?_
  rw [← hid, ← Store.getEntry_eq, hentries f, hid]
  rfl

/-! ## §4. Every run. -/

/-- **EVERY RUN.**  A daemon starts on any peer store and on the catalog that
any operations have left; connections are accepted and opened, and messages
received, in any order.  Up to `UpdatedAt`, only the watcher changes the local
entries if and only if every offer that comes in under the node's own id and can
be stored offers just these entries.  If no connection has the node's own id,
only the watcher changes them, and `UpdatedAt` is no exception. -/
theorem local_catalog_kept_iff (verify : GoString → GoString → GoString → Bool)
    (publicKey : GoString) (peers : Peerstore.Store) (ops : List Op) (sender : Transfer.Sender)
    (as : List Act) :
    (StepsMeet (step verify) (LocalKeptUntimed verify) (restart publicKey peers ops sender) as
        ↔ StepsMeet (step verify) SelfOfferAgrees (restart publicKey peers ops sender) as)
    ∧ (StepsMeet (step verify) (NotSelf verify) (restart publicKey peers ops sender) as →
        StepsMeet (step verify) (LocalKept verify) (restart publicKey peers ops sender) as) := by
  have hopened : (restart publicKey peers ops sender).Opened :=
    ⟨Op.applyAll_wf ops DB.wf_empty, rfl⟩
  refine ⟨⟨fun h => ?_, fun h => ?_⟩, fun h => ?_⟩
  · exact h.mono_of_invariant (J := Opened) (fun _ _ _ ho _ hs => opened_step hs ho)
      (fun _ _ _ ho hk hs => (localKeptUntimed_iff ho hs).mp hk) hopened
  · exact h.mono_of_invariant (J := Opened) (fun _ _ _ ho _ hs => opened_step hs ho)
      (fun _ _ _ ho hag hs => (localKeptUntimed_iff ho hs).mpr hag) hopened
  · refine h.mono_of_invariant (J := fun d => d.Opened ∧ d.NoSelfCall)
      (fun _ _ _ ho hself hs => ⟨opened_step hs ho.1, noSelfCall_step hs hself ho.2⟩)
      (fun _ _ _ ho _ _ => localKept_of_noSelfCall ho.1 ho.2) ⟨hopened, fun i c hc => ?_⟩
    cases hc

/-! ## §5. A node that joins with its own link. -/

/-- The file `/Kin/a.txt`. -/
def localFile : Entry where
  fileID := Bytes.lit32 1
  name := ascii "a.txt"
  size := 10
  modTime := Time.ofUnix 1700000000
  ownerNodeID := Bytes.lit32 0
  localPath := ascii "/Kin/a.txt"
  deleted := false
  updatedAt := zeroTime

/-- The node that made the invite, with nothing in its databases. -/
def inviter : Process :=
  start inviterKey Peerstore.Store.openFresh DB.empty ⟨∅, ⟨fun _ => none, fun _ => .error "no file"⟩⟩

/-- The watcher indexes the file; the node joins with its own link, and accepts
the connection; both ends send their offers. -/
def joinSelfRun : List Act :=
  [.putLocal inviteClock localFile, .join (.ok inviteText) (JoinEnv.good inviteClock),
    .accept inviterKey (Time.ofUnix 1799920000), .proto (.listOffer 0), .proto (.sendOffer 0),
    .proto (.listOffer 1), .proto (.sendOffer 1)]

/-- The end that accepted receives the offer of the end that joined. -/
def offerReceived : Act := .proto (.recv 1 inviteClock (Protocol.offerMsg ⟨[]⟩))

/-- The offer, which names none of the node's own files, replaces the local
catalog. -/
theorem joining_oneself_empties_catalog :
    ∃ d ∈ run (step verifyInvite) inviter joinSelfRun, ∃ d' ∈ d.step verifyInvite offerReceived,
      (d.proto.calls.map Protocol.ServeCall.peer = [inviter.nodeID, inviter.nodeID]
        ∧ d.proto.calls.map Protocol.ServeCall.sent
          = [[Protocol.offerMsg ⟨[]⟩], [Protocol.offerMsg ⟨[]⟩]])
        ∧ d.proto.catalog.listLocal.map Entry.localPath = [ascii "/Kin/a.txt"]
        ∧ d'.proto.catalog.listLocal = [] ∧ ¬ d.LocalKept verifyInvite offerReceived := by
  have hend : ∃ d ∈ run (step verifyInvite) inviter joinSelfRun,
      ∃ d' ∈ d.step verifyInvite offerReceived,
        (d.proto.calls.map Protocol.ServeCall.peer = [inviter.nodeID, inviter.nodeID]
          ∧ d.proto.calls.map Protocol.ServeCall.sent
            = [[Protocol.offerMsg ⟨[]⟩], [Protocol.offerMsg ⟨[]⟩]])
          ∧ d.proto.catalog.listLocal.map Entry.localPath = [ascii "/Kin/a.txt"]
          ∧ d'.proto.catalog.listLocal = [] := by
    unfold joinSelfRun verifyInvite
    rw [inviteText_eq]
    decide +kernel
  obtain ⟨d, hd, d', hd', hcalls, hbefore, hafter⟩ := hend
  refine ⟨d, hd, d', hd', hcalls, hbefore, hafter, fun hkept => ?_⟩
  have hsame := (hkept rfl d' hd').2
  rw [← hsame, hafter] at hbefore
  cases hbefore

end Process

end Kin.Daemon
