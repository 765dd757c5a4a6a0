/-
  Kin.Daemon.Invites

  **ONE INVITE, MANY NODES.**

  A link is sent to whoever it may concern.  Each node that joins with it asks
  its OWN peer store for the nonce; the node that made the link is told nothing
  and its `acceptLoop` looks at no token.  Calls do not overlap here.

    • `Net.step` — any nodes invite, join and accept, one call after the other,
    • `joined_step_iff` — a second success for a token comes from ANOTHER node,
    • `joined_once_iff` — every run.
-/
import Kin.Daemon.Handler

namespace Kin.Daemon

open Kin.Lib Kin.Invite Kin.Peerstore

/-! ## §1. The nodes. -/

structure Node where
  privKey : GoString
  publicKey : GoString
  /-- What `handleInvite` has to offer: the listener's address, the relay's. -/
  endpoints : List GoString
  store : Store

structure Net (N : Type) where
  nodes : N → Node
  /-- History: the links that were made. -/
  issued : List (N × GoString)
  /-- History: the joins that succeeded. -/
  joined : List (N × Token)

/-- The nodes have just been started on their stores. -/
def Net.new {N : Type} (nodes : N → Node) : Net N := ⟨nodes, [], []⟩

inductive Net.Act (N : Type) where
  | invite (v : N) (nonce : Except String Nonce) (now : Time)
  | join (v : N) (params : Except String GoString) (env : JoinEnv)
  /-- `acceptLoop` gets a connection whose certificate has the key. -/
  | accept (v : N) (publicKey : GoString) (now : Time)

section Net

variable {N : Type} [DecidableEq N] (sign : GoString → GoString → GoString)
  (verify : GoString → GoString → GoString → Bool)

def Net.setStore (net : Net N) (v : N) (store : Store) : Net N :=
  { net with nodes := fun w => if w = v then { net.nodes w with store := store } else net.nodes w }

/-- The response of the join. -/
def Net.response (net : Net N) (v : N) (params : Except String GoString) (env : JoinEnv) :
    Except ErrorInfo NodeID :=
  (handleJoin verify env params (net.nodes v).store).2

/-- The node joins with the token, successfully. -/
def Net.Joins (net : Net N) (tok : Token) (v : N) (params : Except String GoString)
    (env : JoinEnv) : Prop :=
  requestToken params = some tok ∧ (net.response verify v params env).isOk = true

/-- One call. -/
def Net.step (net : Net N) : Net.Act N → Option (Net N)
  | .invite v nonce now =>
    match handleInvite sign (net.nodes v).privKey (net.nodes v).publicKey (net.nodes v).endpoints
      nonce now with
    | .ok raw => some { net with issued := net.issued ++ [(v, raw)] }
    | .error _ => some net
  | .join v params env =>
    let net' := net.setStore v (handleJoin verify env params (net.nodes v).store).1
    match requestToken params, net.response verify v params env with
    | some tok, .ok _ => some { net' with joined := net.joined ++ [(v, tok)] }
    | _, _ => some net'
  | .accept v publicKey now =>
    some (net.setStore v (acceptConn now publicKey (net.nodes v).store).1)

/-! ## §2. One step. -/

/-- At most one join with the token has succeeded. -/
def Net.JoinedOnce (tok : Token) (net : Net N) : Prop :=
  (net.joined.filter (fun j => j.2 = tok)).length ≤ 1

/-- No other node has joined with the token when a node gets through with it. -/
def Net.FirstNode (tok : Token) (net : Net N) : Net.Act N → Prop
  | .join v params env =>
    GetsThrough verify env params (net.nodes v).store tok → ∀ w, (w, tok) ∈ net.joined → w = v
  | _ => True

/-- The nonces of the tokens a node has joined with are recorded in its store. -/
def Net.Recorded (net : Net N) : Prop :=
  ∀ v tok, (v, tok) ∈ net.joined → (net.nodes v).store.hasNonce tok.nonce = true

variable {sign verify} {net net' : Net N} {a : Net.Act N}

omit [DecidableEq N] in
theorem Net.joins_iff {tok : Token} {v : N} {params : Except String GoString} {env : JoinEnv} :
    net.Joins verify tok v params env ↔ GetsThrough verify env params (net.nodes v).store tok :=
  handleJoin_isOk_iff

theorem Net.setStore_store (net : Net N) (v w : N) (store : Store) :
    ((net.setStore v store).nodes w).store = if w = v then store else (net.nodes w).store := by
  unfold Net.setStore
  by_cases h : w = v
  · simp [h]
  · simp [h]

/-- A nonce that is recorded stays recorded, in every store. -/
theorem Net.step_hasNonce (hs : net.step sign verify a = some net') {w : N} {n : Nonce}
    (hn : (net.nodes w).store.hasNonce n = true) : (net'.nodes w).store.hasNonce n = true := by
  have hset : ∀ {v : N} {store : Store},
      ((net.nodes v).store.hasNonce n = true → store.hasNonce n = true) →
      ((net.setStore v store).nodes w).store.hasNonce n = true := by
    intro v store hkeep
    rw [Net.setStore_store]
    split
    next hwv =>
      rw [hwv] at hn
      exact hkeep hn
    next => exact hn
  cases a with
  | invite v nonce now =>
    simp only [Net.step] at hs
    split at hs
    · cases hs
      exact hn
    · cases hs
      exact hn
  | join v params env =>
    simp only [Net.step] at hs
    split at hs
    · cases hs
      exact hset handleJoin_keeps
    · cases hs
      exact hset handleJoin_keeps
  | accept v publicKey now =>
    rw [← Option.some.inj hs]
    refine hset (fun h => ?_)
    show ((net.nodes v).store.updateLastSeen now _).1.toNonceStore.hasNonce n = true
    rw [Store.updateLastSeen_nonces]
    exact h

/-- **What a step adds to the joins**: nothing, or a join of a node in whose
store the nonce was not recorded and now is. -/
theorem Net.step_joined (hs : net.step sign verify a = some net') :
    (∃ v params env tok, a = .join v params env ∧ net.Joins verify tok v params env
        ∧ (net.nodes v).store.hasNonce tok.nonce = false
        ∧ (net'.nodes v).store.hasNonce tok.nonce = true ∧ net'.joined = net.joined ++ [(v, tok)])
      ∨ ((∀ v params env tok, a = .join v params env → ¬ net.Joins verify tok v params env)
        ∧ net'.joined = net.joined) := by
  cases a with
  | invite v nonce now =>
    refine Or.inr ⟨nofun, ?_⟩
    simp only [Net.step] at hs
    split at hs
    · rw [← Option.some.inj hs]
    · rw [← Option.some.inj hs]
  | accept v publicKey now =>
    refine Or.inr ⟨nofun, ?_⟩
    rw [← Option.some.inj hs]
    rfl
  | join v params env =>
    simp only [Net.step] at hs
    split at hs
    next tok peerID htok hok =>
      rw [← Option.some.inj hs]
      obtain ⟨tok', htok', hfresh, hsaved, _⟩ := handleJoin_ok hok
      rw [htok] at htok'
      obtain rfl := Option.some.inj htok'
      refine Or.inl ⟨v, params, env, tok, rfl, ⟨htok, by rw [hok]; rfl⟩, hfresh, ?_, rfl⟩
      show ((net.setStore v _).nodes v).store.hasNonce tok.nonce = true
      rw [Net.setStore_store, if_pos rfl]
      show (handleJoin verify env params (net.nodes v).store).1.toNonceStore.hasNonce _ = true
      rw [hsaved]
      exact (NonceStore.hasNonce_saveNonce _ _ _).mpr (Or.inr rfl)
    next hno =>
      rw [← Option.some.inj hs]
      refine Or.inr ⟨fun v' params' env' tok ha hjoins => ?_, rfl⟩
      injection ha with hv hp he
      subst hv hp he
      obtain ⟨htok, hok⟩ := hjoins
      cases hr : net.response verify v params env with
      | ok peerID => exact hno tok peerID htok hr
      | error err =>
        rw [hr] at hok
        cases hok

theorem Net.step_recorded (hs : net.step sign verify a = some net') (h : net.Recorded) :
    net'.Recorded := by
  intro w tok hw
  rcases Net.step_joined hs with ⟨v, params, env, tok', _, _, _, hsaved, hjoined⟩ | ⟨_, hjoined⟩
  · rw [hjoined] at hw
    rcases List.mem_append.mp hw with hold | hnew
    · exact Net.step_hasNonce hs (h w tok hold)
    · have heq := List.mem_singleton.mp hnew
      rw [(Prod.mk.inj heq).1, (Prod.mk.inj heq).2]
      exact hsaved
  · rw [hjoined] at hw
    exact Net.step_hasNonce hs (h w tok hw)

/-- **One step**: a second success for the token comes exactly from a node other
than the first; the first one's store refuses. -/
theorem joined_step_iff {tok : Token} (hrec : net.Recorded) (hp : net.JoinedOnce tok)
    (hs : net.step sign verify a = some net') :
    net'.JoinedOnce tok ↔ net.FirstNode verify tok a := by
  rcases Net.step_joined hs with ⟨v, params, env, tok', rfl, hjoins, hfresh, _, hjoined⟩
    | ⟨hno, hjoined⟩
  · by_cases htok : tok' = tok
    · subst htok
      have hlen : (net'.joined.filter (fun j => j.2 = tok')).length
          = (net.joined.filter (fun j => j.2 = tok')).length + 1 := by
        rw [hjoined, List.filter_append, List.length_append]
        simp
      unfold Net.JoinedOnce
      rw [hlen]
      constructor
      · intro hle _ w hw
        have hmem : (w, tok') ∈ net.joined.filter (fun j => j.2 = tok') :=
          List.mem_filter.mpr ⟨hw, by simp⟩
        have hpos := List.length_pos_of_mem hmem
        omega
      · intro hfirst
        -- the node itself has not joined: its store would hold the nonce
        have hnil : net.joined.filter (fun j => j.2 = tok') = [] := by
          rw [List.filter_eq_nil_iff]
          intro j hj hjt
          have hj' : (j.1, tok') ∈ net.joined := by
            have : j = (j.1, tok') := by
              rw [← of_decide_eq_true hjt]
            exact this ▸ hj
          have hv := hfirst (Net.joins_iff.mp hjoins) j.1 hj'
          have hhas := hrec j.1 tok' hj'
          rw [hv, hfresh] at hhas
          cases hhas
        rw [hnil]
        simp
    · have hsame : net'.joined.filter (fun j => j.2 = tok)
          = net.joined.filter (fun j => j.2 = tok) := by
        rw [hjoined, List.filter_append]
        simp [htok]
      refine iff_of_true ?_ (fun hthrough => ?_)
      · unfold Net.JoinedOnce
        rw [hsame]
        exact hp
      · have hjoins' := Net.joins_iff.mpr hthrough
        exact absurd (Option.some.inj (hjoins.1.symm.trans hjoins'.1)) htok
  · refine iff_of_true ?_ ?_
    · unfold Net.JoinedOnce
      rw [hjoined]
      exact hp
    · unfold Net.FirstNode
      split
      · intro hthrough
        exact absurd (Net.joins_iff.mpr hthrough) (hno _ _ _ _ rfl)
      · trivial

/-! ## §3. Every run. -/

/-- Every join with the token is the node's. -/
def OnlyBy (v : N) (tok : Token) : Net.Act N → Prop
  | .join w params _ => requestToken params = some tok → w = v
  | _ => True

/-- **EVERY RUN.**  Whatever stores the nodes have and whoever invites, joins
and accepts, one call after the other: at most one join with a token succeeds,
in every state the run goes through, if and only if no other node has joined with it
whenever a node gets through.  It is enough that one node alone uses the link. -/
theorem joined_once_iff (sign : GoString → GoString → GoString)
    (verify : GoString → GoString → GoString → Bool) (nodes : N → Node) (tok : Token)
    (as : List (Net.Act N)) :
    (StatesMeet (Net.step sign verify) (Net.JoinedOnce tok) (Net.new nodes) as
        ↔ StepsMeet (Net.step sign verify) (Net.FirstNode verify tok) (Net.new nodes) as)
    ∧ ∀ v, (∀ a ∈ as, OnlyBy v tok a) →
        StatesMeet (Net.step sign verify) (Net.JoinedOnce tok) (Net.new nodes) as := by
  have hiff : StatesMeet (Net.step sign verify) (Net.JoinedOnce tok) (Net.new nodes) as
      ↔ StepsMeet (Net.step sign verify) (Net.FirstNode verify tok) (Net.new nodes) as := by
    refine statesMeet_iff_stepsMeet (J := Net.Recorded)
      (fun net a net' hj hs => Net.step_recorded hs hj)
      (fun net a net' hj hp hs => joined_step_iff hj hp hs) ?_ ?_
    · intro v tok h
      cases h
    · exact Nat.zero_le 1
  refine ⟨hiff, fun v honly => hiff.mpr ?_⟩
  refine StepsMeet.mono_of_invariant (J := fun net => ∀ w, (w, tok) ∈ net.joined → w = v)
    (C := fun _ a => OnlyBy v tok a) ?_ ?_ ?_ (stepsMeet_of_forall _ honly)
  · intro net a net' hj ha hs w hw
    rcases Net.step_joined hs with ⟨v', params, env, tok', rfl, hjoins, _, _, hjoined⟩ | ⟨_, hjoined⟩
    · rw [hjoined] at hw
      rcases List.mem_append.mp hw with hold | hnew
      · exact hj w hold
      · obtain ⟨hwv, htok⟩ := Prod.mk.inj (List.mem_singleton.mp hnew)
        rw [hwv]
        exact ha (htok ▸ hjoins.1)
    · rw [hjoined] at hw
      exact hj w hw
  · intro net a _ hj ha _
    unfold Net.FirstNode
    split
    · intro hthrough w hw
      exact (hj w hw).trans (ha (Net.joins_iff.mpr hthrough).1).symm
    · trivial
  · intro w hw
    cases hw

end Net

/-! ## §4. Two nodes with one link. -/

/-- Three nodes with fresh stores; the first has the key of the invite. -/
def threeNodes (v : Fin 3) : Node :=
  ⟨[], if v = 0 then inviterKey else [], [ascii "127.0.0.1:5000"], Store.openFresh⟩

/-- A clock within the validity of the invite. -/
def inviteClock : Clock := ⟨fun _ => Time.ofUnix 1799920000, fun _ => by decide⟩

/-- The first node makes the link; the two others join with it. -/
def twoNodesRun : List (Net.Act (Fin 3)) :=
  [.invite 0 (.ok inviteNonce) (Time.ofUnix (1800000000 - 86400)),
    .join 1 (.ok inviteText) (JoinEnv.good inviteClock),
    .join 2 (.ok inviteText) (JoinEnv.good inviteClock)]

/-- Both joins succeed. -/
theorem one_link_joined_twice :
    ∃ net ∈ run (Net.step signInvite verifyInvite) (Net.new threeNodes) twoNodesRun,
      net.issued = [(0, inviteText)] ∧ net.joined = [(1, inviteToken), (2, inviteToken)]
        ∧ ¬ net.JoinedOnce inviteToken := by
  have hend : ∃ net ∈ run (Net.step signInvite verifyInvite) (Net.new threeNodes) twoNodesRun,
      net.issued = [(0, inviteText)] ∧ net.joined = [(1, inviteToken), (2, inviteToken)] := by
    unfold twoNodesRun signInvite verifyInvite
    rw [inviteText_eq]
    decide +kernel
  obtain ⟨net, hnet, hissued, hjoined⟩ := hend
  refine ⟨net, hnet, hissued, hjoined, fun hone => ?_⟩
  unfold Net.JoinedOnce at hone
  rw [hjoined] at hone
  revert hone
  decide +kernel

end Kin.Daemon
