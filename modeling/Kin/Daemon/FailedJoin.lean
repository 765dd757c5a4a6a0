/-
  Kin.Daemon.FailedJoin

  **DOES A JOIN THAT FAILS LEAVE A TRACE?** (`handleJoin`)

  `Validate` records the nonce as soon as the token is in order.  Two exits come
  after it: a token without endpoints, and a dial that does not get through.
  Both return an error with the nonce already spent, and the same token is
  refused from then on.

    • `handleJoin_cases` — the call by how far it gets,
    • `failed_join_traceless_iff` — the joins whose errors leave no trace.
-/
import Kin.Daemon.Invites

namespace Kin.Daemon

open Kin.Lib Kin.Invite Kin.Peerstore

/-- The request brings the token, and `Validate` has let it through. -/
def LetThrough (verify : GoString → GoString → GoString → Bool) (env : JoinEnv)
    (params : Except String GoString) (store : Store) (tok : Token) : Prop :=
  ∃ raw, params = .ok raw ∧ decode raw = .ok tok
    ∧ (validate verify tok raw (env.clk.now 0) env.hasNonceErr env.saveNonceErr
      store.toNonceStore).2 = none

/-- There is somewhere to connect to, and the dial gets through. -/
def Connects (env : JoinEnv) (tok : Token) : Prop := tok.endpoints ≠ [] ∧ env.dialed = true

/-- **How far a join gets**: it stops before the nonce is recorded, with the
store as it was, or it goes on to the connection with the nonce recorded. -/
theorem handleJoin_cases (verify : GoString → GoString → GoString → Bool) (env : JoinEnv)
    (params : Except String GoString) (store : Store) :
    ((∀ tok, ¬ LetThrough verify env params store tok)
        ∧ ∃ info, handleJoin verify env params store = (store, .error info))
      ∨ ∃ tok, (∀ tok', LetThrough verify env params store tok' ↔ tok' = tok)
        ∧ tok.publicKey.length = 32 ∧ store.hasNonce tok.nonce = false
        ∧ handleJoin verify env params store
          = connectJoin env tok { store with toNonceStore := store.saveNonce tok.nonce } := by
  unfold handleJoin
  cases params with
  | error err =>
    refine Or.inl ⟨?_, _, rfl⟩
    rintro tok ⟨raw, hraw, -⟩
    cases hraw
  | ok raw =>
    dsimp only
    cases hd : decode raw with
    | error err =>
      have hnone : ∀ tok, ¬ LetThrough verify env (.ok raw) store tok := by
        rintro tok ⟨raw', hraw, hd', -⟩
        cases hraw
        rw [hd] at hd'
        cases hd'
      refine Or.inl ⟨hnone, ?_⟩
      split
      · exact ⟨_, rfl⟩
      · exact ⟨_, rfl⟩
    | ok tok =>
      have hne : raw ≠ [] := by
        rintro rfl
        cases hd
      rw [if_neg hne]
      dsimp only
      cases hv : validate verify tok raw (env.clk.now 0) env.hasNonceErr env.saveNonceErr
          store.toNonceStore with
      | mk ns err =>
        have hval : ∀ tok', LetThrough verify env (.ok raw) store tok'
            ↔ tok' = tok ∧ err = none := by
          intro tok'
          constructor
          · rintro ⟨raw', hraw, hd', herr⟩
            cases hraw
            rw [hd] at hd'
            cases hd'
            rw [hv] at herr
            exact ⟨rfl, herr⟩
          · rintro ⟨rfl, rfl⟩
            exact ⟨raw, rfl, hd, by rw [hv]⟩
        cases err with
        | some err =>
          refine Or.inl ⟨fun tok' hv' => ?_, ?_⟩
          · cases ((hval tok').mp hv').2
          · rw [validate_error hv]
            exact ⟨_, rfl⟩
        | none =>
          obtain ⟨-, -, -, hno, hns⟩ := validate_ok_iff.mp hv
          refine Or.inr ⟨tok, fun tok' => ?_, decode_key_length hd, hno, ?_⟩
          · rw [hval tok']
            exact and_iff_left rfl
          · rw [hns]

/-- With the key length out of the way, a connection is made or nothing changes
any more. -/
theorem connectJoin_cases (env : JoinEnv) {tok : Token} (hkey : tok.publicKey.length = 32)
    (store : Store) :
    (Connects env tok ∧ ∃ peerID, (connectJoin env tok store).2 = .ok peerID)
      ∨ (¬ Connects env tok ∧ ∃ info, connectJoin env tok store = (store, .error info)) := by
  unfold connectJoin Connects
  rw [if_neg (not_not_intro hkey)]
  by_cases hend : tok.endpoints = []
  · rw [if_pos hend]
    exact Or.inr ⟨fun h => h.1 hend, _, rfl⟩
  · rw [if_neg hend]
    cases env.dialed with
    | true => exact Or.inl ⟨⟨hend, rfl⟩, _, rfl⟩
    | false => exact Or.inr ⟨fun h => Bool.false_ne_true h.2, _, rfl⟩

/-- The nonce stays out of the store only if it is not recorded. -/
theorem saveNonce_ne {store : Store} {tok : Token} (hno : store.hasNonce tok.nonce = false) :
    ({ store with toNonceStore := store.saveNonce tok.nonce } : Store) ≠ store := by
  intro heq
  have hin : (store.saveNonce tok.nonce).hasNonce tok.nonce = true :=
    (NonceStore.hasNonce_saveNonce store.toNonceStore tok.nonce tok.nonce).mpr (Or.inr rfl)
  rw [show store.saveNonce tok.nonce = store.toNonceStore from congrArg Store.toNonceStore heq,
    hno] at hin
  cases hin

/-- **A failed join leaves no trace exactly if a token that is let through also
leads to a connection.**  For every request, store and outcome of the dial: an
error response goes with an unchanged store if and only if the token, once it
has passed `Validate`, has an endpoint and the dial succeeds. -/
theorem failed_join_traceless_iff (verify : GoString → GoString → GoString → Bool) (env : JoinEnv)
    (params : Except String GoString) (store : Store) :
    ((∃ info, (handleJoin verify env params store).2 = .error info) →
        (handleJoin verify env params store).1 = store)
      ↔ ∀ tok, LetThrough verify env params store tok → Connects env tok := by
  rcases handleJoin_cases verify env params store with
    ⟨hnone, info, hjoin⟩ | ⟨tok, hval, hkey, hno, hjoin⟩
  · rw [hjoin]
    exact iff_of_true (fun _ => rfl) (fun tok hv => absurd hv (hnone tok))
  · rw [hjoin]
    rcases connectJoin_cases env hkey { store with toNonceStore := store.saveNonce tok.nonce }
      with ⟨hconn, peerID, hok⟩ | ⟨hconn, info, herr⟩
    · refine iff_of_true ?_ (fun tok' hv => ?_)
      · rintro ⟨info, hinfo⟩
        rw [hok] at hinfo
        cases hinfo
      · rw [(hval tok').mp hv]
        exact hconn
    · rw [herr]
      refine iff_of_false (fun h => ?_) (fun h => hconn (h tok ((hval tok).mpr rfl)))
      exact saveNonce_ne hno (h ⟨info, rfl⟩)

/-- The peer is not reachable: the join fails, and so does the next one, which
would have got through. -/
theorem failed_join_spends_the_token :
    let failed := handleJoin verifyInvite { JoinEnv.good inviteClock with dialed := false }
      (.ok inviteText) Store.openFresh
    failed.2 = .error ⟨"connect_failed", "connect: connmgr: no route to peer"⟩
      ∧ Store.openFresh.hasNonce inviteNonce = false ∧ failed.1.hasNonce inviteNonce = true
      ∧ (handleJoin verifyInvite (JoinEnv.good inviteClock) (.ok inviteText) failed.1).2
        = .error ⟨"invalid_token", "validate invite: invite: nonce already used"⟩ := by
  unfold verifyInvite
  rw [inviteText_eq]
  decide +kernel

end Kin.Daemon
