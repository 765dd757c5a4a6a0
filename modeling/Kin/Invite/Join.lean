/-
  Kin.Invite.Join

  **IS AN INVITE USED ONCE?**  (`Validate`, `handleJoin`, `HasNonce`,
  `SaveNonce`.)

  Every IPC connection has its own goroutine, so any number of `handleJoin`
  calls run at once.  `Validate` asks the store whether the nonce is recorded
  and records it in a SECOND transaction; between the two any other call may
  ask, and is told the same.

    • `Step.validated_iff`, `Step.recording`, `Step.hasNonce_iff` — what a step
      does to the calls and to the store,
    • `step_oneTime_iff` — a second success for a nonce comes exactly from a
      call that records a nonce which is recorded by then,
    • `validated_once_iff` — every run.

  `handleJoin` is modelled up to the return of `Validate`.
-/
import Kin.Invite.Token
import Kin.Lib.Run

namespace Kin.Invite

open Kin.Lib

/-! ## §1. The nonce bucket. -/

/-- The `nonces` bucket of the peer store. -/
structure NonceStore where
  nonces : Bucket GoString GoString

def NonceStore.hasNonce (ns : NonceStore) (nonce : Nonce) : Bool := (ns.nonces.get nonce.val).isSome

def NonceStore.saveNonce (ns : NonceStore) (nonce : Nonce) : NonceStore :=
  ⟨ns.nonces.put nonce.val []⟩

theorem NonceStore.hasNonce_saveNonce (ns : NonceStore) (n m : Nonce) :
    (ns.saveNonce n).hasNonce m = true ↔ ns.hasNonce m = true ∨ n = m := by
  unfold NonceStore.hasNonce NonceStore.saveNonce
  by_cases hnm : n = m
  · rw [hnm, Bucket.get_put_self]
    simp
  · have hval : m.val ≠ n.val := fun h => hnm (Bytes.ext h.symm)
    rw [Bucket.get_put_of_ne _ _ hval]
    simp [hnm]

/-! ## §2. Concurrent calls of `handleJoin`. -/

/-- Where a `handleJoin` call stands. -/
inductive JoinPC where
  /-- In `Validate`, about to ask for the nonce. -/
  | checking (tok : Token)
  /-- The nonce was not recorded; about to record it. -/
  | recording (tok : Token)
  /-- `Validate` has returned without error. -/
  | validated (tok : Token)
  /-- The call has answered with an error response. -/
  | failed (code message : String)
  deriving DecidableEq

structure Daemon where
  store : NonceStore
  joins : List JoinPC

/-- A daemon that has just started on the store. -/
def Daemon.new (store : NonceStore) : Daemon := ⟨store, []⟩

/-- `handleJoin` up to the first use of the nonce store.  The parameters are the
token of the request, or the error of decoding them. -/
def startJoin (verify : GoString → GoString → GoString → Bool)
    (params : Except String GoString) (now : Time) : JoinPC :=
  match params with
  | .error err => .failed "invalid_params" ("decode params: " ++ err)
  | .ok token =>
    if token = [] then .failed "invalid_params" "token is required"
    else
      match decode token with
      | .error err => .failed "invalid_token" ("decode invite: " ++ err)
      | .ok tok =>
        match checkToken verify tok token now with
        | some err => .failed "invalid_token" ("validate invite: " ++ err)
        | none => .checking tok

/-- After `HasNonce`. -/
def afterHasNonce (store : NonceStore) (tok : Token) : Option String → JoinPC
  | some err => .failed "invalid_token" ("validate invite: invite: nonce check: " ++ err)
  | none =>
    if store.hasNonce tok.nonce then
      .failed "invalid_token" "validate invite: invite: nonce already used"
    else .recording tok

/-- After a `SaveNonce` that failed. -/
def saveFailed (err : String) : JoinPC :=
  .failed "invalid_token" ("validate invite: invite: save nonce: " ++ err)

inductive Act where
  /-- A join request comes in. -/
  | join (params : Except String GoString) (now : Time)
  /-- The read transaction of a call, with the error it ends in. -/
  | hasNonce (k : Nat) (err : Option String)
  /-- The write transaction of a call, with the error it ends in. -/
  | saveNonce (k : Nat) (err : Option String)

def Daemon.setJoin (d : Daemon) (k : Nat) (pc : JoinPC) : Daemon :=
  { d with joins := d.joins.set k pc }

/-- One step of one call. -/
inductive Step (verify : GoString → GoString → GoString → Bool) (d : Daemon) : Act → Daemon → Prop
  | join (params : Except String GoString) (now : Time) :
      Step verify d (.join params now) { d with joins := d.joins ++ [startJoin verify params now] }
  | hasNonce {k : Nat} {tok : Token} (err : Option String)
      (hk : d.joins[k]? = some (.checking tok)) :
      Step verify d (.hasNonce k err) (d.setJoin k (afterHasNonce d.store tok err))
  | saveFailed {k : Nat} {tok : Token} (err : String) (hk : d.joins[k]? = some (.recording tok)) :
      Step verify d (.saveNonce k (some err)) (d.setJoin k (saveFailed err))
  | saved {k : Nat} {tok : Token} (hk : d.joins[k]? = some (.recording tok)) :
      Step verify d (.saveNonce k none)
        { d.setJoin k (.validated tok) with store := d.store.saveNonce tok.nonce }

/-- The step of an action, if it is enabled. -/
def step (verify : GoString → GoString → GoString → Bool) (d : Daemon) : Act → Option Daemon
  | .join params now => some { d with joins := d.joins ++ [startJoin verify params now] }
  | .hasNonce k err =>
    match d.joins[k]? with
    | some (.checking tok) => some (d.setJoin k (afterHasNonce d.store tok err))
    | _ => none
  | .saveNonce k err =>
    match d.joins[k]?, err with
    -- the transaction failed and left the store as it was
    | some (.recording _), some err => some (d.setJoin k (saveFailed err))
    | some (.recording tok), none =>
      some { d.setJoin k (.validated tok) with store := d.store.saveNonce tok.nonce }
    | _, _ => none

section Steps

variable {verify : GoString → GoString → GoString → Bool} {d d' : Daemon} {a : Act}

theorem step_sound (hs : step verify d a = some d') : Step verify d a d' := by
  cases a with
  | join params now =>
    cases hs
    exact .join params now
  | hasNonce k err =>
    simp only [step] at hs
    split at hs
    next tok hk =>
      cases hs
      exact .hasNonce err hk
    next => cases hs
  | saveNonce k err =>
    simp only [step] at hs
    split at hs
    next tok err hk =>
      cases hs
      exact .saveFailed err hk
    next tok hk =>
      cases hs
      exact .saved hk
    next => cases hs

/-! ## §3. What a step does. -/

/-- The token of a validated call. -/
def JoinPC.token? : JoinPC → Option Token
  | .validated tok => some tok
  | _ => none

theorem JoinPC.token?_eq_some {pc : JoinPC} {tok : Token} :
    pc.token? = some tok ↔ pc = .validated tok := by
  cases pc <;> simp [JoinPC.token?]

/-- Call `k` has validated a token with the nonce. -/
def Daemon.Validated (d : Daemon) (k : Nat) (n : Nonce) : Prop :=
  ∃ tok, d.joins[k]? = some (.validated tok) ∧ tok.nonce = n

instance (d : Daemon) (k : Nat) (n : Nonce) : Decidable (d.Validated k n) :=
  decidable_of_iff (∃ pc ∈ d.joins[k]?, ∃ tok ∈ pc.token?, tok.nonce = n)
    ⟨fun ⟨pc, hpc, tok, htok, hn⟩ => ⟨tok, by rw [← JoinPC.token?_eq_some.mp htok]; exact hpc, hn⟩,
      fun ⟨tok, htok, hn⟩ => ⟨.validated tok, htok, tok, rfl, hn⟩⟩

theorem startJoin_eq (verify : GoString → GoString → GoString → Bool)
    (params : Except String GoString) (now : Time) :
    (∃ tok, startJoin verify params now = .checking tok)
      ∨ ∃ code message, startJoin verify params now = .failed code message := by
  unfold startJoin
  split
  · exact Or.inr ⟨_, _, rfl⟩
  · split
    · exact Or.inr ⟨_, _, rfl⟩
    · split
      · exact Or.inr ⟨_, _, rfl⟩
      · split
        · exact Or.inr ⟨_, _, rfl⟩
        · exact Or.inl ⟨_, rfl⟩

theorem afterHasNonce_eq_recording {store : NonceStore} {tok tok' : Token} {err : Option String}
    (h : afterHasNonce store tok err = .recording tok') :
    tok' = tok ∧ err = none ∧ store.hasNonce tok.nonce = false := by
  unfold afterHasNonce at h
  split at h
  next => cases h
  next =>
    split at h
    next => cases h
    next hno =>
      injection h with h
      exact ⟨h.symm, rfl, Bool.eq_false_iff.mpr hno⟩

theorem afterHasNonce_ne_validated (store : NonceStore) (tok tok' : Token) (err : Option String) :
    afterHasNonce store tok err ≠ .validated tok' := by
  unfold afterHasNonce
  split
  · nofun
  · split <;> nofun

/-- A call becomes validated by recording its nonce, and stays validated. -/
theorem Step.validated_iff (hs : Step verify d a d') (j : Nat) (n : Nonce) :
    d'.Validated j n ↔ d.Validated j n ∨ ∃ tok, a = .saveNonce j none
      ∧ d.joins[j]? = some (.recording tok) ∧ tok.nonce = n := by
  -- a step of another kind: the call that moves was not validated and is not
  have hother : ∀ {k : Nat} {pc pc' : JoinPC}, d.joins[k]? = some pc → (∀ t, pc ≠ .validated t) →
      (∀ t, pc' ≠ .validated t) → ((d.setJoin k pc').Validated j n ↔ d.Validated j n) := by
    intro k pc pc' hk hpc hpc'
    constructor
    · rintro ⟨tok, htok, hn⟩
      rcases getElem?_set_cases htok with ⟨_, heq⟩ | ⟨_, hold⟩
      · exact absurd heq.symm (hpc' tok)
      · exact ⟨tok, hold, hn⟩
    · rintro ⟨tok, htok, hn⟩
      exact ⟨tok, getElem?_set_of_ne hk htok (hpc tok), hn⟩
  cases hs with
  | join params now =>
    constructor
    · rintro ⟨tok, htok, hn⟩
      rcases getElem?_concat_cases (l := d.joins) htok with ⟨_, heq⟩ | hold
      · rcases startJoin_eq verify params now with ⟨t, ht⟩ | ⟨code, msg, ht⟩
        · cases heq.trans ht
        · cases heq.trans ht
      · exact Or.inl ⟨tok, hold, hn⟩
    · rintro (⟨tok, htok, hn⟩ | ⟨tok, ha, _⟩)
      · exact ⟨tok, getElem?_concat_of htok, hn⟩
      · cases ha
  | hasNonce err hk =>
    rw [hother hk nofun (afterHasNonce_ne_validated d.store _ · err)]
    exact ⟨Or.inl, fun hor => hor.elim id (fun ⟨_, ha, _⟩ => by cases ha)⟩
  | saveFailed err hk =>
    rw [hother hk nofun (by unfold Kin.Invite.saveFailed; nofun)]
    exact ⟨Or.inl, fun hor => hor.elim id (fun ⟨_, ha, _⟩ => by cases ha)⟩
  | @saved k tok hk =>
    constructor
    · rintro ⟨t, ht, hn⟩
      rcases getElem?_set_cases ht with ⟨hj, heq⟩ | ⟨_, hold⟩
      · injection heq with heq
        exact Or.inr ⟨tok, by rw [hj], by rw [hj]; exact hk, by rw [← heq]; exact hn⟩
      · exact Or.inl ⟨t, hold, hn⟩
    · rintro (⟨t, ht, hn⟩ | ⟨t, ha, ht, hn⟩)
      · exact ⟨t, getElem?_set_of_ne hk ht (by simp), hn⟩
      · injection ha with hkj
        subst hkj
        rw [hk] at ht
        injection ht with ht
        injection ht with ht
        exact ⟨tok, getElem?_set_of_getElem? hk, by rw [ht]; exact hn⟩

/-- A call that is about to record its nonce was so before and is not the one
that moved, or it has just been told that the nonce is not recorded. -/
theorem Step.recording (hs : Step verify d a d') {j : Nat} {tok : Token}
    (hj : d'.joins[j]? = some (.recording tok)) :
    (d.joins[j]? = some (.recording tok) ∧ ∀ err, a ≠ .saveNonce j err)
      ∨ (a = .hasNonce j none ∧ d.joins[j]? = some (.checking tok)
        ∧ d.store.hasNonce tok.nonce = false) := by
  cases hs with
  | join params now =>
    rcases getElem?_concat_cases (l := d.joins) hj with ⟨_, heq⟩ | hold
    · rcases startJoin_eq verify params now with ⟨t, ht⟩ | ⟨code, msg, ht⟩
      · cases heq.trans ht
      · cases heq.trans ht
    · exact Or.inl ⟨hold, nofun⟩
  | hasNonce err hk =>
    rcases getElem?_set_cases hj with ⟨rfl, heq⟩ | ⟨_, hold⟩
    · obtain ⟨rfl, rfl, hno⟩ := afterHasNonce_eq_recording heq.symm
      exact Or.inr ⟨rfl, hk, hno⟩
    · exact Or.inl ⟨hold, nofun⟩
  | saveFailed err hk | saved hk =>
    rcases getElem?_set_cases hj with ⟨_, heq⟩ | ⟨hne, hold⟩
    · cases heq
    · refine Or.inl ⟨hold, fun _ ha => ?_⟩
      injection ha with ha
      exact hne ha.symm

/-- The store gains the nonce of a call that records it. -/
theorem Step.hasNonce_iff (hs : Step verify d a d') (n : Nonce) :
    d'.store.hasNonce n = true ↔ d.store.hasNonce n = true ∨ ∃ k tok, a = .saveNonce k none
      ∧ d.joins[k]? = some (.recording tok) ∧ tok.nonce = n := by
  cases hs with
  | @saved k tok hk =>
    show (d.store.saveNonce tok.nonce).hasNonce n = true ↔ _
    rw [NonceStore.hasNonce_saveNonce]
    refine or_congr_right ⟨fun hn => ⟨k, tok, rfl, hk, hn⟩, fun ⟨k', tok', ha, hk', hn⟩ => ?_⟩
    injection ha with hkk
    rw [← hkk, hk] at hk'
    injection hk' with hk'
    injection hk' with htok
    rw [htok]
    exact hn
  | join params now | hasNonce err hk | saveFailed err hk =>
    exact ⟨Or.inl, fun hor => hor.elim id (fun ⟨_, _, ha, _⟩ => by cases ha)⟩

/-! ## §4. One success per nonce. -/

/-- No two calls have validated tokens with one nonce. -/
def OneTime (d : Daemon) : Prop :=
  ∀ n i j, d.Validated i n → d.Validated j n → i = j

/-- A call that records its nonce does so while it is not recorded: what
`HasNonce` told it still holds. -/
def RecordsFresh (d : Daemon) : Act → Prop
  | .saveNonce k none =>
    ∀ tok, d.joins[k]? = some (.recording tok) → d.store.hasNonce tok.nonce = false
  | _ => True

/-- A call asks for its nonce while no other call is about to record it. -/
def ChecksAlone (d : Daemon) : Act → Prop
  | .hasNonce k none =>
    ∀ tok, d.joins[k]? = some (.checking tok) →
      ∀ (j : Nat) (tok' : Token), d.joins[j]? = some (.recording tok') → tok'.nonce ≠ tok.nonce
  | _ => True

/-- The nonces of validated calls are recorded, and a nonce that got recorded
after a call asked for it belongs to a validated call. -/
structure Recorded (d : Daemon) : Prop where
  validated : ∀ k n, d.Validated k n → d.store.hasNonce n = true
  recording : ∀ (k : Nat) (tok : Token), d.joins[k]? = some (.recording tok) →
    d.store.hasNonce tok.nonce = true → ∃ j, d.Validated j tok.nonce

theorem Step.recorded (hs : Step verify d a d') (h : Recorded d) : Recorded d' := by
  refine ⟨fun k n hk => ?_, fun k tok hk hhas => ?_⟩
  · rw [hs.hasNonce_iff]
    rcases (hs.validated_iff k n).mp hk with hold | ⟨tok, ha, htok, hn⟩
    · exact Or.inl (h.validated k n hold)
    · exact Or.inr ⟨k, tok, ha, htok, hn⟩
  · rcases hs.recording hk with ⟨hold, _⟩ | ⟨ha, _, hno⟩
    · rcases (hs.hasNonce_iff tok.nonce).mp hhas with hhas | ⟨j, t, ha, ht, hn⟩
      · obtain ⟨j, hj⟩ := h.recording k tok hold hhas
        exact ⟨j, (hs.validated_iff j tok.nonce).mpr (Or.inl hj)⟩
      · exact ⟨j, (hs.validated_iff j tok.nonce).mpr (Or.inr ⟨t, ha, ht, hn⟩)⟩
    · -- it has just been told the opposite, and asking records nothing
      rcases (hs.hasNonce_iff tok.nonce).mp hhas with hhas | ⟨j, t, ha', _⟩
      · rw [hno] at hhas
        cases hhas
      · cases ha.symm.trans ha'

/-- **One step**: exactly the steps that meet `RecordsFresh` add no second
success for a nonce. -/
theorem step_oneTime_iff (h : Recorded d) (hp : OneTime d) (hs : Step verify d a d') :
    OneTime d' ↔ RecordsFresh d a := by
  by_cases hsave : ∃ k tok, a = .saveNonce k none ∧ d.joins[k]? = some (.recording tok)
  · obtain ⟨k, tok, rfl, hk⟩ := hsave
    have hnew : d'.Validated k tok.nonce :=
      (hs.validated_iff k tok.nonce).mpr (Or.inr ⟨tok, rfl, hk, rfl⟩)
    constructor
    · intro hp' t ht
      rw [hk] at ht
      injection ht with ht
      injection ht with ht
      subst ht
      by_contra hhas
      -- whoever recorded the nonce has validated it, and is another call
      obtain ⟨j, hj⟩ := h.recording k tok hk (Bool.not_eq_false _ ▸ hhas)
      have hjk := hp' tok.nonce j k ((hs.validated_iff j tok.nonce).mpr (Or.inl hj)) hnew
      obtain ⟨t, ht, _⟩ := hj
      rw [hjk, hk] at ht
      cases ht
    · intro hfresh
      have hno := hfresh tok hk
      have hold : ∀ i n, d'.Validated i n → d.Validated i n ∨ (i = k ∧ n = tok.nonce) := by
        intro i n hi
        rcases (hs.validated_iff i n).mp hi with hi | ⟨t, ha, ht, hn⟩
        · exact Or.inl hi
        · injection ha with hik
          rw [← hik, hk] at ht
          injection ht with ht
          injection ht with ht
          exact Or.inr ⟨hik.symm, by rw [ht]; exact hn.symm⟩
      have hnone : ∀ i, ¬ d.Validated i tok.nonce := by
        intro i hi
        have hhas := h.validated i tok.nonce hi
        rw [hno] at hhas
        cases hhas
      intro n i j hi hj
      rcases hold i n hi with hi | ⟨hik, hn⟩
      · rcases hold j n hj with hj | ⟨_, hn⟩
        · exact hp n i j hi hj
        · exact absurd (hn ▸ hi) (hnone i)
      · rcases hold j n hj with hj | ⟨hjk, _⟩
        · exact absurd (hn ▸ hj) (hnone j)
        · rw [hik, hjk]
  · -- no call becomes validated
    have hsame : ∀ i n, d'.Validated i n ↔ d.Validated i n := by
      intro i n
      rw [hs.validated_iff]
      refine or_iff_left (fun ⟨t, ha, ht, _⟩ => hsave ⟨i, t, ha, ht⟩)
    refine iff_of_true (fun n i j hi hj => ?_) ?_
    · exact hp n i j ((hsame i n).mp hi) ((hsame j n).mp hj)
    · cases hs with
      | saved hk => exact absurd ⟨_, _, rfl, hk⟩ hsave
      | _ => trivial

/-- At most one call is about to record a nonce, and the nonce is not recorded. -/
structure Reserved (d : Daemon) : Prop where
  free : ∀ (k : Nat) (tok : Token), d.joins[k]? = some (.recording tok) →
    d.store.hasNonce tok.nonce = false
  alone : ∀ (i j : Nat) (tok tok' : Token), d.joins[i]? = some (.recording tok) →
    d.joins[j]? = some (.recording tok') → tok.nonce = tok'.nonce → i = j

theorem Step.reserved (hs : Step verify d a d') (h : Reserved d) (halone : ChecksAlone d a) :
    Reserved d' := by
  constructor
  · intro k tok hk
    by_contra hhas
    rcases (hs.hasNonce_iff tok.nonce).mp (Bool.not_eq_false _ ▸ hhas) with hold | ⟨j, t, ha, ht, hn⟩
    · have hfree : d.store.hasNonce tok.nonce = false := by
        rcases hs.recording hk with ⟨hk, _⟩ | ⟨_, _, hno⟩
        · exact h.free k tok hk
        · exact hno
      rw [hfree] at hold
      cases hold
    · -- the call that recorded the nonce was the only one about to
      rcases hs.recording hk with ⟨hk, hne⟩ | ⟨ha', _⟩
      · have hjk := h.alone j k t tok ht hk hn
        exact hne none (hjk ▸ ha)
      · cases ha.symm.trans ha'
  · intro i j tok tok' hi hj hn
    rcases hs.recording hi with ⟨hi, _⟩ | ⟨hai, hci, _⟩
    · rcases hs.recording hj with ⟨hj, _⟩ | ⟨haj, hcj, _⟩
      · exact h.alone i j tok tok' hi hj hn
      · subst haj
        exact absurd hn (halone tok' hcj i tok hi)
    · subst hai
      rcases hs.recording hj with ⟨hj, _⟩ | ⟨haj, _⟩
      · exact absurd hn.symm (halone tok hci j tok' hj)
      · injection haj

end Steps

/-! ## §5. Every run. -/

/-- **EVERY RUN.**  Whatever tokens any number of joins bring to a daemon and
however their transactions interleave: no two calls of `Validate` succeed for
one nonce, in every state the run goes through, if and only if every call that
records its nonce does so while the nonce is not recorded.  It is enough that
no call asks for a nonce while another one is about to record it. -/
theorem validated_once_iff (verify : GoString → GoString → GoString → Bool) (store : NonceStore)
    (as : List Act) :
    (StatesMeet (step verify) OneTime (Daemon.new store) as
        ↔ StepsMeet (step verify) RecordsFresh (Daemon.new store) as)
    ∧ (StepsMeet (step verify) ChecksAlone (Daemon.new store) as →
        StatesMeet (step verify) OneTime (Daemon.new store) as) := by
  have hiff : StatesMeet (step verify) OneTime (Daemon.new store) as
      ↔ StepsMeet (step verify) RecordsFresh (Daemon.new store) as := by
    refine statesMeet_iff_stepsMeet (J := Recorded)
      (fun d a d' hj hs => (step_sound hs).recorded hj)
      (fun d a d' hj hp hs => step_oneTime_iff hj hp (step_sound hs)) ⟨?_, ?_⟩ ?_
    · rintro k n ⟨tok, htok, _⟩
      cases htok
    · intro k tok hk
      cases hk
    · rintro n i j ⟨tok, htok, _⟩
      cases htok
  refine ⟨hiff, fun halone => hiff.mpr ?_⟩
  refine StepsMeet.mono_of_invariant (J := Reserved) (C := ChecksAlone)
    (fun d a d' hj hc hs => (step_sound hs).reserved hj hc) (fun d a _ hj _ _ => ?_) ⟨?_, ?_⟩ halone
  · unfold RecordsFresh
    split
    · exact hj.free _
    · trivial
  · intro k tok hk
    cases hk
  · intro i j tok tok' hi
    cases hi

/-! ## §6. Two calls with one token. -/

/-- Two joins with the invite; both ask for the nonce before either records it. -/
def twoJoinsRun : List Act :=
  [.join (.ok inviteText) (Time.ofUnix 1700000000), .join (.ok inviteText) (Time.ofUnix 1700000000),
    .hasNonce 0 none, .hasNonce 1 none, .saveNonce 0 none, .saveNonce 1 none]

/-- Both calls of `Validate` succeed. -/
theorem one_invite_validated_twice :
    ∃ d ∈ run (step verifyInvite) (Daemon.new ⟨Bucket.empty⟩) twoJoinsRun,
      d.Validated 0 inviteNonce ∧ d.Validated 1 inviteNonce ∧ ¬ OneTime d := by
  have hend : ∃ d ∈ run (step verifyInvite) (Daemon.new ⟨Bucket.empty⟩) twoJoinsRun,
      d.Validated 0 inviteNonce ∧ d.Validated 1 inviteNonce := by
    unfold twoJoinsRun verifyInvite
    rw [inviteText_eq]
    decide +kernel
  obtain ⟨d, hd, h0, h1⟩ := hend
  refine ⟨d, hd, h0, h1, fun hone => ?_⟩
  cases hone inviteNonce 0 1 h0 h1

end Kin.Invite
