/-
  Kin.Relay.Introduction

  **THE RELAY INTRODUCES BOTH SIDES.**

  A hole punch needs both nodes: the target primes its NAT, the requester
  dials.  `handleConnect` writes to the target first and to the requester
  second, each on its own connection, while every other `Serve` call runs on.

    • `Introduced` — a node told about another one: the other has been told
      about it, or is being told; and a requester is told about its target
      after the target,
    • `Later` — how a connection looks after some steps,
    • `introductions_mutual` — so it is in every state of every run in which
      the requesters can be written to.
-/
import Kin.Relay.Address

namespace Kin.Relay

open Kin.Lib Kin.Kinpb

/-! ## §1. Told about each other. -/

/-- A `RelayRendezvous` on its way. -/
def introduces (rv : RelayRendezvous) : Envelope := ⟨some (.relayRendezvous rv)⟩

/-- A connection of the relay's that answers to `rv` has been told about `c`. -/
def Server.Informed (s : Server) (c : Session) (rv : RelayRendezvous) : Prop :=
  ∃ d ∈ s.sessions, rendezvousWith d = introduces rv ∧ rendezvousWith c ∈ d.sent

/-- It has been told, or `handleConnect` is about to tell it. -/
def Server.Answered (s : Server) (c : Session) (rv : RelayRendezvous) : Prop :=
  ∃ d ∈ s.sessions, rendezvousWith d = introduces rv
    ∧ (rendezvousWith c ∈ d.sent ∨ d.pc = .replying (rendezvousWith c))

/-- **Both sides or none.** -/
structure Introduced (s : Server) : Prop where
  /-- Whoever has been told about a node: the node knows, or is the next to be
  written to. -/
  told : ∀ c ∈ s.sessions, ∀ rv, introduces rv ∈ c.sent → s.Answered c rv
  /-- Whoever is about to be told about a node: the node knows already. -/
  telling : ∀ c ∈ s.sessions, ∀ rv, c.pc = .replying (introduces rv) → s.Informed c rv

/-- The replies of `handleConnect` reach the requester. -/
def replyWritten : Act → Bool
  | .reply _ ok => ok
  | _ => true

def RepliesWritten (_ : Server) (a : Act) : Prop := replyWritten a = true

instance RepliesWritten.decidable (s : Server) (a : Act) : Decidable (RepliesWritten s a) :=
  inferInstanceAs (Decidable (replyWritten a = true))

/-! ## §2. A connection later on. -/

/-- What stays of a connection: what is said about it, what it has been sent,
and what it is about to be sent unless it has been. -/
structure Later (c c' : Session) : Prop where
  same : rendezvousWith c' = rendezvousWith c
  sent : c.sent ⊆ c'.sent
  next : ∀ env, c.pc = .replying env → c'.pc = .replying env ∨ env ∈ c'.sent

theorem Later.refl (c : Session) : Later c c :=
  ⟨rfl, List.Subset.refl _, fun _ h => Or.inl h⟩

/-- From a point where nothing is about to be sent to any other. -/
theorem Later.move {c : Session} (hpc : ∀ env, c.pc ≠ .replying env) (pc : ServePC) :
    Later c { c with pc := pc } :=
  ⟨rfl, List.Subset.refl _, fun env h => absurd h (hpc env)⟩

theorem Session.sent_subset_write (c : Session) (env : Envelope) (ok : Bool) :
    c.sent ⊆ (c.write env ok).sent := by
  unfold Session.write
  split
  · exact List.subset_append_left _ _
  · exact List.Subset.refl _

theorem Session.mem_write {c : Session} {env e : Envelope} {ok : Bool}
    (h : e ∈ (c.write env ok).sent) : e ∈ c.sent ∨ (e = env ∧ ok = true) := by
  unfold Session.write at h
  split at h
  next hok =>
    rcases List.mem_append.mp h with hold | hnew
    · exact Or.inl hold
    · exact Or.inr ⟨List.mem_singleton.mp hnew, hok⟩
  next => exact Or.inl h

theorem Later.write (c : Session) (env : Envelope) (ok : Bool) : Later c (c.write env ok) :=
  ⟨rendezvousWith_write c env ok, c.sent_subset_write env ok,
    fun _ h => Or.inl ((c.write_pc env ok).trans h)⟩

theorem Later.trans {c d e : Session} (h₁ : Later c d) (h₂ : Later d e) : Later c e := by
  refine ⟨h₂.same.trans h₁.same, List.Subset.trans h₁.sent h₂.sent, fun env hpc => ?_⟩
  rcases h₁.next env hpc with hnext | hsent
  · exact h₂.next env hnext
  · exact Or.inr (h₂.sent hsent)

/-- Every connection of `s` is one of `s'` later on. -/
def Onward (s s' : Server) : Prop := ∀ c ∈ s.sessions, ∃ c' ∈ s'.sessions, Later c c'

theorem Onward.trans {s t u : Server} (h₁ : Onward s t) (h₂ : Onward t u) : Onward s u := by
  intro c hc
  obtain ⟨d, hd, hcd⟩ := h₁ c hc
  obtain ⟨e, he, hde⟩ := h₂ d hd
  exact ⟨e, he, hcd.trans hde⟩

theorem onward_modify {s : Server} {i : Nat} {c : Session} {f : Session → Session}
    (hc : s.sessions[i]? = some c) (hf : Later c (f c)) : Onward s (s.modify i f) := by
  intro d hd
  obtain ⟨j, hj⟩ := List.mem_iff_getElem?.mp hd
  by_cases hij : j = i
  · subst hij
    rw [hc] at hj
    rw [← Option.some.inj hj]
    refine ⟨f c, List.mem_of_getElem? (i := j) ?_, hf⟩
    rw [getElem?_modify_self, hc]
    rfl
  · refine ⟨d, List.mem_of_getElem? (i := j) ?_, .refl d⟩
    rw [getElem?_modify_of_ne s hij, hj]

theorem mem_modify {s : Server} {i : Nat} {c d : Session} {f : Session → Session}
    (hc : s.sessions[i]? = some c) (hd : d ∈ (s.modify i f).sessions) :
    d = f c ∨ d ∈ s.sessions := by
  obtain ⟨j, hj⟩ := List.mem_iff_getElem?.mp hd
  by_cases hij : j = i
  · subst hij
    rw [getElem?_modify_self, hc] at hj
    exact Or.inl (Option.some.inj hj).symm
  · rw [getElem?_modify_of_ne s hij] at hj
    exact Or.inr (List.mem_of_getElem? hj)

/-- Who has been told stays told. -/
theorem Server.Informed.onward {s s' : Server} (hon : Onward s s') {c c' : Session}
    (hsame : rendezvousWith c' = rendezvousWith c) {rv : RelayRendezvous} (h : s.Informed c rv) :
    s'.Informed c' rv := by
  obtain ⟨d, hd, hrv, htold⟩ := h
  obtain ⟨d', hd', hlater⟩ := hon d hd
  refine ⟨d', hd', hlater.same.trans hrv, ?_⟩
  rw [hsame]
  exact hlater.sent htold

theorem Server.Answered.onward {s s' : Server} (hon : Onward s s') {c c' : Session}
    (hsame : rendezvousWith c' = rendezvousWith c) {rv : RelayRendezvous} (h : s.Answered c rv) :
    s'.Answered c' rv := by
  obtain ⟨d, hd, hrv, htold⟩ := h
  obtain ⟨d', hd', hlater⟩ := hon d hd
  refine ⟨d', hd', hlater.same.trans hrv, ?_⟩
  rw [hsame]
  rcases htold with htold | hnext
  · exact Or.inl (hlater.sent htold)
  · exact (hlater.next _ hnext).symm

theorem Server.Informed.answered {s : Server} {c : Session} {rv : RelayRendezvous}
    (h : s.Informed c rv) : s.Answered c rv := by
  obtain ⟨d, hd, hrv, htold⟩ := h
  exact ⟨d, hd, hrv, Or.inl htold⟩

/-! ## §3. One step. -/

/-- What a connection of `s'` needs: each rendezvous it has been sent, or is
about to be sent, is one of before or one that its other side knows about. -/
structure Accounted (s s' : Server) (c' : Session) : Prop where
  told : ∀ rv, introduces rv ∈ c'.sent →
    (∃ c ∈ s.sessions, rendezvousWith c' = rendezvousWith c ∧ introduces rv ∈ c.sent)
      ∨ s'.Answered c' rv
  telling : ∀ rv, c'.pc = .replying (introduces rv) →
    (∃ c ∈ s.sessions, rendezvousWith c' = rendezvousWith c ∧ c.pc = .replying (introduces rv))
      ∨ s'.Informed c' rv

theorem Introduced.onward {s s' : Server} (h : Introduced s) (hon : Onward s s')
    (hacc : ∀ c' ∈ s'.sessions, Accounted s s' c') : Introduced s' := by
  refine ⟨fun c' hc' rv hrv => ?_, fun c' hc' rv hrv => ?_⟩
  · rcases (hacc c' hc').told rv hrv with ⟨c, hc, hsame, hold⟩ | hnew
    · exact (h.told c hc rv hold).onward hon hsame
    · exact hnew
  · rcases (hacc c' hc').telling rv hrv with ⟨c, hc, hsame, hold⟩ | hnew
    · exact (h.telling c hc rv hold).onward hon hsame
    · exact hnew

theorem Accounted.old {s s' : Server} {c : Session} (hc : c ∈ s.sessions) : Accounted s s' c :=
  ⟨fun _ h => Or.inl ⟨c, hc, rfl, h⟩, fun _ h => Or.inl ⟨c, hc, rfl, h⟩⟩

/-- Nothing is written and no rendezvous is about to be. -/
theorem Accounted.move {s s' : Server} {c : Session} (hc : c ∈ s.sessions) {pc : ServePC}
    (hpc : ∀ rv, pc ≠ .replying (introduces rv)) : Accounted s s' { c with pc := pc } :=
  ⟨fun _ h => Or.inl ⟨c, hc, rfl, h⟩, fun rv h => absurd h (hpc rv)⟩

/-- A step of one connection that writes no rendezvous and plans none. -/
theorem Introduced.quiet {s : Server} (h : Introduced s) {i : Nat} {c : Session}
    (hc : s.sessions[i]? = some c) (hnow : ∀ env, c.pc ≠ .replying env) {pc : ServePC}
    (hpc : ∀ rv, pc ≠ .replying (introduces rv)) :
    Introduced (s.modify i (fun c => { c with pc := pc })) := by
  refine h.onward (onward_modify hc (.move hnow pc)) (fun d hd => ?_)
  rcases mem_modify hc hd with rfl | hold
  · exact .move (List.mem_of_getElem? hc) hpc
  · exact .old hold

theorem relayError_ne_introduces (reason : String) (rv : RelayRendezvous) :
    relayError reason ≠ introduces rv := by
  intro h
  cases h

theorem afterRead_ne_introduces (env : Envelope) (rv : RelayRendezvous) :
    afterRead env ≠ .replying (introduces rv) := by
  unfold afterRead
  split
  · split
    · intro h
      injection h with h
      exact relayError_ne_introduces _ rv h
    · simp
  · simp

theorem lookupTarget_ne_introduces (s : Server) (target : NodeID) (rv : RelayRendezvous) :
    s.lookupTarget target ≠ .replying (introduces rv) := by
  unfold Server.lookupTarget
  split
  · intro h
    injection h with h
    exact relayError_ne_introduces _ rv h
  · simp

theorem Introduced.register {s : Server} (h : Introduced s) {extIP : GoString} {env : Envelope}
    {c : Session} (hentry : newEntry extIP env = some c) : Introduced (s.register c) := by
  obtain ⟨hpc, hsent⟩ := newEntry_fresh hentry
  have hon : Onward s (s.register c) :=
    fun d hd => ⟨d, List.mem_append_left _ hd, .refl d⟩
  refine h.onward hon (fun d hd => ?_)
  rcases List.mem_append.mp hd with hold | hnew
  · exact .old hold
  · rw [List.mem_singleton.mp hnew]
    exact ⟨by simp [hsent], by simp [hpc]⟩

/-- `RelayRegistered` is no rendezvous. -/
theorem Introduced.confirm {s : Server} (h : Introduced s) {i : Nat} {c : Session} (ok : Bool)
    (hc : s.sessions[i]? = some c) (hpc : c.pc = .registered) :
    Introduced (s.modify i (Session.confirm ok)) := by
  have hlater : Later c (c.confirm ok) := by
    refine (Later.write c _ ok).trans (.move (fun env henv => ?_) _)
    rw [Session.write_pc, hpc] at henv
    cases henv
  refine h.onward (onward_modify hc hlater) (fun d hd => ?_)
  rcases mem_modify hc hd with rfl | hold
  · refine ⟨fun rv hrv => Or.inl ⟨c, List.mem_of_getElem? hc, hlater.same, ?_⟩, fun rv hrv => ?_⟩
    · rcases Session.mem_write hrv with hold | ⟨hnew, -⟩
      · exact hold
      · cases hnew
    · cases ok <;> cases hrv
  · exact .old hold

/-- **The requester is told**: its target has been. -/
theorem Introduced.reply {s : Server} (h : Introduced s) {i : Nat} {c : Session} {env : Envelope}
    (hc : s.sessions[i]? = some c) (hpc : c.pc = .replying env) :
    Introduced (s.modify i (fun c => { c.write env true with pc := .serving })) := by
  have hlater : Later c { c.write env true with pc := .serving } := by
    refine ⟨rendezvousWith_write c env true, c.sent_subset_write env true, fun e he => ?_⟩
    rw [hpc] at he
    injection he with he
    rw [← he]
    exact Or.inr (List.mem_append_right _ (List.mem_singleton_self env))
  have hon := onward_modify (f := fun c => { c.write env true with pc := .serving }) hc hlater
  have hmem : c ∈ s.sessions := List.mem_of_getElem? hc
  refine h.onward hon (fun d hd => ?_)
  rcases mem_modify hc hd with rfl | hold
  · refine ⟨fun rv hrv => ?_, fun rv hrv => by cases hrv⟩
    rcases Session.mem_write hrv with hold | ⟨hnew, -⟩
    · exact Or.inl ⟨c, hmem, hlater.same, hold⟩
    · rw [← hnew] at hpc
      exact Or.inr ((h.telling c hmem rv hpc).onward hon hlater.same).answered
  · exact .old hold

/-- **The target is told**, or could not be: the requester is next. -/
theorem Introduced.notify {s : Server} (h : Introduced s) {i j : Nat} {c target : Session}
    (ok : Bool) (hc : s.sessions[i]? = some c) (hpc : c.pc = .notifying j)
    (ht : s.sessions[j]? = some target) :
    Introduced ((s.modify j (fun t => t.write (rendezvousWith c) ok)).modify i
      (Session.notified target ok)) := by
  generalize hmid : s.modify j (fun t => t.write (rendezvousWith c) ok) = mid
  have hon₁ : Onward s mid := by
    rw [← hmid]
    exact onward_modify ht (.write target _ ok)
  -- the requester between the two writes; it may be its own target
  obtain ⟨c₁, hc₁, hpc₁, hsame₁⟩ : ∃ c₁, mid.sessions[i]? = some c₁ ∧ c₁.pc = .notifying j
      ∧ rendezvousWith c₁ = rendezvousWith c := by
    rw [← hmid]
    by_cases hij : i = j
    · subst hij
      rw [getElem?_modify_self, hc]
      exact ⟨_, rfl, (c.write_pc _ ok).trans hpc, rendezvousWith_write c _ ok⟩
    · rw [getElem?_modify_of_ne s hij]
      exact ⟨c, hc, hpc, rfl⟩
  have hmem₁ : ∀ d ∈ mid.sessions, d = target.write (rendezvousWith c) ok ∨ d ∈ s.sessions := by
    rw [← hmid]
    exact fun d hd => mem_modify (f := fun t => t.write (rendezvousWith c) ok) ht hd
  have hlater₁ : Later c₁ (Session.notified target ok c₁) :=
    .move (fun env henv => by rw [hpc₁] at henv; cases henv) _
  have hon₂ : Onward mid (mid.modify i (Session.notified target ok)) := onward_modify hc₁ hlater₁
  have hreq : Session.notified target ok c₁
      ∈ (mid.modify i (Session.notified target ok)).sessions := by
    refine List.mem_of_getElem? (i := i) ?_
    rw [getElem?_modify_self, hc₁]
    rfl
  -- the target's new message is answered by the requester's plan
  have htold : ∀ d ∈ mid.sessions, ∀ d', rendezvousWith d' = rendezvousWith d → ∀ rv,
      introduces rv ∈ d.sent →
        (∃ b ∈ s.sessions, rendezvousWith d' = rendezvousWith b ∧ introduces rv ∈ b.sent)
          ∨ (mid.modify i (Session.notified target ok)).Answered d' rv := by
    intro d hd d' hsame rv hrv
    rcases hmem₁ d hd with rfl | hold
    · rw [rendezvousWith_write] at hsame
      rcases Session.mem_write hrv with hold | ⟨hnew, hok⟩
      · exact Or.inl ⟨target, List.mem_of_getElem? ht, hsame, hold⟩
      · refine Or.inr ⟨_, hreq, (hlater₁.same.trans hsame₁).trans hnew.symm, Or.inr ?_⟩
        rw [hsame, Session.notified, hok]
        rfl
    · exact Or.inl ⟨d, hold, hsame, hrv⟩
  refine h.onward (hon₁.trans hon₂) (fun d hd => ?_)
  rcases mem_modify hc₁ hd with rfl | hold
  · refine ⟨fun rv hrv => htold c₁ (List.mem_of_getElem? hc₁) _ hlater₁.same rv hrv,
      fun rv hrv => ?_⟩
    -- what the requester is about to be told: the target knows of it
    cases ok with
    | false =>
      injection hrv with hrv
      exact absurd hrv (relayError_ne_introduces _ rv)
    | true =>
      injection hrv with hrv
      have hinf : mid.Informed c rv := by
        refine ⟨target.write (rendezvousWith c) true, ?_,
          (rendezvousWith_write target _ true).trans hrv,
          List.mem_append_right _ (List.mem_singleton_self _)⟩
        rw [← hmid]
        refine List.mem_of_getElem? (i := j) ?_
        rw [getElem?_modify_self, ht]
        rfl
      exact Or.inr (hinf.onward hon₂ (hlater₁.same.trans hsame₁))
  · refine ⟨fun rv hrv => htold d hold d rfl rv hrv, fun rv hrv => ?_⟩
    rcases hmem₁ d hold with rfl | hold
    · rw [Session.write_pc] at hrv
      exact Or.inl ⟨target, List.mem_of_getElem? ht, rendezvousWith_write target _ ok, hrv⟩
    · exact Or.inl ⟨d, hold, rfl, hrv⟩

/-- **One step.** -/
theorem step_introduced {s s' : Server} {a : Act} (h : Introduced s) (hwritten : RepliesWritten s a)
    (hs : step s a = some s') : Introduced s' := by
  cases step_sound hs with
  | accept hentry => exact h.register hentry
  | refuse hentry => exact h
  | confirm ok hc hpc => exact h.confirm ok hc hpc
  | read env hc hpc =>
    exact h.quiet hc (fun e he => by rw [hpc] at he; cases he) (afterRead_ne_introduces env)
  | lookup hc hpc =>
    exact h.quiet hc (fun e he => by rw [hpc] at he; cases he)
      (lookupTarget_ne_introduces s _)
  | notify ok hc hpc ht => exact h.notify ok hc hpc ht
  | reply ok hc hpc =>
    have hok : ok = true := hwritten
    subst hok
    exact h.reply hc hpc
  | readError hc hpc =>
    exact h.quiet hc (fun e he => by rw [hpc] at he; cases he) (by simp)
  | deregister hc hpc =>
    -- the registry plays no part
    have hquiet : ∀ rv, ServePC.gone ≠ .replying (introduces rv) := by simp
    have hgone := h.quiet hc (fun e he => by rw [hpc] at he; cases he) hquiet
    exact ⟨hgone.told, hgone.telling⟩

/-! ## §4. Every run. -/

theorem introduced_new : Introduced Server.new := by
  constructor
  · intro c hc
    cases hc
  · intro c hc
    cases hc

/-- **BOTH SIDES ARE TOLD.**  However the `Serve` calls of the relay interleave,
whichever nodes register, register again and ask for whom: as long as the
requesters can be written to, whoever has been told about a node, the node has
been told about it or is the next to be written to; and a requester learns of
its target only after the target has learned of it. -/
theorem introductions_mutual (acts : List Act)
    (hwritten : StepsMeet step RepliesWritten Server.new acts) :
    StatesMeet step Introduced Server.new acts :=
  statesMeet_of_stepsMeet (J := fun _ => True) (fun _ _ _ _ _ => trivial)
    (fun _ _ _ _ h hw hs => step_introduced h hw hs) trivial introduced_new hwritten

/-- A node asks for another one while both are connected; the other asks back
before the first has its answer. -/
def askEachOther : List Act :=
  [.accept (ascii "198.51.100.1") ⟨some (.relayRegister
      ⟨(Bytes.lit32 1).val, (Bytes.lit32 3).val, 4001⟩)⟩,
   .accept (ascii "198.51.100.2") ⟨some (.relayRegister
      ⟨(Bytes.lit32 2).val, (Bytes.lit32 4).val, 4002⟩)⟩,
   .confirm 0 true, .confirm 1 true,
   .read 0 ⟨some (.relayConnect ⟨(Bytes.lit32 2).val⟩)⟩, .lookup 0, .notify 0 true,
   .read 1 ⟨some (.relayConnect ⟨(Bytes.lit32 1).val⟩)⟩, .lookup 1, .notify 1 true,
   .reply 1 true, .reply 0 true]

theorem introductions_mutual_askEachOther :
    (run step Server.new askEachOther).map (fun s => s.sessions.map (fun c => c.sent.length))
        = some [3, 3]
      ∧ StatesMeet step Introduced Server.new askEachOther :=
  ⟨by decide, introductions_mutual askEachOther (by decide)⟩

end Kin.Relay
