/-
  Kin.Relay.NodeRegistry

  **WHO THE RELAY TAKES FOR CONNECTED.**

  The relay keeps one entry per node id; a node may have several connections.
  `deregister(nodeID)` of any of them deletes the node's entry, whichever
  connection it belongs to: the same law, and the same gap in it, as for the
  peer connections of the protocol handler.

    • `step_registry_iff` — a step breaks the law exactly when a connection
      deregisters while another one of the same node is registered,
    • `refusal_looked_up` — in a lawful registry, `peer_not_registered` comes from
      a look-up that found no connection because there was none,
    • `relay_registry_along_run_iff` — so a run keeps the law exactly if no such
      step happens, and then nobody is refused who is connected.
-/
import Kin.Lib.Registry
import Kin.Lib.Run
import Kin.Relay.Server

namespace Kin.Relay

open Kin.Lib Kin.Kinpb

/-! ## §1. The law. -/

/-- A node id has an entry exactly while a connection that registered it has
not deregistered, and the entry is that of such a connection. -/
def RegistryLaw (s : Server) : Prop :=
  (∀ n, (∃ i, s.registry.lookup n = some i) ↔ ∃ i, s.Registered i n)
    ∧ ∀ n i, s.registry.lookup n = some i → s.Registered i n

/-- A look-up made now leads to the answer `peer_not_registered` only if no
connection of its target is registered. -/
def RefusesTruly (s : Server) : Prop :=
  ∀ i c target s' c', s.sessions[i]? = some c → c.pc = .lookingUp target →
    step s (.lookup i) = some s' → s'.sessions[i]? = some c' →
    c'.pc = .replying (relayError "peer_not_registered") → ∀ j, ¬ s.Registered j target

/-- A connection that deregisters is the only one registered for its node. -/
def DeregistersAlone (s : Server) : Act → Prop
  | .deregister i => ∀ c, s.sessions[i]? = some c → ∀ j, s.Registered j c.nodeID → j = i
  | _ => True

theorem registryLaw_iff (s : Server) :
    RegistryLaw s ↔ Law (fun n => s.registry.lookup n) s.Registered :=
  ⟨fun hr => ⟨fun i n hs => (hr.1 n).mpr ⟨i, hs⟩, hr.2⟩, fun hl => ⟨hl.present_iff, hl.running⟩⟩

/-- A lawful registry misses no connection. -/
theorem RegistryLaw.not_registered {s : Server} (hr : RegistryLaw s) {target : NodeID}
    (h : s.lookupTarget target = .replying (relayError "peer_not_registered")) (j : Nat) :
    ¬ s.Registered j target := by
  intro hreg
  obtain ⟨k, hk⟩ := (hr.1 target).mpr ⟨j, hreg⟩
  unfold Server.lookupTarget at h
  rw [hk] at h
  cases h

theorem RegistryLaw.refusesTruly {s : Server} (hr : RegistryLaw s) : RefusesTruly s := by
  intro i c target s' c' hc hpc hs hc' hreply
  simp only [step, Server.pcAt, hc, Option.map_some, hpc] at hs
  rw [← Option.some.inj hs, getElem?_modify_self, hc] at hc'
  rw [← Option.some.inj hc'] at hreply
  exact hr.not_registered hreply

/-! ## §2. One step. -/

/-- **One step**: from a lawful registry, exactly the steps that meet
`DeregistersAlone` lead to one. -/
theorem step_registry_iff {s s' : Server} {a : Act} (hr : RegistryLaw s)
    (hs : step s a = some s') : RegistryLaw s' ↔ DeregistersAlone s a := by
  rw [registryLaw_iff] at hr ⊢
  rcases step_registry hs with ⟨extIP, env, c, rfl, _, rfl, hpc⟩ | ⟨i, c, rfl, hc, hreg, hlive⟩
    | ⟨_, hnot, hreg, hlive⟩
  · -- registering overwrites, and keeps the law
    refine iff_of_true ?_ trivial
    have hlive : c.pc ≠ .gone := by
      rw [hpc]
      nofun
    exact law_register hr (GoMap.lookup_insert s.registry c.nodeID s.sessions.length)
      (registered_register s hlive)
  · rw [hreg]
    have hlaw := law_deregister_iff hr (GoMap.lookup_erase s.registry c.nodeID) hlive
    refine hlaw.trans ⟨fun halone c' hc' => ?_, fun halone => halone c hc⟩
    rw [hc] at hc'
    rw [← Option.some.inj hc']
    exact halone
  · refine iff_of_true ((law_congr (fun n => ?_) hlive).mpr hr) ?_
    · rw [hreg]
    · cases a with
      | deregister i => exact absurd rfl (hnot i)
      | _ => trivial

theorem registryLaw_new : RegistryLaw Server.new := by
  rw [registryLaw_iff]
  refine ⟨fun i n ⟨c, hc, _⟩ => ?_, fun n i hi => ?_⟩
  · cases hc
  · cases hi

/-! ## §3. What is answered. -/

/-- The step is a look-up of connection `i`, and no connection of the node it asks for
is registered. -/
def LooksUpNobody (i : Nat) (s : Server) (a : Act) (_ : Server) : Prop :=
  a = .lookup i ∧ ∃ c target, s.sessions[i]? = some c ∧ c.pc = .lookingUp target
    ∧ ∀ j, ¬ s.Registered j target

/-- The last look-up of connection `i` in the run found nobody, and there was nobody. -/
def RefusedTruly (as : List Act) (i : Nat) : Prop :=
  Took step (LooksUpNobody i) (fun a => a ≠ .lookup i) Server.new as

theorem afterRead_not_refusing (env : Envelope) :
    afterRead env ≠ .replying (relayError "peer_not_registered") := by
  unfold afterRead
  split
  · split
    · decide
    · nofun
  · nofun

theorem notified_not_refusing (target : Session) (ok : Bool) (c : Session) :
    (Session.notified target ok c).pc ≠ .replying (relayError "peer_not_registered") := by
  cases ok with
  | true => exact fun h => by cases h
  | false =>
    show ServePC.replying (relayError "peer_unreachable") ≠ _
    decide

/-- **One step**: a connection that is about to be told `peer_not_registered` looked its
target up in this step, or was about to be told so before it. -/
theorem Moves.refusing {s : Server} {i : Nat} {c c' : Session} {a : Act} (hm : Moves s i c a c')
    (hpc' : c'.pc = .replying (relayError "peer_not_registered")) :
    (∃ target, a = .lookup i ∧ c.pc = .lookingUp target
        ∧ s.lookupTarget target = .replying (relayError "peer_not_registered"))
      ∨ (a ≠ .lookup i ∧ c.pc = .replying (relayError "peer_not_registered")) := by
  cases hm with
  | lookup hpc => exact Or.inl ⟨_, rfl, hpc, hpc'⟩
  | told ok hik hd hpc =>
    rw [Session.write_pc] at hpc'
    exact Or.inr ⟨nofun, hpc'⟩
  | read env hpc => exact absurd hpc' (afterRead_not_refusing env)
  | confirm ok hpc => cases ok <;> cases hpc'
  | notify ok hpc hij ht => exact absurd hpc' (notified_not_refusing _ ok c)
  | notifySelf ok hpc => exact absurd hpc' (notified_not_refusing c ok _)
  | reply ok hpc => cases hpc'
  | readError hpc => cases hpc'
  | deregister hpc => cases hpc'

/-- **Every run** without such a step: a connection that is about to be told
`peer_not_registered` has looked its target up when nobody was there. -/
theorem refusal_looked_up {as : List Act} {s : Server}
    (halone : StepsMeet step DeregistersAlone Server.new as)
    (hrun : run step Server.new as = some s) {i : Nat} {c : Session}
    (hc : s.sessions[i]? = some c) (hpc : c.pc = .replying (relayError "peer_not_registered")) :
    RefusedTruly as i := by
  have hhist := run_history (C := DeregistersAlone)
    (P := fun as s => RegistryLaw s ∧ ∀ i c, s.sessions[i]? = some c →
      c.pc = .replying (relayError "peer_not_registered") → RefusedTruly as i)
    ⟨registryLaw_new, fun i c hc => by cases hc⟩ ?_ halone hrun
  · exact hhist.2 i c hc hpc
  intro as s a s' hrun ⟨hlaw, hold⟩ ha hs
  refine ⟨(step_registry_iff hlaw hs).mpr ha, fun i c' hc' hpc' => ?_⟩
  refine took_concat hrun hs ?_
  rcases (step_sound hs).session hc' with ⟨extIP, env, _, hentry, _⟩ | ⟨c, hc, rfl | hmove⟩
  · rw [(newEntry_fresh hentry).1] at hpc'
    cases hpc'
  · refine Or.inr ⟨fun hlook => ?_, hold i c' hc hpc'⟩
    -- a connection that looks up is not about to be told anything
    subst hlook
    cases step_sound hs with
    | lookup hd hdpc =>
      rw [hc] at hd
      rw [← Option.some.inj hd, hpc'] at hdpc
      cases hdpc
  · rcases hmove.refusing hpc' with ⟨target, rfl, hpc, hlook⟩ | ⟨hne, hpc⟩
    · exact Or.inl ⟨rfl, c, target, hc, hpc, hlaw.not_registered hlook⟩
    · exact Or.inr ⟨hne, hold i c hc hpc⟩

theorem rendezvousWith_ne_relayError (c : Session) (reason : String) :
    rendezvousWith c ≠ relayError reason := by
  intro h
  cases h

/-- Only a reply writes `peer_not_registered`. -/
theorem Moves.refused {s : Server} {i : Nat} {c c' : Session} {a : Act} (hm : Moves s i c a c')
    (hsent : c'.sent = c.sent ++ [relayError "peer_not_registered"]) :
    c.pc = .replying (relayError "peer_not_registered") := by
  -- a message written is the last one sent
  have hwrite : ∀ (ok : Bool) {env : Envelope},
      (c.write env ok).sent = c.sent ++ [relayError "peer_not_registered"] →
      env = relayError "peer_not_registered" := by
    intro ok env h
    unfold Session.write at h
    split at h
    · exact List.singleton_inj.mp (List.append_cancel_left h)
    · simp at h
  cases hm with
  | reply ok hpc => rw [hpc, hwrite ok hsent]
  | confirm ok hpc =>
    have henv := hwrite ok hsent
    cases henv
  | told ok hik hd hpc => exact absurd (hwrite ok hsent) (rendezvousWith_ne_relayError _ _)
  | notifySelf ok hpc =>
    exact absurd (hwrite ok hsent) (rendezvousWith_ne_relayError _ _)
  | read env hpc => simp at hsent
  | lookup hpc => simp at hsent
  | notify ok hpc hij ht => simp [Session.notified] at hsent
  | readError hpc => simp at hsent
  | deregister hpc => simp at hsent

/-! ## §4. Every run. -/

/-- **EVERY RUN.**  Whatever node ids connections register and however their steps
interleave: the registry is lawful, and a look-up leads to `peer_not_registered` only if
no connection of its target is registered, in every state the run goes through if and
only if no connection deregisters while another one of the same node is registered.
And then every `peer_not_registered` that is written to a connection answers its last
look-up, which was made when no connection of the target was registered. -/
theorem relay_registry_along_run_iff (as : List Act) :
    (StatesMeet step (fun s => RegistryLaw s ∧ RefusesTruly s) Server.new as
        ↔ StepsMeet step DeregistersAlone Server.new as)
    ∧ (StepsMeet step DeregistersAlone Server.new as →
        ∀ pre a post s s' i c c', as = pre ++ a :: post → run step Server.new pre = some s →
          step s a = some s' → s.sessions[i]? = some c → s'.sessions[i]? = some c' →
          c'.sent = c.sent ++ [relayError "peer_not_registered"] → RefusedTruly pre i) := by
  refine ⟨?_, ?_⟩
  · refine statesMeet_iff_stepsMeet (J := fun _ => True) (fun _ _ _ _ _ => trivial)
      (fun s a s' _ hp hs => ?_) trivial ⟨registryLaw_new, registryLaw_new.refusesTruly⟩
    refine ⟨fun hp' => (step_registry_iff hp.1 hs).mp hp'.1, fun hc => ?_⟩
    have hr := (step_registry_iff hp.1 hs).mpr hc
    exact ⟨hr, hr.refusesTruly⟩
  · intro halone pre a post s s' i c c' has hrun hs hc hc' hsent
    subst has
    refine refusal_looked_up (stepsMeet_append.mp halone).1 hrun hc ?_
    rcases (step_sound hs).session hc' with ⟨extIP, env, _, hentry, _⟩ | ⟨d, hd, rfl | hmove⟩
    · rw [(newEntry_fresh hentry).2] at hsent
      simp at hsent
    · rw [hc] at hd
      rw [Option.some.inj hd] at hsent
      simp at hsent
    · rw [hc] at hd
      rw [← Option.some.inj hd] at hmove
      exact hmove.refused hsent

/-! ## §5. A node with two connections. -/

/-- The registration of the node whose id starts with the byte. -/
def registerMsg (b : UInt8) : Envelope :=
  ⟨some (.relayRegister ⟨(Bytes.lit32 b).val, (Bytes.lit32 b).val, 7777⟩)⟩

def connectMsg (b : UInt8) : Envelope := ⟨some (.relayConnect ⟨(Bytes.lit32 b).val⟩)⟩

/-- Node `0xBB` registers twice and closes its first connection; then node
`0xCC` asks for `0xBB`. -/
def secondConnectionRun : List Act :=
  [.accept (ascii "192.0.2.1") (registerMsg 0xBB), .confirm 0 true,
    .accept (ascii "192.0.2.1") (registerMsg 0xBB), .confirm 1 true,
    .accept (ascii "192.0.2.2") (registerMsg 0xCC), .confirm 2 true,
    .readError 0, .deregister 0, .read 2 (connectMsg 0xBB), .lookup 2]

/-- `0xBB` has a registered connection, and `0xCC` is told that it has none. -/
theorem connected_node_is_refused :
    (∃ s c, run step Server.new secondConnectionRun = some s
      ∧ s.Registered 1 (Bytes.lit32 0xBB) ∧ s.registry.lookup (Bytes.lit32 0xBB) = none
      ∧ s.sessions[2]? = some c ∧ c.pc = .replying (relayError "peer_not_registered"))
    ∧ ¬ StatesMeet step (fun s => RegistryLaw s ∧ RefusesTruly s) Server.new
        secondConnectionRun := by
  have hend : ∃ s c, run step Server.new secondConnectionRun = some s
      ∧ s.Registered 1 (Bytes.lit32 0xBB) ∧ s.registry.lookup (Bytes.lit32 0xBB) = none
      ∧ s.sessions[2]? = some c ∧ c.pc = .replying (relayError "peer_not_registered") :=
    ⟨_, _, rfl, ⟨_, rfl, rfl, nofun⟩, rfl, rfl, rfl⟩
  refine ⟨hend, fun hall => ?_⟩
  obtain ⟨s, _, hrun, hreg, hnone, _⟩ := hend
  obtain ⟨i, hi⟩ := ((hall.last hrun).1.1 (Bytes.lit32 0xBB)).mpr ⟨1, hreg⟩
  rw [hnone] at hi
  cases hi

end Kin.Relay
