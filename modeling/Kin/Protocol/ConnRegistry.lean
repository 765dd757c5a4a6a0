/-
  Kin.Protocol.ConnRegistry

  **THE REGISTRY OF ACTIVE PEER CONNECTIONS** (`registerConn`,
  `unregisterConn`, `BroadcastCatalog`).

  `conns` has one entry per peer id, but a peer may be served on several
  connections at once.  The deferred `unregisterConn(peerID)` of one `Serve`
  call deletes the entry by peer id, also when it belongs to another call.

  A broadcast holds the entries of its snapshot and sends on them one by one,
  outside the lock: a call that returns meanwhile is still sent an offer.

    • `RegistryLaw` — an instance of the registry law of `Kin.Lib.Registry`,
    • `step_registry_iff` — a step breaks it exactly when a call returns while
      another call serves the same peer,
    • `step_castsServed_iff` — a step leaves a broadcast with a returned connection
      exactly when a call returns that it has still to send on,
    • `broadcast_sends` — what a broadcast has still to send on, it sends on,
    • `CastsServed.castEnds` — and it can always come to its end,
    • `registry_along_run_iff` — so the registry is lawful and broadcasts reach
      whom they should exactly if neither happens.
-/
import Kin.Lib.Registry
import Kin.Lib.Run
import Kin.Protocol.Handler

namespace Kin.Protocol

open Kin.Lib

/-! ## §1. The law. -/

/-- Call `i` serves a connection of the peer: registered, not unregistered. -/
def Handler.Serving (h : Handler) (i : Nat) (peer : NodeID) : Prop :=
  ∃ c, h.calls[i]? = some c ∧ c.peer = peer ∧ c.pc ≠ .returned

/-- A peer has an entry exactly while some call serves it, and the entry is
the connection of such a call. -/
def RegistryLaw (h : Handler) : Prop :=
  (∀ p, (∃ i, h.conns.lookup p = some i) ↔ ∃ i, h.Serving i p)
    ∧ ∀ p i, h.conns.lookup p = some i → h.Serving i p

/-- A broadcast that takes its snapshot now has a connection of every peer that
is being served, and no connection whose call has returned. -/
def BroadcastReaches (h : Handler) : Prop :=
  (∀ i p, h.Serving i p → ∃ t ∈ h.snapshot, h.Serving t p)
    ∧ ∀ t ∈ h.snapshot, ∃ p, h.Serving t p

/-- A call that returns is the only one that serves its peer. -/
def ReturnsAlone (h : Handler) : Act → Prop
  | .ret i => ∀ c, h.calls[i]? = some c → ∀ j, h.Serving j c.peer → j = i
  | _ => True

theorem registryLaw_iff (h : Handler) :
    RegistryLaw h ↔ Law (fun p => h.conns.lookup p) h.Serving := by
  refine ⟨fun hr => ⟨fun i p hs => (hr.1 p).mpr ⟨i, hs⟩, hr.2⟩, fun hl => ⟨?_, hl.running⟩⟩
  exact hl.present_iff

theorem mem_snapshot (h : Handler) (t : Nat) :
    t ∈ h.snapshot ↔ ∃ p, h.conns.lookup p = some t := by
  unfold Handler.snapshot
  rw [List.mem_map]
  refine ⟨fun ⟨⟨p, i⟩, hmem, hi⟩ => ⟨p, ?_⟩, fun ⟨p, hp⟩ => ⟨⟨p, t⟩, ?_, rfl⟩⟩
  · rw [← hi]
    exact AList.mem_lookup_iff.mpr hmem
  · exact AList.mem_lookup_iff.mp hp

/-- The law is all that a broadcast needs. -/
theorem RegistryLaw.broadcastReaches {h : Handler} (hr : RegistryLaw h) : BroadcastReaches h := by
  refine ⟨fun i p hs => ?_, fun t ht => ?_⟩
  · obtain ⟨t, ht⟩ := (hr.1 p).mpr ⟨i, hs⟩
    exact ⟨t, (mem_snapshot h t).mpr ⟨p, ht⟩, hr.2 p t ht⟩
  · obtain ⟨p, hp⟩ := (mem_snapshot h t).mp ht
    exact ⟨p, hr.2 p t hp⟩

/-! ## §2. What a step does to the registry. -/

/-- A call that serves its peer goes on serving it, unless it returns. -/
theorem Step.serving {h h' : Handler} {a : Act} (hs : Step h a h') {i : Nat} {p : NodeID}
    (hserving : h.Serving i p) (hret : a ≠ .ret i) : h'.Serving i p := by
  obtain ⟨c, hc, hp, hpc⟩ := hserving
  obtain ⟨c', hc', rfl | hmove⟩ := hs.call_persists hc
  · exact ⟨c', hc', hp, hpc⟩
  · refine ⟨c', hc', hmove.peer_since.1.trans hp, fun hback => ?_⟩
    exact (hmove.returned_iff.mp hback).elim hpc hret

/-- A step that neither starts a call nor lets one return changes nobody's
serving. -/
theorem serving_of_other {h h' : Handler} {a : Act} (hs : Step h a h') (hserve : ∀ p, a ≠ .serve p)
    (hret : ∀ i, a ≠ .ret i) (i : Nat) (p : NodeID) : h'.Serving i p ↔ h.Serving i p := by
  refine ⟨fun ⟨c', hc', hp, hpc⟩ => ?_, fun hserving => hs.serving hserving (hret i)⟩
  rcases hs.call hc' with ⟨q, ha, _⟩ | ⟨c, hc, rfl | hmove⟩
  · exact absurd ha (hserve q)
  · exact ⟨c', hc, hp, hpc⟩
  · refine ⟨c, hc, hmove.peer_since.1.symm.trans hp, fun hback => hpc ?_⟩
    exact hmove.returned_iff.mpr (Or.inl hback)

theorem serving_register (h : Handler) (peer : NodeID) (i : Nat) (p : NodeID) :
    (h.register peer).Serving i p ↔ h.Serving i p ∨ (i = h.calls.length ∧ p = peer) := by
  refine ⟨fun ⟨c', hc', hp, hpc⟩ => ?_, fun hor => ?_⟩
  · rcases (Step.serve (h := h) peer).call hc' with ⟨q, ha, hi, rfl⟩ | ⟨c, hc, rfl | hmove⟩
    · injection ha with ha
      exact Or.inr ⟨hi, hp.symm.trans ha.symm⟩
    · exact Or.inl ⟨c', hc, hp, hpc⟩
    · cases hmove
  · rcases hor with hserving | ⟨hi, hp⟩
    · exact (Step.serve (h := h) peer).serving hserving nofun
    · refine ⟨ServeCall.fresh peer h.version, ?_, hp.symm, fun hx => by cases hx⟩
      rw [hi]
      exact List.getElem?_concat_length

/-- The call that returns no longer serves its peer; nothing else changes. -/
theorem serving_ret {h : Handler} (h' : Handler) {i : Nat} {c : ServeCall} (hc : h.calls[i]? = some c)
    (hcalls : h'.calls = h.calls.set i { c with pc := .returned }) (j : Nat) (p : NodeID) :
    h'.Serving j p ↔ h.Serving j p ∧ ¬ (j = i ∧ p = c.peer) := by
  unfold Handler.Serving
  rw [hcalls]
  by_cases hj : j = i
  · subst hj
    have hlt := (List.getElem?_eq_some_iff.mp hc).1
    rw [List.getElem?_set_self hlt, hc]
    refine iff_of_false (fun ⟨c', hc', _, hpc⟩ => ?_) (fun ⟨⟨c', hc', hp, _⟩, hno⟩ => ?_)
    · rw [← Option.some.inj hc'] at hpc
      exact hpc rfl
    · rw [← Option.some.inj hc'] at hp
      exact hno ⟨rfl, hp.symm⟩
  · rw [List.getElem?_set_ne (Ne.symm hj)]
    simp [hj]

/-- **One step**: from a lawful registry, exactly the steps that meet
`ReturnsAlone` lead to one. -/
theorem step_registry_iff {h h' : Handler} {a : Act} (hr : RegistryLaw h)
    (hs : step h a = some h') : RegistryLaw h' ↔ ReturnsAlone h a := by
  have hstep := step_sound hs
  have hother : (∀ p, a ≠ .serve p) → (∀ i, a ≠ .ret i) → h'.conns = h.conns → RegistryLaw h' := by
    intro hserve hret hconns
    rw [registryLaw_iff] at hr ⊢
    refine (law_congr (fun p => ?_) (serving_of_other hstep hserve hret)).mpr hr
    rw [hconns]
  rw [registryLaw_iff] at hr
  cases hstep with
  | serve peer =>
    refine iff_of_true ?_ trivial
    rw [registryLaw_iff]
    exact law_register hr (GoMap.lookup_insert h.conns peer h.calls.length)
      (serving_register h peer)
  | @ret i c hc hpc =>
    -- the entry is deleted by peer id, whichever call put it there
    rw [registryLaw_iff]
    have hlaw := law_deregister_iff hr (GoMap.lookup_erase h.conns c.peer)
      (serving_ret { h.setCall i { c with pc := .returned } with
        conns := h.conns.erase c.peer } hc rfl)
    refine hlaw.trans ⟨fun halone c' hc' => ?_, fun halone => halone c hc⟩
    rw [hc] at hc'
    rw [← Option.some.inj hc']
    exact halone
  | _ => exact iff_of_true (hother (fun _ h => by cases h) (fun _ h => by cases h) rfl) trivial

/-! ## §3. What a broadcast has still to send. -/

/-- The broadcast has still to send an offer on connection `t`. -/
def Cast.Awaits (t : Nat) : Cast → Prop
  | .changed => False
  | .sending targets => t ∈ targets
  | .listed target _ _ targets => t = target ∨ t ∈ targets

/-- Every connection that a broadcast has still to send on is being served. -/
def CastsServed (h : Handler) : Prop :=
  ∀ (b : Nat) (x : Cast) (t : Nat), h.casts[b]? = some x → x.Awaits t → ∃ p, h.Serving t p

/-- A call that returns is none that a broadcast has still to send on. -/
def ReturnsUnawaited (h : Handler) : Act → Prop
  | .ret i => ∀ (b : Nat) (x : Cast), h.casts[b]? = some x → ¬ x.Awaits i
  | _ => True

/-- A call that returns is alone in serving its peer, and no broadcast waits for it. -/
def ReturnsFree (h : Handler) (a : Act) : Prop := ReturnsAlone h a ∧ ReturnsUnawaited h a

/-- Whom a broadcast waits for after a step, it waited for before, unless the step
takes its snapshot. -/
theorem CastMoves.awaits {h : Handler} {b : Nat} {before : Option Cast} {a : Act} {x : Cast}
    (hm : CastMoves h b before a x) {t : Nat} (ht : x.Awaits t) :
    t ∈ h.snapshot ∨ ∃ y, before = some y ∧ y.Awaits t := by
  cases hm with
  | start op => cases ht
  | snapshot => exact Or.inl ht
  | castList hmem hc =>
    refine Or.inr ⟨_, rfl, ?_⟩
    rcases ht with rfl | hrest
    · exact hmem
    · exact List.mem_of_mem_erase hrest
  | castSend => exact Or.inr ⟨_, rfl, Or.inr ht⟩

/-- **One step**: from a lawful registry and broadcasts that wait only for calls that
serve, exactly the steps that meet `ReturnsFree` lead to such a state. -/
theorem step_castsServed_iff {h h' : Handler} {a : Act} (hr : RegistryLaw h) (hw : CastsServed h)
    (hs : step h a = some h') : RegistryLaw h' ∧ CastsServed h' ↔ ReturnsFree h a := by
  have hstep := step_sound hs
  -- whom a broadcast waits for after the step was being served before it
  have hbefore : ∀ {b : Nat} {x : Cast} {t : Nat}, h'.casts[b]? = some x → x.Awaits t →
      ∃ p, h.Serving t p := by
    intro b x t hx ht
    rcases hstep.cast hx with hold | hmove
    · exact hw b x t hold ht
    · rcases hmove.awaits ht with hsnap | ⟨y, hy, ht⟩
      · exact hr.broadcastReaches.2 t hsnap
      · exact hw b y t hy ht
  refine and_congr (step_registry_iff hr hs) ?_
  cases a with
  | ret i =>
    have hcasts : h'.casts = h.casts := by
      cases hstep
      rfl
    constructor
    · intro hw' b x hx hi
      rw [← hcasts] at hx
      obtain ⟨p, c', hc', hp, hpc⟩ := hw' b x i hx hi
      rcases hstep.call hc' with ⟨q, ha, _⟩ | ⟨c, hc, rfl | hmove⟩
      · cases ha
      · -- the call that returns is moved
        cases hstep with
        | @ret _ d hd hdpc =>
          have hself : (h.calls.set i { d with pc := .returned })[i]?
              = some { d with pc := .returned } := getElem?_set_of_getElem? hd
          exact hpc (by rw [← Option.some.inj (hself.symm.trans hc')])
      · exact hpc (hmove.returned_iff.mpr (Or.inr rfl))
    · intro hfree b x t hx ht
      rw [hcasts] at hx
      obtain ⟨p, hserving⟩ := hw b x t hx ht
      refine ⟨p, hstep.serving hserving (fun ha => ?_)⟩
      injection ha with ha
      exact hfree b x hx (ha ▸ ht)
  | _ =>
    refine iff_of_true (fun b x t hx ht => ?_) trivial
    obtain ⟨p, hserving⟩ := hbefore hx ht
    exact ⟨p, hstep.serving hserving nofun⟩

/-! ## §4. What a broadcast sends. -/

/-- The step leaves the calls that have returned as they are: nothing is sent on
their connections. -/
def LeavesReturned (h : Handler) (a : Act) : Prop :=
  ∀ h', step h a = some h' → ∀ (i : Nat) (c : ServeCall), h.calls[i]? = some c →
    c.pc = .returned → h'.calls[i]? = some c

/-- The offer that a broadcast sends fits a frame. -/
def CastFits (h : Handler) : Act → Prop
  | .castSend b => ∀ t offer stamp targets,
      h.casts[b]? = some (.listed t offer stamp targets) → accepts (offerMsg offer) = true
  | _ => True

/-- The step is one of broadcast `b` and sends an offer on connection `t`, which serves
the peer. -/
def SendsOffer (b t : Nat) (p : NodeID) (h : Handler) (a : Act) (h' : Handler) : Prop :=
  a = .castSend b ∧ ∃ c c' offer, h.calls[t]? = some c ∧ c.peer = p ∧ c.pc ≠ .returned
    ∧ h'.calls[t]? = some c' ∧ c'.sent = c.sent ++ [offerMsg offer]

/-- Only a broadcast sends on the connection of a call that has returned. -/
theorem CastsServed.leavesReturned {h : Handler} (hw : CastsServed h) (a : Act) :
    LeavesReturned h a := by
  intro h' hs i c hc hpc
  obtain ⟨c', hc', rfl | hmove⟩ := (step_sound hs).call_persists hc
  · exact hc'
  · exfalso
    cases hmove with
    | castSend hb =>
      obtain ⟨p, d, hd, _, hdpc⟩ := hw _ _ i hb (Or.inl rfl)
      rw [hc] at hd
      exact hdpc (Option.some.inj hd ▸ hpc)
    | listOffer hpc' | sendOffer hpc' | recv _ _ hpc' | sendNext hpc' | interrupt hpc'
    | ret hpc' =>
      rw [hpc] at hpc'
      cases hpc'

/-- A broadcast stays, and waits on for whom it waited, unless the step sends to it. -/
theorem Step.awaits {h h' : Handler} {a : Act} (hs : Step h a h') {b t : Nat} {x : Cast}
    (hx : h.casts[b]? = some x) (ht : x.Awaits t) :
    (∃ y, h'.casts[b]? = some y ∧ y.Awaits t)
      ∨ ∃ offer stamp targets, a = .castSend b ∧ x = .listed t offer stamp targets := by
  have hset : ∀ {d : Nat} {y z : Cast}, h.casts[d]? = some y →
      (b = d → z.Awaits t ∨ ∃ offer stamp targets, a = .castSend b ∧ x = .listed t offer stamp targets) →
      (∃ w, (h.casts.set d z)[b]? = some w ∧ w.Awaits t)
        ∨ ∃ offer stamp targets, a = .castSend b ∧ x = .listed t offer stamp targets := by
    intro d y z hy hz
    by_cases hbd : b = d
    · subst hbd
      exact (hz rfl).imp_left (fun hz => ⟨z, getElem?_set_of_getElem? hy, hz⟩)
    · exact Or.inl ⟨x, by rw [List.getElem?_set_ne (Ne.symm hbd)]; exact hx, ht⟩
  cases hs with
  | change hok => exact Or.inl ⟨x, getElem?_concat_of hx, ht⟩
  | @snapshot d hd =>
    refine hset hd (fun hbd => ?_)
    rw [← hbd, hx] at hd
    rw [Option.some.inj hd] at ht
    cases ht
  | @castList d u targets c hd hu hc =>
    refine hset hd (fun hbd => Or.inl ?_)
    rw [← hbd, hx] at hd
    rw [Option.some.inj hd] at ht
    by_cases htu : t = u
    · exact Or.inl htu
    · exact Or.inr ((List.mem_erase_of_ne htu).mpr ht)
  | @castSend d u offer stamp targets c hd hc =>
    refine hset hd (fun hbd => ?_)
    rw [← hbd, hx] at hd
    have hxu := Option.some.inj hd
    rw [hxu] at ht ⊢
    rcases ht with rfl | hrest
    · exact Or.inr ⟨offer, stamp, targets, by rw [hbd], rfl⟩
    · exact Or.inl hrest
  | _ => exact Or.inl ⟨x, hx, ht⟩

/-- **A broadcast that has come to its end** has sent an offer on every connection it
waited for, while the call served its peer. -/
theorem broadcast_sends {b t : Nat} {p : NodeID} {as : List Act} :
    ∀ {h h' : Handler} {x : Cast}, StatesMeet step CastsServed h as → StepsMeet step CastFits h as →
      run step h as = some h' → h.casts[b]? = some x → x.Awaits t →
      (∃ c, h.calls[t]? = some c ∧ c.peer = p) → h'.casts[b]? = some (.sending []) →
      Took step (SendsOffer b t p) (fun _ => True) h as := by
  induction as with
  | nil =>
    intro h h' x _ _ hrun hx ht _ hend
    rw [← Option.some.inj hrun, hx] at hend
    rw [Option.some.inj hend] at ht
    cases ht
  | cons a as ih =>
    intro h h' x hw hfits hrun hx ht hpeer hend
    obtain ⟨u, hu, hrun⟩ := run_cons_eq_some.mp hrun
    obtain ⟨c, hc, hp⟩ := hpeer
    refine took_cons hu ?_
    rcases (step_sound hu).awaits hx ht with ⟨y, hy, ht⟩ | ⟨offer, stamp, targets, rfl, rfl⟩
    · -- it waits on: the offer is sent later
      refine Or.inr (ih (hw.2 u hu) (hfits u hu).2 hrun hy ht ?_ hend)
      obtain ⟨c', hc', rfl | hmove⟩ := (step_sound hu).call_persists hc
      · exact ⟨c', hc', hp⟩
      · exact ⟨c', hc', hmove.peer_since.1.trans hp⟩
    · obtain ⟨q, d, hd, _, hdpc⟩ := hw.1 b _ t hx ht
      rw [hc] at hd
      rw [← Option.some.inj hd] at hdpc
      refine Or.inl ⟨⟨rfl, c, c.sendOffer offer stamp, offer, hc, hp, hdpc, ?_, ?_⟩,
        fun _ _ => trivial⟩
      · simp only [step, hx, hc] at hu
        rw [← Option.some.inj hu]
        exact getElem?_set_of_getElem? hc
      · unfold ServeCall.sendOffer
        rw [if_pos ((hfits u hu).1 t offer stamp targets hx)]

/-- The step is one of broadcast `b`. -/
def Act.IsCast (b : Nat) : Act → Prop
  | .snapshot d => d = b
  | .castList d _ => d = b
  | .castSend d => d = b
  | _ => False

/-- Broadcast `b` can come to its end by its own steps. -/
def CastEnds (b : Nat) (h : Handler) : Prop :=
  ∃ as h', (∀ a ∈ as, Act.IsCast b a) ∧ run step h as = some h'
    ∧ h'.casts[b]? = some (.sending [])

theorem castEnds_step {b : Nat} {h h' : Handler} {a : Act} (hs : step h a = some h')
    (ha : a.IsCast b) (hends : CastEnds b h') : CastEnds b h := by
  obtain ⟨as, h'', has, hrun, hend⟩ := hends
  refine ⟨a :: as, h'', ?_, run_cons_eq_some.mpr ⟨h', hs, hrun⟩, hend⟩
  exact List.forall_mem_cons.mpr ⟨ha, has⟩

/-- The offer that is listed is sent next. -/
theorem castEnds_of_listed {b t : Nat} {offer : Kinpb.CatalogOffer} {stamp : Nat}
    {targets : List Nat} {h : Handler} (hb : h.casts[b]? = some (.listed t offer stamp targets))
    (ht : t < h.calls.length)
    (hrest : ∀ h' : Handler, h'.casts[b]? = some (.sending targets) →
      h'.calls.length = h.calls.length → CastEnds b h') : CastEnds b h := by
  have hc := List.getElem?_eq_getElem ht
  have hs : step h (.castSend b) = some ((h.setCall t (h.calls[t].sendOffer offer stamp)).setCast b
      (.sending targets)) := by
    simp only [step, hb, hc]
  exact castEnds_step hs rfl (hrest _ (getElem?_set_of_getElem? hb) List.length_set)

theorem castEnds_of_sending {b : Nat} {targets : List Nat} :
    ∀ {h : Handler}, h.casts[b]? = some (.sending targets) →
      (∀ t ∈ targets, t < h.calls.length) → CastEnds b h := by
  induction targets with
  | nil => exact fun {h} hb _ => ⟨[], h, List.forall_mem_nil _, rfl, hb⟩
  | cons t targets ih =>
    intro h hb hlt
    obtain ⟨ht, hlt⟩ := List.forall_mem_cons.mp hlt
    have hc := List.getElem?_eq_getElem ht
    have hs : step h (.castList b t) = some (h.setCast b
        (.listed t (catalogOfferFor h.catalog h.calls[t].peer) h.version targets)) := by
      simp only [step, hb, hc, List.mem_cons_self, if_true, List.erase_cons_head]
    refine castEnds_step hs rfl ?_
    exact castEnds_of_listed (getElem?_set_of_getElem? hb) ht
      (fun h' hb' hlen => ih hb' (fun u hu => hlen ▸ hlt u hu))

/-- Nothing but the end of a broadcast stops it. -/
theorem CastsServed.castEnds {h : Handler} (hw : CastsServed h) (hr : RegistryLaw h) (b : Nat)
    (x : Cast) (hx : h.casts[b]? = some x) : CastEnds b h := by
  have hserved : ∀ {t : Nat}, (∃ p, h.Serving t p) → t < h.calls.length := by
    rintro t ⟨p, c, hc, -⟩
    exact (List.getElem?_eq_some_iff.mp hc).1
  cases x with
  | changed =>
    have hs : step h (.snapshot b) = some (h.setCast b (.sending h.snapshot)) := by
      simp only [step, hx]
    refine castEnds_step hs rfl (castEnds_of_sending (getElem?_set_of_getElem? hx) ?_)
    exact fun t ht => hserved (hr.broadcastReaches.2 t ht)
  | sending targets => exact castEnds_of_sending hx (fun t ht => hserved (hw b _ t hx ht))
  | listed t offer stamp targets =>
    refine castEnds_of_listed hx (hserved (hw b _ t hx (Or.inl rfl))) (fun h' hb' hlen => ?_)
    exact castEnds_of_sending hb' (fun u hu => hlen ▸ hserved (hw b _ u hx (Or.inr hu)))

/-! ## §5. Every run. -/

theorem registryLaw_new (catalog : Catalog.Store) (sender : Transfer.Sender) :
    RegistryLaw (Handler.new catalog sender) := by
  rw [registryLaw_iff]
  refine ⟨fun i p ⟨c, hc, _⟩ => ?_, fun p i hi => ?_⟩
  · cases hc
  · cases hi

theorem castsServed_new (catalog : Catalog.Store) (sender : Transfer.Sender) :
    CastsServed (Handler.new catalog sender) := by
  intro b x t hx
  cases hx

/-- **What broadcasts send** in the run: nothing on the connection of a call that has
returned; and, if the offers fit a frame, a broadcast that has come to its end, as each
one can at any time, has sent an offer to every peer that was served when it took its
snapshot. -/
structure BroadcastsSent (h₀ : Handler) (as : List Act) : Prop where
  returned : StepsMeet step LeavesReturned h₀ as
  ends : StatesMeet step (fun h => ∀ b x, h.casts[b]? = some x → CastEnds b h) h₀ as
  served : StepsMeet step CastFits h₀ as →
    ∀ pre post b h h' h'', as = pre ++ .snapshot b :: post → run step h₀ pre = some h →
      step h (.snapshot b) = some h' → run step h' post = some h'' →
      h''.casts[b]? = some (.sending []) →
      ∀ i p, h.Serving i p →
        ∃ t, h.Serving t p ∧ Took step (SendsOffer b t p) (fun _ => True) h' post

theorem statesMeet_castsServed_iff {h : Handler} (hr : RegistryLaw h) (hw : CastsServed h)
    (as : List Act) :
    StatesMeet step (fun h => RegistryLaw h ∧ CastsServed h) h as
      ↔ StepsMeet step ReturnsFree h as :=
  statesMeet_iff_stepsMeet (J := fun _ => True) (fun _ _ _ _ _ => trivial)
    (fun _ _ _ _ hp hs => step_castsServed_iff hp.1 hp.2 hs) trivial ⟨hr, hw⟩

theorem broadcastsSent_of_returnsFree {h₀ : Handler} (hr : RegistryLaw h₀) (hw : CastsServed h₀)
    {as : List Act} (hfree : StepsMeet step ReturnsFree h₀ as) : BroadcastsSent h₀ as := by
  have hall := (statesMeet_castsServed_iff hr hw as).mpr hfree
  refine ⟨?_, ?_, ?_⟩
  · exact hall.stepsMeet (fun h a hp => hp.2.leavesReturned a)
  · exact hall.mono (fun _ hp => hp.2.castEnds hp.1)
  · intro hfits pre post b h h' h'' has hpre hsnap hpost hend i p hserving
    subst has
    obtain ⟨hfree₁, hfree₂⟩ := stepsMeet_append.mp hfree
    obtain ⟨hr₁, hw₁⟩ := ((statesMeet_castsServed_iff hr hw pre).mpr hfree₁).last hpre
    have hstates := ((statesMeet_castsServed_iff hr₁ hw₁ _).mpr (hfree₂ h hpre)).2 h' hsnap
    have hfits := ((stepsMeet_append.mp hfits).2 h hpre h' hsnap).2
    -- the peer has a connection in the snapshot, and the broadcast waits for it
    obtain ⟨t, ht, c, hc, hp, hpc⟩ := hr₁.broadcastReaches.1 i p hserving
    refine ⟨t, ⟨c, hc, hp, hpc⟩, ?_⟩
    cases step_sound hsnap with
    | snapshot hb =>
      exact broadcast_sends (hstates.mono fun _ hp => hp.2) hfits hpost
        (getElem?_set_of_getElem? hb) ht ⟨c, hc, hp⟩ hend

/-- **EVERY RUN.**  However `Serve` calls start and return: the registry is lawful, and
a snapshot taken now has a connection of every peer that is being served and none whose
call has returned, in every state the run goes through if and only if no call returns
while another call serves the same peer.  The registry is lawful and broadcasts have
only connections of running calls still to send on if and only if, besides, no call
returns between the snapshot and the send of a broadcast that has its connection; and
then broadcasts come to their end, send to every peer that is being served, and nothing
on the connection of a call that has returned. -/
theorem registry_along_run_iff (catalog : Catalog.Store) (sender : Transfer.Sender)
    (as : List Act) :
    (StatesMeet step (fun h => RegistryLaw h ∧ BroadcastReaches h) (Handler.new catalog sender) as
        ↔ StepsMeet step ReturnsAlone (Handler.new catalog sender) as)
    ∧ (StatesMeet step (fun h => RegistryLaw h ∧ CastsServed h) (Handler.new catalog sender) as
        ↔ StepsMeet step ReturnsFree (Handler.new catalog sender) as)
    ∧ (StepsMeet step ReturnsFree (Handler.new catalog sender) as →
        BroadcastsSent (Handler.new catalog sender) as) := by
  have hr := registryLaw_new catalog sender
  have hw := castsServed_new catalog sender
  refine ⟨?_, statesMeet_castsServed_iff hr hw as, broadcastsSent_of_returnsFree hr hw⟩
  refine statesMeet_iff_stepsMeet (J := fun _ => True) (fun _ _ _ _ _ => trivial)
    (fun h a h' _ hp hs => ?_) trivial ⟨hr, hr.broadcastReaches⟩
  refine ⟨fun hp' => (step_registry_iff hp.1 hs).mp hp'.1, fun hc => ?_⟩
  have hr' := (step_registry_iff hp.1 hs).mpr hc
  exact ⟨hr', hr'.broadcastReaches⟩

/-! ## §6. A peer with two connections. -/

/-- Two connections of the same peer are served; the older call returns. -/
def reconnectRun : List Act :=
  [.serve (Bytes.lit32 0xBB), .serve (Bytes.lit32 0xBB), .listOffer 0, .sendOffer 0, .ret 0]

/-- A node with an empty catalog and no files. -/
def idleHandler : Handler :=
  Handler.new (Catalog.Store.openFresh (Bytes.lit32 0xAA)) ⟨∅, fun _ => none, fun _ => .error ""⟩

/-- The peer is still served on its second connection, but it has no entry and
no broadcast reaches it. -/
theorem reconnected_peer_loses_entry :
    (∃ h, run step idleHandler reconnectRun = some h ∧ h.Serving 1 (Bytes.lit32 0xBB)
      ∧ h.conns.lookup (Bytes.lit32 0xBB) = none ∧ h.snapshot = [])
    ∧ ¬ StatesMeet step (fun h => RegistryLaw h ∧ BroadcastReaches h) idleHandler reconnectRun := by
  have hend : ∃ h, run step idleHandler reconnectRun = some h ∧ h.Serving 1 (Bytes.lit32 0xBB)
      ∧ h.conns.lookup (Bytes.lit32 0xBB) = none ∧ h.snapshot = [] :=
    ⟨_, rfl, ⟨_, rfl, rfl, fun hx => by cases hx⟩, rfl, rfl⟩
  refine ⟨hend, fun hall => ?_⟩
  obtain ⟨h, hrun, hserving, hnone, _⟩ := hend
  obtain ⟨i, hi⟩ := ((hall.last hrun).1.1 (Bytes.lit32 0xBB)).mpr ⟨1, hserving⟩
  rw [hnone] at hi
  cases hi

/-- A file of the node `0xAA`. -/
def localFile (b : UInt8) : Catalog.Entry where
  fileID := Bytes.lit32 b
  name := ascii "a.txt"
  size := 10
  modTime := Time.ofUnix 1700000000
  ownerNodeID := Bytes.lit32 0xAA
  localPath := ascii "/Kin/a.txt"
  deleted := false
  updatedAt := Catalog.zeroTime

/-- A peer's one connection; its call returns while a broadcast has still to send on it. -/
def lateSendRun : List Act :=
  [.serve (Bytes.lit32 0xBB), .listOffer 0, .sendOffer 0,
    .change (.putLocal Clock.epoch (localFile 1)), .snapshot 0, .ret 0, .castList 0 0,
    .castSend 0]

example : ∃ h ∈ run step idleHandler lateSendRun, ∃ c ∈ h.calls[0]?,
    c.pc = .returned ∧ c.sent.length = 2 := by decide +kernel

end Kin.Protocol
