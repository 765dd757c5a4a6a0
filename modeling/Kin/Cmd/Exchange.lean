/-
  Kin.Cmd.Exchange

  **THE COMMAND LINE TOOL AGAINST A DAEMON** (`cmd/kin/main.go`,
  `internal/protocol/handler.go`).

  `kin join` without a daemon of its own connects to the daemon of another node
  and calls `exchangeCatalog`: send one offer, then read until an offer comes,
  store it, acknowledge it, and close the connection.  At the other end runs
  `Handler.Serve`, beside any number of other connections, watcher callbacks and
  broadcasts: its initial offer, the broadcasts' offers and the
  acknowledgements reach the tool in any order.

    tool   ── offer ──────────────→        ── ack ──→  close
    daemon ── offer ──→  ── ack ──→  ── offers of broadcasts ──→ …

    • `DaemonOk`, `step_daemonOk` — what a daemon says to a peer that sends
      nothing but offers and acknowledgements,
    • `Inv`, `step_inv` — both ends together,
    • `exchange_outcomes` — how an exchange can end.
-/
import Kin.Cmd.Receive
import Kin.Protocol.Broadcast
import Kin.Network.Delivery

namespace Kin.Cmd

open Kin.Lib Kin.Catalog Kin.Kinpb Kin.Protocol Kin.Network Kin.Transfer

/-! ## §1. The two ends. -/

/-- How `exchangeCatalog` returns. -/
inductive Outcome where
  /-- `sendCatalogOffer` fails. -/
  | sendFailed
  /-- The context is over when the loop comes round. -/
  | timedOut
  | recvFailed
  /-- A message that is neither an offer nor an acknowledgement. -/
  | unexpected
  /-- An offer has been handled. -/
  | received
  deriving DecidableEq

/-- Where the tool stands in `exchangeCatalog`. -/
inductive ToolPC where
  | starting
  /-- The offer is listed, not sent yet. -/
  | listed (offer : CatalogOffer)
  /-- In the loop of `receivePeerCatalog`. -/
  | receiving
  /-- `handleReceivedOffer` has stored the offer; the message is sent next. -/
  | acking (ack : Envelope)
  | left (how : Outcome)
  deriving DecidableEq

/-- The nodes at the two ends, and the number of the daemon's `Serve` call. -/
structure Ends where
  daemonID : NodeID
  toolID : NodeID
  conn : Nat

structure Exchange where
  daemon : Handler
  /-- The tool's catalog. -/
  cat : Store
  pc : ToolPC
  /-- What the tool has sent. -/
  sent : List Envelope
  /-- How many of the daemon's messages the tool has read. -/
  taken : Nat
  /-- History: the daemon's catalogs since the connection was opened. -/
  catalogs : List Store

/-- The connection has been accepted and registered. -/
def Exchange.start (toolID : NodeID) (daemon : Handler) (cat : Store) : Exchange :=
  ⟨daemon.register toolID, cat, .starting, [], 0, [daemon.catalog]⟩

/-- What the daemon has sent to the tool. -/
def Exchange.inbox (p : Ends) (x : Exchange) : List Envelope :=
  ((x.daemon.calls[p.conn]?).map ServeCall.sent).getD []

/-- What the daemon has read of the tool's messages. -/
def Exchange.heard (p : Ends) (x : Exchange) : List Envelope :=
  ((x.daemon.calls[p.conn]?).map ServeCall.received).getD []

/-- The daemon reads from the tool's connection what the tool has sent, in
order; its other connections are anyone's. -/
def Exchange.delivers (p : Ends) (x : Exchange) : Protocol.Act → Bool
  | .recv i _ env => i ≠ p.conn || x.sent[(x.heard p).length]? = some env
  | _ => true

inductive ExchangeAct where
  /-- Any step of the daemon. -/
  | daemon (a : Protocol.Act)
  | list
  /-- The offer is sent, or the connection fails. -/
  | send (ok : Bool)
  /-- `Recv` returns the next message. -/
  | recv (clk : Clock)
  | recvError
  | timeout
  | ack (ok : Bool)

/-- What the loop does with a message. -/
def Exchange.receive (p : Ends) (x : Exchange) (clk : Clock) (env : Envelope) : Exchange :=
  match env.payload with
  | some (.catalogOffer offer) =>
    let (cat, ack) := handleReceivedOffer x.cat clk p.daemonID offer
    { x with
      cat := cat
      pc := match ack with
        | some ack => .acking ack
        | none => .left .received
      taken := x.taken + 1 }
  | some (.catalogAck _) => { x with taken := x.taken + 1 }
  | _ => { x with pc := .left .unexpected, taken := x.taken + 1 }

/-- One step of one end, if it is enabled. -/
def Exchange.step (p : Ends) (x : Exchange) : ExchangeAct → Option Exchange
  | .daemon a =>
    if x.delivers p a then
      (Protocol.step x.daemon a).map (fun h =>
        { x with daemon := h, catalogs := x.catalogs ++ [h.catalog] })
    else none
  | .list =>
    match x.pc with
    | .starting => some { x with pc := .listed (catalogOfferFor x.cat p.daemonID) }
    | _ => none
  | .send ok =>
    match x.pc with
    | .listed offer =>
      if ok && accepts (offerMsg offer) then
        some { x with sent := x.sent ++ [offerMsg offer], pc := .receiving }
      else some { x with pc := .left .sendFailed }
    | _ => none
  | .recv clk =>
    match x.pc with
    | .receiving =>
      match (x.inbox p)[x.taken]? with
      | some env => some (x.receive p clk env)
      | none => none
    | _ => none
  | .recvError =>
    match x.pc with
    | .receiving => some { x with pc := .left .recvFailed }
    | _ => none
  | .timeout =>
    match x.pc with
    | .receiving => some { x with pc := .left .timedOut }
    | _ => none
  | .ack ok =>
    match x.pc with
    | .acking env =>
      -- an error is logged
      some { x with
        sent := if ok && accepts env then x.sent ++ [env] else x.sent
        pc := .left .received }
    | _ => none

/-- The step relation: what each step needs and what it leads to. -/
inductive Exchange.Step (p : Ends) (x : Exchange) : ExchangeAct → Exchange → Prop
  | daemon {a : Protocol.Act} {h : Handler} (hreads : x.delivers p a = true)
      (hs : Protocol.step x.daemon a = some h) :
      Step p x (.daemon a) { x with daemon := h, catalogs := x.catalogs ++ [h.catalog] }
  | list (hpc : x.pc = .starting) :
      Step p x .list { x with pc := .listed (catalogOfferFor x.cat p.daemonID) }
  | send {offer : CatalogOffer} {ok : Bool} (hpc : x.pc = .listed offer) :
      Step p x (.send ok) { x with sent := x.sent ++ [offerMsg offer], pc := .receiving }
  | sendFailed {offer : CatalogOffer} {ok : Bool} (hpc : x.pc = .listed offer) :
      Step p x (.send ok) { x with pc := .left .sendFailed }
  | recv {env : Envelope} (clk : Clock) (hpc : x.pc = .receiving)
      (hnext : (x.inbox p)[x.taken]? = some env) : Step p x (.recv clk) (x.receive p clk env)
  | recvError (hpc : x.pc = .receiving) : Step p x .recvError { x with pc := .left .recvFailed }
  | timeout (hpc : x.pc = .receiving) : Step p x .timeout { x with pc := .left .timedOut }
  | ack {env : Envelope} {ok : Bool} (hpc : x.pc = .acking env) :
      Step p x (.ack ok)
        { x with
          sent := if ok && accepts env then x.sent ++ [env] else x.sent
          pc := .left .received }

/-- **What a step can do.** -/
theorem Exchange.step_sound {p : Ends} {x x' : Exchange} {a : ExchangeAct}
    (hs : x.step p a = some x') : x.Step p a x' := by
  cases a with
  | daemon a =>
    simp only [Exchange.step] at hs
    split at hs
    next hreads =>
      obtain ⟨h, hh, rfl⟩ := Option.map_eq_some_iff.mp hs
      exact .daemon hreads hh
    next => cases hs
  | list =>
    simp only [Exchange.step] at hs
    split at hs
    next hpc =>
      cases hs
      exact .list hpc
    next => cases hs
  | send ok =>
    simp only [Exchange.step] at hs
    split at hs
    next offer hpc =>
      split at hs
      next =>
        cases hs
        exact .send hpc
      next =>
        cases hs
        exact .sendFailed hpc
    next => cases hs
  | recv clk =>
    simp only [Exchange.step] at hs
    split at hs
    next hpc =>
      split at hs
      next env hnext =>
        cases hs
        exact .recv clk hpc hnext
      next => cases hs
    next => cases hs
  | recvError =>
    simp only [Exchange.step] at hs
    split at hs
    next hpc =>
      cases hs
      exact .recvError hpc
    next => cases hs
  | timeout =>
    simp only [Exchange.step] at hs
    split at hs
    next hpc =>
      cases hs
      exact .timeout hpc
    next => cases hs
  | ack ok =>
    simp only [Exchange.step] at hs
    split at hs
    next env hpc =>
      cases hs
      exact .ack hpc
    next => cases hs

/-! ## §2. What a daemon says to a peer that exchanges catalogs. -/

def isAck (env : Envelope) : Bool :=
  match env.payload with
  | some (.catalogAck _) => true
  | _ => false

/-- A catalog of which listings can be made and taken. -/
structure Listable (s : Store) : Prop where
  wf : s.db.WF
  normal : s.db.normal

/-- The offer lists one of the daemon's catalogs for the tool. -/
def Listed (p : Ends) (cats : List Store) (offer : CatalogOffer) : Prop :=
  ∃ s ∈ cats, offer = catalogOfferFor s p.toolID

/-- The tool's own catalog has arrived in one of the daemon's. -/
def Arrived (p : Ends) (mine : Store) (cats : List Store) : Prop :=
  ∃ s ∈ cats, Mirrored p.toolID (mine.listForPeer p.daemonID) s

/-- One of the daemon's catalogs has arrived in the tool's. -/
def Brought (p : Ends) (cats : List Store) (cat : Store) : Prop :=
  ∃ s ∈ cats, Mirrored p.daemonID (s.listForPeer p.toolID) cat

/-- What the tool sends, if `mine` is its catalog. -/
def FromTool (p : Ends) (mine : Store) (env : Envelope) : Prop :=
  env = offerMsg (catalogOfferFor mine p.daemonID) ∨ isAck env = true

/-- What the daemon sends to the tool. -/
def FromDaemon (p : Ends) (cats : List Store) (env : Envelope) : Prop :=
  isAck env = true ∨ ∃ offer, env = offerMsg offer ∧ Listed p cats offer

/-- The `Serve` call of the tool's connection. -/
structure CallOk (p : Ends) (mine : Store) (cats : List Store) (c : ServeCall) : Prop where
  peer : c.peer = p.toolID
  listed : ∀ offer stamp, c.pc = .listed offer stamp → Listed p cats offer
  rest : ∀ env ∈ c.pc.rest, isAck env = true
  sent : ∀ env ∈ c.sent, FromDaemon p cats env
  /-- It acknowledges what it has stored. -/
  acked : (∃ env ∈ c.sent ++ c.pc.rest, isAck env = true) → Arrived p mine cats

structure DaemonOk (p : Ends) (mine : Store) (h : Handler) (cats : List Store) : Prop where
  call : ∃ c, h.calls[p.conn]? = some c ∧ CallOk p mine cats c
  casts : ∀ (k : Nat) offer stamp targets,
    h.casts[k]? = some (.listed p.conn offer stamp targets) → Listed p cats offer
  now : h.catalog ∈ cats
  sound : ∀ s ∈ cats, Listable s

section Daemon

variable {p : Ends} {mine : Store} {cats : List Store}

theorem Listed.more {offer : CatalogOffer} (h : Listed p cats offer) (s : Store) :
    Listed p (cats ++ [s]) offer := by
  obtain ⟨t, ht, heq⟩ := h
  exact ⟨t, List.mem_append_left _ ht, heq⟩

theorem Arrived.more (h : Arrived p mine cats) (s : Store) : Arrived p mine (cats ++ [s]) := by
  obtain ⟨t, ht, hm⟩ := h
  exact ⟨t, List.mem_append_left _ ht, hm⟩

theorem Brought.more {cat : Store} (h : Brought p cats cat) (s : Store) :
    Brought p (cats ++ [s]) cat := by
  obtain ⟨t, ht, hm⟩ := h
  exact ⟨t, List.mem_append_left _ ht, hm⟩

theorem FromDaemon.more {env : Envelope} (h : FromDaemon p cats env) (s : Store) :
    FromDaemon p (cats ++ [s]) env := by
  rcases h with hack | ⟨offer, henv, hl⟩
  · exact Or.inl hack
  · exact Or.inr ⟨offer, henv, hl.more s⟩

theorem CallOk.more {c : ServeCall} (h : CallOk p mine cats c) (s : Store) :
    CallOk p mine (cats ++ [s]) c :=
  ⟨h.peer, fun offer stamp hpc => (h.listed offer stamp hpc).more s, h.rest,
    fun env henv => (h.sent env henv).more s, fun hack => (h.acked hack).more s⟩

/-- The call turns to something that leaves no answer to be sent. -/
theorem CallOk.turn {c : ServeCall} (h : CallOk p mine cats c) {pc : ServePC}
    (hlisted : ∀ offer stamp, pc = .listed offer stamp → Listed p cats offer)
    (hrest : pc.rest = []) : CallOk p mine cats { c with pc := pc } := by
  refine ⟨h.peer, hlisted, by simp [hrest], h.sent, ?_⟩
  rintro ⟨env, henv, hack⟩
  rw [hrest, List.append_nil] at henv
  exact h.acked ⟨env, List.mem_append_left _ henv, hack⟩

theorem CallOk.sendOffer {c : ServeCall} (h : CallOk p mine cats c) {offer : CatalogOffer}
    (hoffer : Listed p cats offer) (stamp : Nat) :
    CallOk p mine cats (c.sendOffer offer stamp) := by
  unfold ServeCall.sendOffer
  split
  · refine ⟨h.peer, h.listed, h.rest, forall_mem_concat h.sent (Or.inr ⟨offer, rfl, hoffer⟩), ?_⟩
    rintro ⟨env, henv, hack⟩
    refine h.acked ⟨env, ?_, hack⟩
    simp only [List.mem_append, List.mem_singleton] at henv ⊢
    rcases henv with (hold | rfl) | hrest
    · exact Or.inl hold
    · cases hack
    · exact Or.inr hrest
  · exact h

/-- The next message of an answer: the list of what has been sent and what is
still to be sent stays the same, or loses its end. -/
theorem CallOk.sendNext {c : ServeCall} (h : CallOk p mine cats c) {env : Envelope}
    {rest : List Envelope} (hpc : c.pc = .sending (env :: rest)) :
    CallOk p mine cats (c.sendNext env rest) := by
  have hrest : c.pc.rest = env :: rest := by rw [hpc]; rfl
  have hall : ∀ e ∈ env :: rest, isAck e = true := by
    rw [← hrest]
    exact h.rest
  have hafter : (ServePC.afterSend rest).rest = rest := by cases rest <;> rfl
  unfold ServeCall.sendNext ServeCall.send
  split
  next haccepts =>
    refine ⟨h.peer, ?_, ?_, ?_, ?_⟩
    · intro offer stamp hl
      cases rest <;> cases hl
    · intro e he
      rw [show (ServePC.afterSend rest).rest = rest from hafter] at he
      exact hall e (List.mem_cons_of_mem _ he)
    · show ∀ e ∈ c.sent ++ [env], FromDaemon p cats e
      exact forall_mem_concat h.sent (Or.inl (hall env List.mem_cons_self))
    · rintro ⟨e, he, hack⟩
      refine h.acked ⟨e, ?_, hack⟩
      rw [hrest]
      rw [show (ServePC.afterSend rest).rest = rest from hafter] at he
      simpa using he
  next => exact h.turn (by simp) rfl

/-- What `dispatch` makes of a message of the tool's. -/
theorem dispatch_fromTool (h : Handler) (hcat : Listable h.catalog) (hmine : Listable mine)
    (clk : Clock) {env : Envelope} (henv : FromTool p mine env) :
    (∀ e ∈ (h.dispatch p.toolID clk env).2, isAck e = true)
      ∧ ((h.dispatch p.toolID clk env).2 ≠ [] →
          Mirrored p.toolID (mine.listForPeer p.daemonID) (h.dispatch p.toolID clk env).1) := by
  rcases henv with rfl | hack
  · obtain ⟨db, ack, htaken, _⟩ :=
      handleCatalogOffer_listing hmine.wf hcat.wf clk p.toolID p.daemonID
    have hmirror :=
      handleCatalogOffer_current hmine.wf hmine.normal hcat.wf clk p.toolID p.daemonID
    have hdispatch : h.dispatch p.toolID clk (offerMsg (catalogOfferFor mine p.daemonID))
        = ({ h.catalog with db := db }, [ack]) := by
      unfold Handler.dispatch offerMsg
      simp only [htaken]
    rw [htaken] at hmirror
    rw [hdispatch]
    refine ⟨fun e he => ?_, fun _ => hmirror⟩
    rw [List.mem_singleton.mp he]
    -- the answer to an offer is an acknowledgement
    unfold handleCatalogOffer at htaken
    dsimp only at htaken
    split at htaken
    · injection htaken with _ herr
      cases herr
    · injection htaken with _ hok
      injection hok with hok
      rw [← hok]
      rfl
  · obtain ⟨payload⟩ := env
    cases payload with
    | none => cases hack
    | some q =>
      cases q with
      | catalogAck m => simp [Handler.dispatch]
      | _ => cases hack

/-- The catalog after a step is one that can be listed. -/
theorem listable_step {h h' : Handler} {a : Protocol.Act} (hs : Protocol.Step h a h')
    (hcat : Listable h.catalog) : Listable h'.catalog := by
  have hop : ∀ op : Op, Listable (op.apply h.catalog) :=
    fun op => ⟨op.apply_wf hcat.wf, op.apply_normal hcat.wf hcat.normal⟩
  cases hs with
  | @recv i c clk env hc hpc =>
    show Listable (h.dispatch c.peer clk env).1
    unfold Handler.dispatch
    split
    · exact hcat
    next offer _ =>
      have hput := handleCatalogOffer_store h.catalog clk c.peer offer
      have hl := hop (.putPeerEntries clk c.peer (acceptFiles offer.files))
      split
      next s ack heq =>
        rw [heq] at hput
        rw [show s = _ from hput]
        exact hl
      next s err heq =>
        rw [heq] at hput
        rw [show s = _ from hput]
        exact hl
    · exact hcat
  | @change op hok => exact hop op
  | _ => exact hcat

theorem recv_catalog {h h' : Handler} {i : Nat} {clk : Clock} {env : Envelope} {c : ServeCall}
    (hs : Protocol.Step h (.recv i clk env) h') (hc : h.calls[i]? = some c) :
    h'.catalog = (h.dispatch c.peer clk env).1 := by
  cases hs with
  | recv clk env hc' hpc =>
    rw [hc] at hc'
    rw [Option.some.inj hc']

/-- A message of the tool's is dispatched. -/
theorem CallOk.recv {h h' : Handler} {c : ServeCall} (hok : CallOk p mine cats c) {clk : Clock}
    {env : Envelope} (hs : Protocol.Step h (.recv p.conn clk env) h')
    (hc : h.calls[p.conn]? = some c) (hcat : Listable h.catalog) (hmine : Listable mine)
    (henv : FromTool p mine env) :
    CallOk p mine (cats ++ [h'.catalog])
      { c with
        pc := .afterSend (h.dispatch c.peer clk env).2
        received := c.received ++ [env] } := by
  rw [recv_catalog hs hc, hok.peer]
  obtain ⟨hacks, hmirror⟩ := dispatch_fromTool h hcat hmine clk henv
  generalize hd : h.dispatch p.toolID clk env = d at hacks hmirror ⊢
  have hrest : (ServePC.afterSend d.2).rest = d.2 := by
    cases d.2 <;> rfl
  refine ⟨rfl, ?_, ?_, fun e he => (hok.sent e he).more _, ?_⟩
  · intro offer stamp hl
    cases hd2 : d.2 <;> rw [hd2] at hl <;> cases hl
  · intro e he
    rw [show (ServePC.afterSend d.2).rest = d.2 from hrest] at he
    exact hacks e he
  · rintro ⟨e, he, hack⟩
    rcases List.mem_append.mp he with hold | hnew
    · exact (hok.acked ⟨e, List.mem_append_left _ hold, hack⟩).more _
    · rw [show (ServePC.afterSend d.2).rest = d.2 from hrest] at hnew
      exact ⟨d.1, List.mem_append_right _ (List.mem_singleton_self _),
        hmirror (List.ne_nil_of_mem hnew)⟩

/-- **One step of the daemon.** -/
theorem step_daemonOk {h h' : Handler} {a : Protocol.Act} (hok : DaemonOk p mine h cats)
    (hmine : Listable mine)
    (henv : ∀ clk env, a = .recv p.conn clk env → FromTool p mine env)
    (hs : Protocol.Step h a h') : DaemonOk p mine h' (cats ++ [h'.catalog]) := by
  obtain ⟨c, hc, hcall⟩ := hok.call
  have hcat : Listable h.catalog := hok.sound _ hok.now
  have hnow : ∀ s, Listed p (cats ++ [s]) (catalogOfferFor h.catalog p.toolID) :=
    fun s => ⟨h.catalog, List.mem_append_left _ hok.now, rfl⟩
  refine ⟨?_, ?_, List.mem_append_right _ (List.mem_singleton_self _),
    forall_mem_concat hok.sound (listable_step hs hcat)⟩
  · obtain ⟨c', hc', hmove⟩ := hs.call_persists hc
    refine ⟨c', hc', ?_⟩
    rcases hmove with rfl | hmove
    · exact hcall.more _
    · cases hmove with
      | listOffer hpc =>
        refine (hcall.more _).turn (fun offer stamp hl => ?_) rfl
        injection hl with hoffer
        rw [← hoffer, hcall.peer]
        exact hnow _
      | sendOffer hpc =>
        have hl := (hcall.listed _ _ hpc).more h'.catalog
        exact ((hcall.more _).sendOffer hl _).turn (by simp) rfl
      | recv clk env hpc => exact hcall.recv hs hc hcat hmine (henv clk env rfl)
      | sendNext hpc => exact (hcall.more _).sendNext hpc
      | interrupt hpc => exact (hcall.more _).turn (by simp) rfl
      | ret hpc => exact (hcall.more _).turn (by simp) rfl
      | castSend hb =>
        exact (hcall.more _).sendOffer ((hok.casts _ _ _ _ hb).more _) _
  · intro k offer stamp targets hk
    rcases hs.cast hk with hold | hmove
    · exact (hok.casts k offer stamp targets hold).more _
    · generalize hold : h.casts[k]? = old at hmove
      cases hmove with
      | castList ht hct =>
        rw [hc] at hct
        rw [← Option.some.inj hct, hcall.peer]
        exact hnow _

end Daemon

/-! ## §3. Both ends. -/

section Both

variable {p : Ends} {mine : Store}

/-- Where the tool stands, and what it has: `mine` is the catalog it came with. -/
def ToolOk (p : Ends) (mine : Store) (x : Exchange) : Prop :=
  match x.pc with
  | .starting => x.cat = mine
  | .listed offer => x.cat = mine ∧ offer = catalogOfferFor mine p.daemonID
  | .receiving => x.cat = mine
  | .acking ack => isAck ack = true ∧ Brought p x.catalogs x.cat
  | .left .received => Brought p x.catalogs x.cat
  | .left .unexpected => False
  | .left _ => x.cat = mine

structure Inv (p : Ends) (mine : Store) (x : Exchange) : Prop where
  daemon : DaemonOk p mine x.daemon x.catalogs
  sent : ∀ env ∈ x.sent, FromTool p mine env
  tool : ToolOk p mine x

theorem ToolOk.more {x : Exchange} (h : ToolOk p mine x) (daemon : Handler) (s : Store) :
    ToolOk p mine { x with daemon := daemon, catalogs := x.catalogs ++ [s] } := by
  unfold ToolOk at h ⊢
  dsimp only
  split at h
  · exact h
  · exact h
  · exact h
  · exact ⟨h.1, h.2.more s⟩
  · exact h.more s
  · exact h
  · exact h

/-- The tool reads a message of the daemon's. -/
theorem Inv.receive {x : Exchange} (h : Inv p mine x) (hmine : Listable mine) (clk : Clock)
    {env : Envelope} (hpc : x.pc = .receiving) (hnext : (x.inbox p)[x.taken]? = some env) :
    Inv p mine (x.receive p clk env) := by
  obtain ⟨c, hc, hcall⟩ := h.daemon.call
  have hcat : x.cat = mine := by
    have htool := h.tool
    unfold ToolOk at htool
    rw [hpc] at htool
    exact htool
  have hmem : env ∈ c.sent := by
    unfold Exchange.inbox at hnext
    rw [hc] at hnext
    exact List.mem_of_getElem? hnext
  rcases hcall.sent env hmem with hack | ⟨offer, rfl, s, hs, rfl⟩
  · obtain ⟨payload⟩ := env
    cases payload with
    | none => cases hack
    | some q =>
      cases q with
      | catalogAck m =>
        refine ⟨h.daemon, h.sent, ?_⟩
        show ToolOk p mine { x with taken := x.taken + 1 }
        unfold ToolOk
        dsimp only
        rw [hpc]
        exact hcat
      | _ => cases hack
  · refine ⟨h.daemon, h.sent, rfl, s, hs, ?_⟩
    -- the two receivers store the same
    have hl := h.daemon.sound s hs
    have hmirror := handleCatalogOffer_current hl.wf hl.normal hmine.wf clk p.daemonID p.toolID
    rw [handleCatalogOffer_store] at hmirror
    show Mirrored _ _ (handleReceivedOffer x.cat clk p.daemonID (catalogOfferFor s p.toolID)).1
    rw [hcat]
    exact hmirror

/-- The tool reads from the daemon what it has said, the daemon from the tool
what it has sent. -/
theorem fromTool_of_delivers {x : Exchange} (h : Inv p mine x) {a : Protocol.Act}
    (hreads : x.delivers p a = true) (clk : Clock) (env : Envelope)
    (ha : a = .recv p.conn clk env) : FromTool p mine env := by
  subst ha
  have hnext : x.sent[(x.heard p).length]? = some env := by
    simpa [Exchange.delivers] using hreads
  exact h.sent env (List.mem_of_getElem? hnext)

/-- **One step.** -/
theorem step_inv {x x' : Exchange} {a : ExchangeAct} (h : Inv p mine x) (hmine : Listable mine)
    (hs : x.step p a = some x') : Inv p mine x' := by
  have htool := h.tool
  unfold ToolOk at htool
  cases Exchange.step_sound hs with
  | @daemon a d hreads hd =>
    exact ⟨step_daemonOk h.daemon hmine (fromTool_of_delivers h hreads) (Protocol.step_sound hd),
      h.sent, h.tool.more d _⟩
  | list hpc =>
    rw [hpc] at htool
    refine ⟨h.daemon, h.sent, htool, ?_⟩
    show catalogOfferFor x.cat p.daemonID = _
    rw [show x.cat = mine from htool]
  | @send offer ok hpc =>
    rw [hpc] at htool
    obtain ⟨hcat, hoffer⟩ := htool
    refine ⟨h.daemon, forall_mem_concat h.sent (Or.inl ?_), hcat⟩
    rw [hoffer]
  | sendFailed hpc =>
    rw [hpc] at htool
    exact ⟨h.daemon, h.sent, htool.1⟩
  | recv clk hpc hnext => exact h.receive hmine clk hpc hnext
  | recvError hpc =>
    rw [hpc] at htool
    exact ⟨h.daemon, h.sent, htool⟩
  | timeout hpc =>
    rw [hpc] at htool
    exact ⟨h.daemon, h.sent, htool⟩
  | @ack env ok hpc =>
    rw [hpc] at htool
    obtain ⟨hack, hbrought⟩ := htool
    refine ⟨h.daemon, ?_, hbrought⟩
    show ∀ e ∈ (if ok && accepts env then x.sent ++ [env] else x.sent), FromTool p mine e
    split
    · exact forall_mem_concat h.sent (Or.inr hack)
    · exact h.sent

end Both

/-! ## §4. How an exchange ends. -/

/-- **The outcomes.** -/
structure Exchanged (p : Ends) (mine : Store) (x : Exchange) : Prop where
  /-- The daemon never says what the tool does not expect. -/
  expected : x.pc ≠ .left .unexpected
  /-- If an offer was handled, the tool lists under the daemon's node what the
  daemon listed for it from one of its catalogs. -/
  received : x.pc = .left .received → Brought p x.catalogs x.cat
  /-- Any other way to end leaves the tool's catalog as it was. -/
  untouched : ∀ how, x.pc = .left how → how ≠ .received → x.cat = mine
  /-- If the tool has read an acknowledgement, the daemon has listed under the
  tool's node what the tool listed for it. -/
  acked : (∃ env ∈ (x.inbox p).take x.taken, isAck env = true) → Arrived p mine x.catalogs

theorem Inv.exchanged {p : Ends} {mine : Store} {x : Exchange} (h : Inv p mine x) :
    Exchanged p mine x := by
  have htool := h.tool
  unfold ToolOk at htool
  refine ⟨fun hpc => ?_, fun hpc => ?_, fun how hpc hne => ?_, ?_⟩
  · rw [hpc] at htool
    exact htool
  · rw [hpc] at htool
    exact htool
  · rw [hpc] at htool
    cases how with
    | received => exact absurd rfl hne
    | unexpected => exact htool.elim
    | sendFailed | timedOut | recvFailed => exact htool
  · rintro ⟨env, henv, hack⟩
    obtain ⟨c, hc, hcall⟩ := h.daemon.call
    have hmem : env ∈ c.sent := by
      have hin := List.mem_of_mem_take henv
      unfold Exchange.inbox at hin
      rw [hc] at hin
      exact hin
    exact hcall.acked ⟨env, List.mem_append_left _ hmem, hack⟩

/-- A daemon that has been running accepts the tool's connection. -/
theorem inv_start {daemonID toolID : NodeID} {h : Handler} {mine : Store}
    (hcat : Listable h.catalog) (hstamped : Stamped h) :
    Inv ⟨daemonID, toolID, h.calls.length⟩ mine (.start toolID h mine) := by
  refine ⟨⟨⟨ServeCall.fresh toolID h.version, List.getElem?_concat_length, ?_⟩, ?_, ?_, ?_⟩,
    ?_, rfl⟩
  · refine ⟨rfl, ?_, ?_, ?_, ?_⟩ <;> simp [ServeCall.fresh, ServePC.rest]
  · intro k offer stamp targets hk
    -- no broadcast has the connection in its snapshot yet
    obtain ⟨c, hc, -⟩ := hstamped.cast k _ offer stamp targets hk
    rw [List.getElem?_eq_none (Nat.le_refl _)] at hc
    cases hc
  · exact List.mem_singleton_self _
  · intro s hs
    rw [List.mem_singleton.mp hs]
    exact hcat
  · intro env henv
    cases henv

theorem listable_applyAll (n : NodeID) (ops : List Op) :
    Listable (Op.applyAll (Store.openFresh n) ops) :=
  ⟨Op.applyAll_wf ops DB.wf_empty, Op.applyAll_normal ops DB.wf_empty DB.normal_empty⟩

/-- **HOW AN EXCHANGE CAN END.**  For every history of the daemon and of the
tool's catalog, and for every interleaving of the exchange with whatever else the
daemon does: the tool never leaves over a message it does not expect; if it leaves
having handled an offer, it lists exactly what the daemon listed for it; if it
leaves otherwise, its catalog is as it was; and if it has read an
acknowledgement, its own catalog has arrived. -/
theorem exchange_outcomes (daemonID toolID : NodeID) (theirs ours : List Op) (sender : Sender)
    {before : List Protocol.Act} {h : Handler}
    (hrun : run Protocol.step (Handler.new (Op.applyAll (Store.openFresh daemonID) theirs) sender)
      before = some h) (acts : List ExchangeAct) :
    StatesMeet (Exchange.step ⟨daemonID, toolID, h.calls.length⟩)
      (Exchanged ⟨daemonID, toolID, h.calls.length⟩ (Op.applyAll (Store.openFresh toolID) ours))
      (.start toolID h (Op.applyAll (Store.openFresh toolID) ours)) acts := by
  have hmine := listable_applyAll toolID ours
  have hstamped : Stamped h :=
    run_invariant (fun _ _ _ hs ht => step_stamped hs ht) (stamped_new _ sender) hrun
  have hcat : Listable h.catalog :=
    run_invariant (P := fun h : Handler => Listable h.catalog)
      (fun _ _ _ hl hs => listable_step (Protocol.step_sound hs) hl)
      (listable_applyAll daemonID theirs) hrun
  have hinv : StatesMeet (Exchange.step ⟨daemonID, toolID, h.calls.length⟩)
      (Inv ⟨daemonID, toolID, h.calls.length⟩ (Op.applyAll (Store.openFresh toolID) ours))
      (.start toolID h (Op.applyAll (Store.openFresh toolID) ours)) acts :=
    statesMeet_of_stepsMeet (J := fun _ => True) (C := fun _ _ => True) (fun _ _ _ _ _ => trivial)
      (fun _ _ _ _ hi _ hs => step_inv hi hmine hs) trivial (inv_start hcat hstamped)
      (stepsMeet_true acts _)
  exact hinv.mono (fun _ hi => hi.exchanged)

/-- The tool of node `0xBB` has one file and joins node `0xAA`, which has another. -/
def oneFile : List Op := [.putLocal Clock.epoch (localFile 1)]
def otherFile : List Op := [.putLocal Clock.epoch (localFile 2)]

def joining : Exchange :=
  .start (Bytes.lit32 0xBB)
    (.new (Op.applyAll (Store.openFresh (Bytes.lit32 0xAA)) oneFile) idleHandler.sender)
    (Op.applyAll (Store.openFresh (Bytes.lit32 0xBB)) otherFile)

def joinEnds : Ends := ⟨Bytes.lit32 0xAA, Bytes.lit32 0xBB, 0⟩

/-- The offers cross. -/
def crossingOffers : List ExchangeAct :=
  [.list, .send true, .daemon (.listOffer 0), .daemon (.sendOffer 0), .recv Clock.epoch, .ack true]

theorem exchange_outcomes_crossing :
    (run (Exchange.step joinEnds) joining crossingOffers).map Exchange.pc = some (.left .received)
      ∧ StatesMeet (Exchange.step joinEnds)
        (Exchanged joinEnds (Op.applyAll (Store.openFresh (Bytes.lit32 0xBB)) otherFile))
        joining crossingOffers := by
  refine ⟨by decide +kernel, ?_⟩
  have hidle : run Protocol.step (Handler.new (Op.applyAll (Store.openFresh (Bytes.lit32 0xAA))
      oneFile) idleHandler.sender) [] = some _ := rfl
  exact exchange_outcomes (Bytes.lit32 0xAA) (Bytes.lit32 0xBB) oneFile otherFile
    idleHandler.sender hidle crossingOffers

/-- The tool is content with the daemon's initial offer and closes the
connection; the daemon has not read the tool's offer and never will. -/
example : (run (Exchange.step joinEnds) joining (crossingOffers ++ [.daemon (.ret 0)])).map
      (fun x => (x.pc, (x.cat.listByOwner (Bytes.lit32 0xAA)).length,
        (x.daemon.catalog.listByOwner (Bytes.lit32 0xBB)).length))
    = some (.left .received, 1, 0) := by
  decide +kernel

end Kin.Cmd
