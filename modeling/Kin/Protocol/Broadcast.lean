/-
  Kin.Protocol.Broadcast

  **IS THE LAST OFFER THE CURRENT ONE?**

  `sendCatalogOfferTo` lists the catalog in one step and sends the listing in
  another, and several callers do so on one connection at a time: the initial
  offer and the broadcasts of concurrent watcher callbacks.  The receiver
  replaces what it had by the last offer, so a listing made before a change and
  sent after it takes the change back.

    • `Stamped` — what every run knows of an offer listed at a catalog version,
    • `step_offerDue_iff` — on a connection that stays registered, the last
      offer is current or one is still due, unless a broadcast sends an old
      listing when no other offer is due,
    • `last_offer_current_iff` — so the last offer is the current one when all
      calls are done, exactly if that never happens.
-/
import Kin.Lib.Run
import Kin.Protocol.ConnRegistry
import Kin.Protocol.FileSession

namespace Kin.Protocol

open Kin.Lib Kin.Catalog Kin.Kinpb Kin.Transfer

/-! ## §1. Listings and their stamps. -/

/-- The offer may have been listed for the peer at the version: that version is
not ahead, and if it is the current one the offer is what a listing gives now. -/
def Handler.Lists (h : Handler) (peer : NodeID) (offer : CatalogOffer) (stamp : Nat) : Prop :=
  stamp ≤ h.version ∧ (stamp = h.version → offer = catalogOfferFor h.catalog peer)

/-- The last offer among the messages. -/
def lastOffer (envs : List Envelope) : Option Envelope := (envs.filter isOffer).getLast?

/-- The last offer of the call was listed as its stamp says. -/
def Handler.LastListed (h : Handler) (c : ServeCall) : Prop :=
  ∀ stamp, c.newest = some stamp →
    ∃ offer, lastOffer c.sent = some (offerMsg offer) ∧ h.Lists c.peer offer stamp

/-- What is known of every listing, whether it is still to be sent or is the
last one sent. -/
structure Stamped (h : Handler) : Prop where
  listed : ∀ (i : Nat) (c : ServeCall) (offer : CatalogOffer) (stamp : Nat),
    h.calls[i]? = some c → c.pc = .listed offer stamp → h.Lists c.peer offer stamp
  cast : ∀ (b t : Nat) (offer : CatalogOffer) (stamp : Nat) (targets : List Nat),
    h.casts[b]? = some (.listed t offer stamp targets) →
    ∃ c : ServeCall, h.calls[t]? = some c ∧ h.Lists c.peer offer stamp
  sent : ∀ (i : Nat) (c : ServeCall), h.calls[i]? = some c → h.LastListed c
  answers : ∀ i, NoOfferPending i h

theorem Handler.lists_now (h : Handler) (peer : NodeID) :
    h.Lists peer (catalogOfferFor h.catalog peer) h.version :=
  ⟨Nat.le_refl _, fun _ => rfl⟩

theorem dispatch_catalog (h : Handler) (peer : NodeID) (clk : Clock) {env : Envelope}
    (henv : isOffer env = false) :
    (h.dispatch peer clk env).1 = h.catalog ∧ versionAfter h.version env = h.version := by
  unfold Handler.dispatch versionAfter
  split
  next hp => exact ⟨rfl, by rw [hp]⟩
  next offer hp =>
    rw [isOffer_iff.mpr ⟨offer, hp⟩] at henv
    cases henv
  next hno =>
    refine ⟨rfl, ?_⟩
    split
    next offer hp => exact absurd hp (hno offer)
    next => rfl

/-- The catalog changes only together with its version. -/
theorem Step.catalog {h h' : Handler} {a : Act} (hs : Step h a h') :
    (h'.catalog = h.catalog ∧ h'.version = h.version) ∨ h.version < h'.version := by
  cases hs with
  | @recv i c clk env hc hpc =>
    cases henv : isOffer env with
    | false => exact Or.inl (dispatch_catalog h c.peer clk henv)
    | true =>
      obtain ⟨offer, hp⟩ := isOffer_iff.mp henv
      refine Or.inr ?_
      show h.version < versionAfter h.version env
      rw [versionAfter, hp]
      exact Nat.lt_succ_self h.version
  | change hok => exact Or.inr (Nat.lt_succ_self _)
  | _ => exact Or.inl ⟨rfl, rfl⟩

theorem Handler.Lists.step {h h' : Handler} {a : Act} (hs : Step h a h') {peer : NodeID}
    {offer : CatalogOffer} {stamp : Nat} (hl : h.Lists peer offer stamp) :
    h'.Lists peer offer stamp := by
  unfold Handler.Lists at hl ⊢
  rcases hs.catalog with ⟨hcat, hver⟩ | hlt
  · rw [hcat, hver]
    exact hl
  · exact ⟨by omega, fun heq => by omega⟩

/-! ## §2. Stamps in every run. -/

theorem lastOffer_append_offer (envs : List Envelope) (offer : CatalogOffer) :
    lastOffer (envs ++ [offerMsg offer]) = some (offerMsg offer) := by
  unfold lastOffer
  rw [List.filter_append]
  show (_ ++ [offerMsg offer]).getLast? = _
  exact List.getLast?_concat

theorem lastOffer_append_other {envs : List Envelope} {env : Envelope}
    (henv : isOffer env = false) : lastOffer (envs ++ [env]) = lastOffer envs := by
  unfold lastOffer
  rw [List.filter_append]
  simp [henv]

/-- An offer that has been sent is the last one, and its version the newest. -/
theorem ServeCall.sendOffer_last (c : ServeCall) {offer : CatalogOffer} (stamp : Nat)
    (hacc : accepts (offerMsg offer) = true) :
    (c.sendOffer offer stamp).newest = some stamp
      ∧ lastOffer (c.sendOffer offer stamp).sent = some (offerMsg offer) := by
  unfold ServeCall.sendOffer
  rw [if_pos hacc]
  exact ⟨rfl, lastOffer_append_offer c.sent offer⟩

theorem ServeCall.sendOffer_refused {c : ServeCall} {offer : CatalogOffer} {stamp : Nat}
    (hacc : accepts (offerMsg offer) = false) : c.sendOffer offer stamp = c := by
  unfold ServeCall.sendOffer
  rw [hacc]
  rfl

theorem ServeCall.sendNext_offers {c : ServeCall} {env : Envelope} {rest : List Envelope}
    (henv : isOffer env = false) :
    (c.sendNext env rest).newest = c.newest
      ∧ lastOffer (c.sendNext env rest).sent = lastOffer c.sent := by
  unfold ServeCall.sendNext ServeCall.send
  split
  · exact ⟨rfl, lastOffer_append_other henv⟩
  · exact ⟨rfl, rfl⟩

theorem Handler.LastListed.sendOffer {h : Handler} {c : ServeCall} (hl : h.LastListed c)
    {offer : CatalogOffer} {stamp : Nat} (hlists : h.Lists c.peer offer stamp) :
    h.LastListed (c.sendOffer offer stamp) := by
  cases hacc : accepts (offerMsg offer) with
  | false =>
    rw [ServeCall.sendOffer_refused hacc]
    exact hl
  | true =>
    obtain ⟨hnew, hlast⟩ := c.sendOffer_last stamp hacc
    intro s hs
    rw [hnew] at hs
    rw [← Option.some.inj hs]
    exact ⟨offer, hlast, by rw [ServeCall.sendOffer_peer]; exact hlists⟩

section Stamps

variable {h h' : Handler} {a : Act}

/-- The listing that a call is about to send is true after a step. -/
theorem Stamped.listed_step (hj : Stamped h) (hstep : Step h a h') {i : Nat} {c' : ServeCall}
    {offer : CatalogOffer} {stamp : Nat} (hc' : h'.calls[i]? = some c')
    (hpc' : c'.pc = .listed offer stamp) : h'.Lists c'.peer offer stamp := by
  rcases hstep.call hc' with ⟨peer, _, _, rfl⟩ | ⟨c, hc, rfl | hmove⟩
  · cases hpc'
  · exact (hj.listed i c' offer stamp hc hpc').step hstep
  · rw [hmove.peer_since.1]
    cases hmove with
    | listOffer hpc =>
      injection hpc' with hoffer hstamp
      rw [← hoffer, ← hstamp]
      -- a listing made in this very step
      exact (h.lists_now c.peer).step hstep
    | recv clk env hpc =>
      unfold ServePC.afterSend at hpc'
      split at hpc' <;> cases hpc'
    | sendNext hpc =>
      unfold ServeCall.sendNext ServePC.afterSend at hpc'
      split at hpc'
      · split at hpc' <;> cases hpc'
      · cases hpc'
    | castSend hb =>
      rw [ServeCall.sendOffer_pc] at hpc'
      exact (hj.listed i c offer stamp hc hpc').step hstep
    | sendOffer hpc => cases hpc'
    | interrupt hpc => cases hpc'
    | ret hpc => cases hpc'

/-- So is the listing of a broadcast: it was made for the peer of its target, and
the call keeps its peer. -/
theorem Stamped.cast_step (hj : Stamped h) (hstep : Step h a h') {b t : Nat}
    {offer : CatalogOffer} {stamp : Nat} {targets : List Nat}
    (hb : h'.casts[b]? = some (.listed t offer stamp targets)) :
    ∃ c, h'.calls[t]? = some c ∧ h'.Lists c.peer offer stamp := by
  have hkeep : ∀ {c : ServeCall}, h.calls[t]? = some c → h.Lists c.peer offer stamp →
      ∃ c, h'.calls[t]? = some c ∧ h'.Lists c.peer offer stamp := by
    intro c hc hl
    obtain ⟨c', hc', rfl | hmove⟩ := hstep.call_persists hc
    · exact ⟨c', hc', hl.step hstep⟩
    · exact ⟨c', hc', by rw [hmove.peer_since.1]; exact hl.step hstep⟩
  rcases hstep.cast hb with hold | hmove
  · obtain ⟨c, hc, hl⟩ := hj.cast b t offer stamp targets hold
    exact hkeep hc hl
  · generalize h.casts[b]? = before at hmove
    cases hmove with
    | castList ht hc => exact hkeep hc (h.lists_now _)

/-- And so is the stamp of the last offer sent. -/
theorem Stamped.sent_step (hj : Stamped h) (hstep : Step h a h') {i : Nat} {c' : ServeCall}
    (hc' : h'.calls[i]? = some c') : h'.LastListed c' := by
  have hlast : h.LastListed c' := by
    rcases hstep.call hc' with ⟨peer, _, _, rfl⟩ | ⟨c, hc, rfl | hmove⟩
    · nofun
    · exact hj.sent i c' hc
    · have hold := hj.sent i c hc
      cases hmove with
      | listOffer hpc => exact hold
      | sendOffer hpc => exact hold.sendOffer (hj.listed i c _ _ hc hpc)
      | recv clk env hpc => exact hold
      | sendNext hpc =>
        have hno := hj.answers i c hc _ (by rw [hpc]; exact List.mem_cons_self)
        obtain ⟨hn, hl⟩ := ServeCall.sendNext_offers hno
        intro s hs
        rw [hn] at hs
        rw [hl, (Moves.sendNext (h := h) (i := i) hpc).peer_since.1]
        exact hold s hs
      | interrupt hpc => exact hold
      | ret hpc => exact hold
      | castSend hb =>
        obtain ⟨c₀, hc₀, hl⟩ := hj.cast _ i _ _ _ hb
        rw [hc] at hc₀
        rw [← Option.some.inj hc₀] at hl
        exact hold.sendOffer hl
  intro stamp hnew'
  obtain ⟨offer, hlastOffer, hl⟩ := hlast stamp hnew'
  exact ⟨offer, hlastOffer, hl.step hstep⟩

/-- **One step** keeps every stamp true. -/
theorem step_stamped (hj : Stamped h) (hs : step h a = some h') : Stamped h' where
  listed _ _ _ _ hc' hpc' := hj.listed_step (step_sound hs) hc' hpc'
  cast _ _ _ _ _ hb := hj.cast_step (step_sound hs) hb
  sent _ _ hc' := hj.sent_step (step_sound hs) hc'
  answers i := step_noOfferPending i h a h' (hj.answers i) hs

end Stamps

theorem stamped_new (catalog : Store) (sender : Sender) : Stamped (Handler.new catalog sender) := by
  refine ⟨?_, ?_, ?_, ?_⟩
  · intro i c offer stamp hc
    cases hc
  · intro b t offer stamp targets hb
    cases hb
  · intro i c hc
    cases hc
  · intro i c hc
    cases hc

/-! ## §3. Offers that are still due. -/

/-- The broadcast will still list the catalog for connection `i`, or holds a
listing for it of the given version. -/
def Cast.Owes (i version : Nat) : Cast → Prop
  | .changed => True
  | .sending targets => i ∈ targets
  | .listed t _ stamp targets => (t = i ∧ stamp = version) ∨ i ∈ targets

/-- The same of the initial offer of a `Serve` call. -/
def ServePC.Owes (version : Nat) : ServePC → Prop
  | .registered => True
  | .listed _ stamp => stamp = version
  | _ => False

/-- Some broadcast owes connection `i` an offer of the current catalog. -/
def Handler.CastOwes (h : Handler) (i : Nat) : Prop :=
  ∃ (b : Nat) (x : Cast), h.casts[b]? = some x ∧ x.Owes i h.version

/-- If the catalog has changed since connection `i` was registered: the last
offer sent on it is of the current catalog, or such an offer is still due. -/
def OfferDue (i : Nat) (h : Handler) : Prop :=
  ∀ c : ServeCall, h.calls[i]? = some c → c.since < h.version →
    c.newest = some h.version ∨ h.CastOwes i ∨ c.pc.Owes h.version

/-- The initial offer that is listed and not sent, with its version. -/
def ServePC.listing? : ServePC → Option (CatalogOffer × Nat)
  | .listed offer stamp => some (offer, stamp)
  | _ => none

/-- The offer the broadcast has listed for connection `i` and not sent, with its
version and the connections that come after. -/
def Cast.listing? (i : Nat) : Cast → Option (CatalogOffer × Nat × List Nat)
  | .listed t offer stamp targets => if t = i then some (offer, stamp, targets) else none
  | _ => none

theorem ServePC.listing?_eq_some {pc : ServePC} {offer : CatalogOffer} {stamp : Nat} :
    pc.listing? = some (offer, stamp) ↔ pc = .listed offer stamp := by
  cases pc <;> simp [ServePC.listing?]

theorem Cast.listing?_eq_some {i : Nat} {x : Cast} {offer : CatalogOffer} {stamp : Nat}
    {targets : List Nat} :
    x.listing? i = some (offer, stamp, targets) ↔ x = .listed i offer stamp targets := by
  cases x <;> simp [Cast.listing?]

/-- Once connection `i` is registered it is its peer's one connection and stays
registered, the catalog is changed by watcher callbacks only, and no offer sent
on the connection fails. -/
def OneConnection (i : Nat) (h : Handler) : Act → Prop
  | .serve peer => ∀ c, h.calls[i]? = some c → c.peer ≠ peer
  | .ret j => ∀ c d, h.calls[i]? = some c → h.calls[j]? = some d → d.peer ≠ c.peer
  | .recv _ _ env => ∀ c, h.calls[i]? = some c → isOffer env = false
  | .sendOffer j =>
    j = i → ∀ c offer stamp, h.calls[i]? = some c → c.pc = .listed offer stamp →
      accepts (offerMsg offer) = true
  | .castSend b =>
    ∀ offer stamp targets, h.casts[b]? = some (.listed i offer stamp targets) →
      accepts (offerMsg offer) = true
  | _ => True

instance (i : Nat) (h : Handler) (a : Act) : Decidable (OneConnection i h a) :=
  match a with
  | .serve peer => decidable_of_iff (∀ c ∈ h.calls[i]?, c.peer ≠ peer) Iff.rfl
  | .ret j =>
    decidable_of_iff (∀ c ∈ h.calls[i]?, ∀ d ∈ h.calls[j]?, d.peer ≠ c.peer)
      ⟨fun hall c d hc => hall c hc d, fun hall c hc d => hall c d hc⟩
  | .recv _ _ env => decidable_of_iff (∀ c ∈ h.calls[i]?, isOffer env = false) Iff.rfl
  | .sendOffer j =>
    decidable_of_iff (j = i → ∀ c ∈ h.calls[i]?, ∀ l ∈ c.pc.listing?,
        accepts (offerMsg l.1) = true)
      ⟨fun hall hj c offer stamp hc hpc => hall hj c hc (offer, stamp) (by rw [hpc]; rfl),
        fun hall hj c hc (offer, stamp) hl =>
          hall hj c offer stamp hc (ServePC.listing?_eq_some.mp hl)⟩
  | .castSend b =>
    decidable_of_iff (∀ x ∈ h.casts[b]?, ∀ l ∈ x.listing? i, accepts (offerMsg l.1) = true)
      ⟨fun hall offer stamp targets hb => hall _ hb (offer, stamp, targets) (if_pos rfl),
        fun hall x hx (offer, stamp, targets) hl => by
          rw [Cast.listing?_eq_some.mp hl] at hx
          exact hall offer stamp targets hx⟩
  | .listOffer _ | .sendNext _ | .interrupt _ | .change _ | .snapshot _ | .castList _ _
  | .files _ => isTrue trivial

/-- A listing that is sent on connection `i` is of the current catalog, unless
another offer of the current catalog is still due afterwards. -/
def NoStaleSend (i : Nat) (h : Handler) : Act → Prop
  | .sendOffer j =>
    j = i → ∀ c offer stamp, h.calls[i]? = some c → c.pc = .listed offer stamp →
      c.since < h.version → stamp = h.version ∨ h.CastOwes i
  | .castSend b =>
    ∀ c offer stamp targets, h.casts[b]? = some (.listed i offer stamp targets) →
      h.calls[i]? = some c → c.since < h.version →
      stamp = h.version ∨ (h.setCast b (.sending targets)).CastOwes i ∨ c.pc.Owes h.version
  | _ => True

instance (i version : Nat) (x : Cast) : Decidable (x.Owes i version) := by
  cases x <;> unfold Cast.Owes <;> infer_instance

instance (version : Nat) (pc : ServePC) : Decidable (pc.Owes version) := by
  cases pc <;> unfold ServePC.Owes <;> infer_instance

instance (h : Handler) (i : Nat) : Decidable (h.CastOwes i) :=
  decidable_of_iff (∃ x ∈ h.casts, x.Owes i h.version)
    ⟨fun ⟨x, hx, how⟩ => by
        obtain ⟨b, hb⟩ := List.mem_iff_getElem?.mp hx
        exact ⟨b, x, hb, how⟩,
      fun ⟨_, x, hb, how⟩ => ⟨x, List.mem_of_getElem? hb, how⟩⟩

instance (i : Nat) (h : Handler) (a : Act) : Decidable (NoStaleSend i h a) :=
  match a with
  | .sendOffer j =>
    decidable_of_iff (j = i → ∀ c ∈ h.calls[i]?, ∀ l ∈ c.pc.listing?, c.since < h.version →
        l.2 = h.version ∨ h.CastOwes i)
      ⟨fun hall hj c offer stamp hc hpc => hall hj c hc (offer, stamp) (by rw [hpc]; rfl),
        fun hall hj c hc (offer, stamp) hl =>
          hall hj c offer stamp hc (ServePC.listing?_eq_some.mp hl)⟩
  | .castSend b =>
    decidable_of_iff (∀ x ∈ h.casts[b]?, ∀ l ∈ x.listing? i, ∀ c ∈ h.calls[i]?,
        c.since < h.version → l.2.1 = h.version
          ∨ (h.setCast b (.sending l.2.2)).CastOwes i ∨ c.pc.Owes h.version)
      ⟨fun hall c offer stamp targets hb hc =>
          hall _ hb (offer, stamp, targets) (if_pos rfl) c hc,
        fun hall x hx (offer, stamp, targets) hl c hc => by
          rw [Cast.listing?_eq_some.mp hl] at hx
          exact hall c offer stamp targets hx hc⟩
  | .serve _ | .listOffer _ | .recv _ _ _ | .sendNext _ | .interrupt _ | .ret _ | .change _
  | .snapshot _ | .castList _ _ | .files _ => isTrue trivial

/-- Connection `i` is the registered connection of its peer. -/
def InRegistry (i : Nat) (h : Handler) : Prop :=
  ∀ c : ServeCall, h.calls[i]? = some c → h.conns.lookup c.peer = some i

theorem step_inRegistry {i : Nat} {h h' : Handler} {a : Act} (hr : InRegistry i h)
    (hone : OneConnection i h a) (hs : Step h a h') : InRegistry i h' := by
  intro c' hc'
  -- the peer of call `i` is the one it had before the step
  have hold : h'.conns = h.conns → (∀ peer, a ≠ .serve peer) → h'.conns.lookup c'.peer = some i := by
    intro hconns hserve
    rw [hconns]
    rcases hs.call hc' with ⟨peer, ha, _⟩ | ⟨c, hc, rfl | hmove⟩
    · exact absurd ha (hserve peer)
    · exact hr c' hc
    · rw [hmove.peer_since.1]
      exact hr c hc
  cases hs with
  | serve peer =>
    show (h.conns.insert peer h.calls.length).lookup c'.peer = some i
    rcases (Step.serve (h := h) peer).call hc' with ⟨q, ha, hi, rfl⟩ | ⟨c, hc, rfl | hmove⟩
    · injection ha with ha
      show (h.conns.insert peer h.calls.length).lookup q = some i
      rw [← ha, AList.lookup_insert, hi]
    · rw [AList.lookup_insert_ne (hone c' hc)]
      exact hr c' hc
    · cases hmove
  | @ret j d hd hpc =>
    show (h.conns.erase d.peer).lookup c'.peer = some i
    have hcall := (Step.ret hd hpc).call hc'
    rcases hcall with ⟨q, ha, _⟩ | ⟨c, hc, hc''⟩
    · cases ha
    · have hpeer : c'.peer = c.peer := by
        rcases hc'' with rfl | hmove
        · rfl
        · exact hmove.peer_since.1
      have hne := hone c d hc hd
      rw [hpeer, AList.lookup_erase_ne (Ne.symm hne)]
      exact hr c hc
  | _ => exact hold rfl nofun

/-! ## §4. One step. -/

/-- The step sends a catalog offer on connection `i`. -/
def SendsOn (i : Nat) (h : Handler) (a : Act) : Prop :=
  a = .sendOffer i ∨ ∃ b offer stamp targets, a = .castSend b
    ∧ h.casts[b]? = some (.listed i offer stamp targets)

/-- Any other move of the call leaves its last offer, and what it owes, alone. -/
theorem Moves.keeps_offer {h : Handler} {i : Nat} {c c' : ServeCall} {a : Act}
    (hm : Moves h i c a c') (hno : ¬ SendsOn i h a) :
    c'.newest = c.newest ∧ (c.pc.Owes h.version → c'.pc.Owes h.version) := by
  have hidle : ∀ {pc pc' : ServePC}, c.pc = pc → ¬ pc.Owes h.version →
      c.pc.Owes h.version → pc'.Owes h.version := by
    intro pc pc' hpc hnot how
    rw [hpc] at how
    exact absurd how hnot
  cases hm with
  | listOffer hpc => exact ⟨rfl, fun _ => rfl⟩
  | sendOffer hpc => exact absurd (Or.inl rfl) hno
  | recv clk env hpc => exact ⟨rfl, hidle hpc id⟩
  | sendNext hpc =>
    refine ⟨?_, hidle hpc id⟩
    unfold ServeCall.sendNext ServeCall.send
    split <;> rfl
  | interrupt hpc => exact ⟨rfl, hidle hpc id⟩
  | ret hpc => exact ⟨rfl, hidle hpc id⟩
  | castSend hb => exact absurd (Or.inr ⟨_, _, _, _, rfl, hb⟩) hno

theorem castOwes_setCast {h : Handler} {i b : Nat} {x y : Cast} (hb : h.casts[b]? = some y)
    (hxy : y.Owes i h.version → x.Owes i h.version) (how : h.CastOwes i) :
    (h.setCast b x).CastOwes i := by
  obtain ⟨d, z, hd, hz⟩ := how
  by_cases hdb : d = b
  · subst hdb
    rw [hb] at hd
    rw [← Option.some.inj hd] at hz
    refine ⟨d, x, ?_, hxy hz⟩
    exact getElem?_set_of_getElem? hb
  · refine ⟨d, z, ?_, hz⟩
    show (h.casts.set b x)[d]? = some z
    rw [List.getElem?_set_ne (Ne.symm hdb)]
    exact hd

/-- A step that neither changes the catalog nor sends an offer on connection
`i`, and after which broadcasts owe what they owed. -/
theorem offerDue_of_kept {i : Nat} {h h' : Handler} {a : Act} (hs : Step h a h')
    (hno : ¬ SendsOn i h a) (hver : h'.version = h.version)
    (hcast : h.CastOwes i → h'.CastOwes i) (hp : OfferDue i h) : OfferDue i h' := by
  intro c' hc' hsince
  rw [hver] at hsince ⊢
  rcases hs.call hc' with ⟨peer, _, _, rfl⟩ | ⟨c, hc, rfl | hmove⟩
  · exact absurd hsince (Nat.lt_irrefl h.version)
  · rcases hp c' hc hsince with hnew | how | how
    · exact Or.inl hnew
    · exact Or.inr (Or.inl (hcast how))
    · exact Or.inr (Or.inr how)
  · obtain ⟨hnew', hpc'⟩ := hmove.keeps_offer hno
    rw [hmove.peer_since.2] at hsince
    rcases hp c hc hsince with hnew | how | how
    · exact Or.inl (hnew'.trans hnew)
    · exact Or.inr (Or.inl (hcast how))
    · exact Or.inr (Or.inr (hpc' how))

/-- An offer is sent on connection `i`: it becomes the last one. -/
theorem offerDue_of_sent {i : Nat} {h : Handler} (h' : Handler) {c : ServeCall}
    {offer : CatalogOffer} {stamp : Nat} (pc : ServePC) (hc : h.calls[i]? = some c)
    (hacc : accepts (offerMsg offer) = true) (hver : h'.version = h.version)
    (hcalls : h'.calls = h.calls.set i { c.sendOffer offer stamp with pc := pc }) :
    OfferDue i h' ↔
      (c.since < h.version → stamp = h.version ∨ h'.CastOwes i ∨ pc.Owes h.version) := by
  have hget : h'.calls[i]? = some { c.sendOffer offer stamp with pc := pc } := by
    rw [hcalls]
    exact getElem?_set_of_getElem? hc
  have hnew := (c.sendOffer_last stamp hacc).1
  unfold OfferDue
  rw [hget, hver]
  constructor
  · intro hdue hsince
    have h3 := hdue _ rfl (by rw [← ServeCall.sendOffer_since c offer stamp] at hsince; exact hsince)
    exact h3.imp_left (fun hn => Option.some.inj (hnew.symm.trans hn))
  · intro hdue c' hc' hsince
    rw [← Option.some.inj hc'] at hsince ⊢
    rw [← ServeCall.sendOffer_since c offer stamp] at hdue
    exact (hdue hsince).imp_left (fun hs => hnew.trans (congrArg some hs))

/-- The initial offer, sent on connection `i` or on another. -/
theorem sendOffer_offerDue_iff {i j : Nat} {h : Handler} {c : ServeCall} {offer : CatalogOffer}
    {stamp : Nat} (hp : OfferDue i h) (hone : OneConnection i h (.sendOffer j))
    (hc : h.calls[j]? = some c) (hpc : c.pc = .listed offer stamp) :
    OfferDue i (h.setCall j { c.sendOffer offer stamp with pc := .reading })
      ↔ NoStaleSend i h (.sendOffer j) := by
  by_cases hj : j = i
  · subst hj
    rw [offerDue_of_sent (h.setCall j { c.sendOffer offer stamp with pc := .reading }) .reading
      hc (hone rfl c offer stamp hc hpc) rfl rfl]
    refine ⟨fun hdue _ c' offer' stamp' hc' hpc' hsince => ?_, fun hns hsince => ?_⟩
    · rw [hc] at hc'
      rw [← Option.some.inj hc'] at hpc' hsince
      rw [hpc] at hpc'
      injection hpc' with _ hstamp
      rw [← hstamp]
      exact (hdue hsince).imp_right (fun how => how.resolve_right id)
    · exact (hns rfl c offer stamp hc hpc hsince).imp_right Or.inl
  · refine iff_of_true (offerDue_of_kept (.sendOffer hc hpc) ?_ rfl id hp)
      (fun heq => absurd heq hj)
    rintro (heq | ⟨b, _, _, _, heq, _⟩)
    · injection heq with heq
      exact hj heq
    · cases heq

/-- The offer of a broadcast, sent on connection `i` or on another. -/
theorem castSend_offerDue_iff {i b t : Nat} {h : Handler} {c : ServeCall} {offer : CatalogOffer}
    {stamp : Nat} {targets : List Nat} (hp : OfferDue i h)
    (hone : OneConnection i h (.castSend b))
    (hb : h.casts[b]? = some (.listed t offer stamp targets)) (hc : h.calls[t]? = some c) :
    OfferDue i ((h.setCall t (c.sendOffer offer stamp)).setCast b (.sending targets))
      ↔ NoStaleSend i h (.castSend b) := by
  by_cases ht : t = i
  · subst ht
    rw [offerDue_of_sent ((h.setCall t (c.sendOffer offer stamp)).setCast b (.sending targets))
      c.pc hc (hone offer stamp targets hb) rfl
      (by rw [← ServeCall.sendOffer_pc c offer stamp]; rfl)]
    refine ⟨fun hdue c' offer' stamp' targets' hb' hc' hsince => ?_, fun hns hsince => ?_⟩
    · rw [hb] at hb'
      injection hb' with hb'
      injection hb' with _ _ hstamp htargets
      rw [hc] at hc'
      rw [← Option.some.inj hc'] at hsince ⊢
      rw [← hstamp, ← htargets]
      exact hdue hsince
    · exact hns c offer stamp targets hb hc hsince
  · have hother : ∀ offer' stamp' targets',
        h.casts[b]? ≠ some (.listed i offer' stamp' targets') := by
      intro offer' stamp' targets' hb'
      rw [hb] at hb'
      injection hb' with hb'
      injection hb' with heq
      exact ht heq
    refine iff_of_true (offerDue_of_kept (.castSend hb hc) ?_ rfl ?_ hp)
      (fun _ _ _ _ hb' => absurd hb' (hother _ _ _))
    · rintro (heq | ⟨b', _, _, _, heq, hb'⟩)
      · cases heq
      · injection heq with heq
        rw [← heq] at hb'
        exact hother _ _ _ hb'
    · -- the listing it held was for another connection
      intro how
      have hset : (h.setCast b (.sending targets)).CastOwes i :=
        castOwes_setCast hb (fun hx => hx.resolve_left (fun hx => ht hx.1)) how
      exact hset

/-- **One step** on a connection that stays registered: exactly the steps that
meet `NoStaleSend` leave the last offer current or another one due. -/
theorem step_offerDue_iff {i : Nat} {h h' : Handler} {a : Act} (hr : InRegistry i h)
    (hp : OfferDue i h) (hone : OneConnection i h a) (hs : Step h a h') :
    OfferDue i h' ↔ NoStaleSend i h a := by
  have hstep := hs
  cases hs with
  | sendOffer hc hpc => exact sendOffer_offerDue_iff hp hone hc hpc
  | castSend hb hc => exact castSend_offerDue_iff hp hone hb hc
  | change hok =>
    -- the new broadcast owes every connection an offer
    refine iff_of_true (fun c _ _ => Or.inr (Or.inl ⟨h.casts.length, .changed, ?_, trivial⟩))
      trivial
    exact List.getElem?_concat_length
  | recv clk env hc hpc =>
    refine iff_of_true (fun c' hc' => ?_) trivial
    have henv : isOffer env = false := by
      rcases hstep.call hc' with ⟨peer, ha, _⟩ | ⟨c, hc, _⟩
      · cases ha
      · exact hone c hc
    have hver : versionAfter h.version env = h.version :=
      (dispatch_catalog h c'.peer clk henv).2
    refine offerDue_of_kept hstep ?_ hver (fun ⟨b, x, hb, hx⟩ => ⟨b, x, hb, ?_⟩) hp c' hc'
    · rintro (heq | ⟨_, _, _, _, heq, _⟩) <;> cases heq
    · show x.Owes i (versionAfter h.version env)
      rw [hver]
      exact hx
  | snapshot hb =>
    -- connection `i` is in the registry, so it is in the snapshot
    refine iff_of_true (fun c' hc' => ?_) trivial
    -- (call `i` existed before: a snapshot starts no call)
    have hmem : i ∈ h.snapshot := (mem_snapshot h i).mpr ⟨c'.peer, hr c' hc'⟩
    refine offerDue_of_kept hstep ?_ rfl (castOwes_setCast hb (fun _ => hmem)) hp c' hc'
    rintro (heq | ⟨_, _, _, _, heq, _⟩) <;> cases heq
  | castList hb ht hc =>
    rename_i b t targets c
    refine iff_of_true (offerDue_of_kept hstep ?_ rfl (castOwes_setCast hb ?_) hp) trivial
    · rintro (heq | ⟨_, _, _, _, heq, _⟩) <;> cases heq
    · intro hi
      by_cases hti : t = i
      · exact Or.inl ⟨hti, rfl⟩
      · exact Or.inr ((List.mem_erase_of_ne (Ne.symm hti)).mpr hi)
  | _ =>
    refine iff_of_true (offerDue_of_kept hstep ?_ rfl id hp) trivial
    rintro (heq | ⟨_, _, _, _, heq, _⟩) <;> cases heq

/-! ## §5. Every run. -/

/-- The initial offer of the call has been sent. -/
def ServePC.offered : ServePC → Bool
  | .registered => false
  | .listed _ _ => false
  | _ => true

/-- All broadcasts have been sent, and so has the initial offer of the call. -/
def Handler.AllSent (h : Handler) (c : ServeCall) : Prop :=
  (∀ x ∈ h.casts, x = .sending []) ∧ c.pc.offered = true

instance (h : Handler) (c : ServeCall) : Decidable (h.AllSent c) := by
  unfold Handler.AllSent
  infer_instance

theorem ServePC.offered_owes_nothing {pc : ServePC} (hpc : pc.offered = true) (version : Nat) :
    ¬ pc.Owes version := by
  cases pc with
  | registered => cases hpc
  | listed offer stamp => cases hpc
  | reading => exact id
  | sending rest => exact id
  | returned => exact id

theorem Handler.AllSent.owes_nothing {h : Handler} {c : ServeCall} (hall : h.AllSent c) (i : Nat) :
    ¬ (h.CastOwes i ∨ c.pc.Owes h.version) := by
  rintro (⟨b, x, hb, hx⟩ | hpc)
  · rw [hall.1 x (List.mem_of_getElem? hb)] at hx
    cases hx
  · exact ServePC.offered_owes_nothing hall.2 h.version hpc

/-- **EVERY RUN** in which connection `i` stays its peer's one connection, the
watcher callbacks change the catalog and no send fails: after a change, the
last offer sent on the connection is of the current catalog or such an offer is
still due, in every state the run goes through, if and only if no old listing
is sent when no other offer is due.  And then, once all is sent, the last offer
is what listing the catalog for the peer gives. -/
theorem last_offer_current_iff (catalog : Store) (sender : Sender) (i : Nat) (as : List Act)
    (hone : StepsMeet step (OneConnection i) (Handler.new catalog sender) as) :
    (StatesMeet step (OfferDue i) (Handler.new catalog sender) as
        ↔ StepsMeet step (NoStaleSend i) (Handler.new catalog sender) as)
    ∧ (StepsMeet step (NoStaleSend i) (Handler.new catalog sender) as →
        ∀ h c, run step (Handler.new catalog sender) as = some h → h.calls[i]? = some c →
          c.since < h.version → h.AllSent c →
          lastOffer c.sent = some (offerMsg (catalogOfferFor h.catalog c.peer))) := by
  have hiff : StatesMeet step (OfferDue i) (Handler.new catalog sender) as
      ↔ StepsMeet step (NoStaleSend i) (Handler.new catalog sender) as := by
    refine statesMeet_iff_stepsMeet_within (J := InRegistry i)
      (fun h a h' hr hone hs => step_inRegistry hr hone (step_sound hs))
      (fun h a h' hr hp hone hs => step_offerDue_iff hr hp hone (step_sound hs)) hone ?_ ?_
    · intro c hc
      cases hc
    · intro c hc
      cases hc
  refine ⟨hiff, fun hns h c hrun hc hsince hall => ?_⟩
  -- nothing is due any more, so the last offer is of the current version
  have hdue := (hiff.mpr hns).last hrun c hc hsince
  have hnew : c.newest = some h.version := hdue.resolve_right (hall.owes_nothing i)
  have hstamped := run_invariant (fun _ _ _ => step_stamped) (stamped_new catalog sender) hrun
  obtain ⟨offer, hlast, hlists⟩ := hstamped.sent i c hc h.version hnew
  rw [hlast, hlists.2 rfl]

/-! ## §6. A listing overtaken by another. -/

/-- A connection of node `0xBB` is served and gets its initial offer; then one
callback adds a file and broadcasts. -/
def oneChangeRun : List Act :=
  [.serve (Bytes.lit32 0xBB), .listOffer 0, .sendOffer 0,
    .change (.putLocal Clock.epoch (localFile 1)), .snapshot 0, .castList 0 0, .castSend 0]

/-- A second callback adds another file and broadcasts while the first one
stands between listing and sending. -/
def overtakenRun : List Act :=
  [.serve (Bytes.lit32 0xBB), .listOffer 0, .sendOffer 0,
    .change (.putLocal Clock.epoch (localFile 1)), .snapshot 0, .castList 0 0,
    .change (.putLocal Clock.epoch (localFile 2)), .snapshot 1, .castList 1 0, .castSend 1,
    .castSend 0]

/-- One change, one broadcast: nothing is overtaken. -/
theorem last_offer_current_one_change :
    StepsMeet step (NoStaleSend 0) idleHandler oneChangeRun
    ∧ ∃ h ∈ run step idleHandler oneChangeRun, ∃ c ∈ h.calls[0]?, c.since < h.version
      ∧ h.AllSent c ∧ lastOffer c.sent = some (offerMsg (catalogOfferFor h.catalog c.peer)) := by
  have hone : StepsMeet step (OneConnection 0) idleHandler oneChangeRun := by decide +kernel
  have hns : StepsMeet step (NoStaleSend 0) idleHandler oneChangeRun := by decide +kernel
  have hend : ∃ h ∈ run step idleHandler oneChangeRun, ∃ c ∈ h.calls[0]?, c.since < h.version
      ∧ h.AllSent c := by decide +kernel
  obtain ⟨h, hrun, c, hc, hsince, hall⟩ := hend
  exact ⟨hns, h, hrun, c, hc, hsince, hall,
    (last_offer_current_iff _ _ 0 oneChangeRun hone).2 hns h c hrun hc hsince hall⟩

/-- All is sent, and the last offer is not what listing the catalog gives. -/
theorem overtaken_listing_is_last :
    StepsMeet step (OneConnection 0) idleHandler overtakenRun
    ∧ ∃ h ∈ run step idleHandler overtakenRun, ∃ c ∈ h.calls[0]?,
        c.since < h.version ∧ h.AllSent c
        ∧ lastOffer c.sent ≠ some (offerMsg (catalogOfferFor h.catalog c.peer)) := by
  refine ⟨by decide +kernel, by decide +kernel⟩

end Kin.Protocol
