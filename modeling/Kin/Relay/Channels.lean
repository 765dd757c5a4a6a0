/-
  Kin.Relay.Channels

  **THE CHANNELS OF THE RELAY CLIENT ARE USED SAFELY.**

  Calls create channels, overwrite and delete each other's entries in
  `pending`, and leave late; `readLoop` sends on what it finds there and the
  teardown closes what it finds there.  Closing a closed channel or sending on
  one panics.

    • `Sound` — the invariant: an entry of `pending` is the open channel of a
      call for that target, so that no channel has two entries,
    • `Later` — what no step takes back: a closed channel, a call's result,
    • `client_channels_safe` — over every run: no panic, `pending` is empty once
      the client is closed, and the teardown releases every call it finds there.
-/
import Kin.Lib.Run
import Kin.Relay.Teardown

namespace Kin.RelayClient

open Kin.Lib Kin.Kinpb

/-! ## §1. Places of calls and channels. -/

/-- The channel a call is going to receive from. -/
def WaiterPC.chan? : WaiterPC → Option Nat
  | .registered ch => some ch
  | .waiting ch => some ch
  | _ => none

/-- The result of a call, once it is known. -/
def WaiterPC.result? : WaiterPC → Option (Except String RendezvousInfo)
  | .leaving res => some res
  | .done res => some res
  | _ => none

theorem getElem?_setPC (c : Client) (k : Nat) (pc : WaiterPC) (j : Nat) :
    (c.setPC k pc).waiters[j]?
      = (c.waiters[j]?).map (fun w => if k = j then { w with pc := pc } else w) := by
  unfold Client.setPC
  rw [List.getElem?_modify]
  by_cases hkj : k = j
  · simp [hkj]
  · simp [hkj]

/-- The channels after the entries' have been closed. -/
theorem getElem?_closeChans (es : List (Sigma (fun _ : NodeID => Nat))) (i : Nat) :
    ∀ c : Client, (es.foldl (fun c e => c.closeChan e.2) c).chans[i]?
      = (c.chans[i]?).map (fun ch =>
          { ch with closed := ch.closed || decide (i ∈ es.map (fun e => e.2)) }) := by
  induction es with
  | nil =>
    intro c
    simp
  | cons e es ih =>
    intro c
    rw [List.foldl_cons, ih]
    unfold Client.closeChan
    simp only [List.getElem?_modify]
    cases c.chans[i]? with
    | none => simp
    | some ch =>
      by_cases hi : e.2 = i
      · simp [hi]
      · have hmem : i ∈ (e :: es).map (fun e => e.2) ↔ i ∈ es.map (fun e => e.2) := by
          rw [List.map_cons, List.mem_cons, or_iff_right (Ne.symm hi)]
        simp only [hmem, if_neg hi, Option.map_some, Option.map_eq_map]

/-- Closing channels leaves the rest of the client alone. -/
theorem closeChans_frame (es : List (Sigma (fun _ : NodeID => Nat))) : ∀ c : Client,
    es.foldl (fun c e => c.closeChan e.2) c
      = { c with
          chans := (es.foldl (fun c e => c.closeChan e.2) c).chans
          panicked := (es.foldl (fun c e => c.closeChan e.2) c).panicked } := by
  induction es with
  | nil =>
    intro c
    rfl
  | cons e es ih =>
    intro c
    rw [List.foldl_cons]
    exact ih (c.closeChan e.2)

/-- Closing different open channels does not panic. -/
theorem closeChans_calm (es : List (Sigma (fun _ : NodeID => Nat))) : ∀ c : Client,
    (es.map (fun e => e.2)).Nodup →
    (∀ e ∈ es, ∃ ch, c.chans[e.2]? = some ch ∧ ch.closed = false) → c.panicked = false →
    (es.foldl (fun c e => c.closeChan e.2) c).panicked = false := by
  induction es with
  | nil => exact fun c _ _ h => h
  | cons e es ih =>
    intro c hnodup hopen hcalm
    rw [List.map_cons, List.nodup_cons] at hnodup
    obtain ⟨ch, hch, hclosed⟩ := hopen e List.mem_cons_self
    rw [List.foldl_cons]
    refine ih (c.closeChan e.2) hnodup.2 (fun e' he' => ?_) ?_
    · -- the others are still open: none of them is the one just closed
      obtain ⟨ch', hch', hclosed'⟩ := hopen e' (List.mem_cons_of_mem _ he')
      have hne : e.2 ≠ e'.2 := fun heq =>
        hnodup.1 (heq ▸ List.mem_map_of_mem (f := fun e => e.2) he')
      refine ⟨ch', ?_, hclosed'⟩
      show (c.chans.modify e.2 _)[e'.2]? = some ch'
      rw [List.getElem?_modify, hch']
      simp [hne]
    · simp [Client.closeChan, hcalm, hch, hclosed]

/-! ## §2. The invariant. -/

/-- Channel `k` is open, and call `k` is for this target and has not returned. -/
def Client.OpenFor (c : Client) (target : NodeID) (k : Nat) : Prop :=
  (∃ ch, c.chans[k]? = some ch ∧ ch.closed = false)
    ∧ ∃ w, c.waiters[k]? = some w ∧ w.target = target ∧ ∀ res, w.pc ≠ .done res

structure Sound (c : Client) : Prop where
  calm : c.panicked = false
  incoming : c.incomingClosed = c.closed
  emptied : c.closed = true → c.pending = ∅
  /-- Call `k` creates channel `k`. -/
  numbered : c.closed = false → c.chans.length = c.waiters.length
  /-- A call receives from its own channel. -/
  own : ∀ (k : Nat) (w : Waiter) (ch : Nat), c.waiters[k]? = some w → w.pc.chan? = some ch →
    ch = k ∧ ∃ x, c.chans[k]? = some x
  entry : ∀ target k, c.pending.lookup target = some k → c.OpenFor target k

theorem sound_new : Sound Client.new where
  calm := rfl
  incoming := rfl
  emptied := fun _ => rfl
  numbered := fun _ => rfl
  own := by simp [Client.new]
  entry := fun target k h => by cases h

namespace Sound

variable {c : Client}

/-- Where a call moves, it receives from no channel but its own. -/
theorem own_setPC (h : Sound c) {k : Nat} {pc : WaiterPC}
    (hchan : ∀ w ch, c.waiters[k]? = some w → pc.chan? = some ch → w.pc.chan? = some ch) {j : Nat}
    {w : Waiter} {ch : Nat} (hw : (c.setPC k pc).waiters[j]? = some w)
    (hch : w.pc.chan? = some ch) : ch = j ∧ ∃ x, c.chans[j]? = some x := by
  rw [getElem?_setPC] at hw
  obtain ⟨v, hv, rfl⟩ := Option.map_eq_some_iff.mp hw
  by_cases hkj : k = j
  · subst hkj
    rw [if_pos rfl] at hch
    exact h.own k v ch hv (hchan v ch hv hch)
  · rw [if_neg hkj] at hch
    exact h.own j v ch hv hch

/-- A call moves on, short of returning, and not to another channel. -/
theorem setPC (h : Sound c) {k : Nat} {w : Waiter} (hw : c.waiters[k]? = some w) {pc : WaiterPC}
    (hchan : ∀ ch, pc.chan? = some ch → w.pc.chan? = some ch) (hdone : ∀ res, pc ≠ .done res) :
    Sound (c.setPC k pc) where
  calm := h.calm
  incoming := h.incoming
  emptied := h.emptied
  numbered := fun hc => by
    rw [show (c.setPC k pc).waiters.length = c.waiters.length from List.length_modify _ _ _]
    exact h.numbered hc
  own := by
    intro j w' ch hw' hch
    refine h.own_setPC (fun v ch hv hpc => ?_) hw' hch
    rw [← Option.some.inj (hw.symm.trans hv)]
    exact hchan ch hpc
  entry := by
    intro target j hj
    obtain ⟨hopen, v, hv, htarget, hnot⟩ := h.entry target j hj
    refine ⟨hopen, _, by rw [getElem?_setPC, hv]; rfl, ?_, ?_⟩
    · by_cases hkj : k = j <;> simp [hkj, htarget]
    · by_cases hkj : k = j
      · simpa [hkj] using hdone
      · simpa [hkj] using hnot

/-- The buffer of a channel changes. -/
theorem setBuf (h : Sound c) {i : Nat} {ch : Chan} (hch : c.chans[i]? = some ch)
    (buf : Option RelayRendezvous) :
    Sound { c with chans := c.chans.set i { ch with buf := buf } } where
  calm := h.calm
  incoming := h.incoming
  emptied := h.emptied
  numbered := fun hc => by
    rw [← h.numbered hc]
    exact List.length_set
  own := by
    intro j w x hw hx
    obtain ⟨hj, y, hy⟩ := h.own j w x hw hx
    refine ⟨hj, ?_⟩
    by_cases hij : i = j
    · subst hij
      exact ⟨_, getElem?_set_of_getElem? hch⟩
    · exact ⟨y, by rw [← hy]; exact List.getElem?_set_ne hij⟩
  entry := by
    intro target j hj
    obtain ⟨⟨x, hx, hopen⟩, hw⟩ := h.entry target j hj
    refine ⟨?_, hw⟩
    by_cases hij : i = j
    · subst hij
      rw [hch] at hx
      rw [← Option.some.inj hx] at hopen
      exact ⟨_, getElem?_set_of_getElem? hch, hopen⟩
    · exact ⟨x, by rw [← hx]; exact List.getElem?_set_ne hij, hopen⟩

/-- A call starts. -/
theorem addWaiter (h : Sound c) (target : NodeID) {pc : Nat → WaiterPC}
    (hpc : ∀ ch, (pc ch).chan? = some ch) : Sound (c.addWaiter target pc) := by
  unfold Client.addWaiter
  by_cases hclosed : c.closed = true
  · rw [if_pos hclosed]
    refine ⟨h.calm, h.incoming, h.emptied, fun hc => ?_, ?_, ?_⟩
    · exact absurd (hclosed.symm.trans hc) (by simp)
    · intro k w ch hw hch
      rcases getElem?_concat_cases hw with ⟨_, rfl⟩ | hw
      · cases hch
      · exact h.own k w ch hw hch
    · intro t k hk
      rw [show c.pending = ∅ from h.emptied hclosed] at hk
      cases hk
  · have hlen := h.numbered (Bool.eq_false_iff.mpr hclosed)
    rw [if_neg hclosed]
    refine ⟨h.calm, h.incoming, fun hc => ?_, fun _ => by simp [hlen], ?_, ?_⟩
    · exact absurd hc hclosed
    · intro k w ch hw hch
      rcases getElem?_concat_cases hw with ⟨hk, rfl⟩ | hw
      · have hchk : c.chans.length = ch := Option.some.inj ((hpc _).symm.trans hch)
        subst hk
        exact ⟨by omega, ⟨none, false⟩, by rw [← hlen]; exact List.getElem?_concat_length⟩
      · obtain ⟨hj, x, hx⟩ := h.own k w ch hw hch
        exact ⟨hj, x, getElem?_concat_of hx⟩
    · intro t k hk
      rw [GoMap.lookup_insert] at hk
      split at hk
      next ht =>
        -- the new entry replaces whatever the target had
        have hk : c.chans.length = k := Option.some.inj hk
        subst hk
        refine ⟨⟨⟨none, false⟩, List.getElem?_concat_length, rfl⟩, ⟨target, pc c.chans.length⟩, ?_,
          ht.symm, fun res hres => ?_⟩
        · rw [hlen]
          exact List.getElem?_concat_length
        · have hchan : (pc c.chans.length).chan? = some c.chans.length := hpc c.chans.length
          rw [show pc c.chans.length = .done res from hres] at hchan
          cases hchan
      next =>
        obtain ⟨⟨x, hx, hopen⟩, w, hw, htarget, hnot⟩ := h.entry t k hk
        exact ⟨⟨x, getElem?_concat_of hx, hopen⟩, w, getElem?_concat_of hw, htarget, hnot⟩

/-- A call returns, with its target's entry deleted, whosever it is. -/
theorem leave (h : Sound c) {k : Nat} {w : Waiter} (hw : c.waiters[k]? = some w)
    (res : Except String RendezvousInfo) :
    Sound ({ c with pending := c.pending.erase w.target }.setPC k (.done res)) where
  calm := h.calm
  incoming := h.incoming
  emptied := fun hc => by
    show c.pending.erase w.target = ∅
    rw [h.emptied hc]
    rfl
  numbered := fun hc => by
    show c.chans.length = (c.waiters.modify k _).length
    rw [List.length_modify]
    exact h.numbered hc
  own := by
    intro j w' ch hw' hch
    exact h.own_setPC (fun v ch _ hpc => by cases hpc) hw' hch
  entry := by
    intro target j hj
    rw [show (Client.setPC { c with pending := c.pending.erase w.target } k (.done res)).pending
      = c.pending.erase w.target from rfl, GoMap.lookup_erase] at hj
    split at hj
    next => cases hj
    next hne =>
      obtain ⟨hopen, v, hv, htarget, hnot⟩ := h.entry target j hj
      have hkj : k ≠ j := by
        rintro rfl
        rw [hw] at hv
        exact hne (by rw [← htarget, Option.some.inj hv])
      exact ⟨hopen, v, by rw [getElem?_setPC, hv]; simp [hkj], htarget, hnot⟩

/-- No channel has two entries. -/
theorem nodup_entries (h : Sound c) : (c.pending.entries.map (fun e => e.2)).Nodup := by
  have hkeys : c.pending.entries.Nodup := c.pending.nodupKeys.nodup
  refine hkeys.map_on (fun e he e' he' heq => ?_)
  obtain ⟨_, w, hw, ht, _⟩ := h.entry e.1 e.2 (AList.mem_lookup_iff.mpr he)
  obtain ⟨_, w', hw', ht', _⟩ := h.entry e'.1 e'.2 (AList.mem_lookup_iff.mpr he')
  have hww : w = w' := Option.some.inj (hw.symm.trans ((congrArg (c.waiters[·]?) heq).trans hw'))
  have hkey : e.1 = e'.1 := by rw [← ht, ← ht', hww]
  exact Sigma.ext hkey (heq_of_eq heq)

/-- The teardown. -/
theorem closeLocked (h : Sound c) : Sound c.closeLocked.1 := by
  unfold Client.closeLocked
  by_cases hclosed : c.closed = true
  · rw [if_pos hclosed]
    exact h
  · rw [if_neg hclosed]
    have hopen : ∀ e ∈ c.pending.entries, ∃ ch, c.chans[e.2]? = some ch ∧ ch.closed = false :=
      fun e he => (h.entry e.1 e.2 (AList.mem_lookup_iff.mpr he)).1
    have hcalm := closeChans_calm c.pending.entries c h.nodup_entries hopen h.calm
    have hframe := closeChans_frame c.pending.entries c
    have hin : c.incomingClosed = false := h.incoming.trans (Bool.eq_false_iff.mpr hclosed)
    refine ⟨by simp [hcalm, hin], rfl, fun _ => rfl, nofun, ?_, fun t k hk => by cases hk⟩
    intro k w ch hw hch
    have hw : c.waiters[k]? = some w := by
      rw [hframe] at hw
      exact hw
    obtain ⟨hj, x, hx⟩ := h.own k w ch hw hch
    refine ⟨hj, ?_⟩
    show ∃ x, (c.pending.entries.foldl (fun c e => c.closeChan e.2) c).chans[k]? = some x
    rw [getElem?_closeChans, hx]
    exact ⟨_, rfl⟩

/-- The fields the invariant does not look at. -/
theorem congr (h : Sound c) {d : Client} (hp : d.panicked = c.panicked)
    (hi : d.incomingClosed = c.incomingClosed) (hc : d.closed = c.closed)
    (hpend : d.pending = c.pending) (hch : d.chans = c.chans) (hw : d.waiters = c.waiters) :
    Sound d where
  calm := by rw [hp, h.calm]
  incoming := by rw [hi, hc, h.incoming]
  emptied := by
    rw [hc, hpend]
    exact h.emptied
  numbered := by
    rw [hc, hch, hw]
    exact h.numbered
  own := by
    rw [hch, hw]
    exact h.own
  entry := by
    unfold Client.OpenFor
    rw [hpend, hch, hw]
    exact h.entry

theorem trySend (h : Sound c) {target : NodeID} {k : Nat} (hk : c.pending.lookup target = some k)
    (rv : RelayRendezvous) : Sound (c.trySend k rv) := by
  obtain ⟨⟨ch, hch, hopen⟩, _⟩ := h.entry target k hk
  unfold Client.trySend
  rw [hch]
  dsimp only
  rw [if_neg (by simp [hopen])]
  split
  · exact h.setBuf hch (some rv)
  · exact h

theorem dispatchRendezvous (h : Sound c) (rv : RelayRendezvous) :
    Sound (c.dispatchRendezvous rv) := by
  unfold Client.dispatchRendezvous
  split
  next => exact h
  next peerID _ =>
    split
    next k hk => exact h.trySend hk rv
    next =>
      split
      · exact h
      next hopen =>
        rw [if_neg (by rw [h.incoming]; exact hopen)]
        split
        · exact h.congr rfl rfl rfl rfl rfl rfl
        · exact h

theorem closeAllPending (h : Sound c) : Sound c.closeAllPending :=
  h.closeLocked.congr rfl rfl rfl rfl rfl rfl

theorem readMsg (h : Sound c) (msg : Except String Envelope) : Sound (c.readMsg msg) := by
  unfold Client.readMsg
  split
  · exact h.closeAllPending.congr rfl rfl rfl rfl rfl rfl
  · split
    · exact h.dispatchRendezvous _
    · exact h.closeAllPending
    · exact h

end Sound

/-- **One step.** -/
theorem step_keeps_sound {c c' : Client} {a : Act} (h : Sound c) (hs : step c a = some c') :
    Sound c' := by
  cases step_sound hs with
  | request target => exact h.addWaiter target (fun ch => rfl)
  | waitFor target => exact h.addWaiter target (fun ch => rfl)
  | @write k ch w err hw hpc =>
    refine h.setPC hw (fun ch' hch' => ?_) (fun res hres => ?_)
    · cases err with
      | none =>
        rw [hpc]
        exact hch'
      | some err => cases hch'
    · cases err <;> cases hres
  | cancel err hw hpc => exact h.setPC hw nofun nofun
  | receive hw hpc hch => exact (h.setBuf hch none).setPC hw nofun nofun
  | receiveClosed hw hpc hch => exact h.setPC hw nofun nofun
  | leave hw hpc => exact h.leave hw _
  | close => exact h.closeLocked.congr rfl rfl rfl rfl rfl rfl
  | read msg hreading => exact h.readMsg msg
  | take hin => exact h.congr rfl rfl rfl rfl rfl rfl

/-- **Every run.** -/
theorem sound_of_run {acts : List Act} {c : Client} (hrun : run step Client.new acts = some c) :
    Sound c :=
  run_invariant (fun _ _ _ h hs => step_keeps_sound h hs) sound_new hrun

/-! ## §3. What no step takes back. -/

structure Later (c d : Client) : Prop where
  closed : c.closed = true → d.closed = true
  chan : ∀ (i : Nat) (ch : Chan), c.chans[i]? = some ch → ch.closed = true →
    ∃ ch', d.chans[i]? = some ch' ∧ ch'.closed = true
  call : ∀ (k : Nat) (w : Waiter), c.waiters[k]? = some w →
    ∃ w', d.waiters[k]? = some w' ∧ w'.target = w.target
      ∧ ∀ res, w.pc.result? = some res → w'.pc.result? = some res

namespace Later

theorem refl (c : Client) : Later c c :=
  ⟨id, fun _ ch hch h => ⟨ch, hch, h⟩, fun _ w hw => ⟨w, hw, rfl, fun _ h => h⟩⟩

theorem trans {c d e : Client} (h : Later c d) (h' : Later d e) : Later c e where
  closed := fun hc => h'.closed (h.closed hc)
  chan := by
    intro i ch hch hclosed
    obtain ⟨ch', hch', hclosed'⟩ := h.chan i ch hch hclosed
    exact h'.chan i ch' hch' hclosed'
  call := by
    intro k w hw
    obtain ⟨w', hw', ht, hres⟩ := h.call k w hw
    obtain ⟨w'', hw'', ht', hres'⟩ := h'.call k w' hw'
    exact ⟨w'', hw'', ht'.trans ht, fun res hr => hres' res (hres res hr)⟩

theorem congr {c d d' : Client} (h : Later c d) (hc : d'.closed = d.closed)
    (hch : d'.chans = d.chans) (hw : d'.waiters = d.waiters) : Later c d' :=
  ⟨by rw [hc]; exact h.closed, by rw [hch]; exact h.chan, by rw [hw]; exact h.call⟩

/-- A call moves on; its result, if it has one, stays. -/
theorem setPC (c : Client) {k : Nat} {w : Waiter} (hw : c.waiters[k]? = some w) {pc : WaiterPC}
    (hres : ∀ res, w.pc.result? = some res → pc.result? = some res) : Later c (c.setPC k pc) where
  closed := id
  chan := (refl c).chan
  call := by
    intro j v hv
    refine ⟨_, by rw [getElem?_setPC, hv]; rfl, ?_, fun res hr => ?_⟩
    · by_cases hkj : k = j <;> simp [hkj]
    · by_cases hkj : k = j
      · subst hkj
        rw [hw] at hv
        rw [← Option.some.inj hv] at hr
        simpa using hres res hr
      · simpa [hkj] using hr

theorem setBuf (c : Client) {i : Nat} {ch : Chan} (hch : c.chans[i]? = some ch)
    (buf : Option RelayRendezvous) :
    Later c { c with chans := c.chans.set i { ch with buf := buf } } where
  closed := id
  chan := by
    intro j x hx hclosed
    by_cases hij : i = j
    · subst hij
      rw [hch] at hx
      rw [← Option.some.inj hx] at hclosed
      exact ⟨_, getElem?_set_of_getElem? hch, hclosed⟩
    · exact ⟨x, by rw [← hx]; exact List.getElem?_set_ne hij, hclosed⟩
  call := (refl c).call

theorem addWaiter (c : Client) (target : NodeID) (pc : Nat → WaiterPC) :
    Later c (c.addWaiter target pc) := by
  unfold Client.addWaiter
  split
  · exact ⟨id, (refl c).chan, fun k w hw => ⟨w, getElem?_concat_of hw, rfl, fun _ h => h⟩⟩
  · exact ⟨id, fun i ch hch h => ⟨ch, getElem?_concat_of hch, h⟩,
      fun k w hw => ⟨w, getElem?_concat_of hw, rfl, fun _ h => h⟩⟩

theorem closeLocked (c : Client) : Later c c.closeLocked.1 := by
  unfold Client.closeLocked
  split
  · exact refl c
  · refine ⟨fun _ => rfl, fun i ch hch hclosed => ?_, fun k w hw => ⟨w, ?_, rfl, fun _ h => h⟩⟩
    · show ∃ ch', (c.pending.entries.foldl (fun c e => c.closeChan e.2) c).chans[i]? = some ch' ∧ _
      rw [getElem?_closeChans, hch]
      exact ⟨_, rfl, by simp [hclosed]⟩
    · rw [closeChans_frame]
      exact hw

theorem dispatchRendezvous (c : Client) (rv : RelayRendezvous) :
    Later c (c.dispatchRendezvous rv) := by
  have hsame := refl c
  unfold Client.dispatchRendezvous Client.trySend
  split
  · exact hsame
  · split
    · split
      · exact hsame
      next ch hch =>
        split
        · exact hsame.congr rfl rfl rfl
        · split
          · exact setBuf c hch (some rv)
          · exact hsame
    · split
      · exact hsame
      · split
        · exact hsame.congr rfl rfl rfl
        · split
          · exact hsame.congr rfl rfl rfl
          · exact hsame

theorem readMsg (c : Client) (msg : Except String Envelope) : Later c (c.readMsg msg) := by
  unfold Client.readMsg
  split
  · exact (closeLocked c).congr rfl rfl rfl
  · split
    · exact dispatchRendezvous c _
    · exact (closeLocked c).congr rfl rfl rfl
    · exact refl c

end Later

theorem step_later {c d : Client} {a : Act} (hs : step c a = some d) : Later c d := by
  cases step_sound hs with
  | request target => exact .addWaiter c target _
  | waitFor target => exact .addWaiter c target _
  | write err hw hpc => exact .setPC c hw (by simp [hpc, WaiterPC.result?])
  | cancel err hw hpc => exact .setPC c hw (by simp [hpc, WaiterPC.result?])
  | @receive k i w rv closed hw hpc hch =>
    refine (Later.setBuf c hch none).trans ?_
    exact Later.setPC { c with chans := c.chans.set i ⟨none, closed⟩ } hw
      (by simp [hpc, WaiterPC.result?])
  | receiveClosed hw hpc hch => exact .setPC c hw (by simp [hpc, WaiterPC.result?])
  | @leave k w res hw hpc =>
    have hsame : Later c { c with pending := c.pending.erase w.target } :=
      (Later.refl c).congr rfl rfl rfl
    refine hsame.trans (Later.setPC { c with pending := c.pending.erase w.target } hw ?_)
    simp [hpc, WaiterPC.result?]
  | close => exact (Later.closeLocked c).congr rfl rfl rfl
  | read msg hreading => exact .readMsg c msg
  | take hin => exact (Later.refl c).congr rfl rfl rfl

theorem later_of_run {acts : List Act} {c d : Client} (hrun : run step c acts = some d) :
    Later c d :=
  run_invariant (P := Later c) (fun _ _ _ h hs => h.trans (step_later hs)) (Later.refl c) hrun

/-! ## §4. Release. -/

/-- Call `k` has returned, or has a step of its own to take without its context ending. -/
def Client.Unblocked (c : Client) (k : Nat) : Prop :=
  ∀ w, c.waiters[k]? = some w →
    (∃ res, w.pc = .done res)
      ∨ ∃ a ∈ [Act.write k none, .receive k, .leave k], (step c a).isSome = true

/-- A call is not blocked on a closed channel. -/
theorem unblocked_of_closed {c : Client} (h : Sound c) {k : Nat} {ch : Chan}
    (hch : c.chans[k]? = some ch) (hclosed : ch.closed = true) : c.Unblocked k := by
  intro w hw
  cases hpc : w.pc with
  | registered i => exact Or.inr ⟨.write k none, by simp, by simp [step, hw, hpc]⟩
  | waiting i =>
    obtain ⟨rfl, _⟩ := h.own k w i hw (by rw [hpc]; rfl)
    refine Or.inr ⟨.receive i, by simp, ?_⟩
    obtain ⟨buf, closed⟩ := ch
    cases hclosed
    cases buf with
    | none => simp [step, hw, hpc, hch]
    | some rv => simp [step, hw, hpc, hch]
  | leaving res => exact Or.inr ⟨.leave k, by simp, by simp [step, hw, hpc]⟩
  | done res => exact Or.inl ⟨res, rfl⟩

/-- The teardown closes the channel of every entry. -/
theorem closeLocked_closes {c : Client} (h : Sound c) (hopen : c.closed = false) {target : NodeID}
    {k : Nat} (hk : c.pending.lookup target = some k) :
    ∃ ch, c.closeLocked.1.chans[k]? = some ch ∧ ch.closed = true := by
  obtain ⟨⟨ch, hch, _⟩, _⟩ := h.entry target k hk
  have hmem : k ∈ c.pending.entries.map (fun e => e.2) :=
    List.mem_map_of_mem (f := fun e : Sigma (fun _ : NodeID => Nat) => e.2)
      (AList.mem_lookup_iff.mp hk)
  unfold Client.closeLocked
  rw [if_neg (by simp [hopen])]
  show ∃ ch', (c.pending.entries.foldl (fun c e => c.closeChan e.2) c).chans[k]? = some ch' ∧ _
  rw [getElem?_closeChans, hch]
  exact ⟨_, rfl, by simp [hmem]⟩

/-- **The step that closes the client** closes the channel of every entry. -/
theorem closing_step {c d : Client} {a : Act} (h : Sound c) (hs : step c a = some d)
    (hopen : c.closed = false) (hclosed : d.closed = true) {target : NodeID} {k : Nat}
    (hk : c.pending.lookup target = some k) :
    ∃ ch, d.chans[k]? = some ch ∧ ch.closed = true := by
  -- every other step leaves the flag alone
  have hsame : d.closed = c.closed → ∃ ch, d.chans[k]? = some ch ∧ ch.closed = true := by
    intro heq
    rw [heq, hopen] at hclosed
    cases hclosed
  have hcloses := closeLocked_closes h hopen hk
  cases step_sound hs with
  | request target' =>
    apply hsame
    unfold Client.addWaiter
    split <;> rfl
  | waitFor target' =>
    apply hsame
    unfold Client.addWaiter
    split <;> rfl
  | close => exact hcloses
  | read msg hreading =>
    cases msg with
    | error err => exact hcloses
    | ok env =>
      obtain ⟨payload⟩ := env
      cases payload with
      | none => exact hsame rfl
      | some p =>
        cases p with
        | relayRendezvous rv =>
          exact hsame (congrArg TearDown.closed (tearDown_dispatchRendezvous c rv))
        | relayError re => exact hcloses
        | _ => exact hsame rfl
  | _ => exact hsame rfl

/-- **CHANNEL SAFETY.**  In every run, whatever calls there are and however they
interleave with cancellations, `Close` and the messages read:

  1. no channel has been closed twice or sent on after closing,
  2. once the client is closed, `pending` is empty and stays so,
  3. when a step closes the client, the channel of every call in `pending` is
     closed, and the call is not blocked from then on,
  4. a call's result is final. -/
theorem client_channels_safe {acts : List Act} {c : Client}
    (hrun : run step Client.new acts = some c) :
    c.panicked = false
      ∧ (c.closed = true → ∀ acts' d, run step c acts' = some d →
          d.closed = true ∧ d.pending = ∅)
      ∧ (c.closed = false → ∀ a d, step c a = some d → d.closed = true →
          ∀ target k, c.pending.lookup target = some k →
            ∀ acts' e, run step d acts' = some e →
              (∃ ch, e.chans[k]? = some ch ∧ ch.closed = true) ∧ e.Unblocked k)
      ∧ ∀ (k : Nat) (w : Waiter) res, c.waiters[k]? = some w → w.pc.result? = some res →
          ∀ acts' d, run step c acts' = some d →
            ∃ w', d.waiters[k]? = some w' ∧ w'.pc.result? = some res := by
  have h := sound_of_run hrun
  refine ⟨h.calm, fun hclosed acts' d hd => ?_, fun hopen a d hs hclosed target k hk acts' e he => ?_,
    fun k w res hw hres acts' d hd => ?_⟩
  · have hd' : Sound d := sound_of_run (run_append_eq_some.mpr ⟨c, hrun, hd⟩)
    have hclosed' := (later_of_run hd).closed hclosed
    exact ⟨hclosed', hd'.emptied hclosed'⟩
  · obtain ⟨ch, hch, hchClosed⟩ := closing_step h hs hopen hclosed hk
    obtain ⟨ch', hch', hchClosed'⟩ := (later_of_run he).chan k ch hch hchClosed
    have he' : Sound e :=
      run_invariant (fun _ _ _ h hs => step_keeps_sound h hs) (step_keeps_sound h hs) he
    exact ⟨⟨ch', hch', hchClosed'⟩, unblocked_of_closed he' hch' hchClosed'⟩
  · obtain ⟨w', hw', _, hres'⟩ := (later_of_run hd).call k w hw
    exact ⟨w', hw', hres' res hres⟩

/-- Two calls for one peer, the first one cancelled and gone, and `Close`. -/
theorem client_channels_safe_replaced :
    ∃ c, run step Client.new
        [.request (Bytes.lit32 7), .waitFor (Bytes.lit32 7), .write 0 none,
          .cancel 0 "context canceled", .leave 0, .close] = some c
      ∧ c.panicked = false ∧ c.closed = true ∧ c.pending = ∅ := by
  refine ⟨_, rfl, ?_⟩
  have hrun : run step Client.new [.request (Bytes.lit32 7), .waitFor (Bytes.lit32 7),
    .write 0 none, .cancel 0 "context canceled", .leave 0, .close] = some _ := rfl
  have h := client_channels_safe hrun
  exact ⟨h.1, h.2.1 rfl [] _ rfl⟩

end Kin.RelayClient
