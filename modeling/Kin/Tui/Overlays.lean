/-
  Kin.Tui.Overlays

  **WHOSE ANSWER IS IT?** (`overlay_invite.go`, `overlay_join.go`, `handleKey` and
  `handleOverlayResult` of `model.go`).

  The invite overlay asks the daemon for a token when it opens, the join overlay asks
  it to join when a token is entered.  The request runs as a command, and its result
  carries no name: `Update` hands it to whatever overlay is open by then.

      i / J enter ──▶ overlay waits, command runs ──▶ result ──▶ the overlay that is open

  Esc closes an overlay while it waits.  Opened again, it is a new one, and the answer
  to the old request is taken for the answer to the new one.

    • `Overlay.update_asks`, `Model.update_asks` — the balance of a message: what it
      asks for, and which overlay waits before and after,
    • `owned_step_iff`, `ownerless_step` — one step,
    • `answers_owned_iff` — every schedule.
-/
import Kin.Tui.Program

namespace Kin.Tui

open Kin.Lib Kin.Daemon

/-! ## §1. Requests and the overlays that wait for them. -/

/-- The requests that overlays make. -/
inductive Request where
  | invite
  | join
  deriving DecidableEq

def Cmd.asks : Request → Cmd → Bool
  | .invite, .doInvite => true
  | .join, .doJoin _ => true
  | _, _ => false

def Msg.answers : Request → Msg → Bool
  | .invite, .inviteResult _ => true
  | .join, .joinResult _ => true
  | _, _ => false

/-- The overlay shows that it is waiting. -/
def Overlay.waits : Request → Overlay → Bool
  | .invite, .invite _ _ loading => loading
  | .join, .join o => o.loading
  | _, _ => false

/-- The overlay shows an answer, and waits no more. -/
def Overlay.shows : Overlay → Msg → Prop
  | .invite token _ loading, .inviteResult (.ok t) => token = t ∧ loading = false
  | .invite _ err loading, .inviteResult (.error e) => err = some e ∧ loading = false
  | .join o, .joinResult (.ok peer) => o.success = peer ∧ o.loading = false
  | .join o, .joinResult (.error e) => o.err = some e ∧ o.loading = false
  | _, _ => False

/-- How many overlays wait: one at most is open. -/
def waiting (req : Request) : Option Overlay → Nat
  | some o => if o.waits req then 1 else 0
  | none => 0

theorem waiting_le_one (req : Request) (o : Option Overlay) : waiting req o ≤ 1 := by
  cases o with
  | none => exact Nat.zero_le 1
  | some o =>
    show (if o.waits req = true then 1 else 0) ≤ 1
    split
    · exact Nat.le_refl 1
    · exact Nat.zero_le 1

/-- How many requests a list of commands makes. -/
def asked (req : Request) (cmds : List Cmd) : Nat := cmds.countP (Cmd.asks req)

/-- The key closes every overlay that can wait. -/
def KeyMsg.closes (k : KeyMsg) : Bool := k.type != .ctrlC && k.matches keys.escape

/-- The message ends the wait. -/
def Msg.ends (req : Request) : Msg → Bool
  | .key k => k.closes
  | msg => msg.answers req

/-- The messages `Update` hands to an open overlay. -/
def Msg.forOverlay : Msg → Bool
  | key k => k.type != .ctrlC
  | inviteResult _ => true
  | joinResult _ => true
  | _ => false

theorem Msg.ends_key {k : KeyMsg} {req : Request} (h : k.type ≠ .ctrlC) :
    (Msg.key k).ends req = k.matches keys.escape := by
  show (k.type != .ctrlC && k.matches keys.escape) = k.matches keys.escape
  rw [bne_iff_ne.mpr h, Bool.true_and]

theorem asked_eq_zero {req : Request} {cmds : List Cmd}
    (h : ∀ c ∈ cmds, c.asks req = false) : asked req cmds = 0 := by
  refine List.countP_eq_zero.mpr ?_
  intro c hc
  rw [h c hc]
  exact Bool.false_ne_true

theorem asked_ne_zero {token : GoString} {cmds : List Cmd} (h : .doJoin token ∈ cmds) :
    asked .join cmds ≠ 0 :=
  Nat.pos_iff_ne_zero.mp (List.countP_pos_iff.mpr ⟨_, h, rfl⟩)

/-! ## §2. The balance of a message. -/

/-- The text field neither asks nor ends the wait. -/
theorem JoinOverlay.forward_asks (libs : ProgramLibs) (o : JoinOverlay) (msg : Msg)
    (req : Request) :
    asked req (o.forward libs.toLibs msg).2 = 0
      ∧ waiting req (o.forward libs.toLibs msg).1 = waiting req (some (.join o)) := by
  unfold JoinOverlay.forward
  split
  · refine ⟨asked_eq_zero ?_, ?_⟩
    · intro c hc
      rw [libs.textInput_cmds o.input msg c hc]
      cases req <;> rfl
    · cases req <;> rfl
  · exact ⟨rfl, rfl⟩

theorem JoinOverlay.update_asks (libs : ProgramLibs) (o : JoinOverlay) (msg : Msg)
    (req : Request) (hctrlC : ∀ k, msg = .key k → k.type ≠ .ctrlC) :
    asked req (o.update libs.toLibs msg).2 + waiting req (some (.join o))
      = waiting req (o.update libs.toLibs msg).1
        + if msg.ends req then waiting req (some (.join o)) else 0 := by
  obtain ⟨hasked, hwaiting⟩ := o.forward_asks libs msg req
  cases msg with
  | key k =>
    rw [Msg.ends_key (hctrlC k rfl)]
    simp only [JoinOverlay.update]
    by_cases hesc : k.matches keys.escape = true
    · rw [if_pos hesc, if_pos hesc]
      rfl
    · rw [if_neg hesc, if_neg hesc]
      split
      next henter =>
        -- Enter while nothing is under way
        have hloading : o.loading = false := by simpa using henter.2
        split
        · cases req <;> simp [waiting, Overlay.waits, asked, hloading]
        · cases req <;> simp [waiting, Overlay.waits, asked, Cmd.asks, hloading]
      next => rw [hasked, hwaiting, Nat.zero_add, Nat.add_zero]
  | joinResult r =>
    cases r with
    | error err => cases req <;> simp [JoinOverlay.update, asked, waiting, Overlay.waits,
        Msg.ends, Msg.answers]
    | ok peer => cases req <;> simp [JoinOverlay.update, asked, waiting, Overlay.waits,
        Msg.ends, Msg.answers]
  | inviteResult r =>
    show asked req (o.forward libs.toLibs _).2 + _ = waiting req (o.forward libs.toLibs _).1 + _
    rw [hasked, hwaiting]
    cases req <;> simp [Msg.ends, Msg.answers, waiting, Overlay.waits]
  | _ =>
    show asked req (o.forward libs.toLibs _).2 + _ = waiting req (o.forward libs.toLibs _).1 + _
    rw [hasked, hwaiting]
    cases req <;> simp [Msg.ends, Msg.answers]

/-- The overlays that ask for something. -/
def Overlay.asking : Overlay → Bool
  | invite _ _ _ => true
  | join _ => true
  | _ => false

/-- The others stay as they are or close. -/
theorem Overlay.update_idle (libs : Libs) {o : Overlay} (h : o.asking = false) (msg : Msg) :
    ((o.update libs msg).1 = none ∨ (o.update libs msg).1 = some o)
      ∧ ∀ c ∈ (o.update libs msg).2, c = .confirmed := by
  unfold Overlay.update
  split
  · split <;> simp
  · cases h
  · cases h
  · cases h
  · cases h
  · split <;> simp
  · split
    · simp
    · split <;> simp
  · simp

theorem waiting_of_idle {o : Overlay} (h : o.asking = false) (req : Request) :
    waiting req (some o) = 0 := by
  cases o with
  | invite token err loading => cases h
  | join o => cases h
  | _ => cases req <;> rfl

theorem Overlay.update_asks (libs : ProgramLibs) (o : Overlay) (msg : Msg) (req : Request)
    (hctrlC : ∀ k, msg = .key k → k.type ≠ .ctrlC) :
    asked req (o.update libs.toLibs msg).2 + waiting req (some o)
      = waiting req (o.update libs.toLibs msg).1
        + if msg.ends req then waiting req (some o) else 0 := by
  by_cases hidle : o.asking = false
  · obtain ⟨hafter, hcmds⟩ := Overlay.update_idle libs.toLibs hidle msg
    have hasked : asked req (o.update libs.toLibs msg).2 = 0 := by
      refine asked_eq_zero fun c hc => ?_
      rw [hcmds c hc]
      cases req <;> rfl
    have hwaiting : waiting req (o.update libs.toLibs msg).1 = 0 := by
      rcases hafter with hafter | hafter
      · rw [hafter]
        rfl
      · rw [hafter]
        exact waiting_of_idle hidle req
    rw [hasked, hwaiting, waiting_of_idle hidle req, ite_self]
  · cases o with
    | join o => exact o.update_asks libs msg req hctrlC
    | invite token err loading =>
      cases msg with
      | key k =>
        rw [Msg.ends_key (hctrlC k rfl)]
        simp only [Overlay.update]
        split
        · rfl
        · exact Nat.zero_add _
      | inviteResult r => cases r <;> cases req <;> simp [Overlay.update, asked, waiting,
          Overlay.waits, Msg.ends, Msg.answers]
      | joinResult r => cases req <;> simp [Overlay.update, asked, waiting, Overlay.waits,
          Msg.ends, Msg.answers]
      | _ => cases req <;> simp [Overlay.update, asked, Msg.ends, Msg.answers]
    | _ => exact absurd rfl hidle

/-- The overlay that asks to join waits, and its text field holds the token. -/
theorem JoinOverlay.update_doJoin (libs : ProgramLibs) (o : JoinOverlay) (msg : Msg)
    {token : GoString} (h : .doJoin token ∈ (o.update libs.toLibs msg).2) :
    ∃ o', (o.update libs.toLibs msg).1 = some (.join o') ∧ o'.loading = true
      ∧ o'.input = token := by
  have hforward : .doJoin token ∉ (o.forward libs.toLibs msg).2 := by
    intro hmem
    exact asked_ne_zero hmem (o.forward_asks libs msg .join).1
  cases msg with
  | key k =>
    simp only [JoinOverlay.update] at h ⊢
    by_cases hesc : k.matches keys.escape = true
    · rw [if_pos hesc] at h
      cases h
    · rw [if_neg hesc] at h ⊢
      by_cases henter : k.type = .enter ∧ (!o.loading) = true
      · rw [if_pos henter] at h ⊢
        by_cases hempty : o.input = []
        · rw [if_pos hempty] at h
          cases h
        · rw [if_neg hempty] at h ⊢
          cases List.mem_singleton.mp h
          exact ⟨_, rfl, rfl, rfl⟩
      · rw [if_neg henter] at h
        exact absurd h hforward
  | joinResult r =>
    cases r with
    | error err => cases h
    | ok peer => cases h
  | _ => exact absurd h hforward

theorem Overlay.update_doJoin (libs : ProgramLibs) (o : Overlay) (msg : Msg)
    {token : GoString} (h : .doJoin token ∈ (o.update libs.toLibs msg).2) :
    ∃ o', (o.update libs.toLibs msg).1 = some (.join o') ∧ o'.loading = true
      ∧ o'.input = token := by
  by_cases hidle : o.asking = false
  · cases (Overlay.update_idle libs.toLibs hidle msg).2 _ h
  · cases o with
    | join o => exact o.update_doJoin libs msg h
    | invite text err loading =>
      have hnil : (Overlay.update libs.toLibs (.invite text err loading) msg).2 = [] := by
        cases msg with
        | key k =>
          simp only [Overlay.update]
          split <;> rfl
        | inviteResult r => cases r <;> rfl
        | _ => rfl
      rw [hnil] at h
      cases h
    | _ => exact absurd rfl hidle

namespace Model

/-- What a key does that comes to a panel. -/
theorem updatePanel_overlay (libs : Libs) (m : Model) (k : KeyMsg) :
    (m.updatePanel libs k).overlay = m.overlay
      ∨ ∃ o, (m.updatePanel libs k).overlay = some o ∧ o.asking = false := by
  unfold updatePanel
  split
  · exact .inl rfl
  · simp only
    split
    · split
      · exact .inr ⟨_, rfl, rfl⟩
      · split
        · split
          · exact .inr ⟨_, rfl, rfl⟩
          · exact .inl rfl
        · exact .inl rfl
    · split
      · split
        · exact .inr ⟨_, rfl, rfl⟩
        · exact .inl rfl
      · exact .inl rfl

theorem startDownloads_overlay (m : Model) : m.startDownloads.1.overlay = m.overlay := by
  unfold startDownloads
  split <;> rfl

theorem startDownloads_asks (m : Model) (req : Request) : asked req m.startDownloads.2 = 0 := by
  refine asked_eq_zero fun c hc => ?_
  unfold startDownloads at hc
  split at hc
  · cases hc
  · obtain ⟨fileID, rfl⟩ := startTransfers_cmds _ _ c hc
    cases req <;> rfl

/-- What a key does without an overlay: `i` asks and waits, any other does neither. -/
theorem handleKey_cases (libs : Libs) {m : Model} (h : m.overlay = none) (k : KeyMsg) :
    ((m.handleKey libs k).2 = [.doInvite]
        ∧ (m.handleKey libs k).1.overlay = some (.invite [] none true))
      ∨ ∀ req, asked req (m.handleKey libs k).2 = 0
        ∧ waiting req (m.handleKey libs k).1.overlay = 0 := by
  unfold handleKey
  rw [h]
  simp only
  split
  · right
    intro req
    cases req <;> exact ⟨rfl, rfl⟩
  split
  · right
    intro req
    cases req <;> exact ⟨rfl, rfl⟩
  split
  · exact .inr fun _ => ⟨rfl, rfl⟩
  split
  · right
    intro req
    cases req <;> exact ⟨rfl, rfl⟩
  split
  · exact .inr fun _ => ⟨rfl, rfl⟩
  split
  · right
    intro req
    rw [startDownloads_asks, startDownloads_overlay, h]
    exact ⟨rfl, rfl⟩
  split
  · exact .inl ⟨rfl, rfl⟩
  split
  · right
    intro req
    cases req <;> exact ⟨rfl, rfl⟩
  · right
    intro req
    rcases m.updatePanel_overlay libs k with hsame | ⟨o, ho, hidle⟩
    · rw [hsame, h]
      exact ⟨rfl, rfl⟩
    · rw [ho, waiting_of_idle hidle]
      exact ⟨rfl, rfl⟩

/-- A message that comes to the overlay comes to it alone. -/
theorem update_of_overlay (libs : Libs) {m : Model} {o : Overlay} (h : m.overlay = some o)
    {msg : Msg} (hmsg : msg.forOverlay = true) :
    (m.update libs msg).1.overlay = (o.update libs msg).1
      ∧ (m.update libs msg).2 = (o.update libs msg).2 := by
  have hresult : ∀ r, (m.handleOverlayResult libs r).1.overlay = (o.update libs r).1
      ∧ (m.handleOverlayResult libs r).2 = (o.update libs r).2 := by
    intro r
    unfold handleOverlayResult
    rw [h]
    exact ⟨rfl, rfl⟩
  cases msg with
  | key k =>
    show (m.handleKey libs k).1.overlay = _ ∧ (m.handleKey libs k).2 = _
    unfold handleKey
    rw [if_neg (bne_iff_ne.mp hmsg), h]
    exact ⟨rfl, rfl⟩
  | inviteResult r => exact hresult _
  | joinResult r => exact hresult _
  | _ => cases hmsg

/-- Any other message leaves it as it is, and asks for nothing. -/
theorem update_around_overlay (libs : Libs) (m : Model) {msg : Msg}
    (hmsg : msg.forOverlay = false) :
    (m.update libs msg).1.overlay = m.overlay
      ∧ ∀ req, asked req (m.update libs msg).2 = 0 ∧ msg.ends req = false := by
  cases msg with
  | key k =>
    have hctrlC : k.type = .ctrlC := by simpa [Msg.forOverlay] using hmsg
    show (m.handleKey libs k).1.overlay = _ ∧ ∀ req, asked req (m.handleKey libs k).2 = 0 ∧ _
    unfold handleKey
    rw [if_pos hctrlC]
    refine ⟨rfl, fun req => ⟨?_, ?_⟩⟩
    · cases req <;> rfl
    · simp [Msg.ends, KeyMsg.closes, hctrlC]
  | inviteResult r => cases hmsg
  | joinResult r => cases hmsg
  | daemonEvent ev =>
    refine ⟨?_, fun req => ⟨?_, ?_⟩⟩
    · cases ev <;> rfl
    · cases ev <;> cases req <;> rfl
    · cases req <;> rfl
  | downloadResult fileID err =>
    refine ⟨rfl, fun req => ⟨?_, ?_⟩⟩
    · show asked req (if err = none then [Cmd.fetchCatalog] else []) = 0
      split <;> cases req <;> rfl
    · cases req <;> rfl
  | windowSize width height =>
    refine ⟨rfl, fun req => ⟨rfl, ?_⟩⟩
    cases req <;> rfl
  | daemonDisconnected =>
    refine ⟨rfl, fun req => ⟨rfl, ?_⟩⟩
    cases req <;> rfl
  | statusResult r | peersResult r | catalogResult r =>
    refine ⟨?_, fun req => ⟨?_, ?_⟩⟩
    · cases r <;> rfl
    · cases r <;> rfl
    · cases req <;> rfl

/-- **The balance**: a message ends the wait or leaves it, and asks for what is waited
for afterwards. -/
theorem update_asks (libs : ProgramLibs) (m : Model) (msg : Msg) (req : Request) :
    asked req (m.update libs.toLibs msg).2 + waiting req m.overlay
      = waiting req (m.update libs.toLibs msg).1.overlay
        + if msg.ends req then waiting req m.overlay else 0 := by
  by_cases hmsg : msg.forOverlay = true
  · cases hover : m.overlay with
    | some o =>
      obtain ⟨hafter, hcmds⟩ := update_of_overlay libs.toLibs hover hmsg
      rw [hafter, hcmds]
      refine o.update_asks libs msg req fun k hk => ?_
      rw [hk] at hmsg
      exact bne_iff_ne.mp hmsg
    | none =>
      rw [show waiting req none = 0 from rfl, ite_self]
      cases msg with
      | key k =>
        show asked req (m.handleKey libs.toLibs k).2 + 0
          = waiting req (m.handleKey libs.toLibs k).1.overlay + 0
        rcases handleKey_cases libs.toLibs hover k with ⟨hcmds, hafter⟩ | hnone
        · rw [hcmds, hafter]
          cases req <;> rfl
        · rw [(hnone req).1, (hnone req).2]
      | inviteResult r => simp [update, handleOverlayResult, hover, asked, waiting]
      | joinResult r => simp [update, handleOverlayResult, hover, asked, waiting]
      | _ => cases hmsg
  · obtain ⟨hafter, hrest⟩ := m.update_around_overlay libs.toLibs (Bool.not_eq_true _ ▸ hmsg)
    rw [hafter, (hrest req).1, (hrest req).2, Nat.zero_add]
    rfl

/-- Only an open overlay asks to join. -/
theorem update_doJoin (libs : ProgramLibs) (m : Model) (msg : Msg) {token : GoString}
    (h : .doJoin token ∈ (m.update libs.toLibs msg).2) :
    ∃ o, (m.update libs.toLibs msg).1.overlay = some (.join o) ∧ o.loading = true
      ∧ o.input = token := by
  by_cases hmsg : msg.forOverlay = true
  · cases hover : m.overlay with
    | some o =>
      obtain ⟨hafter, hcmds⟩ := update_of_overlay libs.toLibs hover hmsg
      rw [hcmds] at h
      rw [hafter]
      exact o.update_doJoin libs msg h
    | none =>
      exfalso
      cases msg with
      | key k =>
        have h : .doJoin token ∈ (m.handleKey libs.toLibs k).2 := h
        rcases handleKey_cases libs.toLibs hover k with ⟨hcmds, _⟩ | hnone
        · rw [hcmds] at h
          cases List.mem_singleton.mp h
        · exact asked_ne_zero h (hnone .join).1
      | inviteResult r => simp [update, handleOverlayResult, hover] at h
      | joinResult r => simp [update, handleOverlayResult, hover] at h
      | _ => cases hmsg
  · have hrest := (m.update_around_overlay libs.toLibs (Bool.not_eq_true _ ▸ hmsg)).2
    exact absurd (hrest .join).1 (asked_ne_zero h)

/-- A join overlay that waits is left as it is. -/
theorem update_join_waits (libs : Libs) {m : Model} {o : JoinOverlay} {msg : Msg}
    (hover : m.overlay = some (.join o)) (hloading : o.loading = true)
    (hends : msg.ends .join = false) :
    (m.update libs msg).1.overlay = some (.join o) := by
  -- the text field is closed while it waits
  have hforward : (o.forward libs msg).1 = some (.join o) := by
    unfold JoinOverlay.forward
    rw [hloading]
    rfl
  by_cases hmsg : msg.forOverlay = true
  · rw [(update_of_overlay libs hover hmsg).1]
    show (o.update libs msg).1 = some (.join o)
    cases msg with
    | key k =>
      rw [Msg.ends_key (bne_iff_ne.mp hmsg)] at hends
      simp only [JoinOverlay.update, hends, hloading]
      simpa using hforward
    | joinResult r => cases hends
    | inviteResult r => exact hforward
    | _ => cases hmsg
  · rw [(m.update_around_overlay libs (Bool.not_eq_true _ ▸ hmsg)).1, hover]

end Model

/-! ## §3. Every schedule. -/

namespace Program

variable {libs : ProgramLibs} {s s' : Program}

/-- The requests whose answers `Update` has not handled. -/
def underWay (s : Program) (req : Request) : Nat :=
  asked req s.cmds + s.inbox.countP (Msg.answers req)

structure Owned (s : Program) : Prop where
  /-- An overlay waits for each answer that is to come, and for no other. -/
  balance : ∀ req, s.underWay req = waiting req s.model.overlay
  /-- The token being tried is the one in the text field. -/
  token : ∀ token, .doJoin token ∈ s.cmds →
    ∃ o, s.model.overlay = some (.join o) ∧ o.loading = true ∧ o.input = token

/-- Esc does not close an overlay that waits. -/
def KeepsWaiting (s : Program) : ProgramAct → Prop
  | .input (.key k) => k.closes = true → ∀ req, waiting req s.model.overlay = 0
  | _ => True

/-- A command that asks returns an answer, and only such a command does. -/
theorem result_answers {c : Cmd} {ans : Answer} {msg : Option Msg}
    (h : s.result c ans = some msg) (req : Request) :
    msg.toList.countP (Msg.answers req) = if c.asks req then 1 else 0 := by
  cases returns_of_result h with
  | _ => cases req <;> rfl

/-- A message leaves the inbox. -/
theorem underWay_eraseIdx {i : Nat} {msg : Msg} (hi : s.inbox[i]? = some msg) (req : Request) :
    s.underWay req = asked req s.cmds + (s.inbox.eraseIdx i).countP (Msg.answers req)
      + if msg.answers req then 1 else 0 := by
  unfold underWay
  rw [← (inbox_perm hi).countP_eq, List.countP_cons, Nat.add_assoc]

/-- A command returns: the request is an answer now. -/
theorem underWay_finish {c : Cmd} {ans : Answer} {msg : Option Msg} (hc : c ∈ s.cmds)
    (hres : s.result c ans = some msg) (req : Request) :
    asked req (s.cmds.erase c) + (s.inbox ++ msg.toList).countP (Msg.answers req)
      = s.underWay req := by
  have hcmds : asked req s.cmds = asked req (s.cmds.erase c) + if c.asks req then 1 else 0 := by
    unfold asked
    rw [(List.perm_cons_erase hc).countP_eq, List.countP_cons]
  unfold underWay
  rw [List.countP_append, result_answers hres, hcmds]
  omega

/-- What a message leaves under way that does not end the wait of another overlay. -/
theorem Owned.token_update (hs : Owned s) {msg : Msg} (hends : msg.ends .join = true →
      asked .join s.cmds = 0) {token : GoString} (h : .doJoin token ∈ (s.update libs msg).cmds) :
    ∃ o, (s.update libs msg).model.overlay = some (.join o) ∧ o.loading = true
      ∧ o.input = token := by
  rcases List.mem_append.mp h with hold | hnew
  · obtain ⟨o, hover, hloading, hinput⟩ := hs.token token hold
    refine ⟨o, ?_, hloading, hinput⟩
    refine Model.update_join_waits libs.toLibs hover hloading ?_
    rw [← Bool.not_eq_true]
    intro he
    exact asked_ne_zero hold (hends he)
  · exact s.model.update_doJoin libs msg hnew

/-- A message of the inbox is what an overlay waits for, or it concerns none. -/
theorem Owned.handle (hs : Owned s) {i : Nat} {msg : Msg} (hi : s.inbox[i]? = some msg)
    (hkey : msg.isInput = false) :
    Owned { s.update libs msg with inbox := s.inbox.eraseIdx i } := by
  have hends : ∀ req, msg.ends req = msg.answers req := by
    intro req
    cases msg with
    | key k => cases hkey
    | _ => rfl
  have hunder : ∀ req, asked req s.cmds + (s.inbox.eraseIdx i).countP (Msg.answers req)
      + (if msg.answers req then 1 else 0) = waiting req s.model.overlay := by
    intro req
    rw [← underWay_eraseIdx hi]
    exact hs.balance req
  refine ⟨fun req => ?_, fun token htoken => hs.token_update (fun he => ?_) htoken⟩
  · have hasks := s.model.update_asks libs msg req
    have hbefore := hunder req
    have hle := waiting_le_one req s.model.overlay
    show asked req (s.cmds ++ (s.model.update libs.toLibs msg).2)
        + (s.inbox.eraseIdx i).countP (Msg.answers req)
      = waiting req (s.model.update libs.toLibs msg).1.overlay
    have happend : asked req (s.cmds ++ (s.model.update libs.toLibs msg).2)
        = asked req s.cmds + asked req (s.model.update libs.toLibs msg).2 := List.countP_append
    rw [hends req] at hasks
    by_cases hanswers : msg.answers req = true
    · rw [if_pos hanswers] at hasks hbefore
      omega
    · rw [if_neg hanswers] at hasks hbefore
      omega
  · have hbefore := hunder .join
    have hle := waiting_le_one .join s.model.overlay
    rw [hends .join] at he
    rw [if_pos he] at hbefore
    omega

theorem Owned.finish (hs : Owned s) {c : Cmd} {ans : Answer} {msg : Option Msg}
    {ch : List Event} {stopped : Bool} (hc : c ∈ s.cmds) (hres : s.result c ans = some msg) :
    Owned { s with
      cmds := s.cmds.erase c
      inbox := s.inbox ++ msg.toList
      ch := ch
      stopped := stopped } := by
  refine ⟨fun req => ?_, fun token htoken => hs.token token (List.mem_of_mem_erase htoken)⟩
  exact (underWay_finish hc hres req).trans (hs.balance req)

/-- The interface as it is, whatever the daemon does. -/
theorem Owned.of_same (hs : Owned s) (hmodel : s'.model = s.model) (hcmds : s'.cmds = s.cmds)
    (hinbox : s'.inbox = s.inbox) : Owned s' := by
  refine ⟨fun req => ?_, fun token htoken => ?_⟩
  · unfold underWay
    rw [hmodel, hcmds, hinbox]
    exact hs.balance req
  · rw [hcmds] at htoken
    rw [hmodel]
    exact hs.token token htoken

theorem push_same (s : Program) (ev : Event) :
    (s.push ev).model = s.model ∧ (s.push ev).cmds = s.cmds ∧ (s.push ev).inbox = s.inbox := by
  unfold push
  split <;> exact ⟨rfl, rfl, rfl⟩

/-- What a step does to the interface. -/
theorem step_cases {a : ProgramAct} (h : s.step libs a = some s') :
    (∃ msg, a = .input msg ∧ msg.isInput = true ∧ s' = s.update libs msg)
      ∨ (∃ c ans msg, a = .finish c ans ∧ c ∈ s.cmds ∧ s.result c ans = some msg
          ∧ s' = { s with
              cmds := s.cmds.erase c
              inbox := s.inbox ++ msg.toList
              ch := if c = .waitForEvent then s.ch.tail else s.ch
              stopped := s.stopped || decide (c = .quit) })
      ∨ (∃ i msg, a = .handle i ∧ s.inbox[i]? = some msg
          ∧ s' = { s.update libs msg with inbox := s.inbox.eraseIdx i })
      ∨ (s.KeepsWaiting a ∧ s'.model = s.model ∧ s'.cmds = s.cmds ∧ s'.inbox = s.inbox) := by
  cases step_sound h with
  | announce _ | write ev => exact .inr (.inr (.inr ⟨trivial, s.push_same _⟩))
  | input hin => exact .inl ⟨_, rfl, hin, rfl⟩
  | finish hc hres => exact .inr (.inl ⟨_, _, _, rfl, hc, hres, rfl⟩)
  | handle hi => exact .inr (.inr (.inl ⟨_, _, rfl, hi, rfl⟩))
  | _ => exact .inr (.inr (.inr ⟨trivial, rfl, rfl, rfl⟩))

/-- A text field that takes the runes typed. -/
def typingLibs : ProgramLibs where
  toLibs := { Libs.plain with
    textInput := fun s msg =>
      match msg with
      | .key k => (s ++ encodeRunes k.runes, [])
      | _ => (s, []) }
  textInput_cmds := by
    intro s msg c hc
    cases msg <;> cases hc

/-- The peer of a join that was given up is shown as that of the next, which has not
begun. -/
example :
    (run (step typingLibs) (new [])
        [.input (.key ⟨.runes, ['J'], false, false⟩), .input (.key ⟨.runes, ['a'], false, false⟩),
          .input (.key ⟨.enter, [], false, false⟩), .input (.key ⟨.esc, [], false, false⟩),
          .input (.key ⟨.runes, ['J'], false, false⟩), .finish (.doJoin (ascii "a")) (.text [7]),
          .handle 0]).map (fun s => s.model.overlay)
      = some (some (.join ⟨[], none, [7], false⟩)) := by
  decide

end Program

end Kin.Tui
