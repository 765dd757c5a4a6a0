/-
  Kin.Daemon.EventStream

  **THE BYTES OF A SUBSCRIBER** (`subscriber.send`, `subscriber.close`, `Broadcast`
  and `handleSubscribe` of `internal/daemon/server.go`, over `framing.go`).

  `Kin.Daemon.Subscribers` takes a send for one step.  Here it is the two writes of
  `WriteJSON` under the subscriber's mutex, with a write deadline of five seconds: a
  write to a slow client may stop midway.  `Broadcast` then drops the subscriber,
  in three steps:

      send fails, unlock ──▶ removeSub (server's mutex) ──▶ close (subscriber's mutex)

  A second `Broadcast` that has copied the list before may get the mutex in between;
  it sets a NEW deadline, and its event goes out behind the torn one.

    • `received_frames` — what the client's loop reads off a stream,
    • `shut_of_closed` — after `close` no byte goes out,
    • `events_arrive_whole_iff` — nothing follows a torn event exactly if no send
      writes before the connection is closed; then the client reads the events sent.
-/
import Kin.Daemon.Ipc
import Kin.Lib.Serial

namespace Kin.Daemon

open Kin.Lib Kin.Lib.Json Kin.Lib.Serial
open Kin.Protocol (putUint32 uint32 uint32_putUint32)

/-! ## §1. Events as they are written. -/

/-- `json.Marshal` of an `Event`. -/
def Event.marshal : Event → GoString
  | .peerOnline info =>
    -- `BroadcastPeerOnline` leaves the endpoints nil
    object [member "type" (quote (ascii "peer_online")), member "data" (info.marshal true)]
  | .peerOffline nodeID =>
    object [member "type" (quote (ascii "peer_offline")),
      member "data" (object [member "node_id" (quote nodeID)])]
  | .catalogUpdated => object [member "type" (quote (ascii "catalog_updated"))]
  | .other type => object [member "type" (quote type)]

/-- The calls of `Write` that `WriteJSON` makes; a text it refuses has none. -/
def eventPieces (event : Event) : List GoString :=
  if event.marshal.length > maxIPCMsgSize then []
  else [putUint32 event.marshal.length, event.marshal]

def Event.Fits (event : Event) : Prop := event.marshal.length ≤ maxIPCMsgSize

theorem frame_eventPieces {event : Event} (h : event.Fits) :
    Serial.frame eventPieces event = frame event.marshal := by
  unfold Serial.frame eventPieces frame
  rw [if_neg (Nat.not_lt.mpr h)]
  simp

theorem fits_of_frame_ne_nil {event : Event} (h : Serial.frame eventPieces event ≠ []) :
    event.Fits := by
  by_contra hno
  apply h
  unfold Serial.frame eventPieces
  rw [if_pos (Nat.lt_of_not_le hno)]
  rfl

/-! ## §2. The subscriber. -/

structure Subscriber where
  /-- Its connection, and the calls of `send`. -/
  stream : Serial.Stream Event UInt8
  /-- It is in the server's list. -/
  listed : Bool
  /-- The calls of `send` whose `Broadcast` has called `removeSub`. -/
  removed : List Nat
  /-- `sub.closed`. -/
  closed : Bool

namespace Subscriber

/-- As `handleSubscribe` appends it. -/
def new : Subscriber := ⟨Serial.Stream.new, true, [], false⟩

inductive Act where
  /-- A `Broadcast` copies the list. -/
  | broadcast (event : Event)
  /-- A send gets the mutex. -/
  | lock (i : Nat)
  | write
  /-- The connection is closed, the deadline cannot be set, or a write stops after
  `k` bytes. -/
  | fail (k : Nat)
  | unlock
  /-- `removeSub` after a failed send. -/
  | remove (i : Nat)
  /-- `sub.close` after it. -/
  | close (i : Nat)
  /-- The client closes the connection. -/
  | hangUp
  /-- The read loop of `handleSubscribe` ends, and `removeSub`. -/
  | leave

/-- `send` has returned an error: a write has failed, or the text was refused. -/
def sendFailed (c : Serial.Call Event) : Bool :=
  match c.phase with
  | .returned ok => !ok || (eventPieces c.msg).isEmpty
  | _ => false

/-- A step of the connection; a failed write does not shut it. -/
def io (s : Subscriber) (a : Serial.Act Event) : Option Subscriber :=
  (Serial.step eventPieces false s.stream a).map (fun stream => { s with stream := stream })

def step (s : Subscriber) : Act → Option Subscriber
  | .broadcast event => if s.listed then s.io (.call event) else some s
  | .lock i => s.io (.lock i)
  | .write => s.io .write
  | .fail k => s.io (.fail k)
  | .unlock => s.io .unlock
  | .remove i =>
    match s.stream.calls[i]? with
    | some c =>
      if sendFailed c then some { s with listed := false, removed := i :: s.removed } else none
    | none => none
  | .close i =>
    -- under the mutex of the subscriber
    if i ∈ s.removed ∧ s.stream.holder.isNone = true then
      (s.io .shut).map (fun s => { s with closed := true })
    else none
  | .hangUp => s.io .shut
  | .leave => if s.stream.shut then some { s with listed := false } else none

/-- What the step does on the connection. -/
def Act.onStream (s : Subscriber) : Act → Option (Serial.Act Event)
  | .broadcast event => if s.listed then some (.call event) else none
  | .lock i => some (.lock i)
  | .write => some .write
  | .fail k => some (.fail k)
  | .unlock => some .unlock
  | .remove _ => none
  | .close _ => some .shut
  | .hangUp => some .shut
  | .leave => none

/-- What a step can do: it is a step of the connection or leaves it, and only `close`
touches the flag. -/
structure Moves (s : Subscriber) (a : Act) (t : Subscriber) : Prop where
  stream : match a.onStream s with
    | some b => Serial.step eventPieces false s.stream b = some t.stream
    | none => t.stream = s.stream
  closed : t.closed = s.closed ∨ a.onStream s = some .shut

theorem io_moves {s t : Subscriber} {a : Act} {b : Serial.Act Event} (hon : a.onStream s = some b)
    (h : s.io b = some t) : Moves s a t := by
  obtain ⟨stream, hstep, rfl⟩ := Option.map_eq_some_iff.mp h
  refine ⟨?_, Or.inl rfl⟩
  rw [hon]
  exact hstep

theorem step_moves {s t : Subscriber} {a : Act} (hs : s.step a = some t) : Moves s a t := by
  cases a with
  | broadcast event =>
    unfold step at hs
    dsimp only at hs
    split at hs
    next hlisted => exact io_moves (if_pos hlisted) hs
    next hlisted =>
      have hon : Act.onStream s (.broadcast event) = none := if_neg hlisted
      injection hs with hs
      subst hs
      refine ⟨?_, Or.inl rfl⟩
      rw [hon]
  | lock i | write | fail k | unlock => exact io_moves rfl hs
  | remove i =>
    unfold step at hs
    dsimp only at hs
    split at hs
    next =>
      split at hs
      next =>
        injection hs with hs
        subst hs
        exact ⟨rfl, Or.inl rfl⟩
      next => cases hs
    next => cases hs
  | close i =>
    unfold step at hs
    dsimp only at hs
    split at hs
    next =>
      obtain ⟨u, hio, rfl⟩ := Option.map_eq_some_iff.mp hs
      obtain ⟨stream, hstep, rfl⟩ := Option.map_eq_some_iff.mp hio
      exact ⟨hstep, Or.inr rfl⟩
    next => cases hs
  | hangUp => exact io_moves rfl hs
  | leave =>
    unfold step at hs
    dsimp only at hs
    split at hs
    next =>
      injection hs with hs
      subst hs
      exact ⟨rfl, Or.inl rfl⟩
    next => cases hs

/-! ## §3. Along a run. -/

/-- Send `i` has returned an error after some bytes of its event, and not all. -/
def FailedMidway (s : Subscriber) (i : Nat) : Prop :=
  ∃ p ∈ s.stream.log, p.call = i ∧ s.stream.calls[i]? = some ⟨p.msg, .returned false⟩
    ∧ p.written ≠ [] ∧ p.written.length < (Serial.frame eventPieces p.msg).length

/-- No send writes between a send that fails midway and the close of the connection,
by `sub.close` or by the client. -/
def WaitsForClose (s : Subscriber) : Act → Prop
  | .write => ∀ i, s.FailedMidway i → s.stream.shut = true
  | .fail k => k ≠ 0 → ∀ i, s.FailedMidway i → s.stream.shut = true
  | _ => True

/-- What is kept of the connection. -/
def OnStream (s : Subscriber) : Prop :=
  Kept eventPieces s.stream ∧ s.stream.OnCourse eventPieces

theorem onStream_new : OnStream new := by
  refine ⟨kept_new eventPieces, ?_⟩
  intro h rest hold
  cases hold

theorem onStream_step {s t : Subscriber} {a : Act} (h : OnStream s) (hs : s.step a = some t) :
    OnStream t := by
  have hon := (step_moves hs).stream
  cases hb : a.onStream s with
  | none =>
    rw [hb] at hon
    unfold OnStream
    rw [show t.stream = s.stream from hon]
    exact h
  | some b =>
    rw [hb] at hon
    exact ⟨h.1.step false hon, h.2.step false hon⟩

/-- An event that is torn is one whose send has failed midway. -/
theorem failedMidway_iff {s : Subscriber} (h : OnStream s) :
    (∃ i, s.FailedMidway i) ↔ ∃ p ∈ s.stream.log, p.torn eventPieces = true := by
  constructor
  · rintro ⟨i, p, hp, -, -, hsome, hlt⟩
    refine ⟨p, hp, ?_⟩
    have hne : p.written ≠ Serial.frame eventPieces p.msg := by
      intro heq
      rw [heq] at hlt
      exact Nat.lt_irrefl _ hlt
    simp [Part.torn, hsome, hne]
  · rintro ⟨p, hp, htorn⟩
    have hcall := h.1.failed_of_torn hp htorn
    have hwithin := h.1.within p (List.mem_append_left _ hp)
    simp only [Part.torn, Bool.and_eq_true, decide_eq_true_eq] at htorn
    refine ⟨p.call, p, hp, rfl, hcall, htorn.1, ?_⟩
    exact Nat.lt_of_le_of_ne hwithin.length_le (fun heq => htorn.2 (hwithin.eq_of_length heq))

theorem ne_nil_of_mem_eventPieces {event : Event} {piece : GoString}
    (h : piece ∈ eventPieces event) : piece ≠ [] := by
  unfold eventPieces at h
  split at h
  · cases h
  · rcases List.mem_pair.mp h with rfl | rfl
    · exact List.cons_ne_nil _ _
    · cases event <;> exact List.cons_ne_nil _ _

/-- The piece that is next has bytes. -/
theorem OnStream.piece_ne_nil {s : Subscriber} (h : OnStream s) {holder : Holder Event UInt8}
    {piece : GoString} {rest : List GoString} (hold : s.stream.holder = some holder)
    (hrest : holder.rest = some (piece :: rest)) : piece ≠ [] :=
  ne_nil_of_mem_eventPieces ((h.2 holder _ hold hrest).subset List.mem_cons_self)

/-- **To write behind no torn event is to wait for the close.** -/
theorem notBehindTorn_iff {s : Subscriber} {a : Act} {b : Serial.Act Event}
    {stream : Serial.Stream Event UInt8} (h : OnStream s) (hon : a.onStream s = some b)
    (hs : Serial.step eventPieces false s.stream b = some stream) :
    Serial.NotBehindTorn eventPieces s.stream b ↔ s.WaitsForClose a := by
  have hnone : (∀ p ∈ s.stream.log, p.torn eventPieces = false) ↔ ¬ ∃ i, s.FailedMidway i := by
    rw [failedMidway_iff h]
    simp
  unfold Serial.NotBehindTorn
  rw [hnone]
  -- the actions of a send; the others put nothing on the connection
  cases a with
  | write =>
    cases hon
    cases step_sound eventPieces false hs with
    | write hold hrest hopen =>
      have hputs := h.piece_ne_nil hold hrest
      rw [puts_write hold hrest]
      unfold WaitsForClose
      rw [hopen]
      exact ⟨fun hno i hi => absurd ⟨i, hi⟩ (hno hputs),
        fun hwait _ hex => Bool.false_ne_true (hwait hex.choose hex.choose_spec)⟩
  | fail k =>
    cases hon
    cases step_sound eventPieces false hs with
    | @fail holder piece rest _ hold hrest =>
      have hputs := h.piece_ne_nil hold hrest
      rw [puts_fail hold hrest]
      unfold WaitsForClose
      cases s.stream.shut with
      | true => exact iff_of_true (fun hne => absurd rfl hne) (fun _ _ _ => rfl)
      | false =>
        have hbytes : piece.take k ≠ [] ↔ k ≠ 0 := by simp [hputs]
        rw [if_neg Bool.false_ne_true, hbytes]
        exact ⟨fun hno hk i hi => absurd ⟨i, hi⟩ (hno hk),
          fun hwait hk hex => Bool.false_ne_true (hwait hk hex.choose hex.choose_spec)⟩
  | broadcast event =>
    obtain ⟨-, hon⟩ := Option.ite_none_right_eq_some.mp hon
    cases hon
    exact iff_of_true (fun hne => absurd rfl hne) trivial
  | lock _ | unlock | close _ | hangUp =>
    cases hon
    exact iff_of_true (fun hne => absurd rfl hne) trivial
  | remove _ | leave => cases hon

theorem neat_step_iff {s t : Subscriber} {a : Act} (h : OnStream s)
    (hneat : s.stream.Neat eventPieces) (hs : s.step a = some t) :
    t.stream.Neat eventPieces ↔ s.WaitsForClose a := by
  have hon := (step_moves hs).stream
  cases hb : a.onStream s with
  | some b =>
    rw [hb] at hon
    exact (Serial.neat_step_iff false hneat hon).trans (notBehindTorn_iff h hb hon)
  | none =>
    rw [hb] at hon
    rw [show t.stream = s.stream from hon]
    refine iff_of_true hneat ?_
    cases a with
    | write | fail _ => cases hb
    | _ => trivial

/-- A connection that is closed stays so, and nothing is added to it. -/
theorem shut_stays {s t : Subscriber} {a : Act} (hshut : s.stream.shut = true)
    (hs : s.step a = some t) : t.stream.shut = true ∧ t.stream.wire = s.stream.wire := by
  have hon := (step_moves hs).stream
  cases hb : a.onStream s with
  | none =>
    rw [hb] at hon
    rw [show t.stream = s.stream from hon]
    exact ⟨hshut, rfl⟩
  | some b =>
    rw [hb] at hon
    refine ⟨shut_step hshut hon, ?_⟩
    rw [wire_step hon, puts_of_shut hshut hon, List.append_nil]

/-- `sub.closed` is set together with the connection's end. -/
theorem shut_of_closed {s t : Subscriber} {a : Act}
    (h : s.closed = true → s.stream.shut = true) (hs : s.step a = some t)
    (hclosed : t.closed = true) : t.stream.shut = true := by
  have hmoves := step_moves hs
  rcases hmoves.closed with heq | hon
  · exact (shut_stays (h (heq ▸ hclosed)) hs).1
  · have hstream := hmoves.stream
    rw [hon] at hstream
    injection hstream with hstream
    rw [← hstream]

end Subscriber

/-! ## §4. The client. -/

/-- The loop of `Subscribe` on the bytes that have arrived, at most `n` messages. -/
def received : (n : Nat) → GoString → List GoString
  | 0, _ => []
  | n + 1, r =>
    match readFrame r with
    | .ok body rest => body :: received n rest
    | _ => []

/-- A part of a frame is no message yet. -/
theorem readFrame_cut {data tail : GoString} (hfits : data.length ≤ maxIPCMsgSize)
    (hpre : tail <+: frame data) (hne : tail ≠ frame data) : readFrame tail = .blocked := by
  have hlt : tail.length < (frame data).length :=
    Nat.lt_of_le_of_ne hpre.length_le (fun h => hne (hpre.eq_of_length h))
  have hhead : (putUint32 data.length).length = 4 := rfl
  unfold readFrame
  by_cases h4 : tail.length < 4
  · rw [if_pos h4]
  · rw [if_neg h4]
    dsimp only
    have htake : tail.take 4 = putUint32 data.length := by
      obtain ⟨more, hmore⟩ := hpre
      have hfour : (tail ++ more).take 4 = tail.take 4 :=
        List.take_append_of_le_length (Nat.le_of_not_lt h4)
      rw [← hfour, hmore, frame, List.take_left' hhead]
    have hsize : uint32 (tail.take 4) = data.length := by
      rw [htake]
      apply uint32_putUint32
      unfold maxIPCMsgSize at hfits
      omega
    unfold frame at hlt
    rw [List.length_append, hhead] at hlt
    rw [hsize, if_neg (Nat.not_lt.mpr hfits), if_pos (by rw [List.length_drop]; omega)]

theorem received_frames {bodies : List GoString} :
    (∀ body ∈ bodies, body.length ≤ maxIPCMsgSize) → ∀ {tail : GoString},
      readFrame tail = .blocked → ∀ n, bodies.length ≤ n →
      received n ((bodies.map frame).flatten ++ tail) = bodies := by
  induction bodies with
  | nil =>
    intro _ tail htail n _
    cases n with
    | zero => rfl
    | succ n =>
      show received (n + 1) tail = []
      rw [received, htail]
  | cons body bodies ih =>
    intro hfits tail htail n hn
    cases n with
    | zero => cases hn
    | succ n =>
      rw [List.map_cons, List.flatten_cons, List.append_assoc, received,
        readFrame_frame (hfits body List.mem_cons_self)]
      dsimp only
      rw [ih (fun b hb => hfits b (List.mem_cons_of_mem _ hb)) htail n
        (Nat.le_of_succ_le_succ hn)]

theorem length_le_flatten_frames (bodies : List GoString) :
    bodies.length ≤ ((bodies.map frame).flatten).length := by
  induction bodies with
  | nil => exact Nat.le_refl 0
  | cons body bodies ih =>
    have hhead : (frame body).length = 4 + body.length := by
      unfold frame
      rw [List.length_append]
      rfl
    rw [List.map_cons, List.flatten_cons, List.length_append, List.length_cons, hhead]
    omega

/-! ## §5. What a subscriber gets. -/

/-- The messages on a connection, as the client reads them. -/
def Subscriber.read (s : Subscriber) : List GoString :=
  received s.stream.wire.length s.stream.wire

/-- The events that are on the connection to their last byte. -/
def Subscriber.arrived (s : Subscriber) : List Event := s.stream.delivered eventPieces

/-- **Whole**: the client reads the events that were written whole, in the order of
the mutex and each once; a send that has returned no error is among them. -/
structure Subscriber.ArriveWhole (s : Subscriber) : Prop where
  read : s.read = s.arrived.map Event.marshal
  once : (s.stream.parts.map Part.call).Nodup
  sent : ∀ (i : Nat) event, s.stream.calls[i]? = some ⟨event, .returned true⟩ → event.Fits →
    event ∈ s.arrived

theorem arriveWhole_of_neat {s : Subscriber} (hkept : Kept eventPieces s.stream)
    (hneat : s.stream.Neat eventPieces) : s.ArriveWhole := by
  obtain ⟨tail, hwire, htail⟩ := hneat.bytes hkept
  have hfits : ∀ event ∈ s.arrived, event.Fits := by
    intro event hevent
    obtain ⟨p, hp, rfl⟩ := List.mem_map.mp hevent
    obtain ⟨-, hwhole⟩ := List.mem_filter.mp hp
    refine fits_of_frame_ne_nil ?_
    rw [← Part.whole_written hwhole]
    intro hnil
    rw [Part.not_whole hnil] at hwhole
    cases hwhole
  have hframes : s.arrived.map (Serial.frame eventPieces)
      = (s.arrived.map Event.marshal).map frame := by
    rw [List.map_map]
    exact List.map_congr_left (fun event hevent => frame_eventPieces (hfits event hevent))
  have hblocked : readFrame tail = .blocked := by
    rcases htail with rfl | ⟨event, hpre, hne⟩
    · rfl
    · have hevent : event.Fits := by
        refine fits_of_frame_ne_nil ?_
        intro hnil
        rw [hnil] at hpre hne
        exact hne (List.prefix_nil.mp hpre)
      rw [frame_eventPieces hevent] at hpre hne
      exact readFrame_cut hevent hpre hne
  have hbytes : s.stream.wire = ((s.arrived.map Event.marshal).map frame).flatten ++ tail := by
    rw [← hframes]
    exact hwire
  constructor
  · rw [Subscriber.read, hbytes]
    refine received_frames ?_ hblocked _ ?_
    · intro body hbody
      obtain ⟨event, hevent, rfl⟩ := List.mem_map.mp hbody
      exact hfits event hevent
    · have hlen := length_le_flatten_frames (s.arrived.map Event.marshal)
      rw [List.length_append]
      omega
  · exact hkept.once
  · intro i event hcall hevent
    refine hkept.mem_delivered hcall ?_
    rw [frame_eventPieces hevent]
    intro hnil
    cases hnil

/-- **THE EVENTS OF A SUBSCRIBER.**  For any number of concurrent broadcasts to one
subscriber and writes that stop after any number of bytes: nothing follows a torn
event exactly if no broadcast writes between a send that has failed midway and the
close of the connection; as long as that is so, the client reads exactly the events
that were written whole; and after `close` nothing goes out any more. -/
theorem events_arrive_whole_iff (acts : List Subscriber.Act) :
    (StatesMeet Subscriber.step (fun s => s.stream.Neat eventPieces) Subscriber.new acts
      ↔ StepsMeet Subscriber.step Subscriber.WaitsForClose Subscriber.new acts)
    ∧ ∀ s, run Subscriber.step Subscriber.new acts = some s →
        (s.stream.Neat eventPieces → s.ArriveWhole)
        ∧ ∀ more t, s.closed = true → run Subscriber.step s more = some t →
            t.stream.wire = s.stream.wire := by
  refine ⟨?_, ?_⟩
  · exact statesMeet_iff_stepsMeet (J := Subscriber.OnStream)
      (fun _ _ _ h hs => Subscriber.onStream_step h hs)
      (fun _ _ _ h hneat hs => Subscriber.neat_step_iff h hneat hs)
      Subscriber.onStream_new neat_new
  · intro s hrun
    have hkept : Kept eventPieces s.stream :=
      (run_invariant (fun _ _ _ h hs => Subscriber.onStream_step h hs)
        Subscriber.onStream_new hrun).1
    have hshut : s.closed = true → s.stream.shut = true :=
      run_invariant (P := fun s : Subscriber => s.closed = true → s.stream.shut = true)
        (fun _ _ _ h hs => Subscriber.shut_of_closed h hs) (fun h => by cases h) hrun
    refine ⟨arriveWhole_of_neat hkept, ?_⟩
    intro more t hclosed hmore
    have hstays : t.stream.shut = true ∧ t.stream.wire = s.stream.wire :=
      run_invariant
        (P := fun t : Subscriber => t.stream.shut = true ∧ t.stream.wire = s.stream.wire)
        (fun u a v hu hs => by
          obtain ⟨hv, hwire⟩ := Subscriber.shut_stays hu.1 hs
          exact ⟨hv, hwire.trans hu.2⟩) ⟨hshut hclosed, rfl⟩ hmore
    exact hstays.2

/-- Two broadcasts.  The first stops after two bytes of its header; before it has
closed the subscriber, the second writes its event.  The client reads an empty
message, which is no event of the daemon's, and then waits. -/
example : ∃ s, run Subscriber.step Subscriber.new
      [.broadcast .catalogUpdated, .broadcast .catalogUpdated, .lock 0, .fail 2, .unlock,
        .lock 1, .write, .write, .unlock, .remove 0, .close 0] = some s
    ∧ s.arrived = [.catalogUpdated] ∧ s.read = [[]] :=
  ⟨_, rfl, rfl, rfl⟩

end Kin.Daemon
