/-
  Kin.Protocol.Wire

  **CONCURRENT SENDERS ON ONE CONNECTION** (`connEntry.Send` of
  `internal/protocol/handler.go`, `entry.send` of `internal/relay/server.go`, over
  `WriteMsg` of `internal/protocol/framing.go`).

  `WriteMsg` writes a header and a body with two calls of `Write`, and several
  goroutines send on one connection: the loop of `Serve` and the broadcasts of the
  watcher, or the relay's answers and its notices to a target.  A mutex per
  connection is all that keeps their bytes apart.  `Kin.Protocol.Handler` and
  `Kin.Relay.Server` take a `Send` for one step; here it is opened up.

    • `nthMsg_frames` — whole frames and a part of one more, read message by message,
    • `sends_arrive_whole` — what the other end reads, over every interleaving.

  Whether anything can follow a write that has failed is a matter of the transport:
  a QUIC stream and a TLS connection without a deadline fail every later write, and
  that is a hypothesis (`lasting`), as the round trip of `proto.Unmarshal` is.
-/
import Kin.Kinpb.Unmarshal
import Kin.Lib.Serial
import Kin.Protocol.Handler
import Kin.Protocol.Stream

namespace Kin.Protocol

open Kin.Lib Kin.Kinpb Kin.Lib.Serial

/-! ## §1. The writes of a message. -/

/-- The calls of `Write` that `WriteMsg` makes; a message it refuses has none. -/
def sendPieces (env : Envelope) : List GoString :=
  match env.marshal with
  | .error _ => []
  | .ok data => if data.length > maxMsgSize then [] else [putUint32 data.length, data]

/-- Any number of concurrent calls of `Send` on one connection. -/
abbrev Sends := Serial.Stream Envelope UInt8

/-- One step of one call; a failed write is the last one if errors are `lasting`. -/
def Sends.step (lasting : Bool) (s : Sends) (a : Serial.Act Envelope) : Option Sends :=
  Serial.step sendPieces lasting s a

/-- The messages that are on the connection to their last byte. -/
def Sends.arrived (s : Sends) : List Envelope := s.delivered sendPieces

theorem frame_of_writeMsg {env : Envelope} {data : GoString} (h : writeMsg env = .ok data) :
    frame sendPieces env = data := by
  obtain ⟨body, hbody, hsize, rfl⟩ := writeMsg_eq_ok h
  have hle : ¬ body.length > maxMsgSize := Nat.not_lt.mpr hsize
  unfold frame sendPieces
  rw [hbody]
  dsimp only
  rw [if_neg hle]
  simp

theorem frame_of_refused {env : Envelope} (h : accepts env = false) :
    frame sendPieces env = [] := by
  unfold accepts at h
  split at h
  next => cases h
  next err hwrite =>
    unfold writeMsg at hwrite
    unfold frame sendPieces
    cases hbody : env.marshal with
    | error text => rfl
    | ok data =>
      rw [hbody] at hwrite
      dsimp only at hwrite ⊢
      split at hwrite
      next hsize =>
        rw [if_pos hsize]
        rfl
      next => cases hwrite

theorem writeMsg_of_accepts {env : Envelope} (h : accepts env = true) :
    writeMsg env = .ok (frame sendPieces env) := by
  unfold accepts at h
  split at h
  next data hwrite =>
    rw [frame_of_writeMsg hwrite]
    exact hwrite
  next => cases h

/-- A message has bytes exactly if `WriteMsg` takes it. -/
theorem frame_ne_nil_iff (env : Envelope) : frame sendPieces env ≠ [] ↔ accepts env = true := by
  constructor
  · intro hne
    by_contra hno
    exact hne (frame_of_refused (eq_false_of_ne_true hno))
  · intro h hnil
    obtain ⟨body, -, -, hframe⟩ := writeMsg_eq_ok (writeMsg_of_accepts h)
    rw [hnil] at hframe
    cases hframe

/-! ## §2. Reading. -/

/-- Whole frames and then a part of one more: the messages, and then errors. -/
theorem nthMsg_frames (unmarshal : GoString → Except String Envelope) {envs : List Envelope} :
    (∀ env ∈ envs, accepts env = true
      ∧ ∀ data, env.marshal = .ok data → unmarshal data = .ok env) →
    ∀ {r : Reader UInt8} {tail : GoString},
      r.bytes = (envs.map (frame sendPieces)).flatten ++ tail →
      (tail = [] ∨ ∃ msg, tail <+: frame sendPieces msg ∧ tail ≠ frame sendPieces msg) →
      ∀ i env, nthMsg unmarshal r i = .ok env ↔ envs[i]? = some env := by
  induction envs with
  | nil =>
    intro _ r tail hbytes htail i env
    have herr : ∃ err, nthMsg unmarshal r i = .error err := by
      rcases htail with hnil | ⟨msg, hpre, hne⟩
      · rw [hnil] at hbytes
        exact nthMsg_of_bytes_eq_nil unmarshal hbytes i
      · have haccepts : accepts msg = true := by
          by_contra hno
          rw [frame_of_refused (eq_false_of_ne_true hno)] at hpre hne
          exact hne (List.prefix_nil.mp hpre)
        have hr : r.bytes = tail := hbytes
        have hlt : r.bytes.length < (frame sendPieces msg).length := by
          rw [hr]
          exact Nat.lt_of_le_of_ne hpre.length_le (fun h => hne (hpre.eq_of_length h))
        exact nthMsg_cut unmarshal (writeMsg_of_accepts haccepts) (hr ▸ hpre) hlt i
    obtain ⟨err, herr⟩ := herr
    rw [herr]
    exact iff_of_false (fun h => by cases h) (fun h => by cases h)
  | cons e envs ih =>
    intro hall r tail hbytes htail i env
    obtain ⟨haccepts, hround⟩ := hall e List.mem_cons_self
    rw [List.map_cons, List.flatten_cons, List.append_assoc] at hbytes
    have hread : readMsg unmarshal r.bytes
        = .ok (e, (envs.map (frame sendPieces)).flatten ++ tail) := by
      rw [hbytes]
      exact readMsg_writeMsg hround (writeMsg_of_accepts haccepts) _
    obtain ⟨r', hfrom, hbytes'⟩ := readMsgFrom_of_ok unmarshal hread
    cases i with
    | zero =>
      rw [nthMsg, hfrom]
      simp
    | succ i =>
      rw [nthMsg, hfrom, List.getElem?_cons_succ]
      exact ih (fun e' he' => hall e' (List.mem_cons_of_mem _ he')) hbytes' htail i env

/-- A message that fits in a frame is read back from it. -/
theorem unmarshal_of_accepts {env : Envelope} (hfits : env.fits = true)
    (haccepts : accepts env = true) (data : GoString) (hdata : env.marshal = .ok data) :
    Envelope.unmarshal data = .ok env := by
  obtain ⟨data', hdata', hsize⟩ := (accepts_iff env).mp haccepts
  rw [hdata] at hdata'
  cases hdata'
  refine Envelope.unmarshal_marshal hfits hdata ?_
  unfold maxMsgSize at hsize
  omega

/-! ## §3. The two ends. -/

/-- **Whole**: the other end, in whatever fragments the bytes come, reads the messages
that are on the connection to their last byte, in the order of the mutex; a `Send`
that has returned no error is among them; and as long as no write has failed they
are what `ServeCall.send`, taken for one step, leaves on the connection. -/
structure ArriveWhole (unmarshal : GoString → Except String Envelope) (s : Sends) : Prop where
  read : ∀ r : Reader UInt8, r.bytes = s.wire →
    ∀ i env, nthMsg unmarshal r i = .ok env ↔ s.arrived[i]? = some env
  sent : ∀ (i : Nat) env, s.calls[i]? = some ⟨env, .returned true⟩ → accepts env = true →
    env ∈ s.arrived
  once : (s.parts.map Part.call).Nodup
  atomic : s.holder = none → (∀ (i : Nat) c, s.calls[i]? = some c → c.phase ≠ .returned false) →
    ∀ c : ServeCall, (s.log.map Part.msg).foldl (fun c env => c.send env) c
      = { c with sent := c.sent ++ s.arrived }

theorem foldl_send (envs : List Envelope) : ∀ c : ServeCall,
    envs.foldl (fun c env => c.send env) c = { c with sent := c.sent ++ envs.filter accepts } := by
  induction envs with
  | nil =>
    intro c
    simp
  | cons env envs ih =>
    intro c
    rw [List.foldl_cons, ih]
    cases haccepts : accepts env with
    | true => simp [ServeCall.send, haccepts]
    | false => simp [ServeCall.send, haccepts]

/-- **NO TORN MESSAGE.**  For any number of concurrent `Send`s on one connection, any
interleaving of them and writes that fail after any number of bytes: the other end
reads exactly the messages that were written whole, each as it was sent.  A `Send`
that has returned before another starts comes before it.  Assumed are the transport,
on which a failed write is the last one, and the decoder, which reads the messages
back from their encodings. -/
theorem sends_arrive_whole (unmarshal : GoString → Except String Envelope) (lasting : Bool)
    (acts more : List (Serial.Act Envelope)) (s t : Sends) (hlasting : lasting = true)
    (hrun : run (Sends.step lasting) Serial.Stream.new acts = some s)
    (hmore : run (Sends.step lasting) s more = some t)
    (hround : ∀ c ∈ s.calls, accepts c.msg = true →
      ∀ data, c.msg.marshal = .ok data → unmarshal data = .ok c.msg) :
    ArriveWhole unmarshal s ∧ s.parts.map Part.call <+: t.parts.map Part.call := by
  subst hlasting
  have hkept : Kept sendPieces s := kept_run true hrun
  obtain ⟨tail, hwire, htail⟩ := (neat_of_lasting hrun).bytes hkept
  have harrived : ∀ env ∈ s.arrived, accepts env = true
      ∧ ∀ data, env.marshal = .ok data → unmarshal data = .ok env := by
    intro env henv
    obtain ⟨p, hp, rfl⟩ := List.mem_map.mp henv
    obtain ⟨hp, hwhole⟩ := List.mem_filter.mp hp
    have hframe := Part.whole_written hwhole
    have hne : p.written ≠ [] := by
      intro hnil
      rw [Part.not_whole hnil] at hwhole
      cases hwhole
    obtain ⟨phase, hcall, -, -⟩ := hkept.whose p hp
    have haccepts := (frame_ne_nil_iff p.msg).mp (hframe ▸ hne)
    exact ⟨haccepts, hround _ (List.mem_of_getElem? hcall) haccepts⟩
  refine ⟨?_, order_grows hmore⟩
  constructor
  · intro r hr i env
    exact nthMsg_frames unmarshal harrived (hr.trans hwire) htail i env
  · intro i env hcall haccepts
    exact hkept.mem_delivered hcall ((frame_ne_nil_iff env).mpr haccepts)
  · exact hkept.once
  · intro hfree hok c
    rw [foldl_send, Sends.arrived, hkept.delivered_of_ok hfree hok]
    congr 3
    funext env
    rw [Bool.eq_iff_iff, decide_eq_true_iff]
    exact (frame_ne_nil_iff env).symm

def oneByteRequest : Envelope := ⟨some (.fileRequest ⟨[7]⟩)⟩

/-- The second call gets the mutex first; the body of the first stops after two bytes. -/
def tornRun : List (Serial.Act Envelope) :=
  [.call oneByteRequest, .call ⟨none⟩, .lock 1, .write, .write, .unlock, .lock 0, .write, .fail 2]

theorem sends_arrive_whole_torn :
    ∃ s : Sends, run (Sends.step true) Serial.Stream.new tornRun = some s
      ∧ s.wire = [0, 0, 0, 0, 0, 0, 0, 5, 26, 3] ∧ s.arrived = [⟨none⟩]
      ∧ ArriveWhole Envelope.unmarshal s := by
  refine ⟨_, rfl, rfl, rfl,
    (sends_arrive_whole Envelope.unmarshal true tornRun [] _ _ rfl rfl rfl ?_).1⟩
  intro c hc
  refine unmarshal_of_accepts ?_
  rcases List.mem_pair.mp hc with rfl | rfl
  · rfl
  · rfl

end Kin.Protocol
