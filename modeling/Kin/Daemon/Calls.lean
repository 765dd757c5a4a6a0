/-
  Kin.Daemon.Calls

  **CONCURRENT CALLERS ON ONE CONNECTION** (`Client.call` of
  `internal/ipc/client.go`, against `handleConn`).

  A caller numbers its request, takes the mutex, writes, reads one message and
  lets go; the response it gets is its own because nobody else can write or read
  in between.  The server's part is `serveOne`, with the daemon in any state at
  each request.

    • `Wires` — what is on the connection, by what the holder has done,
    • `rank_step` — every step but a new call brings the calls nearer their end,
    • `answered_step_iff` — one step,
    • `one_response_per_request_iff` — both sides together.
-/
import Kin.Daemon.Ipc
import Kin.Lib.Run

namespace Kin.Daemon

open Kin.Lib

variable {libs : IpcLibs}

/-! ## §1. The client. -/

/-- How far a call is. -/
inductive CallState (libs : IpcLibs) where
  /-- It has its id and waits for the mutex. -/
  | numbered (w : Wire libs)
  | holding (w : Wire libs)
  /-- The request is written. -/
  | sent (w : Wire libs)
  /-- The text of the response, or the error. -/
  | returned (w : Wire libs) (res : Except String GoString)

structure Client (libs : IpcLibs) where
  pipe : Pipe
  nextID : UInt64
  /-- The call that holds the mutex. -/
  lock : Option Nat
  calls : List (CallState libs)

inductive ClientAct (libs : IpcLibs) where
  /-- A caller comes in with its request. -/
  | call (w : Wire libs)
  | lock (i : Nat)
  | write (i : Nat)
  /-- The server goes once round its loop. -/
  | serve (d : DaemonState)
  | read (i : Nat)

def ClientAct.IsCall : ClientAct libs → Prop
  | call _ => True
  | _ => False

namespace Client

/-- `Dial`. -/
def new (libs : IpcLibs) : Client libs := ⟨⟨[], [], .serving⟩, 0, none, []⟩

/-- The call returns and unlocks. -/
def finish (s : Client libs) (i : Nat) (w : Wire libs) (res : Except String GoString) :
    Client libs :=
  { s with lock := none, calls := s.calls.set i (.returned w res) }

def step (libs : IpcLibs) (s : Client libs) : ClientAct libs → Option (Client libs)
  | .call w =>
    -- the request carries the counter's new value
    if w.req.id = s.nextID + 1 then
      some { s with nextID := s.nextID + 1, calls := s.calls ++ [.numbered w] }
    else none
  | .lock i =>
    -- `c.mu.Lock()`, which the call keeps until it returns
    match s.calls[i]?, s.lock with
    | some (.numbered w), none =>
      some { s with lock := some i, calls := s.calls.set i (.holding w) }
    | _, _ => none
  | .write i =>
    match s.calls[i]? with
    | some (.holding w) =>
      -- a socket that the server has closed takes no more bytes
      if s.pipe.status = .closed then
        some (s.finish i w (.error "ipc: write header: broken pipe"))
      else
        some { s with
          pipe := { s.pipe with toServer := s.pipe.toServer ++ frame w.body }
          calls := s.calls.set i (.sent w) }
    | _ => none
  | .serve d => (serveOne libs s.pipe d).map (fun p => { s with pipe := p })
  | .read i =>
    match s.calls[i]? with
    | some (.sent w) =>
      match readFrame s.pipe.toClient with
      | .ok body rest =>
        some ({ s with pipe := { s.pipe with toClient := rest } }.finish i w (.ok body))
      | .error err => some (s.finish i w (.error err))
      | .blocked =>
        -- nothing more comes on a closed connection
        if s.pipe.status = .closed then some (s.finish i w (.error "ipc: read header: EOF"))
        else none
    | _ => none

/-- What a step does. -/
inductive Step (s : Client libs) : ClientAct libs → Client libs → Prop
  | call (w : Wire libs) (hid : w.req.id = s.nextID + 1) :
      Step s (.call w) { s with nextID := s.nextID + 1, calls := s.calls ++ [.numbered w] }
  | lock (i : Nat) (w : Wire libs) (hc : s.calls[i]? = some (.numbered w)) (hfree : s.lock = none) :
      Step s (.lock i) { s with lock := some i, calls := s.calls.set i (.holding w) }
  | write (i : Nat) (w : Wire libs) (hc : s.calls[i]? = some (.holding w)) :
      Step s (.write i)
        { s with
          pipe := { s.pipe with toServer := s.pipe.toServer ++ frame w.body }
          calls := s.calls.set i (.sent w) }
  | writeFails (i : Nat) (w : Wire libs) (err : String) (hc : s.calls[i]? = some (.holding w))
      (hclosed : s.pipe.status = .closed) : Step s (.write i) (s.finish i w (.error err))
  | serve (d : DaemonState) (p : Pipe) (hp : serveOne libs s.pipe d = some p) :
      Step s (.serve d) { s with pipe := p }
  | read (i : Nat) (w : Wire libs) (body rest : GoString) (hc : s.calls[i]? = some (.sent w))
      (hread : readFrame s.pipe.toClient = .ok body rest) :
      Step s (.read i)
        ({ s with pipe := { s.pipe with toClient := rest } }.finish i w (.ok body))
  | readFails (i : Nat) (w : Wire libs) (err : String) (hc : s.calls[i]? = some (.sent w))
      (hread : readFrame s.pipe.toClient = .error err
        ∨ readFrame s.pipe.toClient = .blocked ∧ s.pipe.status = .closed) :
      Step s (.read i) (s.finish i w (.error err))

theorem step_sound {s s' : Client libs} {a : ClientAct libs} (hs : s.step libs a = some s') :
    s.Step a s' := by
  cases a with
  | call w =>
    obtain ⟨hid, hs⟩ := Option.ite_none_right_eq_some.mp hs
    obtain rfl := Option.some.inj hs
    exact .call w hid
  | lock i =>
    unfold step at hs
    dsimp only at hs
    split at hs
    · next w hc hfree =>
      obtain rfl := Option.some.inj hs
      exact .lock i w hc hfree
    · cases hs
  | write i =>
    unfold step at hs
    dsimp only at hs
    split at hs
    · next w hc =>
      split at hs
      · next hclosed =>
        obtain rfl := Option.some.inj hs
        exact .writeFails i w _ hc hclosed
      · obtain rfl := Option.some.inj hs
        exact .write i w hc
    · cases hs
  | serve d =>
    obtain ⟨p, hp, rfl⟩ := Option.map_eq_some_iff.mp hs
    exact .serve d p hp
  | read i =>
    unfold step at hs
    dsimp only at hs
    split at hs
    · next w hc =>
      split at hs
      · next body rest hread =>
        obtain rfl := Option.some.inj hs
        exact .read i w body rest hc hread
      · next err hread =>
        obtain rfl := Option.some.inj hs
        exact .readFails i w err hc (.inl hread)
      · next hread =>
        obtain ⟨hclosed, hs⟩ := Option.ite_none_right_eq_some.mp hs
        obtain rfl := Option.some.inj hs
        exact .readFails i w _ hc (.inr ⟨hread, hclosed⟩)
    · cases hs

/-! ## §2. Every call ends. -/

/-- What a call has still to do, with the bytes it has to write. -/
def weight : CallState libs → Nat
  | .numbered w => 3 + (frame w.body).length
  | .holding w => 2 + (frame w.body).length
  | .sent _ => 1
  | .returned _ _ => 0

def rank (s : Client libs) : Nat := (s.calls.map weight).sum + s.pipe.toServer.length

/-- A call goes from one state to another. -/
theorem sum_weight_set {calls : List (CallState libs)} {i : Nat} {c : CallState libs}
    (h : calls[i]? = some c) (c' : CallState libs) :
    ((calls.set i c').map weight).sum + weight c = (calls.map weight).sum + weight c' := by
  induction calls generalizing i with
  | nil => cases h
  | cons x rest ih =>
    cases i with
    | zero =>
      obtain rfl := Option.some.inj h
      show weight c' + (rest.map weight).sum + weight x
        = weight x + (rest.map weight).sum + weight c'
      omega
    | succ i =>
      have hrest := ih h
      show weight x + ((rest.set i c').map weight).sum + weight c
        = weight x + (rest.map weight).sum + weight c'
      omega

/-- A message that is read was there. -/
theorem length_readFrame {r : GoString} (h : readFrame r ≠ .blocked) :
    4 ≤ r.length ∧ ∀ body rest, readFrame r = .ok body rest → rest.length < r.length := by
  unfold readFrame at h ⊢
  by_cases hfour : r.length < 4
  · rw [if_pos hfour] at h
    exact absurd rfl h
  · rw [if_neg hfour]
    refine ⟨by omega, fun body rest hread => ?_⟩
    dsimp only at hread
    split at hread
    · cases hread
    · split at hread
      · cases hread
      · obtain ⟨-, rfl⟩ := ReadResult.ok.inj hread
        rw [List.length_drop, List.length_drop]
        omega

/-- A round of the loop takes bytes off the connection. -/
theorem length_serveOne {p p' : Pipe} {d : DaemonState} (h : serveOne libs p d = some p') :
    p'.toServer.length < p.toServer.length := by
  unfold serveOne at h
  split at h
  · cases h
  · split at h
    · cases h
    · next hread =>
      obtain ⟨hfour, -⟩ := length_readFrame (r := p.toServer) (by rw [hread]; exact nofun)
      obtain rfl := Option.some.inj h
      show (p.toServer.drop 4).length < _
      rw [List.length_drop]
      omega
    · next body rest hread =>
      obtain ⟨-, hrest⟩ := length_readFrame (r := p.toServer) (by rw [hread]; exact nofun)
      have hlt := hrest body rest hread
      split at h
      · obtain rfl := Option.some.inj h
        exact hlt
      · split at h
        · obtain rfl := Option.some.inj h
          exact hlt
        · split at h
          · obtain rfl := Option.some.inj h
            exact hlt
          · obtain rfl := Option.some.inj h
            exact hlt

variable {s s' : Client libs}

theorem rank_finish {i : Nat} {c : CallState libs} (hc : s.calls[i]? = some c) (w : Wire libs)
    (res : Except String GoString) : (s.finish i w res).rank + weight c = s.rank := by
  have hsum := sum_weight_set hc (.returned w res)
  show ((s.calls.set i (.returned w res)).map weight).sum + s.pipe.toServer.length + weight c
    = (s.calls.map weight).sum + s.pipe.toServer.length
  have hzero : weight (.returned w res : CallState libs) = 0 := rfl
  omega

/-- **Every step but a new call** brings the calls nearer their end. -/
theorem rank_step {a : ClientAct libs} (ha : ¬ a.IsCall) (hs : s.step libs a = some s') :
    s'.rank < s.rank := by
  cases step_sound hs with
  | call w hid => exact absurd trivial ha
  | lock i w hc hfree =>
    have hsum := sum_weight_set hc (.holding w)
    show ((s.calls.set i (.holding w)).map weight).sum + s.pipe.toServer.length
      < (s.calls.map weight).sum + s.pipe.toServer.length
    simp only [weight] at hsum
    omega
  | write i w hc =>
    have hsum := sum_weight_set hc (.sent w)
    show ((s.calls.set i (.sent w)).map weight).sum
        + (s.pipe.toServer ++ frame w.body).length
      < (s.calls.map weight).sum + s.pipe.toServer.length
    rw [List.length_append]
    simp only [weight] at hsum
    omega
  | writeFails i w err hc hclosed =>
    have hrank := rank_finish hc w (.error err)
    simp only [weight] at hrank
    omega
  | serve d p hp =>
    have hlt := length_serveOne hp
    show (s.calls.map weight).sum + p.toServer.length
      < (s.calls.map weight).sum + s.pipe.toServer.length
    omega
  | read i w body rest hc hread =>
    have hrank : rank _ + weight (.sent w) = s.rank :=
      rank_finish (s := { s with pipe := { s.pipe with toClient := rest } }) hc w (.ok body)
    exact Nat.lt_of_lt_of_eq (Nat.lt_succ_self _) hrank
  | readFails i w err hc hread =>
    have hrank := rank_finish hc w (.error err)
    simp only [weight] at hrank
    omega

/-- No schedule without new calls goes on for ever. -/
theorem length_le_rank (acts : List (ClientAct libs)) :
    ∀ {s t : Client libs}, (∀ a ∈ acts, ¬ a.IsCall) → run (step libs) s acts = some t →
      acts.length ≤ s.rank := by
  induction acts with
  | nil =>
    intro s t _ _
    exact Nat.zero_le _
  | cons a acts ih =>
    intro s t hno hrun
    obtain ⟨u, hu, hrun⟩ := run_cons_eq_some.mp hrun
    have hlt := rank_step (hno a List.mem_cons_self) hu
    have hrest := ih (fun b hb => hno b (List.mem_cons_of_mem _ hb)) hrun
    rw [List.length_cons]
    omega

/-! ## §3. What is on the connection. -/

/-- The call is outside the mutex. -/
def Idle : CallState libs → Prop
  | .numbered _ => True
  | .holding _ => False
  | .sent _ => False
  | .returned _ _ => True

/-- The call that holds the mutex, and the bytes on their way. -/
inductive Held (s : Client libs) (i : Nat) : Prop where
  | holding (w : Wire libs) (call : s.calls[i]? = some (.holding w))
      (out : s.pipe.toServer = []) (back : s.pipe.toClient = [])
  | asked (w : Wire libs) (call : s.calls[i]? = some (.sent w))
      (out : s.pipe.toServer = frame w.body) (back : s.pipe.toClient = [])
  | answered (w : Wire libs) (d : DaemonState) (call : s.calls[i]? = some (.sent w))
      (out : s.pipe.toServer = []) (fits : ReplyFits libs d w)
      (back : s.pipe.toClient = frame (reply libs d w))

/-- **The mutex at work**: one call at most is past it, and the connection
carries that call's message and no other. -/
structure Wires (s : Client libs) : Prop where
  inside : ∀ i c, s.calls[i]? = some c → ¬ Idle c → s.lock = some i
  free : s.lock = none → s.pipe.toServer = [] ∧ s.pipe.toClient = []
  held : ∀ i, s.lock = some i → s.Held i

theorem wires_new : (new libs).Wires := by
  refine ⟨fun i c hc => ?_, fun _ => ⟨rfl, rfl⟩, fun i hi => ?_⟩
  · cases hc
  · cases hi

/-- A call past the mutex is the one that holds it. -/
theorem Wires.held_of {i : Nat} {c : CallState libs} (h : s.Wires) (hc : s.calls[i]? = some c)
    (hin : ¬ Idle c) : s.lock = some i ∧ s.Held i :=
  ⟨h.inside i c hc hin, h.held i (h.inside i c hc hin)⟩

/-- The holder goes on inside the mutex. -/
theorem Wires.set {i : Nat} {c : CallState libs} {p : Pipe} (h : s.Wires) (hlock : s.lock = some i)
    (hheld : Held { s with pipe := p, calls := s.calls.set i c } i) :
    Wires { s with pipe := p, calls := s.calls.set i c } := by
  refine ⟨fun j d hd hin => ?_, fun hnone => ?_, fun j hj => ?_⟩
  · rcases getElem?_set_cases hd with ⟨rfl, -⟩ | ⟨-, hd⟩
    · exact hlock
    · exact h.inside j d hd hin
  · rw [show s.lock = none from hnone] at hlock
    cases hlock
  · obtain rfl := Option.some.inj (hlock.symm.trans hj)
    exact hheld

/-- The holder returns. -/
theorem Wires.finish {i : Nat} {w : Wire libs} {res : Except String GoString} {p : Pipe}
    (h : s.Wires) (hlock : s.lock = some i) (hout : p.toServer = []) (hback : p.toClient = []) :
    Wires ({ s with pipe := p }.finish i w res) := by
  refine ⟨fun j d hd hin => ?_, fun _ => ⟨hout, hback⟩, fun j hj => ?_⟩
  · rcases getElem?_set_cases hd with ⟨rfl, rfl⟩ | ⟨hne, hd⟩
    · exact absurd trivial hin
    -- another call past the mutex would hold it as well
    · exact absurd (Option.some.inj ((h.inside j d hd hin).symm.trans hlock)) hne
  · cases hj

/-- The answer has come: the holder can read it. -/
theorem readFrame_reply {d : DaemonState} {w : Wire libs} (hfits : ReplyFits libs d w)
    (hback : s.pipe.toClient = frame (reply libs d w)) :
    readFrame s.pipe.toClient = .ok (reply libs d w) [] := by
  rw [hback, ← List.append_nil (frame _)]
  exact readFrame_frame hfits []

/-! ## §4. Steps of the client. -/

/-- A result that `s'` has and `s` has not is the text of a response to that call's
request. -/
def OwnResults (s s' : Client libs) : Prop :=
  ∀ w res, .returned w res ∈ s'.calls →
    .returned w res ∈ s.calls ∨ ∃ d, res = .ok (reply libs d w)

/-- A call that goes on to `c` brings no other result than that of `c`. -/
theorem ownResults_set {i : Nat} {c : CallState libs} (hs' : s'.calls = s.calls.set i c)
    (hc : ∀ w res, c = .returned w res → ∃ d, res = .ok (reply libs d w)) : OwnResults s s' := by
  intro w res hmem
  rw [hs'] at hmem
  exact (List.mem_or_eq_of_mem_set hmem).imp_right (fun h => hc w res h.symm)

theorem wires_call {w : Wire libs} (h : s.Wires) :
    Wires { s with nextID := s.nextID + 1, calls := s.calls ++ [.numbered w] } := by
  refine ⟨fun i c hc hin => ?_, h.free, fun i hi => ?_⟩
  · rcases getElem?_concat_cases hc with ⟨-, rfl⟩ | hc
    · exact absurd trivial hin
    · exact h.inside i c hc hin
  · cases h.held i hi with
    | holding w call out back => exact .holding w (getElem?_concat_of call) out back
    | asked w call out back => exact .asked w (getElem?_concat_of call) out back
    | answered w d call out fits back =>
      exact .answered w d (getElem?_concat_of call) out fits back

theorem wires_lock {i : Nat} {w : Wire libs} (h : s.Wires) (hc : s.calls[i]? = some (.numbered w))
    (hfree : s.lock = none) :
    Wires { s with lock := some i, calls := s.calls.set i (.holding w) } := by
  obtain ⟨hout, hback⟩ := h.free hfree
  refine ⟨fun j c hj hin => ?_, fun hnone => ?_, fun j hj => ?_⟩
  · rcases getElem?_set_cases hj with ⟨rfl, -⟩ | ⟨-, hj⟩
    · rfl
    -- nobody is past a free mutex
    · cases hfree.symm.trans (h.inside j c hj hin)
  · cases hnone
  · obtain rfl := Option.some.inj hj
    exact .holding w (getElem?_set_of_getElem? hc) hout hback

theorem wires_write {i : Nat} {w : Wire libs} (h : s.Wires)
    (hc : s.calls[i]? = some (.holding w)) :
    Wires { s with
      pipe := { s.pipe with toServer := s.pipe.toServer ++ frame w.body }
      calls := s.calls.set i (.sent w) } := by
  obtain ⟨hlock, hheld⟩ := h.held_of hc id
  refine h.set hlock ?_
  cases hheld with
  | holding w' call out back =>
    refine .asked w (getElem?_set_of_getElem? hc) ?_ back
    show s.pipe.toServer ++ frame w.body = frame w.body
    rw [out]
    rfl
  | asked w' call out back => cases hc.symm.trans call
  | answered w' d call out fits back => cases hc.symm.trans call

/-- **What the holder reads is its answer**; while there is none it waits. -/
theorem read_held {i : Nat} {w : Wire libs} (h : s.Wires) (hc : s.calls[i]? = some (.sent w)) :
    (s.lock = some i ∧ s.pipe.toServer = []
        ∧ ∃ d, readFrame s.pipe.toClient = .ok (reply libs d w) [])
      ∨ readFrame s.pipe.toClient = .blocked := by
  obtain ⟨hlock, hheld⟩ := h.held_of hc id
  cases hheld with
  | holding w' call out back => cases hc.symm.trans call
  | asked w' call out back =>
    rw [back]
    exact .inr rfl
  | answered w' d call out fits back =>
    obtain rfl := CallState.sent.inj (Option.some.inj (hc.symm.trans call))
    exact .inl ⟨hlock, out, d, readFrame_reply fits back⟩

/-- **A step of the client** on a served connection: the callers keep out of each
other's way, and a call that returns has the response to its request. -/
theorem client_step {a : ClientAct libs} (h : s.Wires) (hserving : s.pipe.status = .serving)
    (hstep : s.Step a s') (ha : ∀ d, a ≠ .serve d) :
    s'.Wires ∧ s'.pipe.status = .serving ∧ OwnResults s s' := by
  have hopen : s.pipe.status ≠ .closed := by
    rw [hserving]
    exact nofun
  cases hstep with
  | call w hid =>
    refine ⟨wires_call h, hserving, fun w' res hmem => ?_⟩
    rcases List.mem_append.mp hmem with hold | hnew
    · exact .inl hold
    · cases List.mem_singleton.mp hnew
  | lock i w hc hfree => exact ⟨wires_lock h hc hfree, hserving, ownResults_set rfl nofun⟩
  | write i w hc => exact ⟨wires_write h hc, hserving, ownResults_set rfl nofun⟩
  | writeFails i w err hc hclosed => exact absurd hclosed hopen
  | serve d p hp => exact absurd rfl (ha d)
  | read i w body rest hc hread =>
    rcases read_held h hc with ⟨hlock, hout, d, hreply⟩ | hblocked
    -- what is read is the answer to the holder's request, and nothing is left behind it
    · obtain ⟨rfl, rfl⟩ := ReadResult.ok.inj (hread.symm.trans hreply)
      refine ⟨h.finish hlock hout rfl, hserving, ownResults_set rfl fun w' res hret => ?_⟩
      obtain ⟨rfl, rfl⟩ := CallState.returned.inj hret
      exact ⟨d, rfl⟩
    · cases hread.symm.trans hblocked
  | readFails i w err hc hread =>
    rcases hread with herr | ⟨-, hclosed⟩
    · rcases read_held h hc with ⟨-, -, d, hreply⟩ | hblocked
      · cases herr.symm.trans hreply
      · cases herr.symm.trans hblocked
    · exact absurd hclosed hopen

/-! ## §5. A round of the server. -/

/-- **The server answers the holder**, if the response fits. -/
theorem serve_cases {d : DaemonState} (h : s.Wires) (hserving : s.pipe.status = .serving)
    (hs : s.step libs (.serve d) = some s') :
    ∃ w, (∀ w', .sent w' ∈ s.calls → w' = w) ∧ .sent w ∈ s.calls ∧ s'.calls = s.calls
      ∧ ((ReplyFits libs d w ∧ s'.Wires ∧ s'.pipe.status = .serving)
        ∨ (¬ ReplyFits libs d w ∧ s'.pipe.status = .closed)) := by
  obtain ⟨p, hp, rfl⟩ := Option.map_eq_some_iff.mp hs
  -- the server has read something, so a request was on its way: the holder's
  have hempty : s.pipe.toServer ≠ [] := by
    intro hnil
    have hlt := length_serveOne hp
    rw [hnil] at hlt
    exact Nat.not_lt_zero _ hlt
  rcases Option.eq_none_or_eq_some s.lock with hlock | ⟨i, hlock⟩
  · exact absurd (h.free hlock).1 hempty
  · cases h.held i hlock with
    | holding w call out back => exact absurd out hempty
    | answered w d call out fits back => exact absurd out hempty
    | asked w call out back =>
      have honly : ∀ w', .sent w' ∈ s.calls → w' = w := by
        intro w' hw
        obtain ⟨j, hj⟩ := List.getElem?_of_mem hw
        obtain rfl := Option.some.inj (hlock.symm.trans (h.inside j _ hj id))
        exact CallState.sent.inj (Option.some.inj (hj.symm.trans call))
      have hpipe : s.pipe = ⟨frame w.body ++ [], [], .serving⟩ := by
        rw [List.append_nil, ← out, ← back, ← hserving]
      rw [hpipe, serveOne_eq] at hp
      refine ⟨w, honly, List.mem_of_getElem? call, rfl, ?_⟩
      by_cases hfits : ReplyFits libs d w
      · rw [if_pos hfits] at hp
        obtain rfl := Option.some.inj hp
        refine .inl ⟨hfits, ⟨h.inside, fun hnone => ?_, fun j hj => ?_⟩, rfl⟩
        · cases hlock.symm.trans hnone
        · obtain rfl := Option.some.inj (hlock.symm.trans hj)
          exact .answered w d call rfl hfits rfl
      · rw [if_neg hfits] at hp
        obtain rfl := Option.some.inj hp
        exact .inr ⟨hfits, rfl⟩

/-! ## §6. What the callers may expect. -/

/-- The call has its result. -/
def Returned : CallState libs → Prop
  | .returned _ _ => True
  | _ => False

structure Answered (s : Client libs) : Prop where
  serving : s.pipe.status = .serving
  /-- A call that has returned has the response to its own request. -/
  own : ∀ w res, .returned w res ∈ s.calls →
    ∃ d, res = .ok (reply libs d w) ∧ Answers w.req.id (handle libs d w.req).2
  /-- While one has not, there is a step to take, -/
  live : (∃ c ∈ s.calls, ¬ Returned c) → ∃ a, ¬ a.IsCall ∧ (s.step libs a).isSome = true
  /-- and there are not many of them. -/
  ends : ∀ acts t, (∀ a ∈ acts, ¬ a.IsCall) → run (step libs) s acts = some t →
    acts.length ≤ s.rank

/-- The response to the request that the server reads fits. -/
def Fits (s : Client libs) : ClientAct libs → Prop
  | .serve d => ∀ w, .sent w ∈ s.calls → ReplyFits libs d w
  | _ => True

/-- **There is a step to take**: the holder's, the server's, or the mutex is
free. -/
theorem live_of_wires (d : DaemonState) (h : s.Wires) (hserving : s.pipe.status = .serving)
    (hopen : ∃ c ∈ s.calls, ¬ Returned c) :
    ∃ a, ¬ a.IsCall ∧ (s.step libs a).isSome = true := by
  rcases Option.eq_none_or_eq_some s.lock with hlock | ⟨i, hlock⟩
  -- nobody holds the mutex: the call waits for it and can have it
  · obtain ⟨c, hc, hnot⟩ := hopen
    obtain ⟨i, hi⟩ := List.getElem?_of_mem hc
    have hidle : Idle c := by
      by_contra hin
      cases hlock.symm.trans (h.inside i c hi hin)
    cases c with
    | numbered w =>
      refine ⟨.lock i, id, ?_⟩
      unfold step
      dsimp only
      rw [hi, hlock]
      rfl
    | holding w => exact absurd hidle id
    | sent w => exact absurd hidle id
    | returned w res => exact absurd trivial hnot
  · cases h.held i hlock with
    | holding w call out back =>
      refine ⟨.write i, id, ?_⟩
      unfold step
      dsimp only
      rw [call]
      dsimp only
      rw [if_neg (by rw [hserving]; exact nofun)]
      rfl
    | asked w call out back =>
      refine ⟨.serve d, id, ?_⟩
      have hpipe : s.pipe = ⟨frame w.body ++ [], [], .serving⟩ := by
        rw [List.append_nil, ← out, ← back, ← hserving]
      unfold step
      dsimp only
      rw [hpipe, serveOne_eq]
      rfl
    | answered w e call out fits back =>
      refine ⟨.read i, id, ?_⟩
      unfold step
      dsimp only
      rw [call]
      dsimp only
      rw [readFrame_reply fits back]
      rfl

/-- Served and with its results, the rest follows. -/
theorem answered_of (d : DaemonState) (h : s.Wires) (hserving : s.pipe.status = .serving)
    (hown : ∀ w res, .returned w res ∈ s.calls → ∃ d, res = .ok (reply libs d w)) :
    s.Answered := by
  refine ⟨hserving, fun w res hw => ?_, live_of_wires d h hserving, fun acts t hno hrun => ?_⟩
  · obtain ⟨e, hres⟩ := hown w res hw
    exact ⟨e, hres, handle_answers libs e w.req⟩
  · exact length_le_rank acts hno hrun

/-- Results of the calls' own are all that a step has to keep. -/
theorem Answered.goesOn (d : DaemonState) (h : s.Answered) (hw : s'.Wires)
    (hserving : s'.pipe.status = .serving) (hown : OwnResults s s') : s'.Answered := by
  refine answered_of d hw hserving fun w res hmem => ?_
  rcases hown w res hmem with hold | hnew
  · obtain ⟨e, hres, -⟩ := h.own w res hold
    exact ⟨e, hres⟩
  · exact hnew

/-- A connection that is served now was served before. -/
theorem serving_back {a : ClientAct libs} (hs : s.step libs a = some s')
    (h : s'.pipe.status = .serving) : s.pipe.status = .serving := by
  cases step_sound hs with
  | call w hid => exact h
  | lock i w hc hfree => exact h
  | write i w hc => exact h
  | writeFails i w err hc hclosed => exact h
  | serve d p hp =>
    by_contra hleft
    rw [serveOne_left hleft] at hp
    cases hp
  | read i w body rest hc hread => exact h
  | readFails i w err hc hread => exact h

theorem wires_step {a : ClientAct libs} (h : s.pipe.status = .serving → s.Wires)
    (hs : s.step libs a = some s') (hserving : s'.pipe.status = .serving) : s'.Wires := by
  have hback := serving_back hs hserving
  by_cases ha : ∃ d, a = .serve d
  · obtain ⟨d, rfl⟩ := ha
    obtain ⟨w, -, -, -, ⟨-, hw, -⟩ | ⟨-, hclosed⟩⟩ := serve_cases (h hback) hback hs
    · exact hw
    · cases hclosed.symm.trans hserving
  · exact (client_step (h hback) hback (step_sound hs) (fun d hd => ha ⟨d, hd⟩)).1

/-- **One step** leaves every call answered exactly if the response fits. -/
theorem answered_step_iff {a : ClientAct libs} (d₀ : DaemonState) (hw : s.Wires) (h : s.Answered)
    (hs : s.step libs a = some s') : s'.Answered ↔ s.Fits a := by
  by_cases ha : ∃ d, a = .serve d
  · obtain ⟨d, rfl⟩ := ha
    obtain ⟨w, honly, hmem, hcalls, ⟨hfits, hw', hstatus⟩ | ⟨hfits, hstatus⟩⟩ :=
      serve_cases hw h.serving hs
    · refine iff_of_true (h.goesOn d₀ hw' hstatus fun w' res hret => ?_) ?_
      · rw [hcalls] at hret
        exact .inl hret
      · exact fun w' hsent => honly w' hsent ▸ hfits
    · refine iff_of_false (fun ha => ?_) (fun hall => hfits (hall w hmem))
      cases hstatus.symm.trans ha.serving
  · obtain ⟨hw', hstatus, hown⟩ :=
      client_step hw h.serving (step_sound hs) (fun d hd => ha ⟨d, hd⟩)
    refine iff_of_true (h.goesOn d₀ hw' hstatus hown) ?_
    cases a with
    | serve d => exact absurd ⟨d, rfl⟩ ha
    | call w => trivial
    | lock i => trivial
    | write i => trivial
    | read i => trivial

/-! ## §7. Both sides. -/

/-- A daemon that knows nobody. -/
def quiet : DaemonState where
  nodeID := Bytes.lit32 0
  privKey := []
  publicKey := []
  store := .openFresh
  listPeersErr := none
  nilEndpoints := fun _ => true
  catalog := .openFresh (Bytes.lit32 0)
  listAllErr := none
  listenAddr := ascii "127.0.0.1:7777"
  sharedDir := ascii "/srv"
  relayAddr := []
  nonce := .error "no entropy"
  env := .good .epoch

/-- **One response per request**: the loop answers a sequence of requests, and a
client's concurrent calls get the responses to their own, exactly if every
response that the server makes on the way fits into a message. -/
theorem one_response_per_request_iff (libs : IpcLibs) (reqs : List (DaemonState × Wire libs))
    (acts : List (ClientAct libs)) :
    (Served libs reqs ↔ ∀ r ∈ reqs, ReplyFits libs r.1 r.2)
      ∧ (StatesMeet (step libs) Answered (new libs) acts
        ↔ StepsMeet (step libs) Fits (new libs) acts) := by
  refine ⟨served_iff reqs, ?_⟩
  refine statesMeet_iff_stepsMeet (J := fun s => s.pipe.status = .serving → s.Wires)
    ?_ ?_ (fun _ => wires_new) ?_
  · exact fun s a s' h hs => wires_step h hs
  · exact fun s a s' h ha hs => answered_step_iff quiet (h ha.serving) ha hs
  · exact answered_of quiet wires_new rfl (fun w res hw => by cases hw)

/-- A response that does not fit is not written. -/
theorem serveOne_refused {d : DaemonState} {w : Wire libs} (h : ¬ ReplyFits libs d w) :
    serveOne libs ⟨frame w.body, [], .serving⟩ d = some ⟨[], [], .closed⟩ := by
  have hround := serveOne_eq d w [] []
  rwa [if_neg h, List.append_nil] at hround

theorem not_served {d : DaemonState} {w : Wire libs} (h : ¬ ReplyFits libs d w) :
    ¬ Served libs [(d, w)] := by
  rw [served_iff]
  intro hall
  exact h (hall (d, w) List.mem_cons_self)

/-- The caller is left with the end of the connection. -/
theorem call_refused {d : DaemonState} {w : Wire libs} (hid : w.req.id = 1)
    (h : ¬ ReplyFits libs d w) :
    ∃ s, run (step libs) (new libs) [.call w, .lock 0, .write 0, .serve d, .read 0] = some s
      ∧ s.calls = [.returned w (.error "ipc: read header: EOF")] := by
  have hcall : step libs (new libs) (.call w)
      = some ⟨⟨[], [], .serving⟩, 0 + 1, none, [.numbered w]⟩ := by
    have hnext : w.req.id = (new libs).nextID + 1 := hid
    unfold step
    dsimp only
    rw [if_pos hnext]
    rfl
  have hserve : step libs ⟨⟨frame w.body, [], .serving⟩, 0 + 1, some 0, [.sent w]⟩ (.serve d)
      = some ⟨⟨[], [], .closed⟩, 0 + 1, some 0, [.sent w]⟩ := by
    unfold step
    dsimp only
    rw [serveOne_refused h]
    rfl
  refine ⟨_, run_cons_eq_some.mpr ⟨_, hcall, run_cons_eq_some.mpr ⟨_, rfl, run_cons_eq_some.mpr
    ⟨_, rfl, run_cons_eq_some.mpr ⟨_, hserve, rfl⟩⟩⟩⟩, rfl⟩

/-- Readers that know one request. -/
def oneRequest : IpcLibs where
  unmarshal body :=
    if body = ascii "\x7b\"id\":1,\"method\":\"catalog\"\x7d" then .ok ⟨1, ascii "catalog", []⟩
    else .error "invalid character"
  param _ _ := .error "unexpected end of JSON input"
  rfc3339 _ := ascii "1970-01-01T00:00:00Z"
  specified _ := false
  sign _ _ := []
  verify _ _ _ := false

def catalogRequest : Wire oneRequest where
  body := ascii "\x7b\"id\":1,\"method\":\"catalog\"\x7d"
  req := ⟨1, ascii "catalog", []⟩
  fits := by decide
  decodes := by decide
  method := by decide

/-- A peer's file of the given name. -/
def offered (name : GoString) (b : UInt8) : Catalog.Entry :=
  ⟨Bytes.lit32 b, name, 0, ⟨0⟩, Bytes.lit32 b, [], false, ⟨0⟩⟩

/-- Two peers have offered a file each. -/
def crowded (name : GoString) : DaemonState where
  nodeID := quiet.nodeID
  privKey := quiet.privKey
  publicKey := quiet.publicKey
  store := quiet.store
  listPeersErr := none
  nilEndpoints := fun _ => true
  catalog := ⟨⟨⟨[(Catalog.compositeKey (Bytes.lit32 1) (Bytes.lit32 1), offered name 1),
      (Catalog.compositeKey (Bytes.lit32 2) (Bytes.lit32 2), offered name 2)],
        List.pairwise_pair.mpr
          (show Catalog.compositeKey _ _ < Catalog.compositeKey _ _ by decide)⟩,
    Bucket.empty⟩, Bytes.lit32 0⟩
  listAllErr := none
  listenAddr := quiet.listenAddr
  sharedDir := quiet.sharedDir
  relayAddr := quiet.relayAddr
  nonce := quiet.nonce
  env := quiet.env

/-- Names of 2 MiB make a listing of more than 4 MiB. -/
theorem crowded_not_fits {name : GoString} (h : name.length = 2 * 2 ^ 20) :
    ¬ ReplyFits oneRequest (crowded name) catalogRequest := by
  have hlong := names_le_handleCatalog oneRequest (d := crowded name) rfl 1
  have hnames : (fileInfos oneRequest.rfc3339 (crowded name).nodeID (crowded name).catalog).map
      (fun f => f.name.length + 2) = [name.length + 2, name.length + 2] := rfl
  have hhandle : (handle oneRequest (crowded name) catalogRequest.req).2
      = handleCatalog oneRequest (crowded name) 1 := rfl
  rw [hnames, h] at hlong
  unfold ReplyFits reply maxIPCMsgSize
  rw [hhandle]
  simp only [List.sum_cons, List.sum_nil] at hlong
  omega

/-- The catalog does not fit: nothing is written, the connection is closed, and
the caller reads the end of it. -/
theorem catalog_too_large :
    ∃ name, serveOne oneRequest ⟨frame catalogRequest.body, [], .serving⟩ (crowded name)
        = some ⟨[], [], .closed⟩
      ∧ ¬ Served oneRequest [(crowded name, catalogRequest)]
      ∧ ∃ s, run (step oneRequest) (new oneRequest)
            [.call catalogRequest, .lock 0, .write 0, .serve (crowded name), .read 0] = some s
          ∧ s.calls = [.returned catalogRequest (.error "ipc: read header: EOF")] := by
  obtain ⟨name, hname⟩ : ∃ name : GoString, name.length = 2 * 2 ^ 20 :=
    ⟨List.replicate (2 * 2 ^ 20) 97, List.length_replicate⟩
  have hfits := crowded_not_fits hname
  exact ⟨name, serveOne_refused hfits, not_served hfits, call_refused rfl hfits⟩

end Client

end Kin.Daemon
