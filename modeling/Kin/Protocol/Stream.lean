/-
  Kin.Protocol.Stream

  **`ReadMsg` ON A REAL STREAM** (`internal/protocol/framing.go`).

  `Kin.Protocol.Framing` reads a message from the bytes that are there.  Here
  the bytes arrive in fragments, may stop anywhere, and `ReadMsg` is called
  again and again.

    • `readMsgFrom_follows` — `ReadMsg` on a reader does what `readMsg` does on
      its bytes,
    • `readMsgFrom_cut` — a frame that is cut short is an error that uses up the
      stream,
    • `framing_round_trip` — the messages read are the frames that arrived whole.
-/
import Kin.Protocol.Framing
import Kin.Lib.Reader

namespace Kin.Protocol

open Kin.Lib Kin.Kinpb

variable (unmarshal : GoString → Except String Envelope)

/-! ## §1. Reading from a reader. -/

/-- `ReadMsg`: the message or the error, and the reader after the call. -/
def readMsgFrom (r : Reader UInt8) : Except String Envelope × Reader UInt8 :=
  match r.readFull 4 with
  | (.error .eof, r) => (.error "EOF", r)
  | (.error .unexpectedEOF, r) => (.error "EOF", r)
  | (.error (.other msg), r) => (.error ("framing: read header: " ++ msg), r)
  | (.ok header, r) =>
    let size := uint32 header
    if size = 0 then (.ok ⟨none⟩, r)
    else if size > maxMsgSize then
      (.error ("framing: message too large (" ++ toString size ++ " > "
        ++ toString maxMsgSize ++ ")"), r)
    else
      match r.readFull size with
      | (.error err, r) => (.error ("framing: read body: " ++ err.text), r)
      | (.ok buf, r) =>
        match unmarshal buf with
        | .error err => (.error ("framing: unmarshal: " ++ err), r)
        | .ok env => (.ok env, r)

/-- The result of the `i`-th call of `ReadMsg` (from 0) on one reader. -/
def nthMsg (r : Reader UInt8) : Nat → Except String Envelope
  | 0 => (readMsgFrom unmarshal r).1
  | i + 1 => nthMsg (readMsgFrom unmarshal r).2 i

/-! ## §2. The bytes alone decide. -/

/-- Too few bytes for a header. -/
theorem readMsgFrom_no_header {r : Reader UInt8} (h : r.bytes.length < 4) :
    ∃ err r', readMsgFrom unmarshal r = (.error err, r') ∧ r'.bytes = []
      ∧ (r.ending = .eof → err = "EOF") := by
  obtain ⟨err, r', hread, hbytes, -, heof⟩ := Reader.readFull_of_lt h
  unfold readMsgFrom
  rw [hread]
  cases err with
  | eof => exact ⟨_, r', rfl, hbytes, fun _ => rfl⟩
  | unexpectedEOF => exact ⟨_, r', rfl, hbytes, fun _ => rfl⟩
  | other msg =>
    refine ⟨_, r', rfl, hbytes, fun hend => ?_⟩
    have herr := heof hend
    split at herr <;> cases herr

/-- A header that announces more than there is. -/
theorem readMsgFrom_no_body {r : Reader UInt8} (h : 4 ≤ r.bytes.length)
    (hmax : uint32 (r.bytes.take 4) ≤ maxMsgSize)
    (hbody : (r.bytes.drop 4).length < uint32 (r.bytes.take 4)) :
    ∃ err r', readMsgFrom unmarshal r = (.error err, r') ∧ r'.bytes = []
      ∧ (r.ending = .eof → err = "framing: read body: "
          ++ if r.bytes.drop 4 = [] then "EOF" else "unexpected EOF") := by
  obtain ⟨r₁, hhead, hrest, hend₁⟩ := Reader.readFull_of_le h
  rw [← hrest] at hbody
  obtain ⟨err, r₂, hread, hbytes, -, heof⟩ := Reader.readFull_of_lt hbody
  unfold readMsgFrom
  rw [hhead]
  dsimp only
  rw [if_neg (by omega), if_neg (by omega), hread]
  refine ⟨_, r₂, rfl, hbytes, fun hend => ?_⟩
  rw [heof (hend₁.trans hend), hrest]
  cases r.bytes.drop 4 with
  | nil => rfl
  | cons b bs => rfl

/-- What a call on the reader `r` returns, given what `readMsg` makes of the
reader's bytes: the same message, leaving the bytes after it, or an error, the
same one if the stream ends with `io.EOF`. -/
def Follows (r : Reader UInt8) :
    Except String (Envelope × GoString) → Except String Envelope × Reader UInt8 → Prop
  | .ok (env, rest), (result, r') => result = .ok env ∧ r'.bytes = rest
  | .error err, (result, _) => ∃ err', result = .error err' ∧ (r.ending = .eof → err' = err)

/-- **`ReadMsg` on a reader does what `readMsg` does on its bytes.** -/
theorem readMsgFrom_follows (r : Reader UInt8) :
    Follows r (readMsg unmarshal r.bytes) (readMsgFrom unmarshal r) := by
  unfold readMsg
  by_cases hhead : r.bytes.length < 4
  · obtain ⟨err, r', hread, -, heof⟩ := readMsgFrom_no_header unmarshal hhead
    rw [if_pos hhead, hread]
    exact ⟨err, rfl, heof⟩
  · have hle := Nat.le_of_not_lt hhead
    obtain ⟨r₁, hread₁, hbytes₁, -⟩ := Reader.readFull_of_le hle
    rw [if_neg hhead]
    dsimp only
    by_cases hzero : uint32 (r.bytes.take 4) = 0
    · rw [if_pos hzero, readMsgFrom, hread₁]
      dsimp only
      rw [if_pos hzero]
      exact ⟨rfl, hbytes₁⟩
    · by_cases hmax : uint32 (r.bytes.take 4) > maxMsgSize
      · rw [if_neg hzero, if_pos hmax, readMsgFrom, hread₁]
        dsimp only
        rw [if_neg hzero, if_pos hmax]
        exact ⟨_, rfl, fun _ => rfl⟩
      · by_cases hbody : (r.bytes.drop 4).length < uint32 (r.bytes.take 4)
        · obtain ⟨err, r', hread, -, heof⟩ :=
            readMsgFrom_no_body unmarshal hle (Nat.le_of_not_lt hmax) hbody
          rw [if_neg hzero, if_neg hmax, if_pos hbody, hread]
          exact ⟨err, rfl, heof⟩
        · -- a whole frame: the same body is handed to `proto.Unmarshal`
          rw [if_neg hzero, if_neg hmax, if_neg hbody, readMsgFrom, hread₁]
          rw [← hbytes₁] at hbody ⊢
          obtain ⟨r₂, hread₂, hbytes₂, -⟩ := Reader.readFull_of_le (Nat.le_of_not_lt hbody)
          dsimp only
          rw [if_neg hzero, if_neg hmax, hread₂]
          dsimp only
          cases unmarshal (r₁.bytes.take (uint32 (r.bytes.take 4))) with
          | error err => exact ⟨_, rfl, fun _ => rfl⟩
          | ok env => exact ⟨rfl, hbytes₂⟩

theorem readMsgFrom_of_ok {r : Reader UInt8} {env : Envelope} {rest : GoString}
    (h : readMsg unmarshal r.bytes = .ok (env, rest)) :
    ∃ r', readMsgFrom unmarshal r = (.ok env, r') ∧ r'.bytes = rest := by
  have hfollows := readMsgFrom_follows unmarshal r
  rw [h] at hfollows
  obtain ⟨hresult, hbytes⟩ := hfollows
  exact ⟨_, Prod.ext hresult rfl, hbytes⟩

/-! ## §3. Frames that did not arrive whole. -/

/-- What `WriteMsg` writes. -/
theorem writeMsg_eq_ok {env : Envelope} {frame : GoString} (h : writeMsg env = .ok frame) :
    ∃ data, env.marshal = .ok data ∧ data.length ≤ maxMsgSize
      ∧ frame = putUint32 data.length ++ data := by
  unfold writeMsg at h
  cases hdata : env.marshal with
  | error err =>
    rw [hdata] at h
    cases h
  | ok data =>
    rw [hdata] at h
    dsimp only at h
    split at h
    · cases h
    next hsize =>
      cases h
      exact ⟨data, rfl, Nat.le_of_not_lt hsize, rfl⟩

/-- A proper prefix of a frame, cut in the header, after it or in the body: an
error, and nothing is left. -/
theorem readMsgFrom_cut {env : Envelope} {frame : GoString} (hwrite : writeMsg env = .ok frame)
    {r : Reader UInt8} (hpre : r.bytes <+: frame) (hcut : r.bytes.length < frame.length) :
    ∃ err r', readMsgFrom unmarshal r = (.error err, r') ∧ r'.bytes = [] := by
  obtain ⟨data, -, hmax, rfl⟩ := writeMsg_eq_ok hwrite
  have hhead : (putUint32 data.length).length = 4 := rfl
  rw [List.length_append, hhead] at hcut
  by_cases h4 : r.bytes.length < 4
  · obtain ⟨err, r', hread, hbytes, -⟩ := readMsgFrom_no_header unmarshal h4
    exact ⟨err, r', hread, hbytes⟩
  · -- the header is there, and announces the whole body
    have hle := Nat.le_of_not_lt h4
    have htake : r.bytes.take 4 = putUint32 data.length := by
      have hlen : (r.bytes.take 4).length = (putUint32 data.length).length := by
        rw [List.length_take, hhead]
        omega
      have hfour : r.bytes.take 4 <+: putUint32 data.length :=
        List.prefix_of_prefix_length_le ((List.take_prefix 4 _).trans hpre)
          (List.prefix_append _ _) (Nat.le_of_eq hlen)
      exact hfour.eq_of_length hlen
    have hsize : uint32 (r.bytes.take 4) = data.length := by
      rw [htake]
      apply uint32_putUint32
      unfold maxMsgSize at hmax
      omega
    obtain ⟨err, r', hread, hbytes, -⟩ := readMsgFrom_no_body unmarshal hle
      (by rw [hsize]; exact hmax) (by rw [hsize, List.length_drop]; omega)
    exact ⟨err, r', hread, hbytes⟩

/-- At the end of the stream every call is an error. -/
theorem nthMsg_of_bytes_eq_nil {r : Reader UInt8} (h : r.bytes = []) (i : Nat) :
    ∃ err, nthMsg unmarshal r i = .error err := by
  induction i generalizing r with
  | zero =>
    obtain ⟨err, r', hread, -, -⟩ :=
      readMsgFrom_no_header unmarshal (r := r) (by rw [h]; decide)
    exact ⟨err, congrArg Prod.fst hread⟩
  | succ i ih =>
    obtain ⟨err, r', hread, hbytes, -⟩ :=
      readMsgFrom_no_header unmarshal (r := r) (by rw [h]; decide)
    show ∃ err, nthMsg unmarshal (readMsgFrom unmarshal r).2 i = .error err
    rw [hread]
    exact ih hbytes

/-- From a cut frame on, every call is an error. -/
theorem nthMsg_cut {env : Envelope} {frame : GoString} (hwrite : writeMsg env = .ok frame)
    {r : Reader UInt8} (hpre : r.bytes <+: frame) (hcut : r.bytes.length < frame.length) (i : Nat) :
    ∃ err, nthMsg unmarshal r i = .error err := by
  obtain ⟨err, r', hread, hbytes⟩ := readMsgFrom_cut unmarshal hwrite hpre hcut
  cases i with
  | zero => exact ⟨err, congrArg Prod.fst hread⟩
  | succ i =>
    show ∃ err, nthMsg unmarshal (readMsgFrom unmarshal r).2 i = .error err
    rw [hread]
    exact nthMsg_of_bytes_eq_nil unmarshal hbytes i

/-! ## §4. A stream of messages. -/

/-- **Framing round trip**: of the messages `WriteMsg` has written one after the
other, a reader that delivers some first part of the bytes, in whatever
fragments and with whatever error at its end, gives back exactly those whose
frames it delivers to their last byte: the `i`-th call of `ReadMsg` returns the
`i`-th message, or an error. -/
theorem framing_round_trip {envs : List Envelope} {frames : List GoString}
    (hround : ∀ env ∈ envs, ∀ data, env.marshal = .ok data → unmarshal data = .ok env)
    (hwrite : List.Forall₂ (fun env frame => writeMsg env = .ok frame) envs frames)
    (r : Reader UInt8) (hpre : r.bytes <+: frames.flatten) (i : Nat) (env : Envelope) :
    nthMsg unmarshal r i = .ok env
      ↔ envs[i]? = some env ∧ (frames.take (i + 1)).flatten.length ≤ r.bytes.length := by
  -- frame by frame: it is cut, or it is read and the reader goes on after it
  induction hwrite generalizing r i with
  | nil =>
    have hnil : r.bytes = [] := List.prefix_nil.mp hpre
    obtain ⟨err, herr⟩ := nthMsg_of_bytes_eq_nil unmarshal hnil i
    rw [herr]
    exact ⟨nofun, fun h => by cases h.1⟩
  | @cons e frame envs frames hwrite hrest ih =>
    rw [List.flatten_cons] at hpre
    by_cases hcut : r.bytes.length < frame.length
    · have hframe : r.bytes <+: frame :=
        List.prefix_of_prefix_length_le hpre (List.prefix_append _ _) (Nat.le_of_lt hcut)
      obtain ⟨err, herr⟩ := nthMsg_cut unmarshal hwrite hframe hcut i
      rw [herr]
      refine ⟨nofun, fun h => ?_⟩
      have hlen := h.2
      rw [List.take_succ_cons, List.flatten_cons, List.length_append] at hlen
      omega
    · obtain ⟨tail, htail⟩ : frame <+: r.bytes :=
        List.prefix_of_prefix_length_le (List.prefix_append _ _) hpre (Nat.le_of_not_lt hcut)
      have hread : readMsg unmarshal r.bytes = .ok (e, tail) := by
        rw [← htail]
        exact readMsg_writeMsg (hround e List.mem_cons_self) hwrite tail
      obtain ⟨r', hfrom, hbytes⟩ := readMsgFrom_of_ok unmarshal hread
      cases i with
      | zero =>
        rw [nthMsg, hfrom]
        simp only [Except.ok.injEq, List.getElem?_cons_zero, Option.some.injEq,
          List.take_succ_cons, List.take_zero, List.flatten_cons, List.flatten_nil,
          List.append_nil]
        exact ⟨fun h => ⟨h, Nat.le_of_not_lt hcut⟩, fun h => h.1⟩
      | succ i =>
        have hpre' : r'.bytes <+: frames.flatten := by
          rw [← htail] at hpre
          rw [hbytes]
          exact (List.prefix_append_right_inj frame).mp hpre
        rw [nthMsg, hfrom]
        have hnext := ih (fun e' he' => hround e' (List.mem_cons_of_mem _ he')) r' hpre' i
        rw [hnext, List.getElem?_cons_succ, List.take_succ_cons, List.flatten_cons,
          List.length_append, ← htail, List.length_append, hbytes]
        refine and_congr_right fun _ => ?_
        omega

/-- An empty message and the start of a second one, in three reads. -/
theorem framing_round_trip_cut :
    let req : Envelope := ⟨some (.fileRequest ⟨[7]⟩)⟩
    let unmarshal : GoString → Except String Envelope :=
      fun data => if data.isEmpty then .ok ⟨none⟩ else .ok req
    let r : Reader UInt8 := .more [0, 0] (.more [] (.last [0, 0, 0, 0, 0, 5, 26] .eof))
    nthMsg unmarshal r 0 = .ok ⟨none⟩ ∧ nthMsg unmarshal r 1 ≠ .ok req := by
  intro req unmarshal r
  have hround : ∀ env ∈ [⟨none⟩, req], ∀ data,
      env.marshal = .ok data → unmarshal data = .ok env := by
    intro env henv data hdata
    rcases List.mem_pair.mp henv with rfl | rfl
    · cases hdata
      rfl
    · cases hdata
      rfl
  have hwrite : List.Forall₂ (fun env frame => writeMsg env = .ok frame) [⟨none⟩, req]
      [[0, 0, 0, 0], [0, 0, 0, 5, 26, 3, 10, 1, 7]] := .cons rfl (.cons rfl .nil)
  have hmsgs := framing_round_trip unmarshal hround hwrite r (by decide)
  exact ⟨(hmsgs 0 ⟨none⟩).mpr ⟨rfl, by decide⟩, fun h => absurd ((hmsgs 1 req).mp h).2 (by decide)⟩

end Kin.Protocol
