/-
  Kin.Transfer.Receiver

  **FETCHING A FILE** (`internal/transfer/receiver.go`).

  `RequestFile` asks for a file and then expects, with nothing in between, a
  `FileResponse` and `FileChunk`s up to the one marked `Eof`.  It is given as a
  function of what `Recv` returns, message by message; the result is `none`
  while it is still waiting for the next one.

  `requestFile_iff` — on a stream that carries a served file among catalog
  offers, it succeeds exactly if no offer comes before the last chunk.
-/
import Kin.Transfer.Sender

namespace Kin.Transfer

open Kin.Lib Kin.Kinpb Kin.Protocol

/-! ## §1. The receiving automaton. -/

/-- What happens to `RequestFile` on its own side: the errors of its calls. -/
structure Host where
  send : Option String
  /-- `ctx.Err()` before the `k`-th chunk. -/
  cancelled : Nat → Option String
  createTemp : Option String
  /-- Writing the `k`-th chunk. -/
  write : Nat → Option String
  close : Option String
  rename : Option String

/-- Nothing goes wrong on the receiving side. -/
def Host.fine : Host := ⟨none, fun _ => none, none, fun _ => none, none, none⟩

/-- A downloaded file: its name in the destination directory and its bytes. -/
structure Saved where
  name : GoString
  content : GoString
  deriving DecidableEq, Repr

def errHashMismatch : String := "transfer: hash mismatch after download"

def errFileNotFound : String := "transfer: file not found on sender"

/-- A digit of `%x`. -/
def hexDigit (n : Nat) : UInt8 := (if n < 10 then 48 + n else 87 + n).toUInt8

/-- `fmt.Sprintf("%x", fileID)`. -/
def hexName (fileID : FileID) : GoString :=
  fileID.val.flatMap (fun b => [hexDigit (b.toNat / 16), hexDigit (b.toNat % 16)])

/-- The chunk loop, `k` chunks read and `got` written so far. -/
def recvChunks (host : Host) :
    (k : Nat) → (got : GoString) → List (Except String Envelope) → Option (Except String GoString)
  | k, _, [] => (host.cancelled k).map .error
  | k, got, msg :: msgs =>
    match host.cancelled k with
    | some err => some (.error err)
    | none =>
      match msg with
      | .error err => some (.error ("recv chunk: " ++ err))
      | .ok env =>
        match env.payload with
        | some (.fileChunk chunk) =>
          match (if chunk.data.length > 0 then host.write k else none) with
          | some err => some (.error ("write chunk: " ++ err))
          | none =>
            if chunk.eof then some (.ok (got ++ chunk.data))
            else recvChunks host (k + 1) (got ++ chunk.data) msgs
        | _ => some (.error ("receiver: expected FileChunk, got " ++ env.goType))

/-- `RequestFile`, as far as the messages received let it get; `hash` is SHA-256. -/
def requestFile (hash : GoString → FileID) (fileID : FileID) (host : Host)
    (msgs : List (Except String Envelope)) : Option (Except String Saved) :=
  match host.send with
  | some err => some (.error ("send file request: " ++ err))
  | none =>
    match msgs with
    | [] => none
    | .error err :: _ => some (.error ("recv file response: " ++ err))
    | .ok env :: msgs =>
      match env.payload with
      | some (.fileResponse resp) =>
        if resp.notFound then some (.error errFileNotFound)
        else
          match host.createTemp with
          | some err => some (.error ("create temp file: " ++ err))
          | none =>
            match recvChunks host 0 [] msgs with
            | none => none
            | some (.error err) => some (.error err)
            | some (.ok got) =>
              match host.close with
              | some err => some (.error ("close temp file: " ++ err))
              | none =>
                if hash got ≠ fileID then some (.error errHashMismatch)
                else
                  match host.rename with
                  | some err => some (.error ("rename temp file: " ++ err))
                  | none => some (.ok ⟨hexName fileID, got⟩)
      | _ => some (.error ("receiver: expected FileResponse, got " ++ env.goType))

/-! ## §2. Offers in between. -/

def isOffer (env : Envelope) : Bool :=
  match env.payload with
  | some (.catalogOffer _) => true
  | _ => false

theorem isOffer_iff {env : Envelope} :
    isOffer env = true ↔ ∃ offer, env.payload = some (.catalogOffer offer) := by
  obtain ⟨payload⟩ := env
  cases payload with
  | none => simp [isOffer]
  | some p => cases p <;> simp [isOffer]

def isEof (env : Envelope) : Bool :=
  match env.payload with
  | some (.fileChunk m) => m.eof
  | _ => false

/-- No offer comes before the last chunk. -/
def Clean (envs : List Envelope) : Prop :=
  ∀ env ∈ envs.takeWhile (fun env => !isEof env), isOffer env = false

theorem clean_nil : Clean [] := by
  intro env henv
  cases henv

theorem clean_cons {env : Envelope} {envs : List Envelope} :
    Clean (env :: envs) ↔ isEof env = true ∨ (isOffer env = false ∧ Clean envs) := by
  unfold Clean
  cases h : isEof env
  · rw [List.takeWhile_cons_of_pos (by rw [h]; rfl)]
    simp only [List.mem_cons, forall_eq_or_imp, Bool.false_eq_true, false_or]
  · rw [List.takeWhile_cons_of_neg (by rw [h]; decide)]
    simp

/-- A stream that is clean was clean before it grew. -/
theorem Clean.of_prefix {l m : List Envelope} (hpre : l <+: m) (h : Clean m) : Clean l := by
  obtain ⟨t, rfl⟩ := hpre
  induction l with
  | nil => exact clean_nil
  | cons env l ih =>
    rw [List.cons_append, clean_cons] at h
    exact clean_cons.mpr (h.imp id (fun hrest => ⟨hrest.1, ih hrest.2⟩))

theorem isEof_of_isOffer {env : Envelope} (h : isOffer env = true) : isEof env = false := by
  obtain ⟨offer, hp⟩ := isOffer_iff.mp h
  rw [isEof, hp]

theorem not_isOffer_of_isMore {env : Envelope} (h : isMore env) :
    isOffer env = false ∧ isEof env = false := by
  obtain ⟨m, hm, heof⟩ := h
  unfold isOffer isEof
  rw [hm]
  exact ⟨rfl, heof⟩

/-- An offer ends the chunk loop with an error. -/
theorem recvChunks_offer {env : Envelope} (h : isOffer env = true) (k : Nat) (got : GoString)
    (msgs : List (Except String Envelope)) :
    recvChunks Host.fine k got (.ok env :: msgs)
      = some (.error ("receiver: expected FileChunk, got " ++ env.goType)) := by
  obtain ⟨offer, hp⟩ := isOffer_iff.mp h
  unfold recvChunks
  simp only [Host.fine, hp]

/-- A chunk goes into the file; the last one ends the loop. -/
theorem recvChunks_chunk {env : Envelope} {m : FileChunk}
    (h : env.payload = some (.fileChunk m)) (k : Nat) (got : GoString)
    (msgs : List (Except String Envelope)) :
    recvChunks Host.fine k got (.ok env :: msgs)
      = if m.eof then some (.ok (got ++ m.data))
        else recvChunks Host.fine (k + 1) (got ++ m.data) msgs := by
  rw [recvChunks]
  simp only [Host.fine, h, ite_self]

/-- **The chunk loop among offers.**  By induction on the stream: an offer
before the last chunk is the first thing the loop trips over. -/
theorem recvChunks_iff {final : FileChunk} (hfinal : final.eof = true) :
    ∀ (envs : List Envelope) (k : Nat) (got : GoString) (more : List Envelope),
      (∀ env ∈ more, isMore env) →
      envs.filter (fun env => !isOffer env) = more ++ [⟨some (.fileChunk final)⟩] →
      (Clean envs →
        recvChunks Host.fine k got (envs.map .ok)
          = some (.ok (got ++ more.flatMap chunkData ++ final.data)))
      ∧ (¬ Clean envs → ∃ err, recvChunks Host.fine k got (envs.map .ok) = some (.error err)) := by
  intro envs
  induction envs with
  | nil =>
    intro k got more _ hfilter
    rw [List.filter_nil] at hfilter
    exact absurd hfilter.symm (List.append_ne_nil_of_right_ne_nil _ (List.cons_ne_nil _ _))
  | cons env envs ih =>
    intro k got more hmore hfilter
    rw [List.map_cons, clean_cons]
    cases hoff : isOffer env with
    | true =>
      -- the loop stops here, and the stream is not clean
      refine ⟨fun hc => ?_, fun _ => ⟨_, recvChunks_offer hoff k got _⟩⟩
      rcases hc with heof | ⟨hno, _⟩
      · rw [isEof_of_isOffer hoff] at heof
        cases heof
      · cases hno
    | false =>
      rw [List.filter_cons_of_pos (by rw [hoff]; rfl)] at hfilter
      cases more with
      | nil =>
        -- the last chunk: what comes behind it is not read
        obtain ⟨henv, _⟩ := List.cons.inj hfilter
        have hpay : env.payload = some (.fileChunk final) := by rw [henv]
        have heof : isEof env = true := by
          unfold isEof
          rw [hpay]
          exact hfinal
        rw [recvChunks_chunk hpay, if_pos hfinal]
        refine ⟨fun _ => ?_, fun hc => absurd (Or.inl heof) hc⟩
        rw [List.flatMap_nil, List.append_nil]
      | cons m more =>
        -- one more chunk of the file
        obtain ⟨rfl, hrest⟩ := List.cons.inj hfilter
        have hm : isMore env := hmore env List.mem_cons_self
        have hnoteof := (not_isOffer_of_isMore hm).2
        obtain ⟨chunk, hpay, heof⟩ := hm
        have hdata : chunkData env = chunk.data := by
          unfold chunkData
          rw [hpay]
        rw [recvChunks_chunk hpay, heof, if_neg Bool.false_ne_true, hnoteof]
        obtain ⟨hclean, hdirty⟩ := ih (k + 1) (got ++ chunk.data) more
          (fun e he => hmore e (List.mem_cons_of_mem _ he)) hrest
        refine ⟨fun hc => ?_, fun hc => hdirty (fun h => hc (Or.inr ⟨rfl, h⟩))⟩
        rcases hc with h | ⟨_, h⟩
        · cases h
        · rw [hclean h, List.flatMap_cons, hdata]
          simp only [List.append_assoc]

/-- **`RequestFile` among offers**: it saves the file that is served exactly if
no offer comes before the last chunk. -/
theorem requestFile_iff {hash : GoString → FileID} {fileID : FileID} {content : GoString}
    (hhash : hash content = fileID) {response : FileResponse} (hfound : response.notFound = false)
    {more : List Envelope} (hmore : ∀ env ∈ more, isMore env) {final : FileChunk}
    (hfinal : final.eof = true) (hcontent : more.flatMap chunkData ++ final.data = content)
    {envs : List Envelope}
    (hfilter : envs.filter (fun env => !isOffer env)
      = ⟨some (.fileResponse response)⟩ :: (more ++ [⟨some (.fileChunk final)⟩])) :
    requestFile hash fileID Host.fine (envs.map .ok) = some (.ok ⟨hexName fileID, content⟩)
      ↔ Clean envs := by
  cases envs with
  | nil => cases hfilter
  | cons env envs =>
    rw [clean_cons]
    cases hoff : isOffer env with
    | true =>
      -- the first message is an offer
      refine iff_of_false (fun hreq => ?_) (fun hc => ?_)
      · obtain ⟨offer, hp⟩ := isOffer_iff.mp hoff
        simp only [requestFile, Host.fine, List.map_cons, hp] at hreq
        cases hreq
      · rcases hc with heof | ⟨hno, _⟩
        · rw [isEof_of_isOffer hoff] at heof
          cases heof
        · cases hno
    | false =>
      rw [List.filter_cons_of_pos (by rw [hoff]; rfl)] at hfilter
      obtain ⟨rfl, hrest⟩ := List.cons.inj hfilter
      -- the response comes first; the chunk loop decides
      obtain ⟨hclean, hdirty⟩ := recvChunks_iff hfinal envs 0 [] more hmore hrest
      have hnoteof : isEof ⟨some (.fileResponse response)⟩ = false := rfl
      simp only [requestFile, Host.fine, List.map_cons, hfound, Bool.false_eq_true, if_false,
        hnoteof, false_or, true_and]
      by_cases hc : Clean envs
      · refine iff_of_true ?_ hc
        have hrecv := hclean hc
        rw [List.nil_append, hcontent] at hrecv
        unfold Host.fine at hrecv
        rw [hrecv]
        simp [hhash]
      · refine iff_of_false ?_ hc
        obtain ⟨err, hrecv⟩ := hdirty hc
        unfold Host.fine at hrecv
        rw [hrecv]
        simp

end Kin.Transfer
