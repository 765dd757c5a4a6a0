/-
  Kin.Protocol.FileAnswer

  **DOES EVERY FILE REQUEST GET AN ANSWER WITH AN END?**

  An answer has an end if it is a `NotFound`, if its last chunk is marked, or if
  it closes with an `Error`.  `HandleRequest` sends the positive `FileResponse`
  BEFORE it opens the file; if the file cannot be opened, or a read fails, it
  returns an error, which `Serve` logs, and the peer is told nothing.

    • `handleRequest_terminated`, `handleRequest_unfinished` — the two cases,
    • `requestFile_ne_none`, `requestFile_waits` — what the client makes of them.
-/
import Kin.Protocol.Handler
import Kin.Transfer.Download

namespace Kin.Protocol

open Kin.Lib Kin.Kinpb Kin.Transfer

/-! ## §1. Answers with and without an end. -/

/-- The messages of an answer that the client can tell is over. -/
inductive Terminated : List Envelope → Prop
  | notFound (response : FileResponse) (h : response.notFound = true) :
      Terminated [⟨some (.fileResponse response)⟩]
  | file (response : FileResponse) (more : List Envelope) (final : FileChunk)
      (hfound : response.notFound = false) (hmore : ∀ env ∈ more, isMore env)
      (heof : final.eof = true) :
      Terminated (⟨some (.fileResponse response)⟩ :: (more ++ [⟨some (.fileChunk final)⟩]))
  | error (before : List Envelope) (m : Kinpb.Error) : Terminated (before ++ [⟨some (.error m)⟩])

/-- A file is promised, and the chunks stop before the last. -/
def Unfinished (envs : List Envelope) : Prop :=
  ∃ (response : FileResponse) (more : List Envelope), response.notFound = false
    ∧ (∀ env ∈ more, isMore env) ∧ envs = ⟨some (.fileResponse response)⟩ :: more

theorem not_isMore_error (m : Kinpb.Error) : ¬ isMore ⟨some (.error m)⟩ := by
  rintro ⟨chunk, hpay, -⟩
  cases hpay

theorem not_isMore_final {final : FileChunk} (h : final.eof = true) :
    ¬ isMore ⟨some (.fileChunk final)⟩ := by
  rintro ⟨chunk, hpay, heof⟩
  cases hpay
  rw [h] at heof
  cases heof

theorem Unfinished.not_terminated {envs : List Envelope} (h : Unfinished envs) :
    ¬ Terminated envs := by
  obtain ⟨response, more, hfound, hmore, rfl⟩ := h
  generalize henvs : (⟨some (.fileResponse response)⟩ :: more : List Envelope) = envs
  intro hterm
  cases hterm with
  | notFound response' h' =>
    obtain ⟨rfl, -⟩ : response = response' ∧ more = [] := by simpa using henvs
    rw [hfound] at h'
    cases h'
  | file response' more' final hfound' hmore' heof =>
    obtain ⟨-, rfl⟩ := List.cons.inj henvs
    exact not_isMore_final heof (hmore _ (List.mem_append_right _ List.mem_cons_self))
  | error before m =>
    have hmem : (⟨some (.error m)⟩ : Envelope) ∈ before ++ [⟨some (.error m)⟩] :=
      List.mem_append_right _ List.mem_cons_self
    rw [← henvs] at hmem
    rcases List.mem_cons.mp hmem with heq | hmem
    · cases heq
    · exact not_isMore_error m (hmore _ hmem)

/-! ## §2. The sender. -/

/-- A file that is indexed and on disk can also be opened and read to its end. -/
def Answerable (s : Sender) (fileID : FileID) : Prop :=
  ∀ path size, s.idx.lookup fileID = some path → s.disk.stat path = some size →
    ∃ reads, s.disk.openFile path = .ok reads ∧ reads.complete = true

/-- A read that fails ends the chunks without a last one. -/
theorem sendChunks_incomplete (fileID : FileID) (reads : Reads) (h : reads.complete = false) :
    ∀ env ∈ (sendChunks fileID reads).1, isMore env := by
  have hmore : ∀ data, isMore (chunkMsg fileID data false) := fun data => ⟨_, rfl, rfl⟩
  induction reads with
  | last data err =>
    cases err with
    | eof => cases h
    | other msg =>
      intro env henv
      rw [sendChunks] at henv
      dsimp only at henv
      split at henv
      · rw [List.mem_singleton.mp henv]
        exact hmore _
      · cases henv
  | more data rest ih =>
    intro env henv
    rw [sendChunks] at henv
    dsimp only at henv
    split at henv
    · rcases List.mem_cons.mp henv with rfl | henv
      · exact hmore _
      · exact ih h env henv
    · exact ih h env henv

theorem handleRequest_terminated {s : Sender} {fileID : FileID} (h : Answerable s fileID) :
    Terminated (s.handleRequest fileID).1 := by
  unfold Sender.handleRequest
  cases hidx : s.idx.lookup fileID with
  | none => exact .notFound _ rfl
  | some path =>
    dsimp only
    cases hstat : s.disk.stat path with
    | none => exact .notFound _ rfl
    | some size =>
      obtain ⟨reads, hopen, hcomplete⟩ := h path size hidx hstat
      obtain ⟨more, final, hchunks, hmore, heof, -, -⟩ :=
        sendChunks_complete fileID reads hcomplete
      rw [hopen]
      dsimp only
      rw [hchunks]
      exact .file _ more final rfl hmore heof

theorem handleRequest_unfinished {s : Sender} {fileID : FileID} (h : ¬ Answerable s fileID) :
    Unfinished (s.handleRequest fileID).1 := by
  unfold Answerable at h
  push Not at h
  obtain ⟨path, size, hidx, hstat, hreads⟩ := h
  unfold Sender.handleRequest
  rw [hidx]
  dsimp only
  rw [hstat]
  dsimp only
  cases hopen : s.disk.openFile path with
  | error err => exact ⟨_, [], rfl, nofun, rfl⟩
  | ok reads =>
    have hincomplete : reads.complete = false := Bool.eq_false_iff.mpr (hreads reads hopen)
    exact ⟨_, _, rfl, sendChunks_incomplete fileID reads hincomplete, rfl⟩

/-! ## §3. The client. -/

/-- The chunk loop ends at the latest with a message that is not one more
chunk. -/
theorem recvChunks_ne_none (host : Host) {envs : List Envelope} {last : Envelope}
    (hlast : last ∈ envs) (hend : ¬ isMore last) (k : Nat) (got : GoString) :
    recvChunks host k got (envs.map .ok) ≠ none := by
  induction envs generalizing k got with
  | nil => cases hlast
  | cons env envs ih =>
    rw [List.map_cons, recvChunks]
    cases host.cancelled k with
    | some err => exact Option.some_ne_none _
    | none =>
      obtain ⟨payload⟩ := env
      cases payload with
      | none => exact Option.some_ne_none _
      | some p =>
        cases p with
        | fileChunk chunk =>
          dsimp only
          cases (if chunk.data.length > 0 then host.write k else none) with
          | some err => exact Option.some_ne_none _
          | none =>
            dsimp only
            cases heof : chunk.eof with
            | true => exact Option.some_ne_none _
            | false =>
              -- one more chunk, so the end is further on
              rw [if_neg Bool.false_ne_true]
              refine ih ?_ (k + 1) _
              rcases List.mem_cons.mp hlast with rfl | hmem
              · exact absurd ⟨chunk, rfl, heof⟩ hend
              · exact hmem
        | _ => exact Option.some_ne_none _

/-- `RequestFile` returns once the chunk loop does. -/
theorem requestFile_ne_none_of_recvChunks {hash : GoString → FileID} {fileID : FileID} {host : Host}
    (env : Envelope) {envs : List Envelope} (h : recvChunks host 0 [] (envs.map .ok) ≠ none) :
    requestFile hash fileID host ((env :: envs).map .ok) ≠ none := by
  rw [List.map_cons]
  rcases requestFile_cons hash fileID host env (envs.map .ok) with ⟨err, herr⟩ | hafter
  · rw [herr]
    exact Option.some_ne_none _
  · rw [hafter]
    exact afterChunks_ne_none h

/-- **An answer with an end makes `RequestFile` return**, whatever else goes
wrong. -/
theorem requestFile_ne_none {envs : List Envelope} (h : Terminated envs) (hash : GoString → FileID)
    (fileID : FileID) (host : Host) : requestFile hash fileID host (envs.map .ok) ≠ none := by
  cases h with
  | notFound response hnot =>
    unfold requestFile
    cases host.send with
    | some err => exact Option.some_ne_none _
    | none =>
      show (if response.notFound = true then _ else _) ≠ _
      rw [if_pos hnot]
      exact Option.some_ne_none _
  | file response more final _ _ heof =>
    apply requestFile_ne_none_of_recvChunks
    exact recvChunks_ne_none host (List.mem_append_right _ List.mem_cons_self)
      (not_isMore_final heof) 0 []
  | error before m =>
    cases before with
    | nil =>
      unfold requestFile
      cases host.send with
      | some err => exact Option.some_ne_none _
      | none => exact Option.some_ne_none _
    | cons env before =>
      apply requestFile_ne_none_of_recvChunks
      exact recvChunks_ne_none host (List.mem_append_right _ List.mem_cons_self)
        (not_isMore_error m) 0 []

theorem recvChunks_more {more : List Envelope} (h : ∀ env ∈ more, isMore env) (k : Nat)
    (got : GoString) : recvChunks Host.fine k got (more.map .ok) = none := by
  induction more generalizing k got with
  | nil => rfl
  | cons env more ih =>
    obtain ⟨chunk, hpay, heof⟩ := h env List.mem_cons_self
    rw [List.map_cons, recvChunks_chunk hpay, heof, if_neg Bool.false_ne_true]
    exact ih (fun e he => h e (List.mem_cons_of_mem _ he)) _ _

/-- **An answer without an end keeps `RequestFile` waiting**: its next `Recv`
blocks. -/
theorem requestFile_waits {envs : List Envelope} (h : Unfinished envs) (hash : GoString → FileID)
    (fileID : FileID) : requestFile hash fileID Host.fine (envs.map .ok) = none := by
  obtain ⟨response, more, hfound, hmore, rfl⟩ := h
  have hrecv := recvChunks_more hmore 0 []
  unfold Host.fine at hrecv
  simp only [requestFile, Host.fine, List.map_cons, hfound, Bool.false_eq_true, if_false, hrecv]

/-! ## §4. Requests on a connection. -/

/-- **When a file request is answered to the end.**  The messages sent for it
have an end exactly if the file asked for, where it is indexed and on disk, can
be opened and read to its end (an id that is not 32 bytes long is answered with
an `Error`); and exactly then a client that sends no further message can be sure
that `RequestFile` returns. -/
theorem file_answer_terminated_iff (sender : Sender) :
    (∀ req : FileRequest, Terminated (handleFileRequest sender req)
        ↔ ∀ fileID, Bytes.ofList? 32 req.fileId = some fileID → Answerable sender fileID)
      ∧ ∀ (hash : GoString → FileID) (fileID : FileID),
          (∀ host, requestFile hash fileID host
              ((handleFileRequest sender ⟨fileID.val⟩).map .ok) ≠ none)
            ↔ Answerable sender fileID := by
  constructor
  · intro req
    unfold handleFileRequest
    cases hid : Bytes.ofList? 32 req.fileId with
    | none => exact iff_of_true (.error [] _) nofun
    | some fileID =>
      dsimp only
      by_cases hans : Answerable sender fileID
      · refine iff_of_true (handleRequest_terminated hans) (fun f hf => ?_)
        cases hf
        exact hans
      · exact iff_of_false (handleRequest_unfinished hans).not_terminated
          (fun hall => hans (hall fileID rfl))
  · intro hash fileID
    unfold handleFileRequest
    rw [Bytes.ofList?_val]
    dsimp only
    by_cases hans : Answerable sender fileID
    · exact iff_of_true (requestFile_ne_none (handleRequest_terminated hans) hash fileID) hans
    · have hwaits := requestFile_waits (handleRequest_unfinished hans) hash fileID
      exact iff_of_false (fun hall => hall Host.fine hwaits) hans

/-- A shared file that may not be read: the request is answered with the
file's size, and nothing follows. -/
theorem file_answer_unreadable :
    let fileID : FileID := Bytes.lit32 7
    let sender : Sender := ⟨(∅ : LocalIndex).insert fileID (ascii "/share/f"),
      ⟨fun _ => some 3, fun _ => .error "open /share/f: permission denied"⟩⟩
    let answer := handleFileRequest sender ⟨fileID.val⟩
    answer = [⟨some (.fileResponse ⟨fileID.val, 3, false⟩)⟩] ∧ ¬ Terminated answer
      ∧ requestFile (fun _ => fileID) fileID Host.fine (answer.map .ok) = none := by
  intro fileID sender answer
  have hanswer : answer = [⟨some (.fileResponse ⟨fileID.val, 3, false⟩)⟩] := by decide +kernel
  have hopen : Unfinished answer := ⟨_, [], rfl, nofun, hanswer⟩
  exact ⟨hanswer, hopen.not_terminated, requestFile_waits hopen _ _⟩

end Kin.Protocol
