/-
  Kin.Transfer.Sender

  **SERVING A FILE** (`internal/transfer/sender.go`, `localindex.go`).

  `HandleRequest` looks the file up, answers with a `FileResponse` and streams
  the file in chunks as `os.File.Read` hands it out.  The messages are given as
  a list, in order, together with the error returned once all are sent; who
  sends them may be interrupted between any two.

  `handleRequest_sends` — for an indexed, readable file: one response, then
  chunks that carry the content, exactly the last of them marked `Eof`.
-/
import Kin.Protocol.Framing

namespace Kin.Transfer

open Kin.Lib Kin.Kinpb Kin.Protocol

/-! ## §1. Files on disk. -/

/-- 64 KiB. -/
def chunkSize : Nat := 64 * 2 ^ 10

/-- What one `f.Read(buf)` puts into the chunk buffer. -/
abbrev Piece := { d : GoString // d.length ≤ chunkSize }

inductive ReadErr where
  | eof
  | other (msg : String)

/-- The results of successive reads, up to the first that reports an error. -/
inductive Reads where
  | last (data : Piece) (err : ReadErr)
  | more (data : Piece) (rest : Reads)

/-- The bytes the reads delivered. -/
def Reads.content : Reads → GoString
  | .last data _ => data.val
  | .more data rest => data.val ++ rest.content

/-- The reads end with `io.EOF`. -/
def Reads.complete : Reads → Bool
  | .last _ .eof => true
  | .last _ (.other _) => false
  | .more _ rest => rest.complete

/-- The file system as the sender sees it. -/
structure Disk where
  /-- `os.Stat`: the size, if the file is there. -/
  stat : GoString → Option Int
  /-- `os.Open` and the reads that follow. -/
  openFile : GoString → Except String Reads

/-- `LocalIndex`: paths by content hash. -/
abbrev LocalIndex := GoMap FileID GoString

structure Sender where
  idx : LocalIndex
  disk : Disk

/-! ## §2. The answer to a request. -/

def sendNotFound (fileID : FileID) : Envelope :=
  ⟨some (.fileResponse ⟨fileID.val, 0, true⟩)⟩

/-- A `FileChunk` with a copy of the buffer. -/
def chunkMsg (fileID : FileID) (data : GoString) (eof : Bool) : Envelope :=
  ⟨some (.fileChunk ⟨fileID.val, data, eof⟩)⟩

/-- The read loop: a chunk per read that delivered bytes or hit the end. -/
def sendChunks (fileID : FileID) : Reads → List Envelope × Option String
  -- the end is announced even when the last read delivered nothing
  | .last data .eof => ([chunkMsg fileID data.val true], none)
  | .last data (.other msg) =>
    (if data.val.length > 0 then [chunkMsg fileID data.val false] else [],
      some ("read file: " ++ msg))
  | .more data rest =>
    let (envs, err) := sendChunks fileID rest
    (if data.val.length > 0 then chunkMsg fileID data.val false :: envs else envs, err)

/-- `HandleRequest`: the messages it sends, and the error it returns after them. -/
def Sender.handleRequest (s : Sender) (fileID : FileID) : List Envelope × Option String :=
  match s.idx.lookup fileID with
  | none => ([sendNotFound fileID], none)
  | some path =>
    match s.disk.stat path with
    | none => ([sendNotFound fileID], none)
    | some size =>
      let response : Envelope := ⟨some (.fileResponse ⟨fileID.val, size, false⟩)⟩
      match s.disk.openFile path with
      | .error err => ([response], some ("open file: " ++ err))
      | .ok reads =>
        let (envs, err) := sendChunks fileID reads
        (response :: envs, err)

/-! ## §3. What a served file looks like on the wire. -/

/-- The file is in the index, on disk and readable to its end. -/
def Sender.Serves (s : Sender) (fileID : FileID) (content : GoString) : Prop :=
  ∃ path size reads, s.idx.lookup fileID = some path ∧ s.disk.stat path = some size
    ∧ s.disk.openFile path = .ok reads ∧ reads.complete = true ∧ reads.content = content

/-- Chunks that are not the last. -/
def isMore (env : Envelope) : Prop := ∃ m, env.payload = some (.fileChunk m) ∧ m.eof = false

/-- The data a message carries, if it is a chunk. -/
def chunkData (env : Envelope) : GoString :=
  match env.payload with
  | some (.fileChunk m) => m.data
  | _ => []

/-- **The chunks of a file read to its end**: some that are not the last, then
the last; together they carry the content, and each of them fits a frame. -/
theorem sendChunks_complete (fileID : FileID) (reads : Reads) (h : reads.complete = true) :
    ∃ (more : List Envelope) (final : FileChunk),
      sendChunks fileID reads = (more ++ [⟨some (.fileChunk final)⟩], none)
      ∧ (∀ env ∈ more, isMore env) ∧ final.eof = true
      ∧ more.flatMap chunkData ++ final.data = reads.content
      ∧ ∀ env ∈ more ++ [⟨some (.fileChunk final)⟩], accepts env = true := by
  -- a read delivers at most 64 KiB, far below a frame
  have hfits : ∀ (data : Piece) (eof : Bool), accepts (chunkMsg fileID data.val eof) = true :=
    fun data eof => accepts_fileChunk _ fileID.length_eq.le data.property
  induction reads with
  | last data err =>
    cases err with
    | other msg => cases h
    | eof =>
      refine ⟨[], ⟨fileID.val, data.val, true⟩, rfl, ?_, rfl, rfl, ?_⟩
      · intro env henv
        cases henv
      · intro env henv
        rw [List.nil_append, List.mem_singleton] at henv
        rw [henv]
        exact hfits data true
  | more data rest ih =>
    obtain ⟨more, final, hrest, hmore, heof, hcontent, hacc⟩ := ih h
    unfold sendChunks
    rw [hrest]
    dsimp only
    by_cases hlen : data.val.length > 0
    · rw [if_pos hlen]
      refine ⟨chunkMsg fileID data.val false :: more, final, rfl, ?_, heof, ?_, ?_⟩
      · intro env henv
        rcases List.mem_cons.mp henv with rfl | henv
        · exact ⟨_, rfl, rfl⟩
        · exact hmore env henv
      · rw [List.flatMap_cons, List.append_assoc, hcontent]
        rfl
      · intro env henv
        rcases List.mem_cons.mp henv with rfl | henv
        · exact hfits data false
        · exact hacc env henv
    · -- a read of no bytes sends nothing
      have hnil : data.val = [] := List.length_eq_zero_iff.mp (by omega)
      rw [if_neg hlen]
      refine ⟨more, final, rfl, hmore, heof, ?_, hacc⟩
      show _ = data.val ++ rest.content
      rw [hnil, List.nil_append, hcontent]

/-- A file as it is sent: the response with its size, chunks that are not the last,
the last; together they carry the content, and each message fits a frame. -/
def SendsFile (sent : List Envelope × Option String) (fileID : FileID) (size : Int)
    (content : GoString) : Prop :=
  ∃ (more : List Envelope) (final : FileChunk),
    sent = (⟨some (.fileResponse ⟨fileID.val, size, false⟩)⟩
        :: (more ++ [⟨some (.fileChunk final)⟩]), none)
      ∧ (∀ env ∈ more, isMore env) ∧ final.eof = true
      ∧ more.flatMap chunkData ++ final.data = content
      ∧ ∀ env ∈ sent.1, accepts env = true

/-- **A file that is in the index and readable is sent.** -/
theorem handleRequest_sends {s : Sender} {fileID : FileID} {path : GoString} {size : Int}
    {reads : Reads} (hidx : s.idx.lookup fileID = some path) (hstat : s.disk.stat path = some size)
    (hopen : s.disk.openFile path = .ok reads) (hcomplete : reads.complete = true) :
    SendsFile (s.handleRequest fileID) fileID size reads.content := by
  obtain ⟨more, final, hchunks, hmore, heof, hdata, hacc⟩ :=
    sendChunks_complete fileID reads hcomplete
  have hreq : s.handleRequest fileID
      = (⟨some (.fileResponse ⟨fileID.val, size, false⟩)⟩
          :: (more ++ [⟨some (.fileChunk final)⟩]), none) := by
    unfold Sender.handleRequest
    simp only [hidx, hstat, hopen, hchunks]
  refine ⟨more, final, hreq, hmore, heof, hdata, ?_⟩
  rw [hreq]
  intro env henv
  rcases List.mem_cons.mp henv with rfl | henv
  · exact accepts_fileResponse _ fileID.length_eq.le
  · exact hacc env henv

/-- **A served file**: the response, the chunks, the last chunk. -/
theorem handleRequest_serves {s : Sender} {fileID : FileID} {content : GoString}
    (h : s.Serves fileID content) :
    ∃ (response : FileResponse) (more : List Envelope) (final : FileChunk),
      s.handleRequest fileID
        = (⟨some (.fileResponse response)⟩ :: (more ++ [⟨some (.fileChunk final)⟩]), none)
      ∧ response.notFound = false ∧ (∀ env ∈ more, isMore env) ∧ final.eof = true
      ∧ more.flatMap chunkData ++ final.data = content
      ∧ ∀ env ∈ (s.handleRequest fileID).1, accepts env = true := by
  obtain ⟨path, size, reads, hidx, hstat, hopen, hcomplete, hcontent⟩ := h
  obtain ⟨more, final, hreq, hmore, heof, hdata, hacc⟩ :=
    handleRequest_sends hidx hstat hopen hcomplete
  exact ⟨_, more, final, hreq, rfl, hmore, heof, hdata.trans hcontent, hacc⟩

end Kin.Transfer
