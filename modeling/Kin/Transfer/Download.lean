/-
  Kin.Transfer.Download

  **WHAT A DOWNLOAD DOES TO THE DESTINATION DIRECTORY**
  (`internal/transfer/receiver.go`).

  `Kin.Transfer.Receiver` gives the result of `RequestFile`; here the directory
  is part of the state.  The chunks go into a temporary file under an unused
  name; a deferred call removes that name on EVERY return, and only a file
  whose hash is right is renamed before.

    • `requestFileIn_spec` — the directory afterwards, by the result of
      `requestFile`,
    • `download_integrity` — whatever arrives and whatever fails,
    • `transfer_delivers` — sender and receiver together.
-/
import Mathlib.Logic.Function.Basic
import Kin.Lib.Sha256
import Kin.Transfer.Receiver

namespace Kin.Transfer

open Kin.Lib Kin.Kinpb Kin.Protocol

/-! ## §1. Directories. -/

/-- What a name of a directory stands for. -/
inductive Object where
  | file (content : GoString)
  /-- A directory, a link, … -/
  | other (tag : Nat)
  deriving DecidableEq

/-- A directory, by name. -/
abbrev Dir := GoString → Option Object

namespace Dir

def put (dir : Dir) (name : GoString) (obj : Object) : Dir := Function.update dir name (some obj)

/-- `os.Remove`; a name that is not there stays away. -/
def remove (dir : Dir) (name : GoString) : Dir := Function.update dir name none

/-- A write to the open file `name`. -/
def append (dir : Dir) (name data : GoString) : Dir :=
  match dir name with
  | some (.file content) => dir.put name (.file (content ++ data))
  | _ => dir

/-- A successful `os.Rename`. -/
def rename (dir : Dir) (src dst : GoString) : Dir :=
  match dir src with
  | some obj => (dir.remove src).put dst obj
  | none => dir

theorem append_put (dir : Dir) (name content data : GoString) :
    (dir.put name (.file content)).append name data = dir.put name (.file (content ++ data)) := by
  unfold append put
  rw [Function.update_self]
  exact Function.update_idem _ _ _

/-- A new file goes without a trace. -/
theorem remove_put {dir : Dir} {name : GoString} (h : dir name = none) (obj : Object) :
    (dir.put name obj).remove name = dir := by
  unfold remove put
  rw [Function.update_idem, ← h, Function.update_eq_self]

/-- A new file that is renamed appears under its new name only. -/
theorem remove_rename_put {dir : Dir} {src dst : GoString} (h : dir src = none) (hne : src ≠ dst)
    (obj : Object) : ((dir.put src obj).rename src dst).remove src = dir.put dst obj := by
  have hsrc : (dir.put src obj) src = some obj := Function.update_self _ _ _
  unfold rename
  rw [hsrc]
  dsimp only
  rw [remove_put h]
  unfold remove put
  rw [Function.update_comm hne.symm, ← h, Function.update_eq_self]

end Dir

/-! ## §2. `RequestFile` with its directory. -/

/-- The temporary file, as far as the system decides about it. -/
structure TempFile where
  /-- What `CreateTemp` appends to `.kin-tmp-`. -/
  suffix : GoString
  /-- How much of the `k`-th chunk has reached the file when its write fails. -/
  written : Nat → Nat

/-- `filepath.Base(tmpPath)`. -/
def TempFile.name (tmp : TempFile) : GoString := ascii ".kin-tmp-" ++ tmp.suffix

/-- The chunk loop, with what has been hashed so far in `got`. -/
def recvChunksIn (host : Host) (tmp : TempFile) :
    (k : Nat) → (got : GoString) → Dir → List (Except String Envelope) →
      Dir × Option (Except String GoString)
  | k, _, dir, [] => (dir, (host.cancelled k).map .error)
  | k, got, dir, msg :: msgs =>
    match host.cancelled k with
    | some err => (dir, some (.error err))
    | none =>
      match msg with
      | .error err => (dir, some (.error ("recv chunk: " ++ err)))
      | .ok env =>
        match env.payload with
        | some (.fileChunk chunk) =>
          -- `io.MultiWriter`: the file first, then the hash
          match (if chunk.data.length > 0 then host.write k else none) with
          | some err =>
            (dir.append tmp.name (chunk.data.take (tmp.written k)),
              some (.error ("write chunk: " ++ err)))
          | none =>
            if chunk.eof then
              (dir.append tmp.name chunk.data, some (.ok (got ++ chunk.data)))
            else
              recvChunksIn host tmp (k + 1) (got ++ chunk.data)
                (dir.append tmp.name chunk.data) msgs
        | _ => (dir, some (.error ("receiver: expected FileChunk, got " ++ env.goType)))

/-- `RequestFile` once the temporary file is created. -/
def saveFile (hash : GoString → FileID) (fileID : FileID) (host : Host) (tmp : TempFile) (dir : Dir)
    (msgs : List (Except String Envelope)) : Dir × Option (Except String GoString) :=
  match recvChunksIn host tmp 0 [] dir msgs with
  | (dir, none) => (dir, none)
  | (dir, some (.error err)) => (dir, some (.error err))
  | (dir, some (.ok got)) =>
    match host.close with
    | some err => (dir, some (.error ("close temp file: " ++ err)))
    | none =>
      if hash got ≠ fileID then (dir, some (.error errHashMismatch))
      else
        match host.rename with
        | some err => (dir, some (.error ("rename temp file: " ++ err)))
        | none => (dir.rename tmp.name (hexName fileID), some (.ok (hexName fileID)))

/-- The deferred function: it runs on every return, also after the rename. -/
def cleanUp (tmp : TempFile) :
    Dir × Option (Except String GoString) → Dir × Option (Except String GoString)
  | (dir, none) => (dir, none)
  | (dir, some result) => (dir.remove tmp.name, some result)

/-- `RequestFile`: the destination directory as it leaves it, and the name of
the new file in it. -/
def requestFileIn (hash : GoString → FileID) (fileID : FileID) (host : Host) (tmp : TempFile)
    (dir : Dir) (msgs : List (Except String Envelope)) : Dir × Option (Except String GoString) :=
  match host.send with
  | some err => (dir, some (.error ("send file request: " ++ err)))
  | none =>
    match msgs with
    | [] => (dir, none)
    | .error err :: _ => (dir, some (.error ("recv file response: " ++ err)))
    | .ok env :: msgs =>
      match env.payload with
      | some (.fileResponse resp) =>
        if resp.notFound then (dir, some (.error errFileNotFound))
        else
          match host.createTemp with
          | some err => (dir, some (.error ("create temp file: " ++ err)))
          | none =>
            cleanUp tmp (saveFile hash fileID host tmp (dir.put tmp.name (.file [])) msgs)
      | _ => (dir, some (.error ("receiver: expected FileResponse, got " ++ env.goType)))

/-! ## §3. The directory afterwards. -/

theorem hexDigit_ne_dot {n : Nat} (h : n < 16) : hexDigit n ≠ 46 := by
  revert n
  decide

/-- The temporary file is hidden, the saved one is not. -/
theorem TempFile.name_ne_hexName (tmp : TempFile) (fileID : FileID) :
    tmp.name ≠ hexName fileID := by
  obtain ⟨bytes, hlen⟩ := fileID
  cases bytes with
  | nil => cases hlen
  | cons b bs =>
    intro h
    have hhead : (46 : UInt8) = hexDigit (b.toNat / 16) := (List.cons.inj h).1
    have hb := b.toNat_lt
    exact hexDigit_ne_dot (by omega) hhead.symm

/-- **The chunk loop** returns what `recvChunks` returns, and changes nothing in
the directory but the temporary file; after the last chunk the file holds the
bytes that were hashed. -/
theorem recvChunksIn_spec (host : Host) (tmp : TempFile) (dir : Dir)
    (msgs : List (Except String Envelope)) (k : Nat) (got : GoString) :
    ∃ left, recvChunksIn host tmp k got (dir.put tmp.name (.file got)) msgs
        = (dir.put tmp.name (.file left), recvChunks host k got msgs)
      ∧ ∀ all, recvChunks host k got msgs = some (.ok all) → left = all := by
  induction msgs generalizing k got with
  | nil =>
    refine ⟨got, rfl, fun all hall => ?_⟩
    unfold recvChunks at hall
    cases hc : host.cancelled k with
    | none =>
      rw [hc] at hall
      cases hall
    | some err =>
      rw [hc] at hall
      cases hall
  | cons msg msgs ih =>
    unfold recvChunksIn recvChunks
    cases hc : host.cancelled k with
    | some err => exact ⟨got, rfl, fun _ h => by cases h⟩
    | none =>
      cases msg with
      | error err => exact ⟨got, rfl, fun _ h => by cases h⟩
      | ok env =>
        obtain ⟨payload⟩ := env
        cases payload with
        | none => exact ⟨got, rfl, fun _ h => by cases h⟩
        | some p =>
          cases p with
          | fileChunk chunk =>
            dsimp only
            rw [Dir.append_put, Dir.append_put]
            cases hw : (if chunk.data.length > 0 then host.write k else none) with
            | some err => exact ⟨_, rfl, fun _ h => by cases h⟩
            | none =>
              dsimp only
              cases chunk.eof with
              | true =>
                exact ⟨_, rfl, fun all hall => Except.ok.inj (Option.some.inj hall)⟩
              | false => exact ih (k + 1) (got ++ chunk.data)
          | _ => exact ⟨got, rfl, fun _ h => by cases h⟩

/-- The directory and the result that go with a result of `requestFile`: an
error leaves no trace, a saved file is the one thing that is new. -/
def Leaves (dir : Dir) : Option (Except String Saved) → Dir × Option (Except String GoString) → Prop
  | none, r => r.2 = none
  | some (.error err), r => r = (dir, some (.error err))
  | some (.ok saved), r => r = (dir.put saved.name (.file saved.content), some (.ok saved.name))

/-- An error after `CreateTemp`: the deferred function takes the file away. -/
theorem leaves_cleanUp_error {dir : Dir} {tmp : TempFile} (hfresh : dir tmp.name = none)
    (obj : Object) (err : String) :
    Leaves dir (some (.error err)) (cleanUp tmp (dir.put tmp.name obj, some (.error err))) := by
  show (_, _) = _
  rw [Dir.remove_put hfresh]

/-- What `requestFile` makes of the end of the chunk loop. -/
def afterChunks (hash : GoString → FileID) (fileID : FileID) (host : Host) :
    Option (Except String GoString) → Option (Except String Saved)
  | none => none
  | some (.error err) => some (.error err)
  | some (.ok got) =>
    match host.close with
    | some err => some (.error ("close temp file: " ++ err))
    | none =>
      if hash got ≠ fileID then some (.error errHashMismatch)
      else
        match host.rename with
        | some err => some (.error ("rename temp file: " ++ err))
        | none => some (.ok ⟨hexName fileID, got⟩)

theorem afterChunks_eq_ok {hash : GoString → FileID} {fileID : FileID} {host : Host}
    {result : Option (Except String GoString)} {saved : Saved}
    (h : afterChunks hash fileID host result = some (.ok saved)) :
    saved.name = hexName fileID ∧ hash saved.content = fileID := by
  cases result with
  | none => cases h
  | some result =>
    cases result with
    | error err => cases h
    | ok got =>
      rw [afterChunks] at h
      cases hclose : host.close with
      | some err =>
        rw [hclose] at h
        cases h
      | none =>
        rw [hclose] at h
        dsimp only at h
        split at h
        · cases h
        next hhash =>
          cases hrename : host.rename with
          | some err =>
            rw [hrename] at h
            cases h
          | none =>
            rw [hrename] at h
            cases h
            exact ⟨rfl, not_not.mp hhash⟩

theorem afterChunks_ne_none {hash : GoString → FileID} {fileID : FileID} {host : Host}
    {result : Option (Except String GoString)} (h : result ≠ none) :
    afterChunks hash fileID host result ≠ none := by
  cases result with
  | none => exact absurd rfl h
  | some result =>
    cases result with
    | error err => exact Option.some_ne_none _
    | ok got =>
      rw [afterChunks]
      cases host.close with
      | some err => exact Option.some_ne_none _
      | none =>
        dsimp only
        split
        · exact Option.some_ne_none _
        · cases host.rename with
          | some err => exact Option.some_ne_none _
          | none => exact Option.some_ne_none _

/-- With a first message to look at, `RequestFile` gives up or goes on to the
chunks. -/
theorem requestFile_cons (hash : GoString → FileID) (fileID : FileID) (host : Host) (env : Envelope)
    (msgs : List (Except String Envelope)) :
    (∃ err, requestFile hash fileID host (.ok env :: msgs) = some (.error err))
      ∨ requestFile hash fileID host (.ok env :: msgs)
        = afterChunks hash fileID host (recvChunks host 0 [] msgs) := by
  unfold requestFile
  cases host.send with
  | some err => exact Or.inl ⟨_, rfl⟩
  | none =>
    obtain ⟨payload⟩ := env
    cases payload with
    | none => exact Or.inl ⟨_, rfl⟩
    | some p =>
      cases p with
      | fileResponse resp =>
        dsimp only
        cases resp.notFound with
        | true => exact Or.inl ⟨_, rfl⟩
        | false =>
          rw [if_neg Bool.false_ne_true]
          cases host.createTemp with
          | some err => exact Or.inl ⟨_, rfl⟩
          | none => exact Or.inr rfl
      | _ => exact Or.inl ⟨_, rfl⟩

theorem leaves_saveFile (hash : GoString → FileID) (fileID : FileID) (host : Host) {tmp : TempFile}
    {dir : Dir} (hfresh : dir tmp.name = none) (msgs : List (Except String Envelope)) :
    Leaves dir (afterChunks hash fileID host (recvChunks host 0 [] msgs))
      (cleanUp tmp (saveFile hash fileID host tmp (dir.put tmp.name (.file [])) msgs)) := by
  obtain ⟨left, hloop, hleft⟩ := recvChunksIn_spec host tmp dir msgs 0 []
  unfold saveFile
  rw [hloop]
  cases hrecv : recvChunks host 0 [] msgs with
  | none => rfl
  | some result =>
    cases result with
    | error err => exact leaves_cleanUp_error hfresh _ err
    | ok got =>
      rw [hleft got hrecv, afterChunks]
      dsimp only
      cases host.close with
      | some err => exact leaves_cleanUp_error hfresh _ _
      | none =>
        dsimp only
        by_cases hhash : hash got ≠ fileID
        · rw [if_pos hhash, if_pos hhash]
          exact leaves_cleanUp_error hfresh _ _
        · rw [if_neg hhash, if_neg hhash]
          cases host.rename with
          | some err => exact leaves_cleanUp_error hfresh _ _
          | none =>
            show (_, _) = _
            rw [Dir.remove_rename_put hfresh (tmp.name_ne_hexName fileID)]

/-- **`RequestFile` and its directory**: with a temporary name that was unused,
`requestFileIn` returns what `requestFile` returns, and leaves the directory
accordingly. -/
theorem requestFileIn_spec (hash : GoString → FileID) (fileID : FileID) (host : Host)
    {tmp : TempFile} {dir : Dir} (hfresh : dir tmp.name = none)
    (msgs : List (Except String Envelope)) :
    Leaves dir (requestFile hash fileID host msgs)
      (requestFileIn hash fileID host tmp dir msgs) := by
  unfold requestFile requestFileIn
  cases host.send with
  | some err => rfl
  | none =>
    cases msgs with
    | nil => rfl
    | cons msg msgs =>
      cases msg with
      | error err => rfl
      | ok env =>
        obtain ⟨payload⟩ := env
        cases payload with
        | none => rfl
        | some p =>
          cases p with
          | fileResponse resp =>
            dsimp only
            cases resp.notFound with
            | true => rfl
            | false =>
              rw [if_neg Bool.false_ne_true, if_neg Bool.false_ne_true]
              cases host.createTemp with
              | some err => rfl
              | none => exact leaves_saveFile hash fileID host hfresh msgs
          | _ => rfl

/-- A file is saved under its hash. -/
theorem requestFile_eq_ok {hash : GoString → FileID} {fileID : FileID} {host : Host}
    {msgs : List (Except String Envelope)} {saved : Saved}
    (h : requestFile hash fileID host msgs = some (.ok saved)) :
    saved.name = hexName fileID ∧ hash saved.content = fileID := by
  cases msgs with
  | nil =>
    unfold requestFile at h
    split at h <;> cases h
  | cons msg msgs =>
    cases msg with
    | error err =>
      unfold requestFile at h
      split at h <;> cases h
    | ok env =>
      rcases requestFile_cons hash fileID host env msgs with ⟨err, herr⟩ | hafter
      · rw [herr] at h
        cases h
      · rw [hafter] at h
        exact afterChunks_eq_ok h

/-! ## §4. Integrity. -/

/-- **Receiver integrity**, against every sender and every failure of its own
host: a download that succeeds adds, or replaces, one file, named by its hash;
a download that fails leaves the directory as it was. -/
theorem download_integrity (hash : GoString → FileID) (fileID : FileID) (host : Host)
    (tmp : TempFile) (dir : Dir) (hfresh : dir tmp.name = none) (msgs : List (Except String Envelope)) :
    (∀ path, (requestFileIn hash fileID host tmp dir msgs).2 = some (.ok path) →
        path = hexName fileID ∧ ∃ content, hash content = fileID
          ∧ (requestFileIn hash fileID host tmp dir msgs).1
            = dir.put (hexName fileID) (.file content))
      ∧ (∀ err, (requestFileIn hash fileID host tmp dir msgs).2 = some (.error err) →
          (requestFileIn hash fileID host tmp dir msgs).1 = dir) := by
  have hspec := requestFileIn_spec hash fileID host hfresh msgs
  cases hreq : requestFile hash fileID host msgs with
  | none =>
    rw [hreq] at hspec
    have hwait : (requestFileIn hash fileID host tmp dir msgs).2 = none := hspec
    rw [hwait]
    exact ⟨nofun, nofun⟩
  | some result =>
    rw [hreq] at hspec
    cases result with
    | error err =>
      have hin : requestFileIn hash fileID host tmp dir msgs = (dir, some (.error err)) := hspec
      rw [hin]
      exact ⟨nofun, fun _ _ => rfl⟩
    | ok saved =>
      obtain ⟨hname, hhash⟩ := requestFile_eq_ok hreq
      have hin : requestFileIn hash fileID host tmp dir msgs
          = (dir.put saved.name (.file saved.content), some (.ok saved.name)) := hspec
      rw [hin, hname]
      refine ⟨fun path hpath => ?_, nofun⟩
      cases hpath
      exact ⟨rfl, saved.content, hhash, rfl⟩

/-- A file with a wrong hash is not kept, and a file that was there stays. -/
theorem download_integrity_mismatch :
    let fileID := Sha256.sum256 [1, 2]
    let dir : Dir := fun name => if name = ascii "old" then some (.file [9]) else none
    let msgs : List (Except String Envelope) :=
      [.ok ⟨some (.fileResponse ⟨fileID.val, 2, false⟩)⟩,
        .ok ⟨some (.fileChunk ⟨fileID.val, [1, 3], true⟩)⟩]
    let tmp : TempFile := ⟨ascii "123", fun _ => 0⟩
    (requestFileIn Sha256.sum256 fileID Host.fine tmp dir msgs).2 = some (.error errHashMismatch)
      ∧ (requestFileIn Sha256.sum256 fileID Host.fine tmp dir msgs).1 = dir := by
  intro fileID dir msgs tmp
  have herr : (requestFileIn Sha256.sum256 fileID Host.fine tmp dir msgs).2
      = some (.error errHashMismatch) := by decide +kernel
  exact ⟨herr,
    (download_integrity Sha256.sum256 fileID Host.fine tmp dir (by decide +kernel) msgs).2 _ herr⟩

/-- **A served file is delivered**: one response, then chunks of which exactly
the last is marked, each of a size that can be sent; and the receiver of these
messages has the file. -/
theorem transfer_delivers (hash : GoString → FileID) {s : Sender} {fileID : FileID}
    {content : GoString} (hserves : s.Serves fileID content) (hhash : hash content = fileID)
    {tmp : TempFile} {dir : Dir} (hfresh : dir tmp.name = none) :
    ∃ (response : FileResponse) (more : List Envelope) (final : FileChunk),
      s.handleRequest fileID
          = (⟨some (.fileResponse response)⟩ :: (more ++ [⟨some (.fileChunk final)⟩]), none)
        ∧ response.notFound = false ∧ (∀ env ∈ more, isMore env) ∧ final.eof = true
        ∧ (∀ env ∈ (s.handleRequest fileID).1, accepts env = true)
        ∧ requestFileIn hash fileID Host.fine tmp dir ((s.handleRequest fileID).1.map .ok)
          = (dir.put (hexName fileID) (.file content), some (.ok (hexName fileID))) := by
  obtain ⟨response, more, final, hreq, hfound, hmore, heof, hdata, hacc⟩ :=
    handleRequest_serves hserves
  refine ⟨response, more, final, hreq, hfound, hmore, heof, hacc, ?_⟩
  -- none of these messages is an offer, so the stream is clean
  have hchunks : ∀ env ∈ more ++ [⟨some (.fileChunk final)⟩], isOffer env = false := by
    intro env henv
    rcases List.mem_append.mp henv with henv | henv
    · exact (not_isOffer_of_isMore (hmore env henv)).1
    · rw [List.mem_singleton.mp henv]
      rfl
  have hoffers : ∀ env ∈ (s.handleRequest fileID).1, isOffer env = false := by
    rw [hreq]
    intro env henv
    rcases List.mem_cons.mp henv with rfl | henv
    · rfl
    · exact hchunks env henv
  have hfilter : (s.handleRequest fileID).1.filter (fun env => !isOffer env)
      = ⟨some (.fileResponse response)⟩ :: (more ++ [⟨some (.fileChunk final)⟩]) := by
    rw [List.filter_eq_self.mpr (fun env henv => by rw [hoffers env henv]; rfl), hreq]
  have hclean : Clean (s.handleRequest fileID).1 :=
    fun env henv => hoffers env ((List.takeWhile_prefix _).subset henv)
  have hsaved := (requestFile_iff hhash hfound hmore heof hdata hfilter).mpr hclean
  have hspec := requestFileIn_spec hash fileID Host.fine hfresh
    ((s.handleRequest fileID).1.map .ok)
  rw [hsaved] at hspec
  exact hspec

/-- A file of two bytes, read in one piece before the end is seen. -/
theorem transfer_delivers_two_bytes :
    let fileID := Sha256.sum256 [1, 2]
    let reads : Reads := .more ⟨[1, 2], by decide⟩ (.last ⟨[], by decide⟩ .eof)
    let s : Sender := ⟨(∅ : LocalIndex).insert fileID (ascii "/share/f"),
      ⟨fun _ => some 2, fun _ => .ok reads⟩⟩
    let dir : Dir := fun _ => none
    requestFileIn Sha256.sum256 fileID Host.fine ⟨ascii "123", fun _ => 0⟩ dir
        ((s.handleRequest fileID).1.map .ok)
      = (dir.put (hexName fileID) (.file [1, 2]), some (.ok (hexName fileID))) := by
  intro fileID reads s dir
  have hserves : s.Serves fileID [1, 2] :=
    ⟨ascii "/share/f", 2, reads, AList.lookup_insert _, rfl, rfl, rfl, rfl⟩
  have hfresh : dir (TempFile.name ⟨ascii "123", fun _ => 0⟩) = none := rfl
  obtain ⟨_, _, _, _, _, _, _, _, hsaved⟩ :=
    transfer_delivers Sha256.sum256 hserves rfl hfresh
  exact hsaved

end Kin.Transfer
