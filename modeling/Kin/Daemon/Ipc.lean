/-
  Kin.Daemon.Ipc

  **REQUESTS AND RESPONSES** (`internal/daemon/framing.go`, `types.go`,
  `handleConn` of `server.go` and `Handle` of `handler.go`).

  A message is `[4 bytes big-endian length][JSON]`.  `WriteJSON` refuses a text
  over 4 MiB and has then written NOTHING; `handleConn` answers that with the
  end of the connection.  Nothing bounds the text of a response: the lists of
  peers and files are written whole, an unknown method is quoted back.

    • `handle_answers` — a response has the request's id and either data
      or an error,
    • `serveOne_eq` — one round of the loop,
    • `served_iff` — a sequence of requests is answered one by one exactly if
      every response fits.

  Reading JSON is a parameter (`IpcLibs`); `Kin.Lib.Json` writes it.
-/
import Kin.Daemon.Handler
import Kin.Daemon.Types
import Kin.Lib.Json
import Kin.Protocol.Framing

namespace Kin.Daemon

open Kin.Lib Kin.Lib.Json Kin.Kinpb
open Kin.Protocol (putUint32 uint32 uint32_putUint32)

/-! ## §1. Messages. -/

structure Request where
  id : UInt64
  method : GoString
  /-- The JSON text; empty if there is none. -/
  params : GoString
  deriving DecidableEq

/-- `ErrorInfo`, with its texts in UTF-8. -/
structure ErrorReply where
  code : GoString
  message : GoString
  deriving DecidableEq

structure Response where
  id : UInt64
  error : Option ErrorReply
  /-- The JSON text; empty if there is none. -/
  data : GoString
  deriving DecidableEq

/-- The bytes of a text. -/
def utf8 (s : String) : GoString := s.toList.flatMap String.utf8EncodeChar

def ErrorReply.marshal (e : ErrorReply) : GoString :=
  object [member "code" (quote e.code), member "message" (quote e.message)]

def Response.marshal (r : Response) : GoString :=
  object ([member "id" (decimal r.id.toNat)]
    ++ (match r.error with
      | none => []
      | some e => [member "error" e.marshal])
    ++ (if r.data = [] then [] else [member "data" r.data]))

def StatusResponse.marshal (r : StatusResponse) : GoString :=
  object ([member "node_id" (quote r.nodeID), member "node_id_short" (quote r.nodeIDShort),
      member "listen_addr" (quote r.listenAddr), member "shared_dir" (quote r.sharedDir),
      member "peer_count" (integer r.peerCount)]
    ++ (if r.relayAddr = [] then [] else [member "relay_addr" (quote r.relayAddr)])
    ++ [member "relay_online" (bool r.relayOnline)])

/-- `json.Marshal` of a peer; a slice of no endpoints is nil or is not. -/
def PeerInfo.marshal (isNil : Bool) (p : PeerInfo) : GoString :=
  object [member "node_id" (quote p.nodeID), member "node_id_short" (quote p.nodeIDShort),
    member "trust_state" (quote p.trustState), member "last_seen" (quote p.lastSeen),
    member "endpoints"
      (if isNil then slice (p.endpoints.map quote) else array (p.endpoints.map quote)),
    member "online" (bool p.online)]

def FileInfo.marshal (f : FileInfo) : GoString :=
  object [member "file_id" (quote f.fileID), member "name" (quote f.name),
    member "size" (integer f.size), member "mod_time" (quote f.modTime),
    member "owner_node_id" (quote f.ownerNodeID), member "is_local" (bool f.isLocal)]

/-! ## §2. The handler. -/

/-- What the libraries decide. -/
structure IpcLibs where
  /-- `json.Unmarshal` into a `Request`. -/
  unmarshal : GoString → Except String Request
  /-- `json.Unmarshal` into parameters, for their one field. -/
  param : String → GoString → Except String GoString
  /-- `Format(time.RFC3339)`. -/
  rfc3339 : Time → GoString
  /-- `net.ParseIP` gives an address, and not the unspecified one. -/
  specified : GoString → Bool
  sign : GoString → GoString → GoString
  verify : GoString → GoString → GoString → Bool

/-- The daemon when a request comes in: its configuration, the two stores, and
what the database, the clock and the network will answer. -/
structure DaemonState where
  nodeID : NodeID
  privKey : GoString
  publicKey : GoString
  store : Peerstore.Store
  listPeersErr : Option String
  /-- Which peers without endpoints have `null` for them in the database; a second
  `PutPeer` writes `[]`. -/
  nilEndpoints : GoString → Bool
  catalog : Catalog.Store
  listAllErr : Option String
  listenAddr : GoString
  sharedDir : GoString
  relayAddr : GoString
  nonce : Except String Invite.Nonce
  env : JoinEnv

def errResponse (id : UInt64) (err : ErrorInfo) : Response :=
  ⟨id, some ⟨utf8 err.code, utf8 err.message⟩, []⟩

def okResponse (id : UInt64) (data : GoString) : Response := ⟨id, none, data⟩

def methodSubscribe : GoString := ascii "subscribe"

def isRoutableListenAddr (libs : IpcLibs) (addr : GoString) : Bool :=
  match splitHostPort addr with
  | .error _ => false
  | .ok (host, _) => decide (host ≠ []) && libs.specified host

/-- The endpoints of `handleInvite`. -/
def inviteEndpoints (libs : IpcLibs) (d : DaemonState) : List GoString :=
  (if d.listenAddr ≠ [] ∧ isRoutableListenAddr libs d.listenAddr then [d.listenAddr] else [])
    ++ (if d.relayAddr ≠ [] then [ascii "relay://" ++ d.relayAddr] else [])

def handleStatus (d : DaemonState) (id : UInt64) : Response :=
  match d.listPeersErr with
  | some err => errResponse id ⟨"internal", "list peers: " ++ err⟩
  | none =>
    okResponse id (StatusResponse.marshal {
      nodeID := hexNodeID d.nodeID
      nodeIDShort := shortID (hexNodeID d.nodeID)
      listenAddr := d.listenAddr
      sharedDir := d.sharedDir
      peerCount := d.store.listPeers.length
      relayAddr := d.relayAddr
      relayOnline := decide (d.relayAddr ≠ []) })

def handlePeers (libs : IpcLibs) (d : DaemonState) (id : UInt64) : Response :=
  match d.listPeersErr with
  | some err => errResponse id ⟨"internal", "list peers: " ++ err⟩
  | none =>
    okResponse id (object [member "peers"
      (array ((peerInfos libs.rfc3339 d.store).map
        (fun p => p.marshal (d.nilEndpoints p.nodeID))))])

def handleCatalog (libs : IpcLibs) (d : DaemonState) (id : UInt64) : Response :=
  match d.listAllErr with
  | some err => errResponse id ⟨"internal", "list catalog: " ++ err⟩
  | none =>
    okResponse id (object [member "files"
      (array ((fileInfos libs.rfc3339 d.nodeID d.catalog).map FileInfo.marshal))])

def handleDownload (libs : IpcLibs) (id : UInt64) (params : GoString) : Response :=
  match libs.param "file_id" params with
  | .error err => errResponse id ⟨"invalid_params", "decode params: " ++ err⟩
  | .ok fileID =>
    if fileID = [] then errResponse id ⟨"invalid_params", "file_id is required"⟩
    else errResponse id ⟨"not_implemented", "download via daemon is not yet implemented"⟩

/-- The response to what `handleInvite` returns. -/
def inviteResponse (id : UInt64) : Except ErrorInfo GoString → Response
  | .error err => errResponse id err
  | .ok token => okResponse id (object [member "token" (quote token)])

/-- The response to what `handleJoin` returns. -/
def joinResponse (id : UInt64) : Except ErrorInfo NodeID → Response
  | .error err => errResponse id err
  | .ok peer => okResponse id (object [member "peer_node_id" (quote (hexNodeID peer))])

/-- `Handle`: the peer store afterwards, and the response. -/
def handle (libs : IpcLibs) (d : DaemonState) (req : Request) : Peerstore.Store × Response :=
  if req.method = ascii "status" then (d.store, handleStatus d req.id)
  else if req.method = ascii "peers" then (d.store, handlePeers libs d req.id)
  else if req.method = ascii "invite" then
    (d.store, inviteResponse req.id
      (handleInvite libs.sign d.privKey d.publicKey (inviteEndpoints libs d) d.nonce
        (d.env.clk.now 0)))
  else if req.method = ascii "join" then
    -- the one method that writes to the peer store
    let r := handleJoin libs.verify d.env (libs.param "token" req.params) d.store
    (r.1, joinResponse req.id r.2)
  else if req.method = ascii "catalog" then (d.store, handleCatalog libs d req.id)
  else if req.method = ascii "download" then (d.store, handleDownload libs req.id req.params)
  else
    (d.store, ⟨req.id,
      some ⟨ascii "unknown_method", ascii "unknown method: " ++ req.method⟩, []⟩)

/-- A response to the request: its id, and data or an error but not both. -/
def Answers (id : UInt64) (r : Response) : Prop := r.id = id ∧ (r.error = none ↔ r.data ≠ [])

theorem answers_errResponse (id : UInt64) (err : ErrorInfo) : Answers id (errResponse id err) :=
  ⟨rfl, iff_of_false (fun h => by cases h) (fun h => h rfl)⟩

theorem answers_okResponse (id : UInt64) (members : List GoString) :
    Answers id (okResponse id (Json.object members)) :=
  ⟨rfl, iff_of_true rfl (Json.object_ne_nil members)⟩

/-- **Every request has its response.** -/
theorem handle_answers (libs : IpcLibs) (d : DaemonState) (req : Request) :
    Answers req.id (handle libs d req).2 := by
  unfold handle
  split
  · dsimp only
    unfold handleStatus
    split
    · exact answers_errResponse _ _
    · exact answers_okResponse _ _
  split
  · dsimp only
    unfold handlePeers
    split
    · exact answers_errResponse _ _
    · exact answers_okResponse _ _
  split
  · dsimp only
    unfold inviteResponse
    split
    · exact answers_errResponse _ _
    · exact answers_okResponse _ _
  split
  · dsimp only
    unfold joinResponse
    split
    · exact answers_errResponse _ _
    · exact answers_okResponse _ _
  split
  · dsimp only
    unfold handleCatalog
    split
    · exact answers_errResponse _ _
    · exact answers_okResponse _ _
  split
  · dsimp only
    unfold handleDownload
    split
    · exact answers_errResponse _ _
    · split
      · exact answers_errResponse _ _
      · exact answers_errResponse _ _
  · exact ⟨rfl, iff_of_false (fun h => by cases h) (fun h => h rfl)⟩

/-! ## §3. Frames. -/

/-- 4 MiB. -/
def maxIPCMsgSize : Nat := 4 * 2 ^ 20

/-- The frame of a text. -/
def frame (data : GoString) : GoString := putUint32 data.length ++ data

def tooLarge (n : Nat) : String :=
  "ipc: message too large (" ++ toString n ++ " > " ++ toString maxIPCMsgSize ++ ")"

/-- `WriteJSON` of a text, on an open connection. -/
def writeJSON (data : GoString) : Except String GoString :=
  if data.length > maxIPCMsgSize then .error (tooLarge data.length) else .ok (frame data)

theorem writeJSON_fits {data : GoString} (h : data.length ≤ maxIPCMsgSize) :
    writeJSON data = .ok (frame data) := by
  unfold writeJSON
  rw [if_neg (Nat.not_lt.mpr h)]

theorem writeJSON_large {data : GoString} (h : ¬ data.length ≤ maxIPCMsgSize) :
    writeJSON data = .error (tooLarge data.length) := by
  unfold writeJSON
  rw [if_pos (Nat.not_le.mp h)]

/-- What `ReadJSON` makes of the bytes that have arrived. -/
inductive ReadResult where
  /-- It waits for more. -/
  | blocked
  | error (err : String)
  | ok (body rest : GoString)
  deriving DecidableEq

/-- `ReadJSON` up to the text. -/
def readFrame (r : GoString) : ReadResult :=
  if r.length < 4 then .blocked
  else
    let size := uint32 (r.take 4)
    if size > maxIPCMsgSize then .error (tooLarge size)
    else if (r.drop 4).length < size then .blocked
    else .ok ((r.drop 4).take size) ((r.drop 4).drop size)

/-- `ReadJSON` of a request: an empty message leaves the zero `Request`. -/
def readRequest (libs : IpcLibs) (body : GoString) : Except String Request :=
  if body = [] then .ok ⟨0, [], []⟩
  else
    match libs.unmarshal body with
    | .error err => .error ("ipc: unmarshal: " ++ err)
    | .ok req => .ok req

/-- **A frame is read as it was written**, whatever follows it. -/
theorem readFrame_frame {data : GoString} (h : data.length ≤ maxIPCMsgSize) (rest : GoString) :
    readFrame (frame data ++ rest) = .ok data rest := by
  have hhead : (putUint32 data.length).length = 4 := rfl
  have htake : (frame data ++ rest).take 4 = putUint32 data.length := by
    unfold frame
    rw [List.append_assoc, List.take_left' hhead]
  have hdrop : (frame data ++ rest).drop 4 = data ++ rest := by
    unfold frame
    rw [List.append_assoc, List.drop_left' hhead]
  have hsize : uint32 (putUint32 data.length) = data.length := by
    apply uint32_putUint32
    unfold maxIPCMsgSize at h
    omega
  have hlen : ¬ (frame data ++ rest).length < 4 := by
    unfold frame
    rw [List.length_append, List.length_append, hhead]
    omega
  unfold readFrame
  rw [if_neg hlen]
  dsimp only
  rw [htake, hdrop, hsize, if_neg (by omega), if_neg (by rw [List.length_append]; omega),
    List.take_left, List.drop_left]

/-! ## §4. One connection. -/

inductive ConnStatus where
  | serving
  | closed
  /-- Taken over by `handleSubscribe`. -/
  | subscribed
  deriving DecidableEq

/-- A connection: the bytes on their way, and what the server does with it. -/
structure Pipe where
  toServer : GoString
  toClient : GoString
  status : ConnStatus

/-- One round of the loop of `handleConn`, with the daemon as it is by then;
`none` while `ReadJSON` waits, and when the loop is left. -/
def serveOne (libs : IpcLibs) (p : Pipe) (d : DaemonState) : Option Pipe :=
  if p.status ≠ .serving then none
  else
    match readFrame p.toServer with
    | .blocked => none
    -- the header has been read
    | .error _ => some { p with toServer := p.toServer.drop 4, status := .closed }
    | .ok body rest =>
      match readRequest libs body with
      | .error _ => some { p with toServer := rest, status := .closed }
      | .ok req =>
        -- `subscribe` takes the connection over
        if req.method = methodSubscribe then
          some ⟨rest, p.toClient ++ frame (Response.marshal ⟨req.id, none, []⟩), .subscribed⟩
        else
          match writeJSON (handle libs d req).2.marshal with
          -- nothing is written, and the loop returns: `defer conn.Close()`
          | .error _ => some { p with toServer := rest, status := .closed }
          | .ok bytes => some { p with toServer := rest, toClient := p.toClient ++ bytes }

/-- A request that decodes and is no `subscribe`, as it is written. -/
structure Wire (libs : IpcLibs) where
  body : GoString
  req : Request
  fits : body.length ≤ maxIPCMsgSize
  decodes : readRequest libs body = .ok req
  method : req.method ≠ methodSubscribe

/-- The text of the response to a request, and whether it can be written. -/
def reply (libs : IpcLibs) (d : DaemonState) (w : Wire libs) : GoString :=
  (handle libs d w.req).2.marshal

def ReplyFits (libs : IpcLibs) (d : DaemonState) (w : Wire libs) : Prop :=
  (reply libs d w).length ≤ maxIPCMsgSize

instance (libs : IpcLibs) (d : DaemonState) (w : Wire libs) : Decidable (ReplyFits libs d w) :=
  inferInstanceAs (Decidable ((reply libs d w).length ≤ maxIPCMsgSize))

theorem serveOne_request {libs : IpcLibs} {p : Pipe} {body rest : GoString} {req : Request}
    (hstatus : p.status = .serving) (hread : readFrame p.toServer = .ok body rest)
    (hreq : readRequest libs body = .ok req) (hmethod : req.method ≠ methodSubscribe)
    (d : DaemonState) :
    serveOne libs p d = match writeJSON (handle libs d req).2.marshal with
      | .error _ => some { p with toServer := rest, status := .closed }
      | .ok bytes => some { p with toServer := rest, toClient := p.toClient ++ bytes } := by
  unfold serveOne
  rw [if_neg (not_not.mpr hstatus), hread]
  dsimp only
  rw [hreq]
  dsimp only
  rw [if_neg hmethod]

/-- **One round**: the response, or the end of the connection. -/
theorem serveOne_eq {libs : IpcLibs} (d : DaemonState) (w : Wire libs) (rest out : GoString) :
    serveOne libs ⟨frame w.body ++ rest, out, .serving⟩ d
      = some (if ReplyFits libs d w then ⟨rest, out ++ frame (reply libs d w), .serving⟩
        else ⟨rest, out, .closed⟩) := by
  rw [serveOne_request rfl (readFrame_frame w.fits rest) w.decodes w.method d]
  by_cases hfits : ReplyFits libs d w
  · have hwrite : writeJSON (handle libs d w.req).2.marshal = .ok (frame (reply libs d w)) :=
      writeJSON_fits hfits
    rw [if_pos hfits, hwrite]
  · have hwrite : writeJSON (handle libs d w.req).2.marshal = _ := writeJSON_large hfits
    rw [if_neg hfits, hwrite]

/-! ## §5. A sequence of requests. -/

/-- The bytes of the requests, written one after the other. -/
def requestBytes {libs : IpcLibs} (reqs : List (DaemonState × Wire libs)) : GoString :=
  reqs.flatMap (fun r => frame r.2.body)

/-- The bytes of a response to each, in order. -/
def replyBytes {libs : IpcLibs} (reqs : List (DaemonState × Wire libs)) : GoString :=
  reqs.flatMap (fun r => frame (reply libs r.1 r.2))

/-- The loop answers the requests with a response to each, in order, and goes
on. -/
def Served (libs : IpcLibs) (reqs : List (DaemonState × Wire libs)) : Prop :=
  run (serveOne libs) ⟨requestBytes reqs, [], .serving⟩ (reqs.map Prod.fst)
      = some ⟨[], replyBytes reqs, .serving⟩
    ∧ ∀ r ∈ reqs, Answers r.2.req.id (handle libs r.1 r.2.req).2

/-- A connection that is left stays as it is. -/
theorem serveOne_left {libs : IpcLibs} {p : Pipe} (h : p.status ≠ .serving) (d : DaemonState) :
    serveOne libs p d = none := by
  unfold serveOne
  rw [if_pos h]

theorem run_serveOne_iff {libs : IpcLibs} (reqs : List (DaemonState × Wire libs)) :
    ∀ out, run (serveOne libs) ⟨requestBytes reqs, out, .serving⟩ (reqs.map Prod.fst)
        = some ⟨[], out ++ replyBytes reqs, .serving⟩
      ↔ ∀ r ∈ reqs, ReplyFits libs r.1 r.2 := by
  induction reqs with
  | nil =>
    intro out
    refine iff_of_true ?_ (fun r hr => by cases hr)
    show some _ = some _
    rw [show replyBytes ([] : List (DaemonState × Wire libs)) = [] from rfl, List.append_nil]
    rfl
  | cons r rest ih =>
    intro out
    have hbytes : requestBytes (r :: rest) = frame r.2.body ++ requestBytes rest :=
      List.flatMap_cons
    have hreply : replyBytes (r :: rest) = frame (reply libs r.1 r.2) ++ replyBytes rest :=
      List.flatMap_cons
    rw [List.map_cons, run, hbytes, serveOne_eq, List.forall_mem_cons]
    by_cases hfits : ReplyFits libs r.1 r.2
    · rw [if_pos hfits, hreply, ← List.append_assoc, and_iff_right hfits]
      exact ih (out ++ frame (reply libs r.1 r.2))
    · rw [if_neg hfits]
      refine iff_of_false (fun hrun => ?_) (fun h => hfits h.1)
      rw [Option.bind_some] at hrun
      -- the connection is closed: with no request left, and before the next one
      cases rest with
      | nil =>
        have hstatus := congrArg (Option.map Pipe.status) hrun
        cases hstatus
      | cons r' rest =>
        rw [List.map_cons, run, serveOne_left (fun h => by cases h)] at hrun
        cases hrun

/-- **A sequence of requests is answered** exactly if every response fits. -/
theorem served_iff {libs : IpcLibs} (reqs : List (DaemonState × Wire libs)) :
    Served libs reqs ↔ ∀ r ∈ reqs, ReplyFits libs r.1 r.2 := by
  have hanswers : ∀ r ∈ reqs, Answers r.2.req.id (handle libs r.1 r.2.req).2 :=
    fun r _ => handle_answers libs r.1 r.2.req
  unfold Served
  rw [and_iff_left hanswers]
  exact run_serveOne_iff reqs []

/-! ## §6. How long a listing is. -/

theorem FileInfo.length_le_marshal (f : FileInfo) : f.name.length + 2 ≤ f.marshal.length := by
  have hmem : Json.member "name" (Json.quote f.name) ∈ [Json.member "file_id" (Json.quote f.fileID),
      Json.member "name" (Json.quote f.name), Json.member "size" (Json.integer f.size),
      Json.member "mod_time" (Json.quote f.modTime),
      Json.member "owner_node_id" (Json.quote f.ownerNodeID),
      Json.member "is_local" (Json.bool f.isLocal)] := by
    exact List.mem_cons_of_mem _ List.mem_cons_self
  calc f.name.length + 2 ≤ (Json.quote f.name).length := Json.length_le_quote f.name
    _ ≤ (Json.member "name" (Json.quote f.name)).length := Json.length_le_member _ _
    _ ≤ f.marshal.length := Json.mem_length_le_object hmem

theorem Response.length_le_marshal (r : Response) : r.data.length ≤ r.marshal.length := by
  by_cases hdata : r.data = []
  · rw [hdata]
    exact Nat.zero_le _
  · refine Nat.le_trans (Json.length_le_member "data" r.data) (Json.mem_length_le_object ?_)
    rw [if_neg hdata]
    exact List.mem_append_right _ List.mem_cons_self

/-- **A listing is longer than the names in it.** -/
theorem names_le_handleCatalog (libs : IpcLibs) {d : DaemonState} (h : d.listAllErr = none)
    (id : UInt64) :
    ((fileInfos libs.rfc3339 d.nodeID d.catalog).map (fun f => f.name.length + 2)).sum
      ≤ (handleCatalog libs d id).marshal.length := by
  have hnames : ∀ files : List FileInfo, (files.map (fun f => f.name.length + 2)).sum
      ≤ ((files.map FileInfo.marshal).map List.length).sum := by
    intro files
    induction files with
    | nil => exact Nat.le_refl 0
    | cons f files ih =>
      have hf := f.length_le_marshal
      simp only [List.map_cons, List.sum_cons]
      omega
  -- names, objects of the files, their list, the data, the response
  refine Nat.le_trans (hnames _) (Nat.le_trans (Json.sum_length_le_array _) ?_)
  refine Nat.le_trans ?_ (Response.length_le_marshal _)
  unfold handleCatalog
  rw [h]
  refine Nat.le_trans (Json.length_le_member "files" _) (Json.mem_length_le_object ?_)
  exact List.mem_cons_self

end Kin.Daemon
