/-
  Kin.Protocol.FileSession

  **A FILE REQUEST ON A SERVED CONNECTION.**

  The serving side puts catalog offers and the answer to a `FileRequest` on one
  stream: `Serve` sends its initial offer before it reads the first message,
  and a broadcast may put an offer between any two messages of the answer.  The
  requesting side, `RequestFile`, takes anything but the next message of the
  answer for an error.

    • `AnswerSent` — what connection `i` carries besides offers, at every moment,
    • `step_clean_iff` — the only steps that spoil the stream are offers that
      the framing lets through before the last chunk is out,
    • `requestFile_served_iff` — so `RequestFile` gets the file exactly in the
      runs without such a step.
-/
import Kin.Lib.Run
import Kin.Protocol.Handler
import Kin.Transfer.Receiver

namespace Kin.Protocol

open Kin.Lib Kin.Catalog Kin.Kinpb Kin.Transfer

/-! ## §1. Messages that are no offers. -/

def requestMsg (fileID : FileID) : Envelope := ⟨some (.fileRequest ⟨fileID.val⟩)⟩

theorem sendChunks_no_offer (fileID : FileID) (reads : Reads) :
    ∀ env ∈ (sendChunks fileID reads).1, isOffer env = false := by
  induction reads with
  | last data err =>
    cases err with
    | eof =>
      intro env henv
      rw [List.mem_singleton.mp henv]
      rfl
    | other msg =>
      intro env henv
      unfold sendChunks at henv
      split at henv
      · rw [List.mem_singleton.mp henv]
        rfl
      · cases henv
  | more data rest ih =>
    intro env henv
    simp only [sendChunks] at henv
    split at henv
    · rcases List.mem_cons.mp henv with rfl | henv
      · rfl
      · exact ih env henv
    · exact ih env henv

theorem handleRequest_no_offer (s : Sender) (fileID : FileID) :
    ∀ env ∈ (s.handleRequest fileID).1, isOffer env = false := by
  intro env henv
  simp only [Sender.handleRequest] at henv
  split at henv
  next =>
    rw [List.mem_singleton.mp henv]
    rfl
  next =>
    split at henv
    next =>
      rw [List.mem_singleton.mp henv]
      rfl
    next =>
      split at henv
      next =>
        rw [List.mem_singleton.mp henv]
        rfl
      next =>
        rcases List.mem_cons.mp henv with rfl | henv
        · rfl
        · exact sendChunks_no_offer fileID _ env henv

/-- Nothing `dispatch` answers is an offer. -/
theorem dispatch_no_offer (h : Handler) (peer : NodeID) (clk : Clock) (env : Envelope) :
    ∀ m ∈ (h.dispatch peer clk env).2, isOffer m = false := by
  intro m hm
  unfold Handler.dispatch at hm
  split at hm
  next req _ =>
    unfold handleFileRequest at hm
    dsimp only at hm
    split at hm
    next =>
      rw [List.mem_singleton.mp hm]
      rfl
    next fileID _ => exact handleRequest_no_offer h.sender fileID m hm
  next offer _ =>
    unfold handleCatalogOffer at hm
    dsimp only at hm
    cases hput : h.catalog.putPeerEntries clk peer (acceptFiles offer.files) with
    | mk s err =>
      rw [hput] at hm
      cases err with
      | some err => cases hm
      | none =>
        rw [List.mem_singleton.mp hm]
        rfl
  next => cases hm

/-! ## §2. The stream stays clean. -/

/-- An offer sent on connection `i` before its last chunk is refused by the
framing: it is longer than a frame. -/
def OffersRefused (i : Nat) (h : Handler) : Act → Prop
  | .sendOffer j =>
    j = i → ∀ c offer stamp, h.calls[i]? = some c → c.pc = .listed offer stamp →
      c.sent.any isEof = true ∨ accepts (offerMsg offer) = false
  | .castSend b =>
    ∀ c offer stamp targets, h.casts[b]? = some (.listed i offer stamp targets) →
      h.calls[i]? = some c → c.sent.any isEof = true ∨ accepts (offerMsg offer) = false
  | _ => True

/-- No offer stands before the last chunk on connection `i`. -/
def CleanAt (i : Nat) (h : Handler) : Prop := ∀ c, h.calls[i]? = some c → Clean c.sent

/-- No message still to be sent on connection `i` is an offer. -/
def NoOfferPending (i : Nat) (h : Handler) : Prop :=
  ∀ c, h.calls[i]? = some c → ∀ env ∈ c.pc.rest, isOffer env = false

theorem clean_append_singleton {l : List Envelope} {x : Envelope} :
    Clean (l ++ [x]) ↔ Clean l ∧ (l.any isEof = true ∨ isOffer x = false) := by
  induction l with
  | nil =>
    rw [List.nil_append, clean_cons]
    simp only [clean_nil, and_true, true_and, List.any_nil, Bool.false_eq_true, false_or]
    refine ⟨fun h => h.elim (fun heof => ?_) id, Or.inr⟩
    -- the last chunk is no offer
    cases hoff : isOffer x with
    | false => rfl
    | true =>
      rw [isEof_of_isOffer hoff] at heof
      cases heof
  | cons y l ih =>
    rw [List.cons_append, clean_cons, clean_cons, ih, List.any_cons, Bool.or_eq_true]
    constructor
    · rintro (heof | ⟨hno, hclean, hlast⟩)
      · exact ⟨Or.inl heof, Or.inl (Or.inl heof)⟩
      · exact ⟨Or.inr ⟨hno, hclean⟩, hlast.imp Or.inr id⟩
    · rintro ⟨heof | ⟨hno, hclean⟩, hlast⟩
      · exact Or.inl heof
      · rcases hlast with (heof | hany) | hoff
        · exact Or.inl heof
        · exact Or.inr ⟨hno, hclean, Or.inl hany⟩
        · exact Or.inr ⟨hno, hclean, Or.inr hoff⟩

theorem rest_afterSend (envs : List Envelope) : (ServePC.afterSend envs).rest = envs := by
  cases envs <;> rfl

theorem ServeCall.rest_sendNext {c : ServeCall} {env m : Envelope} {rest : List Envelope}
    (hm : m ∈ (c.sendNext env rest).pc.rest) : m ∈ rest := by
  unfold ServeCall.sendNext at hm
  split at hm
  · rw [show ({ c.send env with pc := ServePC.afterSend rest } : ServeCall).pc.rest = rest from
      rest_afterSend rest] at hm
    exact hm
  · cases hm

theorem step_noOfferPending (i : Nat) (h : Handler) (a : Act) (h' : Handler)
    (hj : NoOfferPending i h) (hs : step h a = some h') : NoOfferPending i h' := by
  intro c' hc' m hm
  rcases (step_sound hs).call hc' with ⟨peer, _, _, rfl⟩ | ⟨c, hc, rfl | hmove⟩
  · cases hm
  · exact hj c' hc m hm
  · cases hmove with
    | listOffer hpc => cases hm
    | sendOffer hpc => cases hm
    | recv clk env hpc =>
      rw [rest_afterSend] at hm
      exact dispatch_no_offer h c.peer clk env m hm
    | sendNext hpc =>
      refine hj c hc m ?_
      rw [hpc]
      exact List.mem_cons_of_mem _ (ServeCall.rest_sendNext hm)
    | interrupt hpc => cases hm
    | ret hpc => cases hm
    | castSend hb =>
      rw [ServeCall.sendOffer_pc] at hm
      exact hj c hc m hm

/-- Sending an offer leaves a clean stream clean exactly if it comes late or is refused. -/
theorem clean_sendOffer {c : ServeCall} {offer : CatalogOffer} {stamp : Nat} (hc : Clean c.sent) :
    Clean (c.sendOffer offer stamp).sent
      ↔ c.sent.any isEof = true ∨ accepts (offerMsg offer) = false := by
  unfold ServeCall.sendOffer
  cases hacc : accepts (offerMsg offer) with
  | false =>
    rw [if_neg Bool.false_ne_true]
    exact iff_of_true hc (Or.inr rfl)
  | true =>
    rw [if_pos rfl, clean_append_singleton]
    have hoff : isOffer (offerMsg offer) = true := rfl
    simp [hc, hoff]

/-- **One step**: from a clean stream, exactly the steps that meet
`OffersRefused` leave it clean. -/
theorem step_clean_iff {i : Nat} {h h' : Handler} {a : Act} (hj : NoOfferPending i h)
    (hp : CleanAt i h) (hs : step h a = some h') : CleanAt i h' ↔ OffersRefused i h a := by
  have hstep := step_sound hs
  -- it is enough to look at what the step does to call `i`
  have hother : (∀ c c', h.calls[i]? = some c → Moves h i c a c' → Clean c'.sent) → CleanAt i h' := by
    intro hmoves c' hc'
    rcases hstep.call hc' with ⟨peer, _, _, rfl⟩ | ⟨c, hc, rfl | hmove⟩
    · exact clean_nil
    · exact hp c' hc
    · exact hmoves c c' hc hmove
  cases hstep with
  | serve peer => exact iff_of_true (hother (fun c c' _ hm => by cases hm)) trivial
  | listOffer _ hpc =>
    refine iff_of_true (hother (fun c c' hc hm => ?_)) trivial
    cases hm
    exact hp c hc
  | @sendOffer j c offer stamp hc hpc =>
    -- the initial offer of this connection, or of another
    refine ⟨fun hclean hji c₁ offer₁ stamp₁ hc₁ hpc₁ => ?_, fun hcond => ?_⟩
    · subst hji
      rw [hc] at hc₁
      rw [← Option.some.inj hc₁] at hpc₁ ⊢
      rw [hpc] at hpc₁
      obtain ⟨rfl, rfl⟩ := ServePC.listed.inj hpc₁
      have hlt := (List.getElem?_eq_some_iff.mp hc).1
      have hnew := hclean { c.sendOffer offer stamp with pc := .reading }
        (List.getElem?_set_self hlt)
      exact (clean_sendOffer (hp c hc)).mp hnew
    · refine hother (fun c₁ c' hc₁ hm => ?_)
      cases hm with
      | sendOffer hpc₁ => exact (clean_sendOffer (hp c₁ hc₁)).mpr (hcond rfl c₁ _ _ hc₁ hpc₁)
  | recv clk env _ hpc =>
    refine iff_of_true (hother (fun c c' hc hm => ?_)) trivial
    cases hm
    exact hp c hc
  | sendNext _ _ =>
    refine iff_of_true (hother (fun c c' hc hm => ?_)) trivial
    cases hm with
    | @sendNext env rest hpc =>
      unfold ServeCall.sendNext ServeCall.send
      split
      · refine clean_append_singleton.mpr ⟨hp c hc, Or.inr (hj c hc env ?_)⟩
        rw [hpc]
        exact List.mem_cons_self
      · exact hp c hc
  | interrupt _ _ | ret _ _ =>
    refine iff_of_true (hother (fun c c' hc hm => ?_)) trivial
    cases hm
    exact hp c hc
  | change _ | changeFailed _ | snapshot _ | castList _ _ _ =>
    exact iff_of_true (hother (fun c c' _ hm => by cases hm)) trivial
  | @castSend b t offer stamp targets c hb hc =>
    refine ⟨fun hclean c₁ offer₁ stamp₁ targets₁ hb₁ hc₁ => ?_, fun hcond => ?_⟩
    · rw [hb] at hb₁
      obtain ⟨rfl, rfl, rfl, rfl⟩ := Cast.listed.inj (Option.some.inj hb₁)
      rw [hc] at hc₁
      rw [← Option.some.inj hc₁]
      have hlt := (List.getElem?_eq_some_iff.mp hc).1
      exact (clean_sendOffer (hp c hc)).mp (hclean _ (List.getElem?_set_self hlt))
    · refine hother (fun c₁ c' hc₁ hm => ?_)
      cases hm with
      | castSend hb₁ => exact (clean_sendOffer (hp c₁ hc₁)).mpr (hcond c₁ _ _ _ hb₁ hc₁)
  | files sender => exact iff_of_true (hother (fun c c' _ hm => by cases hm)) trivial

/-! ## §3. What the stream carries besides offers. -/

/-- The stream of connection `i` without its offers: nothing before the request
is read, then the part of an answer that has been sent. -/
structure AnswerSent (f : FileID) (content : GoString) (c : ServeCall) : Prop where
  before : c.received = [] → c.pc.rest = [] ∧ c.sent.filter (fun env => !isOffer env) = []
  after : c.received = [requestMsg f] → ∃ s : Sender, s.Serves f content
    ∧ c.sent.filter (fun env => !isOffer env) ++ c.pc.rest = (s.handleRequest f).1

theorem filter_sendOffer (c : ServeCall) (offer : CatalogOffer) (stamp : Nat) :
    (c.sendOffer offer stamp).sent.filter (fun env => !isOffer env)
      = c.sent.filter (fun env => !isOffer env) := by
  unfold ServeCall.sendOffer
  split
  · rw [List.filter_append, List.filter_singleton]
    exact List.append_nil _
  · rfl

/-- The request, once read, is answered with the messages of the file. -/
theorem dispatch_requestMsg (h : Handler) (peer : NodeID) (clk : Clock) (f : FileID) :
    (h.dispatch peer clk (requestMsg f)).2 = (h.sender.handleRequest f).1 := by
  show handleFileRequest h.sender ⟨f.val⟩ = _
  unfold handleFileRequest
  rw [Bytes.ofList?_val]

/-- The sender serves the file, and connection `i` carries its answer. -/
structure Session (f : FileID) (content : GoString) (i : Nat) (h : Handler) : Prop where
  serves : h.sender.Serves f content
  answer : ∀ c, h.calls[i]? = some c → AnswerSent f content c

/-- What the run may do: not give up the answer, not change the file. -/
def KeepsFile (f : FileID) (content : GoString) (i : Nat) (a : Act) : Prop :=
  a ≠ .interrupt i ∧ ∀ s, a = .files s → s.Serves f content

namespace AnswerSent

variable {f : FileID} {content : GoString} {c : ServeCall}

/-- Where the call stands counts only for what it has yet to send. -/
theorem withPC (h : AnswerSent f content c) {pc : ServePC} (hpc : pc.rest = c.pc.rest) :
    AnswerSent f content { c with pc := pc } := by
  refine ⟨fun hrec => ?_, fun hrec => ?_⟩
  · show pc.rest = [] ∧ _
    rw [hpc]
    exact h.before hrec
  · show ∃ s : Sender, s.Serves f content ∧ _ ++ pc.rest = _
    rw [hpc]
    exact h.after hrec

/-- An offer is none of the answer. -/
theorem sendOffer (h : AnswerSent f content c) (offer : CatalogOffer) (stamp : Nat) :
    AnswerSent f content (c.sendOffer offer stamp) := by
  refine ⟨fun hrec => ?_, fun hrec => ?_⟩
  · rw [filter_sendOffer, ServeCall.sendOffer_pc]
    rw [ServeCall.sendOffer_received] at hrec
    exact h.before hrec
  · rw [filter_sendOffer, ServeCall.sendOffer_pc]
    rw [ServeCall.sendOffer_received] at hrec
    exact h.after hrec

/-- The first message that is read is the request, or the stream is none of a
session. -/
theorem recv (h : AnswerSent f content c) {handler : Handler}
    (hserves : handler.sender.Serves f content) (clk : Clock) (env : Envelope) :
    AnswerSent f content { c with
      received := c.received ++ [env]
      pc := .afterSend (handler.dispatch c.peer clk env).2 } := by
  refine ⟨fun hrec => ?_, fun hrec => ?_⟩
  · exact absurd hrec (List.append_ne_nil_of_right_ne_nil _ (List.cons_ne_nil _ _))
  · have hnil : c.received = [] := by
      have hlen := congrArg List.length hrec
      rw [List.length_append] at hlen
      exact List.length_eq_zero_iff.mp (by simpa using hlen)
    have henv : env = requestMsg f := by
      rw [hnil] at hrec
      exact (List.cons.inj hrec).1
    refine ⟨handler.sender, hserves, ?_⟩
    rw [(h.before hnil).2, rest_afterSend, henv, dispatch_requestMsg, List.nil_append]

/-- Every message of the answer fits a frame, so it goes out. -/
theorem sendNext (h : AnswerSent f content c) {env : Envelope} {rest : List Envelope}
    (hrest : c.pc.rest = env :: rest) : AnswerSent f content (c.sendNext env rest) := by
  have hreceived : (c.sendNext env rest).received = c.received := by
    unfold ServeCall.sendNext ServeCall.send
    split <;> rfl
  refine ⟨fun hrec => ?_, fun hrec => ?_⟩
  · rw [hreceived] at hrec
    rw [(h.before hrec).1] at hrest
    cases hrest
  · rw [hreceived] at hrec
    obtain ⟨s, hserves, heq⟩ := h.after hrec
    obtain ⟨_, _, _, _, _, _, _, _, haccept⟩ := handleRequest_serves hserves
    rw [hrest] at heq
    have hmem : env ∈ (s.handleRequest f).1 := by
      rw [← heq]
      exact List.mem_append_right _ List.mem_cons_self
    have hno := handleRequest_no_offer s f env hmem
    refine ⟨s, hserves, ?_⟩
    unfold ServeCall.sendNext ServeCall.send
    rw [if_pos (haccept env hmem), if_pos (haccept env hmem)]
    show (c.sent ++ [env]).filter (fun env => !isOffer env) ++ (ServePC.afterSend rest).rest = _
    rw [rest_afterSend, List.filter_append, List.filter_singleton, hno, ← heq, List.append_assoc]
    rfl

end AnswerSent

theorem step_session {f : FileID} {content : GoString} {i : Nat} (h : Handler) (a : Act)
    (h' : Handler) (hj : Session f content i h) (ha : KeepsFile f content i a)
    (hs : step h a = some h') : Session f content i h' := by
  have hstep := step_sound hs
  refine ⟨?_, fun c' hc' => ?_⟩
  · -- only a change of the files replaces the sender
    cases hstep with
    | files sender => exact ha.2 sender rfl
    | _ => exact hj.serves
  · rcases hstep.call hc' with ⟨peer, _, _, rfl⟩ | ⟨c, hc, rfl | hmove⟩
    · exact ⟨fun _ => ⟨rfl, rfl⟩, fun hreq => by cases hreq⟩
    · exact hj.answer c' hc
    · have hsent := hj.answer c hc
      cases hmove with
      | listOffer hpc => exact hsent.withPC (by rw [hpc]; rfl)
      | sendOffer hpc =>
        refine (hsent.sendOffer _ _).withPC ?_
        rw [ServeCall.sendOffer_pc, hpc]
        rfl
      | recv clk env hpc => exact hsent.recv hj.serves clk env
      | sendNext hpc => exact hsent.sendNext (by rw [hpc]; rfl)
      | interrupt hpc => exact absurd rfl ha.1
      | ret hpc => exact hsent.withPC (by rw [hpc]; rfl)
      | castSend hb => exact hsent.sendOffer _ _

/-! ## §4. The two sides composed. -/

/-- What is spoilt stays spoilt: the stream only grows. -/
theorem step_clean_back {i : Nat} (h : Handler) (a : Act) (h' : Handler)
    (hs : step h a = some h') (hp : CleanAt i h') : CleanAt i h := by
  have hoffer : ∀ (c : ServeCall) (offer : CatalogOffer) (stamp : Nat),
      c.sent <+: (c.sendOffer offer stamp).sent := by
    intro c offer stamp
    unfold ServeCall.sendOffer
    split
    · exact List.prefix_append _ _
    · exact List.prefix_rfl
  intro c hc
  obtain ⟨c', hc', rfl | hmove⟩ := (step_sound hs).call_persists hc
  · exact hp c' hc'
  · refine Clean.of_prefix ?_ (hp c' hc')
    cases hmove with
    | listOffer hpc => exact List.prefix_rfl
    | sendOffer hpc => exact hoffer c _ _
    | recv clk env hpc => exact List.prefix_rfl
    | sendNext hpc =>
      unfold ServeCall.sendNext ServeCall.send
      split
      · exact List.prefix_append _ _
      · exact List.prefix_rfl
    | interrupt hpc => exact List.prefix_rfl
    | ret hpc => exact List.prefix_rfl
    | castSend hb => exact hoffer c _ _

/-- **`RequestFile` AGAINST `Serve`.**  A file that is indexed, readable and
unchanged is requested on a fresh connection, and its answer is sent in full
while `Serve` and any number of broadcasts put offers on the same stream.
`RequestFile` saves the file's bytes if and only if every offer sent before the
last chunk is too long for a frame. -/
theorem requestFile_served_iff {hash : GoString → FileID} {f : FileID} {content : GoString}
    (hhash : hash content = f) {catalog : Store} {sender : Sender}
    (hserves : sender.Serves f content) {as : List Act} {i : Nat} {h : Handler} {c : ServeCall}
    (hacts : ∀ a ∈ as, KeepsFile f content i a)
    (hrun : run step (Handler.new catalog sender) as = some h) (hcall : h.calls[i]? = some c)
    (hreq : c.received = [requestMsg f]) (hdone : c.pc.rest = []) :
    requestFile hash f Host.fine (c.sent.map .ok) = some (.ok ⟨hexName f, content⟩)
      ↔ StepsMeet step (OffersRefused i) (Handler.new catalog sender) as := by
  have hnone : ∀ c, (Handler.new catalog sender).calls[i]? = some c → False := by
    intro c hc
    cases hc
  -- without its offers, the stream is the answer to the request
  have hsession : Session f content i h :=
    run_invariant_of step_session ⟨hserves, fun c hc => (hnone c hc).elim⟩ hacts hrun
  obtain ⟨s, hs, hanswer⟩ := (hsession.answer c hcall).after hreq
  rw [hdone, List.append_nil] at hanswer
  obtain ⟨response, more, final, hrequest, hfound, hmore, hfinal, hcontent, _⟩ :=
    handleRequest_serves hs
  rw [hrequest] at hanswer
  -- the file arrives iff the stream is clean at the end, iff it was clean all along, iff no step spoilt it
  calc requestFile hash f Host.fine (c.sent.map .ok) = some (.ok ⟨hexName f, content⟩)
      ↔ Clean c.sent := requestFile_iff hhash hfound hmore hfinal hcontent hanswer
    _ ↔ CleanAt i h := by
        refine ⟨fun hclean c' hc' => ?_, fun hclean => hclean c hcall⟩
        rw [hcall] at hc'
        rw [← Option.some.inj hc']
        exact hclean
    _ ↔ StatesMeet step (CleanAt i) (Handler.new catalog sender) as :=
        (statesMeet_iff_last step_clean_back hrun).symm
    _ ↔ StepsMeet step (OffersRefused i) (Handler.new catalog sender) as :=
        statesMeet_iff_stepsMeet (step_noOfferPending i)
          (fun _ _ _ hj hp hs => step_clean_iff hj hp hs)
          (fun c hc => (hnone c hc).elim) (fun c hc => (hnone c hc).elim)

/-! ## §5. The initial offer comes first. -/

/-- SHA-256 of `hello`. -/
def helloID : FileID :=
  ⟨[0x2c, 0xf2, 0x4d, 0xba, 0x5f, 0xb0, 0xa3, 0x0e, 0x26, 0xe8, 0x3b, 0x2a, 0xc5, 0xb9, 0xe2, 0x9e,
    0x1b, 0x16, 0x1e, 0x5c, 0x1f, 0xa7, 0x42, 0x5e, 0x73, 0x04, 0x33, 0x62, 0x93, 0x8b, 0x98, 0x24],
    rfl⟩

/-- Two reads of the file: its five bytes, then the end. -/
def helloReads : Reads := .more ⟨ascii "hello", by decide⟩ (.last ⟨[], by decide⟩ .eof)

/-- A sender whose index holds one file, `hello`. -/
def helloSender : Sender where
  idx := AList.singleton helloID (ascii "/Kin/hello")
  disk := ⟨fun _ => some 5, fun _ => .ok helloReads⟩

/-- `Serve` with an empty catalog, and one request for the file. -/
def helloRun : List Act :=
  [.serve (Bytes.lit32 0xBB), .listOffer 0, .sendOffer 0, .recv 0 Clock.epoch (requestMsg helloID),
    .sendNext 0, .sendNext 0, .sendNext 0]

theorem helloSender_serves : helloSender.Serves helloID (ascii "hello") :=
  ⟨ascii "/Kin/hello", 5, helloReads, by decide, rfl, rfl, rfl, by decide⟩

/-- The run above meets the hypotheses; the offer it sends is accepted. -/
theorem requestFile_served_hello :
    ∃ h c, run step (Handler.new (Store.openFresh (Bytes.lit32 0xAA)) helloSender) helloRun = some h
      ∧ h.calls[0]? = some c ∧ c.received = [requestMsg helloID] ∧ c.pc.rest = []
      ∧ (requestFile (fun _ => helloID) helloID Host.fine (c.sent.map .ok)
            = some (.ok ⟨hexName helloID, ascii "hello"⟩)
          ↔ StepsMeet step (OffersRefused 0)
              (Handler.new (Store.openFresh (Bytes.lit32 0xAA)) helloSender) helloRun) := by
  refine ⟨_, _, rfl, rfl, rfl, rfl, ?_⟩
  refine requestFile_served_iff ?_ helloSender_serves ?_ rfl rfl rfl rfl
  · rfl
  intro a ha
  refine ⟨?_, fun s hs => ?_⟩
  · intro hint
    rw [hint] at ha
    simp [helloRun] at ha
  · rw [hs] at ha
    simp [helloRun] at ha

/-- `RequestFile` reads the initial offer and gives up. -/
theorem requestFile_fails_behind_initial_offer :
    helloSender.Serves helloID (ascii "hello")
    ∧ ∃ h c, run step (Handler.new (Store.openFresh (Bytes.lit32 0xAA)) helloSender) helloRun = some h
      ∧ h.calls[0]? = some c ∧ c.received = [requestMsg helloID] ∧ c.pc.rest = []
      ∧ requestFile (fun _ => helloID) helloID Host.fine (c.sent.map .ok)
          = some (.error
              "receiver: expected FileResponse, got *kinpb.Envelope_CatalogOffer") :=
  ⟨helloSender_serves, _, _, rfl, rfl, rfl, rfl, rfl⟩

end Kin.Protocol
