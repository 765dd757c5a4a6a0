/-
  Kin.Network.Provenance

  **DOES A RECORDED OWNER REALLY HAVE THE FILE?**

  `OwnerHint` promises "a specific peer has a copy of a file", `GetOwners`
  "the peers who have a given file".  But an offer carries third parties'
  entries as well as the sender's own, and the receiver files them all under
  the SENDER: a node that merely knows of a file becomes its owner one hop on.

  `step_provenance_iff`  — the one step that can break provenance is the
      application of an offer that lists a file its sender never held,
  `provenance_along_run_iff` — a run keeps provenance throughout exactly if it
      applies no such offer.
-/
import Kin.Network.Model

namespace Kin.Network

open Kin.Lib Kin.Catalog Kin.Protocol

/-! ## §1. The property and the condition. -/

/-- **Provenance**: whoever a catalog names as an owner of a file, by a live
entry or in the owner list, has itself held the file as a local entry. -/
def Provenance (net : Net) : Prop :=
  ∀ (m n : NodeID) (f : FileID),
    ((∃ e ∈ (net.store m).listAll, e.ownerNodeID = n ∧ e.fileID = f)
      ∨ ∃ h ∈ (net.store m).getOwners f, h.nodeID = n) →
        (n, f) ∈ net.held

/-- An offer that is applied lists only files its sender has held. -/
def AppliesHeldFiles (net : Net) : Act → Prop
  | .deliver i _ => ∀ o, net.flight[i]? = some o → ∀ f, o.lists f → (o.src, f) ∈ net.held
  | _ => True

/-! ## §2. In terms of the views. -/

theorem provenance_iff {net : Net} (h : net.WF) :
    Provenance net ↔ ∀ m n f, names (net.store m).db n f → (n, f) ∈ net.held := by
  refine forall_congr' fun m => forall_congr' fun n => forall_congr' fun f => imp_congr_left ?_
  unfold names
  rw [Store.mem_owners_iff]
  refine or_congr_left ⟨fun ⟨e, he, hn, hf⟩ => ?_, fun ⟨e, he, hlive⟩ => ?_⟩
  · obtain ⟨hget, hlive⟩ := (Store.mem_listAll (h.store m)).mp he
    rw [hn, hf] at hget
    exact ⟨e, hget, hlive⟩
  · obtain ⟨hn, hf⟩ := (h.store m).entry_ids he
    refine ⟨e, (Store.mem_listAll (h.store m)).mpr ⟨?_, hlive⟩, hn, hf⟩
    rw [hn, hf]
    exact he

/-! ## §3. One step, every run. -/

theorem mem_held_remember {net : Net} {n : NodeID} {f : FileID} {err : Option String}
    {x : NodeID × FileID} (hx : x ∈ net.held) : x ∈ (net.remember n f err).held := by
  cases err with
  | none => exact List.mem_cons_of_mem _ hx
  | some _ => exact hx

/-- **One step**: from a network with provenance, exactly the steps that meet
`AppliesHeldFiles` end in one. -/
theorem step_provenance_iff {net net' : Net} {a : Act} (h : net.WF) (hp : Provenance net)
    (hs : step net a = some net') : Provenance net' ↔ AppliesHeldFiles net a := by
  have hwf' := step_wf net a net' h hs
  rw [provenance_iff h] at hp
  rw [provenance_iff hwf']
  rcases step_cases hs with ⟨n, clk, e, rfl, rfl⟩ | ⟨n, clk, f, rfl, rfl⟩ | ⟨src, dst, rfl, rfl⟩
    | ⟨i, clk, o, rfl, ho, rfl⟩
  · -- a local add names the node itself, which enters the history with it
    refine iff_of_true (fun m n' f hn => ?_) trivial
    rw [remember_store] at hn
    by_cases hm : m = n
    · rw [hm, Net.setStore_self] at hn
      rcases names_putLocal (h.store n) clk e hn with hold | ⟨hok, hself, hf⟩
      · exact mem_held_remember (hp n n' f hold)
      · rw [hok, hself, hf, h.selfID n]
        exact List.mem_cons_self
    · rw [Net.setStore_of_ne _ hm] at hn
      exact mem_held_remember (hp m n' f hn)
  · refine iff_of_true (fun m n' g hn => ?_) trivial
    by_cases hm : m = n
    · rw [hm, Net.setStore_self] at hn
      exact hp n n' g (names_deleteLocal (h.store n) clk f hn)
    · rw [Net.setStore_of_ne _ hm] at hn
      exact hp m n' g hn
  · exact iff_of_true hp trivial
  · have hgen : o.Genuine := h.flight o (List.mem_of_getElem? ho)
    refine ⟨fun hp' o' ho' f hl => ?_, fun hc m n f hn => ?_⟩
    · -- the destination names the sender for every file listed
      rw [ho] at ho'
      rw [← Option.some.inj ho'] at hl ⊢
      exact hp' o.dst o.src f ((names_receive h hgen clk o.src f).2 hl)
    · by_cases hm : m = o.dst
      · rw [hm] at hn
        rcases (names_receive h hgen clk n f).1 hn with hold | ⟨hsrc, hl⟩
        · exact hp o.dst n f hold
        · rw [hsrc]
          exact hc o ho f hl
      · have hstore : (net.receive clk o).store m = net.store m := by
          rw [receive_eq, Net.setStore_of_ne _ hm]
        exact hp m n f (by rw [← hstore]; exact hn)

theorem provenance_init : Provenance Net.init := by
  rw [provenance_iff Net.wf_init]
  intro m n f hn
  rcases hn with ⟨e, he, _⟩ | ho
  · cases he
  · cases ho

/-- **EVERY RUN.**  Whatever the nodes add, delete, send and apply, and in
whatever order: provenance holds in every state the run goes through if and
only if no offer it applies lists a file that its sender has not held as a
local entry by then. -/
theorem provenance_along_run_iff (as : List Act) :
    StatesMeet step Provenance Net.init as ↔ StepsMeet step AppliesHeldFiles Net.init as :=
  statesMeet_iff_stepsMeet step_wf (fun _ _ _ h hp hs => step_provenance_iff h hp hs)
    Net.wf_init provenance_init

/-! ## §4. Three nodes in a row. -/

/-- `0xAA` shares a file with `0xBB`, and `0xBB` sends its catalog to `0xCC`. -/
def relayRun : List Act :=
  [.putLocal (Bytes.lit32 0xAA) Clock.epoch sharedFile,
    .send (Bytes.lit32 0xAA) (Bytes.lit32 0xBB), .deliver 0 Clock.epoch,
    .send (Bytes.lit32 0xBB) (Bytes.lit32 0xCC), .deliver 0 Clock.epoch]

/-- `0xCC` now takes `0xBB` for an owner of a file that `0xBB` never had. -/
theorem relayed_file_gets_wrong_owner : ¬ StatesMeet step Provenance Net.init relayRun := by
  intro h
  have hend : ∃ net, run step Net.init relayRun = some net
      ∧ (∃ x ∈ (net.store (Bytes.lit32 0xCC)).getOwners (Bytes.lit32 1),
          x.nodeID = Bytes.lit32 0xBB)
      ∧ (Bytes.lit32 0xBB, Bytes.lit32 1) ∉ net.held := ⟨_, rfl, by decide +kernel, by decide +kernel⟩
  obtain ⟨net, hrun, hown, hheld⟩ := hend
  exact hheld (h.last hrun (Bytes.lit32 0xCC) (Bytes.lit32 0xBB) (Bytes.lit32 1) (Or.inr hown))

end Kin.Network
