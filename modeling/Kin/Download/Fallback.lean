/-
  Kin.Download.Fallback

  **OWNER AFTER OWNER.**

  The loop of `Download` goes down the sorted owners until one delivers.  A try
  that fails leaves the files and the index as they were, so the tries do not
  interfere: what the loop does is a matter of which of them fail.

    • `tryOwner_cases` — a try waits, fails or delivers,
    • `tryOwners_cases` — the loop, by the first try that does not fail,
    • `download_fallback` — `Download` on every list of owners.
-/
import Mathlib.Data.List.Perm.Basic
import Kin.Download.Downloader

namespace Kin.Download

open Kin.Lib Kin.Catalog

namespace Downloader

variable (d : Downloader) (fileID : FileID)

/-! ## §1. One try. -/

/-- What dialling an owner and the transfer on that connection come to; `none` while
the transfer is waiting. -/
def outcome (owner : NodeID) (a : Attempt) : Option (Except String Transfer.Saved) :=
  match a.dial owner with
  | .error err => some (.error err)
  | .ok conn => Transfer.requestFile d.hash fileID a.host conn

def Fails (owner : NodeID) (a : Attempt) : Prop :=
  ∃ err, d.outcome fileID owner a = some (.error err)

/-- Where a file that an owner has delivered ends up. -/
def finalPath (owner : NodeID) (a : Attempt) (content : GoString) (fs : Files) : GoString :=
  (d.renameToOriginal (a.getEntry owner fileID) a.rename (d.hashPath fileID)
    (fs.put (d.hashPath fileID) (.file content))).2

/-- **One try** dials the owner; it waits, it fails and changes nothing, or it delivers. -/
theorem tryOwner_cases (owner : NodeID) (a : Attempt) (fs : Files) :
    (d.outcome fileID owner a = none ∧ d.tryOwner fileID owner a fs = ⟨fs, [owner], [], none⟩)
      ∨ (d.Fails fileID owner a
        ∧ ∃ err, d.tryOwner fileID owner a fs = ⟨fs, [owner], [], some (.error err)⟩)
      ∨ ∃ saved fs' indexed, d.outcome fileID owner a = some (.ok saved)
        ∧ d.tryOwner fileID owner a fs
          = ⟨fs', [owner], indexed, some (.ok (d.finalPath fileID owner a saved.content fs))⟩ := by
  unfold Fails outcome tryOwner Attempt.call requestFile
  cases a.dial owner with
  | error err => exact Or.inr (Or.inl ⟨⟨_, rfl⟩, _, rfl⟩)
  | ok conn =>
    dsimp only
    match hreq : Transfer.requestFile d.hash fileID a.host conn with
    | none => exact Or.inl ⟨rfl, rfl⟩
    | some (.error err) => exact Or.inr (Or.inl ⟨⟨_, rfl⟩, _, rfl⟩)
    | some (.ok saved) =>
      have hname := (Transfer.requestFile_eq_ok hreq).1
      unfold finalPath hashPath
      rw [← hname]
      exact Or.inr (Or.inr ⟨saved, _, _, rfl, rfl⟩)

/-! ## §2. The loop. -/

/-- The tries of the owners before the `m`-th fail. -/
def FailsUpTo (env : Nat → Attempt) (k : Nat) (owners : List OwnerHint) (m : Nat) : Prop :=
  ∀ j < m, ∀ o, owners[j]? = some o → d.Fails fileID o.nodeID (env (k + j))

/-- The node ids of the first owners. -/
def firstIDs (owners : List OwnerHint) (m : Nat) : List NodeID :=
  (owners.take m).map OwnerHint.nodeID

variable {d fileID}

theorem FailsUpTo.zero (env : Nat → Attempt) (k : Nat) (owners : List OwnerHint) :
    d.FailsUpTo fileID env k owners 0 :=
  fun j hj => absurd hj (Nat.not_lt_zero j)

theorem FailsUpTo.succ {env : Nat → Attempt} {k m : Nat} {owner : OwnerHint}
    {owners : List OwnerHint} (h : d.Fails fileID owner.nodeID (env k))
    (hrest : d.FailsUpTo fileID env (k + 1) owners m) :
    d.FailsUpTo fileID env k (owner :: owners) (m + 1) := by
  intro j hj o ho
  cases j with
  | zero =>
    rw [← Option.some.inj ho]
    exact h
  | succ j =>
    have hlater := hrest j (Nat.lt_of_succ_lt_succ hj) o ho
    rw [show k + (j + 1) = k + 1 + j by omega]
    exact hlater

/-- The loop has ended without a file. -/
def Exhausted (d : Downloader) (fileID : FileID) (env : Nat → Attempt) (k : Nat)
    (owners : List OwnerHint) (fs : Files) (run : Run) : Prop :=
  d.FailsUpTo fileID env k owners owners.length
    ∧ ∃ err, run = ⟨fs, firstIDs owners owners.length, [], some (.error (.allFailed err))⟩

/-- The loop has stopped at the `m`-th owner, who has delivered. -/
def Delivered (d : Downloader) (fileID : FileID) (env : Nat → Attempt) (k : Nat)
    (owners : List OwnerHint) (fs : Files) (run : Run) : Prop :=
  ∃ m o saved, owners[m]? = some o ∧ d.FailsUpTo fileID env k owners m
    ∧ d.outcome fileID o.nodeID (env (k + m)) = some (.ok saved)
    ∧ run.dialed = firstIDs owners (m + 1)
    ∧ run.result = some (.ok (d.finalPath fileID o.nodeID (env (k + m)) saved.content fs))

/-- The loop is at the `m`-th owner, whose transfer is waiting. -/
def Waiting (d : Downloader) (fileID : FileID) (env : Nat → Attempt) (k : Nat)
    (owners : List OwnerHint) (fs : Files) (run : Run) : Prop :=
  ∃ m o, owners[m]? = some o ∧ d.FailsUpTo fileID env k owners m
    ∧ d.outcome fileID o.nodeID (env (k + m)) = none
    ∧ run = ⟨fs, firstIDs owners (m + 1), [], none⟩

/-- **The loop.** -/
theorem tryOwners_cases (env : Nat → Attempt) (k : Nat) (lastErr : String)
    (owners : List OwnerHint) (fs : Files) :
    Exhausted d fileID env k owners fs (d.tryOwners fileID env k lastErr owners fs)
      ∨ Delivered d fileID env k owners fs (d.tryOwners fileID env k lastErr owners fs)
      ∨ Waiting d fileID env k owners fs (d.tryOwners fileID env k lastErr owners fs) := by
  induction owners generalizing k lastErr with
  | nil => exact Or.inl ⟨FailsUpTo.zero env k [], lastErr, rfl⟩
  | cons owner owners ih =>
    rw [tryOwners]
    rcases tryOwner_cases d fileID owner.nodeID (env k) fs with
      ⟨hout, htry⟩ | ⟨hfails, err, htry⟩ | ⟨saved, fs', indexed, hout, htry⟩
    · rw [htry]
      exact Or.inr (Or.inr ⟨0, owner, rfl, FailsUpTo.zero env k _, hout, rfl⟩)
    · -- on to the next owner, from the same files
      rw [htry]
      dsimp only
      rcases ih (k + 1) err with ⟨hrest, last, hrun⟩ | ⟨m, o, saved, ho, hrest, hout, hids, hres⟩
        | ⟨m, o, ho, hrest, hout, hrun⟩
      · rw [hrun]
        exact Or.inl ⟨FailsUpTo.succ hfails hrest, last, rfl⟩
      · refine Or.inr (Or.inl ⟨m + 1, o, saved, ho, FailsUpTo.succ hfails hrest, ?_⟩)
        rw [show k + (m + 1) = k + 1 + m by omega]
        refine ⟨hout, ?_, hres⟩
        rw [hids]
        rfl
      · rw [hrun]
        refine Or.inr (Or.inr ⟨m + 1, o, ho, FailsUpTo.succ hfails hrest, ?_, rfl⟩)
        rw [show k + (m + 1) = k + 1 + m by omega]
        exact hout
    -- delivered: the loop returns from inside
    · rw [htry]
      exact Or.inr (Or.inl ⟨0, owner, saved, rfl, FailsUpTo.zero env k _, hout, rfl, rfl⟩)

/-- At most one try is the first that does not fail. -/
theorem FailsUpTo.unique {env : Nat → Attempt} {owners : List OwnerHint} {m m' : Nat}
    {o o' : OwnerHint} (h : d.FailsUpTo fileID env 0 owners m) (ho : owners[m]? = some o)
    (hm : ¬ d.Fails fileID o.nodeID (env m)) (h' : d.FailsUpTo fileID env 0 owners m')
    (ho' : owners[m']? = some o') (hm' : ¬ d.Fails fileID o'.nodeID (env m')) : m' = m := by
  rcases Nat.lt_trichotomy m m' with hlt | heq | hgt
  · exact absurd (Nat.zero_add m ▸ h' m hlt o ho) hm
  · exact heq.symm
  · exact absurd (Nat.zero_add m' ▸ h m' hgt o' ho') hm'

theorem not_fails_of_ok {owner : NodeID} {a : Attempt} {saved : Transfer.Saved}
    (h : d.outcome fileID owner a = some (.ok saved)) : ¬ d.Fails fileID owner a := by
  rintro ⟨err, herr⟩
  rw [h] at herr
  cases herr

theorem not_fails_of_none {owner : NodeID} {a : Attempt}
    (h : d.outcome fileID owner a = none) : ¬ d.Fails fileID owner a := by
  rintro ⟨err, herr⟩
  rw [h] at herr
  cases herr

/-! ## §3. `Download`. -/

/-- The owners in the order in which they are tried. -/
def order (d : Downloader) (srt : SortSlice seenAfter) (owners : List OwnerHint) :
    List OwnerHint :=
  srt.sort (filterSelf owners d.selfID)

/-- Owners that are tried: none of them the node itself, the most recently seen
first, and no element of the list twice. -/
structure Contacts (d : Downloader) (owners contacted : List OwnerHint) : Prop where
  not_self : ∀ o ∈ contacted, o.nodeID ≠ d.selfID
  recent_first : contacted.Pairwise (fun a b => b.seenAt.unixNano ≤ a.seenAt.unixNano)
  at_most_once : contacted.Subperm owners

/-- What a run of `Download` on a list of owners is to be like. -/
structure FallsBack (d : Downloader) (fileID : FileID) (env : Nat → Attempt)
    (owners order : List OwnerHint) (fs : Files) (run : Run) : Prop where
  /-- The node ids dialled are those of such owners. -/
  contacts : ∃ contacted, run.dialed = contacted.map OwnerHint.nodeID ∧ d.Contacts owners contacted
  /-- It returns a path exactly if an owner delivers after tries of the ones before
  that have failed, and no owner is dialled after that one. -/
  first_success : ∀ path, run.result = some (.ok path) ↔ ∃ m o saved, order[m]? = some o
    ∧ d.FailsUpTo fileID env 0 order m ∧ d.outcome fileID o.nodeID (env m) = some (.ok saved)
    ∧ run.dialed = firstIDs order (m + 1)
    ∧ path = d.finalPath fileID o.nodeID (env m) saved.content fs
  no_owner : (∃ err, run.result = some (.error err) ∧ err.isNoAvailableOwner = true)
    ↔ (∀ o ∈ owners, o.nodeID = d.selfID) ∨ d.FailsUpTo fileID env 0 order order.length
  /-- After an error nothing is indexed, and no file has been left. -/
  no_trace : ∀ err, run.result = some (.error err) → run.indexed = [] ∧ run.files = fs

theorem mem_filterSelf {owners : List OwnerHint} {selfID : NodeID} {o : OwnerHint} :
    o ∈ filterSelf owners selfID ↔ o ∈ owners ∧ o.nodeID ≠ selfID := by
  unfold filterSelf
  rw [List.mem_filter, decide_eq_true_iff]

theorem filterSelf_eq_nil {owners : List OwnerHint} {selfID : NodeID} :
    filterSelf owners selfID = [] ↔ ∀ o ∈ owners, o.nodeID = selfID := by
  rw [List.eq_nil_iff_forall_not_mem]
  constructor
  · intro h o ho
    by_contra hne
    exact h o (mem_filterSelf.mpr ⟨ho, hne⟩)
  · intro h o ho
    obtain ⟨ho, hne⟩ := mem_filterSelf.mp ho
    exact hne (h o ho)

/-- The first of the sorted owners are such. -/
theorem contacts_order (srt : SortSlice seenAfter) (owners : List OwnerHint) (m : Nat) :
    d.Contacts owners ((d.order srt owners).take m) := by
  have hperm := srt.perm (filterSelf owners d.selfID)
  refine ⟨fun o ho => ?_, ?_, ?_⟩
  · exact (mem_filterSelf.mp (hperm.mem_iff.mp (List.mem_of_mem_take ho))).2
  · refine ((srt.sorted (filterSelf owners d.selfID)).sublist (List.take_sublist _ _)).imp ?_
    intro a b hab
    exact Int.not_lt.mp (of_decide_eq_false hab)
  · have hsub : (filterSelf owners d.selfID).Subperm owners :=
      List.filter_sublist.subperm
    exact (List.take_sublist m _).subperm.trans (hperm.subperm.trans hsub)

variable {srt : SortSlice seenAfter} {owners : List OwnerHint} {env : Nat → Attempt} {fs : Files}
  {run : Run}

theorem Exhausted.fallsBack (h : Exhausted d fileID env 0 (d.order srt owners) fs run) :
    FallsBack d fileID env owners (d.order srt owners) fs run := by
  obtain ⟨hfail, err, rfl⟩ := h
  refine ⟨⟨_, rfl, contacts_order srt owners _⟩, fun path => ?_, ?_, fun _ _ => ⟨rfl, rfl⟩⟩
  · constructor
    · intro h
      cases h
    · rintro ⟨m, o, saved, ho, -, hout, -⟩
      have hlt := (List.getElem?_eq_some_iff.mp ho).1
      exact absurd (Nat.zero_add m ▸ hfail m hlt o ho) (not_fails_of_ok hout)
  · exact ⟨fun _ => Or.inr hfail, fun _ => ⟨_, rfl, rfl⟩⟩

/-- A try that does not fail, of an owner there is. -/
theorem not_no_owner {m : Nat} {o : OwnerHint} (ho : (d.order srt owners)[m]? = some o)
    (hgood : ¬ d.Fails fileID o.nodeID (env m)) :
    ¬ ((∀ o ∈ owners, o.nodeID = d.selfID)
      ∨ d.FailsUpTo fileID env 0 (d.order srt owners) (d.order srt owners).length) := by
  rintro (hall | hall)
  · have hmem := (srt.perm (filterSelf owners d.selfID)).mem_iff.mp (List.mem_of_getElem? ho)
    obtain ⟨hmem, hne⟩ := mem_filterSelf.mp hmem
    exact hne (hall o hmem)
  · exact hgood (Nat.zero_add m ▸ hall m (List.getElem?_eq_some_iff.mp ho).1 o ho)

theorem Delivered.fallsBack (h : Delivered d fileID env 0 (d.order srt owners) fs run) :
    FallsBack d fileID env owners (d.order srt owners) fs run := by
  obtain ⟨m, o, saved, ho, hfail, hout, hids, hres⟩ := h
  rw [Nat.zero_add] at hout hres
  have hnotErr : ∀ err, run.result ≠ some (.error err) := by
    intro err herr
    rw [hres] at herr
    cases herr
  refine ⟨⟨_, hids, contacts_order srt owners (m + 1)⟩, fun path => ?_, ?_,
    fun err herr => absurd herr (hnotErr err)⟩
  · rw [hres]
    constructor
    · intro h
      cases h
      exact ⟨m, o, saved, ho, hfail, hout, hids, rfl⟩
    -- another first success would be the same try
    · rintro ⟨m', o', saved', ho', hfail', hout', -, rfl⟩
      obtain rfl := hfail.unique ho (not_fails_of_ok hout) hfail' ho' (not_fails_of_ok hout')
      rw [ho] at ho'
      cases ho'
      rw [hout] at hout'
      cases hout'
      rfl
  · constructor
    · rintro ⟨err, herr, -⟩
      exact absurd herr (hnotErr err)
    · intro hall
      exact absurd hall (not_no_owner ho (not_fails_of_ok hout))

theorem Waiting.fallsBack (h : Waiting d fileID env 0 (d.order srt owners) fs run) :
    FallsBack d fileID env owners (d.order srt owners) fs run := by
  obtain ⟨m, o, ho, hfail, hout, rfl⟩ := h
  rw [Nat.zero_add] at hout
  refine ⟨⟨_, rfl, contacts_order srt owners (m + 1)⟩, fun path => ?_, ?_,
    fun err herr => nomatch herr⟩
  · constructor
    · intro h
      cases h
    · rintro ⟨m', o', saved, ho', hfail', hout', -⟩
      obtain rfl := hfail.unique ho (not_fails_of_none hout) hfail' ho' (not_fails_of_ok hout')
      rw [ho] at ho'
      cases ho'
      rw [hout] at hout'
      cases hout'
  · constructor
    · rintro ⟨err, herr, -⟩
      cases herr
    · intro hall
      exact absurd hall (not_no_owner ho (not_fails_of_none hout))

/-- Nobody but the node itself has the file. -/
theorem fallsBack_no_owner (hnone : filterSelf owners d.selfID = []) :
    FallsBack d fileID env owners (d.order srt owners) fs
      ⟨fs, [], [], some (.error .noAvailableOwner)⟩ := by
  have hempty : d.order srt owners = [] := by
    have hperm := srt.perm (filterSelf owners d.selfID)
    rw [hnone] at hperm
    exact hnone ▸ hperm.eq_nil
  refine ⟨⟨[], rfl, contacts_order srt owners 0⟩, fun path => ?_, ?_, fun err _ => ⟨rfl, rfl⟩⟩
  · constructor
    · intro h
      cases h
    · rintro ⟨m, o, -, ho, -⟩
      rw [hempty] at ho
      cases ho
  · exact ⟨fun _ => Or.inl (filterSelf_eq_nil.mp hnone), fun _ => ⟨_, rfl, rfl⟩⟩

/-- **`Download` goes down the owners**, for every list of owners, every order
that sorting can give it, and every outcome of every try. -/
theorem download_fallback (d : Downloader) (fileID : FileID) (srt : SortSlice seenAfter)
    (owners : List OwnerHint) (env : Nat → Attempt) (fs : Files) :
    FallsBack d fileID env owners (d.order srt owners) fs
      (d.download srt (.ok owners) fileID env fs) := by
  unfold download
  dsimp only
  by_cases hnone : filterSelf owners d.selfID = []
  · rw [if_pos hnone]
    exact fallsBack_no_owner hnone
  · rw [if_neg hnone]
    rcases tryOwners_cases env 0 "<nil>" (d.order srt owners) fs with
      h | h | h
    · exact h.fallsBack
    · exact h.fallsBack
    · exact h.fallsBack

end Downloader

end Kin.Download
