/-
  Kin.Lib.Mirror

  **RECORDS BY CONTENT THAT FOLLOW A DIRECTORY BY PATH.**

  A directory holds a content at each path; every change to it leaves a notice
  in a queue.  A mirror keeps ONE path for each content and works the queue off
  in order: at `changed p` it records the content it finds at `p`, at `gone p` it
  forgets one content that is recorded at `p`.

  Two properties, each with the exact condition under which a step keeps it:

    • `Truthful` — a record whose path has no notice outstanding is right;
      `truthful_step_iff`,
    • `Covered`  — every content of the directory is recorded or about to be;
      `covered_step_iff`.

  Both rest on `InOrder`: the last notice about a path says whether it is there.
-/
import Mathlib.Data.List.Basic
import Mathlib.Logic.Function.Basic

namespace Kin.Lib

variable {P H : Type*}

/-! ## §1. Notices. -/

/-- What a notice asks for. -/
inductive Notice (P : Type*) where
  | changed (p : P)
  | gone (p : P)
  deriving DecidableEq

def Notice.path : Notice P → P
  | .changed p => p
  | .gone p => p

@[simp] theorem Notice.path_changed (p : P) : (Notice.changed p).path = p := rfl

@[simp] theorem Notice.path_gone (p : P) : (Notice.gone p).path = p := rfl

/-- The queue names the path. -/
def Pending (queue : List (Notice P)) (p : P) : Prop := ∃ n ∈ queue, n.path = p

theorem pending_cons {n : Notice P} {queue : List (Notice P)} {p : P} :
    Pending (n :: queue) p ↔ n.path = p ∨ Pending queue p := by
  unfold Pending
  simp only [List.exists_mem_cons_iff]

theorem pending_concat {n : Notice P} {queue : List (Notice P)} {p : P} :
    Pending (queue ++ [n]) p ↔ Pending queue p ∨ n.path = p := by
  unfold Pending
  simp only [List.mem_append, List.mem_singleton, or_and_right, exists_or, exists_eq_left]

/-- A path that is named is named for the last time somewhere. -/
theorem Pending.last {queue : List (Notice P)} {p : P} (h : Pending queue p) :
    ∃ before n after, queue = before ++ n :: after ∧ n.path = p ∧ ¬ Pending after p := by
  induction queue with
  | nil =>
    obtain ⟨n, hn, _⟩ := h
    cases hn
  | cons n queue ih =>
    by_cases hrest : Pending queue p
    · obtain ⟨before, n', after, heq, hpath, hlast⟩ := ih hrest
      refine ⟨n :: before, n', after, ?_, hpath, hlast⟩
      rw [heq, List.cons_append]
    · exact ⟨[], n, queue, rfl, (pending_cons.mp h).resolve_right hrest, hrest⟩

/-- A split of a longer queue ends at the new notice or is one of the old queue. -/
theorem concat_eq_split {queue before after : List (Notice P)} {n n' : Notice P}
    (h : queue ++ [n] = before ++ n' :: after) :
    (after = [] ∧ n' = n) ∨ ∃ after', after = after' ++ [n] ∧ queue = before ++ n' :: after' := by
  rcases List.eq_nil_or_concat after with rfl | ⟨after', x, rfl⟩
  · obtain ⟨_, hn⟩ := List.append_inj' h rfl
    injection hn with hn
    exact Or.inl ⟨rfl, hn.symm⟩
  · rw [List.concat_eq_append, ← List.cons_append, ← List.append_assoc] at h
    obtain ⟨hqueue, hx⟩ := List.append_inj' h rfl
    injection hx with hx
    rw [List.concat_eq_append, ← hx]
    exact Or.inr ⟨after', rfl, hqueue⟩

/-! ## §2. The mirror. -/

/-- A directory, the notices about it, and the records. -/
@[ext] structure Mirror (P H : Type*) where
  disk : P → Option H
  queue : List (Notice P)
  record : H → Option P

/-- What can happen. -/
inductive Change (P H : Type*) where
  /-- A content is written to a path, new or not. -/
  | put (p : P) (h : H)
  | drop (p : P)
  /-- A path takes another's place. -/
  | move (p q : P)
  /-- The next notice is handled. -/
  | handle

namespace Mirror

variable [DecidableEq P] [DecidableEq H]

/-- One step.  A lossy mirror may pass a path over although it is there. -/
inductive Step (lossy : Prop) : Mirror P H → Change P H → Mirror P H → Prop
  | put (m : Mirror P H) (p : P) (h : H) :
      Step lossy m (.put p h)
        { m with disk := Function.update m.disk p (some h), queue := m.queue ++ [.changed p] }
  | drop (m : Mirror P H) (p : P) :
      Step lossy m (.drop p)
        { m with disk := Function.update m.disk p none, queue := m.queue ++ [.gone p] }
  | move (m : Mirror P H) {p q : P} {h : H} (hp : m.disk p = some h) (hpq : p ≠ q) :
      Step lossy m (.move p q)
        { m with
          disk := Function.update (Function.update m.disk p none) q (some h)
          queue := m.queue ++ [.gone p] ++ [.changed q] }
  | record (m : Mirror P H) {p : P} {rest : List (Notice P)} {h : H}
      (hq : m.queue = .changed p :: rest) (hp : m.disk p = some h) :
      Step lossy m .handle
        { m with queue := rest, record := Function.update m.record h (some p) }
  | pass (m : Mirror P H) {p : P} {rest : List (Notice P)}
      (hq : m.queue = .changed p :: rest) (hp : m.disk p = none ∨ lossy) :
      Step lossy m .handle { m with queue := rest }
  | forget (m : Mirror P H) {p : P} {rest : List (Notice P)} {h : H}
      (hq : m.queue = .gone p :: rest) (hp : m.record h = some p) :
      Step lossy m .handle { m with queue := rest, record := Function.update m.record h none }
  | absent (m : Mirror P H) {p : P} {rest : List (Notice P)}
      (hq : m.queue = .gone p :: rest) (hp : ∀ h, m.record h ≠ some p) :
      Step lossy m .handle { m with queue := rest }

/-- The last notice about a path says whether the path is there. -/
def InOrder (m : Mirror P H) : Prop :=
  ∀ before n after, m.queue = before ++ n :: after → ¬ Pending after n.path →
    (n = .changed n.path ↔ m.disk n.path ≠ none)

omit [DecidableEq P] [DecidableEq H] in
/-- A notice less at the front. -/
theorem InOrder.tail {m : Mirror P H} (hm : m.InOrder) {n : Notice P} {rest : List (Notice P)}
    (hq : m.queue = n :: rest) (record : H → Option P) : InOrder ⟨m.disk, rest, record⟩ := by
  intro before n' after heq hlast
  refine hm (n :: before) n' after ?_ hlast
  rw [hq, List.cons_append]
  exact congrArg _ heq

omit [DecidableEq P] [DecidableEq H] in
/-- A change that announces itself at the back. -/
theorem InOrder.concat {m : Mirror P H} (hm : m.InOrder) {n : Notice P} {disk : P → Option H}
    (hn : n = .changed n.path ↔ disk n.path ≠ none) (hother : ∀ p, p ≠ n.path → disk p = m.disk p) :
    InOrder ⟨disk, m.queue ++ [n], m.record⟩ := by
  intro before n' after heq hlast
  rcases concat_eq_split heq with ⟨_, rfl⟩ | ⟨after', rfl, hqueue⟩
  · exact hn
  · rw [pending_concat, not_or] at hlast
    show n' = .changed n'.path ↔ disk n'.path ≠ none
    rw [hother n'.path (fun heq => hlast.2 heq.symm)]
    exact hm before n' after' hqueue hlast.1

omit [DecidableEq H] in
/-- A path gets a content and a `changed`, or loses it and gets a `gone`. -/
theorem InOrder.announce {m : Mirror P H} (hm : m.InOrder) (n : Notice P) {x : Option H}
    (hn : n = .changed n.path ↔ x ≠ none) :
    InOrder ⟨Function.update m.disk n.path x, m.queue ++ [n], m.record⟩ := by
  refine hm.concat ?_ (fun r hr => Function.update_of_ne hr _ _)
  rw [Function.update_self]
  exact hn

/-- **Notices stay in order.** -/
theorem inOrder_step {lossy : Prop} {m m' : Mirror P H} {a : Change P H} (hm : m.InOrder)
    (hs : Step lossy m a m') : m'.InOrder := by
  cases hs with
  | put p h => exact hm.announce (.changed p) (by simp)
  | drop p => exact hm.announce (.gone p) (by simp)
  | move hp _ => exact (hm.announce (.gone _) (by simp)).announce (.changed _) (by simp)
  | record hq hp => exact hm.tail hq _
  | pass hq hp => exact hm.tail hq _
  | forget hq hp => exact hm.tail hq _
  | absent hq hp => exact hm.tail hq _

/-! ## §3. True records. -/

/-- A record whose path has no notice outstanding is right. -/
def Truthful (m : Mirror P H) : Prop :=
  ∀ h p, m.record h = some p → ¬ Pending m.queue p → m.disk p = some h

/-- The last notice about a path finds the path recorded for no content but the
one that is there (`changed`), or for one content at most (`gone`). -/
def Untangled (m : Mirror P H) : Change P H → Prop
  | .handle =>
    match m.queue with
    | [] => True
    | .changed p :: rest => Pending rest p ∨ ∀ h, m.record h = some p → m.disk p = some h
    | .gone p :: rest =>
      Pending rest p ∨ ∀ h h', m.record h = some p → m.record h' = some p → h = h'
  | _ => True

omit [DecidableEq H] in
/-- Changes of the directory are announced, so they make no record false. -/
theorem Truthful.announce {m : Mirror P H} (hm : m.Truthful) (n : Notice P) (x : Option H) :
    Truthful ⟨Function.update m.disk n.path x, m.queue ++ [n], m.record⟩ := by
  intro h p hp hout
  rw [pending_concat, not_or] at hout
  show Function.update m.disk n.path x p = some h
  rw [Function.update_of_ne (fun heq => hout.2 heq.symm)]
  exact hm h p hp hout.1

omit [DecidableEq P] [DecidableEq H] in
/-- Handling a notice, with no new record of another path, leaves its own path
to be looked at. -/
theorem Truthful.tail_iff {m : Mirror P H} (hm : m.Truthful) {n : Notice P}
    {rest : List (Notice P)} (hq : m.queue = n :: rest) {record : H → Option P}
    (hold : ∀ h p, n.path ≠ p → record h = some p → m.record h = some p) :
    Truthful ⟨m.disk, rest, record⟩
      ↔ Pending rest n.path ∨ ∀ h, record h = some n.path → m.disk n.path = some h := by
  constructor
  · intro ht
    by_cases hout : Pending rest n.path
    · exact Or.inl hout
    · exact Or.inr fun h hh => ht h n.path hh hout
  · intro hc h p hp hout
    by_cases hpath : n.path = p
    · subst hpath
      exact hc.resolve_left hout h hp
    · refine hm h p (hold h p hpath hp) ?_
      rw [hq, pending_cons, not_or]
      exact ⟨hpath, hout⟩

/-- **A step keeps the records true exactly if it is untangled.** -/
theorem truthful_step_iff {lossy : Prop} {m m' : Mirror P H} {a : Change P H} (hord : m.InOrder)
    (hm : m.Truthful) (hs : Step lossy m a m') : m'.Truthful ↔ m.Untangled a := by
  cases hs with
  | put p h => exact iff_of_true (hm.announce (.changed p) _) trivial
  | drop p => exact iff_of_true (hm.announce (.gone p) _) trivial
  | move hp _ => exact iff_of_true ((hm.announce (.gone _) _).announce (.changed _) _) trivial
  | @record p rest h hq hp =>
    unfold Untangled
    rw [hq, hm.tail_iff hq]
    · -- the new record is right, the others are the old ones
      refine or_congr_right (forall_congr' fun h' => ?_)
      by_cases heq : h' = h
      · subst heq
        exact iff_of_true (fun _ => hp) (fun _ => hp)
      · rw [Function.update_of_ne heq]
        exact Iff.rfl
    · intro h' p' hne hp'
      by_cases heq : h' = h
      · rw [heq, Function.update_self] at hp'
        exact absurd (Option.some.inj hp') hne
      · rwa [Function.update_of_ne heq] at hp'
  | @pass p rest hq hp =>
    unfold Untangled
    rw [hq, hm.tail_iff hq (fun _ _ _ h => h)]
    exact Iff.rfl
  | @forget p rest h hq hp =>
    unfold Untangled
    rw [hq, hm.tail_iff hq]
    · show _ ∨ (∀ h', Function.update m.record h none h' = some p → m.disk p = some h') ↔ _
      by_cases hout : Pending rest p
      · exact iff_of_true (Or.inl hout) (Or.inl hout)
      refine or_congr_right ⟨fun hc => ?_, fun hc h' hh' => ?_⟩
      · -- the path is gone, so no record of it may be left
        have hgone : m.disk p = none := by
          by_contra hne
          cases (hord [] (.gone p) rest hq hout).mpr hne
        have honly : ∀ h', m.record h' = some p → h' = h := by
          intro h' hh'
          by_contra hne
          have hdisk := hc h' ((Function.update_of_ne hne _ _).trans hh')
          rw [hgone] at hdisk
          cases hdisk
        exact fun h₁ h₂ hh₁ hh₂ => (honly h₁ hh₁).trans (honly h₂ hh₂).symm
      · by_cases heq : h' = h
        · rw [heq, Function.update_self] at hh'
          cases hh'
        · rw [Function.update_of_ne heq] at hh'
          exact absurd (hc h' h hh' hp) heq
    · intro h' p' _ hp'
      by_cases heq : h' = h
      · rw [heq, Function.update_self] at hp'
        cases hp'
      · rwa [Function.update_of_ne heq] at hp'
  | @absent p rest hq hp =>
    unfold Untangled
    rw [hq, hm.tail_iff hq (fun _ _ _ h => h)]
    exact iff_of_true (Or.inr fun h' hh' => absurd hh' (hp h'))
      (Or.inr fun h' _ hh' => absurd hh' (hp h'))

/-! ## §4. Covered contents. -/

/-- The content at `q` will be recorded, or is recorded there to stay. -/
def Covers (m : Mirror P H) (h : H) (q : P) : Prop :=
  m.disk q = some h
    ∧ (.changed q ∈ m.queue ∨ (m.record h = some q ∧ Notice.gone q ∉ m.queue))

/-- Every content of the directory is covered. -/
def Covered (m : Mirror P H) : Prop := ∀ p h, m.disk p = some h → ∃ q, m.Covers h q

/-- When a content goes from `p` and a copy stays elsewhere, a copy elsewhere
covers it. -/
def SparesAt (m : Mirror P H) (p : P) (h : H) : Prop :=
  (∃ r, r ≠ p ∧ m.disk r = some h) → ∃ q, q ≠ p ∧ m.Covers h q

/-- A change takes no content away that is covered by what it takes away only. -/
def Spares (m : Mirror P H) : Change P H → Prop
  | .put p h => ∀ h', m.disk p = some h' → h' ≠ h → m.SparesAt p h'
  | .drop p => ∀ h', m.disk p = some h' → m.SparesAt p h'
  | .move p q => ∀ h', m.disk q = some h' → m.disk p ≠ some h' → m.SparesAt q h'
  | .handle => True

omit [DecidableEq H] in
/-- What happens at a path leaves the covers at other paths as they are. -/
theorem covers_announce_iff {m : Mirror P H} {n : Notice P} {x : Option H} {q : P} {h : H}
    (hq : q ≠ n.path) :
    Covers ⟨Function.update m.disk n.path x, m.queue ++ [n], m.record⟩ h q ↔ m.Covers h q := by
  have hchanged : Notice.changed q ≠ n := fun heq => hq (by rw [← heq]; rfl)
  have hgone : Notice.gone q ≠ n := fun heq => hq (by rw [← heq]; rfl)
  unfold Covers
  simp only [Function.update_of_ne hq, List.mem_append, List.mem_singleton, hchanged, hgone,
    or_false]

omit [DecidableEq H] in
/-- A content that comes will be recorded; only what lay at the path is taken
away. -/
theorem covered_announce_iff {m : Mirror P H} (hm : m.Covered) {n : Notice P} {x : Option H}
    (hn : x ≠ none → n = .changed n.path) :
    Covered ⟨Function.update m.disk n.path x, m.queue ++ [n], m.record⟩
      ↔ ∀ h, m.disk n.path = some h → x ≠ some h → m.SparesAt n.path h := by
  -- a content other than the new one does not lie at the path
  have hstays : ∀ {r : P} {h : H}, x ≠ some h → Function.update m.disk n.path x r = some h →
      r ≠ n.path := by
    intro r h hne hr heq
    rw [heq, Function.update_self] at hr
    exact hne hr
  constructor
  · intro hc h hp hne hcopy
    obtain ⟨r, hr, hrh⟩ := hcopy
    obtain ⟨q, hq⟩ := hc r h ((Function.update_of_ne hr _ _).trans hrh)
    exact ⟨q, hstays hne hq.1, (covers_announce_iff (hstays hne hq.1)).mp hq⟩
  · intro hc r h hr
    change Function.update m.disk n.path x r = some h at hr
    by_cases hx : x = some h
    · have hnew : n = .changed n.path := hn (by rw [hx]; simp)
      refine ⟨n.path, (Function.update_self ..).trans hx, Or.inl (List.mem_append_right _ ?_)⟩
      exact List.mem_singleton.mpr hnew.symm
    · have hrp := hstays hx hr
      rw [Function.update_of_ne hrp] at hr
      obtain ⟨q, hq⟩ := hm r h hr
      by_cases hqp : q = n.path
      · obtain ⟨q', hne', hq'⟩ := hc h (hqp ▸ hq.1) hx ⟨r, hrp, hr⟩
        exact ⟨q', (covers_announce_iff hne').mpr hq'⟩
      · exact ⟨q, (covers_announce_iff hqp).mpr hq⟩

/-- Only what lay at the new path is taken away. -/
theorem covered_move_iff {m : Mirror P H} (hm : m.Covered) {p q : P} {h : H}
    (hp : m.disk p = some h) :
    Covered ⟨Function.update (Function.update m.disk p none) q (some h),
        m.queue ++ [.gone p] ++ [.changed q], m.record⟩
      ↔ ∀ h', m.disk q = some h' → m.disk p ≠ some h' → m.SparesAt q h' := by
  have hcovers : ∀ {r : P} {h' : H}, r ≠ p → r ≠ q →
      (Covers ⟨Function.update (Function.update m.disk p none) q (some h),
        m.queue ++ [.gone p] ++ [.changed q], m.record⟩ h' r ↔ m.Covers h' r) := by
    intro r h' hrp hrq
    have hgone := covers_announce_iff (m := m) (n := .gone p) (x := none) (h := h') hrp
    exact (covers_announce_iff (n := .changed q) (x := some h) hrq).trans hgone
  have hstays : ∀ {r : P} {h' : H}, h' ≠ h →
      Function.update (Function.update m.disk p none) q (some h) r = some h' →
        r ≠ p ∧ r ≠ q ∧ m.disk r = some h' := by
    intro r h' hne hr
    have hrq : r ≠ q := by
      intro heq
      rw [heq, Function.update_self] at hr
      exact hne (Option.some.inj hr).symm
    rw [Function.update_of_ne hrq] at hr
    have hrp : r ≠ p := by
      intro heq
      rw [heq, Function.update_self] at hr
      cases hr
    rw [Function.update_of_ne hrp] at hr
    exact ⟨hrp, hrq, hr⟩
  constructor
  · intro hc h' hqh hne hcopy
    obtain ⟨r, hrq, hrh⟩ := hcopy
    have hne' : h' ≠ h := by
      intro heq
      exact hne (by rw [heq]; exact hp)
    have hrp : r ≠ p := by
      intro heq
      rw [heq] at hrh
      exact hne hrh
    have hrm : Function.update (Function.update m.disk p none) q (some h) r = some h' := by
      rw [Function.update_of_ne hrq, Function.update_of_ne hrp]
      exact hrh
    obtain ⟨q', hq'⟩ := hc r h' hrm
    obtain ⟨hp', hqq', _⟩ := hstays hne' hq'.1
    exact ⟨q', hqq', (hcovers hp' hqq').mp hq'⟩
  · intro hc r h' hr
    by_cases hh : h' = h
    · rw [hh]
      exact ⟨q, Function.update_self .., Or.inl (List.mem_append_right _ (List.mem_singleton.mpr rfl))⟩
    · obtain ⟨hrp, hrq, hrm⟩ := hstays hh hr
      obtain ⟨q', hq'⟩ := hm r h' hrm
      have hqp : q' ≠ p := by
        intro heq
        rw [heq] at hq'
        exact hh (Option.some.inj (hq'.1.symm.trans hp))
      by_cases hqq : q' = q
      · subst hqq
        obtain ⟨q'', hne'', hq''⟩ := hc h' hq'.1 (fun hph => hh (Option.some.inj (hph.symm.trans hp)))
          ⟨r, hrq, hrm⟩
        have hqp'' : q'' ≠ p := by
          intro heq
          rw [heq] at hq''
          exact hh (Option.some.inj (hq''.1.symm.trans hp))
        exact ⟨q'', (hcovers hqp'' hne'').mpr hq''⟩
      · exact ⟨q', (hcovers hqp hqq).mpr hq'⟩

omit [DecidableEq P] [DecidableEq H] in
/-- Handling a notice leaves a cover alone whose notice it is not. -/
theorem Covers.tail {m : Mirror P H} {h : H} {q : P} (hc : m.Covers h q) {n : Notice P}
    {rest : List (Notice P)} (hq : m.queue = n :: rest) (hn : n ≠ .changed q)
    {record : H → Option P} (hrec : Notice.gone q ∉ m.queue → m.record h = some q → record h = some q) :
    Covers ⟨m.disk, rest, record⟩ h q := by
  refine ⟨hc.1, ?_⟩
  rcases hc.2 with hin | ⟨hr, hout⟩
  · rw [hq] at hin
    exact Or.inl ((List.mem_cons.mp hin).resolve_left (fun heq => hn heq.symm))
  · refine Or.inr ⟨hrec hout hr, fun hin => hout ?_⟩
    rw [hq]
    exact List.mem_cons_of_mem _ hin

/-- A content just recorded is recorded to stay, or its path has another notice. -/
theorem covers_recorded {m : Mirror P H} (hord : m.InOrder) {p : P} {rest : List (Notice P)} {h : H}
    (hq : m.queue = .changed p :: rest) (hp : m.disk p = some h) :
    Covers ⟨m.disk, rest, Function.update m.record h (some p)⟩ h p := by
  refine ⟨hp, ?_⟩
  by_cases hgone : Notice.gone p ∈ rest
  · -- the path is there, so its last notice is not the one that it is gone
    obtain ⟨before, n, after, heq, hpath, hlast⟩ := Pending.last ⟨_, hgone, Notice.path_gone p⟩
    have htail := (hord.tail hq m.record) before n after heq (by rw [hpath]; exact hlast)
    rw [hpath] at htail
    have hn : n = .changed p := htail.mpr (by show m.disk p ≠ none; rw [hp]; simp)
    refine Or.inl ?_
    show Notice.changed p ∈ rest
    rw [heq, hn]
    exact List.mem_append_right _ List.mem_cons_self
  · exact Or.inr ⟨Function.update_self .., hgone⟩

/-- **A step keeps the contents covered exactly if it spares them.** -/
theorem covered_step_iff {m m' : Mirror P H} {a : Change P H} (hord : m.InOrder)
    (hm : m.Covered) (hs : Step False m a m') : m'.Covered ↔ m.Spares a := by
  cases hs with
  | put p h =>
    refine (covered_announce_iff hm (n := .changed p) (fun _ => rfl)).trans ?_
    simp only [Spares, Notice.path_changed, ne_eq, Option.some.injEq, eq_comm (a := h)]
  | drop p =>
    refine (covered_announce_iff hm (n := .gone p) (fun h => absurd rfl h)).trans ?_
    simp only [Spares, Notice.path_gone, ne_eq, reduceCtorEq, not_false_eq_true, forall_const]
  | move hp _ => exact covered_move_iff hm hp
  | @record p rest h hq hp =>
    refine iff_of_true ?_ trivial
    intro r h' hr
    by_cases hh : h' = h
    · rw [hh]
      exact ⟨p, covers_recorded hord hq hp⟩
    · obtain ⟨q, hc⟩ := hm r h' hr
      refine ⟨q, hc.tail hq ?_ (fun _ hrec => (Function.update_of_ne hh _ _).trans hrec)⟩
      intro heq
      injection heq with heq
      rw [← heq] at hc
      exact hh (Option.some.inj (hc.1.symm.trans hp))
  | @pass p rest hq hp =>
    refine iff_of_true ?_ trivial
    intro r h' hr
    obtain ⟨q, hc⟩ := hm r h' hr
    refine ⟨q, hc.tail hq ?_ (fun _ hrec => hrec)⟩
    intro heq
    injection heq with heq
    rcases hp with hnone | hlossy
    · rw [← heq] at hc
      exact Option.some_ne_none _ (hc.1.symm.trans hnone)
    · exact hlossy
  | @forget p rest h hq hp =>
    refine iff_of_true ?_ trivial
    intro r h' hr
    obtain ⟨q, hc⟩ := hm r h' hr
    refine ⟨q, hc.tail hq (by simp) ?_⟩
    -- what is forgotten is recorded at a path with its notice outstanding
    intro hout hrec
    refine (Function.update_of_ne ?_ _ _).trans hrec
    intro heq
    rw [heq, hp] at hrec
    rw [← Option.some.inj hrec, hq] at hout
    exact hout List.mem_cons_self
  | @absent p rest hq hp =>
    refine iff_of_true ?_ trivial
    intro r h' hr
    obtain ⟨q, hc⟩ := hm r h' hr
    exact ⟨q, hc.tail hq (by simp) (fun _ hrec => hrec)⟩

end Mirror

end Kin.Lib
