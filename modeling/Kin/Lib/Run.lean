/-
  Kin.Lib.Run

  **SCHEDULES OF A PARTIAL STEP FUNCTION — the induction rules.**

  A system is a step function `step : S → A → Option S` (`none` = the action
  is not enabled).  A schedule is a list of actions; `run` replays it.  What
  follows a schedule:

    • `StatesMeet P` — `P` holds in EVERY state the schedule goes through,
      the first and the last included,
    • `StepsMeet C`  — every step the schedule takes meets `C`, a condition
      on the state BEFORE the step and on the action,
    • `Took E D`     — some step of it meets `E`, and only `D`-actions follow,
    • `countSteps p` — how many of its steps meet `p`.

  The rules:

    • `run_invariant`             — what every step preserves, every run preserves,
    • `run_simulation`            — what matches the steps of another system, matches its runs,
    • `run_filter`                — steps that change nothing of a view can be left out,
    • `statesMeet_iff_last`       — what no step restores is decided at the end,
    • `statesMeet_of_stepsMeet`   — a conditional invariant along a schedule,
    • `statesMeet_iff_stepsMeet`  — when a step keeps `P` EXACTLY if it meets
      `C`, a schedule keeps `P` throughout exactly if all its steps meet `C`,
    • `run_history`               — what is kept of the state and the actions so far,
    • `countSteps_add_measure`    — steps that use up a measure are so many at most.
-/
import Mathlib.Data.List.Basic
import Mathlib.Data.List.Induction

namespace Kin.Lib

variable {S A : Type*}

/-! ## §1. Replaying a schedule. -/

/-- Replay a schedule of actions. -/
def run (step : S → A → Option S) : S → List A → Option S
  | s, [] => some s
  | s, a :: as => (step s a).bind (fun s' => run step s' as)

@[simp] theorem run_nil (step : S → A → Option S) (s : S) : run step s [] = some s := rfl

theorem run_cons_eq_some {step : S → A → Option S} {s t : S} {a : A} {as : List A} :
    run step s (a :: as) = some t ↔ ∃ u, step s a = some u ∧ run step u as = some t := by
  simp only [run, Option.bind_eq_some_iff]

/-- A schedule is replayed piecewise. -/
theorem run_append_eq_some {step : S → A → Option S} {s t : S} {as bs : List A} :
    run step s (as ++ bs) = some t ↔ ∃ u, run step s as = some u ∧ run step u bs = some t := by
  induction as generalizing s with
  | nil => simp
  | cons a as ih =>
    rw [List.cons_append, run_cons_eq_some]
    constructor
    · rintro ⟨u, hu, h⟩
      obtain ⟨v, hv, hb⟩ := ih.mp h
      exact ⟨v, run_cons_eq_some.mpr ⟨u, hu, hv⟩, hb⟩
    · rintro ⟨v, hv, hb⟩
      obtain ⟨u, hu, h⟩ := run_cons_eq_some.mp hv
      exact ⟨u, hu, ih.mpr ⟨v, h, hb⟩⟩

/-- The invariant rule for schedules that only take actions of one kind. -/
theorem run_invariant_of {step : S → A → Option S} {P : S → Prop} {C : A → Prop}
    (hstep : ∀ s a t, P s → C a → step s a = some t → P t) :
    ∀ {as : List A} {s t : S}, P s → (∀ a ∈ as, C a) → run step s as = some t → P t := by
  intro as
  induction as with
  | nil =>
    intro s t hs _ h
    injection h with h
    exact h ▸ hs
  | cons a as ih =>
    intro s t hs hC h
    obtain ⟨u, hu, h⟩ := run_cons_eq_some.mp h
    exact ih (hstep s a u hs (hC a List.mem_cons_self) hu)
      (fun b hb => hC b (List.mem_cons_of_mem _ hb)) h

/-- **The invariant rule**: what every step preserves, every run preserves. -/
theorem run_invariant {step : S → A → Option S} {P : S → Prop}
    (hstep : ∀ s a t, P s → step s a = some t → P t) {as : List A} {s t : S} (hs : P s)
    (h : run step s as = some t) : P t :=
  run_invariant_of (C := fun _ => True) (fun s a t hs _ ht => hstep s a t hs ht) hs
    (fun _ _ => trivial) h

/-- **The simulation rule**: if every step is matched by some steps of a second
system, every run is matched by a run of it. -/
theorem run_simulation {T B : Type*} {step : S → A → Option S} {step' : T → B → Option T}
    {R : S → T → Prop}
    (hstep : ∀ s a s' t, R s t → step s a = some s' →
      ∃ bs t', run step' t bs = some t' ∧ R s' t') :
    ∀ {as : List A} {s s' : S} {t : T}, R s t → run step s as = some s' →
      ∃ bs t', run step' t bs = some t' ∧ R s' t' := by
  intro as
  induction as with
  | nil =>
    intro s s' t hR h
    injection h with h
    exact ⟨[], t, rfl, h ▸ hR⟩
  | cons a as ih =>
    intro s s' t hR h
    obtain ⟨u, hu, h⟩ := run_cons_eq_some.mp h
    obtain ⟨bs, v, hv, hR⟩ := hstep s a u t hR hu
    obtain ⟨cs, t', ht', hR⟩ := ih hR h
    exact ⟨bs ++ cs, t', run_append_eq_some.mpr ⟨v, hv, ht'⟩, hR⟩

/-- `P` holds in every state the schedule goes through. -/
def StatesMeet (step : S → A → Option S) (P : S → Prop) : S → List A → Prop
  | s, [] => P s
  | s, a :: as => P s ∧ ∀ t, step s a = some t → StatesMeet step P t as

/-- Every step the schedule takes meets `C` (state before the step, action). -/
def StepsMeet (step : S → A → Option S) (C : S → A → Prop) : S → List A → Prop
  | _, [] => True
  | s, a :: as => ∀ t, step s a = some t → C s a ∧ StepsMeet step C t as

instance StepsMeet.decidable {step : S → A → Option S} {C : S → A → Prop}
    [∀ s a, Decidable (C s a)] : ∀ s as, Decidable (StepsMeet step C s as)
  | _, [] => isTrue trivial
  | s, a :: as =>
    have : ∀ t, Decidable (StepsMeet step C t as) := fun t => StepsMeet.decidable t as
    decidable_of_iff (∀ t ∈ step s a, C s a ∧ StepsMeet step C t as) Iff.rfl

theorem stepsMeet_true {step : S → A → Option S} (as : List A) :
    ∀ s : S, StepsMeet step (fun _ _ => True) s as := by
  induction as with
  | nil =>
    intro s
    trivial
  | cons a as ih => exact fun s t _ => ⟨trivial, ih t⟩

/-- A condition on the actions alone. -/
theorem stepsMeet_of_forall {step : S → A → Option S} {D : A → Prop} {as : List A} :
    ∀ s : S, (∀ a ∈ as, D a) → StepsMeet step (fun _ a => D a) s as := by
  induction as with
  | nil =>
    intro s _
    trivial
  | cons a as ih =>
    intro s h t _
    exact ⟨h a List.mem_cons_self, ih t (fun b hb => h b (List.mem_cons_of_mem _ hb))⟩

/-- The condition of a schedule is that of its pieces. -/
theorem stepsMeet_append {step : S → A → Option S} {C : S → A → Prop} {as bs : List A} :
    ∀ {s : S}, StepsMeet step C s (as ++ bs)
      ↔ StepsMeet step C s as ∧ ∀ t, run step s as = some t → StepsMeet step C t bs := by
  induction as with
  | nil =>
    intro s
    refine ⟨fun h => ⟨trivial, fun t ht => ?_⟩, fun h => h.2 s rfl⟩
    rw [← Option.some.inj ht]
    exact h
  | cons a as ih =>
    intro s
    constructor
    · intro h
      refine ⟨fun u hu => ⟨(h u hu).1, (ih.mp (h u hu).2).1⟩, fun t ht => ?_⟩
      obtain ⟨u, hu, ht⟩ := run_cons_eq_some.mp ht
      exact (ih.mp (h u hu).2).2 t ht
    · intro h u hu
      refine ⟨(h.1 u hu).1, ih.mpr ⟨(h.1 u hu).2, fun t ht => h.2 t ?_⟩⟩
      exact run_cons_eq_some.mpr ⟨u, hu, ht⟩

theorem StatesMeet.first {step : S → A → Option S} {P : S → Prop} {s : S} {as : List A}
    (h : StatesMeet step P s as) : P s := by
  cases as with
  | nil => exact h
  | cons a as => exact h.1

theorem StatesMeet.mono {step : S → A → Option S} {P Q : S → Prop} (hPQ : ∀ s, P s → Q s)
    {as : List A} : ∀ {s : S}, StatesMeet step P s as → StatesMeet step Q s as := by
  induction as with
  | nil => exact fun h => hPQ _ h
  | cons a as ih => exact fun h => ⟨hPQ _ h.1, fun t ht => ih (h.2 t ht)⟩

/-- What the states of a schedule give its steps. -/
theorem StatesMeet.stepsMeet {step : S → A → Option S} {P : S → Prop} {C : S → A → Prop}
    (hC : ∀ s a, P s → C s a) {as : List A} :
    ∀ {s : S}, StatesMeet step P s as → StepsMeet step C s as := by
  induction as with
  | nil =>
    intro s _
    trivial
  | cons a as ih => exact fun h t ht => ⟨hC _ a h.1, ih (h.2 t ht)⟩

/-- The state a schedule ends in is one it goes through. -/
theorem StatesMeet.last {step : S → A → Option S} {P : S → Prop} {as : List A} :
    ∀ {s t : S}, StatesMeet step P s as → run step s as = some t → P t := by
  induction as with
  | nil =>
    intro s t h hr
    injection hr with hr
    exact hr ▸ h
  | cons a as ih =>
    intro s t h hr
    obtain ⟨u, hu, hr⟩ := run_cons_eq_some.mp hr
    exact ih (h.2 u hu) hr

/-- The invariant rule for schedules whose steps all meet `D`. -/
theorem run_invariant_within {step : S → A → Option S} {J : S → Prop} {D : S → A → Prop}
    (hJ : ∀ s a t, J s → D s a → step s a = some t → J t) :
    ∀ {as : List A} {s t : S}, StepsMeet step D s as → J s → run step s as = some t → J t := by
  intro as
  induction as with
  | nil =>
    intro s t _ hj hr
    injection hr with hr
    exact hr ▸ hj
  | cons a as ih =>
    intro s t hd hj hr
    obtain ⟨u, hu, hr⟩ := run_cons_eq_some.mp hr
    obtain ⟨hda, hds⟩ := hd u hu
    exact ih hds (hJ s a u hj hda hu) hr

/-- What a step that meets `D` cannot restore holds throughout exactly if it
holds at the end. -/
theorem statesMeet_iff_last_within {step : S → A → Option S} {J P : S → Prop} {D : S → A → Prop}
    (hJ : ∀ s a t, J s → D s a → step s a = some t → J t)
    (hback : ∀ s a t, J s → D s a → step s a = some t → P t → P s) :
    ∀ {as : List A} {s t : S}, StepsMeet step D s as → J s → run step s as = some t →
      (StatesMeet step P s as ↔ P t) := by
  intro as
  induction as with
  | nil =>
    intro s t _ _ hr
    injection hr with hr
    rw [← hr]
    exact Iff.rfl
  | cons a as ih =>
    intro s t hd hj hr
    obtain ⟨u, hu, hr⟩ := run_cons_eq_some.mp hr
    obtain ⟨hda, hds⟩ := hd u hu
    have ih := ih hds (hJ s a u hj hda hu) hr
    refine ⟨fun h => ih.mp (h.2 u hu), fun ht => ?_⟩
    have hmeet := ih.mpr ht
    refine ⟨hback s a u hj hda hu hmeet.first, fun v hv => ?_⟩
    rw [hu] at hv
    rw [← Option.some.inj hv]
    exact hmeet

/-- What no step can restore holds throughout exactly if it holds at the end. -/
theorem statesMeet_iff_last {step : S → A → Option S} {P : S → Prop}
    (hback : ∀ s a t, step s a = some t → P t → P s) {as : List A} {s t : S}
    (h : run step s as = some t) : StatesMeet step P s as ↔ P t :=
  statesMeet_iff_last_within (J := fun _ => True) (D := fun _ _ => True)
    (fun _ _ _ _ _ _ => trivial) (fun s a t _ _ ht => hback s a t ht) (stepsMeet_true as s) trivial h

/-- A conditional invariant: `J` is kept by every step, `P` by the steps that
meet `C`. -/
theorem statesMeet_of_stepsMeet {step : S → A → Option S} {J P : S → Prop} {C : S → A → Prop}
    (hJ : ∀ s a t, J s → step s a = some t → J t)
    (hP : ∀ s a t, J s → P s → C s a → step s a = some t → P t) :
    ∀ {as : List A} {s : S}, J s → P s → StepsMeet step C s as → StatesMeet step P s as := by
  intro as
  induction as with
  | nil => intro s _ hs _; exact hs
  | cons a as ih =>
    intro s hj hs hc
    refine ⟨hs, fun t ht => ?_⟩
    obtain ⟨hca, hcs⟩ := hc t ht
    exact ih (hJ s a t hj ht) (hP s a t hj hs hca ht) hcs

/-- The exactness rule for schedules whose steps all meet `D`, with a `J` that need only
be kept between `P`-states. -/
theorem statesMeet_iff_stepsMeet_between {step : S → A → Option S} {J P : S → Prop}
    {C D : S → A → Prop} (hJ : ∀ s a t, J s → P s → P t → D s a → step s a = some t → J t)
    (hP : ∀ s a t, J s → P s → D s a → step s a = some t → (P t ↔ C s a)) :
    ∀ {as : List A} {s : S}, StepsMeet step D s as → J s → P s →
      (StatesMeet step P s as ↔ StepsMeet step C s as) := by
  intro as
  induction as with
  | nil =>
    intro s _ _ hs
    exact iff_of_true hs trivial
  | cons a as ih =>
    intro s hd hj hs
    constructor
    · -- each state reached is a `P`-state, so the step into it met `C`
      intro h t ht
      have hPt := (h.2 t ht).first
      obtain ⟨hda, hds⟩ := hd t ht
      exact ⟨(hP s a t hj hs hda ht).mp hPt,
        (ih hds (hJ s a t hj hs hPt hda ht) hPt).mp (h.2 t ht)⟩
    · intro h
      refine ⟨hs, fun t ht => ?_⟩
      obtain ⟨hda, hds⟩ := hd t ht
      obtain ⟨hca, hcs⟩ := h t ht
      have hPt := (hP s a t hj hs hda ht).mpr hca
      exact (ih hds (hJ s a t hj hs hPt hda ht) hPt).mpr hcs

/-- The same with a `J` that every step keeps. -/
theorem statesMeet_iff_stepsMeet_within {step : S → A → Option S} {J P : S → Prop}
    {C D : S → A → Prop} (hJ : ∀ s a t, J s → D s a → step s a = some t → J t)
    (hP : ∀ s a t, J s → P s → D s a → step s a = some t → (P t ↔ C s a)) {as : List A} {s : S} :
    StepsMeet step D s as → J s → P s → (StatesMeet step P s as ↔ StepsMeet step C s as) :=
  statesMeet_iff_stepsMeet_between (fun s a t hj _ _ hd ht => hJ s a t hj hd ht) hP

/-- **The exactness rule**: if, from a `J`-state where `P` holds, a step ends
in a `P`-state EXACTLY when it meets `C`, then a schedule stays within `P`
exactly when all its steps meet `C`. -/
theorem statesMeet_iff_stepsMeet {step : S → A → Option S} {J P : S → Prop} {C : S → A → Prop}
    (hJ : ∀ s a t, J s → step s a = some t → J t)
    (hP : ∀ s a t, J s → P s → step s a = some t → (P t ↔ C s a)) :
    ∀ {as : List A} {s : S}, J s → P s → (StatesMeet step P s as ↔ StepsMeet step C s as) := by
  intro as s hj hs
  exact statesMeet_iff_stepsMeet_within (D := fun _ _ => True)
    (fun s a t hj _ ht => hJ s a t hj ht) (fun s a t hj hs _ ht => hP s a t hj hs ht)
    (stepsMeet_true as s) hj hs

/-- If the steps that meet `C` keep `J`, and from a `J`-state a step that meets
`C` meets `D` too, a schedule whose steps meet `C` meets `D`. -/
theorem StepsMeet.mono_of_invariant {step : S → A → Option S} {J : S → Prop} {C D : S → A → Prop}
    (hJ : ∀ s a t, J s → C s a → step s a = some t → J t)
    (hD : ∀ s a t, J s → C s a → step s a = some t → D s a) :
    ∀ {as : List A} {s : S}, J s → StepsMeet step C s as → StepsMeet step D s as := by
  intro as
  induction as with
  | nil =>
    intro s _ _
    trivial
  | cons a as ih =>
    intro s hj hc t ht
    obtain ⟨hca, hcs⟩ := hc t ht
    exact ⟨hD s a t hj hca ht, ih (hJ s a t hj hca ht) hcs⟩

/-- A step that the schedule takes meets `E` (state before, action, state after),
and all actions after it meet `D`. -/
def Took (step : S → A → Option S) (E : S → A → S → Prop) (D : A → Prop) (s : S) (as : List A) :
    Prop :=
  ∃ pre a post u v, as = pre ++ a :: post ∧ run step s pre = some u ∧ step u a = some v
    ∧ E u a v ∧ ∀ b ∈ post, D b

theorem took_concat {step : S → A → Option S} {E : S → A → S → Prop} {D : A → Prop} {s t u : S}
    {as : List A} {a : A} (hrun : run step s as = some t) (hs : step t a = some u)
    (h : E t a u ∨ (D a ∧ Took step E D s as)) : Took step E D s (as ++ [a]) := by
  rcases h with hE | ⟨hD, pre, b, post, v, w, rfl, hpre, hb, hE, hpost⟩
  · exact ⟨as, a, [], t, u, rfl, hrun, hs, hE, fun _ hb => absurd hb List.not_mem_nil⟩
  · refine ⟨pre, b, post ++ [a], v, w, by simp, hpre, hb, hE, fun c hc => ?_⟩
    rcases List.mem_append.mp hc with hc | hc
    · exact hpost c hc
    · rw [List.mem_singleton.mp hc]
      exact hD

theorem took_cons {step : S → A → Option S} {E : S → A → S → Prop} {D : A → Prop} {s t : S}
    {as : List A} {a : A} (hs : step s a = some t)
    (h : (E s a t ∧ ∀ b ∈ as, D b) ∨ Took step E D t as) : Took step E D s (a :: as) := by
  rcases h with ⟨hE, hD⟩ | ⟨pre, b, post, v, w, rfl, hpre, hb, hE, hpost⟩
  · exact ⟨[], a, as, s, t, rfl, rfl, hs, hE, hD⟩
  · exact ⟨a :: pre, b, post, v, w, rfl, run_cons_eq_some.mpr ⟨t, hs, hpre⟩, hb, hE, hpost⟩

/-- **The history rule**: what holds at the start and is kept by each step that meets
`C`, of the state together with the actions that led to it, holds of every run whose
steps meet `C`. -/
theorem run_history {step : S → A → Option S} {C : S → A → Prop} {P : List A → S → Prop} {s : S}
    (hnil : P [] s)
    (hstep : ∀ as t a u, run step s as = some t → P as t → C t a → step t a = some u →
      P (as ++ [a]) u) :
    ∀ {as : List A} {t : S}, StepsMeet step C s as → run step s as = some t → P as t := by
  intro as
  induction as using List.reverseRecOn with
  | nil =>
    intro t _ hrun
    rw [← Option.some.inj hrun]
    exact hnil
  | append_singleton as a ih =>
    intro u hC hrun
    obtain ⟨t, ht, hlast⟩ := run_append_eq_some.mp hrun
    obtain ⟨v, hv, hend⟩ := run_cons_eq_some.mp hlast
    obtain ⟨hbefore, hafter⟩ := stepsMeet_append.mp hC
    rw [← Option.some.inj hend]
    exact hstep as t a v ht (ih hbefore ht) (hafter t ht v hv).1 hv

/-- The number of steps of a schedule that meet `p` (state before the step, action). -/
def countSteps (step : S → A → Option S) (p : S → A → Bool) : S → List A → Nat
  | _, [] => 0
  | s, a :: as =>
    match step s a with
    | none => 0
    | some t => (if p s a then 1 else 0) + countSteps step p t as

/-- **The rule of measures**: what every step that meets `p` makes smaller, and no
other step larger, is used up by the former, along a schedule whose steps meet `C`. -/
theorem countSteps_add_measure {step : S → A → Option S} {p : S → A → Bool} {J : S → Prop}
    {C : S → A → Prop} {μ : S → Nat} (hJ : ∀ s a t, J s → C s a → step s a = some t → J t)
    (hμ : ∀ s a t, J s → C s a → step s a = some t → (if p s a then 1 else 0) + μ t ≤ μ s) :
    ∀ {as : List A} {s t : S}, StepsMeet step C s as → J s → run step s as = some t →
      countSteps step p s as + μ t ≤ μ s := by
  intro as
  induction as with
  | nil =>
    intro s t _ _ hrun
    rw [← Option.some.inj hrun]
    exact Nat.le_of_eq (Nat.zero_add _)
  | cons a as ih =>
    intro s t hC hs hrun
    obtain ⟨u, hu, hrest⟩ := run_cons_eq_some.mp hrun
    obtain ⟨ha, has⟩ := hC u hu
    have hone := hμ s a u hs ha hu
    have hmany := ih has (hJ s a u hs ha hu) hrest
    simp only [countSteps, hu]
    omega

/-! ## §3. Processes by number.

A system of concurrent calls keeps them in a list, a call's number being its
place: a new call comes last, a step of a call replaces it. -/

theorem getElem?_set_cases {α : Type*} {l : List α} {i j : Nat} {x y : α}
    (h : (l.set j x)[i]? = some y) : (i = j ∧ y = x) ∨ (i ≠ j ∧ l[i]? = some y) := by
  rw [List.getElem?_set] at h
  split at h
  next heq =>
    split at h
    next => exact Or.inl ⟨heq.symm, (Option.some.inj h).symm⟩
    next => cases h
  next hne => exact Or.inr ⟨fun heq => hne heq.symm, h⟩

theorem getElem?_concat_cases {α : Type*} {l : List α} {i : Nat} {x y : α}
    (h : (l ++ [x])[i]? = some y) : (i = l.length ∧ y = x) ∨ l[i]? = some y := by
  rcases Nat.lt_or_ge i l.length with hlt | hge
  · rw [List.getElem?_append_left hlt] at h
    exact Or.inr h
  · rw [List.getElem?_append_right hge] at h
    have hx := List.mem_singleton.mp (List.mem_of_getElem? h)
    have hi := (List.getElem?_eq_some_iff.mp h).1
    rw [List.length_singleton] at hi
    exact Or.inl ⟨by omega, hx⟩

theorem getElem?_concat_of {α : Type*} {l : List α} {i : Nat} {x y : α} (h : l[i]? = some x) :
    (l ++ [y])[i]? = some x := by
  rw [List.getElem?_append_left (List.getElem?_eq_some_iff.mp h).1, h]

/-- What holds of the old calls and of the new one. -/
theorem forall_mem_concat {α : Type*} {l : List α} {x : α} {Q : α → Prop} (h : ∀ y ∈ l, Q y)
    (hx : Q x) : ∀ y ∈ l ++ [x], Q y :=
  List.forall_mem_append.mpr ⟨h, List.forall_mem_singleton.mpr hx⟩

/-- What holds of the old calls and of the one that moves. -/
theorem forall_mem_set {α : Type*} {l : List α} {i : Nat} {x : α} {Q : α → Prop}
    (h : ∀ y ∈ l, Q y) (hx : Q x) : ∀ y ∈ l.set i x, Q y := by
  intro y hy
  rcases List.mem_or_eq_of_mem_set hy with hold | hnew
  · exact h y hold
  · exact hnew ▸ hx

/-- A call that stands elsewhere than the one that moves is another one, and stays. -/
theorem getElem?_set_of_ne {α : Type*} {l : List α} {i j : Nat} {x y z : α} (hi : l[i]? = some x)
    (hj : l[j]? = some y) (hne : x ≠ y) : (l.set i z)[j]? = some y := by
  have hij : i ≠ j := by
    intro heq
    rw [← heq, hi] at hj
    exact hne (Option.some.inj hj)
  rw [List.getElem?_set_ne hij]
  exact hj

theorem set_of_getElem? {α : Type*} {l : List α} {i : Nat} {x : α} (h : l[i]? = some x) :
    l.set i x = l := by
  obtain ⟨hi, rfl⟩ := List.getElem?_eq_some_iff.mp h
  exact List.set_getElem_self hi

/-- Replacing the element at a place exchanges what holds of it. -/
theorem exists_mem_set_or {α : Type*} {l : List α} {i : Nat} {x y : α} (h : l[i]? = some x)
    (Q : α → Prop) : ((∃ z ∈ l.set i y, Q z) ∨ Q x) ↔ ((∃ z ∈ l, Q z) ∨ Q y) := by
  induction l generalizing i with
  | nil => cases h
  | cons z l ih =>
    cases i with
    | zero =>
      have hx : z = x := Option.some.inj h
      subst hx
      simp only [List.set_cons_zero, List.exists_mem_cons_iff]
      exact or_comm.trans ((or_congr Iff.rfl or_comm).trans or_assoc.symm)
    | succ i =>
      have ih := ih (i := i) h
      simp only [List.set_cons_succ, List.exists_mem_cons_iff]
      rw [or_assoc, ih, or_assoc]

/-- The same for how many there are. -/
theorem countP_set_add {α : Type*} {l : List α} {i : Nat} {x : α} (h : l[i]? = some x) (y : α)
    (q : α → Bool) :
    (l.set i y).countP q + (if q x then 1 else 0) = l.countP q + (if q y then 1 else 0) := by
  induction l generalizing i with
  | nil => cases h
  | cons z l ih =>
    cases i with
    | zero =>
      have hx : z = x := Option.some.inj h
      subst hx
      simp only [List.set_cons_zero, List.countP_cons]
      omega
    | succ i =>
      have ih := ih (i := i) h
      simp only [List.set_cons_succ, List.countP_cons]
      omega

theorem getElem?_set_of_getElem? {α : Type*} {l : List α} {i : Nat} {x y : α}
    (h : l[i]? = some x) : (l.set i y)[i]? = some y :=
  List.getElem?_set_self (List.getElem?_eq_some_iff.mp h).1

theorem exists_mem_set_iff {α : Type*} {l : List α} {i : Nat} {x y : α} (h : l[i]? = some x)
    {Q : α → Prop} (hQ : Q y ↔ Q x) : (∃ z ∈ l.set i y, Q z) ↔ ∃ z ∈ l, Q z := by
  have hex := exists_mem_set_or (y := y) h Q
  constructor
  · intro hset
    rcases hex.mp (Or.inl hset) with hl | hy
    · exact hl
    · exact ⟨x, List.mem_of_getElem? h, hQ.mp hy⟩
  · intro hl
    rcases hex.mpr (Or.inl hl) with hset | hx
    · exact hset
    · exact ⟨y, List.mem_of_getElem? (getElem?_set_of_getElem? h), hQ.mpr hx⟩

/-! ## §4. What a run has logged.

The newest entry comes last. -/

/-- Some entry of the log meets `Q`, and all later ones meet `P`. -/
def Since {α : Type*} (P Q : α → Prop) (log : List α) : Prop :=
  ∃ before x after, log = before ++ x :: after ∧ Q x ∧ ∀ y ∈ after, P y

theorem not_since_nil {α : Type*} (P Q : α → Prop) : ¬ Since P Q [] := by
  intro h
  obtain ⟨before, x, after, h, _⟩ := h
  simp at h

/-- One more entry. -/
theorem since_concat {α : Type*} {P Q : α → Prop} {log : List α} {z : α} :
    Since P Q (log ++ [z]) ↔ Q z ∨ (P z ∧ Since P Q log) := by
  constructor
  · intro hsince
    obtain ⟨before, x, after, h, hx, hafter⟩ := hsince
    -- the entry is the newest one, or the newest one came after it
    rcases List.eq_nil_or_concat after with rfl | ⟨rest, y, rfl⟩
    · obtain ⟨_, hz⟩ := List.append_singleton_inj.mp h
      exact Or.inl (hz ▸ hx)
    · rw [List.concat_eq_append, ← List.cons_append, ← List.append_assoc] at h
      obtain ⟨hlog, hz⟩ := List.append_singleton_inj.mp h
      rw [List.concat_eq_append] at hafter
      refine Or.inr ⟨hz ▸ hafter y (by simp), before, x, rest, hlog, hx, fun w hw => ?_⟩
      exact hafter w (List.mem_append_left _ hw)
  · intro h
    rcases h with hz | ⟨hz, before, x, after, hlog, hx, hafter⟩
    · exact ⟨log, z, [], rfl, hz, by simp⟩
    · exact ⟨before, x, after ++ [z], by rw [hlog]; simp, hx, forall_mem_concat hafter hz⟩

end Kin.Lib
