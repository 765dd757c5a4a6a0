/-
  Kin.Lib.Registry

  **A TABLE WITH ONE ENTRY PER KEY, SHARED BY SESSIONS.**

  Sessions come and go; several may run under the same key.  Registering a
  session overwrites the entry of its key, deregistering DELETES the entry of
  its key, whichever session put it there.

  `Law` says what such a table is for: a key has an entry exactly while some
  session runs under it, and the entry is one of these sessions.

    • `law_register`       — registering a new session keeps the law, always,
    • `law_deregister_iff` — deregistering keeps it exactly if no other session
      runs under the key.
-/
import Mathlib.Logic.Function.Basic

namespace Kin.Lib

variable {K ι : Type*}

/-- `table k` is the entry of a key; `live s k` says that session `s` runs
under key `k`. -/
structure Law (table : K → Option ι) (live : ι → K → Prop) : Prop where
  present : ∀ s k, live s k → ∃ s', table k = some s'
  running : ∀ k s, table k = some s → live s k

variable {table table' : K → Option ι} {live live' : ι → K → Prop}

theorem Law.present_iff (h : Law table live) (k : K) :
    (∃ s, table k = some s) ↔ ∃ s, live s k :=
  ⟨fun ⟨s, hs⟩ => ⟨s, h.running k s hs⟩, fun ⟨s, hs⟩ => h.present s k hs⟩

/-- The law does not depend on how the table and the sessions are represented. -/
theorem law_congr (ht : ∀ k, table' k = table k) (hl : ∀ s k, live' s k ↔ live s k) :
    Law table' live' ↔ Law table live := by
  refine ⟨fun h => ⟨fun s k hs => ?_, fun k s hs => ?_⟩, fun h => ⟨fun s k hs => ?_, fun k s hs => ?_⟩⟩
  · rw [← ht]
    exact h.present s k ((hl s k).mpr hs)
  · rw [← ht] at hs
    exact (hl s k).mp (h.running k s hs)
  · rw [ht]
    exact h.present s k ((hl s k).mp hs)
  · rw [ht] at hs
    exact (hl s k).mpr (h.running k s hs)

section Steps

variable [DecidableEq K]

/-- **Registering keeps the law.** -/
theorem law_register (h : Law table live) {k₀ : K} {s₀ : ι}
    (ht : ∀ k, table' k = if k = k₀ then some s₀ else table k)
    (hl : ∀ s k, live' s k ↔ live s k ∨ (s = s₀ ∧ k = k₀)) : Law table' live' := by
  refine ⟨fun s k hs => ?_, fun k s hs => ?_⟩
  · rw [ht]
    by_cases hk : k = k₀
    · exact ⟨s₀, if_pos hk⟩
    · rw [if_neg hk]
      rcases (hl s k).mp hs with hold | ⟨_, hk'⟩
      · exact h.present s k hold
      · exact absurd hk' hk
  · rw [ht] at hs
    by_cases hk : k = k₀
    · rw [if_pos hk] at hs
      exact (hl s k).mpr (Or.inr ⟨(Option.some.inj hs).symm, hk⟩)
    · rw [if_neg hk] at hs
      exact (hl s k).mpr (Or.inl (h.running k s hs))

/-- **Deregistering** session `s₀` of key `k₀` keeps the law exactly if no
other session runs under the key. -/
theorem law_deregister_iff (h : Law table live) {k₀ : K} {s₀ : ι}
    (ht : ∀ k, table' k = if k = k₀ then none else table k)
    (hl : ∀ s k, live' s k ↔ live s k ∧ ¬ (s = s₀ ∧ k = k₀)) :
    Law table' live' ↔ ∀ s, live s k₀ → s = s₀ := by
  refine ⟨fun h' s hs => ?_, fun halone => ⟨fun s k hs => ?_, fun k s hs => ?_⟩⟩
  · -- another session would find its key without an entry
    by_contra hne
    obtain ⟨s', hs'⟩ := h'.present s k₀ ((hl s k₀).mpr ⟨hs, fun hx => hne hx.1⟩)
    rw [ht, if_pos rfl] at hs'
    cases hs'
  · obtain ⟨hold, hno⟩ := (hl s k).mp hs
    have hk : k ≠ k₀ := by
      intro hk
      rw [hk] at hold
      exact hno ⟨halone s hold, hk⟩
    rw [ht, if_neg hk]
    exact h.present s k hold
  · rw [ht] at hs
    by_cases hk : k = k₀
    · rw [if_pos hk] at hs
      cases hs
    · rw [if_neg hk] at hs
      exact (hl s k).mpr ⟨h.running k s hs, fun hx => hk hx.2⟩

end Steps

end Kin.Lib
