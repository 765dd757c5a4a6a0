/-
  Kin.Lib.Distinct

  **MERGING LISTS, NEW ELEMENTS LAST.**

  `merge` appends to a list what a second one has and it has not; an element
  that the second list has twice is appended twice.  The distinct elements of a
  list, in the order of their first occurrence, are its `eraseDups`.

    • `foldl_merge_iff` — merging one list after the other gives the distinct
      elements of all of them exactly if no list repeats an element that is new
      with it (`NewOnce`).
-/
import Mathlib.Data.List.Nodup

namespace Kin.Lib

variable {α : Type*} [BEq α] [LawfulBEq α]

/-! ## §1. First occurrences. -/

theorem nodup_eraseDups : ∀ l : List α, l.eraseDups.Nodup
  | [] => by simp
  | a :: l => by
      have hshort : (l.filter (fun b => !b == a)).length < l.length + 1 :=
        Nat.lt_succ_of_le (List.length_filter_le _ l)
      rw [List.eraseDups_cons, List.nodup_cons]
      refine ⟨fun hmem => ?_, nodup_eraseDups _⟩
      have hne := (List.mem_filter.mp (List.mem_eraseDups.mp hmem)).2
      simp at hne
termination_by l => l.length

theorem eraseDups_of_nodup {l : List α} (h : l.Nodup) : l.eraseDups = l := by
  induction l with
  | nil => rfl
  | cons a l ih =>
    obtain ⟨hnot, hnd⟩ := List.nodup_cons.mp h
    have hkeep : l.filter (fun b => !b == a) = l := by
      refine List.filter_eq_self.mpr fun b hb => ?_
      have hne : b ≠ a := fun heq => hnot (heq ▸ hb)
      simpa using hne
    rw [List.eraseDups_cons, hkeep, ih hnd]

/-! ## §2. Merging. -/

/-- Append what is not there yet. -/
def merge (old new : List α) : List α := old ++ new.filter (fun x => x ∉ old)

theorem mem_merge {old new : List α} {x : α} : x ∈ merge old new ↔ x ∈ old ∨ x ∈ new := by
  unfold merge
  rw [List.mem_append, List.mem_filter]
  by_cases hx : x ∈ old <;> simp [hx]

theorem mem_foldl_merge {ls : List (List α)} {old : List α} {x : α} :
    x ∈ ls.foldl merge old ↔ x ∈ old ∨ x ∈ ls.flatten := by
  induction ls generalizing old with
  | nil => simp
  | cons l ls ih => rw [List.foldl_cons, ih, mem_merge, List.flatten_cons, List.mem_append, or_assoc]

/-- There is nothing to append. -/
theorem merge_of_subset {old new : List α} (h : ∀ x ∈ new, x ∈ old) : merge old new = old := by
  unfold merge
  rw [List.filter_eq_nil_iff.mpr (by simpa using h), List.append_nil]

/-- No list repeats an element that neither `seen` nor an earlier list has. -/
def NewOnce : (seen : List α) → List (List α) → Prop
  | _, [] => True
  | seen, l :: ls => (l.filter (fun x => x ∉ seen)).Nodup ∧ NewOnce (seen ++ l) ls

instance NewOnce.decidable [DecidableEq α] :
    ∀ (seen : List α) (ls : List (List α)), Decidable (NewOnce seen ls)
  | _, [] => isTrue trivial
  | seen, l :: ls =>
    have := NewOnce.decidable (seen ++ l) ls
    inferInstanceAs (Decidable ((l.filter (fun x => x ∉ seen)).Nodup ∧ NewOnce (seen ++ l) ls))

/-- Merging keeps what is there. -/
theorem prefix_foldl_merge (ls : List (List α)) (old : List α) : old <+: ls.foldl merge old := by
  induction ls generalizing old with
  | nil => exact List.prefix_rfl
  | cons l ls ih => exact (List.prefix_append _ _).trans (ih (merge old l))

/-- **Merging gives the distinct elements, in order, exactly if no list repeats
an element that is new with it.** -/
theorem foldl_merge_iff (ls : List (List α)) (seen : List α) :
    ls.foldl merge seen.eraseDups = (seen ++ ls.flatten).eraseDups ↔ NewOnce seen ls := by
  induction ls generalizing seen with
  | nil => simp [NewOnce]
  | cons l ls ih =>
    -- an element is new to the merged list if it is new to `seen`
    have hnew : merge seen.eraseDups l = seen.eraseDups ++ l.filter (fun x => x ∉ seen) := by
      simp [merge]
    have hsplit : (seen ++ l).eraseDups
        = seen.eraseDups ++ (l.filter (fun x => x ∉ seen)).eraseDups := by
      rw [List.eraseDups_append]
      simp [List.removeAll]
    rw [List.foldl_cons, List.flatten_cons, ← List.append_assoc, hnew]
    by_cases hnd : (l.filter (fun x => x ∉ seen)).Nodup
    · rw [eraseDups_of_nodup hnd] at hsplit
      rw [← hsplit, ih]
      exact ⟨fun h => ⟨hnd, h⟩, fun h => h.2⟩
    · -- the repeated element stays in the list
      refine iff_of_false (fun heq => hnd ?_) (fun h => hnd h.1)
      have hall : (ls.foldl merge (seen.eraseDups ++ l.filter (fun x => x ∉ seen))).Nodup := by
        rw [heq]
        exact nodup_eraseDups _
      have hpre := prefix_foldl_merge ls (seen.eraseDups ++ l.filter (fun x => x ∉ seen))
      exact (List.nodup_append.mp (hall.sublist hpre.sublist)).2.1

end Kin.Lib
