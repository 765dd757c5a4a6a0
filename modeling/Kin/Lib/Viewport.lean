/-
  Kin.Lib.Viewport

  **A CURSOR IN A LIST OF WHICH A WINDOW IS SHOWN.**

  Three numbers: the cursor, the first line shown and how many lines there is
  room for.  Two operations bring them in order: `clamp` puts the cursor into
  the list, `scroll` moves the window to the cursor.  Neither does the other's
  work.

    • `clamp_inList`, `scroll_shows` — what each of them establishes,
    • `mem_lines` — the lines on the screen, and when the cursor's is one.
-/
import Mathlib.Data.List.Range

namespace Kin.Lib

structure Viewport where
  cursor : Int
  offset : Int
  height : Int
  deriving DecidableEq

namespace Viewport

/-- The cursor is moved into a list of `n` elements. -/
def clamp (n : Nat) (v : Viewport) : Viewport :=
  if n = 0 then { v with cursor := 0 }
  else { v with cursor := max 0 (min v.cursor (n - 1)) }

/-- The window is moved to the cursor. -/
def scroll (v : Viewport) : Viewport :=
  if v.height ≤ 0 then v
  else
    let v := if v.cursor < v.offset then { v with offset := v.cursor } else v
    if v.cursor ≥ v.offset + v.height then { v with offset := v.cursor - v.height + 1 } else v

/-- The cursor is on an element. -/
def InList (n : Nat) (v : Viewport) : Prop := 0 ≤ v.cursor ∧ v.cursor < n

/-- The cursor is in the window. -/
def Shows (v : Viewport) : Prop := v.offset ≤ v.cursor ∧ v.cursor < v.offset + v.height

instance (n : Nat) (v : Viewport) : Decidable (v.InList n) := instDecidableAnd

instance (v : Viewport) : Decidable v.Shows := instDecidableAnd

/-- The elements on the screen: from `offset` to `min(offset+height, n)`. -/
def lines (n : Nat) (v : Viewport) : List Int :=
  (List.range (min (v.offset + v.height) n - v.offset).toNat).map (fun i : Nat => v.offset + i)

variable (v : Viewport) (n : Nat)

@[simp] theorem clamp_offset : (v.clamp n).offset = v.offset := by
  unfold clamp
  split <;> rfl

@[simp] theorem clamp_height : (v.clamp n).height = v.height := by
  unfold clamp
  split <;> rfl

/-- Where `clamp` puts the cursor of a list that is not empty. -/
theorem clamp_cursor {n : Nat} (h : n ≠ 0) :
    (v.clamp n).cursor = max 0 (min v.cursor (n - 1)) := by
  unfold clamp
  rw [if_neg h]

theorem clamp_inList {n : Nat} (h : n ≠ 0) : (v.clamp n).InList n := by
  have hn : 0 < n := Nat.pos_of_ne_zero h
  unfold InList
  rw [clamp_cursor v h]
  omega

@[simp] theorem scroll_cursor : v.scroll.cursor = v.cursor := by
  unfold scroll
  dsimp only
  split
  · rfl
  · split <;> split <;> rfl

theorem offset_scroll {v : Viewport} (hoff : 0 ≤ v.offset) (hcur : 0 ≤ v.cursor) :
    0 ≤ v.scroll.offset := by
  unfold scroll
  dsimp only
  split
  · exact hoff
  next hheight =>
    split
    · split
      next hdown =>
        dsimp only at hdown
        omega
      next => exact hcur
    · split
      next hdown =>
        dsimp only at hdown ⊢
        omega
      next => exact hoff

theorem scroll_shows {v : Viewport} (h : 0 < v.height) : v.scroll.Shows := by
  unfold Shows scroll
  rw [if_neg (by omega)]
  dsimp only
  by_cases hup : v.cursor < v.offset
  · rw [if_pos hup]
    by_cases hdown : v.cursor ≥ v.cursor + v.height
    · omega
    · rw [if_neg hdown]
      dsimp only
      omega
  · rw [if_neg hup]
    by_cases hdown : v.cursor ≥ v.offset + v.height
    · rw [if_pos hdown]
      dsimp only
      omega
    · rw [if_neg hdown]
      omega

theorem mem_lines {i : Int} :
    i ∈ v.lines n ↔ v.offset ≤ i ∧ i < v.offset + v.height ∧ i < n := by
  unfold lines
  rw [List.mem_map]
  constructor
  · rintro ⟨k, hk, rfl⟩
    rw [List.mem_range] at hk
    omega
  · rintro ⟨hlo, hhi, hn⟩
    refine ⟨(i - v.offset).toNat, ?_, ?_⟩
    · rw [List.mem_range]
      omega
    · omega

end Viewport

end Kin.Lib
