/-
  Kin.Tui.Cursor

  **IS THE CURSOR ON THE SCREEN?**

  Every action leaves the cursor on an element of the visible list.  Whether its
  line is SHOWN is another matter: only the movements scroll.  The actions fall
  into four classes:

      Clamps     SetFiles, Escape, Backspace — the list changes under the window
      Types      runes                       — cursor and window go to the top
      SetSize                                — the window changes under the cursor
      the rest   (`Steady`)                  — nothing, or a movement

    • `update_clamps`, `update_types`, `update_steady` — what a key does,
    • `onScreen_step_iff` — what exactly a step must meet to keep the cursor shown,
    • `cursor_on_screen_iff` — every run.
-/
import Kin.Lib.Run
import Kin.Tui.Panels

namespace Kin.Tui

open Kin.Lib Kin.Daemon

namespace CatalogModel

/-! ## §1. Actions. -/

inductive Act where
  | setFiles (files : List FileInfo)
  /-- A height of at least one. -/
  | setSize (h : Int)
  | key (k : KeyMsg)

def step (lower : GoString → GoString) (m : CatalogModel) : Act → Option CatalogModel
  | .setFiles files => some (m.setFiles lower files)
  | .setSize h => if 1 ≤ h then some (m.setSize h) else none
  | .key k => some (m.update lower k)

/-- With something to show, the cursor is on an element and its line is on the
screen. -/
def OnScreen (m : CatalogModel) : Prop :=
  m.visible ≠ [] → m.InList m.visible.length ∧ m.Shows ∧ m.cursor ∈ m.rendered

/-- The keys after which the cursor is clamped and nothing else is done. -/
def Clamps (m : CatalogModel) (k : KeyMsg) : Prop :=
  m.searching = true
    ∧ (k.matches keys.escape = true ∨ (k.type = .backspace ∧ m.search ≠ []))

/-- Text typed into the search box. -/
def Types (m : CatalogModel) (k : KeyMsg) : Prop :=
  m.searching = true ∧ k.matches keys.escape = false ∧ k.type = .runes

instance (m : CatalogModel) (k : KeyMsg) : Decidable (m.Clamps k) := instDecidableAnd

instance (m : CatalogModel) (k : KeyMsg) : Decidable (m.Types k) := instDecidableAnd

/-- The window fits a list that replaces the visible one. -/
def FitsList (m : CatalogModel) (files : List FileInfo) : Prop :=
  files ≠ [] →
    if m.visible = [] then m.offset = 0 ∧ 0 < m.height else m.offset < files.length

/-- The files that a search text leaves; without one it is all of them. -/
def found (lower : GoString → GoString) (search : GoString) (files : List FileInfo) :
    List FileInfo :=
  if search = [] then files else matching lower search files

/-- The text in the search box; it does not count when the box is closed. -/
def searchText (m : CatalogModel) : GoString := if m.searching then m.search else []

/-- What a step must meet: a window for the files it is given, or for those that the
new search text leaves. -/
def Fits (lower : GoString → GoString) (m : CatalogModel) : Act → Prop
  | .setFiles files => m.FitsList (found lower m.searchText files)
  | .setSize h => m.visible ≠ [] → m.cursor < m.offset + h
  | .key k =>
    if m.Clamps k then
      m.FitsList (if k.matches keys.escape then m.files
        else found lower m.search.dropLast m.files)
    else if m.Types k then
      m.visible = [] → found lower (m.search ++ encodeRunes k.runes) m.files ≠ [] → 0 < m.height
    else True

/-! ## §2. What a key does. -/

/-- A cursor position in the visible list; the first, if the list is empty. -/
def InRange (m : CatalogModel) (c : Int) : Prop :=
  0 ≤ c ∧ (m.visible = [] → c = 0) ∧ (m.visible ≠ [] → c < m.visible.length)

/-- The list stays as it is, and the cursor does so too or moves and is scrolled
to. -/
def Steady (m m' : CatalogModel) : Prop :=
  m'.visible = m.visible
    ∧ (m'.toViewport = m.toViewport
      ∨ ∃ c, m.InRange c ∧ m'.toViewport = { m.toViewport with cursor := c }.scroll)

theorem inRange_clamp (m : CatalogModel) (v : Viewport) :
    m.InRange (v.clamp m.visible.length).cursor := by
  by_cases hempty : m.visible = []
  · rw [hempty]
    exact ⟨Int.le_refl 0, fun _ => rfl, fun hne => absurd hempty hne⟩
  · have hlen : m.visible.length ≠ 0 := fun h => hempty (List.length_eq_zero_iff.mp h)
    obtain ⟨hlo, hhi⟩ := v.clamp_inList hlen
    exact ⟨hlo, fun h => absurd h hempty, fun _ => hhi⟩

/-- A movement: clamp, then scroll. -/
theorem steady_move (m : CatalogModel) (c : Int) :
    m.Steady ((m.setCursor c).clampCursor).scrollToCursor := by
  have hrange := m.inRange_clamp { m.toViewport with cursor := c }
  refine ⟨rfl, Or.inr ⟨_, hrange, ?_⟩⟩
  show (Viewport.clamp m.visible.length { m.toViewport with cursor := c }).scroll = _
  congr 1
  unfold Viewport.clamp
  split <;> rfl

theorem steady_jump {m : CatalogModel} {c : Int} (h : m.InRange c) :
    m.Steady (m.setCursor c).scrollToCursor :=
  ⟨rfl, Or.inr ⟨c, h, rfl⟩⟩

theorem steady_refl (m : CatalogModel) : m.Steady m := ⟨rfl, Or.inl rfl⟩

theorem steady_toggle (m : CatalogModel) : m.Steady m.toggleSelection := by
  unfold toggleSelection
  split
  · exact m.steady_refl
  · split
    · exact m.steady_refl
    · split
      · exact ⟨rfl, Or.inl rfl⟩
      · exact ⟨rfl, Or.inl rfl⟩

theorem inRange_zero (m : CatalogModel) : m.InRange 0 := by
  refine ⟨Int.le_refl 0, fun _ => rfl, fun hne => ?_⟩
  have hpos := List.length_pos_iff.mpr hne
  omega

theorem inRange_last (m : CatalogModel) : m.InRange (max 0 (m.visible.length - 1)) := by
  refine ⟨by omega, fun hempty => ?_, fun hne => ?_⟩
  · rw [hempty, List.length_nil]
    rfl
  · have hpos := List.length_pos_iff.mpr hne
    omega

/-- After `applyFilter` the list is what the search text leaves. -/
theorem visible_eq_found (lower : GoString → GoString) (m : CatalogModel) :
    (m.applyFilter lower).visible = found lower m.searchText m.files := by
  unfold applyFilter visible found searchText
  cases m.searching with
  | true => by_cases h : m.search = [] <;> simp [h]
  | false => simp

/-- What such a key makes of the search box. -/
def closedOrCut (m : CatalogModel) (k : KeyMsg) : CatalogModel :=
  if k.matches keys.escape then { m with searching := false, search := [] }
  else { m with search := m.search.dropLast }

theorem update_of_clamps {m : CatalogModel} {k : KeyMsg} (h : m.Clamps k)
    (lower : GoString → GoString) :
    m.update lower k = ((m.closedOrCut k).applyFilter lower).clampCursor := by
  obtain ⟨hsearching, hkey⟩ := h
  have hupd : m.update lower k = m.updateSearch lower k := if_pos hsearching
  rw [hupd]
  unfold updateSearch closedOrCut
  by_cases hesc : k.matches keys.escape = true
  · rw [if_pos hesc, if_pos hesc]
  · obtain ⟨hback, hsearch⟩ := hkey.resolve_left hesc
    rw [if_neg hesc, if_neg hesc, if_pos hback, if_pos hsearch]

theorem update_of_types {m : CatalogModel} {k : KeyMsg} (h : m.Types k)
    (lower : GoString → GoString) :
    m.update lower k
      = { { m with search := m.search ++ encodeRunes k.runes }.applyFilter lower with
          toViewport := ⟨0, 0, m.height⟩ } := by
  obtain ⟨hsearching, hesc, hrunes⟩ := h
  have hupd : m.update lower k = m.updateSearch lower k := if_pos hsearching
  have hback : k.type ≠ .backspace := by
    rw [hrunes]
    decide
  rw [hupd]
  unfold updateSearch
  rw [if_neg (Bool.eq_false_iff.mp hesc), if_neg hback, if_pos hrunes]
  rfl

theorem visible_clamps {m : CatalogModel} {k : KeyMsg} (h : m.Clamps k)
    (lower : GoString → GoString) :
    (m.update lower k).visible
      = if k.matches keys.escape then m.files else found lower m.search.dropLast m.files := by
  rw [update_of_clamps h]
  refine (visible_eq_found lower (m.closedOrCut k)).trans ?_
  unfold closedOrCut
  split
  · rfl
  · unfold searchText
    rw [if_pos h.1]

theorem visible_types {m : CatalogModel} {k : KeyMsg} (h : m.Types k)
    (lower : GoString → GoString) :
    (m.update lower k).visible = found lower (m.search ++ encodeRunes k.runes) m.files := by
  rw [update_of_types h]
  refine (visible_eq_found lower { m with search := m.search ++ encodeRunes k.runes }).trans ?_
  unfold searchText
  rw [if_pos h.1]

theorem update_clamps {m : CatalogModel} {k : KeyMsg} (h : m.Clamps k)
    (lower : GoString → GoString) :
    (m.update lower k).toViewport = m.toViewport.clamp (m.update lower k).visible.length := by
  rw [update_of_clamps h]
  unfold closedOrCut
  split
  · rfl
  · rfl

theorem update_types {m : CatalogModel} {k : KeyMsg} (h : m.Types k)
    (lower : GoString → GoString) : (m.update lower k).toViewport = ⟨0, 0, m.height⟩ := by
  rw [update_of_types h]

theorem update_steady {m : CatalogModel} {k : KeyMsg} (hc : ¬ m.Clamps k) (ht : ¬ m.Types k)
    (lower : GoString → GoString) : m.Steady (m.update lower k) := by
  unfold update
  by_cases hsearching : m.searching = true
  · rw [if_pos hsearching]
    unfold updateSearch
    have hesc : k.matches keys.escape = false :=
      Bool.eq_false_iff.mpr fun h => hc ⟨hsearching, Or.inl h⟩
    rw [if_neg (Bool.eq_false_iff.mp hesc)]
    by_cases hback : k.type = .backspace
    · have hsearch : ¬ m.search ≠ [] := fun h => hc ⟨hsearching, Or.inr ⟨hback, h⟩⟩
      rw [if_pos hback, if_neg hsearch]
      exact m.steady_refl
    · rw [if_neg hback, if_neg fun h => ht ⟨hsearching, hesc, h⟩]
      split
      · exact m.steady_move _
      · split
        · exact m.steady_move _
        · exact m.steady_refl
  · rw [if_neg hsearching]
    -- the movements, then the two keys that leave the window alone
    split
    · exact m.steady_move _
    · split
      · exact m.steady_move _
      · split
        · exact steady_jump m.inRange_zero
        · split
          · exact steady_jump m.inRange_last
          · split
            · exact m.steady_move _
            · split
              · exact m.steady_move _
              · split
                · refine ⟨?_, Or.inl rfl⟩
                  simp [visible, hsearching]
                · split
                  · exact m.steady_toggle
                  · exact m.steady_refl

/-! ## §3. One step. -/

/-- What every action establishes. -/
structure Inv (m : CatalogModel) : Prop where
  cursor : m.InRange m.cursor
  offset : 0 ≤ m.offset

theorem inv_new : Inv new := ⟨new.inRange_zero, Int.le_refl 0⟩

theorem inv_clamp {m m' : CatalogModel} (h : Inv m)
    (hview : m'.toViewport = m.toViewport.clamp m'.visible.length) : Inv m' := by
  refine ⟨?_, ?_⟩
  · rw [hview]
    exact m'.inRange_clamp m.toViewport
  · rw [hview, Viewport.clamp_offset]
    exact h.offset

theorem inv_steady {m m' : CatalogModel} (h : Inv m) (hs : m.Steady m') : Inv m' := by
  obtain ⟨hvis, hview | ⟨c, hc, hview⟩⟩ := hs
  · refine ⟨?_, ?_⟩
    · unfold InRange
      rw [hview, hvis]
      exact h.cursor
    · rw [hview]
      exact h.offset
  · refine ⟨?_, ?_⟩
    · unfold InRange
      rw [hview, hvis, Viewport.scroll_cursor]
      exact hc
    · rw [hview]
      exact Viewport.offset_scroll h.offset hc.1

theorem inv_step (lower : GoString → GoString) {m m' : CatalogModel} {a : Act} (h : Inv m)
    (hs : m.step lower a = some m') : Inv m' := by
  cases a with
  | setFiles files =>
    obtain rfl := Option.some.inj hs
    exact inv_clamp h rfl
  | setSize hgt =>
    obtain ⟨-, hs⟩ := Option.ite_none_right_eq_some.mp hs
    obtain rfl := Option.some.inj hs
    exact ⟨h.cursor, h.offset⟩
  | key k =>
    obtain rfl := Option.some.inj hs
    by_cases hc : m.Clamps k
    · exact inv_clamp h (update_clamps hc lower)
    · by_cases ht : m.Types k
      · refine ⟨?_, ?_⟩
        · rw [update_types ht lower]
          exact inRange_zero _
        · rw [update_types ht lower]
      · exact inv_steady h (update_steady hc ht lower)

/-- With the cursor in the list, the rest is a matter of the window. -/
theorem onScreen_iff {m : CatalogModel} (h : Inv m) :
    m.OnScreen ↔ (m.visible ≠ [] → m.Shows) := by
  refine ⟨fun hon hne => (hon hne).2.1, fun hshow hne => ?_⟩
  obtain ⟨hlo, -, hhi⟩ := h.cursor
  have hs := hshow hne
  exact ⟨⟨hlo, hhi hne⟩, hs, (Viewport.mem_lines _ _).mpr ⟨hs.1, hs.2, hhi hne⟩⟩

/-- A list that changes under the window. -/
theorem shows_clamp_iff {m m' : CatalogModel} (h : Inv m) (hon : m.OnScreen)
    (hview : m'.toViewport = m.toViewport.clamp m'.visible.length) :
    (m'.visible ≠ [] → m'.Shows) ↔ m.FitsList m'.visible := by
  unfold FitsList
  refine forall_congr' fun hne => ?_
  have hlen : m'.visible.length ≠ 0 := fun h0 => hne (List.length_eq_zero_iff.mp h0)
  obtain ⟨hlo, hzero, hhi⟩ := h.cursor
  have hoff := h.offset
  unfold Viewport.Shows
  rw [hview, Viewport.clamp_cursor _ hlen, Viewport.clamp_offset, Viewport.clamp_height]
  by_cases hempty : m.visible = []
  · rw [if_pos hempty, hzero hempty]
    omega
  · obtain ⟨-, ⟨hs, hs'⟩, -⟩ := hon hempty
    rw [if_neg hempty]
    omega

theorem shows_steady {m m' : CatalogModel} (hon : m.OnScreen) (hs : m.Steady m')
    (hne : m'.visible ≠ []) : m'.Shows := by
  obtain ⟨hvis, hview⟩ := hs
  rw [hvis] at hne
  obtain ⟨-, hshow, -⟩ := hon hne
  rcases hview with hview | ⟨c, -, hview⟩
  · rw [hview]
    exact hshow
  · have hheight : 0 < m.height := by
      obtain ⟨hlo, hhi⟩ := hshow
      omega
    rw [hview]
    exact Viewport.scroll_shows hheight

/-- A list under a window that has gone to the top. -/
theorem shows_types_iff {m m' : CatalogModel} (hon : m.OnScreen)
    (hview : m'.toViewport = ⟨0, 0, m.height⟩) :
    (m'.visible ≠ [] → m'.Shows) ↔ (m.visible = [] → m'.visible ≠ [] → 0 < m.height) := by
  unfold Viewport.Shows
  rw [hview]
  dsimp only
  constructor
  · intro hshow _ hne
    have hpos := (hshow hne).2
    omega
  · intro hheight hne
    -- a list that was shown before had a window
    have hpos : 0 < m.height := by
      by_cases hempty : m.visible = []
      · exact hheight hempty hne
      · obtain ⟨-, ⟨hlo, hhi⟩, -⟩ := hon hempty
        omega
    omega

/-- **One step** keeps the cursor on the screen exactly if it fits. -/
theorem onScreen_step_iff (lower : GoString → GoString) {m m' : CatalogModel} {a : Act}
    (h : Inv m) (hon : m.OnScreen) (hs : m.step lower a = some m') :
    m'.OnScreen ↔ m.Fits lower a := by
  rw [onScreen_iff (inv_step lower h hs)]
  cases a with
  | setFiles files =>
    obtain rfl := Option.some.inj hs
    have hvis : (m.setFiles lower files).visible = found lower m.searchText files :=
      visible_eq_found lower { m with files := files }
    unfold Fits
    dsimp only
    rw [← hvis]
    exact shows_clamp_iff h hon rfl
  | setSize hgt =>
    obtain ⟨-, hs⟩ := Option.ite_none_right_eq_some.mp hs
    obtain rfl := Option.some.inj hs
    refine forall_congr' fun hne => ?_
    obtain ⟨-, ⟨hlo, -⟩, -⟩ := hon hne
    exact and_iff_right hlo
  | key k =>
    obtain rfl := Option.some.inj hs
    unfold Fits
    dsimp only
    by_cases hc : m.Clamps k
    · rw [if_pos hc, ← visible_clamps hc lower]
      exact shows_clamp_iff h hon (update_clamps hc lower)
    · rw [if_neg hc]
      by_cases ht : m.Types k
      · rw [if_pos ht, ← visible_types ht lower]
        exact shows_types_iff hon (update_types ht lower)
      · rw [if_neg ht]
        exact iff_of_true (shows_steady hon (update_steady hc ht lower)) trivial

/-! ## §4. Every run. -/

/-- **The cursor stays on the screen** in every state of a run, exactly if every
step fits. -/
theorem cursor_on_screen_iff (lower : GoString → GoString) (acts : List Act) :
    StatesMeet (step lower) OnScreen new acts ↔ StepsMeet (step lower) (Fits lower) new acts := by
  refine statesMeet_iff_stepsMeet (J := Inv) ?_ ?_ inv_new (fun hne => absurd rfl hne)
  · exact fun m a m' h hs => inv_step lower h hs
  · exact fun m a m' h hon hs => onScreen_step_iff lower h hon hs

/-- `n` files. -/
def someFiles (n : Nat) : List FileInfo :=
  (List.range n).map fun i =>
    ⟨ascii "f" ++ [UInt8.ofNat (48 + i)], ascii "a.txt", 0, [], [], true⟩

/-- The end of five files in a window of two lines; then four of them are gone. -/
def shrinking : List Act :=
  [.setSize 2, .setFiles (someFiles 5), .key ⟨.runes, ['G'], false, false⟩,
    .setFiles (someFiles 1)]

/-- One file is left, the window starts at the fourth, and nothing is drawn. -/
theorem cursor_above_window :
    ∃ m, run (step id) new shrinking = some m ∧ m.visible.length = 1 ∧ m.cursor = 0
      ∧ m.offset = 3 ∧ m.rendered = [] ∧ ¬ m.OnScreen := by
  have hrun : run (step id) new shrinking = some _ := rfl
  refine ⟨_, hrun, by decide, by decide, by decide, by decide, fun hon => ?_⟩
  exact absurd (hon (by decide)).2.2 (by decide)

end CatalogModel

end Kin.Tui
