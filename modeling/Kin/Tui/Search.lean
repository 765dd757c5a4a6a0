/-
  Kin.Tui.Search

  **TYPING INTO THE SEARCH BOX** (`handleKey` and `updateSearch`, together).

  The user types runes and deletes them again; the box should hold what they
  typed, the list should show the matches, and nothing else should happen.  Two
  things come in between:

      ? p D i J       — global shortcuts, before the search box sees the key
      Backspace       — takes one BYTE off the text

  so the box follows the typing exactly as long as no plain key is one of the
  five and every rune deleted is one byte long
  (`search_box_follows_typing_iff`).  `q` is not among them: it looks at
  `searching`.
-/
import Kin.Lib.Run
import Kin.Tui.Model

namespace Kin.Tui

open Kin.Lib Kin.Daemon

/-! ## §1. One rune and its bytes. -/

/-- A first byte below 128 is the whole encoding. -/
theorem utf8EncodeChar_eq_cons {r : Char} {b : UInt8} {bs : List UInt8} (hb : b < 128)
    (h : String.utf8EncodeChar r = b :: bs) : bs = [] ∧ r.toNat = b.toNat := by
  have hb : b.toNat < 128 := hb
  have hr : r.toNat = r.val.toNat := rfl
  unfold String.utf8EncodeChar at h
  dsimp only at h
  split at h
  · obtain ⟨rfl, rfl⟩ := List.cons.inj h
    refine ⟨rfl, ?_⟩
    rw [UInt8.toNat_ofNat']
    omega
  · exfalso
    -- the first byte of a longer encoding is at least 192
    split at h
    · obtain ⟨rfl, -⟩ := List.cons.inj h
      rw [UInt8.toNat_ofNat'] at hb
      omega
    · split at h
      all_goals
        obtain ⟨rfl, -⟩ := List.cons.inj h
        rw [UInt8.toNat_ofNat'] at hb
        omega

theorem encodeRunes_concat (runes : List Char) (r : Char) :
    encodeRunes (runes ++ [r]) = encodeRunes runes ++ String.utf8EncodeChar r := by
  unfold encodeRunes
  rw [List.flatMap_append, List.flatMap_singleton]

theorem encodeRunes_concat_ne (runes : List Char) (r : Char) :
    encodeRunes runes ≠ encodeRunes (runes ++ [r]) := by
  rw [encodeRunes_concat]
  intro h
  exact String.utf8EncodeChar_ne_nil (List.self_eq_append_right.mp h)

/-- One byte off the text is one rune off the list, for a last rune of one
byte only. -/
theorem dropLast_encodeRunes_iff (runes : List Char) :
    (encodeRunes runes).dropLast = encodeRunes runes.dropLast
      ↔ ∀ r ∈ runes.getLast?, (String.utf8EncodeChar r).length = 1 := by
  rcases List.eq_nil_or_concat' runes with rfl | ⟨init, r, rfl⟩
  · exact iff_of_true rfl (fun r hr => by cases hr)
  · rw [List.dropLast_concat, encodeRunes_concat, List.getLast?_concat]
    have hpos : 0 < (String.utf8EncodeChar r).length :=
      List.length_pos_of_ne_nil String.utf8EncodeChar_ne_nil
    constructor
    · intro h x hx
      obtain rfl := Option.some.inj hx
      have hlen := congrArg List.length h
      rw [List.length_dropLast, List.length_append] at hlen
      omega
    · intro h
      obtain ⟨b, hb⟩ := List.length_eq_one_iff.mp (h r rfl)
      rw [hb, List.dropLast_concat]

/-! ## §2. Keys of one rune. -/

inductive EditKey where
  | rune (r : Char) (alt paste : Bool)
  | backspace (alt : Bool)

namespace EditKey

def msg : EditKey → KeyMsg
  | rune r alt paste => ⟨.runes, [r], alt, paste⟩
  | backspace alt => ⟨.backspace, [], alt, false⟩

/-- What the user means by the key. -/
def edit : EditKey → List Char → List Char
  | rune r _ _, runes => runes ++ [r]
  | backspace _, runes => runes.dropLast

end EditKey

/-- The runes that a binding names by themselves. -/
def Binding.runes (b : Binding) : List Char :=
  b.filterMap (fun t => match t with | [x] => some (Char.ofNat x.toNat) | _ => none)

/-- Texts in ASCII, none of which starts like a key with Alt or like pasted text. -/
def Binding.Plain (b : Binding) : Prop :=
  ∀ t ∈ b, t ≠ [] ∧ t.all (· < 128) = true ∧ t.head? ≠ some 97 ∧ t.head? ≠ some 91

instance (b : Binding) : Decidable b.Plain := by
  unfold Binding.Plain
  infer_instance

/-- A rune matches a binding by itself or not at all: `alt+p`, `[p]` and the
first letter of `tab` do not. -/
theorem rune_matches {b : Binding} (hb : b.Plain) (r : Char) (alt paste : Bool) :
    (EditKey.rune r alt paste).msg.matches b = true
      ↔ alt = false ∧ paste = false ∧ r ∈ b.runes := by
  unfold KeyMsg.matches
  rw [decide_eq_true_iff]
  by_cases halt : alt = true
  · subst halt
    refine iff_of_false (fun h => (hb _ h).2.2.1 rfl) (fun h => by cases h.1)
  · rw [Bool.not_eq_true] at halt
    subst halt
    by_cases hpaste : paste = true
    · subst hpaste
      exact iff_of_false (fun h => (hb _ h).2.2.2 rfl) (fun h => by cases h.2.1)
    · rw [Bool.not_eq_true] at hpaste
      subst hpaste
      have htext : (EditKey.rune r false false).msg.text = String.utf8EncodeChar r := by
        show encodeRunes [r] ++ [] = _
        rw [List.append_nil]
        exact encodeRunes_concat [] r
      rw [htext, and_iff_right rfl, and_iff_right rfl]
      unfold Binding.runes
      rw [List.mem_filterMap]
      constructor
      · intro h
        obtain ⟨hne, hascii, -, -⟩ := hb _ h
        obtain ⟨x, xs, hx⟩ := List.exists_cons_of_ne_nil hne
        have hlt := List.all_eq_true.mp hascii x (hx ▸ List.mem_cons_self)
        obtain ⟨rfl, hr⟩ := utf8EncodeChar_eq_cons (of_decide_eq_true hlt) hx
        refine ⟨_, h, ?_⟩
        rw [hx]
        dsimp only
        rw [← hr, Char.ofNat_toNat]
      · rintro ⟨t, ht, hr⟩
        split at hr
        · next x =>
          obtain rfl := Option.some.inj hr
          have hx : x.toNat < 128 :=
            of_decide_eq_true (List.all_eq_true.mp (hb _ ht).2.1 x List.mem_cons_self)
          have hencode : ∀ n < 128, String.utf8EncodeChar (Char.ofNat n) = [UInt8.ofNat n] := by
            decide
          rw [hencode _ hx, UInt8.ofNat_toNat]
          exact ht
        · cases hr

/-- The runes that a global shortcut takes. -/
def shortcuts : List Char := ['?', 'p', 'D', 'i', 'J']

/-- The shortcuts of `handleKey` below `q`. -/
def IsShortcut (k : KeyMsg) : Prop :=
  k.matches keys.tab ∨ k.matches keys.help ∨ k.matches keys.progress ∨ k.matches keys.download
    ∨ k.matches keys.invite ∨ k.matches keys.join

theorem rune_isShortcut_iff (r : Char) (alt paste : Bool) :
    IsShortcut (EditKey.rune r alt paste).msg
      ↔ alt = false ∧ paste = false ∧ r ∈ shortcuts := by
  have htab : Binding.runes keys.tab = [] := by decide
  have hhelp : Binding.runes keys.help = ['?'] := by decide
  have hprogress : Binding.runes keys.progress = ['p'] := by decide
  have hdownload : Binding.runes keys.download = ['D'] := by decide
  have hinvite : Binding.runes keys.invite = ['i'] := by decide
  have hjoin : Binding.runes keys.join = ['J'] := by decide
  unfold IsShortcut shortcuts
  rw [rune_matches (by decide), rune_matches (by decide), rune_matches (by decide),
    rune_matches (by decide), rune_matches (by decide), rune_matches (by decide),
    htab, hhelp, hprogress, hdownload, hinvite, hjoin]
  simp only [List.mem_cons, List.not_mem_nil, or_false, and_false, false_or, and_or_left]

theorem backspace_not_isShortcut (alt : Bool) : ¬ IsShortcut (EditKey.backspace alt).msg := by
  unfold IsShortcut
  revert alt
  decide

theorem edit_not_tab (k : EditKey) : k.msg.matches keys.tab = false := by
  rw [← Bool.not_eq_true]
  cases k with
  | rune r alt paste =>
    have hnone : Binding.runes keys.tab = [] := by decide
    rw [rune_matches (by decide), hnone]
    rintro ⟨-, -, h⟩
    cases h
  | backspace alt => revert alt; decide

theorem edit_not_escape (k : EditKey) : k.msg.matches keys.escape = false := by
  rw [← Bool.not_eq_true]
  cases k with
  | rune r alt paste =>
    have hnone : Binding.runes keys.escape = [] := by decide
    rw [rune_matches (by decide), hnone]
    rintro ⟨-, -, h⟩
    cases h
  | backspace alt => revert alt; decide

/-! ## §3. One key in the box. -/

namespace CatalogModel

/-- The text after a key. -/
def typed (search : GoString) : EditKey → GoString
  | .rune r _ _ => search ++ String.utf8EncodeChar r
  | .backspace _ => search.dropLast

/-- An empty text matches every file, as `Visible` has it. -/
theorem visible_applyFilter (libs : Libs) {m : CatalogModel} (h : m.searching = true) :
    (m.applyFilter libs.lower).visible = matching libs.lower m.search m.files := by
  unfold visible applyFilter
  dsimp only
  by_cases hempty : m.search = []
  · rw [if_neg (fun hs => hs.2 hempty), hempty]
    unfold matching
    rw [libs.lower_nil, List.filter_eq_self.mpr]
    exact fun f _ => decide_eq_true (List.nil_infix)
  · rw [if_pos ⟨h, hempty⟩, if_neg hempty]

/-- What a key does to the box. -/
structure Typed (libs : Libs) (m : CatalogModel) (k : EditKey) (m' : CatalogModel) : Prop where
  search : m'.search = typed m.search k
  searching : m'.searching = m.searching
  files : m'.files = m.files
  visible : m.visible = matching libs.lower m.search m.files →
    m'.visible = matching libs.lower m'.search m'.files

theorem updateSearch_typed (libs : Libs) {m : CatalogModel} (h : m.searching = true)
    (k : EditKey) : Typed libs m k (m.updateSearch libs.lower k.msg) := by
  unfold updateSearch
  rw [edit_not_escape k, if_neg Bool.false_ne_true]
  cases k with
  | rune r alt paste =>
    have hrune : encodeRunes [r] = String.utf8EncodeChar r := encodeRunes_concat [] r
    have htext : m.search ++ encodeRunes [r] = typed m.search (.rune r alt paste) := by
      rw [hrune]
      rfl
    -- `applyFilter` on the new text, whatever the list was before
    refine ⟨htext, rfl, rfl, fun _ => ?_⟩
    exact visible_applyFilter libs (m := { m with search := m.search ++ encodeRunes [r] }) h
  | backspace alt =>
    rw [if_pos (show (EditKey.backspace alt).msg.type = .backspace from rfl)]
    split
    · refine ⟨rfl, rfl, rfl, fun _ => ?_⟩
      exact visible_applyFilter libs (m := { m with search := m.search.dropLast }) h
    · next hempty =>
      -- there is nothing to delete
      rw [not_not] at hempty
      refine ⟨?_, rfl, rfl, id⟩
      unfold typed
      rw [hempty]
      rfl

end CatalogModel

namespace Model

/-- The box is open and has the focus. -/
structure InSearch (m : Model) : Prop where
  focus : m.focus = .catalog
  searching : m.catalog.searching = true

theorem startDownloads_catalog (m : Model) : m.startDownloads.1.catalog = m.catalog := by
  unfold startDownloads
  split
  · rfl
  · rfl

theorem startDownloads_focus (m : Model) : m.startDownloads.1.focus = m.focus := by
  unfold startDownloads
  split
  · rfl
  · rfl

theorem edit_not_ctrlC (k : EditKey) : k.msg.type ≠ .ctrlC := by
  cases k with
  | rune r alt paste => exact fun h => by cases h
  | backspace alt => exact fun h => by cases h

variable (libs : Libs) {m : Model} {k : EditKey}

/-- A key that no shortcut takes comes to the box. -/
theorem handleKey_box (h : m.InSearch) (hover : m.overlay = none) (hk : ¬ IsShortcut k.msg) :
    m.handleKey libs k.msg
      = ({ m with catalog := m.catalog.updateSearch libs.lower k.msg }, []) := by
  unfold IsShortcut at hk
  push Not at hk
  obtain ⟨htab, hhelp, hprogress, hdownload, hinvite, hjoin⟩ := hk
  unfold handleKey
  rw [if_neg (edit_not_ctrlC k), hover]
  dsimp only
  rw [if_neg (fun hq => by rw [h.searching] at hq; exact absurd hq.2 (by decide)), if_neg htab,
    if_neg hhelp, if_neg hprogress, if_neg hdownload, if_neg hinvite, if_neg hjoin]
  unfold updatePanel CatalogModel.update
  rw [h.focus]
  dsimp only
  rw [if_pos h.searching, hover]

/-- Any other leaves the files as they are. -/
theorem handleKey_elsewhere (h : m.InSearch) (hk : m.overlay ≠ none ∨ IsShortcut k.msg) :
    (m.handleKey libs k.msg).1.catalog = m.catalog
      ∧ (m.handleKey libs k.msg).1.focus = m.focus := by
  unfold handleKey
  rw [if_neg (edit_not_ctrlC k)]
  cases hover : m.overlay with
  | some o => exact ⟨rfl, rfl⟩
  | none =>
    have hk := hk.resolve_left (fun hne => hne hover)
    unfold IsShortcut at hk
    have htab := edit_not_tab k
    dsimp only
    rw [if_neg (fun hq => by rw [h.searching] at hq; exact absurd hq.2 (by decide)),
      if_neg (by rw [htab]; decide)]
    split
    · exact ⟨rfl, rfl⟩
    next hhelp =>
    split
    · exact ⟨rfl, rfl⟩
    next hprogress =>
    split
    · exact ⟨m.startDownloads_catalog, m.startDownloads_focus⟩
    next hdownload =>
    split
    · exact ⟨rfl, rfl⟩
    next hinvite =>
    split
    · exact ⟨rfl, rfl⟩
    next hjoin =>
    simp [htab, hhelp, hprogress, hdownload, hinvite, hjoin] at hk

end Model

/-! ## §4. Every sequence of keys. -/

/-- The model, the runes the user has in mind, and the commands returned. -/
structure Editing where
  model : Model
  runes : List Char
  cmds : List Cmd

namespace Editing

def step (libs : Libs) (s : Editing) (k : EditKey) : Option Editing :=
  let r := s.model.update libs (.key k.msg)
  some ⟨r.1, k.edit s.runes, s.cmds ++ r.2⟩

/-- The box holds the text of the runes, the list shows the matches, and the rest
is as it was in `m₀`. -/
structure Follows (libs : Libs) (m₀ : Model) (s : Editing) : Prop where
  text : s.model.catalog.search = encodeRunes s.runes
  list : s.model.catalog.visible
    = CatalogModel.matching libs.lower s.model.catalog.search m₀.catalog.files
  outside : s.model = { m₀ with catalog := s.model.catalog }
  cmds : s.cmds = []

/-- The key is no shortcut, and a rune that it deletes is one byte long. -/
def Harmless (s : Editing) : EditKey → Prop
  | .rune r alt paste => ¬ (alt = false ∧ paste = false ∧ r ∈ shortcuts)
  | .backspace _ => ∀ r ∈ s.runes.getLast?, (String.utf8EncodeChar r).length = 1

instance (s : Editing) : DecidablePred s.Harmless
  | .rune r alt paste =>
    inferInstanceAs (Decidable (¬ (alt = false ∧ paste = false ∧ r ∈ shortcuts)))
  | .backspace _ => Option.decidableForallMem s.runes.getLast?

/-- What no key changes. -/
structure Open (m₀ : Model) (s : Editing) : Prop where
  inSearch : s.model.InSearch
  files : s.model.catalog.files = m₀.catalog.files

variable {libs : Libs} {m₀ : Model} {s s' : Editing} {k : EditKey}

theorem open_step (h : Open m₀ s) (hs : s.step libs k = some s') : Open m₀ s' := by
  obtain rfl := Option.some.inj hs
  obtain ⟨hin, hfiles⟩ := h
  by_cases hk : s.model.overlay ≠ none ∨ IsShortcut k.msg
  · obtain ⟨hcat, hfocus⟩ := Model.handleKey_elsewhere libs hin hk
    refine ⟨⟨hfocus.trans hin.focus, ?_⟩, ?_⟩
    · exact (congrArg CatalogModel.searching hcat).trans hin.searching
    · exact (congrArg CatalogModel.files hcat).trans hfiles
  · rw [not_or, not_not] at hk
    have hbox := Model.handleKey_box libs hin hk.1 hk.2
    have htyped := CatalogModel.updateSearch_typed libs hin.searching k
    show Open m₀ ⟨(s.model.handleKey libs k.msg).1, _, _⟩
    rw [hbox]
    exact ⟨⟨hin.focus, htyped.searching.trans hin.searching⟩, htyped.files.trans hfiles⟩

/-- A key of the box: the text is right exactly if the last rune was one byte. -/
theorem typed_iff (hk : ¬ IsShortcut k.msg) (text : s.model.catalog.search = encodeRunes s.runes) :
    CatalogModel.typed s.model.catalog.search k = encodeRunes (k.edit s.runes)
      ↔ s.Harmless k := by
  rw [text]
  cases k with
  | rune r alt paste =>
    rw [rune_isShortcut_iff] at hk
    exact iff_of_true (encodeRunes_concat s.runes r).symm hk
  | backspace alt => exact dropLast_encodeRunes_iff s.runes

/-- A shortcut is not typed. -/
theorem shortcut_not_follows (hin : s.model.InSearch) (hf : Follows libs m₀ s)
    (hk : IsShortcut k.msg) (hs : s.step libs k = some s') :
    ¬ Follows libs m₀ s' ∧ ¬ s.Harmless k := by
  cases k with
  | backspace alt => exact absurd hk (backspace_not_isShortcut alt)
  | rune r alt paste =>
    refine ⟨fun hf' => ?_, fun hh => hh ((rune_isShortcut_iff r alt paste).mp hk)⟩
    obtain ⟨hcat, -⟩ := Model.handleKey_elsewhere libs hin (.inr hk)
    obtain rfl := Option.some.inj hs
    have hsame := (congrArg CatalogModel.search hcat).symm.trans hf'.text
    exact encodeRunes_concat_ne s.runes r (hf.text.symm.trans hsame)

/-- **One key** keeps the box in step with the typing exactly if it is harmless. -/
theorem follows_step_iff (hm : m₀.overlay = none) (ho : Open m₀ s) (hf : Follows libs m₀ s)
    (hs : s.step libs k = some s') : Follows libs m₀ s' ↔ s.Harmless k := by
  by_cases hk : IsShortcut k.msg
  · obtain ⟨hnot, hharm⟩ := shortcut_not_follows ho.inSearch hf hk hs
    exact iff_of_false hnot hharm
  · have hover : s.model.overlay = none := by
      rw [hf.outside]
      exact hm
    have hbox := Model.handleKey_box libs ho.inSearch hover hk
    have htyped := CatalogModel.updateSearch_typed libs ho.inSearch.searching k
    obtain rfl := Option.some.inj hs
    rw [← typed_iff hk hf.text]
    show Follows libs m₀
      ⟨(s.model.handleKey libs k.msg).1, _, s.cmds ++ (s.model.handleKey libs k.msg).2⟩ ↔ _
    rw [hbox]
    constructor
    · exact fun hf' => htyped.search.symm.trans hf'.text
    · intro htext
      refine ⟨htyped.search.trans htext, ?_, ?_, ?_⟩
      · have hlist := hf.list
        rw [← ho.files] at hlist
        rw [← ho.files, ← htyped.files]
        exact htyped.visible hlist
      · exact congrArg
          (fun m : Model => { m with catalog := s.model.catalog.updateSearch libs.lower k.msg })
          hf.outside
      · rw [hf.cmds]
        rfl

/-- **The search box follows the typing** over a sequence of keys, exactly if
every key is harmless when it comes. -/
theorem search_box_follows_typing_iff (libs : Libs) (m : Model) (runes : List Char)
    (hfocus : m.focus = .catalog) (hoverlay : m.overlay = none)
    (hsearching : m.catalog.searching = true) (htext : m.catalog.search = encodeRunes runes)
    (hlist : m.catalog.visible
      = CatalogModel.matching libs.lower m.catalog.search m.catalog.files)
    (ks : List EditKey) :
    StatesMeet (step libs) (Follows libs m) ⟨m, runes, []⟩ ks
      ↔ StepsMeet (step libs) Harmless ⟨m, runes, []⟩ ks := by
  refine statesMeet_iff_stepsMeet (J := Open m) ?_ ?_ ⟨⟨hfocus, hsearching⟩, rfl⟩
    ⟨htext, hlist, rfl, rfl⟩
  · exact fun s k s' ho hs => open_step ho hs
  · exact fun s k s' ho hf hs => follows_step_iff hoverlay ho hf hs

/-- A list of two files with the search box open. -/
def boxOpen : Model :=
  { Model.new with
    catalog :=
      { CatalogModel.new with
        files := [⟨ascii "01", ascii "Pip.txt", 0, [], [], true⟩,
          ⟨ascii "02", ascii "a.txt", 0, [], [], true⟩]
        searching := true } }

/-- `é` and `q`, and one step back over the `q`. -/
theorem search_box_follows_typing_quick :
    StatesMeet (step .plain) (Follows .plain boxOpen) ⟨boxOpen, [], []⟩
      [.rune 'é' false false, .rune 'q' false false, .backspace false] := by
  refine (search_box_follows_typing_iff .plain boxOpen [] rfl rfl rfl rfl (by decide) _).mpr ?_
  decide

/-- `p` is not typed: it opens the list of transfers. -/
theorem letter_p_not_typed :
    ∃ s, run (step .plain) ⟨boxOpen, [], []⟩ [.rune 'p' false false] = some s
      ∧ s.model.catalog.search = [] ∧ encodeRunes s.runes = ascii "p"
      ∧ s.model.catalog.visible = boxOpen.catalog.files
      ∧ s.model.progress.visible = true ∧ boxOpen.progress.visible = false
      ∧ ¬ Follows .plain boxOpen s := by
  have hrun : run (step .plain) ⟨boxOpen, [], []⟩ [.rune 'p' false false] = some _ := rfl
  refine ⟨_, hrun, by decide, by decide, by decide, by decide, by decide, fun hf => ?_⟩
  exact absurd hf.text (by decide)

end Editing

end Kin.Tui
