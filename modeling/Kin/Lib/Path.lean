/-
  Kin.Lib.Path

  **SLASH-SEPARATED PATHS** (`filepath.Clean` and `filepath.Join` on Unix).

  A path is cleaned element by element: empty elements and `.` go, `..` takes
  the element before it along, and stays only at the front of a relative path.
  A cleaned path is kept as the list of what is left.

    • `join_child` — joining a directory and a proper name appends the name,
    • `filepathBase_cases` — what `filepath.Base` can return.
-/
import Mathlib.Data.List.TakeWhile
import Kin.Lib.GoStd

namespace Kin.Lib

/-- `/`. -/
def slash : UInt8 := 0x2F

def thisDir : GoString := ascii "."

def parentDir : GoString := ascii ".."

/-- A path after `filepath.Clean`. -/
structure CleanPath where
  rooted : Bool
  elems : List GoString
  deriving DecidableEq

namespace CleanPath

/-- What one element does to the elements written before it. -/
def push (rooted : Bool) (out : List GoString) (e : GoString) : List GoString :=
  if e = [] ∨ e = thisDir then out
  else if e = parentDir then
    match out.getLast? with
    | some last => if last = parentDir then out ++ [parentDir] else out.dropLast
    -- above the root is the root
    | none => if rooted then out else [parentDir]
  else out ++ [e]

def ofPath (path : GoString) : CleanPath where
  rooted := path.head? == some slash
  elems := (path.splitOn slash).foldl (push (path.head? == some slash)) []

/-- The text of a cleaned path. -/
def text (p : CleanPath) : GoString :=
  if p.rooted then slash :: [slash].intercalate p.elems
  else if p.elems = [] then thisDir
  else [slash].intercalate p.elems

/-- The path of something in the directory. -/
def child (p : CleanPath) (name : GoString) : CleanPath := { p with elems := p.elems ++ [name] }

end CleanPath

open CleanPath

def clean (path : GoString) : GoString := (ofPath path).text

/-- `filepath.Join(dir, name)`: empty elements are left out. -/
def join (dir name : GoString) : GoString :=
  if dir ≠ [] then clean (dir ++ slash :: name)
  else if name ≠ [] then clean name
  else []

example : join (ascii "/home/kin/Shared") (ascii "a.txt") = ascii "/home/kin/Shared/a.txt" := by
  decide
example : join (ascii "/home//kin/./Shared/") (ascii "..") = ascii "/home/kin" := by decide
example : join (ascii "../up") (ascii "..") = ascii ".." := by decide
example : join (ascii "/") (ascii "..") = ascii "/" := by decide

/-- A name that stands for an entry of a directory. -/
def ProperName (name : GoString) : Prop :=
  name ≠ [] ∧ slash ∉ name ∧ name ≠ thisDir ∧ name ≠ parentDir

/-- `path` is the path of an entry of `dir`. -/
def IsChild (dir path : GoString) : Prop :=
  ∃ name, ProperName name ∧ path = ((ofPath dir).child name).text

theorem push_proper (rooted : Bool) (out : List GoString) {name : GoString} (h : ProperName name) :
    push rooted out name = out ++ [name] := by
  obtain ⟨hne, -, hdot, hdotdot⟩ := h
  unfold push
  rw [if_neg (not_or.mpr ⟨hne, hdot⟩), if_neg hdotdot]

theorem ofPath_append_child {dir name : GoString} (hdir : dir ≠ []) (h : ProperName name) :
    ofPath (dir ++ slash :: name) = (ofPath dir).child name := by
  have hhead : (dir ++ slash :: name).head? = dir.head? := by
    rw [List.head?_append]
    cases dir with
    | nil => exact absurd rfl hdir
    | cons b rest => rfl
  have hsplit : (dir ++ slash :: name).splitOn slash = dir.splitOn slash ++ [name] := by
    rw [List.splitOn_append_cons_self, List.splitOn_eq_singleton h.2.1]
  unfold ofPath child
  rw [hhead, hsplit, List.foldl_append, List.foldl_cons, List.foldl_nil, push_proper _ _ h]

theorem ofPath_proper {name : GoString} (h : ProperName name) :
    ofPath name = (ofPath []).child name := by
  have hhead : (name.head? == some slash) = false := by
    cases name with
    | nil => exact absurd rfl h.1
    | cons b rest =>
      have hb : b ≠ slash := fun hb => h.2.1 (hb ▸ List.mem_cons_self)
      simp [hb]
  unfold ofPath child
  rw [hhead, List.splitOn_eq_singleton h.2.1, List.foldl_cons, List.foldl_nil, push_proper _ _ h]
  rfl

/-- **Joining a directory and a proper name.** -/
theorem join_child (dir : GoString) {name : GoString} (h : ProperName name) :
    join dir name = ((ofPath dir).child name).text := by
  unfold join clean
  by_cases hdir : dir = []
  · subst hdir
    rw [if_neg (not_not_intro rfl), if_pos h.1, ofPath_proper h]
  · rw [if_pos hdir, ofPath_append_child hdir h]

theorem isChild_join (dir : GoString) {name : GoString} (h : ProperName name) :
    IsChild dir (join dir name) := ⟨name, h, join_child dir h⟩

/-- **What `filepath.Base` can return**: `/`, or a text without a slash. -/
theorem filepathBase_cases (path : GoString) :
    filepathBase path = [slash] ∨ (filepathBase path ≠ [] ∧ slash ∉ filepathBase path) := by
  unfold filepathBase
  split
  · exact Or.inr ⟨by decide, by decide⟩
  · dsimp only
    split
    · exact Or.inl rfl
    next hne =>
      refine Or.inr ⟨hne, fun hmem => ?_⟩
      have htake := List.mem_reverse.mp hmem
      have hp := List.mem_takeWhile_imp htake
      simp [slash] at hp

theorem filepathBase_proper {path : GoString} (hdot : filepathBase path ≠ thisDir)
    (hroot : filepathBase path ≠ [slash]) (hdotdot : filepathBase path ≠ parentDir) :
    ProperName (filepathBase path) := by
  rcases filepathBase_cases path with h | ⟨hne, hslash⟩
  · exact absurd h hroot
  · exact ⟨hne, hslash, hdot, hdotdot⟩

end Kin.Lib
