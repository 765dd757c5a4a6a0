/-
  Kin.Lib.Bucket

  **AN ORDERED KEY/VALUE BUCKET.**

  A bucket is a list of key/value pairs, STRICTLY sorted by key; the order is
  a field of the structure, so two pairs with one key cannot be stored.  The
  reader's view is `get`; every update has one `get` lemma, and
  `Bucket.ext_get` says that `get` determines the bucket.

  For byte-string keys (lists over a linear order) a cursor that seeks a
  string `p` and steps while `p` starts the key (`scan`) visits EXACTLY the
  pairs whose key starts with `p` (`scan_eq_filter`).
-/
import Mathlib.Data.List.Lex
import Mathlib.Data.List.Pairwise
import Mathlib.Order.Lattice

namespace Kin.Lib

/-- Pairs strictly sorted by key. -/
structure Bucket (K V : Type*) [LinearOrder K] where
  items : List (K × V)
  sorted : items.Pairwise (fun x y => x.1 < y.1)

namespace Bucket

variable {K V W : Type*} [LinearOrder K]

/-! ## §1. Reading. -/

/-- The value stored under `k`. -/
def get (b : Bucket K V) (k : K) : Option V :=
  (b.items.find? (fun x => x.1 = k)).map Prod.snd

/-- Sorted keys are distinct: one key, one value. -/
theorem value_unique (b : Bucket K V) {k : K} {v w : V}
    (hv : (k, v) ∈ b.items) (hw : (k, w) ∈ b.items) : v = w := by
  by_contra hne
  have hpair : (k, v) ≠ (k, w) := fun h => hne (Prod.mk.inj h).2
  have hkeys : b.items.Pairwise (fun x y => x.1 ≠ y.1) := b.sorted.imp (fun h => ne_of_lt h)
  have : Std.Symm (fun x y : K × V => x.1 ≠ y.1) := ⟨fun _ _ h => Ne.symm h⟩
  exact hkeys.forall hv hw hpair rfl

theorem get_eq_some_iff (b : Bucket K V) {k : K} {v : V} :
    b.get k = some v ↔ (k, v) ∈ b.items := by
  constructor
  · intro h
    obtain ⟨⟨k', v'⟩, hfind, rfl⟩ := Option.map_eq_some_iff.mp h
    have hk : k' = k := by simpa using List.find?_some hfind
    exact hk ▸ List.mem_of_find?_eq_some hfind
  · intro h
    cases hfind : b.items.find? (fun x => x.1 = k) with
    | none =>
      have := List.find?_eq_none.mp hfind (k, v) h
      simp at this
    | some x =>
      obtain ⟨k', v'⟩ := x
      have hk : k' = k := by simpa using List.find?_some hfind
      subst hk
      have hmem := List.mem_of_find?_eq_some hfind
      rw [get, hfind, b.value_unique h hmem]
      rfl

/-- Two buckets that read alike are equal. -/
theorem ext_get {b c : Bucket K V} (h : ∀ k, b.get k = c.get k) : b = c := by
  have hmem : ∀ x, x ∈ b.items ↔ x ∈ c.items := by
    rintro ⟨k, v⟩
    rw [← get_eq_some_iff, ← get_eq_some_iff, h k]
  have hnd : ∀ d : Bucket K V, d.items.Nodup := fun d =>
    d.sorted.imp (fun hlt heq => (ne_of_lt hlt) (congrArg Prod.fst heq))
  have hperm : b.items.Perm c.items := (List.perm_ext_iff_of_nodup (hnd b) (hnd c)).mpr hmem
  have heq : b.items = c.items :=
    hperm.eq_of_pairwise (fun x y _ _ hxy hyx => absurd hxy (not_lt.mpr hyx.le)) b.sorted c.sorted
  cases b
  cases c
  cases heq
  rfl

/-! ## §2. Writing. -/

/-- The empty bucket. -/
def empty : Bucket K V := ⟨[], List.Pairwise.nil⟩

/-- Insert at the key's place, replacing what is stored there. -/
def putItem (k : K) (v : V) : List (K × V) → List (K × V)
  | [] => [(k, v)]
  | (k', v') :: rest =>
    if k < k' then (k, v) :: (k', v') :: rest
    else if k = k' then (k, v) :: rest
    else (k', v') :: putItem k v rest

theorem mem_putItem {k : K} {v : V} {x : K × V} {l : List (K × V)}
    (hs : l.Pairwise (fun x y => x.1 < y.1)) :
    x ∈ putItem k v l ↔ x = (k, v) ∨ (x.1 ≠ k ∧ x ∈ l) := by
  induction l with
  | nil => simp [putItem]
  | cons y rest ih =>
    obtain ⟨k', v'⟩ := y
    obtain ⟨hhead, htail⟩ := List.pairwise_cons.mp hs
    have hrest : ∀ z ∈ rest, k' < z.1 := fun z hz => hhead z hz
    rw [putItem]
    split_ifs with hlt heq
    · -- `k` goes in front: every key of the list is above it
      have hall : ∀ z ∈ (k', v') :: rest, z.1 ≠ k := by
        intro z hz
        rcases List.mem_cons.mp hz with rfl | hz
        · exact ne_of_gt hlt
        · exact ne_of_gt (hlt.trans (hrest z hz))
      rw [List.mem_cons]
      constructor
      · rintro (h | h)
        · exact Or.inl h
        · exact Or.inr ⟨hall x h, h⟩
      · rintro (h | ⟨_, h⟩)
        · exact Or.inl h
        · exact Or.inr h
    · subst heq
      -- the pair under `k` is replaced; nothing behind it has the same key
      rw [List.mem_cons, List.mem_cons]
      constructor
      · rintro (h | h)
        · exact Or.inl h
        · exact Or.inr ⟨ne_of_gt (hrest x h), Or.inr h⟩
      · rintro (h | ⟨hne, rfl | h⟩)
        · exact Or.inl h
        · exact absurd rfl hne
        · exact Or.inr h
    · -- `k` belongs further down
      rw [List.mem_cons, ih htail, List.mem_cons]
      constructor
      · rintro (rfl | h | ⟨hne, h⟩)
        · exact Or.inr ⟨fun h => heq h.symm, Or.inl rfl⟩
        · exact Or.inl h
        · exact Or.inr ⟨hne, Or.inr h⟩
      · rintro (h | ⟨hne, h | h⟩)
        · exact Or.inr (Or.inl h)
        · exact Or.inl h
        · exact Or.inr (Or.inr ⟨hne, h⟩)

theorem putItem_sorted (k : K) (v : V) {l : List (K × V)}
    (hs : l.Pairwise (fun x y => x.1 < y.1)) :
    (putItem k v l).Pairwise (fun x y => x.1 < y.1) := by
  induction l with
  | nil => simp [putItem]
  | cons y rest ih =>
    obtain ⟨k', v'⟩ := y
    obtain ⟨hhead, htail⟩ := List.pairwise_cons.mp hs
    rw [putItem]
    split_ifs with hlt heq
    · refine List.pairwise_cons.mpr ⟨fun z hz => ?_, hs⟩
      rcases List.mem_cons.mp hz with rfl | hz
      · exact hlt
      · exact hlt.trans (hhead z hz)
    · subst heq
      exact List.pairwise_cons.mpr ⟨hhead, htail⟩
    · refine List.pairwise_cons.mpr ⟨fun z hz => ?_, ih htail⟩
      rcases (mem_putItem htail).mp hz with rfl | ⟨_, hz⟩
      · exact lt_of_le_of_ne (not_lt.mp hlt) (fun h => heq h.symm)
      · exact hhead z hz

/-- Store `v` under `k`. -/
def put (b : Bucket K V) (k : K) (v : V) : Bucket K V :=
  ⟨putItem k v b.items, putItem_sorted k v b.sorted⟩

theorem get_put (b : Bucket K V) (k : K) (v : V) (k' : K) :
    (b.put k v).get k' = if k' = k then some v else b.get k' := by
  apply Option.ext
  intro w
  rw [get_eq_some_iff, put, mem_putItem b.sorted]
  split_ifs with h
  · subst h
    simp [eq_comm]
  · simp [h, get_eq_some_iff]

@[simp] theorem get_put_self (b : Bucket K V) (k : K) (v : V) : (b.put k v).get k = some v := by
  simp [get_put]

theorem get_put_of_ne (b : Bucket K V) {k k' : K} (v : V) (h : k' ≠ k) :
    (b.put k v).get k' = b.get k' := by
  simp [get_put, h]

/-- To store what is stored changes nothing. -/
theorem put_eq_self_iff {b : Bucket K V} {k : K} {v : V} : b.put k v = b ↔ b.get k = some v := by
  constructor
  · intro h
    rw [← h, get_put_self]
  · intro hk
    apply ext_get
    intro j
    rw [get_put]
    split_ifs with hj
    · rw [hj, hk]
    · rfl

/-- Keep the pairs whose key passes `p`. -/
def keep (b : Bucket K V) (p : K → Bool) : Bucket K V :=
  ⟨b.items.filter (fun x => p x.1), b.sorted.filter _⟩

theorem get_keep (b : Bucket K V) (p : K → Bool) (k : K) :
    (b.keep p).get k = if p k then b.get k else none := by
  apply Option.ext
  intro v
  rw [get_eq_some_iff, keep, List.mem_filter]
  cases hp : p k
  · simp
  · simp [get_eq_some_iff]

/-- Remove `k`. -/
def delete (b : Bucket K V) (k : K) : Bucket K V := b.keep (fun k' => k' ≠ k)

theorem get_delete (b : Bucket K V) (k k' : K) :
    (b.delete k).get k' = if k' = k then none else b.get k' := by
  rw [delete, get_keep]
  by_cases h : k' = k <;> simp [h]

/-- Remove a list of keys, one after the other. -/
theorem get_foldl_delete (ks : List K) (b : Bucket K V) (k : K) :
    (ks.foldl delete b).get k = if k ∈ ks then none else b.get k := by
  induction ks generalizing b with
  | nil => simp
  | cons a ks ih =>
    rw [List.foldl_cons, ih, get_delete]
    by_cases hk : k ∈ ks <;> by_cases ha : k = a <;> simp [hk, ha]

/-- Apply `f` to every value. -/
def mapVal (f : V → W) (b : Bucket K V) : Bucket K W :=
  ⟨b.items.map (fun x => (x.1, f x.2)), b.sorted.map _ (fun _ _ h => h)⟩

theorem get_mapVal (f : V → W) (b : Bucket K V) (k : K) :
    (b.mapVal f).get k = (b.get k).map f := by
  apply Option.ext
  intro w
  rw [get_eq_some_iff, mapVal, List.mem_map, Option.map_eq_some_iff]
  constructor
  · rintro ⟨⟨k', v⟩, hmem, heq⟩
    obtain ⟨rfl, rfl⟩ := Prod.mk.inj heq
    exact ⟨v, b.get_eq_some_iff.mpr hmem, rfl⟩
  · rintro ⟨v, hv, rfl⟩
    exact ⟨(k, v), b.get_eq_some_iff.mp hv, rfl⟩

end Bucket

/-! ## §3. Prefix scans over byte-string keys. -/

section Scan

variable {α V : Type*} [LinearOrder α]

/-- The lexicographic order, one letter at a time. -/
theorem string_cons_le_cons {a b : α} {l m : List α} :
    a :: l ≤ b :: m ↔ a < b ∨ (a = b ∧ l ≤ m) := by
  have hlt : b :: m < a :: l ↔ b < a ∨ (b = a ∧ m < l) := List.cons_lex_cons_iff
  rw [← not_lt, ← not_lt, hlt]
  rcases lt_trichotomy a b with h | rfl | h
  · simp [h, h.ne', h.not_gt]
  · simp
  · simp [h, h.ne', h.not_gt]

/-- A string is not above any string it starts. -/
theorem le_of_isPrefix {p k : List α} (h : p <+: k) : p ≤ k := by
  induction p generalizing k with
  | nil =>
    rw [← not_lt]
    exact fun hlt => by cases hlt
  | cons a p ih =>
    obtain ⟨t, rfl⟩ := h
    rw [List.cons_append, string_cons_le_cons]
    exact Or.inr ⟨rfl, ih ⟨t, rfl⟩⟩

/-- The strings that start with `p` are an INTERVAL of the order: whatever
lies between `p` and one of them starts with `p`. -/
theorem isPrefix_of_le_of_le {p k k' : List α} (hpk : p ≤ k) (hkk : k ≤ k') (h : p <+: k') :
    p <+: k := by
  induction p generalizing k k' with
  | nil => exact List.nil_prefix
  | cons a p ih =>
    obtain ⟨t, rfl⟩ := h
    cases k with
    | nil => exact absurd (List.Lex.nil : ([] : List α) < a :: p) (not_lt.mpr hpk)
    | cons c k =>
      rw [List.cons_append, string_cons_le_cons] at hkk
      rw [string_cons_le_cons] at hpk
      -- `p ≤ k ≤ k'` squeezes the first letter of `k` between `a` and `a`
      rcases hpk with hac | ⟨rfl, hpk⟩
      · rcases hkk with hca | ⟨rfl, _⟩
        · exact absurd (hac.trans hca) (lt_irrefl a)
        · exact absurd hac (lt_irrefl c)
      · rcases hkk with hca | ⟨_, hkk⟩
        · exact absurd hca (lt_irrefl a)
        · exact List.cons_prefix_cons.mpr ⟨rfl, ih hpk hkk ⟨t, rfl⟩⟩

namespace Bucket

/-- Seek the first key not below `p`, then step while `p` starts the key. -/
def scan (b : Bucket (List α) V) (p : List α) : List (List α × V) :=
  (b.items.dropWhile (fun x => decide (x.1 < p))).takeWhile (fun x => decide (p <+: x.1))

/-- From `p` on, the keys that start with `p` come first. -/
theorem takeWhile_eq_filter {p : List α} {l : List (List α × V)}
    (hs : l.Pairwise (fun x y => x.1 < y.1)) (hge : ∀ x ∈ l, p ≤ x.1) :
    l.takeWhile (fun x => decide (p <+: x.1)) = l.filter (fun x => decide (p <+: x.1)) := by
  induction l with
  | nil => rfl
  | cons x l ih =>
    obtain ⟨hhead, htail⟩ := List.pairwise_cons.mp hs
    by_cases hx : p <+: x.1
    · rw [List.takeWhile_cons_of_pos (by simpa using hx), List.filter_cons_of_pos (by simpa using hx),
        ih htail (fun y hy => hge y (List.mem_cons_of_mem _ hy))]
    · rw [List.takeWhile_cons_of_neg (by simpa using hx), List.filter_cons_of_neg (by simpa using hx)]
      symm
      rw [List.filter_eq_nil_iff]
      intro y hy hpy
      -- a later key cannot start with `p` when this one does not:
      -- `x` lies between `p` and `y`, so it would start with `p` too
      exact hx (isPrefix_of_le_of_le (hge x List.mem_cons_self) (hhead y hy).le (by simpa using hpy))

/-- **A prefix scan visits exactly the keys that start with the prefix.** -/
theorem scan_eq_filter (b : Bucket (List α) V) (p : List α) :
    b.scan p = b.items.filter (fun x => decide (p <+: x.1)) := by
  unfold scan
  have hs := b.sorted
  generalize b.items = l at hs
  induction l with
  | nil => rfl
  | cons x l ih =>
    by_cases hx : x.1 < p
    · -- below `p`: skipped by the seek, and not started by `p`
      have hnp : ¬ p <+: x.1 := fun h => absurd hx (not_lt.mpr (le_of_isPrefix h))
      rw [List.dropWhile_cons_of_pos (by simpa using hx), List.filter_cons_of_neg (by simpa using hnp)]
      exact ih (List.pairwise_cons.mp hs).2
    · -- the seek stops here: nothing from here on is below `p`
      rw [List.dropWhile_cons_of_neg (by simpa using hx)]
      apply takeWhile_eq_filter hs
      intro y hy
      rcases List.mem_cons.mp hy with rfl | hy
      · exact not_lt.mp hx
      · exact (not_lt.mp hx).trans ((List.pairwise_cons.mp hs).1 y hy).le

theorem mem_scan (b : Bucket (List α) V) {p k : List α} {v : V} :
    (k, v) ∈ b.scan p ↔ p <+: k ∧ b.get k = some v := by
  rw [scan_eq_filter, List.mem_filter, get_eq_some_iff]
  simp [and_comm]

/-- A scan depends on the keys that start with the prefix only. -/
theorem scan_congr {b c : Bucket (List α) V} {p : List α}
    (h : ∀ k, p <+: k → b.get k = c.get k) : b.scan p = c.scan p := by
  have hkeep : b.keep (fun k => decide (p <+: k)) = c.keep (fun k => decide (p <+: k)) := by
    apply ext_get
    intro k
    rw [get_keep, get_keep]
    split
    next hk => exact h k (of_decide_eq_true hk)
    next => rfl
  rw [scan_eq_filter, scan_eq_filter]
  exact congrArg items hkeep

end Bucket

end Scan

end Kin.Lib
