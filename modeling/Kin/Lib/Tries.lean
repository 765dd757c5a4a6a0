/-
  Kin.Lib.Tries

  **ONE TRY AFTER ANOTHER, UNTIL ONE SUCCEEDS.**

  A loop over addresses: each is tried once, the first success ends it.  The `k`-th
  try of all gets the number `k`, since what it meets depends on when it is made.

    • `AllFail attempt k addrs` — the tries `k`, `k + 1`, … on `addrs` all fail,
    • `FirstOk attempt k addrs m res` — the `m`-th of `addrs` is the first to succeed,
    • `unique` — there is one such result,
    • `append`, `after`, `left`, `map` — for a loop that follows another one.
-/
import Mathlib.Data.List.Basic

namespace Kin.Lib.Tries

variable {A B E R : Type}

/-- The tries from number `k` on fail, one for each of the addresses. -/
def AllFail (attempt : Nat → A → Except E R) (k : Nat) (addrs : List A) : Prop :=
  ∀ (j : Nat) addr, addrs[j]? = some addr → ∃ err, attempt (k + j) addr = .error err

/-- The try for the `m`-th address succeeds, and those before it fail. -/
def FirstOk (attempt : Nat → A → Except E R) (k : Nat) (addrs : List A) (m : Nat)
    (res : R) : Prop :=
  AllFail attempt k (addrs.take m)
    ∧ ∃ addr, addrs[m]? = some addr ∧ attempt (k + m) addr = .ok res

section Append

variable {attempt : Nat → A → Except E R} {k : Nat}

theorem allFail_nil : AllFail attempt k [] := by
  intro j addr h
  cases h

theorem allFail_cons {addr : A} {addrs : List A} {err : E}
    (h : attempt k addr = .error err) (hrest : AllFail attempt (k + 1) addrs) :
    AllFail attempt k (addr :: addrs) := by
  intro j a ha
  cases j with
  | zero =>
    rw [List.getElem?_cons_zero] at ha
    rw [← Option.some.inj ha]
    exact ⟨err, h⟩
  | succ j =>
    obtain ⟨err', herr⟩ := hrest j a ha
    refine ⟨err', ?_⟩
    rw [show k + (j + 1) = k + 1 + j by omega]
    exact herr

theorem AllFail.append {addrs more : List A} (h : AllFail attempt k addrs)
    (hmore : AllFail attempt (k + addrs.length) more) : AllFail attempt k (addrs ++ more) := by
  intro j a ha
  rcases Nat.lt_or_ge j addrs.length with hlt | hge
  · rw [List.getElem?_append_left hlt] at ha
    exact h j a ha
  · rw [List.getElem?_append_right hge] at ha
    obtain ⟨err, herr⟩ := hmore _ a ha
    refine ⟨err, ?_⟩
    rw [show k + j = k + addrs.length + (j - addrs.length) by omega]
    exact herr

theorem FirstOk.lt {addrs : List A} {m : Nat} {res : R} (h : FirstOk attempt k addrs m res) :
    m < addrs.length := by
  obtain ⟨-, addr, haddr, -⟩ := h
  exact (List.getElem?_eq_some_iff.mp haddr).1

theorem AllFail.not_firstOk {addrs : List A} (h : AllFail attempt k addrs) (m : Nat) (res : R) :
    ¬ FirstOk attempt k addrs m res := by
  rintro ⟨-, addr, haddr, hok⟩
  obtain ⟨err, herr⟩ := h m addr haddr
  rw [hok] at herr
  cases herr

theorem FirstOk.not_lt {addrs : List A} {m m' : Nat} {res res' : R}
    (h : FirstOk attempt k addrs m res) (h' : FirstOk attempt k addrs m' res') : ¬ m < m' := by
  intro hlt
  obtain ⟨-, addr, haddr, hok⟩ := h
  have hbefore : (addrs.take m')[m]? = some addr := by
    rw [List.getElem?_take_of_lt hlt]
    exact haddr
  obtain ⟨err, herr⟩ := h'.1 m addr hbefore
  rw [hok] at herr
  cases herr

/-- There is one first success. -/
theorem FirstOk.unique {addrs : List A} {m m' : Nat} {res res' : R}
    (h : FirstOk attempt k addrs m res) (h' : FirstOk attempt k addrs m' res') : res = res' := by
  have hle : m ≤ m' := Nat.le_of_not_lt (h'.not_lt h)
  have hge : m' ≤ m := Nat.le_of_not_lt (h.not_lt h')
  have hm : m = m' := Nat.le_antisymm hle hge
  subst hm
  obtain ⟨-, addr, haddr, hok⟩ := h
  obtain ⟨-, addr', haddr', hok'⟩ := h'
  rw [haddr] at haddr'
  rw [← Option.some.inj haddr', hok] at hok'
  injection hok'

theorem FirstOk.after {addrs more : List A} {m : Nat} {res : R}
    (hmore : FirstOk attempt (k + addrs.length) more m res) (h : AllFail attempt k addrs) :
    FirstOk attempt k (addrs ++ more) (addrs.length + m) res := by
  obtain ⟨hfail, addr, haddr, hok⟩ := hmore
  refine ⟨?_, addr, ?_, ?_⟩
  · rw [List.take_length_add_append]
    exact h.append hfail
  · rw [List.getElem?_append_right (Nat.le_add_right _ _), Nat.add_sub_cancel_left]
    exact haddr
  · rw [← Nat.add_assoc]
    exact hok

theorem FirstOk.left {addrs : List A} {m : Nat} {res : R} (h : FirstOk attempt k addrs m res)
    (more : List A) : FirstOk attempt k (addrs ++ more) m res := by
  have hlt : m < addrs.length := h.lt
  obtain ⟨hfail, addr, haddr, hok⟩ := h
  refine ⟨?_, addr, ?_, hok⟩
  · rw [List.take_append_of_le_length (Nat.le_of_lt hlt)]
    exact hfail
  · rw [List.getElem?_append_left hlt]
    exact haddr

end Append

/-- The tries through a map of the addresses. -/
theorem AllFail.map {attempt : Nat → B → Except E R} {f : A → B} {k : Nat}
    {addrs : List A} (h : AllFail (fun k a => attempt k (f a)) k addrs) :
    AllFail attempt k (addrs.map f) := by
  intro j b hb
  rw [List.getElem?_map] at hb
  obtain ⟨a, ha, rfl⟩ := Option.map_eq_some_iff.mp hb
  exact h j a ha

theorem FirstOk.map {attempt : Nat → B → Except E R} {f : A → B} {k m : Nat}
    {addrs : List A} {res : R} (h : FirstOk (fun k a => attempt k (f a)) k addrs m res) :
    FirstOk attempt k (addrs.map f) m res := by
  obtain ⟨hfail, addr, haddr, hok⟩ := h
  refine ⟨?_, f addr, ?_, hok⟩
  · rw [← List.map_take]
    exact hfail.map
  · rw [List.getElem?_map, haddr]
    rfl

end Kin.Lib.Tries
