/-
  Kin.Lib.Slices

  **PROGRAMS THAT CUT SLICES OUT OF A BUFFER.**

  A slice expression out of range stops a Go program with a run-time error.
  Here a program over a buffer is a tree: it returns, it stops with such an
  error, or it asks for `data[lo:hi]` and goes on with the bytes.  What it does
  can depend on the buffer through these bytes only.

    • `exec` — the ranges asked for, and the result,
    • `Safe data n p a` — on `data` the program returns `a`, and every range it
      has asked for is in order and ends at `n` or before,
    • `Safe.ret`, `Safe.read_iff`, `Safe.bind` — the rules, one for each construct,
    • `Safe.congr` — bytes from `n` on play no part.
-/
import Kin.Lib.GoStd

namespace Kin.Lib

/-- A program over a buffer. -/
inductive Slices (α : Type) where
  | ret (a : α)
  /-- A run-time error. -/
  | fault
  | read (lo hi : Nat) (next : GoString → Slices α)

namespace Slices

variable {α β : Type}

def bind (p : Slices α) (f : α → Slices β) : Slices β :=
  match p with
  | ret a => f a
  | fault => fault
  | read lo hi next => read lo hi (fun b => (next b).bind f)

instance : Monad Slices where
  pure := ret
  bind := bind

/-- `data[lo:hi]`. -/
def get (lo hi : Nat) : Slices GoString := read lo hi ret

/-- The bytes of `data[lo:hi]`. -/
def cut (data : GoString) (lo hi : Nat) : GoString := (data.drop lo).take (hi - lo)

/-- The ranges asked for, in order, and the result; `none` is a run-time error. -/
def exec (data : GoString) : Slices α → List (Nat × Nat) × Option α
  | ret a => ([], some a)
  | fault => ([], none)
  | read lo hi next =>
    if lo ≤ hi ∧ hi ≤ data.length then
      let r := (next (cut data lo hi)).exec data
      ((lo, hi) :: r.1, r.2)
    else ([(lo, hi)], none)

/-- On `data` the program returns `a`, without a run-time error and without a
byte from position `n` on. -/
def Safe (data : GoString) (n : Nat) (p : Slices α) (a : α) : Prop :=
  (p.exec data).2 = some a ∧ ∀ r ∈ (p.exec data).1, r.1 ≤ r.2 ∧ r.2 ≤ n

namespace Safe

variable {data : GoString} {n : Nat}

theorem ret (a : α) : Safe data n (.ret a) a := ⟨rfl, fun _ hr => nomatch hr⟩

/-- `n` may lie beyond the buffer: the range is held against both. -/
theorem read_iff {lo hi : Nat} {next : GoString → Slices α} {a : α} :
    Safe data n (.read lo hi next) a
      ↔ lo ≤ hi ∧ hi ≤ n ∧ hi ≤ data.length ∧ Safe data n (next (cut data lo hi)) a := by
  unfold Safe
  rw [exec]
  by_cases hrange : lo ≤ hi ∧ hi ≤ data.length
  · rw [if_pos hrange]
    dsimp only
    rw [List.forall_mem_cons]
    constructor
    · rintro ⟨hres, hfirst, hranges⟩
      exact ⟨hfirst.1, hfirst.2, hrange.2, hres, hranges⟩
    · rintro ⟨hlo, hhi, -, hres, hranges⟩
      exact ⟨hres, ⟨hlo, hhi⟩, hranges⟩
  · rw [if_neg hrange]
    constructor
    · rintro ⟨hres, -⟩
      cases hres
    · rintro ⟨hlo, -, hlen, -⟩
      exact absurd ⟨hlo, hlen⟩ hrange

theorem bind {p : Slices α} {f : α → Slices β} {a : α} {b : β} (hp : Safe data n p a)
    (hf : Safe data n (f a) b) : Safe data n (p >>= f) b := by
  induction p with
  | ret c =>
    cases hp.1
    exact hf
  | fault => cases hp.1
  | read lo hi next ih =>
    obtain ⟨hlo, hhi, hlen, hnext⟩ := read_iff.mp hp
    exact read_iff.mpr ⟨hlo, hhi, hlen, ih (cut data lo hi) hnext⟩

theorem get {lo hi : Nat} (hlo : lo ≤ hi) (hhi : hi ≤ n) (hn : n ≤ data.length) :
    Safe data n (Slices.get lo hi) (cut data lo hi) :=
  read_iff.mpr ⟨hlo, hhi, Nat.le_trans hhi hn, ret _⟩

theorem cut_congr {data' : GoString} {lo hi : Nat} (hhi : hi ≤ n)
    (htake : data.take n = data'.take n) : cut data lo hi = cut data' lo hi := by
  have hcut : ∀ d : GoString, cut d lo hi = cut (d.take n) lo hi := by
    intro d
    unfold cut
    rw [List.drop_take, List.take_take]
    congr 1
    omega
  rw [hcut data, hcut data', htake]

/-- **Bytes that are not read play no part.** -/
theorem congr {data' : GoString} {p : Slices α} {a : α} (h : Safe data n p a)
    (hlen : data.length = data'.length) (htake : data.take n = data'.take n) :
    Safe data' n p a := by
  induction p with
  | ret c => exact h
  | fault => cases h.1
  | read lo hi next ih =>
    obtain ⟨hlo, hhi, hin, hnext⟩ := read_iff.mp h
    rw [cut_congr hhi htake] at hnext
    exact read_iff.mpr ⟨hlo, hhi, hlen ▸ hin, ih (cut data' lo hi) hnext⟩

/-- A program returns one value. -/
theorem unique {p : Slices α} {a b : α} (ha : Safe data n p a) (hb : Safe data n p b) : a = b :=
  Option.some.inj (ha.1.symm.trans hb.1)

end Safe

end Slices

end Kin.Lib
