/-
  Kin.Lib.Timers

  **TIMERS WITH A FUNCTION** (`time.AfterFunc`, `Timer.Stop`, `Timer.Reset`).

  A timer is armed when it is created.  While it is armed it may fire, at any
  moment: it is then disarmed, and its function starts in a goroutine of its own.
  `Stop` disarms a timer and does not reach a function that has started; `Reset`
  arms it, whether or not it has fired before.  When an armed timer fires is left
  open, so what holds here holds for every delay.

    • `armed_afterFunc`, `armed_reset`, `armed_stop_of_ne`, `armed_of_fire` — what
      an operation does to "some armed timer has this function",
    • `Runs` — the function of a timer, which no operation changes,
    • `countP_armed_fire` — with a timer that fires, one less is armed.
-/
import Kin.Lib.Run

namespace Kin.Lib

/-- A timer; `fn` stands for its function. -/
structure FuncTimer (α : Type*) where
  fn : α
  armed : Bool
  deriving DecidableEq

def FuncTimer.arm {α : Type*} (armed : Bool) (t : FuncTimer α) : FuncTimer α :=
  { t with armed := armed }

/-- Every timer created so far; its number is its place. -/
abbrev Timers (α : Type*) := List (FuncTimer α)

namespace Timers

variable {α : Type*} {ts ts' : Timers α} {i j : Nat} {fn fn' : α}

/-! ## §1. The operations. -/

/-- The new timer has the number `ts.length`. -/
def afterFunc (ts : Timers α) (fn : α) : Timers α := ts ++ [⟨fn, true⟩]

def stop (ts : Timers α) (i : Nat) : Timers α := ts.modify i (FuncTimer.arm false)

def reset (ts : Timers α) (i : Nat) : Timers α := ts.modify i (FuncTimer.arm true)

/-- An armed timer fires: the function that starts, and the timers then. -/
def fire (ts : Timers α) (i : Nat) : Option (α × Timers α) :=
  match ts[i]? with
  | none => none
  | some t => if t.armed then some (t.fn, ts.stop i) else none

/-- Timer `i` has the function `fn`. -/
def Runs (ts : Timers α) (i : Nat) (fn : α) : Prop := ∃ armed, ts[i]? = some ⟨fn, armed⟩

/-- An armed timer has the function `fn`. -/
def Armed (ts : Timers α) (fn : α) : Prop := ∃ i : Nat, ts[i]? = some ⟨fn, true⟩

/-! ## §2. One timer after an operation. -/

theorem getElem?_stop_self (h : ts.Runs i fn) : (ts.stop i)[i]? = some ⟨fn, false⟩ := by
  obtain ⟨armed, h⟩ := h
  simp [stop, h, FuncTimer.arm]

theorem getElem?_stop_of_ne (h : i ≠ j) : (ts.stop i)[j]? = ts[j]? := by
  simp [stop, h]

/-- A stopped timer is not armed. -/
theorem stop_disarms (ts : Timers α) (i j : Nat) (fn : α) (h : ts[j]? ≠ some ⟨fn, true⟩ ∨ i = j) :
    (ts.stop i)[j]? ≠ some ⟨fn, true⟩ := by
  intro harmed
  by_cases hij : i = j
  · subst hij
    cases ht : ts[i]? with
    | none => simp [stop, ht] at harmed
    | some t =>
      rw [getElem?_stop_self ⟨t.armed, ht⟩] at harmed
      cases harmed
  · rw [getElem?_stop_of_ne hij] at harmed
    exact h.elim (fun hne => hne harmed) hij

theorem getElem?_reset_self (h : ts.Runs i fn) : (ts.reset i)[i]? = some ⟨fn, true⟩ := by
  obtain ⟨armed, h⟩ := h
  simp [reset, h, FuncTimer.arm]

theorem getElem?_reset_of_ne (h : i ≠ j) : (ts.reset i)[j]? = ts[j]? := by
  simp [reset, h]

theorem fire_eq_some :
    ts.fire i = some (fn, ts') ↔ ts[i]? = some ⟨fn, true⟩ ∧ ts' = ts.stop i := by
  unfold fire
  cases ts[i]? with
  | none => simp
  | some t =>
    obtain ⟨f, armed⟩ := t
    cases armed with
    | false => simp
    | true => simp [eq_comm]

/-- Another timer may fire before or after one is armed. -/
theorem fire_reset_of_ne (hij : i ≠ j) (hf : ts.fire i = some (fn, ts')) :
    (ts.reset j).fire i = some (fn, ts'.reset j) := by
  obtain ⟨hi, rfl⟩ := fire_eq_some.mp hf
  refine fire_eq_some.mpr ⟨(getElem?_reset_of_ne hij.symm).trans hi, ?_⟩
  exact List.modify_modify_ne _ _ ts hij

theorem stop_eq_set (h : ts.Runs i fn) : ts.stop i = ts.set i ⟨fn, false⟩ := by
  obtain ⟨armed, h⟩ := h
  simp [stop, List.modify_eq_set_getElem?, h, FuncTimer.arm]

theorem reset_eq_set (h : ts.Runs i fn) : ts.reset i = ts.set i ⟨fn, true⟩ := by
  obtain ⟨armed, h⟩ := h
  simp [reset, List.modify_eq_set_getElem?, h, FuncTimer.arm]

/-! ## §3. The function of a timer. -/

theorem Runs.unique (h : ts.Runs i fn) (h' : ts.Runs i fn') : fn = fn' := by
  obtain ⟨armed, h⟩ := h
  obtain ⟨armed', h'⟩ := h'
  rw [h] at h'
  exact congrArg FuncTimer.fn (Option.some.inj h')

theorem Runs.stop (h : ts.Runs i fn) (j : Nat) : (ts.stop j).Runs i fn := by
  by_cases hij : j = i
  · subst hij
    exact ⟨false, getElem?_stop_self h⟩
  · obtain ⟨armed, h⟩ := h
    exact ⟨armed, (getElem?_stop_of_ne hij).trans h⟩

theorem Runs.reset (h : ts.Runs i fn) (j : Nat) : (ts.reset j).Runs i fn := by
  by_cases hij : j = i
  · subst hij
    exact ⟨true, getElem?_reset_self h⟩
  · obtain ⟨armed, h⟩ := h
    exact ⟨armed, (getElem?_reset_of_ne hij).trans h⟩

theorem Runs.of_reset (h : (ts.reset j).Runs i fn) : ts.Runs i fn := by
  cases ht : ts[i]? with
  | none =>
    obtain ⟨armed, h⟩ := h
    simp [Timers.reset, List.getElem?_modify, ht] at h
  | some t =>
    have hruns : ts.Runs i t.fn := ⟨t.armed, ht⟩
    rw [h.unique (hruns.reset j)]
    exact hruns

theorem Runs.afterFunc (h : ts.Runs i fn) (f : α) : (ts.afterFunc f).Runs i fn := by
  obtain ⟨armed, h⟩ := h
  exact ⟨armed, getElem?_concat_of h⟩

theorem runs_afterFunc (ts : Timers α) (fn : α) : (ts.afterFunc fn).Runs ts.length fn :=
  ⟨true, by simp [Timers.afterFunc]⟩

theorem Runs.fire (h : ts.Runs i fn) (hf : ts.fire j = some (fn', ts')) : ts'.Runs i fn := by
  rw [(fire_eq_some.mp hf).2]
  exact h.stop j

/-! ## §4. Whose timer is armed. -/

theorem armed_afterFunc : (ts.afterFunc fn).Armed fn' ↔ ts.Armed fn' ∨ fn = fn' := by
  constructor
  · intro ha
    obtain ⟨i, h⟩ := ha
    rcases getElem?_concat_cases h with ⟨_, h⟩ | h
    · exact Or.inr (congrArg FuncTimer.fn h).symm
    · exact Or.inl ⟨i, h⟩
  · intro h
    rcases h with ⟨i, h⟩ | rfl
    · exact ⟨i, getElem?_concat_of h⟩
    · exact ⟨ts.length, by simp [Timers.afterFunc]⟩

theorem armed_reset (h : ts.Runs i fn) : (ts.reset i).Armed fn' ↔ ts.Armed fn' ∨ fn = fn' := by
  constructor
  · intro ha
    obtain ⟨j, hj⟩ := ha
    by_cases hij : i = j
    · subst hij
      rw [getElem?_reset_self h] at hj
      exact Or.inr (congrArg FuncTimer.fn (Option.some.inj hj))
    · exact Or.inl ⟨j, (getElem?_reset_of_ne hij).symm.trans hj⟩
  · intro ha
    rcases ha with ⟨j, hj⟩ | rfl
    · by_cases hij : i = j
      · subst hij
        rw [h.unique ⟨true, hj⟩] at h
        exact ⟨i, getElem?_reset_self h⟩
      · exact ⟨j, (getElem?_reset_of_ne hij).trans hj⟩
    · exact ⟨i, getElem?_reset_self h⟩

/-- `Stop` disarms no timer with another function. -/
theorem armed_stop_of_ne (h : ts.Runs i fn) (hne : fn ≠ fn') (ha : ts.Armed fn') :
    (ts.stop i).Armed fn' := by
  obtain ⟨j, hj⟩ := ha
  have hij : i ≠ j := by
    intro heq
    subst heq
    exact hne (h.unique ⟨true, hj⟩)
  exact ⟨j, (getElem?_stop_of_ne hij).trans hj⟩

/-- A timer that is stopped and armed again might as well not have been stopped. -/
theorem reset_stop (ts : Timers α) (i : Nat) : (ts.stop i).reset i = ts.reset i :=
  List.modify_modify_eq _ _ i ts

/-- When a timer fires, its function starts; the other timers stay as they are. -/
theorem armed_of_fire (hf : ts.fire i = some (fn, ts')) (ha : ts.Armed fn') :
    ts'.Armed fn' ∨ fn = fn' := by
  obtain ⟨hi, rfl⟩ := fire_eq_some.mp hf
  by_cases hne : fn = fn'
  · exact Or.inr hne
  · exact Or.inl (armed_stop_of_ne ⟨true, hi⟩ hne ha)

/-! ## §5. How many are armed. -/

theorem countP_armed_fire (hf : ts.fire i = some (fn, ts')) :
    ts'.countP FuncTimer.armed + 1 = ts.countP FuncTimer.armed := by
  obtain ⟨hi, rfl⟩ := fire_eq_some.mp hf
  rw [stop_eq_set ⟨true, hi⟩]
  simpa using countP_set_add hi (⟨fn, false⟩ : FuncTimer α) FuncTimer.armed

theorem exists_fire (h : ts.countP FuncTimer.armed ≠ 0) : ∃ i fn ts', ts.fire i = some (fn, ts') := by
  obtain ⟨t, ht, harmed⟩ := List.countP_pos_iff.mp (Nat.pos_of_ne_zero h)
  obtain ⟨fn, armed⟩ := t
  obtain ⟨i, hi⟩ := List.mem_iff_getElem?.mp ht
  exact ⟨i, fn, ts.stop i, fire_eq_some.mpr ⟨by rw [hi]; exact congrArg _ (congrArg _ harmed), rfl⟩⟩

theorem not_armed_of_countP (h : ts.countP FuncTimer.armed = 0) (fn : α) : ¬ ts.Armed fn := by
  intro ha
  obtain ⟨i, hi⟩ := ha
  exact List.countP_eq_zero.mp h _ (List.mem_of_getElem? hi) rfl

end Timers

end Kin.Lib
