/-
  Kin.Lib.Reader

  **READERS THAT DELIVER IN FRAGMENTS** (`io.Reader`, `io.ReadFull`).

  A `Read` returns as much of the next fragment as its buffer takes; a fragment
  may be empty, and the error that ends the stream comes alone or together with
  the last bytes.  `ReadFull` calls `Read` until its buffer is full.

    • `readFull_of_le`, `readFull_of_lt` — its result depends on the bytes that
      are left and on the final error, not on the fragments.
-/
import Mathlib.Data.List.Basic

namespace Kin.Lib

variable {α : Type*}

/-- The errors a reader can end with, and the one `ReadFull` makes of them. -/
inductive IoErr where
  | eof
  | unexpectedEOF
  | other (msg : String)
  deriving DecidableEq

def IoErr.text : IoErr → String
  | eof => "EOF"
  | unexpectedEOF => "unexpected EOF"
  | other msg => msg

/-- What the calls of `Read` to come will return. -/
inductive Reader (α : Type*) where
  /-- No byte any more: every call returns the error. -/
  | stop (err : IoErr)
  /-- The error comes together with the end of the data. -/
  | last (data : List α) (err : IoErr)
  | more (data : List α) (rest : Reader α)

namespace Reader

/-- All the bytes that are left. -/
def bytes : Reader α → List α
  | stop _ => []
  | last data _ => data
  | more data rest => data ++ rest.bytes

theorem bytes_last (data : List α) (err : IoErr) : (last data err).bytes = data := rfl

theorem bytes_more (data : List α) (rest : Reader α) :
    (more data rest).bytes = data ++ rest.bytes := rfl

/-- The error after the last byte. -/
def ending : Reader α → IoErr
  | stop err => err
  | last _ err => err
  | more _ rest => rest.ending

/-- The loop of `io.ReadFull` with `n` bytes of the buffer to fill: the bytes
read, the error if the buffer is not full, and the reader after it. -/
def fill : Nat → Reader α → List α × Option IoErr × Reader α
  | 0, r => ([], none, r)
  | _ + 1, stop err => ([], some err, stop err)
  | n + 1, last data err =>
    if n + 1 < data.length then (data.take (n + 1), none, last (data.drop (n + 1)) err)
    -- an error that comes with the last byte needed is dropped
    else (data, if data.length = n + 1 then none else some err, stop err)
  | n + 1, more data rest =>
    if n + 1 < data.length then (data.take (n + 1), none, more (data.drop (n + 1)) rest)
    else
      let (buf, err, r) := fill (n + 1 - data.length) rest
      (data ++ buf, err, r)

/-- `io.ReadFull(r, buf)` with `len(buf) = n`. -/
def readFull (n : Nat) (r : Reader α) : Except IoErr (List α) × Reader α :=
  match fill n r with
  | (buf, none, r) => (.ok buf, r)
  | (buf, some .eof, r) => (.error (if buf.isEmpty then .eof else .unexpectedEOF), r)
  | (_, some err, r) => (.error err, r)

/-! ## The fragments do not matter. -/

/-- What the loop leaves: the first `n` bytes are taken, as far as there are
any, and the error is reported if there are fewer. -/
theorem fill_spec (r : Reader α) (n : Nat) :
    ∃ r', fill n r = (r.bytes.take n, if n ≤ r.bytes.length then none else some r.ending, r')
      ∧ r'.bytes = r.bytes.drop n ∧ r'.ending = r.ending := by
  induction r generalizing n with
  | stop err =>
    cases n with
    | zero => exact ⟨stop err, rfl, rfl, rfl⟩
    | succ n => exact ⟨stop err, rfl, rfl, rfl⟩
  | last data err =>
    cases n with
    | zero => exact ⟨last data err, by simp [fill], rfl, rfl⟩
    | succ n =>
      rw [fill, bytes_last]
      by_cases hlt : n + 1 < data.length
      · rw [if_pos hlt, if_pos (Nat.le_of_lt hlt)]
        exact ⟨_, rfl, rfl, rfl⟩
      · have hle : data.length ≤ n + 1 := Nat.le_of_not_lt hlt
        rw [if_neg hlt, List.take_of_length_le hle, List.drop_of_length_le hle]
        refine ⟨stop err, ?_, rfl, rfl⟩
        congr 2
        by_cases heq : data.length = n + 1
        · rw [if_pos heq, if_pos (Nat.le_of_eq heq.symm)]
        · rw [if_neg heq, if_neg (fun h => heq (Nat.le_antisymm hle h))]
          rfl
  | more data rest ih =>
    cases n with
    | zero => exact ⟨more data rest, by simp [fill], rfl, rfl⟩
    | succ n =>
      rw [fill, bytes_more]
      by_cases hlt : n + 1 < data.length
      · rw [if_pos hlt, if_pos (by rw [List.length_append]; omega),
          List.take_append_of_le_length (Nat.le_of_lt hlt),
          List.drop_append_of_le_length (Nat.le_of_lt hlt)]
        exact ⟨_, rfl, rfl, rfl⟩
      · -- the whole fragment goes into the buffer, the next call goes on
        have hle : data.length ≤ n + 1 := Nat.le_of_not_lt hlt
        obtain ⟨r', hfill, hbytes, hend⟩ := ih (n + 1 - data.length)
        rw [if_neg hlt, hfill]
        refine ⟨r', ?_, ?_, hend⟩
        · dsimp only
          rw [List.take_append, List.take_of_length_le hle, List.length_append]
          congr 2
          exact if_congr (by omega) rfl rfl
        · rw [hbytes, List.drop_append, List.drop_of_length_le hle, List.nil_append]

/-- Enough bytes: `ReadFull` returns the first `n` of them. -/
theorem readFull_of_le {r : Reader α} {n : Nat} (h : n ≤ r.bytes.length) :
    ∃ r', readFull n r = (.ok (r.bytes.take n), r')
      ∧ r'.bytes = r.bytes.drop n ∧ r'.ending = r.ending := by
  obtain ⟨r', hfill, hbytes, hend⟩ := fill_spec r n
  rw [if_pos h] at hfill
  refine ⟨r', ?_, hbytes, hend⟩
  unfold readFull
  rw [hfill]

/-- Too few bytes: `ReadFull` takes them all and fails.  On a stream that ends
with `io.EOF`, its error tells whether there were any. -/
theorem readFull_of_lt {r : Reader α} {n : Nat} (h : r.bytes.length < n) :
    ∃ err r', readFull n r = (.error err, r') ∧ r'.bytes = [] ∧ r'.ending = r.ending
      ∧ (r.ending = .eof → err = if r.bytes.isEmpty then .eof else .unexpectedEOF) := by
  obtain ⟨r', hfill, hbytes, hend⟩ := fill_spec r n
  rw [if_neg (Nat.not_le_of_lt h), List.take_of_length_le (Nat.le_of_lt h)] at hfill
  rw [List.drop_of_length_le (Nat.le_of_lt h)] at hbytes
  unfold readFull
  rw [hfill]
  cases hr : r.ending with
  | eof => exact ⟨_, r', rfl, hbytes, hend.trans hr, fun _ => rfl⟩
  | unexpectedEOF => exact ⟨_, r', rfl, hbytes, hend.trans hr, nofun⟩
  | other msg => exact ⟨_, r', rfl, hbytes, hend.trans hr, nofun⟩

end Reader

end Kin.Lib
