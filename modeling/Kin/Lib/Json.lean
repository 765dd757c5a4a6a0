/-
  Kin.Lib.Json

  **WRITING JSON** (`json.Marshal` of `encoding/json`).

  The text of strings, numbers, lists and objects.  A string is escaped byte by
  byte for ASCII and rune by rune above it: quotes and control characters, the
  characters `<`, `>` and `&` of HTML, the two line separators of Unicode, and
  every byte that starts no encoding.

    • `length_le_quote` — no text gets shorter,
    • `mem_length_le_object`, `sum_length_le_array` — nor does what it is a part
      of.
-/
import Kin.Lib.Net

namespace Kin.Lib.Json

/-! ## §1. Strings. -/

/-- One digit of `hex`. -/
def hexDigit (n : Nat) : UInt8 := (Nat.digitChar n).toNat.toUInt8

/-- The escape of an ASCII character; most stand for themselves. -/
def escape (b : UInt8) : GoString :=
  if b = 0x22 ∨ b = 0x5C then [0x5C, b]
  else if b = 0x08 then ascii "\\b"
  else if b = 0x0C then ascii "\\f"
  else if b = 0x0A then ascii "\\n"
  else if b = 0x0D then ascii "\\r"
  else if b = 0x09 then ascii "\\t"
  else if b < 0x20 ∨ b = 0x3C ∨ b = 0x3E ∨ b = 0x26 then
    ascii "\\u00" ++ [hexDigit (b.toNat / 16), hexDigit (b.toNat % 16)]
  else [b]

/-- The loop of `appendString`, with `skip` bytes of a rune to go, which are
copied or have been written already. -/
def escapeFrom : (copy : Bool) → (skip : Nat) → GoString → GoString
  | _, _, [] => []
  | copy, k + 1, b :: bs => (if copy then [b] else []) ++ escapeFrom copy k bs
  | _, 0, b :: bs =>
    match runeLen (b :: bs) with
    | 0 => ascii "\\ufffd" ++ escapeFrom true 0 bs
    | 1 => escape b ++ escapeFrom true 0 bs
    | n + 1 =>
      if b = 0xE2 ∧ bs.take 2 = [0x80, 0xA8] then ascii "\\u2028" ++ escapeFrom false n bs
      else if b = 0xE2 ∧ bs.take 2 = [0x80, 0xA9] then ascii "\\u2029" ++ escapeFrom false n bs
      else b :: escapeFrom true n bs

/-- The text of a string. -/
def quote (s : GoString) : GoString := [0x22] ++ escapeFrom true 0 s ++ [0x22]

example : quote (ascii "a\n<b>") = ascii "\"a\\n\\u003cb\\u003e\"" := by decide
example : quote [0xE2, 0x80, 0xA8, 0xFF, 0xC3, 0xA9]
    = ascii "\"\\u2028\\ufffd" ++ [0xC3, 0xA9, 0x22] := by decide

theorem one_le_length_escape (b : UInt8) : 1 ≤ (escape b).length := by
  unfold escape
  split
  · exact Nat.le_add_left 1 1
  split
  · decide
  split
  · decide
  split
  · decide
  split
  · decide
  split
  · decide
  split
  · rw [List.length_append]
    exact Nat.le_add_left 1 _
  · exact Nat.le_refl 1

theorem runeLen_le_four (s : GoString) : runeLen s ≤ 4 := by
  unfold runeLen
  repeat' split
  all_goals decide

theorem length_le_escapeFrom (s : GoString) :
    ∀ (copy : Bool) (k : Nat),
      s.length ≤ (escapeFrom copy k s).length + (if copy then 0 else k) := by
  induction s with
  | nil =>
    intro copy k
    exact Nat.zero_le _
  | cons b bs ih =>
    intro copy k
    cases k with
    | succ k =>
      have hrest := ih copy k
      rw [escapeFrom, List.length_append, List.length_cons]
      cases copy with
      | true =>
        simp only [if_true, List.length_singleton] at hrest ⊢
        omega
      | false =>
        simp only [Bool.false_eq_true, if_false, List.length_nil] at hrest ⊢
        omega
    | zero =>
      have hlen : (b :: bs).length = bs.length + 1 := rfl
      have hcopy : ∀ n, bs.length ≤ (escapeFrom true n bs).length := ih true
      rw [escapeFrom]
      split
      · have hbad : (ascii "\\ufffd").length = 6 := by decide
        have hrest := hcopy 0
        rw [List.length_append]
        omega
      · have hone := one_le_length_escape b
        have hrest := hcopy 0
        rw [List.length_append]
        omega
      · next n _ hrune =>
        have hfour := runeLen_le_four (b :: bs)
        have hsep : (ascii "\\u2028").length = 6 ∧ (ascii "\\u2029").length = 6 := by decide
        -- a separator of three bytes is written as six
        have hrest : bs.length ≤ (escapeFrom false n bs).length + n := ih false n
        have hcopied := hcopy n
        split
        · rw [List.length_append]
          omega
        · split
          · rw [List.length_append]
            omega
          · rw [List.length_cons, List.length_cons]
            omega

/-- **No string gets shorter.** -/
theorem length_le_quote (s : GoString) : s.length + 2 ≤ (quote s).length := by
  have hbody : s.length ≤ (escapeFrom true 0 s).length := length_le_escapeFrom s true 0
  unfold quote
  simp only [List.length_append, List.length_singleton]
  omega

/-! ## §2. Numbers, lists and objects. -/

/-- `strconv.AppendInt`. -/
def integer (n : Int) : GoString :=
  if n < 0 then ascii "-" ++ decimal n.natAbs else decimal n.natAbs

def bool (b : Bool) : GoString := if b then ascii "true" else ascii "false"

/-- The elements with commas between them. -/
def commas : List GoString → GoString
  | [] => []
  | [x] => x
  | x :: y :: rest => x ++ ascii "," ++ commas (y :: rest)

def array (elems : List GoString) : GoString := ascii "[" ++ commas elems ++ ascii "]"

/-- A slice, which may be nil. -/
def slice (elems : List GoString) : GoString :=
  if elems = [] then ascii "null" else array elems

/-- A field of an object. -/
def member (name : String) (value : GoString) : GoString := quote (ascii name) ++ ascii ":" ++ value

def object (members : List GoString) : GoString := ascii "\x7b" ++ commas members ++ ascii "\x7d"

example : object [member "n" (integer (-7)), member "ok" (bool true), member "e" (slice [])]
    = ascii "\x7b\"n\":-7,\"ok\":true,\"e\":null\x7d" := by decide

theorem sum_length_le_commas (elems : List GoString) :
    (elems.map List.length).sum ≤ (commas elems).length := by
  induction elems with
  | nil => exact Nat.le_refl 0
  | cons x rest ih =>
    cases rest with
    | nil => exact Nat.le_refl _
    | cons y rest =>
      rw [List.map_cons, List.sum_cons, commas, List.length_append, List.length_append]
      omega

theorem sum_length_le_array (elems : List GoString) :
    (elems.map List.length).sum ≤ (array elems).length := by
  have hsum := sum_length_le_commas elems
  unfold array
  rw [List.length_append, List.length_append]
  omega

theorem length_le_commas {x : GoString} {elems : List GoString} (h : x ∈ elems) :
    x.length ≤ (commas elems).length := by
  have hsum := sum_length_le_commas elems
  obtain ⟨before, after, rfl⟩ := List.append_of_mem h
  rw [List.map_append, List.map_cons, List.sum_append, List.sum_cons] at hsum
  omega

/-- **An object is longer than any of its fields.** -/
theorem mem_length_le_object {m : GoString} {members : List GoString} (h : m ∈ members) :
    m.length ≤ (object members).length := by
  have hmem := length_le_commas h
  unfold object
  rw [List.length_append, List.length_append]
  omega

theorem length_le_member (name : String) (value : GoString) :
    value.length ≤ (member name value).length := by
  unfold member
  rw [List.length_append]
  omega

theorem object_ne_nil (members : List GoString) : object members ≠ [] := by
  unfold object
  exact fun h => by cases h

end Kin.Lib.Json
