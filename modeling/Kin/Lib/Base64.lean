/-
  Kin.Lib.Base64

  **`base64.RawURLEncoding`** (`DecodeString`, `EncodeToString`).

  The URL alphabet, no padding, line breaks skipped wherever they stand, and
  (the decoder is not strict) the unused low bits of a last short quantum
  ignored.  A byte outside the alphabet and a quantum of one character are
  refused; the error is the position Go reports.

    • `decodeString_encodeToString` — decoding inverts encoding.
-/
import Kin.Lib.GoStd

namespace Kin.Lib.Base64

/-- The six bits a character of the URL alphabet stands for. -/
def sextet? (c : UInt8) : Option Nat :=
  if 65 ≤ c ∧ c ≤ 90 then some (c.toNat - 65)
  else if 97 ≤ c ∧ c ≤ 122 then some (c.toNat - 97 + 26)
  else if 48 ≤ c ∧ c ≤ 57 then some (c.toNat - 48 + 52)
  else if c = 45 then some 62
  else if c = 95 then some 63
  else none

/-- The bytes of a quantum of at most four sextets. -/
def quantum : List Nat → GoString
  | [a, b] => [(a * 4 + b / 16).toUInt8]
  | [a, b, c] => [(a * 4 + b / 16).toUInt8, (b * 16 + c / 4).toUInt8]
  | [a, b, c, d] => [(a * 4 + b / 16).toUInt8, (b * 16 + c / 4).toUInt8, (c * 64 + d).toUInt8]
  | _ => []

/-- The decoding loop: `pos` is the position of the next character, `acc` holds
the sextets of the current quantum (fewer than four). -/
def decodeFrom : (pos : Nat) → (acc : List Nat) → GoString → Except Nat GoString
  | pos, acc, [] => if acc.length = 1 then .error (pos - 1) else .ok (quantum acc)
  | pos, acc, c :: cs =>
    match sextet? c with
    | some v =>
      if acc.length = 3 then
        (decodeFrom (pos + 1) [] cs).map (fun rest => quantum (acc ++ [v]) ++ rest)
      else decodeFrom (pos + 1) (acc ++ [v]) cs
    | none =>
      if c = 10 ∨ c = 13 then decodeFrom (pos + 1) acc cs else .error pos

/-- `CorruptInputError.Error`. -/
def corruptInput (pos : Nat) : String := "illegal base64 data at input byte " ++ toString pos

def decodeString (s : GoString) : Except String GoString := (decodeFrom 0 [] s).mapError corruptInput

example : decodeString (ascii "aGVs\nbG8") = .ok (ascii "hello") := by decide +kernel

example : decodeString (ascii "aGVs!") = .error (corruptInput 4) := by decide +kernel

/-- The character of the URL alphabet for six bits. -/
def char (v : Nat) : UInt8 :=
  if v < 26 then (v + 65).toUInt8
  else if v < 52 then (v - 26 + 97).toUInt8
  else if v < 62 then (v - 52 + 48).toUInt8
  else if v = 62 then 45
  else 95

/-- `EncodeToString`: three bytes at a time, without padding at the end. -/
def encodeToString : GoString → GoString
  | [] => []
  | [a] => [char (a.toNat / 4), char (a.toNat % 4 * 16)]
  | [a, b] =>
    [char (a.toNat / 4), char (a.toNat % 4 * 16 + b.toNat / 16), char (b.toNat % 16 * 4)]
  | a :: b :: c :: rest =>
    char (a.toNat / 4) :: char (a.toNat % 4 * 16 + b.toNat / 16)
      :: char (b.toNat % 16 * 4 + c.toNat / 64) :: char (c.toNat % 64) :: encodeToString rest

example : encodeToString (ascii "hello") = ascii "aGVsbG8" := by decide +kernel

/-! ## Decoding what was encoded. -/

theorem sextet?_char {v : Nat} (h : v < 64) : sextet? (char v) = some v := by
  revert v
  decide

theorem toUInt8_eq_of_mod {n : Nat} {b : UInt8} (h : n % 256 = b.toNat) : n.toUInt8 = b := by
  apply UInt8.toNat.inj
  rw [Nat.toUInt8_eq, UInt8.toNat_ofNat']
  exact h

/-- A character joins a quantum that stays short of four. -/
theorem decodeFrom_char {v : Nat} (hv : v < 64) (pos : Nat) {acc : List Nat} (hacc : acc.length ≠ 3)
    (cs : GoString) : decodeFrom pos acc (char v :: cs) = decodeFrom (pos + 1) (acc ++ [v]) cs := by
  rw [decodeFrom, sextet?_char hv]
  exact if_neg hacc

/-- Four characters are one quantum. -/
theorem decodeFrom_quantum {a b c d : Nat} (ha : a < 64) (hb : b < 64) (hc : c < 64) (hd : d < 64)
    (pos : Nat) (cs : GoString) :
    decodeFrom pos [] (char a :: char b :: char c :: char d :: cs)
      = (decodeFrom (pos + 4) [] cs).map (fun rest => quantum [a, b, c, d] ++ rest) := by
  rw [decodeFrom_char ha pos (by simp), decodeFrom_char hb _ (by simp),
    decodeFrom_char hc _ (by simp), decodeFrom, sextet?_char hd]
  rfl

theorem decodeFrom_encodeToString (s : GoString) (pos : Nat) :
    decodeFrom pos [] (encodeToString s) = .ok s := by
  -- three bytes at a time, with a rest of two, one or no byte
  induction s using encodeToString.induct generalizing pos with
  | case1 => rfl
  | case2 a =>
    have ha := a.toNat_lt
    rw [encodeToString, decodeFrom_char (by omega) pos (by simp),
      decodeFrom_char (by omega) _ (by simp)]
    show Except.ok [_] = Except.ok [a]
    rw [toUInt8_eq_of_mod (b := a) (by omega)]
  | case3 a b =>
    have ha := a.toNat_lt
    have hb := b.toNat_lt
    rw [encodeToString, decodeFrom_char (by omega) pos (by simp),
      decodeFrom_char (by omega) _ (by simp), decodeFrom_char (by omega) _ (by simp)]
    show Except.ok [_, _] = Except.ok [a, b]
    rw [toUInt8_eq_of_mod (b := a) (by omega), toUInt8_eq_of_mod (b := b) (by omega)]
  | case4 a b c rest ih =>
    have ha := a.toNat_lt
    have hb := b.toNat_lt
    have hc := c.toNat_lt
    rw [encodeToString, decodeFrom_quantum (by omega) (by omega) (by omega) (by omega), ih]
    show Except.ok ([_, _, _] ++ rest) = Except.ok (a :: b :: c :: rest)
    rw [toUInt8_eq_of_mod (b := a) (by omega), toUInt8_eq_of_mod (b := b) (by omega),
      toUInt8_eq_of_mod (b := c) (by omega)]
    rfl

theorem decodeString_encodeToString (s : GoString) : decodeString (encodeToString s) = .ok s := by
  unfold decodeString
  rw [decodeFrom_encodeToString]
  rfl

end Kin.Lib.Base64
