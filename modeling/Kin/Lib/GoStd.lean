/-
  Kin.Lib.GoStd

  **THE GO VALUES THE MODEL IS BUILT FROM.**

  Byte arrays `[n]byte`, strings (arbitrary bytes), maps, UTC times with
  nanosecond resolution, the wall clock, and what `encoding/json` does to a
  string and to a time on its way into a database and back:

    • a string keeps its valid UTF-8 and has every other byte replaced by
      U+FFFD (`jsonString`),
    • a time is refused exactly when its year is outside 0‥9999 (`Time.jsonOK`),
      and comes back unchanged otherwise.
-/
import Kin.Lib.Bucket
import Mathlib.Algebra.Group.Int.Defs
import Mathlib.Algebra.GroupWithZero.Nat
import Mathlib.Data.List.AList

namespace Kin.Lib

/-! ## §1. Bytes and byte arrays. -/

/-- Bytes in numeric order, so that lists of bytes are in `bytes.Compare` order. -/
instance byteLinearOrder : LinearOrder UInt8 where
  le_refl := UInt8.le_refl
  le_trans _ _ _ := UInt8.le_trans
  lt_iff_le_not_ge a b := by
    simp only [UInt8.lt_iff_toNat_lt, UInt8.le_iff_toNat_le]
    omega
  le_antisymm _ _ := UInt8.le_antisymm
  le_total := UInt8.le_total
  toDecidableLE := inferInstance
  toDecidableEq := inferInstance
  toDecidableLT := inferInstance
  compare_eq_compareOfLessAndEq _ _ := rfl

/-- A Go string or byte slice: any bytes at all. -/
abbrev GoString := List UInt8

instance decidableMemGoString (s : GoString) (l : List GoString) : Decidable (s ∈ l) :=
  inferInstance

/-- A Go byte array `[n]byte`. -/
@[ext] structure Bytes (n : Nat) where
  val : List UInt8
  length_eq : val.length = n
  deriving DecidableEq, Repr

/-- `copy(dst[:], src)` into a fresh array, for a source of the array's length. -/
def Bytes.ofList? (n : Nat) (b : List UInt8) : Option (Bytes n) :=
  if h : b.length = n then some ⟨b, h⟩ else none

/-- The Go literal `[32]byte{b}`: first byte `b`, zeros after it. -/
def Bytes.lit32 (b : UInt8) : Bytes 32 := ⟨b :: List.replicate 31 0, rfl⟩

theorem Bytes.ofList?_val {n : Nat} (b : Bytes n) : Bytes.ofList? n b.val = some b := by
  unfold Bytes.ofList?
  rw [dif_pos b.length_eq]

/-- A Go map. -/
abbrev GoMap (K V : Type) := AList (fun _ : K => V)

theorem GoMap.lookup_insert {K V : Type} [DecidableEq K] (m : GoMap K V) (k : K) (v : V) (j : K) :
    AList.lookup j (AList.insert k v m) = if j = k then some v else AList.lookup j m := by
  by_cases hj : j = k
  · rw [hj, AList.lookup_insert, if_pos rfl]
  · rw [AList.lookup_insert_ne hj, if_neg hj]

theorem GoMap.lookup_erase {K V : Type} [DecidableEq K] (m : GoMap K V) (k j : K) :
    AList.lookup j (AList.erase k m) = if j = k then none else AList.lookup j m := by
  by_cases hj : j = k
  · rw [hj, AList.lookup_erase, if_pos rfl]
  · rw [AList.lookup_erase_ne hj, if_neg hj]

/-! ## §2. Times and the wall clock. -/

/-- A UTC `time.Time`: nanoseconds since the Unix epoch. -/
structure Time where
  unixNano : Int
  deriving DecidableEq, Repr

namespace Time

/-- `t.Unix()`: whole seconds, rounded down. -/
def unix (t : Time) : Int := t.unixNano / 1000000000

/-- `time.Unix(sec, 0).UTC()`. -/
def ofUnix (sec : Int) : Time := ⟨sec * 1000000000⟩

/-- `encoding/json` accepts the time: its year is in 0‥9999. -/
def jsonOK (t : Time) : Bool := decide (-62167219200 ≤ t.unix) && decide (t.unix ≤ 253402300799)

@[simp] theorem unix_ofUnix (sec : Int) : (ofUnix sec).unix = sec := by
  unfold unix ofUnix
  exact Int.mul_ediv_cancel _ (by decide)

/-- Dropping the fraction of a second does not move a time out of the years
JSON accepts. -/
theorem jsonOK_ofUnix_unix (t : Time) : (ofUnix t.unix).jsonOK = t.jsonOK := by
  simp only [jsonOK, unix_ofUnix]

end Time

/-- The readings of `time.Now()` in the order they are taken; the wall clock
stays within the years JSON accepts. -/
structure Clock where
  now : Nat → Time
  inRange : ∀ i, (now i).jsonOK = true

namespace Clock

/-- The readings that follow the first `n`. -/
def drop (c : Clock) (n : Nat) : Clock := ⟨fun i => c.now (n + i), fun i => c.inRange (n + i)⟩

/-- A clock that stands at the epoch. -/
def epoch : Clock := ⟨fun _ => ⟨0⟩, fun _ => by decide⟩

end Clock

/-! ## §3. Strings through JSON. -/

/-- A UTF-8 continuation byte. -/
def isCont (b : UInt8) : Bool := decide (0x80 ≤ b) && decide (b ≤ 0xBF)

/-- Least second byte after the lead byte `b`. -/
def secondLo (b : UInt8) : UInt8 := if b = 0xE0 then 0xA0 else if b = 0xF0 then 0x90 else 0x80

/-- Greatest second byte after the lead byte `b`. -/
def secondHi (b : UInt8) : UInt8 := if b = 0xED then 0x9F else if b = 0xF4 then 0x8F else 0xBF

/-- `utf8.DecodeRuneInString`: the number of bytes of the encoding the string
starts with, `0` if it starts with none. -/
def runeLen : GoString → Nat
  | [] => 0
  | b :: rest =>
    if b < 0x80 then 1
    else if b < 0xC2 then 0
    else if b ≤ 0xDF then
      match rest with
      | b1 :: _ => if isCont b1 then 2 else 0
      | [] => 0
    else if b ≤ 0xEF then
      match rest with
      | b1 :: b2 :: _ =>
        if secondLo b ≤ b1 && b1 ≤ secondHi b && isCont b2 then 3 else 0
      | _ => 0
    else if b ≤ 0xF4 then
      match rest with
      | b1 :: b2 :: b3 :: _ =>
        if secondLo b ≤ b1 && b1 ≤ secondHi b && isCont b2 && isCont b3 then 4 else 0
      | _ => 0
    else 0

/-- Copy a string, `skip` bytes of a valid encoding still to be copied, with
U+FFFD in place of each byte that starts no encoding. -/
def coerceUTF8 : (skip : Nat) → GoString → GoString
  | _, [] => []
  | k + 1, b :: bs => b :: coerceUTF8 k bs
  | 0, b :: bs =>
    match runeLen (b :: bs) with
    | 0 => 0xEF :: 0xBF :: 0xBD :: coerceUTF8 0 bs
    | n + 1 => b :: coerceUTF8 n bs

/-- What reading back the JSON encoding of a string gives. -/
def jsonString (s : GoString) : GoString := coerceUTF8 0 s

/-- An encoding has all its bytes in the string, and no others decide it. -/
theorem runeLen_congr {b : UInt8} {bs : GoString} {n : Nat} (h : runeLen (b :: bs) = n + 1) :
    n ≤ bs.length ∧ ∀ rest, runeLen (b :: (bs.take n ++ rest)) = n + 1 := by
  simp only [runeLen] at h
  split at h
  next hb =>
    have hn : n = 0 := by omega
    subst hn
    refine ⟨Nat.zero_le _, fun rest => ?_⟩
    simp only [runeLen, if_pos hb]
  next hb =>
    split at h
    next => omega
    next hb2 =>
      split at h
      next hb3 =>
        cases bs with
        | nil => simp at h
        | cons b1 t =>
          simp only at h
          split at h
          next hc =>
            have hn : n = 1 := by omega
            subst hn
            refine ⟨by simp, fun rest => ?_⟩
            show runeLen (b :: b1 :: rest) = 2
            simp only [runeLen, if_neg hb, if_neg hb2, if_pos hb3, if_pos hc]
          next => omega
      next hb3 =>
        split at h
        next hb4 =>
          match bs, h with
          | b1 :: b2 :: t, h =>
            simp only at h
            split at h
            next hc =>
              have hn : n = 2 := by omega
              subst hn
              refine ⟨by simp, fun rest => ?_⟩
              show runeLen (b :: b1 :: b2 :: rest) = 3
              simp only [runeLen, if_neg hb, if_neg hb2, if_neg hb3, if_pos hb4, if_pos hc]
            next => omega
          | [_], h => simp at h
          | [], h => simp at h
        next hb4 =>
          split at h
          next hb5 =>
            match bs, h with
            | b1 :: b2 :: b3 :: t, h =>
              simp only at h
              split at h
              next hc =>
                have hn : n = 3 := by omega
                subst hn
                refine ⟨by simp, fun rest => ?_⟩
                show runeLen (b :: b1 :: b2 :: b3 :: rest) = 4
                simp only [runeLen, if_neg hb, if_neg hb2, if_neg hb3, if_neg hb4, if_pos hb5,
                  if_pos hc]
              next => omega
            | [_, _], h => simp at h
            | [_], h => simp at h
            | [], h => simp at h
          next => omega

/-- The bytes of an encoding are copied, what follows is coerced afresh. -/
theorem coerceUTF8_eq (k : Nat) (bs : GoString) :
    coerceUTF8 k bs = bs.take k ++ coerceUTF8 0 (bs.drop k) := by
  induction k generalizing bs with
  | zero => simp
  | succ k ih =>
    cases bs with
    | nil => simp [coerceUTF8]
    | cons b bs =>
      show b :: coerceUTF8 k bs = _
      rw [ih bs]
      rfl

/-- **Coercing once is enough**: what JSON gives back is left alone the next
time. -/
theorem jsonString_idem (s : GoString) : jsonString (jsonString s) = jsonString s := by
  unfold jsonString
  -- by induction on the length: an encoding takes up several bytes at once
  induction hlen : s.length using Nat.strong_induction_on generalizing s with
  | _ len ih =>
    cases s with
    | nil => rfl
    | cons b bs =>
      subst hlen
      have hstep : coerceUTF8 0 (b :: bs) = match runeLen (b :: bs) with
          | 0 => 0xEF :: 0xBF :: 0xBD :: coerceUTF8 0 bs
          | n + 1 => b :: coerceUTF8 n bs := rfl
      cases hrune : runeLen (b :: bs) with
      | zero =>
        -- U+FFFD is an encoding of three bytes
        rw [hstep, hrune]
        show 0xEF :: 0xBF :: 0xBD :: coerceUTF8 0 (coerceUTF8 0 bs) = _
        rw [ih bs.length (by simp) bs rfl]
      | succ n =>
        obtain ⟨hle, hsame⟩ := runeLen_congr hrune
        rw [hstep, hrune]
        show coerceUTF8 0 (b :: coerceUTF8 n bs) = b :: coerceUTF8 n bs
        rw [coerceUTF8_eq n bs]
        have hagain : coerceUTF8 0 (b :: (bs.take n ++ coerceUTF8 0 (bs.drop n)))
            = b :: coerceUTF8 n (bs.take n ++ coerceUTF8 0 (bs.drop n)) := by
          show (match runeLen (b :: (bs.take n ++ coerceUTF8 0 (bs.drop n))) with
            | 0 => _
            | m + 1 => b :: coerceUTF8 m _) = _
          rw [hsame]
        rw [hagain, coerceUTF8_eq n]
        have htake : (bs.take n).length = n := by simp [hle]
        rw [List.take_left' htake, List.drop_left' htake]
        rw [ih (bs.drop n).length (by rw [List.length_drop, List.length_cons]; omega)
          (bs.drop n) rfl]

/-- `utf8.ValidString` of a string whose first `skip` bytes belong to an encoding
already seen. -/
def validFrom : (skip : Nat) → GoString → Bool
  | _, [] => true
  | k + 1, _ :: bs => validFrom k bs
  | 0, b :: bs =>
    match runeLen (b :: bs) with
    | 0 => false
    | n + 1 => validFrom n bs

/-- `utf8.ValidString`: the string is one encoding after the other. -/
def validString (s : GoString) : Bool := validFrom 0 s

theorem length_le_coerceUTF8 (s : GoString) : ∀ k, s.length ≤ (coerceUTF8 k s).length := by
  induction s with
  | nil =>
    intro k
    simp
  | cons b bs ih =>
    intro k
    cases k with
    | succ k =>
      have := ih k
      simp only [coerceUTF8, List.length_cons]
      omega
    | zero =>
      simp only [coerceUTF8]
      split
      · have := ih 0
        simp only [List.length_cons]
        omega
      next n _ =>
        have := ih n
        simp only [List.length_cons]
        omega

theorem coerceUTF8_eq_self_iff (s : GoString) :
    ∀ k, coerceUTF8 k s = s ↔ validFrom k s = true := by
  induction s with
  | nil =>
    intro k
    simp [coerceUTF8, validFrom]
  | cons b bs ih =>
    intro k
    cases k with
    | succ k => simp only [coerceUTF8, validFrom, List.cons.injEq, true_and, ih k]
    | zero =>
      simp only [coerceUTF8, validFrom]
      split
      · -- U+FFFD takes three bytes where there was one
        have hlen := length_le_coerceUTF8 bs 0
        refine iff_of_false (fun heq => ?_) Bool.false_ne_true
        have := congrArg List.length heq
        simp only [List.length_cons] at this
        omega
      next n _ => simp only [List.cons.injEq, true_and, ih n]

/-- **JSON gives back exactly the strings that are UTF-8.** -/
theorem jsonString_eq_self_iff (s : GoString) : jsonString s = s ↔ validString s = true :=
  coerceUTF8_eq_self_iff s 0

/-- ASCII text as a Go string. -/
def ascii (s : String) : GoString := s.toList.map (fun c => c.toNat.toUInt8)

theorem ascii_append (s t : String) : ascii (s ++ t) = ascii s ++ ascii t := by
  unfold ascii
  rw [String.toList_append, List.map_append]

example : jsonString (ascii "a.txt") = ascii "a.txt" := by decide
example : jsonString [0xFF, 0x61] = [0xEF, 0xBF, 0xBD, 0x61] := by decide

/-- `filepath.Base`: the last element of a slash-separated path. -/
def filepathBase (path : GoString) : GoString :=
  if path = [] then ascii "."
  else
    let trimmed := path.reverse.dropWhile (fun b => b = 0x2F)
    let last := (trimmed.takeWhile (fun b => b ≠ 0x2F)).reverse
    -- nothing but slashes
    if last = [] then ascii "/" else last

example : filepathBase (ascii "/Kin/a.txt") = ascii "a.txt" := by decide

/-! ## §4. Slices. -/

/-- A later element that passes wins over the first. -/
theorem getLast?_filter_cons {α : Type*} (q : α → Bool) (x : α) (xs : List α) :
    ((x :: xs).filter q).getLast? = (xs.filter q).getLast?.or (if q x then some x else none) := by
  by_cases h : q x = true
  · rw [List.filter_cons_of_pos h, if_pos h, List.getLast?_cons]
    cases (xs.filter q).getLast? <;> rfl
  · rw [List.filter_cons_of_neg h, if_neg h, Option.or_none]

end Kin.Lib
