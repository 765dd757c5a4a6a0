/-
  Kin.Lib.Protobuf

  **THE PROTOBUF WIRE FORMAT** (`protowire` and the decoder of
  `google.golang.org/protobuf`).

  A message is a sequence of fields, each a tag and a value; the tag is a varint that
  holds the number of the field and the wire type of its value:

      message = field*        field = varint(8 · number + type) value
      value   = varint | 8 bytes | varint(length) bytes | field* end-group | 4 bytes

  The parsers (`consume…`) take a value off the front of the bytes.  Beside them stands
  the grammar (`Varint`, `Scalar`, `Groups`, `Wire`, `Wires`), and each parser gets ONE
  lemma, that it takes off exactly what the grammar has.

    • `consumeVarint_iff`, `consumeTag_iff`, `consumeScalar_iff`, `skipGroups_iff`,
      `consumeField_iff` — the parsers,
    • `decode_eq_ok_iff` — a message is read exactly if its bytes are a sequence of
      fields and it takes them all,
    • `Schema.Reads` — bytes in which unknown fields may stand between the known ones.
-/
import Kin.Lib.GoStd

namespace Kin.Lib.Protobuf

/-! ## §1. Varints. -/

/-- `protowire.ConsumeVarint` with at most `k` more bytes before the last one that may
be there: the number and the bytes after it. -/
def consumeVarintFrom : Nat → GoString → Option (Nat × GoString)
  | _, [] => none
  | 0, b :: rest => if b.toNat < 2 then some (b.toNat, rest) else none
  | k + 1, b :: rest =>
    if b.toNat < 128 then some (b.toNat, rest)
    else (consumeVarintFrom k rest).map (fun v => (b.toNat - 128 + 128 * v.1, v.2))

/-- `protowire.ConsumeVarint`: ten bytes at most, the tenth at most 1. -/
def consumeVarint (b : GoString) : Option (Nat × GoString) := consumeVarintFrom 9 b

/-- The bytes are a varint of the number, not necessarily the shortest. -/
inductive Varint : Nat → Nat → GoString → Prop
  | final {b : UInt8} (h : b.toNat < 2) : Varint 0 b.toNat [b]
  | last {k : Nat} {b : UInt8} (h : b.toNat < 128) : Varint (k + 1) b.toNat [b]
  | more {k n : Nat} {b : UInt8} {bs : GoString} (h : ¬ b.toNat < 128) (hrest : Varint k n bs) :
      Varint (k + 1) (b.toNat - 128 + 128 * n) (b :: bs)

theorem Varint.ne_nil {k n : Nat} {bs : GoString} (h : Varint k n bs) : bs ≠ [] := by
  cases h <;> exact List.cons_ne_nil _ _

theorem consumeVarintFrom_append {k n : Nat} {bs : GoString} (h : Varint k n bs)
    (rest : GoString) : consumeVarintFrom k (bs ++ rest) = some (n, rest) := by
  induction h with
  | final hb => exact if_pos hb
  | last hb => exact if_pos hb
  | more hb hrest ih =>
    rw [List.cons_append]
    unfold consumeVarintFrom
    rw [if_neg hb, ih]
    rfl

theorem varint_of_consume {k n : Nat} {b rest : GoString}
    (h : consumeVarintFrom k b = some (n, rest)) : ∃ bs, Varint k n bs ∧ b = bs ++ rest := by
  induction k generalizing b n with
  | zero =>
    cases b with
    | nil => cases h
    | cons x tail =>
      change (if _ then _ else _) = _ at h
      split at h
      next hx =>
        cases h
        exact ⟨[x], .final hx, rfl⟩
      next => cases h
  | succ k ih =>
    cases b with
    | nil => cases h
    | cons x tail =>
      change (if _ then _ else _) = _ at h
      split at h
      next hx =>
        cases h
        exact ⟨[x], .last hx, rfl⟩
      next hx =>
        obtain ⟨⟨m, rest'⟩, hm, heq⟩ := Option.map_eq_some_iff.mp h
        cases heq
        obtain ⟨bs, hbs, rfl⟩ := ih hm
        exact ⟨x :: bs, .more hx hbs, rfl⟩

theorem consumeVarint_iff {n : Nat} {b rest : GoString} :
    consumeVarint b = some (n, rest) ↔ ∃ bs, Varint 9 n bs ∧ b = bs ++ rest := by
  constructor
  · exact varint_of_consume
  · rintro ⟨bs, hbs, rfl⟩
    exact consumeVarintFrom_append hbs rest

/-! ## §2. Tags and values. -/

/-- The value of a field.  What stands in fixed width or in a group belongs to no
field of the messages here. -/
inductive Value where
  | varint (n : Nat)
  | len (b : GoString)
  | other
  deriving DecidableEq, Repr

structure Field where
  num : Nat
  value : Value
  deriving DecidableEq, Repr

/-- `protowire.ConsumeTag`: the number, the wire type and the bytes after them. -/
def consumeTag (b : GoString) : Option (Nat × Nat × GoString) :=
  match consumeVarint b with
  | none => none
  | some (v, rest) =>
    if 1 ≤ v / 8 ∧ v / 8 < 2 ^ 31 then some (v / 8, v % 8, rest) else none

/-- The bytes are a tag. -/
def IsTag (num typ : Nat) (bs : GoString) : Prop :=
  Varint 9 (8 * num + typ) bs ∧ typ < 8 ∧ 1 ≤ num ∧ num < 2 ^ 31

theorem consumeTag_iff {num typ : Nat} {b rest : GoString} :
    consumeTag b = some (num, typ, rest) ↔ ∃ bs, IsTag num typ bs ∧ b = bs ++ rest := by
  unfold consumeTag IsTag
  constructor
  · intro h
    split at h
    next => cases h
    next v rest' hv =>
      obtain ⟨bs, hbs, rfl⟩ := consumeVarint_iff.mp hv
      split at h
      next hnum =>
        cases h
        refine ⟨bs, ⟨?_, by omega, hnum.1, hnum.2⟩, rfl⟩
        rw [Nat.div_add_mod]
        exact hbs
      next => cases h
  · rintro ⟨bs, ⟨hbs, htyp, hpos, hlt⟩, rfl⟩
    have hv : consumeVarint (bs ++ rest) = some (8 * num + typ, rest) :=
      consumeVarint_iff.mpr ⟨bs, hbs, rfl⟩
    have hnum : (8 * num + typ) / 8 = num := by omega
    have hmod : (8 * num + typ) % 8 = typ := by omega
    rw [hv]
    dsimp only
    rw [hnum, hmod, if_pos ⟨hpos, hlt⟩]

def consumeBytes (b : GoString) : Option (GoString × GoString) :=
  match consumeVarint b with
  | none => none
  | some (n, rest) => if n ≤ rest.length then some (rest.take n, rest.drop n) else none

/-- `protowire.ConsumeFieldValue` of every wire type but a group. -/
def consumeScalar (typ : Nat) (b : GoString) : Option (Value × GoString) :=
  match typ with
  | 0 => (consumeVarint b).map (fun v => (.varint v.1, v.2))
  | 1 => if b.length < 8 then none else some (.other, b.drop 8)
  | 2 => (consumeBytes b).map (fun v => (.len v.1, v.2))
  | 5 => if b.length < 4 then none else some (.other, b.drop 4)
  | _ => none

/-- The bytes are a value of the wire type. -/
inductive Scalar : Nat → Value → GoString → Prop
  | varint {n : Nat} {bs : GoString} (h : Varint 9 n bs) : Scalar 0 (.varint n) bs
  | fixed64 {bs : GoString} (h : bs.length = 8) : Scalar 1 .other bs
  | len {b bs : GoString} (h : Varint 9 b.length bs) : Scalar 2 (.len b) (bs ++ b)
  | fixed32 {bs : GoString} (h : bs.length = 4) : Scalar 5 .other bs

theorem consumeBytes_iff {v b rest : GoString} :
    consumeBytes b = some (v, rest) ↔ ∃ bs, Varint 9 v.length bs ∧ b = bs ++ v ++ rest := by
  unfold consumeBytes
  constructor
  · intro h
    split at h
    next => cases h
    next n tail hn =>
      obtain ⟨bs, hbs, rfl⟩ := consumeVarint_iff.mp hn
      split at h
      next hle =>
        cases h
        refine ⟨bs, ?_, ?_⟩
        · rw [List.length_take, Nat.min_eq_left hle]
          exact hbs
        · rw [List.append_assoc, List.take_append_drop]
      next => cases h
  · rintro ⟨bs, hbs, rfl⟩
    have hn : consumeVarint (bs ++ v ++ rest) = some (v.length, v ++ rest) :=
      consumeVarint_iff.mpr ⟨bs, hbs, by rw [List.append_assoc]⟩
    rw [hn]
    dsimp only
    rw [if_pos (by simp), List.take_left, List.drop_left]

theorem drop_eq_some_iff {n : Nat} {v : Value} {b rest : GoString} :
    (if b.length < n then none else some (Value.other, b.drop n)) = some (v, rest)
      ↔ v = .other ∧ ∃ bs : GoString, bs.length = n ∧ b = bs ++ rest := by
  constructor
  · intro h
    split at h
    next => cases h
    next hlen =>
      cases h
      refine ⟨rfl, b.take n, ?_, (List.take_append_drop n b).symm⟩
      rw [List.length_take]
      omega
  · rintro ⟨rfl, bs, rfl, rfl⟩
    rw [if_neg (by simp), List.drop_left]

theorem consumeScalar_iff {typ : Nat} {v : Value} {b rest : GoString} :
    consumeScalar typ b = some (v, rest) ↔ ∃ bs, Scalar typ v bs ∧ b = bs ++ rest := by
  unfold consumeScalar
  constructor
  · intro h
    split at h
    · obtain ⟨⟨n, tail⟩, hn, heq⟩ := Option.map_eq_some_iff.mp h
      cases heq
      obtain ⟨bs, hbs, rfl⟩ := consumeVarint_iff.mp hn
      exact ⟨bs, .varint hbs, rfl⟩
    · obtain ⟨rfl, bs, hlen, rfl⟩ := drop_eq_some_iff.mp h
      exact ⟨bs, .fixed64 hlen, rfl⟩
    · obtain ⟨⟨w, tail⟩, hw, heq⟩ := Option.map_eq_some_iff.mp h
      cases heq
      obtain ⟨bs, hbs, rfl⟩ := consumeBytes_iff.mp hw
      exact ⟨bs ++ w, .len hbs, rfl⟩
    · obtain ⟨rfl, bs, hlen, rfl⟩ := drop_eq_some_iff.mp h
      exact ⟨bs, .fixed32 hlen, rfl⟩
    · cases h
  · rintro ⟨bs, hbs, rfl⟩
    cases hbs with
    | varint h =>
      rw [consumeVarint_iff.mpr ⟨_, h, rfl⟩]
      rfl
    | fixed64 h => exact drop_eq_some_iff.mpr ⟨rfl, _, h, rfl⟩
    | len h =>
      rw [consumeBytes_iff.mpr ⟨_, h, rfl⟩]
      rfl
    | fixed32 h => exact drop_eq_some_iff.mpr ⟨rfl, _, h, rfl⟩

/-! ## §3. Groups. -/

/-- `protowire.DefaultRecursionLimit`. -/
def recursionLimit : Nat := 10000

/-- `protowire.ConsumeFieldValue` inside groups, with the numbers of the groups that
are open, the innermost first: the bytes after the end of the outermost. -/
def skipGroups : (fuel : Nat) → List Nat → GoString → Option GoString
  | _, [], b => some b
  | 0, _ :: _, _ => none
  | fuel + 1, num :: outer, b =>
    match consumeTag b with
    | none => none
    | some (num', typ, rest) =>
      if typ = 4 then (if num' = num then skipGroups fuel outer rest else none)
      else if typ = 3 then
        if outer.length < recursionLimit then skipGroups fuel (num' :: num :: outer) rest
        else none
      else
        match consumeScalar typ rest with
        | none => none
        | some (_, rest') => skipGroups fuel (num :: outer) rest'

/-- The bytes end the open groups. -/
inductive Groups : List Nat → GoString → Prop
  | done : Groups [] []
  | close {num : Nat} {outer : List Nat} {tag bs : GoString} (htag : IsTag num 4 tag)
      (hrest : Groups outer bs) : Groups (num :: outer) (tag ++ bs)
  | inner {num num' : Nat} {outer : List Nat} {tag bs : GoString} (htag : IsTag num' 3 tag)
      (hdepth : outer.length < recursionLimit) (hrest : Groups (num' :: num :: outer) bs) :
      Groups (num :: outer) (tag ++ bs)
  | scalar {num num' typ : Nat} {outer : List Nat} {v : Value} {tag val bs : GoString}
      (htag : IsTag num' typ tag) (hval : Scalar typ v val) (hrest : Groups (num :: outer) bs) :
      Groups (num :: outer) (tag ++ (val ++ bs))

theorem Scalar.typ_ne {typ : Nat} {v : Value} {bs : GoString} (h : Scalar typ v bs) :
    typ ≠ 3 ∧ typ ≠ 4 ∧ typ < 8 := by
  cases h <;> omega

theorem IsTag.length_pos {num typ : Nat} {bs : GoString} (h : IsTag num typ bs) :
    0 < bs.length := List.length_pos_of_ne_nil h.1.ne_nil

theorem skipGroups_append {nums : List Nat} {bs : GoString} (h : Groups nums bs) {fuel : Nat}
    (hfuel : bs.length ≤ fuel) (rest : GoString) :
    skipGroups fuel nums (bs ++ rest) = some rest := by
  induction h generalizing fuel with
  | done => cases fuel <;> rfl
  | close htag hrest ih =>
    have hpos := htag.length_pos
    rw [List.length_append] at hfuel
    obtain ⟨fuel, rfl⟩ : ∃ f, fuel = f + 1 := ⟨fuel - 1, by omega⟩
    unfold skipGroups
    rw [consumeTag_iff.mpr ⟨_, htag, List.append_assoc _ _ _⟩]
    dsimp only
    rw [if_pos rfl, if_pos rfl]
    exact ih (by omega)
  | inner htag hdepth hrest ih =>
    have hpos := htag.length_pos
    rw [List.length_append] at hfuel
    obtain ⟨fuel, rfl⟩ : ∃ f, fuel = f + 1 := ⟨fuel - 1, by omega⟩
    unfold skipGroups
    rw [consumeTag_iff.mpr ⟨_, htag, List.append_assoc _ _ _⟩]
    dsimp only
    rw [if_neg (by decide), if_pos rfl, if_pos hdepth]
    exact ih (by omega)
  | scalar htag hval hrest ih =>
    have hpos := htag.length_pos
    obtain ⟨h3, h4, -⟩ := hval.typ_ne
    rw [List.length_append, List.length_append] at hfuel
    obtain ⟨fuel, rfl⟩ : ∃ f, fuel = f + 1 := ⟨fuel - 1, by omega⟩
    unfold skipGroups
    rw [consumeTag_iff.mpr ⟨_, htag, List.append_assoc _ _ _⟩]
    dsimp only
    rw [if_neg h4, if_neg h3, consumeScalar_iff.mpr ⟨_, hval, List.append_assoc _ _ _⟩]
    exact ih (by omega)

theorem groups_of_skip {nums : List Nat} {b rest : GoString} {fuel : Nat}
    (h : skipGroups fuel nums b = some rest) : ∃ bs, Groups nums bs ∧ b = bs ++ rest := by
  induction fuel generalizing nums b with
  | zero =>
    cases nums with
    | nil =>
      cases h
      exact ⟨[], .done, rfl⟩
    | cons num outer => cases h
  | succ fuel ih =>
    cases nums with
    | nil =>
      cases h
      exact ⟨[], .done, rfl⟩
    | cons num outer =>
      unfold skipGroups at h
      split at h
      next => cases h
      next num' typ tail hcons =>
        obtain ⟨tag, htag, rfl⟩ := consumeTag_iff.mp hcons
        split at h
        next htyp =>
          subst htyp
          split at h
          next hnum =>
            subst hnum
            obtain ⟨bs, hbs, rfl⟩ := ih h
            exact ⟨tag ++ bs, .close htag hbs, (List.append_assoc _ _ _).symm⟩
          next => cases h
        next =>
          split at h
          next htyp =>
            subst htyp
            split at h
            next hdepth =>
              obtain ⟨bs, hbs, rfl⟩ := ih h
              exact ⟨tag ++ bs, .inner htag hdepth hbs, (List.append_assoc _ _ _).symm⟩
            next => cases h
          next =>
            split at h
            next => cases h
            next v tail' hv =>
              obtain ⟨val, hval, rfl⟩ := consumeScalar_iff.mp hv
              obtain ⟨bs, hbs, rfl⟩ := ih h
              refine ⟨tag ++ (val ++ bs), .scalar htag hval hbs, ?_⟩
              simp only [List.append_assoc]

/-- With as much fuel as there are bytes. -/
theorem skipGroups_iff {nums : List Nat} {b rest : GoString} :
    skipGroups b.length nums b = some rest ↔ ∃ bs, Groups nums bs ∧ b = bs ++ rest := by
  constructor
  · exact groups_of_skip
  · rintro ⟨bs, hbs, rfl⟩
    exact skipGroups_append hbs (by simp) rest

/-! ## §4. Fields. -/

/-- One turn of the decoder: tag and value.  Numbers go up to `2^29 - 1` here, and the
end of a group that was not begun is an error. -/
def consumeField (b : GoString) : Option (Field × GoString) :=
  match consumeTag b with
  | none => none
  | some (num, typ, rest) =>
    if num < 2 ^ 29 then
      if typ = 3 then (skipGroups rest.length [num] rest).map (fun r => (⟨num, .other⟩, r))
      else (consumeScalar typ rest).map (fun v => (⟨num, v.1⟩, v.2))
    else none

/-- The bytes are a field. -/
inductive Wire : Field → GoString → Prop
  | scalar {num typ : Nat} {v : Value} {tag val : GoString} (htag : IsTag num typ tag)
      (hnum : num < 2 ^ 29) (hval : Scalar typ v val) : Wire ⟨num, v⟩ (tag ++ val)
  | group {num : Nat} {tag bs : GoString} (htag : IsTag num 3 tag) (hnum : num < 2 ^ 29)
      (hend : Groups [num] bs) : Wire ⟨num, .other⟩ (tag ++ bs)

theorem consumeField_iff {f : Field} {b rest : GoString} :
    consumeField b = some (f, rest) ↔ ∃ bs, Wire f bs ∧ b = bs ++ rest := by
  unfold consumeField
  constructor
  · intro h
    split at h
    next => cases h
    next num typ tail hcons =>
      obtain ⟨tag, htag, rfl⟩ := consumeTag_iff.mp hcons
      split at h
      next hnum =>
        split at h
        next htyp =>
          subst htyp
          obtain ⟨r, hr, heq⟩ := Option.map_eq_some_iff.mp h
          cases heq
          obtain ⟨bs, hbs, rfl⟩ := skipGroups_iff.mp hr
          exact ⟨tag ++ bs, .group htag hnum hbs, (List.append_assoc _ _ _).symm⟩
        next =>
          obtain ⟨⟨v, r⟩, hv, heq⟩ := Option.map_eq_some_iff.mp h
          cases heq
          obtain ⟨val, hval, rfl⟩ := consumeScalar_iff.mp hv
          exact ⟨tag ++ val, .scalar htag hnum hval, (List.append_assoc _ _ _).symm⟩
      next => cases h
  · rintro ⟨bs, hbs, rfl⟩
    cases hbs with
    | scalar htag hnum hval =>
      rw [consumeTag_iff.mpr ⟨_, htag, List.append_assoc _ _ _⟩]
      dsimp only
      rw [if_pos hnum, if_neg hval.typ_ne.1, consumeScalar_iff.mpr ⟨_, hval, rfl⟩]
      rfl
    | group htag hnum hend =>
      rw [consumeTag_iff.mpr ⟨_, htag, List.append_assoc _ _ _⟩]
      dsimp only
      rw [if_pos hnum, if_pos rfl, skipGroups_iff.mpr ⟨_, hend, rfl⟩]
      rfl

theorem Wire.ne_nil {f : Field} {bs : GoString} (h : Wire f bs) : bs ≠ [] := by
  cases h with
  | scalar htag hnum hval => exact List.append_ne_nil_of_left_ne_nil htag.1.ne_nil _
  | group htag hnum hend => exact List.append_ne_nil_of_left_ne_nil htag.1.ne_nil _

/-- The bytes are the fields, one after the other. -/
inductive Wires : List Field → GoString → Prop
  | nil : Wires [] []
  | cons {f : Field} {fs : List Field} {b bs : GoString} (h : Wire f b) (hrest : Wires fs bs) :
      Wires (f :: fs) (b ++ bs)

theorem Wires.single {f : Field} {b : GoString} (h : Wire f b) : Wires [f] b := by
  have hone := Wires.cons h .nil
  rwa [List.append_nil] at hone

theorem Wires.append {fs gs : List Field} {b c : GoString} (hf : Wires fs b) (hg : Wires gs c) :
    Wires (fs ++ gs) (b ++ c) := by
  induction hf with
  | nil => exact hg
  | cons h hrest ih =>
    rw [List.cons_append, List.append_assoc]
    exact .cons h ih

/-! ## §5. Messages. -/

def errDecode : String := "cannot parse invalid wire-format data"

/-- What a message does with each of its fields; a field that is not one of the
message's is unknown to it. -/
def Schema (M : Type) := Field → Option (M → Except String M)

namespace Schema

variable {M : Type} (s : Schema M)

/-- The field is one of the message's. -/
def knows (f : Field) : Bool := (s f).isSome

/-- The message with the field; unknown fields are skipped. -/
def apply (m : M) (f : Field) : Except String M :=
  match s f with
  | none => .ok m
  | some put => put m

/-- The loop of the decoder. -/
def decodeFrom : (fuel : Nat) → M → GoString → Except String M
  | _, m, [] => .ok m
  | 0, _, _ :: _ => .error errDecode
  | fuel + 1, m, b :: bs =>
    match consumeField (b :: bs) with
    | none => .error errDecode
    | some (f, rest) => (s.apply m f).bind (fun m' => decodeFrom fuel m' rest)

/-- The fields of the bytes are merged into the message. -/
def decode (m : M) (b : GoString) : Except String M := s.decodeFrom b.length m b

/-- The message takes the fields, one after the other. -/
def takeAll (m : M) (fs : List Field) : Except String M := fs.foldlM s.apply m

theorem takeAll_cons (m : M) (f : Field) (fs : List Field) :
    s.takeAll m (f :: fs) = (s.apply m f).bind (fun m' => s.takeAll m' fs) := rfl

variable {s}

theorem decodeFrom_of_wires {fs : List Field} {b : GoString} (h : Wires fs b) {fuel : Nat}
    (hfuel : b.length ≤ fuel) (m : M) : s.decodeFrom fuel m b = s.takeAll m fs := by
  induction h generalizing fuel m with
  | nil => cases fuel <;> rfl
  | @cons f fs b bs hwire hrest ih =>
    obtain ⟨x, tail, rfl⟩ := List.exists_cons_of_ne_nil hwire.ne_nil
    rw [List.cons_append, List.length_cons, List.length_append] at hfuel
    obtain ⟨fuel, rfl⟩ : ∃ n, fuel = n + 1 := ⟨fuel - 1, by omega⟩
    have hfield : consumeField (x :: (tail ++ bs)) = some (f, bs) :=
      consumeField_iff.mpr ⟨_, hwire, rfl⟩
    rw [List.cons_append]
    unfold decodeFrom
    rw [hfield, takeAll_cons]
    dsimp only
    congr 1
    funext m'
    exact ih (by omega) m'

theorem wires_of_decodeFrom {b : GoString} {fuel : Nat} {m m' : M}
    (h : s.decodeFrom fuel m b = .ok m') : ∃ fs, Wires fs b := by
  induction fuel generalizing m b with
  | zero =>
    cases b with
    | nil => exact ⟨[], .nil⟩
    | cons x tail => cases h
  | succ fuel ih =>
    cases b with
    | nil => exact ⟨[], .nil⟩
    | cons x tail =>
      unfold decodeFrom at h
      split at h
      next => cases h
      next f rest hfield =>
        obtain ⟨bs, hwire, hb⟩ := consumeField_iff.mp hfield
        rw [hb]
        cases hput : s.apply m f with
        | error err =>
          rw [hput] at h
          cases h
        | ok m₁ =>
          rw [hput] at h
          obtain ⟨fs, hfs⟩ := ih h
          exact ⟨f :: fs, .cons hwire hfs⟩

theorem decode_of_wires {fs : List Field} {b : GoString} (h : Wires fs b) (m : M) :
    s.decode m b = s.takeAll m fs := decodeFrom_of_wires h (Nat.le_refl _) m

/-- **What is read** is a sequence of fields that the message takes. -/
theorem decode_eq_ok_iff {b : GoString} {m m' : M} :
    s.decode m b = .ok m' ↔ ∃ fs, Wires fs b ∧ s.takeAll m fs = .ok m' := by
  constructor
  · intro h
    obtain ⟨fs, hfs⟩ := wires_of_decodeFrom h
    exact ⟨fs, hfs, (decode_of_wires hfs m) ▸ h⟩
  · rintro ⟨fs, hfs, htake⟩
    rw [decode_of_wires hfs, htake]

/-- Unknown fields make no difference. -/
theorem takeAll_filter (m : M) (fs : List Field) :
    s.takeAll m (fs.filter s.knows) = s.takeAll m fs := by
  induction fs generalizing m with
  | nil => rfl
  | cons f fs ih =>
    cases hput : s f with
    | none =>
      have hknows : s.knows f = false := by
        unfold knows
        rw [hput]
        rfl
      have happly : s.apply m f = .ok m := by
        unfold apply
        rw [hput]
      rw [List.filter_cons_of_neg (by rw [hknows]; exact Bool.false_ne_true), ih, takeAll_cons,
        happly]
      rfl
    | some put =>
      have hknows : s.knows f = true := by
        unfold knows
        rw [hput]
        rfl
      rw [List.filter_cons_of_pos hknows, takeAll_cons, takeAll_cons]
      congr 1
      funext m'
      exact ih m'

variable (s)

/-- The bytes are fields, of which those that the message knows are the given ones:
what a writer sends who knows more fields, or writes its varints at greater length. -/
def Reads (fs : List Field) (b : GoString) : Prop :=
  ∃ gs, Wires gs b ∧ gs.filter s.knows = fs

variable {s}

theorem Reads.decode {fs : List Field} {b : GoString} (h : s.Reads fs b) (m : M) :
    s.decode m b = s.takeAll m fs := by
  obtain ⟨gs, hgs, rfl⟩ := h
  rw [decode_of_wires hgs, takeAll_filter]

theorem Reads.of_wires {fs : List Field} {b : GoString} (h : Wires fs b)
    (hknown : ∀ f ∈ fs, s.knows f = true) : s.Reads fs b :=
  ⟨fs, h, List.filter_eq_self.mpr hknown⟩

/-- Every field of the schema keeps it. -/
def Keeps (s : Schema M) (P : M → Prop) : Prop :=
  ∀ f put m m', s f = some put → P m → put m = .ok m' → P m'

/-- Then so does the message. -/
theorem Keeps.decode {P : M → Prop} (hput : s.Keeps P) {b : GoString} {m m' : M} (hm : P m)
    (h : s.decode m b = .ok m') : P m' := by
  obtain ⟨fs, -, htake⟩ := decode_eq_ok_iff.mp h
  clear h
  induction fs generalizing m with
  | nil =>
    cases htake
    exact hm
  | cons f fs ih =>
    rw [takeAll_cons] at htake
    cases happly : s.apply m f with
    | error err =>
      rw [happly] at htake
      cases htake
    | ok m₁ =>
      rw [happly] at htake
      refine ih ?_ htake
      unfold apply at happly
      split at happly
      next =>
        cases happly
        exact hm
      next put hf => exact hput f put m m₁ hf hm happly

/-! ### How messages are put together. -/

theorem Reads.append {fs gs : List Field} {b c : GoString} (hf : s.Reads fs b)
    (hg : s.Reads gs c) : s.Reads (fs ++ gs) (b ++ c) := by
  obtain ⟨fs', hfs, rfl⟩ := hf
  obtain ⟨gs', hgs, rfl⟩ := hg
  exact ⟨fs' ++ gs', hfs.append hgs, List.filter_append _ _⟩

theorem takeAll_trans {m m₂ : M} (m₁ : M) {fs gs : List Field} (hf : s.takeAll m fs = .ok m₁)
    (hg : s.takeAll m₁ gs = .ok m₂) : s.takeAll m (fs ++ gs) = .ok m₂ := by
  unfold takeAll at *
  rw [List.foldlM_append, hf]
  exact hg

/-- A field that is not written if its value is the default. -/
def leaving (dflt : Prop) [Decidable dflt] (f : Field) : List Field := if dflt then [] else [f]

theorem reads_leaving {dflt : Prop} [Decidable dflt] {f : Field} {b : GoString}
    (hknows : s.knows f = true) (hwire : Wire f b) :
    s.Reads (leaving dflt f) (if dflt then [] else b) := by
  unfold leaving
  split
  · exact .of_wires .nil (fun f hf => by cases hf)
  · refine .of_wires (.single hwire) ?_
    intro g hg
    rw [List.mem_singleton.mp hg]
    exact hknows

/-- A field that is left out must have its value already. -/
theorem takeAll_leaving {dflt : Prop} [Decidable dflt] {f : Field} {m m' : M}
    (hdflt : dflt → m' = m) (hput : ¬ dflt → s.apply m f = .ok m') :
    s.takeAll m (leaving dflt f) = .ok m' := by
  unfold leaving
  split
  next h =>
    rw [hdflt h]
    rfl
  next h =>
    rw [takeAll_cons, hput h]
    rfl

end Schema

end Kin.Lib.Protobuf
