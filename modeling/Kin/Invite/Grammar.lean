/-
  Kin.Invite.Grammar

  **WHICH BYTES ARE A TOKEN?**

  `marshalPayload` lays the fields out one after the other; `unmarshal` keeps
  an offset of its own and checks each field against the end of the buffer.
  `unmarshal_eq_ok_iff` puts the two side by side: the bytes accepted for a
  token are its payload, then ANY bytes, then 64 bytes of signature.

    • `marshalPayload_ok`, `marshalPayload_error` — the tokens that can be
      written,
    • `token_round_trip` — a token written is read back,
    • `endpointsEnd`, `layoutSize` — where the count and length fields of some
      bytes say that they end,
    • `grammar_exact_iff` — a token read was written exactly if the bytes do end
      there.
-/
import Mathlib.Tactic.Ring
import Kin.Invite.Token

namespace Kin.Invite

open Kin.Lib

/-! ## §1. Numbers as bytes. -/

theorem foldl_bigEndian (b : GoString) (n : Nat) :
    b.foldl (fun n x => n * 256 + x.toNat) n = n * 256 ^ b.length + bigEndian b := by
  unfold bigEndian
  induction b generalizing n with
  | nil => simp
  | cons x b ih =>
    rw [List.foldl_cons, List.foldl_cons, ih, ih (0 * 256 + x.toNat), List.length_cons,
      Nat.pow_succ]
    ring

theorem bigEndian_cons (x : UInt8) (b : GoString) :
    bigEndian (x :: b) = x.toNat * 256 ^ b.length + bigEndian b := by
  show (x :: b).foldl (fun n x => n * 256 + x.toNat) 0 = _
  rw [List.foldl_cons, foldl_bigEndian, Nat.zero_mul, Nat.zero_add]

theorem bigEndian_lt (b : GoString) : bigEndian b < 256 ^ b.length := by
  induction b with
  | nil => exact Nat.one_pos
  | cons x b ih =>
    rw [bigEndian_cons, List.length_cons, Nat.pow_succ]
    have hx : x.toNat + 1 ≤ 256 := x.toNat_lt
    calc x.toNat * 256 ^ b.length + bigEndian b
        < x.toNat * 256 ^ b.length + 256 ^ b.length := Nat.add_lt_add_left ih _
      _ = 256 ^ b.length * (x.toNat + 1) := by ring
      _ ≤ 256 ^ b.length * 256 := Nat.mul_le_mul_left _ hx

@[simp] theorem length_appendUint (n v : Nat) : (appendUint n v).length = n := by
  induction n with
  | zero => rfl
  | succ n ih => rw [appendUint, List.length_cons, ih]

theorem bigEndian_appendUint (n v : Nat) : bigEndian (appendUint n v) = v % 256 ^ n := by
  induction n with
  | zero => simp [appendUint, bigEndian, Nat.mod_one]
  | succ n ih =>
    rw [appendUint, bigEndian_cons, length_appendUint, ih, Nat.toUInt8_eq, UInt8.toNat_ofNat',
      Nat.pow_succ 256 n, Nat.mod_mul, Nat.mul_comm, Nat.add_comm]

/-- As many bytes, and the same number: the same bytes. -/
theorem bigEndian_inj {a b : GoString} (hlen : a.length = b.length)
    (h : bigEndian a = bigEndian b) : a = b := by
  induction a generalizing b with
  | nil => exact (List.length_eq_zero_iff.mp hlen.symm).symm
  | cons x a ih =>
    cases b with
    | nil => cases hlen
    | cons y b =>
      have hab : a.length = b.length := Nat.succ.inj hlen
      rw [bigEndian_cons, bigEndian_cons, hab] at h
      have hpos : 0 < 256 ^ b.length := Nat.pow_pos (by decide)
      have ha : bigEndian a < 256 ^ b.length := hab ▸ bigEndian_lt a
      -- quotient and remainder by the weight of the first byte
      have hx : x.toNat = y.toNat := by
        have hdiv := congrArg (· / 256 ^ b.length) h
        simpa [Nat.mul_add_div hpos, Nat.mul_comm _ (256 ^ b.length),
          Nat.div_eq_of_lt ha, Nat.div_eq_of_lt (bigEndian_lt b)] using hdiv
      rw [hx] at h
      rw [UInt8.toNat.inj hx, ih hab (Nat.add_left_cancel h)]

theorem appendUint_bigEndian (b : GoString) : appendUint b.length (bigEndian b) = b := by
  apply bigEndian_inj (length_appendUint _ _)
  rw [bigEndian_appendUint, Nat.mod_eq_of_lt (bigEndian_lt b)]

/-! ## §2. Slices. -/

theorem length_slice {data : GoString} {lo hi : Nat} (h : hi ≤ data.length) :
    (slice data lo hi).length = hi - lo := by
  unfold slice
  rw [List.length_take, List.length_drop]
  omega

theorem slice_append {data : GoString} {lo mid hi : Nat} (h₁ : lo ≤ mid) (h₂ : mid ≤ hi) :
    slice data lo mid ++ slice data mid hi = slice data lo hi := by
  unfold slice
  have hdrop : data.drop mid = (data.drop lo).drop (mid - lo) := by
    rw [List.drop_drop]
    congr 1
    omega
  rw [hdrop, ← List.take_add]
  congr 1
  omega

@[simp] theorem slice_self (data : GoString) (lo : Nat) : slice data lo lo = [] := by
  unfold slice
  rw [Nat.sub_self, List.take_zero]

theorem slice_zero (data : GoString) (hi : Nat) : slice data 0 hi = data.take hi := rfl

/-- The slice that follows a known first part. -/
theorem slice_middle {a b c : GoString} {lo hi : Nat} (hlo : a.length = lo)
    (hhi : lo + b.length = hi) : slice (a ++ b ++ c) lo hi = b := by
  subst hlo hhi
  unfold slice
  rw [List.append_assoc, List.drop_left, Nat.add_sub_cancel_left, List.take_left]

theorem copyBytes_val {n : Nat} {src : GoString} (h : src.length = n) :
    (copyBytes n src).val = src := by
  show (src ++ List.replicate n 0).take n = src
  rw [List.take_left' h]

theorem copyBytes_nonce (nonce : Nonce) : copyBytes 16 nonce.val = nonce :=
  Bytes.ext (copyBytes_val nonce.length_eq)

/-! ## §3. The expiry. -/

/-- The times a `time.Time` can hold: its seconds since year 1 are an `int64`. -/
def IsGoTime (t : Time) : Prop :=
  -2 ^ 63 ≤ t.unix + 62135596800 ∧ t.unix + 62135596800 < 2 ^ 63

/-- `time.Unix` depends on the 64 bits of the seconds only. -/
theorem timeUnix_congr {x y : Int} (h : x % 2 ^ 64 = y % 2 ^ 64) : timeUnix x = timeUnix y := by
  have hmod : (x + 62135596800).bmod (2 ^ 64) = (y + 62135596800).bmod (2 ^ 64) := by
    have h' : x % ((2 ^ 64 : Nat) : Int) = y % ((2 ^ 64 : Nat) : Int) := h
    rw [← Int.emod_bmod, Int.add_emod, h', ← Int.add_emod, Int.emod_bmod]
  unfold timeUnix
  rw [hmod]

theorem unix_timeUnix_emod (x : Int) : (timeUnix x).unix % 2 ^ 64 = x % 2 ^ 64 := by
  unfold timeUnix
  rw [Time.unix_ofUnix]
  have hmod : (x + 62135596800).bmod (2 ^ 64) % 2 ^ 64 = (x + 62135596800) % 2 ^ 64 := Int.bmod_emod
  omega

theorem timeUnix_unix_timeUnix (x : Int) : timeUnix (timeUnix x).unix = timeUnix x :=
  timeUnix_congr (unix_timeUnix_emod x)

theorem timeUnix_unix {t : Time} (h : IsGoTime t) : timeUnix t.unix = Time.ofUnix t.unix := by
  unfold timeUnix
  obtain ⟨hlo, hhi⟩ := h
  rw [Int.bmod_eq_of_le (by omega) (by omega), Int.add_sub_cancel]

/-- The eight bytes of the expiry, read back. -/
theorem timeUnix_seconds (sec : Int) :
    timeUnix ((bigEndian (appendUint 8 (sec % 2 ^ 64).toNat) : Int).bmod (2 ^ 64))
      = timeUnix sec := by
  apply timeUnix_congr
  rw [bigEndian_appendUint]
  have hbmod : (((sec % 2 ^ 64).toNat % 256 ^ 8 : Nat) : Int).bmod (2 ^ 64) % 2 ^ 64
      = (((sec % 2 ^ 64).toNat % 256 ^ 8 : Nat) : Int) % 2 ^ 64 := Int.bmod_emod
  omega

/-! ## §4. Tokens that can be written. -/

/-- The limits `marshalPayload` checks. -/
def Token.Fits (t : Token) : Prop :=
  t.publicKey.length = pubkeySize ∧ t.endpoints.length ≤ 0xFFFF
    ∧ ∀ ep ∈ t.endpoints, ep.length ≤ 0xFFFF

/-- The bytes of the endpoint list. -/
def endpointBytes (eps : List GoString) : GoString :=
  eps.flatMap (fun ep => appendUint 2 ep.length ++ ep)

theorem endpointBytes_cons (ep : GoString) (eps : List GoString) :
    endpointBytes (ep :: eps) = appendUint 2 ep.length ++ ep ++ endpointBytes eps :=
  List.flatMap_cons

theorem marshalEndpoints_ok {eps : List GoString} (h : ∀ ep ∈ eps, ep.length ≤ 0xFFFF) :
    marshalEndpoints eps = .ok (endpointBytes eps) := by
  induction eps with
  | nil => rfl
  | cons ep eps ih =>
    rw [marshalEndpoints, if_neg (Nat.not_lt_of_le (h ep List.mem_cons_self)),
      ih (fun e he => h e (List.mem_cons_of_mem _ he)), endpointBytes_cons]
    rfl

theorem marshalEndpoints_error {eps : List GoString} (h : ∃ ep ∈ eps, 0xFFFF < ep.length) :
    ∃ err, marshalEndpoints eps = .error err := by
  induction eps with
  | nil =>
    obtain ⟨ep, hep, -⟩ := h
    cases hep
  | cons ep eps ih =>
    rw [marshalEndpoints]
    by_cases hlong : 0xFFFF < ep.length
    · rw [if_pos hlong]
      exact ⟨_, rfl⟩
    · obtain ⟨ep', hep', hlong'⟩ := h
      have hmem : ep' ∈ eps := by
        rcases List.mem_cons.mp hep' with rfl | hmem
        · exact absurd hlong' hlong
        · exact hmem
      obtain ⟨err, herr⟩ := ih ⟨ep', hmem, hlong'⟩
      rw [if_neg hlong, herr]
      exact ⟨err, rfl⟩

/-- The payload of a token that fits. -/
def Token.payload (t : Token) : GoString :=
  t.publicKey ++ appendUint 2 t.endpoints.length ++ endpointBytes t.endpoints ++ t.nonce.val
    ++ appendUint 8 (t.expiresAt.unix % 2 ^ 64).toNat

theorem marshalPayload_ok {t : Token} (h : t.Fits) : marshalPayload t = .ok t.payload := by
  obtain ⟨hkey, hcount, heps⟩ := h
  unfold marshalPayload
  rw [if_neg (not_not_intro hkey), if_neg (Nat.not_lt_of_le hcount), marshalEndpoints_ok heps]
  rfl

theorem marshalPayload_error {t : Token} (h : ¬ t.Fits) : ∃ err, marshalPayload t = .error err := by
  unfold marshalPayload
  by_cases hkey : t.publicKey.length = pubkeySize
  · by_cases hcount : t.endpoints.length ≤ 0xFFFF
    · have heps : ∃ ep ∈ t.endpoints, 0xFFFF < ep.length := by
        by_contra hall
        refine h ⟨hkey, hcount, fun ep hep => ?_⟩
        by_contra hlong
        exact hall ⟨ep, hep, Nat.lt_of_not_le hlong⟩
      obtain ⟨err, herr⟩ := marshalEndpoints_error heps
      rw [if_neg (not_not_intro hkey), if_neg (Nat.not_lt_of_le hcount), herr]
      exact ⟨err, rfl⟩
    · rw [if_neg (not_not_intro hkey), if_pos (Nat.lt_of_not_le hcount)]
      exact ⟨_, rfl⟩
  · rw [if_pos hkey]
    exact ⟨_, rfl⟩

/-! ## §5. Reading a payload back. -/

/-- The endpoint loop on bytes that hold the list, with the fixed fields still
to come. -/
theorem unmarshalEndpoints_bytes {eps : List GoString} (heps : ∀ ep ∈ eps, ep.length ≤ 0xFFFF)
    (before after : GoString) (hafter : nonceSize + expirySize + sigSize ≤ after.length) :
    unmarshalEndpoints (before ++ endpointBytes eps ++ after) eps.length before.length
      = .ok (eps, before.length + (endpointBytes eps).length) := by
  induction eps generalizing before with
  | nil => rfl
  | cons ep eps ih =>
    have hep := heps ep List.mem_cons_self
    -- the same bytes, with the first endpoint moved to what was read
    have hdata : before ++ endpointBytes (ep :: eps) ++ after
        = before ++ appendUint 2 ep.length ++ ep ++ endpointBytes eps ++ after := by
      simp only [endpointBytes_cons, List.append_assoc]
    have hlen : bigEndian (slice (before ++ endpointBytes (ep :: eps) ++ after) before.length
        (before.length + 2)) = ep.length := by
      have hslice : slice (before ++ appendUint 2 ep.length ++ (ep ++ endpointBytes eps ++ after))
          before.length (before.length + 2) = appendUint 2 ep.length :=
        slice_middle rfl (by rw [length_appendUint])
      rw [hdata]
      simp only [List.append_assoc] at hslice ⊢
      rw [hslice, bigEndian_appendUint]
      exact Nat.mod_eq_of_lt (by omega)
    have hbody : slice (before ++ endpointBytes (ep :: eps) ++ after) (before.length + 2)
        (before.length + 2 + ep.length) = ep := by
      have hslice : slice (before ++ appendUint 2 ep.length ++ ep ++ (endpointBytes eps ++ after))
          (before.length + 2) (before.length + 2 + ep.length) = ep :=
        slice_middle (by rw [List.length_append, length_appendUint]) rfl
      rw [hdata]
      simp only [List.append_assoc] at hslice ⊢
      exact hslice
    have htotal : (before ++ endpointBytes (ep :: eps) ++ after).length
        = before.length + 2 + ep.length + (endpointBytes eps).length + after.length := by
      rw [hdata]
      simp only [List.length_append, length_appendUint]
    have hrest := ih (fun e he => heps e (List.mem_cons_of_mem _ he))
      (before ++ appendUint 2 ep.length ++ ep)
    rw [← hdata] at hrest
    simp only [List.length_append, length_appendUint] at hrest
    rw [List.length_cons, unmarshalEndpoints, if_neg (by omega), hlen, if_neg (by omega), hrest,
      hbody]
    simp only [Except.map, endpointBytes_cons, List.length_append, length_appendUint]
    congr 2
    omega

/-- The token as `unmarshal` can give it back. -/
def Token.decoded (t : Token) : Token := { t with expiresAt := timeUnix t.expiresAt.unix }

theorem Token.length_payload {t : Token} (h : t.publicKey.length = pubkeySize) :
    t.payload.length
      = pubkeySize + 2 + (endpointBytes t.endpoints).length + nonceSize + expirySize := by
  unfold Token.payload
  simp only [List.length_append, length_appendUint, h, t.nonce.length_eq]
  rfl

/-- **A payload is read back**, whatever stands between it and the signature. -/
theorem unmarshal_payload {t : Token} (h : t.Fits) (extra : GoString) {sig : GoString}
    (hsig : sig.length = sigSize) :
    unmarshal (t.payload ++ extra ++ sig) = .ok t.decoded := by
  obtain ⟨hkey, hcount, heps⟩ := h
  generalize hexp : (t.expiresAt.unix % 2 ^ 64).toNat = sec
  generalize hoff : pubkeySize + 2 + (endpointBytes t.endpoints).length = offset
  generalize hd : t.payload ++ extra ++ sig = data
  have hlen : data.length = offset + nonceSize + expirySize + extra.length + sigSize := by
    rw [← hd, List.length_append, List.length_append, Token.length_payload hkey, hsig, hoff]
  -- the fields, each cut out at its offset
  have hkeyAt : slice data 0 pubkeySize = t.publicKey := by
    have hdata : data = [] ++ t.publicKey ++ (appendUint 2 t.endpoints.length
        ++ endpointBytes t.endpoints ++ t.nonce.val ++ appendUint 8 sec ++ extra ++ sig) := by
      simp only [← hd, ← hexp, Token.payload, List.append_assoc, List.nil_append]
    rw [hdata]
    exact slice_middle rfl (by rw [hkey, Nat.zero_add])
  have hcountAt : slice data pubkeySize (pubkeySize + 2) = appendUint 2 t.endpoints.length := by
    have hdata : data = t.publicKey ++ appendUint 2 t.endpoints.length
        ++ (endpointBytes t.endpoints ++ t.nonce.val ++ appendUint 8 sec ++ extra ++ sig) := by
      simp only [← hd, ← hexp, Token.payload, List.append_assoc]
    rw [hdata]
    exact slice_middle hkey (by rw [length_appendUint])
  have hepsAt : unmarshalEndpoints data t.endpoints.length (pubkeySize + 2)
      = .ok (t.endpoints, offset) := by
    have hdata : data = t.publicKey ++ appendUint 2 t.endpoints.length ++ endpointBytes t.endpoints
        ++ (t.nonce.val ++ appendUint 8 sec ++ extra ++ sig) := by
      simp only [← hd, ← hexp, Token.payload, List.append_assoc]
    have hbefore : (t.publicKey ++ appendUint 2 t.endpoints.length).length = pubkeySize + 2 := by
      rw [List.length_append, length_appendUint, hkey]
    have hloop := unmarshalEndpoints_bytes heps (t.publicKey ++ appendUint 2 t.endpoints.length)
      (t.nonce.val ++ appendUint 8 sec ++ extra ++ sig) (by
        simp only [List.length_append, length_appendUint, t.nonce.length_eq, hsig]
        unfold nonceSize expirySize
        omega)
    rw [hbefore, hoff, ← hdata] at hloop
    exact hloop
  have hnonceAt : slice data offset (offset + nonceSize) = t.nonce.val := by
    have hdata : data = t.publicKey ++ appendUint 2 t.endpoints.length ++ endpointBytes t.endpoints
        ++ t.nonce.val ++ (appendUint 8 sec ++ extra ++ sig) := by
      simp only [← hd, ← hexp, Token.payload, List.append_assoc]
    rw [hdata]
    refine slice_middle ?_ (by rw [t.nonce.length_eq]; rfl)
    rw [List.length_append, List.length_append, length_appendUint, hkey, hoff]
  have hexpAt : slice data (offset + nonceSize) (offset + nonceSize + expirySize)
      = appendUint 8 sec := by
    have hdata : data = t.publicKey ++ appendUint 2 t.endpoints.length ++ endpointBytes t.endpoints
        ++ t.nonce.val ++ appendUint 8 sec ++ (extra ++ sig) := by
      simp only [← hd, ← hexp, Token.payload, List.append_assoc]
    rw [hdata]
    refine slice_middle ?_ (by rw [length_appendUint]; rfl)
    rw [List.length_append, List.length_append, List.length_append, length_appendUint, hkey,
      t.nonce.length_eq, hoff]
    rfl
  have hcountVal : bigEndian (appendUint 2 t.endpoints.length) = t.endpoints.length := by
    rw [bigEndian_appendUint]
    exact Nat.mod_eq_of_lt (by omega)
  unfold unmarshal
  rw [if_neg (by omega), hcountAt, hcountVal]
  dsimp only
  rw [hepsAt]
  dsimp only
  rw [if_neg (by omega), if_neg (by omega), hkeyAt, hnonceAt, hexpAt, copyBytes_nonce, ← hexp,
    timeUnix_seconds]
  rfl

/-! ## §6. What is accepted. -/

/-- The endpoint loop reads the bytes of the endpoints it returns. -/
theorem unmarshalEndpoints_eq_ok {data : GoString} {n offset end_ : Nat} {eps : List GoString}
    (h : unmarshalEndpoints data n offset = .ok (eps, end_)) :
    eps.length = n ∧ (∀ ep ∈ eps, ep.length ≤ 0xFFFF) ∧ offset ≤ end_
      ∧ (offset ≤ data.length →
          end_ ≤ data.length ∧ slice data offset end_ = endpointBytes eps) := by
  induction n generalizing offset eps with
  | zero =>
    cases h
    exact ⟨rfl, by simp, Nat.le_refl _, fun hle => ⟨hle, slice_self data _⟩⟩
  | succ n ih =>
    rw [unmarshalEndpoints] at h
    split at h
    · cases h
    next hfield =>
      dsimp only at h
      split at h
      · cases h
      next hdata =>
        cases hrec : unmarshalEndpoints data n
            (offset + 2 + bigEndian (slice data offset (offset + 2))) with
        | error err =>
          rw [hrec] at h
          cases h
        | ok r =>
          obtain ⟨rest, last⟩ := r
          rw [hrec] at h
          cases h
          obtain ⟨hcount, hlens, hmono, hbytes⟩ := ih hrec
          have hin : offset + 2 + bigEndian (slice data offset (offset + 2)) ≤ data.length := by
            omega
          obtain ⟨hend, hrest⟩ := hbytes hin
          have hsize : (slice data offset (offset + 2)).length = 2 := by
            rw [length_slice (by omega)]
            omega
          have hep : (slice data (offset + 2)
              (offset + 2 + bigEndian (slice data offset (offset + 2)))).length
              = bigEndian (slice data offset (offset + 2)) := by
            rw [length_slice hin]
            omega
          refine ⟨by rw [List.length_cons, hcount], ?_, by omega, fun _ => ⟨hend, ?_⟩⟩
          · intro ep hmem
            rcases List.mem_cons.mp hmem with rfl | hmem
            · have hlt := bigEndian_lt (slice data offset (offset + 2))
              rw [hsize] at hlt
              rw [hep]
              omega
            · exact hlens ep hmem
          · -- the length field, the endpoint and the rest lie side by side
            have hfieldBytes : appendUint 2 (bigEndian (slice data offset (offset + 2)))
                = slice data offset (offset + 2) := by
              have hinv := appendUint_bigEndian (slice data offset (offset + 2))
              rw [hsize] at hinv
              exact hinv
            rw [endpointBytes_cons, hep, hfieldBytes, ← hrest,
              slice_append (by omega) (by omega), slice_append (by omega) hmono]

/-- Where `n` endpoints end that start at `offset`, by their length fields. -/
def endpointsEnd (data : GoString) : (n offset : Nat) → Nat
  | 0, offset => offset
  | n + 1, offset => endpointsEnd data n (offset + 2 + bigEndian (slice data offset (offset + 2)))

/-- The size of the documented layout, by the count and length fields of the bytes: the
key, the count, the endpoints, then nonce, expiry and signature. -/
def layoutSize (data : GoString) : Nat :=
  endpointsEnd data (bigEndian (slice data pubkeySize (pubkeySize + 2))) (pubkeySize + 2)
    + nonceSize + expirySize + sigSize

theorem endpointsEnd_of_ok {data : GoString} {n offset last : Nat} {eps : List GoString}
    (h : unmarshalEndpoints data n offset = .ok (eps, last)) :
    endpointsEnd data n offset = last := by
  induction n generalizing offset eps with
  | zero =>
    cases h
    rfl
  | succ n ih =>
    rw [unmarshalEndpoints] at h
    split at h
    · cases h
    · dsimp only at h
      split at h
      · cases h
      · cases hrec : unmarshalEndpoints data n
            (offset + 2 + bigEndian (slice data offset (offset + 2))) with
        | error err =>
          rw [hrec] at h
          cases h
        | ok r =>
          rw [hrec] at h
          cases h
          exact ih hrec

/-- Where `unmarshal` has found the fields of the token it returns; the nonce
starts at `offset`. -/
structure ReadAt (data : GoString) (t : Token) (offset : Nat) : Prop where
  after_count : pubkeySize + 2 ≤ offset
  size : layoutSize data = offset + nonceSize + expirySize + sigSize
  in_range : offset + nonceSize + expirySize + sigSize ≤ data.length
  key : t.publicKey = slice data 0 pubkeySize
  count : bigEndian (slice data pubkeySize (pubkeySize + 2)) = t.endpoints.length
  lengths : ∀ ep ∈ t.endpoints, ep.length ≤ 0xFFFF
  endpoints : slice data (pubkeySize + 2) offset = endpointBytes t.endpoints
  nonce : t.nonce.val = slice data offset (offset + nonceSize)
  expiry : t.expiresAt = timeUnix ((bigEndian (slice data (offset + nonceSize)
    (offset + nonceSize + expirySize)) : Int).bmod (2 ^ 64))

theorem unmarshal_readAt {data : GoString} {t : Token} (h : unmarshal data = .ok t) :
    ∃ offset, ReadAt data t offset := by
  unfold unmarshal at h
  split at h
  · cases h
  next hshort =>
    dsimp only at h
    cases heps : unmarshalEndpoints data (bigEndian (slice data pubkeySize (pubkeySize + 2)))
        (pubkeySize + 2) with
    | error err =>
      rw [heps] at h
      cases h
    | ok r =>
      obtain ⟨eps, offset⟩ := r
      rw [heps] at h
      dsimp only at h
      split at h
      · cases h
      next hnonce =>
        split at h
        · cases h
        next hexpiry =>
          cases h
          obtain ⟨hcount, hlens, hmono, hbytes⟩ := unmarshalEndpoints_eq_ok heps
          have hend : offset + nonceSize + expirySize + sigSize ≤ data.length := by omega
          refine ⟨offset, hmono, ?_, hend, rfl, hcount.symm, hlens, (hbytes (by omega)).2, ?_, rfl⟩
          · rw [layoutSize, endpointsEnd_of_ok heps]
          · apply copyBytes_val
            rw [length_slice (by omega), Nat.add_sub_cancel_left]
            rfl

namespace ReadAt

variable {data : GoString} {t : Token} {offset : Nat}

theorem fits (h : ReadAt data t offset) : t.Fits := by
  have hin := h.in_range
  have hafter := h.after_count
  refine ⟨?_, ?_, h.lengths⟩
  · rw [h.key, length_slice (by omega), Nat.sub_zero]
  · have hlt := bigEndian_lt (slice data pubkeySize (pubkeySize + 2))
    rw [length_slice (by omega), Nat.add_sub_cancel_left, h.count] at hlt
    omega

theorem decoded_eq (h : ReadAt data t offset) : t.decoded = t := by
  unfold Token.decoded
  rw [h.expiry, timeUnix_unix_timeUnix, ← h.expiry]

/-- The token's payload is the part of the bytes up to the end of the expiry. -/
theorem payload_eq (h : ReadAt data t offset) :
    t.payload = slice data 0 (offset + nonceSize + expirySize) := by
  have hin := h.in_range
  have hafter := h.after_count
  have hcount : appendUint 2 t.endpoints.length = slice data pubkeySize (pubkeySize + 2) := by
    have hinv := appendUint_bigEndian (slice data pubkeySize (pubkeySize + 2))
    rw [length_slice (by omega), Nat.add_sub_cancel_left, h.count] at hinv
    exact hinv
  have hexpiry : appendUint 8 (t.expiresAt.unix % 2 ^ 64).toNat
      = slice data (offset + nonceSize) (offset + nonceSize + expirySize) := by
    have hinv := appendUint_bigEndian
      (slice data (offset + nonceSize) (offset + nonceSize + expirySize))
    have hlt := bigEndian_lt (slice data (offset + nonceSize) (offset + nonceSize + expirySize))
    rw [length_slice (by omega), Nat.add_sub_cancel_left] at hinv hlt
    have hsec : (t.expiresAt.unix % 2 ^ 64).toNat = bigEndian (slice data (offset + nonceSize)
        (offset + nonceSize + expirySize)) := by
      rw [h.expiry, unix_timeUnix_emod]
      have hbmod : (bigEndian (slice data (offset + nonceSize)
          (offset + nonceSize + expirySize)) : Int).bmod (2 ^ 64) % 2 ^ 64
          = (bigEndian (slice data (offset + nonceSize)
            (offset + nonceSize + expirySize)) : Int) % 2 ^ 64 := Int.bmod_emod
      rw [hbmod]
      unfold expirySize at hlt ⊢
      omega
    rw [hsec]
    exact hinv
  unfold Token.payload
  rw [h.key, hcount, ← h.endpoints, h.nonce, hexpiry, slice_append (by omega) (by omega),
    slice_append (by omega) hafter, slice_append (by omega) (by omega),
    slice_append (by omega) (by omega)]

end ReadAt

/-- **The bytes of a token**: `unmarshal` accepts exactly the payload of the
token it returns, followed by anything, followed by 64 bytes. -/
theorem unmarshal_eq_ok_iff (data : GoString) (t : Token) :
    unmarshal data = .ok t
      ↔ (t.Fits ∧ t.decoded = t) ∧ ∃ extra sig, data = t.payload ++ extra ++ sig
          ∧ sig.length = sigSize := by
  constructor
  · intro h
    obtain ⟨offset, hread⟩ := unmarshal_readAt h
    have hin := hread.in_range
    refine ⟨⟨hread.fits, hread.decoded_eq⟩, slice data (offset + nonceSize + expirySize)
      (data.length - sigSize), data.drop (data.length - sigSize), ?_, ?_⟩
    · rw [hread.payload_eq, slice_append (Nat.zero_le _) (by omega), slice_zero,
        List.take_append_drop]
    · rw [List.length_drop]
      omega
  · rintro ⟨⟨hfits, hdec⟩, extra, sig, rfl, hsig⟩
    rw [unmarshal_payload hfits extra hsig, hdec]

theorem decode_key_length {raw : GoString} {tok : Token} (h : decode raw = .ok tok) :
    tok.publicKey.length = 32 := by
  unfold decode at h
  split at h
  · cases h
  · split at h
    · cases h
    next data _ => exact ((unmarshal_eq_ok_iff data tok).mp h).1.1.1

/-! ## §7. Round trip and exactness. -/

/-- **Token round trip.**  A token within the limits is encoded, with whatever
key signs it, and decoded to the same token, its expiry cut to seconds; a token
outside them is refused. -/
theorem token_round_trip (sign : GoString → GoString → GoString) (privKey : GoString)
    (hsign : ∀ payload, (sign privKey payload).length = sigSize) (t : Token)
    (hexp : IsGoTime t.expiresAt) :
    (t.Fits → ∃ raw, encode sign t privKey = .ok raw
        ∧ decode raw = .ok { t with expiresAt := Time.ofUnix t.expiresAt.unix })
      ∧ (¬ t.Fits → ∃ err, encode sign t privKey = .error err) := by
  constructor
  · intro hfits
    refine ⟨_, by rw [encode, marshalPayload_ok hfits]; rfl, ?_⟩
    rw [decode, if_neg (not_not_intro (List.prefix_append _ _)), List.drop_left,
      Base64.decodeString_encodeToString]
    have hread := unmarshal_payload hfits [] (hsign t.payload)
    rw [List.append_nil] at hread
    dsimp only
    rw [hread, Token.decoded, timeUnix_unix hexp]
  · intro hfits
    obtain ⟨err, herr⟩ := marshalPayload_error hfits
    rw [encode, herr]
    exact ⟨err, rfl⟩

/-- An invite whose expiry has half a second: signed, written and read back. -/
theorem token_round_trip_invite :
    let t : Token := { inviteToken with expiresAt := ⟨1800000000500000000⟩ }
    ∃ raw, encode signInvite t [] = .ok raw ∧ decode raw = .ok inviteToken :=
  (token_round_trip signInvite [] (length_signInvite []) _ (by unfold IsGoTime; decide)).1
    (by unfold Token.Fits; decide)

/-- **How exact the grammar is.**  The payload of a token read is what stands
before the signature exactly when the bytes end where their own count and length
fields say.  And the bytes before the signature have one reading only, whether
bytes are left over or not. -/
theorem grammar_exact_iff {data : GoString} {t : Token} (h : unmarshal data = .ok t) :
    (marshalPayload t = .ok (data.take (data.length - sigSize)) ↔ data.length = layoutSize data)
      ∧ ∀ data' t', unmarshal data' = .ok t' →
          data'.take (data'.length - sigSize) = data.take (data.length - sigSize) → t' = t := by
  constructor
  · obtain ⟨offset, hread⟩ := unmarshal_readAt h
    have hin := hread.in_range
    rw [marshalPayload_ok hread.fits, hread.payload_eq, hread.size, slice_zero]
    constructor
    · intro heq
      have hlen := congrArg List.length (Except.ok.inj heq)
      rw [List.length_take, List.length_take] at hlen
      omega
    · intro hlen
      have hcut : offset + nonceSize + expirySize = data.length - sigSize := by omega
      rw [hcut]
  · intro data' t' h' hsame
    obtain ⟨⟨_, _⟩, extra, sig, rfl, hsig⟩ := (unmarshal_eq_ok_iff data t).mp h
    obtain ⟨⟨hfits', hdec'⟩, extra', sig', rfl, hsig'⟩ := (unmarshal_eq_ok_iff data' t').mp h'
    have htake : ∀ {p e s : GoString}, s.length = sigSize →
        (p ++ e ++ s).take ((p ++ e ++ s).length - sigSize) = p ++ e := by
      intro p e s hs
      rw [List.length_append, hs, Nat.add_sub_cancel, List.take_left]
    rw [htake hsig, htake hsig'] at hsame
    -- the same first part, with the other signature, has both readings
    have hread := unmarshal_payload hfits' extra' hsig
    rw [hsame, h, hdec'] at hread
    exact (Except.ok.inj hread).symm

/-- The endpoints `a:1` and the empty one, nonce and expiry of nines. -/
def twoEndpoints : GoString :=
  List.replicate 32 7 ++ [0, 2, 0, 3] ++ ascii "a:1" ++ [0, 0] ++ List.replicate 24 9

/-- What they are read as. -/
def twoEndpointsToken : Token :=
  ⟨List.replicate 32 7, [ascii "a:1", []], ⟨List.replicate 16 9, rfl⟩,
    timeUnix (0x0909090909090909 : Int)⟩

/-- With a signature after them, the bytes end where they say, and are what the token is
written as. -/
theorem grammar_exact_two_endpoints :
    unmarshal (twoEndpoints ++ List.replicate 64 1) = .ok twoEndpointsToken
      ∧ (twoEndpoints ++ List.replicate 64 1).length
        = layoutSize (twoEndpoints ++ List.replicate 64 1)
      ∧ marshalPayload twoEndpointsToken = .ok twoEndpoints := by
  have hread : unmarshal (twoEndpoints ++ List.replicate 64 1) = .ok twoEndpointsToken := by
    decide +kernel
  have hsize : (twoEndpoints ++ List.replicate 64 1).length
      = layoutSize (twoEndpoints ++ List.replicate 64 1) := by decide +kernel
  have hcut : (twoEndpoints ++ List.replicate 64 1).take
      ((twoEndpoints ++ List.replicate 64 1).length - sigSize) = twoEndpoints :=
    List.take_left' (by decide +kernel)
  have hpayload := (grammar_exact_iff hread).1.mpr hsize
  rw [hcut] at hpayload
  exact ⟨hread, hsize, hpayload⟩

/-- One byte more before the signature, and it is read as the same token; the
payload of that token is not what the signature covers.  So it is with endpoints. -/
theorem unmarshal_left_over :
    (let data : GoString := List.replicate 58 0 ++ [1] ++ List.replicate 64 0
      let t : Token := ⟨List.replicate 32 0, [], ⟨List.replicate 16 0, rfl⟩, ⟨0⟩⟩
      unmarshal data = .ok t ∧ marshalPayload t = .ok (List.replicate 58 0)
        ∧ data.take (data.length - sigSize) = List.replicate 58 0 ++ [1])
    ∧ (let data : GoString := twoEndpoints ++ [1] ++ List.replicate 64 1
      unmarshal data = .ok twoEndpointsToken ∧ marshalPayload twoEndpointsToken = .ok twoEndpoints
        ∧ data.take (data.length - sigSize) = twoEndpoints ++ [1]) := by
  decide +kernel

end Kin.Invite
