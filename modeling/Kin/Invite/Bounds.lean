/-
  Kin.Invite.Bounds

  **THE PARSER STAYS IN ITS BUFFER.**

  `Kin.Invite.Token` cuts its slices with `List.take` and `List.drop`, which
  cannot fail.  Here `unmarshal` and `Validate` are written once more with every
  slice and index expression as a step that can go out of range: as programs of
  `Kin.Lib.Slices`, the endpoint loop with its 16-bit counter.

  The loop keeps `offset` 88 bytes or more away from the end of the buffer (the
  nonce, the expiry and the signature); every bound follows from that.

    • `endpointLoop_safe` — the loop, for every claimed count,
    • `unmarshalSlices_safe` — the program computes `unmarshal`, and asks for no
      byte of the signature,
    • `invite_parser_safe` — all of it, for every buffer.
-/
import Kin.Lib.Slices
import Kin.Invite.Grammar

namespace Kin.Invite

open Kin.Lib Kin.Lib.Slices

/-! ## §1. The programs. -/

/-- `binary.BigEndian.Uint16`; it begins with `_ = b[1]`. -/
def uint16 (b : GoString) : Slices UInt16 :=
  if b.length < 2 then .fault else .ret (UInt16.ofNat (bigEndian (b.take 2)))

/-- `binary.BigEndian.Uint64`; it begins with `_ = b[7]`. -/
def uint64 (b : GoString) : Slices UInt64 :=
  if b.length < 8 then .fault else .ret (UInt64.ofNat (bigEndian (b.take 8)))

theorem toNat_add_one {i n : UInt16} (h : i < n) : (i + 1).toNat = i.toNat + 1 := by
  have hlt : i.toNat < n.toNat := UInt16.lt_iff_toNat_lt.mp h
  have hn := n.toNat_lt
  rw [UInt16.toNat_add]
  exact Nat.mod_eq_of_lt (by show i.toNat + 1 < 2 ^ 16; omega)

/-- `for i := uint16(0); i < epCount; i++`, on a buffer of `len` bytes. -/
def endpointLoop (len : Nat) (epCount i : UInt16) (endpoints : List GoString) (offset : Nat) :
    Slices (Except String (List GoString × Nat)) :=
  if h : i < epCount then
    if offset + 2 > len - nonceSize - expirySize - sigSize then
      return .error "invite: truncated endpoint"
    else do
      let epLen ← uint16 (← get offset (offset + 2))
      if offset + 2 + epLen.toNat > len - nonceSize - expirySize - sigSize then
        return .error "invite: truncated endpoint data"
      else
        let ep ← get (offset + 2) (offset + 2 + epLen.toNat)
        endpointLoop len epCount (i + 1) (endpoints ++ [ep]) (offset + 2 + epLen.toNat)
  else return .ok (endpoints, offset)
termination_by epCount.toNat - i.toNat
decreasing_by
  have hlt : i.toNat < epCount.toNat := UInt16.lt_iff_toNat_lt.mp h
  rw [toNat_add_one h]
  omega

/-- `unmarshal` on a buffer of `len` bytes. -/
def unmarshalSlices (len : Nat) : Slices (Except String Token) :=
  if len < pubkeySize + 2 + nonceSize + expirySize + sigSize then
    return .error ("invite: token too short (" ++ toString len ++ " bytes)")
  else do
    let pubkey ← get 0 pubkeySize
    let epCount ← uint16 (← get pubkeySize (pubkeySize + 2))
    match ← endpointLoop len epCount 0 [] (pubkeySize + 2) with
    | .error err => return .error err
    | .ok (endpoints, offset) =>
      if offset + nonceSize > len - expirySize - sigSize then
        return .error "invite: truncated nonce"
      else
        let nonce ← get offset (offset + nonceSize)
        if offset + nonceSize + expirySize > len - sigSize then
          return .error "invite: truncated expiry"
        else
          let expiry ← uint64 (← get (offset + nonceSize) (offset + nonceSize + expirySize))
          return .ok {
            publicKey := pubkey
            endpoints := endpoints
            nonce := copyBytes 16 nonce
            expiresAt := timeUnix ((expiry.toNat : Int).bmod (2 ^ 64)) }

/-- `ed25519.Verify`: it panics unless the key has 32 bytes. -/
def verifyKey (verify : GoString → GoString → GoString → Bool) (publicKey message sig : GoString) :
    Option Bool :=
  if publicKey.length = 32 then some (verify publicKey message sig) else none

/-- `data[:len(data)-sigSize]` and `data[len(data)-sigSize:]`. -/
def splitSig (len : Nat) : Slices (GoString × GoString) := do
  let payload ← get 0 (len - sigSize)
  let sig ← get (len - sigSize) len
  return (payload, sig)

/-- `Validate` up to its first use of the nonce store; `none` is a run-time
error. -/
def checkTokenSlices (verify : GoString → GoString → GoString → Bool) (t : Token) (raw : GoString)
    (now : Time) : Option (Option String) :=
  if after now t.expiresAt then some (some "invite: token expired")
  else do
    let text ← ((get tokenPrefix.length raw.length).exec raw).2
    match Base64.decodeString text with
    | .error err => return some ("invite: decode for validation: " ++ err)
    | .ok data =>
      if data.length < sigSize then return some "invite: data too short for signature"
      else
        let (payload, sig) ← ((splitSig data.length).exec data).2
        let ok ← verifyKey verify t.publicKey payload sig
        return if ok then none else some "invite: invalid signature"

/-! ## §2. Numbers. -/

theorem uint16_safe (data : GoString) (n : Nat) {b : GoString} (h : b.length = 2) :
    ∃ v : UInt16, v.toNat = bigEndian b ∧ Safe data n (uint16 b) v := by
  have hlt := bigEndian_lt b
  rw [h] at hlt
  refine ⟨UInt16.ofNat (bigEndian b), UInt16.toNat_ofNat_of_lt' hlt, ?_⟩
  unfold uint16
  rw [if_neg (by omega), List.take_of_length_le (by omega)]
  exact Safe.ret _

theorem uint64_safe (data : GoString) (n : Nat) {b : GoString} (h : b.length = 8) :
    ∃ v : UInt64, v.toNat = bigEndian b ∧ Safe data n (uint64 b) v := by
  have hlt := bigEndian_lt b
  rw [h] at hlt
  refine ⟨UInt64.ofNat (bigEndian b), UInt64.toNat_ofNat_of_lt' hlt, ?_⟩
  unfold uint64
  rw [if_neg (by omega), List.take_of_length_le (by omega)]
  exact Safe.ret _

/-! ## §3. The endpoint loop. -/

variable {data : GoString}

/-- The end of the part the endpoints may take: the nonce, the expiry and the
signature come after it. -/
def reserved : Nat := nonceSize + expirySize + sigSize

/-- **The loop leaves the reserved bytes alone.** -/
theorem unmarshalEndpoints_end_le {n offset end_ : Nat} {eps : List GoString}
    (h : unmarshalEndpoints data n offset = .ok (eps, end_))
    (hoff : offset + reserved ≤ data.length) : end_ + reserved ≤ data.length := by
  induction n generalizing offset eps with
  | zero =>
    cases h
    exact hoff
  | succ n ih =>
    rw [unmarshalEndpoints] at h
    split at h
    · cases h
    · dsimp only at h
      split at h
      · cases h
      next hdata =>
        cases hrec : unmarshalEndpoints data n
            (offset + 2 + bigEndian (slice data offset (offset + 2))) with
        | error err =>
          rw [hrec] at h
          cases h
        | ok r =>
          rw [hrec] at h
          cases h
          refine ih hrec ?_
          unfold reserved at hoff ⊢
          omega

/-- **The endpoint loop**, with `m` rounds to go: every slice is in range and
before the reserved bytes. -/
theorem endpointLoop_safe (m offset : Nat) (epCount i : UInt16) (eps : List GoString)
    (hm : i.toNat + m = epCount.toNat) (hoff : offset + reserved ≤ data.length) :
    Safe data (data.length - sigSize) (endpointLoop data.length epCount i eps offset)
      ((unmarshalEndpoints data m offset).map (fun r => (eps ++ r.1, r.2))) := by
  have hreserved : reserved = nonceSize + expirySize + sigSize := rfl
  induction m generalizing i eps offset with
  | zero =>
    -- the counter has reached the claimed count
    have hdone : ¬ i < epCount := by
      rw [UInt16.lt_iff_toNat_lt]
      omega
    rw [endpointLoop, dif_neg hdone, unmarshalEndpoints]
    dsimp only [Except.map]
    rw [List.append_nil]
    exact Safe.ret _
  | succ m ih =>
    have hgo : i < epCount := by
      rw [UInt16.lt_iff_toNat_lt]
      omega
    rw [endpointLoop, dif_pos hgo, unmarshalEndpoints]
    by_cases hfield : offset + 2 > data.length - nonceSize - expirySize - sigSize
    · rw [if_pos hfield, if_pos hfield]
      exact Safe.ret _
    · rw [if_neg hfield, if_neg hfield]
      have hlen : (slice data offset (offset + 2)).length = 2 := by
        rw [length_slice (by omega)]
        omega
      obtain ⟨epLen, hval, hsafe⟩ := uint16_safe data (data.length - sigSize) hlen
      refine (Safe.get (by omega) (by omega) (by omega)).bind (hsafe.bind ?_)
      rw [hval]
      by_cases hdata : offset + 2 + bigEndian (slice data offset (offset + 2))
          > data.length - nonceSize - expirySize - sigSize
      · rw [if_pos hdata, if_pos hdata]
        exact Safe.ret _
      · rw [if_neg hdata, if_neg hdata]
        refine (Safe.get (by omega) (by omega) (by omega)).bind ?_
        have hrest := ih (offset + 2 + bigEndian (slice data offset (offset + 2))) (i + 1)
          (eps ++ [slice data (offset + 2)
            (offset + 2 + bigEndian (slice data offset (offset + 2)))])
          (by rw [toNat_add_one hgo]; omega) (by omega)
        -- the endpoints read so far stand before those of the rest
        cases hrec : unmarshalEndpoints data m
            (offset + 2 + bigEndian (slice data offset (offset + 2))) with
        | error err =>
          rw [hrec] at hrest
          exact hrest
        | ok r =>
          rw [hrec] at hrest
          simp only [Except.map, List.append_assoc, List.cons_append, List.nil_append]
            at hrest ⊢
          exact hrest

/-! ## §4. `unmarshal`. -/

/-- With the loop in its bounds, the fixed fields are there. -/
theorem no_truncated_tail {eps : List GoString} {offset : Nat}
    (hlen : pubkeySize + 2 + reserved ≤ data.length)
    (heps : unmarshalEndpoints data (bigEndian (slice data pubkeySize (pubkeySize + 2)))
      (pubkeySize + 2) = .ok (eps, offset)) :
    ¬ offset + nonceSize > data.length - expirySize - sigSize
      ∧ ¬ offset + nonceSize + expirySize > data.length - sigSize := by
  have hend := unmarshalEndpoints_end_le heps hlen
  unfold reserved at hend
  omega

/-- **The program computes `unmarshal`**, and asks for bytes before the
signature only. -/
theorem unmarshalSlices_safe (data : GoString) :
    Safe data (data.length - sigSize) (unmarshalSlices data.length) (unmarshal data) := by
  have hreserved : reserved = nonceSize + expirySize + sigSize := rfl
  have hkeySize : pubkeySize = 32 := rfl
  unfold unmarshalSlices unmarshal
  by_cases hshort : data.length < pubkeySize + 2 + nonceSize + expirySize + sigSize
  · rw [if_pos hshort, if_pos hshort]
    exact Safe.ret _
  · rw [if_neg hshort, if_neg hshort]
    have hlen : (slice data pubkeySize (pubkeySize + 2)).length = 2 := by
      rw [length_slice (by omega)]
      omega
    obtain ⟨epCount, hval, hsafe⟩ := uint16_safe data (data.length - sigSize) hlen
    refine (Safe.get (by omega) (by omega) (by omega)).bind
      ((Safe.get (by omega) (by omega) (by omega)).bind (hsafe.bind ?_))
    have hloop : Safe data (data.length - sigSize) _ _ :=
      endpointLoop_safe epCount.toNat (pubkeySize + 2) epCount 0 [] (Nat.zero_add _) (by omega)
    rw [hval] at hloop
    refine hloop.bind ?_
    dsimp only
    cases heps : unmarshalEndpoints data (bigEndian (slice data pubkeySize (pubkeySize + 2)))
        (pubkeySize + 2) with
    | error err => exact Safe.ret _
    | ok r =>
      obtain ⟨eps, offset⟩ := r
      obtain ⟨hnonce, hexpiry⟩ := no_truncated_tail (by omega) heps
      have hbytes : (slice data (offset + nonceSize)
          (offset + nonceSize + expirySize)).length = 8 := by
        rw [length_slice (by omega), Nat.add_sub_cancel_left]
        rfl
      obtain ⟨expiry, hexp, hsafe⟩ := uint64_safe data (data.length - sigSize) hbytes
      dsimp only [Except.map]
      rw [if_neg hnonce, if_neg hnonce, List.nil_append]
      refine (Safe.get (by omega) (by omega) (by omega)).bind ?_
      rw [if_neg hexpiry, if_neg hexpiry]
      refine (Safe.get (by omega) (by omega) (by omega)).bind (hsafe.bind ?_)
      rw [hexp]
      exact Safe.ret _

/-- The signature plays no part in what `unmarshal` returns. -/
theorem unmarshal_congr {data data' : GoString} (hlen : data.length = data'.length)
    (htake : data.take (data.length - sigSize) = data'.take (data.length - sigSize)) :
    unmarshal data = unmarshal data' := by
  have hsafe := (unmarshalSlices_safe data).congr hlen htake
  have hsafe' := unmarshalSlices_safe data'
  rw [← hlen] at hsafe'
  exact hsafe.unique hsafe'

/-- The errors of the endpoint loop. -/
theorem unmarshalEndpoints_error {n offset : Nat} {err : String}
    (h : unmarshalEndpoints data n offset = .error err) :
    err = "invite: truncated endpoint" ∨ err = "invite: truncated endpoint data" := by
  induction n generalizing offset with
  | zero => cases h
  | succ n ih =>
    rw [unmarshalEndpoints] at h
    split at h
    · cases h
      exact Or.inl rfl
    · dsimp only at h
      split at h
      · cases h
        exact Or.inr rfl
      · cases hrec : unmarshalEndpoints data n
            (offset + 2 + bigEndian (slice data offset (offset + 2))) with
        | error err' =>
          rw [hrec] at h
          cases h
          exact ih hrec
        | ok r =>
          rw [hrec] at h
          cases h

/-- Every error comes from before the fixed fields. -/
theorem unmarshal_error {data : GoString} {err : String} (h : unmarshal data = .error err) :
    err = "invite: token too short (" ++ toString data.length ++ " bytes)"
      ∨ err = "invite: truncated endpoint" ∨ err = "invite: truncated endpoint data" := by
  unfold unmarshal at h
  split at h
  · cases h
    exact Or.inl rfl
  next hshort =>
    dsimp only at h
    cases heps : unmarshalEndpoints data (bigEndian (slice data pubkeySize (pubkeySize + 2)))
        (pubkeySize + 2) with
    | error err' =>
      rw [heps] at h
      cases h
      exact Or.inr (unmarshalEndpoints_error heps)
    | ok r =>
      obtain ⟨eps, offset⟩ := r
      obtain ⟨hnonce, hexpiry⟩ := no_truncated_tail (by unfold reserved; omega) heps
      rw [heps] at h
      dsimp only at h
      rw [if_neg hnonce, if_neg hexpiry] at h
      cases h

/-- The tenth character tells the texts apart. -/
theorem tooShort_ne {len : Nat} {text : String} (h : text.toList[9]? = some 'r') :
    "invite: token too short (" ++ toString len ++ " bytes)" ≠ text := by
  rintro rfl
  simp at h

theorem unmarshal_ne_truncated_nonce (data : GoString) :
    unmarshal data ≠ .error "invite: truncated nonce" := by
  intro h
  rcases unmarshal_error h with herr | herr | herr
  · exact tooShort_ne (by decide) herr.symm
  · exact absurd herr (by decide)
  · exact absurd herr (by decide)

theorem unmarshal_ne_truncated_expiry (data : GoString) :
    unmarshal data ≠ .error "invite: truncated expiry" := by
  intro h
  rcases unmarshal_error h with herr | herr | herr
  · exact tooShort_ne (by decide) herr.symm
  · exact absurd herr (by decide)
  · exact absurd herr (by decide)

/-! ## §5. `Validate`. -/

theorem splitSig_safe {data : GoString} (h : sigSize ≤ data.length) :
    Safe data data.length (splitSig data.length)
      (data.take (data.length - sigSize), data.drop (data.length - sigSize)) := by
  have hpayload : cut data 0 (data.length - sigSize) = data.take (data.length - sigSize) := rfl
  have hsig : cut data (data.length - sigSize) data.length
      = data.drop (data.length - sigSize) := by
    unfold cut
    exact List.take_of_length_le (by rw [List.length_drop])
  unfold splitSig
  rw [← hpayload, ← hsig]
  refine (Safe.get (by omega) (by omega) (Nat.le_refl _)).bind ?_
  refine (Safe.get (by omega) (by omega) (Nat.le_refl _)).bind ?_
  exact Safe.ret _

theorem get_text {raw : GoString} (h : tokenPrefix <+: raw) :
    ((get tokenPrefix.length raw.length).exec raw).2 = some (raw.drop tokenPrefix.length) := by
  have hsafe : Safe raw raw.length _ _ := Safe.get h.length_le (Nat.le_refl _) (Nat.le_refl _)
  rw [hsafe.1]
  unfold cut
  rw [List.take_of_length_le (by rw [List.length_drop])]

/-- What `Decode` has seen of a text it accepts. -/
theorem decode_eq_ok {raw : GoString} {t : Token} (h : decode raw = .ok t) :
    tokenPrefix <+: raw ∧ ∃ data, Base64.decodeString (raw.drop tokenPrefix.length) = .ok data
      ∧ unmarshal data = .ok t := by
  unfold decode at h
  split at h
  · cases h
  next htext =>
    split at h
    · cases h
    next data hdata => exact ⟨not_not.mp htext, data, hdata, h⟩

/-- **`Validate` on a text that `Decode` accepts** meets no run-time error. -/
theorem checkTokenSlices_eq (verify : GoString → GoString → GoString → Bool) {raw : GoString}
    {t : Token} (h : decode raw = .ok t) (now : Time) :
    checkTokenSlices verify t raw now = some (checkToken verify t raw now) := by
  obtain ⟨htext, data, hdata, ht⟩ := decode_eq_ok h
  obtain ⟨offset, hread⟩ := unmarshal_readAt ht
  have hkey : t.publicKey.length = 32 := hread.fits.1
  have hsig : sigSize ≤ data.length := by
    have hin := hread.in_range
    omega
  unfold checkTokenSlices checkToken
  by_cases hexp : after now t.expiresAt = true
  · rw [if_pos hexp, if_pos hexp]
  · rw [if_neg hexp, if_neg hexp, get_text htext]
    simp only [Option.bind_eq_bind, Option.bind_some, hdata]
    rw [if_neg (Nat.not_lt_of_le hsig), if_neg (Nat.not_lt_of_le hsig), (splitSig_safe hsig).1]
    simp only [Option.bind_some]
    unfold verifyKey
    rw [if_pos hkey]
    rfl

/-! ## §6. Every buffer. -/

/-- **The parser is safe**: for every buffer the program with checked slices
returns what `unmarshal` returns, every range it asks for ends before the last
64 bytes, which play no part in the result, and the last two errors do not
occur; a text that `Decode` accepts takes `Validate` through its own slices and
to `ed25519.Verify` with a key of 32 bytes. -/
theorem invite_parser_safe (verify : GoString → GoString → GoString → Bool) (data : GoString) :
    ((unmarshalSlices data.length).exec data).2 = some (unmarshal data)
      ∧ (∀ r ∈ ((unmarshalSlices data.length).exec data).1,
          r.1 ≤ r.2 ∧ r.2 ≤ data.length - sigSize)
      ∧ (∀ payload sig sig' : GoString, data = payload ++ sig → sig.length = sigSize →
          sig'.length = sigSize → unmarshal (payload ++ sig') = unmarshal data)
      ∧ unmarshal data ≠ .error "invite: truncated nonce"
      ∧ unmarshal data ≠ .error "invite: truncated expiry"
      ∧ ∀ raw t now, decode raw = .ok t →
          checkTokenSlices verify t raw now = some (checkToken verify t raw now)
            ∧ t.publicKey.length = 32 := by
  have hsafe := unmarshalSlices_safe data
  refine ⟨hsafe.1, hsafe.2, ?_, unmarshal_ne_truncated_nonce data,
    unmarshal_ne_truncated_expiry data, ?_⟩
  · rintro payload sig sig' rfl hsig hsig'
    apply unmarshal_congr
    · rw [List.length_append, List.length_append, hsig, hsig']
    · rw [List.length_append, hsig', Nat.add_sub_cancel, List.take_left, List.take_left]
  · intro raw t now h
    obtain ⟨-, data', -, ht⟩ := decode_eq_ok h
    obtain ⟨offset, hread⟩ := unmarshal_readAt ht
    exact ⟨checkTokenSlices_eq verify h now, hread.fits.1⟩

end Kin.Invite
