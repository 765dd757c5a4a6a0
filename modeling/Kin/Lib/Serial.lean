/-
  Kin.Lib.Serial

  **WRITERS THAT SHARE A STREAM UNDER A MUTEX.**

  A call writes its message in several pieces, one `Write` each, and holds a mutex
  from the first to the last:

      call ──▶ lock ──▶ write, write, … ──▶ unlock
                          └──▶ a write fails, after some of its bytes

  A failed write leaves a TORN message on the stream.  Whether anything can follow
  it depends on the stream: on some a failed write is the last one (`lasting`), on
  one with a deadline the next may go through.

    • `Kept` — the stream is what the calls have put on it, one after the other,
    • `neat_step_iff` — no byte follows a torn message exactly if no call writes behind one,
    • `Kept.failed_of_torn` — what is torn belongs to a call that has returned an error,
    • `neat_of_lasting` — where errors last, none ever does,
    • `Neat.bytes` — and then the stream is the whole messages and one torn at most.
-/
import Kin.Lib.Run

namespace Kin.Lib.Serial

variable {α β : Type}

/-! ## §1. Calls and the stream. -/

inductive Phase where
  | waiting
  /-- It has the mutex. -/
  | holding
  | returned (ok : Bool)
  deriving DecidableEq

structure Call (α : Type) where
  msg : α
  phase : Phase

/-- What a call has put on the stream. -/
structure Part (α β : Type) where
  call : Nat
  msg : α
  written : List β

/-- The call that has the mutex: what it has written, and the pieces to come, or
`none` once a write has failed. -/
structure Holder (α β : Type) where
  part : Part α β
  rest : Option (List (List β))

structure Stream (α β : Type) where
  calls : List (Call α)
  holder : Option (Holder α β)
  /-- No write takes a byte any more. -/
  shut : Bool
  wire : List β
  /-- History: the parts of the calls that have returned, in the order of the mutex. -/
  log : List (Part α β)

inductive Act (α : Type) where
  | call (msg : α)
  | lock (i : Nat)
  | write
  /-- A write fails after `k` bytes. -/
  | fail (k : Nat)
  | unlock
  | shut

def Stream.new : Stream α β := ⟨[], none, false, [], []⟩

/-- The holder's bytes go to the stream. -/
def Stream.put (s : Stream α β) (h : Holder α β) (bytes : List β)
    (rest : Option (List (List β))) : Stream α β :=
  { s with
    holder := some ⟨{ h.part with written := h.part.written ++ bytes }, rest⟩
    wire := s.wire ++ bytes }

section Machine

variable (pieces : α → List (List β)) (lasting : Bool)

def step (s : Stream α β) : Act α → Option (Stream α β)
  | .call msg => some { s with calls := s.calls ++ [⟨msg, .waiting⟩] }
  | .lock i =>
    match s.holder with
    | some _ => none
    | none =>
      match s.calls[i]? with
      | some ⟨msg, .waiting⟩ =>
        some { s with
          calls := s.calls.set i ⟨msg, .holding⟩
          holder := some ⟨⟨i, msg, []⟩, some (pieces msg)⟩ }
      | _ => none
  | .write =>
    match s.holder with
    | none => none
    | some h =>
      match h.rest with
      | some (piece :: rest) => if s.shut then none else some (s.put h piece (some rest))
      | _ => none
  | .fail k =>
    match s.holder with
    | none => none
    | some h =>
      match h.rest with
      | some (piece :: _) =>
        some { s.put h (if s.shut then [] else piece.take k) none with
          shut := s.shut || lasting }
      | _ => none
  | .unlock =>
    match s.holder with
    | none => none
    | some h =>
      match h.rest with
      | some (_ :: _) => none
      | some [] =>
        some { s with
          calls := s.calls.set h.part.call ⟨h.part.msg, .returned true⟩
          holder := none
          log := s.log ++ [h.part] }
      | none =>
        some { s with
          calls := s.calls.set h.part.call ⟨h.part.msg, .returned false⟩
          holder := none
          log := s.log ++ [h.part] }
  | .shut => some { s with shut := true }

/-- What a step can do. -/
inductive Step (s : Stream α β) : Act α → Stream α β → Prop
  | call (msg : α) : Step s (.call msg) { s with calls := s.calls ++ [⟨msg, .waiting⟩] }
  | lock {i : Nat} {msg : α} (hfree : s.holder = none)
      (hcall : s.calls[i]? = some ⟨msg, .waiting⟩) :
      Step s (.lock i) { s with
        calls := s.calls.set i ⟨msg, .holding⟩
        holder := some ⟨⟨i, msg, []⟩, some (pieces msg)⟩ }
  | write {h : Holder α β} {piece : List β} {rest : List (List β)} (hold : s.holder = some h)
      (hrest : h.rest = some (piece :: rest)) (hopen : s.shut = false) :
      Step s .write (s.put h piece (some rest))
  | fail {h : Holder α β} {piece : List β} {rest : List (List β)} (k : Nat)
      (hold : s.holder = some h) (hrest : h.rest = some (piece :: rest)) :
      Step s (.fail k) { s.put h (if s.shut then [] else piece.take k) none with
        shut := s.shut || lasting }
  | unlock {h : Holder α β} {ok : Bool} (hold : s.holder = some h)
      (hrest : h.rest = if ok then some [] else none) :
      Step s .unlock { s with
        calls := s.calls.set h.part.call ⟨h.part.msg, .returned ok⟩
        holder := none
        log := s.log ++ [h.part] }
  | shut : Step s .shut { s with shut := true }

theorem step_sound {s t : Stream α β} {a : Act α} (hs : step pieces lasting s a = some t) :
    Step pieces lasting s a t := by
  unfold step at hs
  split at hs
  next msg =>
    injection hs with hs
    exact hs ▸ .call msg
  next i =>
    split at hs
    next => cases hs
    next hfree =>
      split at hs
      next msg hcall =>
        injection hs with hs
        exact hs ▸ .lock hfree hcall
      next => cases hs
  next =>
    split at hs
    next => cases hs
    next h hold =>
      split at hs
      next piece rest hrest =>
        split at hs
        next => cases hs
        next hopen =>
          injection hs with hs
          exact hs ▸ .write hold hrest (eq_false_of_ne_true hopen)
      next => cases hs
  next k =>
    split at hs
    next => cases hs
    next h hold =>
      split at hs
      next piece rest hrest =>
        injection hs with hs
        exact hs ▸ .fail k hold hrest
      next => cases hs
  next =>
    split at hs
    next => cases hs
    next h hold =>
      split at hs
      next => cases hs
      next hrest =>
        injection hs with hs
        exact hs ▸ Step.unlock hold (show h.rest = if true then some [] else none from hrest)
      next hrest =>
        injection hs with hs
        exact hs ▸ Step.unlock hold (show h.rest = if false then some [] else none from hrest)
  next =>
    injection hs with hs
    exact hs ▸ .shut

end Machine

/-! ## §2. What is on the stream. -/

/-- What the calls have put on the stream, in the order of the mutex. -/
def Stream.parts (s : Stream α β) : List (Part α β) :=
  s.log ++ (s.holder.map Holder.part).toList

theorem Stream.parts_of_free {s : Stream α β} (h : s.holder = none) : s.parts = s.log := by
  unfold parts
  rw [h]
  exact List.append_nil _

theorem Stream.parts_of_held {s : Stream α β} {h : Holder α β} (hold : s.holder = some h) :
    s.parts = s.log ++ [h.part] := by
  unfold parts
  rw [hold]
  rfl

theorem Stream.parts_put (s : Stream α β) (h : Holder α β) (bytes : List β)
    (rest : Option (List (List β))) :
    (s.put h bytes rest).parts
      = s.log ++ [{ h.part with written := h.part.written ++ bytes }] := rfl

section Invariant

variable (pieces : α → List (List β)) (lasting : Bool)

/-- The bytes of a message. -/
def frame (msg : α) : List β := (pieces msg).flatten

/-- The call is past the mutex, with this message; if no write of it has failed,
the message is whole. -/
def Part.Of (p : Part α β) (calls : List (Call α)) : Prop :=
  ∃ phase, calls[p.call]? = some ⟨p.msg, phase⟩ ∧ phase ≠ .waiting
    ∧ (phase = .returned true → p.written = frame pieces p.msg)

/-- **Kept**: the stream is the parts, one after the other; each is the beginning
of its message; each call past the mutex has one. -/
structure Kept (s : Stream α β) : Prop where
  bytes : s.wire = (s.parts.map Part.written).flatten
  within : ∀ p ∈ s.parts, p.written <+: frame pieces p.msg
  whose : ∀ p ∈ s.parts, p.Of pieces s.calls
  once : (s.parts.map Part.call).Nodup
  all : ∀ i c, s.calls[i]? = some c → c.phase ≠ .waiting → ∃ p ∈ s.parts, p.call = i
  held : ∀ i c, s.calls[i]? = some c → c.phase = .holding →
    ∃ h, s.holder = some h ∧ h.part.call = i
  rest : ∀ h, s.holder = some h → s.calls[h.part.call]? = some ⟨h.part.msg, .holding⟩
    ∧ ∀ rest, h.rest = some rest → h.part.written ++ rest.flatten = frame pieces h.part.msg

theorem kept_new : Kept pieces (Stream.new : Stream α β) := by
  constructor
  · rfl
  · intro p hp
    cases hp
  · intro p hp
    cases hp
  · exact List.nodup_nil
  · intro i c hc
    cases hc
  · intro i c hc
    cases hc
  · intro h hold
    cases hold

variable {pieces}

theorem Part.Of.concat {p : Part α β} {calls : List (Call α)} (h : p.Of pieces calls)
    (c : Call α) : p.Of pieces (calls ++ [c]) := by
  obtain ⟨phase, hcall, hrest⟩ := h
  exact ⟨phase, getElem?_concat_of hcall, hrest⟩

theorem Part.Of.set {p : Part α β} {calls : List (Call α)} (h : p.Of pieces calls) {i : Nat}
    (hne : p.call ≠ i) (c : Call α) : p.Of pieces (calls.set i c) := by
  obtain ⟨phase, hcall, hrest⟩ := h
  refine ⟨phase, ?_, hrest⟩
  rw [List.getElem?_set_ne (Ne.symm hne)]
  exact hcall

theorem Kept.call {s : Stream α β} (h : Kept pieces s) (msg : α) :
    Kept pieces { s with calls := s.calls ++ [⟨msg, .waiting⟩] } where
  bytes := h.bytes
  within := h.within
  whose := fun p hp => (h.whose p hp).concat _
  once := h.once
  all := by
    intro i c hc hphase
    rcases getElem?_concat_cases hc with ⟨-, rfl⟩ | hold
    · exact absurd rfl hphase
    · exact h.all i c hold hphase
  held := by
    intro i c hc hphase
    rcases getElem?_concat_cases hc with ⟨-, rfl⟩ | hold
    · cases hphase
    · exact h.held i c hold hphase
  rest := by
    intro holder hold
    obtain ⟨hcall, hrest⟩ := h.rest holder hold
    exact ⟨getElem?_concat_of hcall, hrest⟩

/-- A waiting call has no part yet. -/
theorem Kept.call_ne {s : Stream α β} (h : Kept pieces s) {i : Nat} {msg : α}
    (hcall : s.calls[i]? = some ⟨msg, .waiting⟩) : ∀ p ∈ s.parts, p.call ≠ i := by
  intro p hp heq
  obtain ⟨phase, hof, hphase, -⟩ := h.whose p hp
  rw [heq, hcall] at hof
  injection hof with hof
  injection hof with _ hwaiting
  exact hphase hwaiting.symm

theorem Kept.lock {s : Stream α β} (h : Kept pieces s) {i : Nat} {msg : α}
    (hfree : s.holder = none) (hcall : s.calls[i]? = some ⟨msg, .waiting⟩) :
    Kept pieces { s with
      calls := s.calls.set i ⟨msg, .holding⟩
      holder := some ⟨⟨i, msg, []⟩, some (pieces msg)⟩ } := by
  have hnew := h.call_ne hcall
  have hlt : i < s.calls.length := (List.getElem?_eq_some_iff.mp hcall).1
  have hset : (s.calls.set i ⟨msg, .holding⟩)[i]? = some ⟨msg, .holding⟩ :=
    List.getElem?_set_self hlt
  have hparts : s.parts = s.log := Stream.parts_of_free hfree
  have hbytes := h.bytes
  have hwithin := h.within
  have hwhose := h.whose
  have honce := h.once
  have hall := h.all
  rw [hparts] at hnew hbytes hwithin hwhose honce hall
  constructor
  · show s.wire = ((s.log ++ [(⟨i, msg, []⟩ : Part α β)]).map Part.written).flatten
    simp [hbytes]
  · exact forall_mem_concat hwithin (List.nil_prefix)
  · refine forall_mem_concat (fun p hp => (hwhose p hp).set (hnew p hp) _) ?_
    exact ⟨.holding, hset, by simp, by simp⟩
  · show ((s.log ++ [(⟨i, msg, []⟩ : Part α β)]).map Part.call).Nodup
    rw [List.map_append, List.map_singleton, List.nodup_append]
    refine ⟨honce, List.pairwise_singleton _ _, ?_⟩
    intro a ha b hb
    obtain ⟨p, hp, rfl⟩ := List.mem_map.mp ha
    rw [List.mem_singleton.mp hb]
    exact hnew p hp
  · intro j c hc hphase
    rcases getElem?_set_cases hc with ⟨rfl, -⟩ | ⟨-, hold⟩
    · exact ⟨_, List.mem_append_right _ (List.mem_singleton.mpr rfl), rfl⟩
    · obtain ⟨p, hp, hpc⟩ := hall j c hold hphase
      exact ⟨p, List.mem_append_left _ hp, hpc⟩
  · intro j c hc hphase
    rcases getElem?_set_cases hc with ⟨rfl, -⟩ | ⟨-, hold⟩
    · exact ⟨_, rfl, rfl⟩
    · obtain ⟨holder, hheld, -⟩ := h.held j c hold hphase
      rw [hfree] at hheld
      cases hheld
  · intro holder hold
    injection hold with hold
    subst hold
    refine ⟨hset, ?_⟩
    intro rest hrest
    injection hrest with hrest
    rw [← hrest]
    rfl

/-- More of the holder's message goes to the stream. -/
theorem Kept.put {s : Stream α β} (h : Kept pieces s) {holder : Holder α β}
    (hold : s.holder = some holder) {bytes : List β} {rest : Option (List (List β))}
    (hwithin : holder.part.written ++ bytes <+: frame pieces holder.part.msg)
    (hrest : ∀ more, rest = some more →
      holder.part.written ++ bytes ++ more.flatten = frame pieces holder.part.msg) :
    Kept pieces (s.put holder bytes rest) := by
  have hparts : s.parts = s.log ++ [holder.part] := Stream.parts_of_held hold
  obtain ⟨hcall, -⟩ := h.rest holder hold
  have hlog : ∀ p ∈ s.log, p ∈ s.parts := by
    intro p hp
    rw [hparts]
    exact List.mem_append_left _ hp
  constructor
  · rw [Stream.parts_put]
    show s.wire ++ bytes = _
    rw [h.bytes, hparts]
    simp
  · rw [Stream.parts_put]
    exact forall_mem_concat (fun p hp => h.within p (hlog p hp)) hwithin
  · rw [Stream.parts_put]
    exact forall_mem_concat (fun p hp => h.whose p (hlog p hp))
      ⟨.holding, hcall, by simp, by simp⟩
  · have honce := h.once
    rw [hparts] at honce
    rw [Stream.parts_put]
    simpa using honce
  · intro i c hc hphase
    obtain ⟨p, hp, hpc⟩ := h.all i c hc hphase
    rw [hparts] at hp
    rw [Stream.parts_put]
    rcases List.mem_append.mp hp with hp | hp
    · exact ⟨p, List.mem_append_left _ hp, hpc⟩
    · rw [List.mem_singleton.mp hp] at hpc
      exact ⟨_, List.mem_append_right _ (List.mem_singleton.mpr rfl), hpc⟩
  · intro i c hc hphase
    obtain ⟨holder', hheld, hi⟩ := h.held i c hc hphase
    rw [hold] at hheld
    rw [← Option.some.inj hheld] at hi
    exact ⟨_, rfl, hi⟩
  · intro holder' hold'
    injection hold' with hold'
    subst hold'
    exact ⟨hcall, hrest⟩

theorem Kept.unlock {s : Stream α β} (h : Kept pieces s) {holder : Holder α β} {ok : Bool}
    (hold : s.holder = some holder) (hrest : holder.rest = if ok then some [] else none) :
    Kept pieces { s with
      calls := s.calls.set holder.part.call ⟨holder.part.msg, .returned ok⟩
      holder := none
      log := s.log ++ [holder.part] } := by
  have hparts : s.parts = s.log ++ [holder.part] := Stream.parts_of_held hold
  obtain ⟨hcall, hwhole⟩ := h.rest holder hold
  have hlt : holder.part.call < s.calls.length := (List.getElem?_eq_some_iff.mp hcall).1
  have hbytes := h.bytes
  have hwithin := h.within
  have hwhose := h.whose
  have honce := h.once
  have hall := h.all
  rw [hparts] at hbytes hwithin hwhose honce hall
  have hfree : ∀ t : Stream α β, t.log = s.log ++ [holder.part] → t.holder = none →
      t.parts = s.log ++ [holder.part] := by
    intro t hlog hnone
    rw [Stream.parts_of_free hnone, hlog]
  have hnew := hfree { s with
      calls := s.calls.set holder.part.call ⟨holder.part.msg, .returned ok⟩
      holder := none
      log := s.log ++ [holder.part] } rfl rfl
  constructor
  · rw [hnew]
    exact hbytes
  · rw [hnew]
    exact hwithin
  · rw [hnew]
    refine forall_mem_concat ?_ ?_
    · intro p hp
      have hne : p.call ≠ holder.part.call := by
        rw [List.map_append, List.map_singleton, List.nodup_append] at honce
        exact honce.2.2 _ (List.mem_map_of_mem hp) _ (List.mem_singleton.mpr rfl)
      exact (hwhose p (List.mem_append_left _ hp)).set hne _
    · refine ⟨.returned ok, List.getElem?_set_self hlt, by simp, ?_⟩
      intro heq
      injection heq with heq
      subst heq
      have := hwhole [] hrest
      rwa [List.flatten_nil, List.append_nil] at this
  · rw [hnew]
    exact honce
  · rw [hnew]
    intro i c hc hphase
    rcases getElem?_set_cases hc with ⟨rfl, -⟩ | ⟨-, hold⟩
    · exact ⟨_, List.mem_append_right _ (List.mem_singleton.mpr rfl), rfl⟩
    · exact hall i c hold hphase
  · intro i c hc hphase
    rcases getElem?_set_cases hc with ⟨-, rfl⟩ | ⟨hne, hother⟩
    · cases hphase
    · obtain ⟨holder', hheld, hi⟩ := h.held i c hother hphase
      rw [hold] at hheld
      rw [← Option.some.inj hheld] at hi
      exact absurd hi.symm hne
  · intro holder' hold'
    cases hold'

theorem Kept.shutting {s : Stream α β} (h : Kept pieces s) (b : Bool) :
    Kept pieces { s with shut := b } :=
  ⟨h.bytes, h.within, h.whose, h.once, h.all, h.held, h.rest⟩

/-- **Every step keeps the stream serial.** -/
theorem Kept.step {s t : Stream α β} {a : Act α} (h : Kept pieces s)
    (hs : step pieces lasting s a = some t) : Kept pieces t := by
  cases step_sound pieces lasting hs with
  | call msg => exact h.call msg
  | lock hfree hcall => exact h.lock hfree hcall
  | @write holder piece rest hold hrest _ =>
    have hframe := (h.rest holder hold).2 _ hrest
    rw [List.flatten_cons, ← List.append_assoc] at hframe
    refine h.put hold ⟨_, hframe⟩ ?_
    intro more hmore
    injection hmore with hmore
    rw [← hmore]
    exact hframe
  | @fail holder piece rest k hold hrest =>
    have hframe := (h.rest holder hold).2 _ hrest
    rw [List.flatten_cons, ← List.append_assoc] at hframe
    refine (h.put hold ?_ (fun more hmore => by cases hmore)).shutting _
    have htaken : (if s.shut then [] else piece.take k) <+: piece := by
      split
      · exact List.nil_prefix
      · exact List.take_prefix k piece
    exact ((List.prefix_append_right_inj _).mpr htaken).trans ⟨_, hframe⟩
  | unlock hold hrest => exact h.unlock hold hrest
  | shut => exact h.shutting true

theorem kept_run {acts : List (Act α)} {s : Stream α β}
    (hrun : run (Serial.step pieces lasting) Stream.new acts = some s) : Kept pieces s :=
  run_invariant (fun _ _ _ h hs => h.step lasting hs) (kept_new pieces) hrun

/-- The pieces to come are the last ones of the message. -/
def Stream.OnCourse (pieces : α → List (List β)) (s : Stream α β) : Prop :=
  ∀ h rest, s.holder = some h → h.rest = some rest → rest <:+ pieces h.part.msg

theorem Stream.OnCourse.step {s t : Stream α β} {a : Act α} (h : s.OnCourse pieces)
    (hs : Serial.step pieces lasting s a = some t) : t.OnCourse pieces := by
  cases step_sound pieces lasting hs with
  | call msg => exact h
  | lock hfree hcall =>
    intro holder rest hold hrest
    cases hold
    cases hrest
    exact List.suffix_refl _
  | @write holder piece more hold hmore _ =>
    intro holder' rest hold' hrest
    cases hold'
    cases hrest
    exact (List.suffix_cons piece more).trans (h holder _ hold hmore)
  | fail k hold hrest =>
    intro holder' rest hold' hrest'
    cases hold'
    cases hrest'
  | unlock hold hrest =>
    intro holder' rest hold'
    cases hold'
  | shut => exact h

end Invariant

/-! ## §3. What a step adds. -/

/-- The bytes a step puts on the stream. -/
def Stream.puts (s : Stream α β) : Act α → List β
  | .write =>
    match s.holder with
    | some ⟨_, some (piece :: _)⟩ => piece
    | _ => []
  | .fail k =>
    match s.holder with
    | some ⟨_, some (piece :: _)⟩ => if s.shut then [] else piece.take k
    | _ => []
  | _ => []

theorem puts_write {s : Stream α β} {h : Holder α β} {piece : List β} {rest : List (List β)}
    (hold : s.holder = some h) (hrest : h.rest = some (piece :: rest)) :
    s.puts .write = piece := by
  obtain ⟨part, more⟩ := h
  subst hrest
  unfold Stream.puts
  rw [hold]

theorem puts_fail {s : Stream α β} {h : Holder α β} {piece : List β} {rest : List (List β)}
    (hold : s.holder = some h) (hrest : h.rest = some (piece :: rest)) (k : Nat) :
    s.puts (.fail k) = if s.shut then [] else piece.take k := by
  obtain ⟨part, more⟩ := h
  subst hrest
  unfold Stream.puts
  rw [hold]

/-- A shut stream takes nothing. -/
theorem puts_of_shut {pieces : α → List (List β)} {lasting : Bool} {s t : Stream α β} {a : Act α}
    (hshut : s.shut = true) (hs : step pieces lasting s a = some t) : s.puts a = [] := by
  cases step_sound pieces lasting hs with
  | call msg => rfl
  | lock hfree hcall => rfl
  | write hold hrest hopen =>
    rw [hshut] at hopen
    cases hopen
  | fail k hold hrest =>
    rw [puts_fail hold hrest, if_pos hshut]
  | unlock hold hrest => rfl
  | shut => rfl

theorem wire_step {pieces : α → List (List β)} {lasting : Bool} {s t : Stream α β} {a : Act α}
    (hs : step pieces lasting s a = some t) : t.wire = s.wire ++ s.puts a := by
  cases step_sound pieces lasting hs with
  | call msg => exact (List.append_nil _).symm
  | lock hfree hcall => exact (List.append_nil _).symm
  | write hold hrest hopen => rw [puts_write hold hrest, Stream.put]
  | fail k hold hrest => rw [puts_fail hold hrest, Stream.put]
  | unlock hold hrest => exact (List.append_nil _).symm
  | shut => exact (List.append_nil _).symm

theorem shut_step {pieces : α → List (List β)} {lasting : Bool} {s t : Stream α β} {a : Act α}
    (hshut : s.shut = true) (hs : step pieces lasting s a = some t) : t.shut = true := by
  cases step_sound pieces lasting hs with
  | fail k hold hrest =>
    show (s.shut || lasting) = true
    rw [hshut, Bool.true_or]
  | shut => rfl
  | _ => exact hshut

/-! ## §4. Torn messages. -/

section Torn

variable [DecidableEq β] (pieces : α → List (List β)) (lasting : Bool)

/-- Some of the message is on the stream, and not all. -/
def Part.torn (p : Part α β) : Bool :=
  decide (p.written ≠ []) && decide (p.written ≠ frame pieces p.msg)

/-- Nothing follows a torn message. -/
def Stream.Neat (s : Stream α β) : Prop :=
  s.parts.Pairwise (fun p q => p.torn pieces = true → q.written = [])

/-- No call writes behind a torn message. -/
def NotBehindTorn (s : Stream α β) (a : Act α) : Prop :=
  s.puts a ≠ [] → ∀ p ∈ s.log, p.torn pieces = false

/-- A failed write has shut the stream. -/
structure Lasting (s : Stream α β) : Prop where
  log : ∀ p ∈ s.log, p.torn pieces = true → s.shut = true
  holder : ∀ h, s.holder = some h → h.rest = none → s.shut = true

/-- The message is on the stream, to its last byte. -/
def Part.whole (p : Part α β) : Bool :=
  decide (p.written ≠ []) && decide (p.written = frame pieces p.msg)

/-- The messages that are whole, in the order of the mutex. -/
def Stream.delivered (s : Stream α β) : List α := (s.parts.filter (Part.whole pieces)).map Part.msg

variable {pieces}

theorem pairwise_concat_iff {γ : Type} {R : γ → γ → Prop} {l : List γ} {x : γ} :
    (l ++ [x]).Pairwise R ↔ l.Pairwise R ∧ ∀ y ∈ l, R y x := by
  rw [List.pairwise_append]
  simp

/-- The holder's part is the last one, so it is the one that has to keep away from
what is torn before it. -/
theorem neat_put_iff {s : Stream α β} (hneat : s.Neat pieces) {holder : Holder α β}
    (hold : s.holder = some holder) (bytes : List β) (rest : Option (List (List β))) (b : Bool) :
    Stream.Neat pieces { s.put holder bytes rest with shut := b }
      ↔ (bytes ≠ [] → ∀ p ∈ s.log, p.torn pieces = false) := by
  unfold Stream.Neat at hneat
  rw [Stream.parts_of_held hold, pairwise_concat_iff] at hneat
  show (s.log ++ [_]).Pairwise _ ↔ _
  rw [pairwise_concat_iff]
  constructor
  · rintro ⟨-, hlast⟩ hne p hp
    by_contra htorn
    have hnil := hlast p hp (eq_true_of_ne_false htorn)
    exact hne (List.append_eq_nil_iff.mp hnil).2
  · intro hno
    refine ⟨hneat.1, ?_⟩
    intro p hp htorn
    show holder.part.written ++ bytes = []
    rw [hneat.2 p hp htorn, List.nil_append]
    by_contra hne
    rw [hno hne p hp] at htorn
    cases htorn

/-- **A step keeps the stream neat exactly if it does not write behind a torn
message.** -/
theorem neat_step_iff {s t : Stream α β} {a : Act α} (hneat : s.Neat pieces)
    (hs : step pieces lasting s a = some t) : t.Neat pieces ↔ NotBehindTorn pieces s a := by
  cases step_sound pieces lasting hs with
  | call msg => exact iff_of_true hneat (fun hne => absurd rfl hne)
  | lock hfree hcall =>
    refine iff_of_true ?_ (fun hne => absurd rfl hne)
    unfold Stream.Neat at hneat
    rw [Stream.parts_of_free hfree] at hneat
    exact pairwise_concat_iff.mpr ⟨hneat, fun _ _ _ => rfl⟩
  | @write holder piece rest hold hrest hopen =>
    unfold NotBehindTorn
    rw [puts_write hold hrest]
    exact neat_put_iff hneat hold piece (some rest) s.shut
  | @fail holder piece rest k hold hrest =>
    unfold NotBehindTorn
    rw [puts_fail hold hrest]
    exact neat_put_iff hneat hold _ none (s.shut || lasting)
  | unlock hold hrest =>
    refine iff_of_true ?_ (fun hne => absurd rfl hne)
    unfold Stream.Neat at hneat
    rw [Stream.parts_of_held hold] at hneat
    unfold Stream.Neat
    rw [Stream.parts_of_free rfl]
    exact hneat
  | shut => exact iff_of_true hneat (fun hne => absurd rfl hne)

/-- A message is torn by a call that has returned an error. -/
theorem Kept.failed_of_torn {s : Stream α β} (h : Kept pieces s) {p : Part α β} (hp : p ∈ s.log)
    (htorn : p.torn pieces = true) : s.calls[p.call]? = some ⟨p.msg, .returned false⟩ := by
  have hparts : p ∈ s.parts := List.mem_append_left _ hp
  obtain ⟨phase, hcall, hphase, hwhole⟩ := h.whose p hparts
  rw [hcall]
  cases phase with
  | waiting => exact absurd rfl hphase
  | holding =>
    -- the holder's part is another one
    obtain ⟨holder, hold, hsame⟩ := h.held _ _ hcall rfl
    have honce := h.once
    rw [Stream.parts_of_held hold, List.map_append, List.nodup_append] at honce
    exact absurd hsame.symm
      (honce.2.2 _ (List.mem_map_of_mem hp) _ (List.mem_singleton.mpr rfl))
  | returned ok =>
    cases ok with
    | false => rfl
    | true => simp [Part.torn, hwhole rfl] at htorn

theorem neat_new : Stream.Neat pieces (Stream.new : Stream α β) := List.Pairwise.nil

/-! ## §5. Where errors last. -/

theorem lasting_new : Lasting pieces (Stream.new : Stream α β) := by
  constructor
  · intro p hp
    cases hp
  · intro h hold
    cases hold

theorem Lasting.step {s t : Stream α β} {a : Act α} (hkept : Kept pieces s)
    (h : Lasting pieces s) (hs : step pieces true s a = some t) :
    Lasting pieces t := by
  cases step_sound pieces true hs with
  | call msg => exact ⟨h.log, h.holder⟩
  | lock hfree hcall =>
    refine ⟨h.log, ?_⟩
    intro holder hold hrest
    injection hold with hold
    subst hold
    cases hrest
  | write hold hrest hopen =>
    refine ⟨h.log, ?_⟩
    intro holder hold' hrest'
    injection hold' with hold'
    subst hold'
    cases hrest'
  | fail k hold hrest =>
    have hshut : (s.shut || true) = true := Bool.or_true _
    exact ⟨fun _ _ _ => hshut, fun _ _ _ => hshut⟩
  | @unlock holder ok hold hrest =>
    refine ⟨forall_mem_concat h.log ?_, fun _ hold' => by cases hold'⟩
    intro htorn
    cases ok with
    | false => exact h.holder holder hold hrest
    | true =>
      -- nothing was left to write, so the message is whole
      have hwhole := (hkept.rest holder hold).2 [] hrest
      rw [List.flatten_nil, List.append_nil] at hwhole
      simp [Part.torn, hwhole] at htorn
  | shut => exact ⟨fun _ _ _ => rfl, fun _ _ _ => rfl⟩

/-- **Where a failed write is the last, nothing follows a torn message.** -/
theorem neat_of_lasting {acts : List (Act α)} {s : Stream α β}
    (hrun : run (step pieces true) Stream.new acts = some s) : s.Neat pieces := by
  have hinv : Kept pieces s ∧ Lasting pieces s ∧ s.Neat pieces := by
    refine run_invariant (P := fun s => Kept pieces s ∧ Lasting pieces s ∧ s.Neat pieces) ?_
      ⟨kept_new pieces, lasting_new, neat_new⟩ hrun
    rintro s a t ⟨hkept, hlasting, hneat⟩ hs
    refine ⟨hkept.step true hs, hlasting.step hkept hs, (neat_step_iff true hneat hs).mpr ?_⟩
    intro hputs p hp
    by_contra htorn
    have hshut := hlasting.log p hp (eq_true_of_ne_false htorn)
    exact hputs (puts_of_shut hshut hs)
  exact hinv.2.2

/-! ## §6. What a neat stream holds. -/

theorem Part.written_cases (p : Part α β) :
    p.written = [] ∨ p.whole pieces = true ∨ p.torn pieces = true := by
  by_cases hnil : p.written = []
  · exact Or.inl hnil
  · by_cases hframe : p.written = frame pieces p.msg
    · exact Or.inr (Or.inl (by simp [Part.whole, hframe ▸ hnil, hframe]))
    · exact Or.inr (Or.inr (by simp [Part.torn, hnil, hframe]))

theorem Part.not_whole {p : Part α β} (h : p.written = []) : p.whole pieces = false := by
  simp [Part.whole, h]

theorem Part.whole_written {p : Part α β} (h : p.whole pieces = true) :
    p.written = frame pieces p.msg := by
  simp only [Part.whole, Bool.and_eq_true, decide_eq_true_eq] at h
  exact h.2

theorem Part.not_whole_of_torn {p : Part α β} (h : p.torn pieces = true) :
    p.whole pieces = false := by
  simp only [Part.torn, Bool.and_eq_true, decide_eq_true_eq] at h
  simp [Part.whole, h.2]

/-- Parts with nothing behind a torn one: the whole messages, then what is torn. -/
theorem flatten_of_pairwise {parts : List (Part α β)}
    (h : parts.Pairwise (fun p q => p.torn pieces = true → q.written = [])) :
    ∃ tail, (parts.map Part.written).flatten
        = ((parts.filter (Part.whole pieces)).map (fun p => frame pieces p.msg)).flatten ++ tail
      ∧ (tail = [] ∨ ∃ p ∈ parts, p.torn pieces = true ∧ tail = p.written) := by
  induction parts with
  | nil => exact ⟨[], rfl, Or.inl rfl⟩
  | cons p parts ih =>
    obtain ⟨hp, hrest⟩ := List.pairwise_cons.mp h
    obtain ⟨tail, hflat, htail⟩ := ih hrest
    have hmore : tail = [] ∨ ∃ q ∈ p :: parts, q.torn pieces = true ∧ tail = q.written := by
      rcases htail with hnil | ⟨q, hq, htorn⟩
      · exact Or.inl hnil
      · exact Or.inr ⟨q, List.mem_cons_of_mem _ hq, htorn⟩
    rw [List.map_cons, List.flatten_cons]
    have hcases : p.written = [] ∨ p.whole pieces = true ∨ p.torn pieces = true :=
      p.written_cases
    rcases hcases with hnil | hwhole | htorn
    · rw [List.filter_cons_of_neg (by simp [Part.not_whole hnil]), hnil, hflat]
      exact ⟨tail, rfl, hmore⟩
    · rw [List.filter_cons_of_pos hwhole, List.map_cons, List.flatten_cons, hflat,
        Part.whole_written hwhole]
      exact ⟨tail, (List.append_assoc _ _ _).symm, hmore⟩
    · -- what comes behind is empty
      have hempty : ∀ q ∈ parts, q.written = [] := fun q hq => hp q hq htorn
      have hbytes : (parts.map Part.written).flatten = [] := by
        rw [List.flatten_eq_nil_iff]
        intro l hl
        obtain ⟨q, hq, rfl⟩ := List.mem_map.mp hl
        exact hempty q hq
      have hnone : parts.filter (Part.whole pieces) = [] := by
        rw [List.filter_eq_nil_iff]
        intro q hq
        simp [Part.not_whole (hempty q hq)]
      rw [List.filter_cons_of_neg (by simp [Part.not_whole_of_torn htorn]), hbytes, hnone]
      exact ⟨p.written, by simp, Or.inr ⟨p, List.mem_cons_self, htorn, rfl⟩⟩

/-- **A neat stream** is the whole messages in order, and then the beginning of one
more at most. -/
theorem Stream.Neat.bytes {s : Stream α β} (hneat : s.Neat pieces) (hkept : Kept pieces s) :
    ∃ tail, s.wire = ((s.delivered pieces).map (frame pieces)).flatten ++ tail
      ∧ (tail = [] ∨ ∃ msg, tail <+: frame pieces msg ∧ tail ≠ frame pieces msg) := by
  obtain ⟨tail, hflat, htail⟩ := flatten_of_pairwise hneat
  refine ⟨tail, ?_, ?_⟩
  · rw [hkept.bytes, hflat, Stream.delivered, List.map_map]
    rfl
  · rcases htail with hnil | ⟨p, hp, htorn, rfl⟩
    · exact Or.inl hnil
    · simp only [Part.torn, Bool.and_eq_true, decide_eq_true_eq] at htorn
      exact Or.inr ⟨p.msg, hkept.within p hp, htorn.2⟩

/-- A call that has returned without an error has its message on the stream. -/
theorem Kept.mem_delivered {s : Stream α β} (h : Kept pieces s) {i : Nat} {msg : α}
    (hcall : s.calls[i]? = some ⟨msg, .returned true⟩) (hne : frame pieces msg ≠ []) :
    msg ∈ s.delivered pieces := by
  obtain ⟨p, hp, rfl⟩ := h.all i _ hcall (by simp)
  obtain ⟨phase, hof, -, hwhole⟩ := h.whose p hp
  rw [hcall] at hof
  injection hof with hof
  injection hof with hmsg hphase
  have hframe := hwhole hphase.symm
  rw [hmsg] at hne ⊢
  refine List.mem_map_of_mem (List.mem_filter.mpr ⟨hp, ?_⟩)
  simp [Part.whole, hframe, hne]

/-- If every call has returned and no write has failed, what is delivered is what
was sent. -/
theorem Kept.delivered_of_ok {s : Stream α β} (h : Kept pieces s) (hfree : s.holder = none)
    (hok : ∀ (i : Nat) (c : Call α), s.calls[i]? = some c → c.phase ≠ .returned false) :
    s.delivered pieces
      = (s.log.map Part.msg).filter (fun msg => decide (frame pieces msg ≠ [])) := by
  have hparts : s.parts = s.log := Stream.parts_of_free hfree
  rw [Stream.delivered, hparts, List.filter_map]
  congr 1
  refine List.filter_congr ?_
  intro p hp
  rw [← hparts] at hp
  obtain ⟨phase, hcall, hphase, hwhole⟩ := h.whose p hp
  have hwritten : p.written = frame pieces p.msg := by
    cases phase with
    | waiting => exact absurd rfl hphase
    | holding =>
      obtain ⟨holder, hheld, -⟩ := h.held _ _ hcall rfl
      rw [hfree] at hheld
      cases hheld
    | returned ok =>
      cases ok with
      | true => exact hwhole rfl
      | false => exact absurd rfl (hok _ _ hcall)
  simp [Part.whole, hwritten]

end Torn

/-- The order of the mutex only grows: a call that has returned before another one
starts comes before it. -/
theorem order_grows {pieces : α → List (List β)} {lasting : Bool} {acts : List (Act α)} :
    ∀ {s t : Stream α β}, run (step pieces lasting) s acts = some t →
      s.parts.map Part.call <+: t.parts.map Part.call := by
  induction acts with
  | nil =>
    intro s t hrun
    injection hrun with hrun
    exact hrun ▸ List.prefix_rfl
  | cons a acts ih =>
    intro s t hrun
    obtain ⟨u, hs, hrest⟩ := run_cons_eq_some.mp hrun
    refine List.IsPrefix.trans ?_ (ih hrest)
    cases step_sound pieces lasting hs with
    | call msg => exact List.prefix_rfl
    | lock hfree hcall =>
      rw [Stream.parts_of_free hfree, Stream.parts_of_held rfl, List.map_append]
      exact List.prefix_append _ _
    | write hold hrest hopen =>
      rw [Stream.parts_of_held hold, Stream.parts_put]
      simp
    | fail k hold hrest =>
      rw [Stream.parts_of_held hold, Stream.parts_of_held rfl]
      simp [Stream.put]
    | unlock hold hrest =>
      rw [Stream.parts_of_held hold]
      simp [Stream.parts_of_free]
    | shut => exact List.prefix_rfl

end Kin.Lib.Serial
