/-
  Kin.Daemon.Instance

  **DAEMONS THAT SHARE A CONFIG DIRECTORY** (`Run` of `internal/daemon/daemon.go`,
  `NewServer`, `removeStaleSocket` and `Close` of `internal/daemon/server.go`,
  `peerstore.Open`).

  Two things on disk are shared: the database `peers.db`, whose file lock a
  process holds from `peerstore.Open` to `store.Close`, and the path of the
  control socket.  A process goes through

      Open ──▶ Stat ──▶ Dial ──▶ Remove ──▶ Listen ──▶ Chmod ──▶ Serve
           ──▶ (ctx done) srv.Close ──▶ store.Close

  and may end at any point.  `srv.Close` is called by TWO goroutines, `Run` and
  the one `Serve` starts: the second call returns at once, so `Run` may give up
  the lock while the other goroutine is still inside `Close`.

    • `starts_safely`       — one process at a time holds the store; `net.Listen`
      finds the path free; what is removed as stale is dead; a start that ends with
      "another daemon is already running" met one whose `Run` had returned,
    • `undisturbed_iff`     — a listening process keeps its socket exactly if no
      `os.Remove` of an earlier one comes late.
-/
import Mathlib.Logic.Function.Basic
import Kin.Lib.Run

namespace Kin.Daemon.Instance

open Kin.Lib

/-! ## §1. A process. -/

/-- Where `Run` stands when a call fails. -/
inductive Site where
  | starting
  | opened
  deriving DecidableEq

/-- Why `Run` has returned an error. -/
inductive Fault where
  | identity (err : String)
  | store (err : String)
  | sharedDir (err : String)
  | catalog (err : String)
  | transport (err : String)
  /-- `os.Stat` fails otherwise than with `os.ErrNotExist`. -/
  | stat (err : String)
  /-- `net.Dial` has succeeded. -/
  | live
  | remove (err : String)
  | listen (err : String)
  | chmod (err : String)
  deriving DecidableEq

/-- The call before `NewServer` that meets it: before the store is open, or after. -/
def Fault.site : Fault → Option Site
  | identity _ => some .starting
  | store _ => some .starting
  | sharedDir _ => some .opened
  | catalog _ => some .opened
  | transport _ => some .opened
  | stat _ => some .opened
  | _ => none

/-- The text of the error. -/
def Fault.text (sockPath : String) : Fault → String
  | identity err => "identity: " ++ err
  | store err => "peerstore: " ++ err
  | sharedDir err => "create shared dir: " ++ err
  | catalog err => "catalog: " ++ err
  | transport err => "listen: " ++ err
  | stat err => "daemon socket: daemon: stale socket: " ++ err
  | live => "daemon socket: daemon: stale socket: another daemon is already running (socket "
      ++ sockPath ++ " is live)"
  | remove err => "daemon socket: daemon: stale socket: " ++ err
  | listen err => "daemon socket: daemon: listen: " ++ err
  | chmod err => "daemon socket: daemon: chmod socket: " ++ err

/-- What a call of `Server.Close` that has set `closed` does next. -/
inductive CloseStep where
  /-- `ln.Close` unlinks the path … -/
  | unlink
  /-- … and closes the descriptor. -/
  | shut
  /-- The best-effort `os.Remove`. -/
  | remove
  deriving DecidableEq

/-- How far `Run` is. -/
inductive Phase where
  | starting
  /-- The store is open. -/
  | opened
  /-- `os.Stat` has found the path. -/
  | found
  /-- `net.Dial` has failed. -/
  | refused
  /-- `removeStaleSocket` has returned nil. -/
  | clear
  | bound
  /-- `os.Chmod` has failed; `ln.Close` is next, or halfway through. -/
  | unbinding (err : String) (unlinked : Bool)
  | serving
  | closing (next : CloseStep)
  /-- The deferred calls are next. -/
  | ending (err : Option Fault)
  | returned (err : Option Fault)
  deriving DecidableEq

/-- The goroutine that waits for the context in `Serve`. -/
inductive Closer where
  | absent
  | waiting
  | closing (next : CloseStep)
  | done
  deriving DecidableEq

structure Proc where
  alive : Bool
  cancelled : Bool
  phase : Phase
  closer : Closer
  /-- `s.closed`. -/
  closed : Bool
  /-- The listener's descriptor is open. -/
  listening : Bool
  deriving DecidableEq

/-- `Run` is between `peerstore.Open` and `store.Close`. -/
@[simp] def Phase.holds : Phase → Bool
  | starting => false
  | returned _ => false
  | _ => true

/-- `net.Listen` has not been called. -/
@[simp] def Phase.early : Phase → Bool
  | starting => true
  | opened => true
  | found => true
  | refused => true
  | clear => true
  | _ => false

/-- `net.Listen` has succeeded, and the store is still open. -/
@[simp] def Phase.hasBound : Phase → Bool
  | bound => true
  | unbinding _ _ => true
  | serving => true
  | closing _ => true
  | ending none => true
  | _ => false

@[simp] def Phase.isReturned : Phase → Bool
  | returned _ => true
  | _ => false

namespace Proc

def new : Proc := ⟨true, false, .starting, .absent, false, false⟩

@[simp] def isAt (c : Proc) (φ : Phase) : Prop := c.alive = true ∧ c.phase = φ

/-- The process holds the lock of the store. -/
@[simp] def holds (c : Proc) : Bool := c.alive && c.phase.holds

/-- The process holds the store and has bound the path. -/
@[simp] def owner (c : Proc) : Bool := c.alive && c.phase.hasBound

/-- `ln.Close` has unlinked the path and not yet closed the descriptor. -/
@[simp] def unlinked (c : Proc) : Bool :=
  decide (c.closer = .closing .shut) || decide (c.phase = .closing .shut)
    || (match c.phase with | .unbinding _ done => done | _ => false)

/-- The process listens and has not unlinked its socket. -/
@[simp] def named (c : Proc) : Bool := c.alive && c.listening && !c.unlinked

end Proc

/-! ## §2. The host. -/

structure Host where
  procs : Nat → Proc
  /-- Who holds the file lock of `peers.db`. -/
  lock : Option Nat
  /-- Whose socket the path names. -/
  sock : Option Nat

/-- The two callers of `Close`. -/
inductive Caller where
  | run
  | closer
  deriving DecidableEq

inductive Act where
  /-- `peerstore.Open`; an error if the lock is not free in time. -/
  | open (p : Nat)
  /-- An error of the calls around it. -/
  | fail (p : Nat) (err : Fault)
  | stat (p : Nat)
  | dial (p : Nat)
  | remove (p : Nat)
  | listen (p : Nat)
  | chmod (p : Nat) (err : Option String)
  /-- `ln.Close` after a failed `os.Chmod`. -/
  | unbind (p : Nat)
  | cancel (p : Nat)
  /-- `<-ctx.Done()`, then `Close` up to the test of `closed`. -/
  | close (p : Nat) (who : Caller)
  /-- The next step of the call that has set `closed`. -/
  | advance (p : Nat) (who : Caller)
  /-- The deferred calls; `store.Close` gives up the lock. -/
  | closeStore (p : Nat)
  /-- The process ends: `main` returns, or it is killed. -/
  | die (p : Nat)
  deriving DecidableEq

namespace Host

def init : Host := ⟨fun _ => .new, none, none⟩

def set (h : Host) (p : Nat) (c : Proc) : Host :=
  { h with procs := Function.update h.procs p c }

/-- The lock after `p` has let go of it. -/
def unlocked (h : Host) (p : Nat) : Option Nat := if h.lock = some p then none else h.lock

/-- `net.Dial("unix", path)` succeeds: a descriptor is open behind the path. -/
def answers (h : Host) : Bool :=
  match h.sock with
  | none => false
  | some q => (h.procs q).listening

/-- One step of a process. -/
def step (h : Host) : Act → Option Host
  | .open p =>
    if (h.procs p).alive ∧ (h.procs p).phase = .starting then
      if h.lock = none then
        some { h.set p { h.procs p with phase := .opened } with lock := some p }
      else
        -- not free within three seconds
        some (h.set p { h.procs p with
          phase := .returned (some (.store "open peerstore: timeout")) })
    else none
  | .fail p err =>
    if (h.procs p).alive ∧ (h.procs p).phase = .starting ∧ err.site = some .starting then
      some (h.set p { h.procs p with phase := .returned (some err) })
    else if (h.procs p).alive ∧ (h.procs p).phase = .opened ∧ err.site = some .opened then
      some (h.set p { h.procs p with phase := .ending (some err) })
    else none
  | .stat p =>
    if (h.procs p).alive ∧ (h.procs p).phase = .opened then
      match h.sock with
      | none => some (h.set p { h.procs p with phase := .clear })
      | some _ => some (h.set p { h.procs p with phase := .found })
    else none
  | .dial p =>
    if (h.procs p).alive ∧ (h.procs p).phase = .found then
      if h.answers then some (h.set p { h.procs p with phase := .ending (some .live) })
      else some (h.set p { h.procs p with phase := .refused })
    else none
  | .remove p =>
    if (h.procs p).alive ∧ (h.procs p).phase = .refused then
      match h.sock with
      | none =>
        -- somebody else has unlinked it since
        some (h.set p { h.procs p with
          phase := .ending (some (.remove "no such file or directory")) })
      | some _ => some { h.set p { h.procs p with phase := .clear } with sock := none }
    else none
  | .listen p =>
    if (h.procs p).alive ∧ (h.procs p).phase = .clear then
      match h.sock with
      | none =>
        some { h.set p { h.procs p with phase := .bound, listening := true } with
          sock := some p }
      | some _ =>
        some (h.set p { h.procs p with
          phase := .ending (some (.listen "bind: address already in use")) })
    else none
  | .chmod p err =>
    if (h.procs p).alive ∧ (h.procs p).phase = .bound then
      match err with
      | none => some (h.set p { h.procs p with phase := .serving, closer := .waiting })
      | some e => some (h.set p { h.procs p with phase := .unbinding e false })
    else none
  | .unbind p =>
    if (h.procs p).alive then
      match (h.procs p).phase with
      | .unbinding e false =>
        some { h.set p { h.procs p with phase := .unbinding e true } with sock := none }
      | .unbinding e true =>
        some (h.set p { h.procs p with phase := .ending (some (.chmod e)), listening := false })
      | _ => none
    else none
  | .cancel p => some (h.set p { h.procs p with cancelled := true })
  | .close p .run =>
    if (h.procs p).alive ∧ (h.procs p).cancelled ∧ (h.procs p).phase = .serving then
      if (h.procs p).closed then some (h.set p { h.procs p with phase := .ending none })
      else some (h.set p { h.procs p with phase := .closing .unlink, closed := true })
    else none
  | .close p .closer =>
    if (h.procs p).alive ∧ (h.procs p).cancelled ∧ (h.procs p).closer = .waiting then
      if (h.procs p).closed then some (h.set p { h.procs p with closer := .done })
      else some (h.set p { h.procs p with closer := .closing .unlink, closed := true })
    else none
  | .advance p .run =>
    if (h.procs p).alive then
      match (h.procs p).phase with
      | .closing .unlink =>
        some { h.set p { h.procs p with phase := .closing .shut } with sock := none }
      | .closing .shut =>
        some (h.set p { h.procs p with phase := .closing .remove, listening := false })
      | .closing .remove =>
        some { h.set p { h.procs p with phase := .ending none } with sock := none }
      | _ => none
    else none
  | .advance p .closer =>
    if (h.procs p).alive then
      match (h.procs p).closer with
      | .closing .unlink =>
        some { h.set p { h.procs p with closer := .closing .shut } with sock := none }
      | .closing .shut =>
        some (h.set p { h.procs p with closer := .closing .remove, listening := false })
      | .closing .remove =>
        some { h.set p { h.procs p with closer := .done } with sock := none }
      | _ => none
    else none
  | .closeStore p =>
    if (h.procs p).alive then
      match (h.procs p).phase with
      | .ending err =>
        some { h.set p { h.procs p with phase := .returned err } with lock := h.unlocked p }
      | _ => none
    else none
  | .die p =>
    if (h.procs p).alive then
      some { h.set p { h.procs p with alive := false, listening := false } with
        lock := h.unlocked p }
    else none

/-! ## §3. What the processes may rely on. -/

/-- Starting up is safe. -/
structure StartSafe (h : Host) : Prop where
  /-- One process at a time has the store open. -/
  exclusive : ∀ p q, (h.procs p).holds = true → (h.procs q).holds = true → p = q
  /-- `net.Listen` finds the path free. -/
  free : ∀ p, (h.procs p).isAt .clear → h.sock = none
  /-- Nobody listens on what is removed as stale. -/
  stale : ∀ p, (h.procs p).isAt .refused → h.answers = false
  /-- A process that `removeStaleSocket` finds alive has left `Run`. -/
  live : ∀ p q, (h.procs p).isAt .found → h.sock = some q → (h.procs q).listening = true →
    (h.procs q).phase.isReturned = true

/-- Every process that listens has its socket at the path until it unlinks it
itself. -/
def Undisturbed (h : Host) : Prop := ∀ p, (h.procs p).named = true → h.sock = some p

/-- The step is the `os.Remove` of process `q`, whose `Run` has returned. -/
def Late (h : Host) (a : Act) (q : Nat) : Prop :=
  a = .advance q .closer ∧ (h.procs q).alive = true
    ∧ (h.procs q).closer = .closing .remove ∧ (h.procs q).phase.isReturned = true

/-- No such step is taken while another process listens. -/
def NoLateRemove (h : Host) (a : Act) : Prop :=
  ∀ q, h.Late a q → ∀ p, (h.procs p).named = false

/-! ## §4. One process. -/

end Host

/-- How the two goroutines of a process stand to each other. -/
structure Proc.Ok (c : Proc) : Prop where
  alive : c.listening = true → c.alive = true
  early : c.phase.early = true → c.listening = false ∧ c.closer = .absent
  bound : c.alive = true → c.phase = .bound → c.listening = true ∧ c.closer = .absent
  unbinding : ∀ e, c.alive = true → c.phase = .unbinding e false →
    c.listening = true ∧ c.closer = .absent
  serving : c.alive = true → c.phase = .serving → c.closed = false →
    c.listening = true ∧ c.closer = .waiting
  waiting : c.closer = .waiting → c.closed = false → c.phase = .serving
  /-- `Run` is inside `Close`. -/
  running : ∀ next, c.phase = .closing next →
    (c.closer = .waiting ∨ c.closer = .done) ∧ c.closed = true
      ∧ (c.alive = true → c.listening = decide (next ≠ .remove))
  /-- The other goroutine is, and `Run` has gone on or not. -/
  going : ∀ next, c.closer = .closing next →
    (c.phase = .serving ∨ c.phase = .ending none ∨ c.phase = .returned none) ∧ c.closed = true
      ∧ (c.alive = true → c.listening = decide (next ≠ .remove))

namespace Host

/-! ## §5. What a step can be. -/

/-- Process `p` takes a step. -/
inductive Step (h : Host) (p : Nat) : Act → Host → Prop where
  | opened (ha : (h.procs p).alive = true) (hph : (h.procs p).phase = .starting)
      (hlock : h.lock = none) :
      Step h p (.open p) { h.set p { h.procs p with phase := .opened } with lock := some p }
  /-- An error before the store is open. -/
  | turnedAway {a : Act} (err : Fault) (ha : (h.procs p).alive = true)
      (hph : (h.procs p).phase = .starting) :
      Step h p a (h.set p { h.procs p with phase := .returned (some err) })
  /-- An error before the path is bound. -/
  | failed {a : Act} (err : Fault) (ha : (h.procs p).alive = true)
      (hph : (h.procs p).phase.early = true) (hholds : (h.procs p).phase.holds = true) :
      Step h p a (h.set p { h.procs p with phase := .ending (some err) })
  | absent (ha : (h.procs p).alive = true) (hph : (h.procs p).phase = .opened)
      (hsock : h.sock = none) :
      Step h p (.stat p) (h.set p { h.procs p with phase := .clear })
  | present (ha : (h.procs p).alive = true) (hph : (h.procs p).phase = .opened) :
      Step h p (.stat p) (h.set p { h.procs p with phase := .found })
  | refused (ha : (h.procs p).alive = true) (hph : (h.procs p).phase = .found)
      (hdial : h.answers = false) :
      Step h p (.dial p) (h.set p { h.procs p with phase := .refused })
  | removed (ha : (h.procs p).alive = true) (hph : (h.procs p).phase = .refused) :
      Step h p (.remove p) { h.set p { h.procs p with phase := .clear } with sock := none }
  | bound (ha : (h.procs p).alive = true) (hph : (h.procs p).phase = .clear)
      (hsock : h.sock = none) :
      Step h p (.listen p)
        { h.set p { h.procs p with phase := .bound, listening := true } with sock := some p }
  | served (ha : (h.procs p).alive = true) (hph : (h.procs p).phase = .bound) :
      Step h p (.chmod p none)
        (h.set p { h.procs p with phase := .serving, closer := .waiting })
  | unbinds (e : String) (ha : (h.procs p).alive = true) (hph : (h.procs p).phase = .bound) :
      Step h p (.chmod p (some e)) (h.set p { h.procs p with phase := .unbinding e false })
  | unbound (e : String) (ha : (h.procs p).alive = true)
      (hph : (h.procs p).phase = .unbinding e false) :
      Step h p (.unbind p)
        { h.set p { h.procs p with phase := .unbinding e true } with sock := none }
  | gaveUp (e : String) (ha : (h.procs p).alive = true)
      (hph : (h.procs p).phase = .unbinding e true) :
      Step h p (.unbind p)
        (h.set p { h.procs p with phase := .ending (some (.chmod e)), listening := false })
  | cancelled : Step h p (.cancel p) (h.set p { h.procs p with cancelled := true })
  | runCloses (ha : (h.procs p).alive = true) (hph : (h.procs p).phase = .serving)
      (hclosed : (h.procs p).closed = false) :
      Step h p (.close p .run)
        (h.set p { h.procs p with phase := .closing .unlink, closed := true })
  /-- The other goroutine is closing already: `Close` returns at once. -/
  | runPasses (ha : (h.procs p).alive = true) (hph : (h.procs p).phase = .serving)
      (hclosed : (h.procs p).closed = true) :
      Step h p (.close p .run) (h.set p { h.procs p with phase := .ending none })
  | closerCloses (ha : (h.procs p).alive = true) (hcl : (h.procs p).closer = .waiting)
      (hclosed : (h.procs p).closed = false) :
      Step h p (.close p .closer)
        (h.set p { h.procs p with closer := .closing .unlink, closed := true })
  | closerPasses (ha : (h.procs p).alive = true) (hcl : (h.procs p).closer = .waiting)
      (hclosed : (h.procs p).closed = true) :
      Step h p (.close p .closer) (h.set p { h.procs p with closer := .done })
  | runUnlinks (ha : (h.procs p).alive = true) (hph : (h.procs p).phase = .closing .unlink) :
      Step h p (.advance p .run)
        { h.set p { h.procs p with phase := .closing .shut } with sock := none }
  | runShuts (ha : (h.procs p).alive = true) (hph : (h.procs p).phase = .closing .shut) :
      Step h p (.advance p .run)
        (h.set p { h.procs p with phase := .closing .remove, listening := false })
  | runRemoves (ha : (h.procs p).alive = true) (hph : (h.procs p).phase = .closing .remove) :
      Step h p (.advance p .run)
        { h.set p { h.procs p with phase := .ending none } with sock := none }
  | closerUnlinks (ha : (h.procs p).alive = true)
      (hcl : (h.procs p).closer = .closing .unlink) :
      Step h p (.advance p .closer)
        { h.set p { h.procs p with closer := .closing .shut } with sock := none }
  | closerShuts (ha : (h.procs p).alive = true) (hcl : (h.procs p).closer = .closing .shut) :
      Step h p (.advance p .closer)
        (h.set p { h.procs p with closer := .closing .remove, listening := false })
  | closerRemoves (ha : (h.procs p).alive = true)
      (hcl : (h.procs p).closer = .closing .remove) :
      Step h p (.advance p .closer)
        { h.set p { h.procs p with closer := .done } with sock := none }
  | closedStore (err : Option Fault) (ha : (h.procs p).alive = true)
      (hph : (h.procs p).phase = .ending err) :
      Step h p (.closeStore p)
        { h.set p { h.procs p with phase := .returned err } with lock := h.unlocked p }
  | died (ha : (h.procs p).alive = true) :
      Step h p (.die p)
        { h.set p { h.procs p with alive := false, listening := false } with
          lock := h.unlocked p }

variable {h h' : Host} {a : Act} {p : Nat}

theorem failed_of {err : Fault} {φ : Phase} (ha : (h.procs p).alive = true)
    (hph : (h.procs p).phase = φ) (hearly : φ.early = true) (hholds : φ.holds = true) :
    Step h p a (h.set p { h.procs p with phase := .ending (some err) }) :=
  .failed err ha (hph ▸ hearly) (hph ▸ hholds)

/-! ### `Run` up to `NewServer`. -/

theorem step_open (hs : h.step (.open p) = some h') : Step h p (.open p) h' := by
  obtain ⟨⟨ha, hph⟩, hs⟩ := Option.ite_none_right_eq_some.mp hs
  split at hs
  next hlock =>
    cases hs
    exact .opened ha hph hlock
  next =>
    cases hs
    exact .turnedAway _ ha hph

theorem step_fail {err : Fault} (hs : h.step (.fail p err) = some h') :
    Step h p (.fail p err) h' := by
  simp only [step] at hs
  split at hs
  next hc =>
    cases hs
    exact .turnedAway err hc.1 hc.2.1
  next =>
    obtain ⟨⟨ha, hph, -⟩, hs⟩ := Option.ite_none_right_eq_some.mp hs
    cases hs
    exact failed_of ha hph rfl rfl

/-! ### `NewServer`. -/

theorem step_stat (hs : h.step (.stat p) = some h') : Step h p (.stat p) h' := by
  obtain ⟨⟨ha, hph⟩, hs⟩ := Option.ite_none_right_eq_some.mp hs
  split at hs
  next hsock =>
    cases hs
    exact .absent ha hph hsock
  next =>
    cases hs
    exact .present ha hph

theorem step_dial (hs : h.step (.dial p) = some h') : Step h p (.dial p) h' := by
  obtain ⟨⟨ha, hph⟩, hs⟩ := Option.ite_none_right_eq_some.mp hs
  split at hs
  next =>
    cases hs
    exact failed_of ha hph rfl rfl
  next hdial =>
    cases hs
    exact .refused ha hph (eq_false_of_ne_true hdial)

theorem step_remove (hs : h.step (.remove p) = some h') : Step h p (.remove p) h' := by
  obtain ⟨⟨ha, hph⟩, hs⟩ := Option.ite_none_right_eq_some.mp hs
  split at hs
  next =>
    cases hs
    exact failed_of ha hph rfl rfl
  next =>
    cases hs
    exact .removed ha hph

theorem step_listen (hs : h.step (.listen p) = some h') : Step h p (.listen p) h' := by
  obtain ⟨⟨ha, hph⟩, hs⟩ := Option.ite_none_right_eq_some.mp hs
  split at hs
  next hsock =>
    cases hs
    exact .bound ha hph hsock
  next =>
    cases hs
    exact failed_of ha hph rfl rfl

theorem step_chmod {err : Option String} (hs : h.step (.chmod p err) = some h') :
    Step h p (.chmod p err) h' := by
  obtain ⟨⟨ha, hph⟩, hs⟩ := Option.ite_none_right_eq_some.mp hs
  cases err with
  | none =>
    cases hs
    exact .served ha hph
  | some e =>
    cases hs
    exact .unbinds e ha hph

theorem step_unbind (hs : h.step (.unbind p) = some h') : Step h p (.unbind p) h' := by
  obtain ⟨ha, hs⟩ := Option.ite_none_right_eq_some.mp hs
  split at hs
  next e hph =>
    cases hs
    exact .unbound e ha hph
  next e hph =>
    cases hs
    exact .gaveUp e ha hph
  next => cases hs

/-! ### `Close`, in `Run` and in the goroutine of `Serve`. -/

theorem step_close_run (hs : h.step (.close p .run) = some h') : Step h p (.close p .run) h' := by
  obtain ⟨⟨ha, -, hph⟩, hs⟩ := Option.ite_none_right_eq_some.mp hs
  split at hs
  next hclosed =>
    cases hs
    exact .runPasses ha hph hclosed
  next hclosed =>
    cases hs
    exact .runCloses ha hph (eq_false_of_ne_true hclosed)

theorem step_close_closer (hs : h.step (.close p .closer) = some h') :
    Step h p (.close p .closer) h' := by
  obtain ⟨⟨ha, -, hcl⟩, hs⟩ := Option.ite_none_right_eq_some.mp hs
  split at hs
  next hclosed =>
    cases hs
    exact .closerPasses ha hcl hclosed
  next hclosed =>
    cases hs
    exact .closerCloses ha hcl (eq_false_of_ne_true hclosed)

theorem step_advance_run (hs : h.step (.advance p .run) = some h') :
    Step h p (.advance p .run) h' := by
  obtain ⟨ha, hs⟩ := Option.ite_none_right_eq_some.mp hs
  split at hs
  next hph =>
    cases hs
    exact .runUnlinks ha hph
  next hph =>
    cases hs
    exact .runShuts ha hph
  next hph =>
    cases hs
    exact .runRemoves ha hph
  next => cases hs

theorem step_advance_closer (hs : h.step (.advance p .closer) = some h') :
    Step h p (.advance p .closer) h' := by
  obtain ⟨ha, hs⟩ := Option.ite_none_right_eq_some.mp hs
  split at hs
  next hcl =>
    cases hs
    exact .closerUnlinks ha hcl
  next hcl =>
    cases hs
    exact .closerShuts ha hcl
  next hcl =>
    cases hs
    exact .closerRemoves ha hcl
  next => cases hs

/-! ### The end. -/

theorem step_closeStore (hs : h.step (.closeStore p) = some h') : Step h p (.closeStore p) h' := by
  obtain ⟨ha, hs⟩ := Option.ite_none_right_eq_some.mp hs
  split at hs
  next err hph =>
    cases hs
    exact .closedStore err ha hph
  next => cases hs

theorem step_die (hs : h.step (.die p) = some h') : Step h p (.die p) h' := by
  obtain ⟨ha, hs⟩ := Option.ite_none_right_eq_some.mp hs
  cases hs
  exact .died ha

/-- **What a step can be.** -/
theorem step_sound (hs : h.step a = some h') : ∃ p, Step h p a h' := by
  cases a with
  | «open» p => exact ⟨p, step_open hs⟩
  | fail p err => exact ⟨p, step_fail hs⟩
  | stat p => exact ⟨p, step_stat hs⟩
  | dial p => exact ⟨p, step_dial hs⟩
  | remove p => exact ⟨p, step_remove hs⟩
  | listen p => exact ⟨p, step_listen hs⟩
  | chmod p err => exact ⟨p, step_chmod hs⟩
  | unbind p => exact ⟨p, step_unbind hs⟩
  | cancel p =>
    cases hs
    exact ⟨p, .cancelled⟩
  | close p who =>
    cases who with
    | run => exact ⟨p, step_close_run hs⟩
    | closer => exact ⟨p, step_close_closer hs⟩
  | advance p who =>
    cases who with
    | run => exact ⟨p, step_advance_run hs⟩
    | closer => exact ⟨p, step_advance_closer hs⟩
  | closeStore p => exact ⟨p, step_closeStore hs⟩
  | die p => exact ⟨p, step_die hs⟩

theorem set_self (h : Host) (p : Nat) (c : Proc) : (h.set p c).procs p = c := by
  show Function.update h.procs p c p = c
  rw [Function.update_self]

theorem set_other (h : Host) {p q : Nat} (c : Proc) (hq : q ≠ p) :
    (h.set p c).procs q = h.procs q := by
  show Function.update h.procs p c q = h.procs q
  rw [Function.update_of_ne hq]

/-- Before `Serve` there is only `Run`. -/
theorem ok_of_absent {c : Proc} (hcl : c.closer = .absent) (hlistening : c.listening = c.alive)
    (hearly : c.phase.early = false) (hserving : c.phase ≠ .serving)
    (hclosing : ∀ next, c.phase ≠ .closing next) : c.Ok := by
  constructor <;> simp_all

theorem ok_of_quiet {c : Proc} (hcl : c.closer = .absent) (hlistening : c.listening = false)
    (hbound : c.phase ≠ .bound) (hunbinding : ∀ e, c.phase ≠ .unbinding e false)
    (hserving : c.phase ≠ .serving) (hclosing : ∀ next, c.phase ≠ .closing next) : c.Ok := by
  constructor <;> simp_all

/-- The goroutines of `p` keep to each other. -/
theorem Step.ok (hs : Step h p a h') (hok : (h.procs p).Ok) : (h'.procs p).Ok := by
  cases hs <;> rw [set_self]
  case opened hph _ | turnedAway hph | absent hph _ | present hph | refused hph _ | removed hph =>
    obtain ⟨hl, hcl⟩ := hok.early (by rw [hph]; rfl)
    exact ok_of_quiet hcl hl (by simp) (by simp) (by simp) (by simp)
  case failed hph _ =>
    obtain ⟨hl, hcl⟩ := hok.early hph
    exact ok_of_quiet hcl hl (by simp) (by simp) (by simp) (by simp)
  case bound ha hph _ =>
    obtain ⟨_, hcl⟩ := hok.early (by rw [hph]; rfl)
    exact ok_of_absent hcl ha.symm rfl (by simp) (by simp)
  case unbinds e ha hph =>
    obtain ⟨hl, hcl⟩ := hok.bound ha hph
    exact ok_of_absent hcl (hl.trans ha.symm) rfl (by simp) (by simp)
  case unbound e ha hph =>
    obtain ⟨hl, hcl⟩ := hok.unbinding e ha hph
    exact ok_of_absent hcl (hl.trans ha.symm) rfl (by simp) (by simp)
  case gaveUp e ha hph =>
    have hwaiting := hok.waiting
    have hgoing := hok.going
    simp only [hph] at hwaiting hgoing
    constructor <;> simp_all
  case served ha hph =>
    obtain ⟨hl, _⟩ := hok.bound ha hph
    constructor <;> simp [ha, hl]
  case cancelled =>
    exact ⟨hok.alive, hok.early, hok.bound, hok.unbinding, hok.serving, hok.waiting, hok.running,
      hok.going⟩
  case runCloses ha hph hclosed =>
    obtain ⟨hl, hcl⟩ := hok.serving ha hph hclosed
    constructor <;> simp [ha, hl, hcl]
  case runPasses ha hph hclosed =>
    refine ⟨hok.alive, by simp, by simp, by simp, by simp, by simp [hclosed], by simp, ?_⟩
    intro next hcl
    exact ⟨Or.inr (Or.inl rfl), (hok.going next hcl).2⟩
  case closerCloses ha hcl hclosed =>
    have hph := hok.waiting hcl hclosed
    obtain ⟨hl, _⟩ := hok.serving ha hph hclosed
    constructor <;> simp [ha, hl, hph]
  case closerPasses ha hcl hclosed =>
    have hearly := hok.early
    have hbound := hok.bound
    have hunbinding := hok.unbinding
    simp only [hcl] at hearly hbound hunbinding
    refine ⟨hok.alive, ?_, ?_, ?_, by simp [hclosed], by simp, ?_, by simp⟩
    · simpa using hearly
    · simpa using hbound
    · simpa using hunbinding
    · intro next hph
      exact ⟨Or.inr rfl, (hok.running next hph).2⟩
  case runUnlinks ha hph | runShuts ha hph | runRemoves ha hph =>
    obtain ⟨hcl, hclosed, hl⟩ := hok.running _ hph
    have hl := hl ha
    rcases hcl with hcl | hcl
    all_goals constructor <;> simp [ha, hl, hcl, hclosed]
  case closerUnlinks ha hcl | closerShuts ha hcl | closerRemoves ha hcl =>
    obtain ⟨hph, hclosed, hl⟩ := hok.going _ hcl
    have hl := hl ha
    rcases hph with hph | hph | hph
    all_goals constructor <;> simp [ha, hl, hph, hclosed]
  case closedStore err ha hph =>
    have hwaiting := hok.waiting
    have hgoing := hok.going
    simp only [hph] at hwaiting hgoing
    refine ⟨hok.alive, by simp, by simp, by simp, by simp, by simpa using hwaiting, by simp, ?_⟩
    simpa using hgoing
  case died ha =>
    refine ⟨by simp, ?_, by simp, by simp, by simp, hok.waiting, ?_, ?_⟩
    · intro hph
      exact ⟨rfl, (hok.early hph).2⟩
    · intro next hph
      obtain ⟨hcl, hclosed, _⟩ := hok.running next hph
      exact ⟨hcl, hclosed, by simp⟩
    · intro next hcl
      obtain ⟨hph, hclosed, _⟩ := hok.going next hcl
      exact ⟨hph, hclosed, by simp⟩

/-! ## §6. The lock and the path. -/

/-- What holds in every state. -/
structure Inv (h : Host) : Prop where
  ok : ∀ p, (h.procs p).Ok
  lock : ∀ p, (h.procs p).holds = true ↔ h.lock = some p
  free : ∀ p, (h.procs p).isAt .clear → h.sock = none
  stale : ∀ p, (h.procs p).isAt .refused → h.answers = false

theorem inv_init : Inv init := by
  refine ⟨fun p => ?_, fun p => ?_, fun p hat => ?_, fun p hat => ?_⟩
  · constructor <;> simp [init, Proc.new]
  · exact iff_of_false Bool.false_ne_true (Option.some_ne_none p).symm
  · cases hat.2
  · cases hat.2

/-- How a step of `p` bears on the lock and the path. -/
inductive Kind (h : Host) (p : Nat) (a : Act) : Host → Prop where
  /-- Neither changes. -/
  | moves (c : Proc) (hholds : c.holds = (h.procs p).holds)
      (hlistening : c.listening = true → (h.procs p).listening = true)
      (hnamed : c.named = true → (h.procs p).named = true)
      (howner : c.owner = true → (h.procs p).owner = true)
      (hfree : c.isAt .clear → (h.procs p).isAt .clear ∨ h.sock = none)
      (hstale : c.isAt .refused → (h.procs p).isAt .refused ∨ h.answers = false) :
      Kind h p a (h.set p c)
  | locks (c : Proc) (hlock : h.lock = none) (hholds : c.holds = true)
      (hlistening : c.listening = false) (howner : c.owner = false) (hfree : c.phase ≠ .clear)
      (hstale : c.phase ≠ .refused) :
      Kind h p a { h.set p c with lock := some p }
  /-- The process leaves `Run`, or ends. -/
  | unlocks (c : Proc) (hholds : c.holds = false)
      (hlistening : c.listening = true → (h.procs p).listening = true)
      (hnamed : c.named = true → (h.procs p).named = true) :
      Kind h p a { h.set p c with lock := h.unlocked p }
  | binds (c : Proc) (hsock : h.sock = none) (hold : (h.procs p).holds = true)
      (hholds : c.holds = true) (hfree : c.phase ≠ .clear) (hstale : c.phase ≠ .refused) :
      Kind h p a { h.set p c with sock := some p }
  /-- The path is unlinked: by its owner, as stale, or once more. -/
  | unlinks (c : Proc) (hholds : c.holds = (h.procs p).holds)
      (hlistening : c.listening = true → (h.procs p).listening = true)
      (hnamed : c.named = false) (howner : c.owner = true → (h.procs p).owner = true)
      (hstale : c.phase ≠ .refused)
      (hwhy : (h.procs p).named = true
        ∨ (h.procs p).isAt .refused
        ∨ ((h.procs p).owner = true ∧ (h.procs p).named = false)
        ∨ h.Late a p) :
      Kind h p a { h.set p c with sock := none }

theorem holds_of_isAt {c : Proc} {φ : Phase} (hat : c.isAt φ) (hφ : φ.holds = true) :
    c.holds = true := by
  unfold Proc.holds
  rw [hat.1, hat.2, hφ]
  rfl

theorem Step.kind (hs : Step h p a h') (hok : (h.procs p).Ok) : Kind h p a h' := by
  cases hs with
  | opened ha hph hlock =>
    obtain ⟨hl, _⟩ := hok.early (by rw [hph]; rfl)
    apply Kind.locks <;> simp [ha, hl, hlock]
  | turnedAway err ha hph =>
    obtain ⟨hl, _⟩ := hok.early (by rw [hph]; rfl)
    apply Kind.moves <;> simp [ha, hph, hl]
  | failed err ha hph hholds =>
    obtain ⟨hl, _⟩ := hok.early hph
    have hheld : (h.procs p).holds = true := holds_of_isAt ⟨ha, rfl⟩ hholds
    refine .moves _ ?_ (by simp [hl]) (by simp [hl]) (by simp) (by simp) (by simp)
    rw [hheld]
    exact Bool.and_eq_true_iff.mpr ⟨ha, rfl⟩
  | absent ha hph hsock =>
    obtain ⟨hl, _⟩ := hok.early (by rw [hph]; rfl)
    apply Kind.moves <;> simp [hsock, ha, hph, hl]
  | present ha hph =>
    obtain ⟨hl, _⟩ := hok.early (by rw [hph]; rfl)
    apply Kind.moves <;> simp [ha, hph, hl]
  | refused ha hph hdial =>
    obtain ⟨hl, _⟩ := hok.early (by rw [hph]; rfl)
    apply Kind.moves <;> simp [hdial, ha, hph, hl]
  | removed ha hph =>
    obtain ⟨hl, _⟩ := hok.early (by rw [hph]; rfl)
    apply Kind.unlinks <;> simp [ha, hph, hl]
  | bound ha hph hsock =>
    apply Kind.binds <;> simp [ha, hph, hsock]
  | served ha hph | unbinds e ha hph =>
    obtain ⟨hl, hcl⟩ := hok.bound ha hph
    apply Kind.moves <;> simp [ha, hph, hl, hcl]
  | unbound e ha hph =>
    obtain ⟨hl, hcl⟩ := hok.unbinding e ha hph
    apply Kind.unlinks <;> simp [ha, hph, hl, hcl]
  | gaveUp e ha hph =>
    apply Kind.moves <;> simp [ha, hph]
  | cancelled =>
    apply Kind.moves <;> simp +contextual
  | runCloses ha hph hclosed =>
    obtain ⟨hl, hcl⟩ := hok.serving ha hph hclosed
    apply Kind.moves <;> simp [ha, hph, hl, hcl]
  | runPasses ha hph hclosed =>
    apply Kind.moves <;> simp [ha, hph]
  | closerCloses ha hcl hclosed =>
    have hph := hok.waiting hcl hclosed
    obtain ⟨hl, _⟩ := hok.serving ha hph hclosed
    apply Kind.moves <;> simp [ha, hph, hl, hcl]
  | closerPasses ha hcl hclosed =>
    apply Kind.moves <;> simp +contextual [ha, hcl]
  | runUnlinks ha hph =>
    obtain ⟨hcl, _, hl⟩ := hok.running _ hph
    rcases hcl with hcl | hcl
    all_goals apply Kind.unlinks <;> simp [ha, hph, hl, hcl]
  | runShuts ha hph =>
    apply Kind.moves <;> simp [ha, hph]
  | runRemoves ha hph =>
    obtain ⟨hcl, _, hl⟩ := hok.running _ hph
    rcases hcl with hcl | hcl
    all_goals apply Kind.unlinks <;> simp [ha, hph, hl, hcl]
  | closerUnlinks ha hcl =>
    obtain ⟨hph, _, hl⟩ := hok.going _ hcl
    rcases hph with hph | hph | hph
    all_goals apply Kind.unlinks <;> simp [ha, hph, hl, hcl]
  | closerShuts ha hcl =>
    apply Kind.moves <;> simp +contextual [ha, hcl]
  | closerRemoves ha hcl =>
    obtain ⟨hph, _, hl⟩ := hok.going _ hcl
    rcases hph with hph | hph | hph
    all_goals apply Kind.unlinks <;> simp [ha, hph, hl, hcl, Late]
  | closedStore err ha hph =>
    apply Kind.unlocks <;> simp [ha, hph]
  | died ha =>
    apply Kind.unlocks <;> simp [ha]

/-- Nobody starts to answer. -/
theorem answers_set {c : Proc} (hlistening : c.listening = true → (h.procs p).listening = true)
    (hans : h.answers = false) : (h.set p c).answers = false := by
  unfold answers at hans ⊢
  show (match h.sock with | none => false | some q => ((h.set p c).procs q).listening) = false
  cases hsock : h.sock with
  | none => rfl
  | some q =>
    rw [hsock] at hans
    dsimp only at hans ⊢
    by_cases hq : q = p
    · subst hq
      rw [set_self, ← Bool.not_eq_true]
      intro hc
      rw [hlistening hc] at hans
      cases hans
    · rw [set_other h c hq]
      exact hans

theorem answers_of_sock_eq_none (hsock : h.sock = none) : h.answers = false := by
  unfold answers
  rw [hsock]

/-- A process that has the lock is the only one. -/
theorem Inv.unique (hinv : Inv h) {q : Nat} (hp : (h.procs p).holds = true)
    (hq : (h.procs q).holds = true) : q = p := by
  have hlp := (hinv.lock p).mp hp
  have hlq := (hinv.lock q).mp hq
  rw [hlp] at hlq
  exact (Option.some.inj hlq).symm

theorem holds_of_owner {c : Proc} (ho : c.owner = true) : c.holds = true := by
  unfold Proc.owner at ho
  rw [Bool.and_eq_true] at ho
  refine holds_of_isAt ⟨ho.1, rfl⟩ ?_
  generalize c.phase = φ at ho
  cases φ with
  | starting => exact ho.2
  | returned err => exact ho.2
  | _ => rfl

theorem listening_of_named {c : Proc} (hn : c.named = true) : c.listening = true := by
  unfold Proc.named at hn
  rw [Bool.and_eq_true, Bool.and_eq_true] at hn
  exact hn.1.2

/-- What is to be shown of the process that moves, and of the others. -/
theorem inv_of_set {c : Proc} (hinv : Inv h) (hprocs : h'.procs = (h.set p c).procs)
    (hok : c.Ok) (hself : c.holds = true ↔ h'.lock = some p)
    (hlock : ∀ q, q ≠ p → ((h.procs q).holds = true ↔ h'.lock = some q))
    (hfree : c.isAt .clear ∨ (∃ q, q ≠ p ∧ (h.procs q).isAt .clear) → h'.sock = none)
    (hstale : c.isAt .refused ∨ (∃ q, q ≠ p ∧ (h.procs q).isAt .refused) → h'.answers = false) :
    Inv h' := by
  have hp : h'.procs p = c := by rw [hprocs, set_self]
  have hq : ∀ q, q ≠ p → h'.procs q = h.procs q := by
    intro q hq
    rw [hprocs, set_other h c hq]
  refine ⟨fun q => ?_, fun q => ?_, fun q hat => ?_, fun q hat => ?_⟩
  · by_cases hqp : q = p
    · rw [hqp, hp]
      exact hok
    · rw [hq q hqp]
      exact hinv.ok q
  · by_cases hqp : q = p
    · rw [hqp, hp]
      exact hself
    · rw [hq q hqp]
      exact hlock q hqp
  · by_cases hqp : q = p
    · rw [hqp, hp] at hat
      exact hfree (Or.inl hat)
    · rw [hq q hqp] at hat
      exact hfree (Or.inr ⟨q, hqp, hat⟩)
  · by_cases hqp : q = p
    · rw [hqp, hp] at hat
      exact hstale (Or.inl hat)
    · rw [hq q hqp] at hat
      exact hstale (Or.inr ⟨q, hqp, hat⟩)

theorem unlocked_eq_some_iff {q : Nat} (hq : q ≠ p) :
    h.unlocked p = some q ↔ h.lock = some q := by
  unfold unlocked
  split
  next hl =>
    rw [hl]
    exact iff_of_false (Option.some_ne_none q).symm (fun heq => hq (Option.some.inj heq).symm)
  next => exact Iff.rfl

theorem unlocked_ne (h : Host) (p : Nat) : h.unlocked p ≠ some p := by
  unfold unlocked
  split
  next => exact (Option.some_ne_none p).symm
  next hl => exact hl

theorem Kind.inv (hk : Kind h p a h') (hinv : Inv h) (hok : (h'.procs p).Ok) : Inv h' := by
  cases hk with
  | moves c hholds hlistening _ _ hfree hstale =>
    rw [set_self] at hok
    refine inv_of_set hinv rfl hok ?_ (fun q _ => hinv.lock q) (fun hat => ?_) (fun hat => ?_)
    · rw [hholds]
      exact hinv.lock p
    · rcases hat with hat | ⟨q, _, hat⟩
      · rcases hfree hat with hat | hsock
        · exact hinv.free p hat
        · exact hsock
      · exact hinv.free q hat
    · refine answers_set hlistening ?_
      rcases hat with hat | ⟨q, _, hat⟩
      · rcases hstale hat with hat | hans
        · exact hinv.stale p hat
        · exact hans
      · exact hinv.stale q hat
  | locks c hlock hholds hlistening _ hfree hstale =>
    -- nobody has held the lock, so nobody was clear or refused
    have hnone : ∀ q, (h.procs q).holds ≠ true := by
      intro q hq
      have hl := (hinv.lock q).mp hq
      rw [hlock] at hl
      cases hl
    rw [set_self] at hok
    refine inv_of_set hinv rfl hok (iff_of_true hholds rfl) (fun q hq => ?_) (fun hat => ?_)
      (fun hat => ?_)
    · exact iff_of_false (hnone q) (fun heq => hq (Option.some.inj heq).symm)
    · rcases hat with hat | ⟨q, _, hat⟩
      · exact absurd hat.2 hfree
      · exact absurd (holds_of_isAt hat rfl) (hnone q)
    · rcases hat with hat | ⟨q, _, hat⟩
      · exact absurd hat.2 hstale
      · exact absurd (holds_of_isAt hat rfl) (hnone q)
  | unlocks c hholds hlistening _ =>
    have hnot : ∀ φ, φ.holds = true → ¬ c.isAt φ := by
      intro φ hφ hat
      rw [holds_of_isAt hat hφ] at hholds
      cases hholds
    rw [set_self] at hok
    refine inv_of_set hinv rfl hok ?_ (fun q hq => ?_) (fun hat => ?_) (fun hat => ?_)
    · rw [hholds]
      exact iff_of_false Bool.false_ne_true (unlocked_ne h p)
    · show (h.procs q).holds = true ↔ h.unlocked p = some q
      rw [unlocked_eq_some_iff hq]
      exact hinv.lock q
    · rcases hat with hat | ⟨q, _, hat⟩
      · exact absurd hat (hnot .clear rfl)
      · exact hinv.free q hat
    · refine answers_set hlistening ?_
      rcases hat with hat | ⟨q, _, hat⟩
      · exact absurd hat (hnot .refused rfl)
      · exact hinv.stale q hat
  | binds c hsock hold hholds hfree hstale =>
    -- the others do not hold the lock
    rw [set_self] at hok
    refine inv_of_set hinv rfl hok ?_ (fun q _ => hinv.lock q) (fun hat => ?_) (fun hat => ?_)
    · exact iff_of_true hholds ((hinv.lock p).mp hold)
    · rcases hat with hat | ⟨q, hq, hat⟩
      · exact absurd hat.2 hfree
      · exact absurd (hinv.unique hold (holds_of_isAt hat rfl)) hq
    · rcases hat with hat | ⟨q, hq, hat⟩
      · exact absurd hat.2 hstale
      · exact absurd (hinv.unique hold (holds_of_isAt hat rfl)) hq
  | unlinks c hholds _ _ _ hstale _ =>
    rw [set_self] at hok
    refine inv_of_set hinv rfl hok ?_ (fun q _ => hinv.lock q) (fun _ => rfl) (fun _ => ?_)
    · rw [hholds]
      exact hinv.lock p
    · exact answers_of_sock_eq_none rfl

theorem inv_step (hinv : Inv h) (hstep : h.step a = some h') : Inv h' := by
  obtain ⟨p, hs⟩ := step_sound hstep
  exact (hs.kind (hinv.ok p)).inv hinv (hs.ok (hinv.ok p))

/-! ## §7. Starting. -/

theorem Inv.startSafe (hinv : Inv h) : StartSafe h := by
  refine ⟨fun p q hp hq => hinv.unique hq hp, hinv.free, hinv.stale, fun p q hat hsock hl => ?_⟩
  have hp := holds_of_isAt hat rfl
  have hok := hinv.ok q
  -- the other process cannot hold the store, and it is past its own start
  have hlate : (h.procs q).phase.holds = false := by
    rw [← Bool.not_eq_true]
    intro hholds
    have hq : (h.procs q).holds = true := holds_of_isAt ⟨hok.alive hl, rfl⟩ hholds
    rw [hinv.unique hp hq] at hl
    have hearly := (hinv.ok p).early (by rw [hat.2]; rfl)
    rw [hearly.1] at hl
    cases hl
  cases hph : (h.procs q).phase with
  | returned err => rfl
  | starting =>
    rw [(hok.early (by rw [hph]; rfl)).1] at hl
    cases hl
  | _ =>
    rw [hph] at hlate
    cases hlate

/-- **Starting up is safe**: in every state of every interleaving of any number of
processes, killed at any point or not. -/
theorem starts_safely (as : List Act) : StatesMeet step StartSafe init as :=
  statesMeet_of_stepsMeet (J := Inv) (C := fun _ _ => True)
    (fun _ _ _ hinv hstep => inv_step hinv hstep)
    (fun _ _ _ hinv _ _ hstep => (inv_step hinv hstep).startSafe) inv_init inv_init.startSafe
    (stepsMeet_true as init)

/-! ## §8. The socket of a daemon. -/

/-- While a process listens, nobody else has bound the path.  A late `os.Remove` ends
this as it disturbs the process. -/
def Alone (h : Host) : Prop :=
  ∀ p q, (h.procs p).named = true → (h.procs q).owner = true → p = q

theorem undisturbed_init : Undisturbed init ∧ Alone init := by
  refine ⟨fun p hn => ?_, fun p q hn => ?_⟩
  · cases hn
  · cases hn

/-- While nobody listens there is nothing to disturb. -/
theorem undisturbed_of_none (hnone : ∀ q, (h.procs q).named = false) :
    Undisturbed h ∧ Alone h := by
  refine ⟨fun q hn => ?_, fun q r hn => ?_⟩
  · rw [hnone q] at hn
    cases hn
  · rw [hnone q] at hn
    cases hn

theorem undisturbed_of_set {c : Proc} (hund : Undisturbed h) (halone : Alone h)
    (hprocs : h'.procs = (h.set p c).procs) (hsock : h'.sock = h.sock)
    (hnamed : c.named = true → (h.procs p).named = true)
    (howner : c.owner = true → (h.procs p).owner = true) : Undisturbed h' ∧ Alone h' := by
  have hn : ∀ q, (h'.procs q).named = true → (h.procs q).named = true := by
    intro q hq
    rw [hprocs] at hq
    by_cases hqp : q = p
    · rw [hqp, set_self] at hq
      rw [hqp]
      exact hnamed hq
    · rwa [set_other h c hqp] at hq
  have ho : ∀ q, (h'.procs q).owner = true → (h.procs q).owner = true := by
    intro q hq
    rw [hprocs] at hq
    by_cases hqp : q = p
    · rw [hqp, set_self] at hq
      rw [hqp]
      exact howner hq
    · rwa [set_other h c hqp] at hq
  refine ⟨fun q hq => ?_, fun q r hq hr => ?_⟩
  · rw [hsock]
    exact hund q (hn q hq)
  · exact halone q r (hn q hq) (ho r hr)

/-- A step that is not a late `os.Remove` disturbs nobody. -/
theorem Kind.undisturbed (hk : Kind h p a h') (hinv : Inv h) (hund : Undisturbed h)
    (halone : Alone h) (hlate : ¬ h.Late a p) : Undisturbed h' ∧ Alone h' := by
  cases hk with
  | moves c _ _ hnamed howner _ _ => exact undisturbed_of_set hund halone rfl rfl hnamed howner
  | locks c hlock _ hlistening howner _ _ =>
    refine undisturbed_of_set hund halone rfl rfl (fun hn => ?_) (fun ho => ?_)
    · simp [Proc.named, hlistening] at hn
    · rw [howner] at ho
      cases ho
  | unlocks c hholds _ hnamed =>
    refine undisturbed_of_set hund halone rfl rfl hnamed (fun ho => ?_)
    rw [holds_of_owner ho] at hholds
    cases hholds
  | binds c hsock hold _ _ _ =>
    -- the path was free, so nobody listened
    have hnone : ∀ q, (h.procs q).named ≠ true := by
      intro q hq
      have hs := hund q hq
      rw [hsock] at hs
      cases hs
    have hp : ∀ q, (({ h.set p c with sock := some p } : Host).procs q).named = true → q = p := by
      intro q hq
      by_contra hqp
      have hq : ((h.set p c).procs q).named = true := hq
      rw [set_other h c hqp] at hq
      exact hnone q hq
    refine ⟨fun q hq => ?_, fun q r hq hr => ?_⟩
    · rw [hp q hq]
    · rw [hp q hq]
      by_contra hrp
      have hr : ((h.set p c).procs r).owner = true := hr
      rw [set_other h c (Ne.symm hrp)] at hr
      exact hrp (hinv.unique hold (holds_of_owner hr)).symm
  | unlinks c _ _ hnamed _ _ hwhy =>
    have hothers : ∀ q, q ≠ p → (h.procs q).named = false := by
      intro q hqp
      rw [← Bool.not_eq_true]
      intro hq
      have hsock := hund q hq
      rcases hwhy with hself | hat | ⟨howner, hself⟩ | hl
      · -- its own socket
        have hp := hund p hself
        rw [hsock] at hp
        exact hqp (Option.some.inj hp)
      · -- a stale one
        have hans := hinv.stale p hat
        unfold answers at hans
        rw [hsock] at hans
        dsimp only at hans
        rw [listening_of_named hq] at hans
        cases hans
      · -- once more, still in `Run`
        exact hqp (halone q p hq howner)
      · exact hlate hl
    refine undisturbed_of_none (fun q => ?_)
    show ((h.set p c).procs q).named = false
    by_cases hqp : q = p
    · rw [hqp, set_self]
      exact hnamed
    · rw [set_other h c hqp]
      exact hothers q hqp

/-- Nobody listens, and then a late `os.Remove` comes. -/
theorem undisturbed_after_late {q : Nat} (hinv : Inv h) (hl : h.Late a q)
    (hstep : h.step a = some h') (hnone : ∀ p, (h.procs p).named = false) :
    Undisturbed h' ∧ Alone h' := by
  obtain ⟨rfl, ha, hcl, -⟩ := hl
  have hoff : (h.procs q).listening = false := ((hinv.ok q).going _ hcl).2.2 ha
  simp only [step, ha, hcl, if_true] at hstep
  cases hstep
  refine undisturbed_of_none (fun p => ?_)
  show ((h.set q _).procs p).named = false
  by_cases hpq : p = q
  · rw [hpq, set_self]
    unfold Proc.named
    dsimp only
    rw [hoff, Bool.and_false, Bool.false_and]
  · rw [set_other h _ hpq]
    exact hnone p

/-- A late `os.Remove` takes the socket of whoever listens. -/
theorem undisturbed_late_iff {q : Nat} (hinv : Inv h) (hl : h.Late a q)
    (hstep : h.step a = some h') :
    Undisturbed h' ↔ ∀ p, (h.procs p).named = false := by
  refine ⟨fun hund p => ?_, fun hnone => (undisturbed_after_late hinv hl hstep hnone).1⟩
  obtain ⟨rfl, ha, hcl, -⟩ := hl
  have hoff : (h.procs q).listening = false := ((hinv.ok q).going _ hcl).2.2 ha
  simp only [step, ha, hcl, if_true] at hstep
  cases hstep
  rw [← Bool.not_eq_true]
  intro hp
  have hpq : p ≠ q := by
    rintro rfl
    rw [listening_of_named hp] at hoff
    cases hoff
  have hkept := hund p (by
    show ((h.set q _).procs p).named = true
    rw [set_other h _ hpq]
    exact hp)
  cases hkept

theorem undisturbed_step_iff (hinv : Inv h) (halone : Alone h) (hund : Undisturbed h)
    (hstep : h.step a = some h') : Undisturbed h' ↔ NoLateRemove h a := by
  by_cases hlate : ∃ q, h.Late a q
  · obtain ⟨q, hl⟩ := hlate
    rw [undisturbed_late_iff hinv hl hstep]
    refine ⟨fun hnone r _ => hnone, fun hno => hno q hl⟩
  · obtain ⟨p, hs⟩ := step_sound hstep
    refine iff_of_true ?_ (fun q hl => absurd ⟨q, hl⟩ hlate)
    exact ((hs.kind (hinv.ok p)).undisturbed hinv hund halone (fun hl => hlate ⟨p, hl⟩)).1

/-- Between undisturbed states `Alone` is kept. -/
theorem alone_step (hinv : Inv h) (halone : Alone h) (hund : Undisturbed h)
    (hund' : Undisturbed h') (hstep : h.step a = some h') : Alone h' := by
  by_cases hlate : ∃ q, h.Late a q
  · obtain ⟨q, hl⟩ := hlate
    exact (undisturbed_after_late hinv hl hstep ((undisturbed_late_iff hinv hl hstep).mp hund')).2
  · obtain ⟨p, hs⟩ := step_sound hstep
    exact ((hs.kind (hinv.ok p)).undisturbed hinv hund halone (fun hl => hlate ⟨p, hl⟩)).2

/-- **A daemon keeps its control socket exactly if no earlier one removes it late.**
Every listening process has its socket at the path until it unlinks it itself, in
every state of a schedule, exactly if the schedule never takes the `os.Remove` that
ends `Close` in the goroutine of a process whose `Run` has returned while another
process listens. -/
theorem undisturbed_iff (as : List Act) :
    StatesMeet step Undisturbed init as ↔ StepsMeet step NoLateRemove init as :=
  statesMeet_iff_stepsMeet_between (J := fun h => Inv h ∧ Alone h) (D := fun _ _ => True)
    (fun _ _ _ hj hund hund' _ hstep =>
      ⟨inv_step hj.1 hstep, alone_step hj.1 hj.2 hund hund' hstep⟩)
    (fun _ _ _ hj hund _ hstep => undisturbed_step_iff hj.1 hj.2 hund hstep)
    (stepsMeet_true as init) ⟨inv_init, undisturbed_init.2⟩ undisturbed_init.1

/-- The goroutine of process 0 closes, `Run` returns without waiting for it, process 1
starts and listens, and the last step of the first one takes its socket. -/
example :
    (run step init
        [.open 0, .stat 0, .listen 0, .chmod 0 none, .cancel 0, .close 0 .closer,
          .advance 0 .closer, .advance 0 .closer, .close 0 .run, .closeStore 0,
          .open 1, .stat 1, .listen 1, .chmod 1 none, .advance 0 .closer]).map
      (fun h => (h.sock, (h.procs 1).phase, (h.procs 1).named)) = some (none, .serving, true) := by
  decide

end Host

end Kin.Daemon.Instance
