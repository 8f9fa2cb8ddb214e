import Quetz.GuestExit

/-!
# The End of the QEMU Process

The simulator starts QEMU, polls it while it simulates, and ends it: `waitForChildAttach`
(`src/quetz_qemu_frontend.cc`), `checkChild`, `terminate` and `forceKill`
(`src/quetz_launcher.cc`), and `finish` and `emergencyShutdown` (`src/quetzcpu.cc`). A fatal error
ends the simulation through `emergencyShutdown`, which also runs when the simulator is interrupted.

The process can end before any call of `waitpid`, and a call can be interrupted or fail, which is an
input here. A process that was reaped is gone, and the system may give its number to another one; a
signal to it is *stale*.

## Main results

* `reapRounds_spec`: the bounded wait for the process.
* `Inv.step`: every call keeps what is known of the process.
* `child_teardown`: what signals were sent, how long it took, and what the simulator reports.
-/

namespace Quetz.QemuChild

def SIGKILL : ℕ := 9

def SIGTERM : ℕ := 15

/-! ### The process -/

/-- What a call of `waitpid` meets: the process may have ended since the last call, and the call may
not answer. -/
structure Meets where
  ends : Option WaitStatus := none
  wait : Waitpid := .answered

/-- A signal that was sent; `stale` if the process had been reaped. -/
structure Signal where
  sig : ℕ
  stale : Bool
deriving DecidableEq, Repr

/-- `pid_` of the launcher, and the process: how it ended, whether it was reaped, the calls of
`waitpid` so far, the time spent asleep in milliseconds, and the signals it was sent. -/
structure Child where
  pid : ℕ
  status : Option WaitStatus := none
  reaped : Bool := false
  polls : ℕ := 0
  slept : ℕ := 0
  signals : List Signal := []
deriving DecidableEq, Repr

/-- What `waitpid` returns. -/
inductive Rc where
  | running
  | child (status : WaitStatus)
  | error (errno : String)
deriving DecidableEq, Repr

/-- The errors of the launcher and the frontend. -/
inductive ChildFatal where
  | launcher (e : LauncherFatal)
  | beforeAttach (status : WaitStatus)
  | notExited
  | afterExit (status : WaitStatus)
  | teardownExited (code : ℕ)
  | teardownSignaled (sig : ℕ)
deriving DecidableEq, Repr

/-- The number in which `waitpid` gives the status of a process, without the core-dump flag. -/
def rawStatus : WaitStatus → ℕ
  | .exited code => code * 256
  | .signaled sig => sig

/-- The text of an error. -/
def ChildFatal.message : ChildFatal → String
  | .launcher e => e.message
  | .beforeAttach (.exited code) => s!"QEMU exited with status {code} before its SST plugin " ++
      "attached (check the qemu_plugin path and the QEMU command line)."
  | .beforeAttach (.signaled sig) =>
      s!"QEMU was terminated by signal {sig} before its SST plugin attached."
  | .notExited => "QEMU did not exit after its plugin EXIT records."
  | .afterExit status => s!"QEMU failed after plugin EXIT (wait status {rawStatus status})."
  | .teardownExited code => s!"QEMU exited with status {code} during teardown."
  | .teardownSignaled sig => s!"QEMU failed with signal {sig} during teardown."

/-- How a bounded wait ends. -/
inductive Reap where
  | child (status : WaitStatus)
  | gone
  | timeout
deriving DecidableEq, Repr

namespace Child

variable (env : ℕ → Meets)

/-- `waitpid(pid, &status, WNOHANG)`. -/
def waitpid (c : Child) : Rc × Child :=
  let c' := { c with polls := c.polls + 1, status := c.status.or (env c.polls).ends }
  match (env c.polls).wait with
  | .interrupted => (.error "EINTR", c')
  | .failed errno => (.error errno, c')
  | .answered =>
    if c'.reaped then (.error "ECHILD", c')
    else
      match c'.status with
      | none => (.running, c')
      | some status => (.child status, { c' with reaped := true })

def sleep (ms : ℕ) (c : Child) : Child := { c with slept := c.slept + ms }

def kill (sig : ℕ) (c : Child) : Child :=
  { c with signals := c.signals ++ [{ sig, stale := c.reaped }] }

/-- `QemuLauncher::checkChild`. -/
def checkChild (c : Child) : Except ChildFatal Bool × Child :=
  if c.pid = 0 then (.ok false, c)
  else
    match c.waitpid env with
    | (.running, c) => (.ok true, c)
    | (.error errno, c) =>
      if errno = "EINTR" then (.ok true, c) else (.error (.launcher (.cannotInspect errno)), c)
    | (.child status, c) =>
      -- Cleared before the errors, which end in `forceKill`.
      let c := { c with pid := 0 }
      match status with
      | .exited code => if code ≠ 0 then (.error (.launcher (.exited code)), c) else (.ok false, c)
      | .signaled sig => (.error (.launcher (.signaled sig)), c)

/-- One poll of `reapBounded`: how it ends, or `none` if it goes on. -/
def reapOnce (c : Child) : Option Reap × Child :=
  match c.waitpid env with
  | (.child status, c) => (some (.child status), c)
  | (.running, c) => (none, c)
  | (.error errno, c) => (if errno = "ECHILD" then some .gone else none, c)

/-- The loop of `reapBounded` with this many sleeps left. -/
def reapRounds : ℕ → Child → Reap × Child
  | 0, c => let (r, c) := c.reapOnce env; (r.getD .timeout, c)
  | rounds + 1, c =>
    match c.reapOnce env with
    | (some r, c) => (r, c)
    | (none, c) => reapRounds rounds (c.sleep 10)

/-- `reapBounded`: it polls every 10 ms. -/
def reapBounded (timeoutMs : ℕ) (c : Child) : Reap × Child :=
  c.reapRounds env ((timeoutMs + 9) / 10)

/-- The end of `terminate`, after a signal. -/
def teardown (status : WaitStatus) (c : Child) : Except ChildFatal Unit × Child :=
  match status with
  | .exited code => if code ≠ 0 then (.error (.teardownExited code), c) else (.ok (), c)
  | .signaled sig =>
    if sig ≠ SIGTERM ∧ sig ≠ SIGKILL then (.error (.teardownSignaled sig), c) else (.ok (), c)

/-- `QemuLauncher::terminate`. A status that was not stored is that of an exit with 0. -/
def terminate (expectGuestExit : Bool) (c : Child) : Except ChildFatal Unit × Child :=
  match c.checkChild env with
  | (.error e, c) => (.error e, c)
  | (.ok false, c) => (.ok (), c)
  | (.ok true, c) =>
    if expectGuestExit then
      match c.reapBounded env 2000 with
      | (.timeout, c) => (.error .notExited, c)
      | (.gone, c) => (.ok (), { c with pid := 0 })
      | (.child status, c) =>
        let c := { c with pid := 0 }
        if status ≠ .exited 0 then (.error (.afterExit status), c) else (.ok (), c)
    else
      match (c.kill SIGTERM).reapBounded env 2000 with
      | (.child status, c) => teardown status { c with pid := 0 }
      | (.gone, c) => (.ok (), { c with pid := 0 })
      | (.timeout, c) =>
        match (c.kill SIGKILL).reapBounded env 2000 with
        | (.child status, c) => teardown status { c with pid := 0 }
        | (_, c) => (.ok (), { c with pid := 0 })

/-- `QemuLauncher::forceKill`. -/
def forceKill (c : Child) : Child :=
  if c.pid = 0 then c
  else { ((c.kill SIGKILL).reapBounded env 500).2 with pid := 0 }

end Child

/-! ### The simulator -/

/-- How the simulation ended. -/
inductive Outcome where
  | finished (expectGuestExit : Bool)
  | failed (e : ChildFatal)
  | stopped
deriving DecidableEq, Repr

/-- The simulator and its process; `attached` once the plugin has attached. -/
structure Simulator where
  child : Child
  attached : Bool := false
  outcome : Option Outcome := none
deriving DecidableEq, Repr

/-- What the simulator does next. -/
inductive SimulatorEvent where
  /-- A round of `waitForChildAttach`, with the flag that it reads. -/
  | attach (childAttached : Bool)
  | check
  | finish (expectGuestExit : Bool)
  | emergencyShutdown

namespace Simulator

variable (env : ℕ → Meets)

/-- The simulation ends through `emergencyShutdown`. -/
def shutdown (s : Simulator) (outcome : Outcome) (c : Child) : Simulator :=
  { s with child := c.forceKill env, outcome := some outcome }

/-- A round of `waitForChildAttach`. -/
def attachRound (childAttached : Bool) (s : Simulator) : Simulator :=
  if childAttached then { s with attached := true }
  else
    match s.child.waitpid env with
    | (.child status, c) => s.shutdown env (.failed (.beforeAttach status)) c
    | (_, c) => { s with child := c.sleep 1 }

/-- The poll of `tick`. -/
def check (s : Simulator) : Simulator :=
  match s.child.checkChild env with
  | (.error e, c) => s.shutdown env (.failed e) c
  | (.ok _, c) => { s with child := c }

/-- `finish`. -/
def finish (expectGuestExit : Bool) (s : Simulator) : Simulator :=
  match s.child.terminate env expectGuestExit with
  | (.error e, c) => s.shutdown env (.failed e) c
  | (.ok _, c) => { s with child := c, outcome := some (.finished expectGuestExit) }

/-- The simulator waits for the plugin first, and does nothing once it has ended. -/
def step (s : Simulator) (e : SimulatorEvent) : Simulator :=
  if s.outcome.isSome then s
  else
    match e with
    | .attach childAttached => if s.attached then s else s.attachRound env childAttached
    | .check => if s.attached then s.check env else s
    | .finish expectGuestExit => if s.attached then s.finish env expectGuestExit else s
    | .emergencyShutdown => s.shutdown env .stopped s.child

/-- A run from the start of the process. -/
def run (pid : ℕ) (es : List SimulatorEvent) : Simulator := es.foldl (step env) { child := { pid } }

end Simulator

/-! ### One call of `waitpid` -/

section

variable {env : ℕ → Meets} {c c' : Child} {n : ℕ}

/-- A process that can be waited for is never unknown to the system. -/
def Known (env : ℕ → Meets) : Prop := ∀ n errno, (env n).wait = .failed errno → errno ≠ "ECHILD"

/-- What calls keep that take at most this time: how the process ended. -/
structure Kept (ms : ℕ) (c c' : Child) : Prop where
  le_slept : c.slept ≤ c'.slept
  slept_le : c'.slept ≤ c.slept + ms
  status : ∀ st, c.status = some st → c'.status = some st

/-- Nothing was called. -/
theorem Kept.refl (c : Child) : Kept 0 c c := ⟨le_rfl, le_rfl, fun _ hst => hst⟩

/-- The times of two calls add up. -/
theorem Kept.trans {ms ms' : ℕ} {c'' : Child} (h : Kept ms c c') (h' : Kept ms' c' c'') :
    Kept (ms + ms') c c'' where
  le_slept := h.le_slept.trans h'.le_slept
  slept_le := by
    have hfirst := h.slept_le
    have hsecond := h'.slept_le
    omega
  status := fun st hst => h'.status st (h.status st hst)

/-- A bound on the time may be larger. -/
theorem Kept.mono {ms ms' : ℕ} (h : Kept ms c c') (hms : ms ≤ ms') : Kept ms' c c' :=
  { h with slept_le := h.slept_le.trans (Nat.add_le_add_left hms _) }

/-- Sleeping takes its time and changes nothing else. -/
theorem kept_sleep (ms : ℕ) (c : Child) : Kept ms c (c.sleep ms) :=
  ⟨Nat.le_add_right .., le_rfl, fun _ hst => hst⟩

/-- What a call of `waitpid` returns. -/
inductive Waited (env : ℕ → Meets) (c c' : Child) : Rc → Prop
  | running (hr : c'.reaped = c.reaped) : Waited env c c' .running
  | child (st : WaitStatus) (hr : c.reaped = false) (hr' : c'.reaped = true)
      (hst : c'.status = some st) : Waited env c c' (.child st)
  | gone (hr : c.reaped = true) : Waited env c c' (.error "ECHILD")
  | error (errno : String) (hr : c'.reaped = c.reaped) (hne : errno ≠ "ECHILD")
      (hwhy : errno = "EINTR" ∨ ∃ n, (env n).wait = .failed errno) : Waited env c c' (.error errno)

/-- A call does not touch the launcher and the signals, and takes no time. -/
structure Untouched (c c' : Child) : Prop where
  pid : c'.pid = c.pid
  signals : c'.signals = c.signals

/-- What a call of `waitpid` does, and what it returns. -/
theorem waitpid_spec (hknown : Known env) (c : Child) :
    ∃ rc c', c.waitpid env = (rc, c') ∧ Untouched c c' ∧ Kept 0 c c' ∧ Waited env c c' rc := by
  have hstatus : ∀ st, c.status = some st → c.status.or (env c.polls).ends = some st := by
    intro st hst
    rw [hst]
    rfl
  rw [Child.waitpid]
  cases hwait : (env c.polls).wait with
  | interrupted =>
      exact ⟨_, _, rfl, ⟨rfl, rfl⟩, ⟨le_rfl, le_rfl, hstatus⟩,
        .error "EINTR" rfl (by decide) (Or.inl rfl)⟩
  | failed errno =>
      exact ⟨_, _, rfl, ⟨rfl, rfl⟩, ⟨le_rfl, le_rfl, hstatus⟩,
        .error errno rfl (hknown _ _ hwait) (Or.inr ⟨_, hwait⟩)⟩
  | answered =>
      dsimp only
      by_cases hr : c.reaped = true
      · rw [if_pos hr]
        exact ⟨_, _, rfl, ⟨rfl, rfl⟩, ⟨le_rfl, le_rfl, hstatus⟩, .gone hr⟩
      · rw [if_neg hr]
        rw [Bool.not_eq_true] at hr
        cases hst : c.status.or (env c.polls).ends with
        | none =>
            rw [hst] at hstatus
            exact ⟨_, _, rfl, ⟨rfl, rfl⟩, ⟨le_rfl, le_rfl, hstatus⟩, .running rfl⟩
        | some st =>
            rw [hst] at hstatus
            exact ⟨_, _, rfl, ⟨rfl, rfl⟩, ⟨le_rfl, le_rfl, hstatus⟩, .child st hr rfl rfl⟩

/-! ### Waiting for a time -/

/-- How a bounded wait ends. -/
inductive Reaped (ms : ℕ) (c c' : Child) : Reap → Prop
  | child (st : WaitStatus) (hr : c.reaped = false) (hr' : c'.reaped = true)
      (hst : c'.status = some st) : Reaped ms c c' (.child st)
  | gone (hr : c.reaped = true) : Reaped ms c c' .gone
  | timeout (hr : c'.reaped = c.reaped) (hslept : c.slept + ms ≤ c'.slept) : Reaped ms c c' .timeout

/-- A round of the loop reaps the process, learns that it is gone, or goes on. -/
theorem reapOnce_spec (hknown : Known env) (c : Child) :
    ∃ r c', c.reapOnce env = (r, c') ∧ Untouched c c' ∧ Kept 0 c c' ∧
      ((∃ r', r = some r' ∧ ∀ ms, Reaped ms c c' r') ∨ r = none ∧ c'.reaped = c.reaped) := by
  obtain ⟨rc, c', heq, hsame, hkept, hwaited⟩ := waitpid_spec hknown c
  rw [Child.reapOnce, heq]
  cases hwaited with
  | running hr => exact ⟨_, _, rfl, hsame, hkept, Or.inr ⟨rfl, hr⟩⟩
  | child st hr hr' hst =>
      exact ⟨_, _, rfl, hsame, hkept, Or.inl ⟨_, rfl, fun ms => .child st hr hr' hst⟩⟩
  | gone hr => exact ⟨_, _, rfl, hsame, hkept, Or.inl ⟨_, rfl, fun ms => .gone hr⟩⟩
  | error errno hr hne hwhy => exact ⟨_, _, rfl, hsame, hkept, Or.inr ⟨if_neg hne, hr⟩⟩

/-- **The bounded wait.** It sleeps 10 ms between two polls, and ends without the process only after
all of them. -/
theorem reapRounds_spec (hknown : Known env) (rounds : ℕ) (c : Child) :
    ∃ r c', c.reapRounds env rounds = (r, c') ∧ Untouched c c' ∧ Kept (10 * rounds) c c' ∧
      Reaped (10 * rounds) c c' r := by
  induction rounds generalizing c with
  | zero =>
      obtain ⟨r, c₁, heq, hsame, hkept, hcase⟩ := reapOnce_spec hknown c
      rw [Child.reapRounds, heq]
      rcases hcase with ⟨r', rfl, hr'⟩ | ⟨rfl, hr⟩
      · exact ⟨_, _, rfl, hsame, hkept, hr' _⟩
      · exact ⟨_, _, rfl, hsame, hkept, .timeout hr hkept.le_slept⟩
  | succ rounds ih =>
      obtain ⟨r, c₁, heq, hsame, hkept, hcase⟩ := reapOnce_spec hknown c
      rw [Child.reapRounds, heq]
      rcases hcase with ⟨r', rfl, hr'⟩ | ⟨rfl, hr⟩
      · exact ⟨_, _, rfl, hsame, hkept.mono (Nat.zero_le _), hr' _⟩
      · obtain ⟨r, c₂, heq', hsame', hkept', hreaped⟩ := ih (c₁.sleep 10)
        have hall := (hkept.trans (kept_sleep 10 c₁)).trans hkept'
        refine ⟨_, _, heq', ⟨hsame'.pid.trans hsame.pid, hsame'.signals.trans hsame.signals⟩,
          hall.mono (by omega), ?_⟩
        have hr₁ : (c₁.sleep 10).reaped = c.reaped := hr
        cases hreaped with
        | child st hr hr' hst => exact .child st (hr₁.symm.trans hr) hr' hst
        | gone hr => exact .gone (hr₁.symm.trans hr)
        | timeout hr hslept =>
            have hslept₁ : (c₁.sleep 10).slept = c₁.slept + 10 := rfl
            have hle := hkept.le_slept
            exact .timeout (hr.trans hr₁) (by omega)

/-- The wait reaps the process, or has taken its whole time. -/
theorem reapBounded_spec (hknown : Known env) {ms rounds : ℕ} (hms : ms = 10 * rounds) (c : Child) :
    ∃ r c', c.reapBounded env ms = (r, c') ∧ Untouched c c' ∧ Kept ms c c' ∧ Reaped ms c c' r := by
  have hrounds : (ms + 9) / 10 = rounds := by omega
  rw [Child.reapBounded, hrounds, hms]
  exact reapRounds_spec hknown rounds c

/-! ### What the simulator reports -/

/-- An error says how the process ended, or what failed. -/
def Reports (env : ℕ → Meets) (c : Child) : ChildFatal → Prop
  | .launcher (.cannotInspect errno) => ∃ n, (env n).wait = .failed errno
  | .launcher (.exited code) => code ≠ 0 ∧ c.status = some (.exited code)
  | .launcher (.signaled sig) => c.status = some (.signaled sig)
  | .beforeAttach st => c.status = some st
  | .notExited => 2000 ≤ c.slept
  | .afterExit st => st ≠ .exited 0 ∧ c.status = some st
  | .teardownExited code => code ≠ 0 ∧ c.status = some (.exited code)
  | .teardownSignaled sig => sig ≠ SIGTERM ∧ sig ≠ SIGKILL ∧ c.status = some (.signaled sig)

/-- A report stays true. -/
theorem Reports.kept {e : ChildFatal} {ms : ℕ} (h : Reports env c e) (hkept : Kept ms c c') :
    Reports env c' e := by
  cases e with
  | launcher e =>
      cases e with
      | cannotInspect errno => exact h
      | exited code => exact ⟨h.1, hkept.status _ h.2⟩
      | signaled sig => exact hkept.status _ h
  | beforeAttach st => exact hkept.status _ h
  | notExited => exact h.trans hkept.le_slept
  | afterExit st => exact ⟨h.1, hkept.status _ h.2⟩
  | teardownExited code => exact ⟨h.1, hkept.status _ h.2⟩
  | teardownSignaled sig => exact ⟨h.1, h.2.1, hkept.status _ h.2.2⟩

/-- A simulation that ends well: the process exited with 0. If it was not expected to exit, it may
instead have ended by the signals it was sent, or outlived them. -/
def Ended (expectGuestExit : Bool) (c : Child) : Prop :=
  c.reaped = true ∧ c.status = some (.exited 0) ∨
    expectGuestExit = false ∧ SIGTERM ∈ c.signals.map Signal.sig ∧
      (c.reaped = false ∨ c.status = some (.signaled SIGTERM) ∨ c.status = some (.signaled SIGKILL))

/-- The launcher knows of a process that was not reaped, or has forgotten one that exited with 0. -/
structure Live (c : Child) : Prop where
  reaped : c.pid ≠ 0 → c.reaped = false
  ended : c.pid = 0 → c.reaped = true ∧ c.status = some (.exited 0)
  signals : c.signals = []

/-- What a poll of the simulator does. -/
inductive Checked (env : ℕ → Meets) (c' : Child) : Except ChildFatal Bool → Prop
  | running (hpid : c'.pid ≠ 0) (hlive : Live c') : Checked env c' (.ok true)
  | ended (hpid : c'.pid = 0) (hlive : Live c') : Checked env c' (.ok false)
  | fails (e : ChildFatal) (hpid : c'.pid ≠ 0 → c'.reaped = false) (hsignals : c'.signals = [])
      (hreports : Reports env c' e) (hattached : ∀ st, e ≠ .beforeAttach st)
      (hexit : e ≠ .notExited) : Checked env c' (.error e)

/-- A poll of a process that was not reaped is that of the launcher. -/
theorem checkChild_launcher (hr : c.reaped = false)
    (hwait : (env c.polls).wait ≠ .failed "EINTR") : (c.checkChild env).1 =
      ((QemuLauncher.checkChild (env c.polls).wait
        { pid := c.pid, status := c.status.or (env c.polls).ends }).mapError
          ChildFatal.launcher).map Prod.fst := by
  rw [Child.checkChild, QemuLauncher.checkChild.eq_def]
  dsimp only
  by_cases hpid : c.pid = 0
  · rw [if_pos hpid, if_pos hpid]
    rfl
  rw [if_neg hpid, if_neg hpid, Child.waitpid]
  cases hmeets : (env c.polls).wait with
  | interrupted => rfl
  | failed errno =>
      have hne : errno ≠ "EINTR" := by
        rintro rfl
        exact hwait hmeets
      dsimp only
      rw [if_neg hne]
      rfl
  | answered =>
      dsimp only
      rw [if_neg (by rw [hr]; exact Bool.false_ne_true)]
      cases c.status.or (env c.polls).ends with
      | none => rfl
      | some st =>
          cases st with
          | exited code =>
              dsimp only
              split_ifs <;> rfl
          | signaled sig => rfl

/-- What a poll does. -/
theorem checkChild_spec (hknown : Known env) (hlive : Live c) :
    ∃ res c', c.checkChild env = (res, c') ∧ Kept 0 c c' ∧ Checked env c' res := by
  rw [Child.checkChild]
  by_cases hpid : c.pid = 0
  · rw [if_pos hpid]
    exact ⟨_, _, rfl, .refl c, .ended hpid hlive⟩
  rw [if_neg hpid]
  have hrunning := hlive.reaped hpid
  obtain ⟨rc, c', heq, hsame, hkept, hwaited⟩ := waitpid_spec hknown c
  rw [heq]
  have hpid' : c'.pid ≠ 0 := by rwa [hsame.pid]
  have hsignals : c'.signals = [] := hsame.signals.trans hlive.signals
  cases hwaited with
  | running hr =>
      exact ⟨_, _, rfl, hkept, .running hpid'
        ⟨fun _ => hr.trans hrunning, fun hzero => absurd hzero hpid', hsignals⟩⟩
  | child st hr hr' hst =>
      dsimp only
      have hcleared : Kept 0 c { c' with pid := 0 } :=
        ⟨hkept.le_slept, hkept.slept_le, hkept.status⟩
      cases st with
      | exited code =>
          dsimp only
          split_ifs with hcode
          · exact ⟨_, _, rfl, hcleared,
              .fails _ (fun hzero => absurd rfl hzero) hsignals ⟨hcode, hst⟩ nofun nofun⟩
          · rw [not_not] at hcode
            subst hcode
            exact ⟨_, _, rfl, hcleared,
              .ended rfl ⟨fun hzero => absurd rfl hzero, fun _ => ⟨hr', hst⟩, hsignals⟩⟩
      | signaled sig =>
          exact ⟨_, _, rfl, hcleared,
            .fails _ (fun hzero => absurd rfl hzero) hsignals hst nofun nofun⟩
  | gone hr => cases hr.symm.trans hrunning
  | error errno hr hne hwhy =>
      dsimp only
      split_ifs with hintr
      · exact ⟨_, _, rfl, hkept, .running hpid'
          ⟨fun _ => hr.trans hrunning, fun hzero => absurd hzero hpid', hsignals⟩⟩
      · exact ⟨_, _, rfl, hkept, .fails _ (fun _ => hr.trans hrunning) hsignals
          (hwhy.resolve_left hintr) nofun nofun⟩

/-- What the end of the process does. -/
inductive Terminated (env : ℕ → Meets) (expectGuestExit : Bool) (c c' : Child) :
    Except ChildFatal Unit → Prop
  | ends (hended : Ended expectGuestExit c') (hfresh : ∀ s ∈ c'.signals, s.stale = false) :
      Terminated env expectGuestExit c c' (.ok ())
  | fails (e : ChildFatal) (hpid : c'.pid ≠ 0 → c'.reaped = false)
      (hfresh : ∀ s ∈ c'.signals, s.stale = false) (hreports : Reports env c' e)
      (hattached : ∀ st, e ≠ .beforeAttach st)
      (hpatient : e = .notExited → c.slept + 2000 ≤ c'.slept) :
      Terminated env expectGuestExit c c' (.error e)

/-- What is reported about a process that was sent SIGTERM. -/
theorem teardown_spec {st : WaitStatus} (hst : c.status = some st) (hreaped : c.reaped = true)
    (hpid : c.pid = 0) (hterm : SIGTERM ∈ c.signals.map Signal.sig)
    (hfresh : ∀ s ∈ c.signals, s.stale = false) :
    ∃ res, Child.teardown st c = (res, c) ∧ ∀ c₀, Terminated env false c₀ c res := by
  rw [Child.teardown.eq_def]
  cases st with
  | exited code =>
      dsimp only
      split_ifs with hcode
      · exact ⟨_, rfl, fun c₀ =>
          .fails _ (fun hne => absurd hpid hne) hfresh ⟨hcode, hst⟩ nofun nofun⟩
      · rw [not_not] at hcode
        subst hcode
        exact ⟨_, rfl, fun c₀ => .ends (Or.inl ⟨hreaped, hst⟩) hfresh⟩
  | signaled sig =>
      dsimp only
      split_ifs with hsig
      · exact ⟨_, rfl, fun c₀ =>
          .fails _ (fun hne => absurd hpid hne) hfresh ⟨hsig.1, hsig.2, hst⟩ nofun nofun⟩
      · rw [not_and_or, not_not, not_not] at hsig
        refine ⟨_, rfl, fun c₀ => .ends (Or.inr ⟨rfl, hterm, Or.inr ?_⟩) hfresh⟩
        rcases hsig with rfl | rfl
        · exact Or.inl hst
        · exact Or.inr hst

/-- A signal to a process that was not reaped. -/
theorem fresh_kill {sig : ℕ} (hfresh : ∀ s ∈ c.signals, s.stale = false) (hr : c.reaped = false) :
    ∀ s ∈ (c.kill sig).signals, s.stale = false := by
  intro s hs
  rcases List.mem_append.mp hs with hs | hs
  · exact hfresh s hs
  · rw [List.mem_singleton.mp hs]
    exact hr

/-- A wait after a signal: the process has ended, or it was not reaped. -/
theorem reapBounded_kill (hknown : Known env) {ms rounds sig : ℕ} (hms : ms = 10 * rounds)
    (hr : c.reaped = false) (hterm : SIGTERM ∈ (c.kill sig).signals.map Signal.sig)
    (hfresh : ∀ s ∈ c.signals, s.stale = false) :
    ∃ r c', (c.kill sig).reapBounded env ms = (r, c') ∧ Kept ms c c' ∧
      SIGTERM ∈ c'.signals.map Signal.sig ∧ (∀ s ∈ c'.signals, s.stale = false) ∧
      ((∃ st res, r = .child st ∧ Child.teardown st { c' with pid := 0 } =
          (res, { c' with pid := 0 }) ∧ ∀ c₀, Terminated env false c₀ { c' with pid := 0 } res) ∨
        r = .timeout ∧ c'.reaped = false) := by
  obtain ⟨r, c', heq, hsame, hkept, hreap⟩ := reapBounded_spec hknown hms (c.kill sig)
  have hfresh' : ∀ s ∈ c'.signals, s.stale = false := by
    rw [hsame.signals]
    exact fresh_kill hfresh hr
  rw [← hsame.signals] at hterm
  refine ⟨r, c', heq, ⟨hkept.le_slept, hkept.slept_le, hkept.status⟩, hterm, hfresh', ?_⟩
  cases hreap with
  | child st hr' hr'' hst =>
      obtain ⟨res, hteardown, hterminated⟩ :=
        @teardown_spec env { c' with pid := 0 } st hst hr'' rfl hterm hfresh'
      exact Or.inl ⟨st, res, rfl, hteardown, hterminated⟩
  | gone hr' => cases hr'.symm.trans hr
  | timeout hr' hslept => exact Or.inr ⟨rfl, hr'.trans hr⟩

/-- **The end of the process.** -/
theorem terminate_spec (hknown : Known env) (hlive : Live c) (expectGuestExit : Bool) :
    ∃ res c', c.terminate env expectGuestExit = (res, c') ∧ Kept 4000 c c' ∧
      Terminated env expectGuestExit c c' res := by
  obtain ⟨res, c₁, heq, hkept, hchecked⟩ := checkChild_spec hknown hlive
  rw [Child.terminate, heq]
  have hnone : ∀ {d : Child}, d.signals = [] → ∀ s ∈ d.signals, s.stale = false := by
    intro d hd s hs
    rw [hd] at hs
    cases hs
  cases hchecked with
  | fails e hpid hsignals hreports hattached hexit =>
      exact ⟨_, _, rfl, hkept.mono (Nat.zero_le _), .fails e hpid (hnone hsignals) hreports
        hattached fun he => absurd he hexit⟩
  | ended hpid hlive₁ =>
      exact ⟨_, _, rfl, hkept.mono (Nat.zero_le _),
        .ends (Or.inl (hlive₁.ended hpid)) (hnone hlive₁.signals)⟩
  | running hpid hlive₁ =>
      have hr₁ := hlive₁.reaped hpid
      dsimp only
      cases expectGuestExit with
      | true =>
          obtain ⟨r, c₂, heq₂, hsame, hkept₂, hreap⟩ :=
            reapBounded_spec hknown (show 2000 = 10 * 200 from rfl) c₁
          rw [if_pos rfl, heq₂]
          have hfresh := hnone (hsame.signals.trans hlive₁.signals)
          have hall := (hkept.trans hkept₂).mono (show 0 + 2000 ≤ 4000 by omega)
          cases hreap with
          | child st hr hr' hst =>
              dsimp only
              have hcleared : Kept 4000 c { c₂ with pid := 0 } :=
                ⟨hall.le_slept, hall.slept_le, hall.status⟩
              split_ifs with hbad
              · exact ⟨_, _, rfl, hcleared,
                  .fails _ (fun hne => absurd rfl hne) hfresh ⟨hbad, hst⟩ nofun nofun⟩
              · rw [not_not] at hbad
                subst hbad
                exact ⟨_, _, rfl, hcleared, .ends (Or.inl ⟨hr', hst⟩) hfresh⟩
          | gone hr => cases hr.symm.trans hr₁
          | timeout hr hslept =>
              exact ⟨_, _, rfl, hall, .fails _ (fun _ => hr.trans hr₁) hfresh
                ((Nat.le_add_left ..).trans hslept) nofun
                fun _ => (Nat.add_le_add_right hkept.le_slept _).trans hslept⟩
      | false =>
          have hterm₁ : SIGTERM ∈ (c₁.kill SIGTERM).signals.map Signal.sig := by
            rw [Child.kill, List.map_append]
            exact List.mem_append_right _ (List.mem_singleton_self _)
          obtain ⟨r, c₂, heq₂, hkept₂, hterm₂, hfresh₂, hcase₂⟩ :=
            reapBounded_kill hknown (show 2000 = 10 * 200 from rfl) hr₁ hterm₁
              (hnone hlive₁.signals)
          rw [if_neg Bool.false_ne_true, heq₂]
          have hall₂ := hkept.trans hkept₂
          rcases hcase₂ with ⟨st, res, rfl, hteardown, hterminated⟩ | ⟨rfl, hr₂⟩
          · dsimp only
            rw [hteardown]
            exact ⟨_, _, rfl, ⟨hall₂.le_slept, hall₂.slept_le.trans (by omega), hall₂.status⟩,
              hterminated c⟩
          · have hterm₂' : SIGTERM ∈ (c₂.kill SIGKILL).signals.map Signal.sig := by
              rw [Child.kill, List.map_append]
              exact List.mem_append_left _ hterm₂
            obtain ⟨r, c₃, heq₃, hkept₃, hterm₃, hfresh₃, hcase₃⟩ :=
              reapBounded_kill hknown (show 2000 = 10 * 200 from rfl) hr₂ hterm₂' hfresh₂
            dsimp only
            rw [heq₃]
            have hall₃ := hall₂.trans hkept₃
            have hkept' : Kept 4000 c { c₃ with pid := 0 } :=
              ⟨hall₃.le_slept, hall₃.slept_le.trans (by omega), hall₃.status⟩
            rcases hcase₃ with ⟨st, res, rfl, hteardown, hterminated⟩ | ⟨rfl, hr₃⟩
            · dsimp only
              rw [hteardown]
              exact ⟨_, _, rfl, hkept', hterminated c⟩
            · exact ⟨_, _, rfl, hkept', .ends (Or.inr ⟨rfl, hterm₃, Or.inl hr₃⟩) hfresh₃⟩

/-- What `forceKill` does. -/
theorem forceKill_spec (hknown : Known env) (c : Child) : Kept 500 c (c.forceKill env) ∧
    (c.forceKill env).signals =
      c.signals ++ if c.pid = 0 then [] else [{ sig := SIGKILL, stale := c.reaped }] := by
  rw [Child.forceKill]
  split_ifs with hpid
  · exact ⟨(Kept.refl c).mono (Nat.zero_le _), (List.append_nil _).symm⟩
  · obtain ⟨r, c', heq, hsame, hkept, -⟩ :=
      reapBounded_spec hknown (show 500 = 10 * 50 from rfl) (c.kill SIGKILL)
    rw [heq]
    exact ⟨⟨hkept.le_slept, hkept.slept_le, hkept.status⟩, hsame.signals⟩

/-! ### Runs -/

/-- What is known of a simulation. -/
structure Inv (env : ℕ → Meets) (s : Simulator) : Prop where
  live : s.outcome = none → Live s.child
  waiting : s.outcome = none → s.attached = false → s.child.pid ≠ 0
  stale : (∃ sig ∈ s.child.signals, sig.stale = true) ↔
    ∃ st, s.outcome = some (.failed (.beforeAttach st))
  finished : ∀ expect, s.outcome = some (.finished expect) → Ended expect s.child
  failed : ∀ e, s.outcome = some (.failed e) → Reports env s.child e

variable {s : Simulator}

/-- The simulation ends through `emergencyShutdown`, not before the plugin has attached. -/
theorem inv_shutdown (hknown : Known env) (s : Simulator) {outcome : Outcome} {c : Child}
    (hpid : c.pid ≠ 0 → c.reaped = false) (hfresh : ∀ s ∈ c.signals, s.stale = false)
    (hfinished : ∀ expect, outcome ≠ .finished expect)
    (hfailed : ∀ e, outcome = .failed e → Reports env c e ∧ ∀ st, e ≠ .beforeAttach st) :
    Inv env (s.shutdown env outcome c) := by
  obtain ⟨hkept, hsignals⟩ := forceKill_spec hknown c
  refine ⟨nofun, nofun, ⟨?_, ?_⟩, fun expect hout => ?_, fun e hout => ?_⟩
  · rintro ⟨sig, hsig, hstale⟩
    rw [Simulator.shutdown, hsignals] at hsig
    rcases List.mem_append.mp hsig with hsig | hsig
    · cases (hfresh sig hsig).symm.trans hstale
    · split_ifs at hsig with hzero
      · cases hsig
      · rw [List.mem_singleton.mp hsig] at hstale
        cases (hpid hzero).symm.trans hstale
  · rintro ⟨st, hout⟩
    exact absurd rfl ((hfailed _ (Option.some.inj hout)).2 st)
  · exact absurd (Option.some.inj hout) (hfinished expect)
  · exact (hfailed e (Option.some.inj hout)).1.kept hkept

/-- The process ended before its plugin attached. -/
theorem inv_beforeAttach (hknown : Known env) (s : Simulator) {st : WaitStatus} {c : Child}
    (hpid : c.pid ≠ 0) (hr : c.reaped = true) (hst : c.status = some st) :
    Inv env (s.shutdown env (.failed (.beforeAttach st)) c) := by
  obtain ⟨hkept, hsignals⟩ := forceKill_spec hknown c
  refine ⟨nofun, nofun, ⟨fun _ => ⟨st, rfl⟩, fun _ => ?_⟩, fun expect hout => ?_, fun e hout => ?_⟩
  · refine ⟨{ sig := SIGKILL, stale := c.reaped }, ?_, hr⟩
    rw [Simulator.shutdown, hsignals, if_neg hpid]
    exact List.mem_append_right _ (List.mem_singleton_self _)
  · cases hout
  · cases hout
    exact hkept.status st hst

/-- A simulation that goes on. -/
theorem inv_live (hlive : Live s.child) (hwaiting : s.attached = false → s.child.pid ≠ 0)
    (hout : s.outcome = none) : Inv env s := by
  refine ⟨fun _ => hlive, fun _ => hwaiting, ⟨?_, ?_⟩, fun expect hfin => ?_, fun e hfail => ?_⟩
  · rintro ⟨sig, hsig, -⟩
    rw [hlive.signals] at hsig
    cases hsig
  · rintro ⟨st, hst⟩
    cases hout.symm.trans hst
  · cases hout.symm.trans hfin
  · cases hout.symm.trans hfail

/-- After a step: what is known, and how long the step slept. -/
structure Stepped (env : ℕ → Meets) (s s' : Simulator) : Prop where
  inv : Inv env s'
  slept_le : s'.child.slept ≤ s.child.slept + 4500
  patient : s.outcome = none → s'.outcome = some (.failed .notExited) →
    s.child.slept + 2000 ≤ s'.child.slept

/-- The simulation ends with one more kill, which takes half a second at most. -/
theorem stepped_shutdown (hknown : Known env) {ms : ℕ} {outcome : Outcome}
    (hinv : Inv env (s.shutdown env outcome c)) (hkept : Kept ms s.child c) (hms : ms ≤ 4000)
    (hpatient : outcome = .failed .notExited → s.child.slept + 2000 ≤ c.slept) :
    Stepped env s (s.shutdown env outcome c) := by
  have hforce := (forceKill_spec hknown c).1
  have hle := (hkept.trans hforce).slept_le
  exact ⟨hinv, hle.trans (by omega),
    fun _ hout => (hpatient (Option.some.inj hout)).trans hforce.le_slept⟩

/-- The simulation goes on. -/
theorem stepped_live {s' : Simulator} (hinv : Inv env s')
    (hslept : s'.child.slept ≤ s.child.slept + 4500) (hout : s'.outcome = none) :
    Stepped env s s' := by
  refine ⟨hinv, hslept, fun _ hfail => ?_⟩
  cases hout.symm.trans hfail

/-- No signal was sent while the simulation goes on. -/
theorem Live.fresh (h : Live c) : ∀ sig ∈ c.signals, sig.stale = false := by
  intro sig hsig
  rw [h.signals] at hsig
  cases hsig

/-- A round of `waitForChildAttach`, which does not clear the launcher's pid. -/
theorem attachRound_spec (hknown : Known env) (h : Inv env s) (hout : s.outcome = none)
    (hattached : s.attached = false) (childAttached : Bool) :
    Stepped env s (s.attachRound env childAttached) := by
  have hlive := h.live hout
  have hpid := h.waiting hout hattached
  rw [Simulator.attachRound]
  cases childAttached with
  | true => exact stepped_live (inv_live hlive nofun hout) (Nat.le_add_right ..) hout
  | false =>
      obtain ⟨rc, c, heq, huntouched, hkept, hwaited⟩ := waitpid_spec hknown s.child
      rw [if_neg Bool.false_ne_true, heq]
      have hpid' : c.pid ≠ 0 := by rwa [huntouched.pid]
      have hgoes : c.reaped = s.child.reaped → Stepped env s { s with child := c.sleep 1 } := by
        intro hr
        have hle := (hkept.trans (kept_sleep 1 c)).slept_le
        exact stepped_live (inv_live ⟨fun _ => hr.trans (hlive.reaped hpid),
          fun hzero => absurd hzero hpid', huntouched.signals.trans hlive.signals⟩
          (fun _ => hpid') hout) (hle.trans (by omega)) hout
      cases hwaited with
      | running hr => exact hgoes hr
      | child st hr hr' hst =>
          exact stepped_shutdown hknown (inv_beforeAttach hknown s hpid' hr' hst) hkept
            (Nat.zero_le _) nofun
      | gone hr => cases hr.symm.trans (hlive.reaped hpid)
      | error errno hr hne hwhy => exact hgoes hr

/-- A poll of `tick`. -/
theorem check_spec (hknown : Known env) (h : Inv env s) (hout : s.outcome = none)
    (hattached : s.attached = true) : Stepped env s (s.check env) := by
  obtain ⟨res, c, heq, hkept, hchecked⟩ := checkChild_spec hknown (h.live hout)
  rw [Simulator.check, heq]
  have htime : c.slept ≤ s.child.slept + 4500 :=
    hkept.slept_le.trans (Nat.add_le_add_left (Nat.zero_le _) _)
  cases hchecked with
  | running hpid hlive => exact stepped_live (inv_live hlive (fun _ => hpid) hout) htime hout
  | ended hpid hlive =>
      refine stepped_live (inv_live hlive (fun hnot => ?_) hout) htime hout
      cases hattached.symm.trans hnot
  | fails e hpid hsignals hreports hbefore hexit =>
      have hfresh : ∀ sig ∈ c.signals, sig.stale = false := by
        intro sig hsig
        rw [hsignals] at hsig
        cases hsig
      refine stepped_shutdown hknown (inv_shutdown hknown s hpid hfresh nofun fun e' he' => ?_)
        hkept (Nat.zero_le _) fun he => absurd (Outcome.failed.inj he) hexit
      cases he'
      exact ⟨hreports, hbefore⟩

/-- The end of the simulation. -/
theorem finish_spec (hknown : Known env) (h : Inv env s) (hout : s.outcome = none)
    (expectGuestExit : Bool) : Stepped env s (s.finish env expectGuestExit) := by
  obtain ⟨res, c, heq, hkept, hterminated⟩ :=
    terminate_spec hknown (h.live hout) expectGuestExit
  rw [Simulator.finish, heq]
  cases hterminated with
  | ends hended hfresh =>
      refine ⟨⟨nofun, nofun, ⟨?_, ?_⟩, fun expect hfin => ?_, nofun⟩,
        hkept.slept_le.trans (by omega), nofun⟩
      · rintro ⟨sig, hsig, hstale⟩
        cases (hfresh sig hsig).symm.trans hstale
      · rintro ⟨st, hst⟩
        cases hst
      · cases hfin
        exact hended
  | fails e hpid hfresh hreports hbefore hpatient =>
      refine stepped_shutdown hknown (inv_shutdown hknown s hpid hfresh nofun fun e' he' => ?_)
        hkept le_rfl fun he => hpatient (Outcome.failed.inj he)
      cases he'
      exact ⟨hreports, hbefore⟩

/-- **One step** of the simulator. -/
theorem Inv.step (hknown : Known env) (h : Inv env s) (e : SimulatorEvent) :
    Stepped env s (s.step env e) := by
  have hsame : Stepped env s s :=
    ⟨h, Nat.le_add_right .., fun hnone hfail => nomatch hnone.symm.trans hfail⟩
  rw [Simulator.step.eq_def]
  cases hout : s.outcome with
  | some outcome => exact hsame
  | none =>
      rw [if_neg (by exact Bool.false_ne_true)]
      cases e with
      | attach childAttached =>
          cases hattached : s.attached with
          | true => exact hsame
          | false => exact attachRound_spec hknown h hout hattached childAttached
      | check =>
          cases hattached : s.attached with
          | true => exact check_spec hknown h hout hattached
          | false => exact hsame
      | finish expectGuestExit =>
          cases s.attached with
          | true => exact finish_spec hknown h hout expectGuestExit
          | false => exact hsame
      | emergencyShutdown =>
          have hlive := h.live hout
          exact stepped_shutdown hknown
            (inv_shutdown hknown s hlive.reaped hlive.fresh nofun nofun) (Kept.refl _)
            (Nat.zero_le _) nofun

/-- By induction on the steps of the simulator. -/
theorem inv_run (hknown : Known env) {pid : ℕ} (hpid : pid ≠ 0) (es : List SimulatorEvent) :
    Inv env (Simulator.run env pid es) := by
  have hall : ∀ s, Inv env s → Inv env (es.foldl (Simulator.step env) s) := by
    induction es with
    | nil => exact fun s hs => hs
    | cons e es ih => exact fun s hs => ih _ (hs.step hknown e).inv
  refine hall _ (inv_live ⟨fun _ => rfl, fun hzero => absurd hzero hpid, rfl⟩ (fun _ => hpid) rfl)

/-- **The end of the QEMU process.** Whenever the process ends, whatever calls of `waitpid` are
interrupted or fail, and whatever the simulator does and when it is interrupted:

* a signal goes to a number that is no longer QEMU's exactly if the simulation ends with the error
  that QEMU ended before its plugin attached;
* a simulation that ends without an error had a QEMU that exited with 0, or one that was not
  expected to exit and that SIGTERM or SIGKILL ended or that outlived both;
* an error says how the process really ended, which call failed, or that two seconds passed;
* no step sleeps for more than four and a half seconds. -/
theorem child_teardown (hknown : Known env) {pid : ℕ} (hpid : pid ≠ 0)
    (es : List SimulatorEvent) :
    let s := Simulator.run env pid es
    ((∃ sig ∈ s.child.signals, sig.stale = true) ↔
        ∃ st, s.outcome = some (.failed (.beforeAttach st))) ∧
      (∀ expect, s.outcome = some (.finished expect) → Ended expect s.child) ∧
      (∀ e, s.outcome = some (.failed e) → Reports env s.child e) ∧
      ∀ e, (s.step env e).child.slept ≤ s.child.slept + 4500 ∧
        (s.outcome = none → (s.step env e).outcome = some (.failed .notExited) →
          s.child.slept + 2000 ≤ (s.step env e).child.slept) := by
  have hinv := inv_run hknown hpid es
  refine ⟨hinv.stale, hinv.finished, hinv.failed, fun e => ?_⟩
  have hstep := hinv.step hknown e
  exact ⟨hstep.slept_le, hstep.patient⟩

/-- QEMU exits before its plugin attaches: the number is still that of the launcher. -/
theorem child_teardown_early : ∃ sig ∈ (Simulator.run (fun _ => { ends := some (.exited 1) }) 5
    [.attach false]).child.signals, sig.stale = true :=
  (child_teardown (fun n errno h => by cases h) (by decide) _).1.mpr ⟨.exited 1, by decide⟩

end

end Quetz.QemuChild
