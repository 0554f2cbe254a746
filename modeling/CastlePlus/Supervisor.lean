import Mathlib.Data.Fin.VecNotation
import Mathlib.Data.List.FinRange
import Mathlib.Logic.Function.Basic
import Mathlib.Data.Int.ConditionallyCompleteOrder
import Mathlib.Order.ConditionallyCompleteLattice.Basic
import Mathlib.Order.Monotone.Defs

/-! # The process supervisor

    `Supervisor` (`supervisor/supervisor.cpp`, `supervisor/service.h`) on its own
    event loop, together with what it sees of the kernel: the children it forked,
    those of them that are dead and not reaped, and the pending `SIGCHLD`.

    * `Kernel` is the environment: the outcome of every `fork`, the readings of
      the clocks, the health probes;
    * `Sup` is the supervisor's state and the kernel's view of its children;
      `log` records what was done, for the statements only;
    * `step` is one step of the loop thread, of a child that dies, or of another
      thread that posts a task.  `on_sigchld` is cut at each of its system calls,
      because children die while it runs.  The other handlers never look at dead
      children, so a death during one of them is a death just before or after. -/

namespace CastlePlus

/-- Points in time are in nanoseconds. -/
def nanos : Int := 1000000000

inductive ServiceState where
  | stopped
  | running
  | backoff
  | failed
  | quarantined
  deriving DecidableEq, Repr

/-- A manifest entry; `exec`, `args` and `workdir` are only used in the child. -/
structure ServiceConfig where
  name : String
  autorestart : Bool := true
  healthHost : String := ""
  healthPort : Nat := 0
  healthIntervalSec : Int := 5
  backoffMinSec : Int := 1
  backoffMaxSec : Int := 30
  deriving DecidableEq, Repr

structure Service where
  cfg : ServiceConfig
  pid : Int := -1
  state : ServiceState := .stopped
  restartCount : Int := 0
  currentBackoffSec : Int := 0
  wantsRestart : Bool := false
  healthKnown : Bool := false
  healthy : Bool := false
  failureCount : Int := 0
  recentFailures : List Int := []
  everFailed : Bool := false
  lastFailureWall : Int := 0
  lastFailureMono : Int := 0
  lastFailureReason : String := ""
  isDown : Bool := false
  downSinceWall : Int := 0
  downSinceMono : Int := 0
  nextRestart : Int := 0
  lastStart : Int := 0
  lastHealth : Int := 0

structure ServiceUptime where
  name : String
  running : Bool := false
  since : Int := 0

/-- What `waitpid` reports of a dead child. -/
inductive WaitStatus where
  | exited (code : Nat)
  | signaled (sig : Nat)
  | other
  deriving DecidableEq, Repr

inductive Signal where
  | term
  | kill
  deriving DecidableEq, Repr

/-- The branches of the reap loop. -/
inductive Branch where
  | stopped
  | relaunched
  | failed
  | quarantined
  | backoff
  deriving DecidableEq, Repr

/-- The tasks other threads post. -/
inductive Task where
  | beginShutdown
  | restart (name : String)
  deriving DecidableEq, Repr

/-- What the supervisor and its children did. -/
inductive Event (n : Nat) where
  | forked (i : Fin n) (pid : Int)
  | forkFailed (i : Fin n)
  | exited (pid : Int)
  | reaped (pid : Int)
  | branch (i : Fin n) (pid : Int) (b : Branch)
  | failure (i : Fin n) (at_ : Int)
  | restarted (i : Fin n)
  | killed (pid : Int) (sig : Signal)
  | shutdown
  | stop
  deriving DecidableEq, Repr

/-- Where the supervisor thread stands: outside `on_sigchld`, draining the
    signalfd, or in the reap loop. -/
inductive Pc where
  | idle
  | drain
  | reap
  deriving DecidableEq, Repr

/-- The environment.  `fork` may fail each time; a pid it returns belongs to no
    child that is still unreaped.  The steady clock never runs backwards. -/
structure Kernel where
  fork : Nat → List Int → Option Int
  fork_pos : ∀ {k l p}, fork k l = some p → 0 < p
  fork_fresh : ∀ {k l p}, fork k l = some p → p ∉ l
  clock : Nat → Int
  clock_mono : Monotone clock
  wall : Nat → Int
  probe : Nat → String → Nat → Bool
  strsignal : Nat → Option String

structure Sup (n : Nat) where
  services : Fin n → Service
  uptime : Fin n → ServiceUptime
  shuttingDown : Bool := false
  killDeadline : Int := 0
  -- `EventLoop`: `running_`, `tasks_`, what `run_pending_tasks` swapped out of
  -- it and has not run yet, and whether `run` has returned
  loopRunning : Bool := true
  tasks : List Task := []
  batch : List Task := []
  left : Bool := false
  pc : Pc := .idle
  -- the kernel
  live : List Int := []
  dead : List (Int × WaitStatus) := []
  sigPending : Bool := false
  forks : Nat := 0
  reads : Nat := 0
  probes : Nat := 0
  log : List (Event n) := []

namespace Sup

def kGraceSec : Int := 5
def kStableSec : Int := 10
def kMaxFailures : Nat := 5
def kFailureWindow : Int := 24 * 3600 * nanos

variable {n : Nat}

/-- Children forked and not reaped yet, as the kernel knows them. -/
def unreaped (s : Sup n) : List Int := s.live ++ s.dead.map Prod.fst

def record (e : Event n) (s : Sup n) : Sup n := { s with log := s.log ++ [e] }

/-- Write back one service. -/
def setService (i : Fin n) (v : Service) (s : Sup n) : Sup n :=
  { s with services := Function.update s.services i v }

def publishUptime (i : Fin n) (s : Sup n) : Sup n :=
  let v := s.services i
  let u := { s.uptime i with running := decide (0 < v.pid), since := v.lastStart }
  { s with uptime := Function.update s.uptime i u }

/-- `duration_cast<seconds>`, which truncates toward zero. -/
def seconds (d : Int) : Int := d.tdiv nanos

def nextBackoff (v : Service) (now : Int) : Int :=
  if kStableSec ≤ seconds (now - v.lastStart) then v.cfg.backoffMinSec
  else if v.currentBackoffSec = 0 then v.cfg.backoffMinSec
  else min (v.currentBackoffSec * 2) v.cfg.backoffMaxSec

def scheduleRestart (K : Kernel) (i : Fin n) (s : Sup n) : Sup n :=
  let now := K.clock s.reads
  let v := s.services i
  { (s.setService i { v with
      currentBackoffSec := nextBackoff v now, restartCount := v.restartCount + 1,
      state := .backoff, nextRestart := now + nextBackoff v now * nanos }) with
    reads := s.reads + 1 }

def spawn (K : Kernel) (i : Fin n) (s : Sup n) : Sup n :=
  match K.fork s.forks s.unreaped with
  | none => scheduleRestart K i (record (.forkFailed i) { s with forks := s.forks + 1 })
  | some pid =>
      let v := s.services i
      publishUptime i
        { (record (.forked i pid) (s.setService i { v with
            pid, state := .running, isDown := false, lastStart := K.clock s.reads })) with
          forks := s.forks + 1, reads := s.reads + 1, live := pid :: s.live }

def pruneFailures (now : Int) (v : Service) : Service :=
  { v with recentFailures := v.recentFailures.dropWhile fun t => kFailureWindow < now - t }

def markDown (K : Kernel) (i : Fin n) (s : Sup n) : Sup n :=
  let v := s.services i
  if v.isDown then s
  else { (s.setService i { v with
      isDown := true, downSinceMono := K.clock s.reads, downSinceWall := K.wall s.reads }) with
    reads := s.reads + 1 }

/-- The text of a failure; the buffer holds 63 characters. -/
def failureReason (K : Kernel) (status : WaitStatus) : String :=
  String.ofList <| List.take 63 <| String.toList <|
    match status with
    | .exited code => "exit " ++ toString code
    | .signaled sig => "signal " ++ toString sig ++ " (" ++ (K.strsignal sig).getD "?" ++ ")"
    | .other => "unknown"

def recordFailure (K : Kernel) (i : Fin n) (status : WaitStatus) (s : Sup n) : Sup n :=
  let now := K.clock s.reads
  let v := s.services i
  record (.failure i now) { (s.setService i (pruneFailures now { v with
      failureCount := v.failureCount + 1, everFailed := true,
      lastFailureMono := now, lastFailureWall := K.wall s.reads,
      lastFailureReason := failureReason K status,
      recentFailures := v.recentFailures ++ [now] })) with
    reads := s.reads + 1 }

def findByPid (pid : Int) (s : Sup n) : Option (Fin n) :=
  (List.finRange n).find? fun i => (s.services i).pid == pid

def findByName (name : String) (s : Sup n) : Option (Fin n) :=
  (List.finRange n).find? fun i => (s.services i).cfg.name == name

/-- `for (auto& s : services_)`. -/
def forServices (f : Fin n → Sup n → Sup n) (s : Sup n) : Sup n :=
  (List.finRange n).foldl (fun s i => f i s) s

/-! ## `on_sigchld` -/

/-- An exit nobody asked for: count it, then `Failed`, `Quarantined` or
    `Backoff`. -/
def unexpectedExit (K : Kernel) (i : Fin n) (pid : Int) (status : WaitStatus) (s : Sup n) :
    Sup n :=
  let s := recordFailure K i status s
  let v := s.services i
  if v.cfg.autorestart = false then
    markDown K i (record (.branch i pid .failed) (s.setService i { v with state := .failed }))
  else if kMaxFailures < v.recentFailures.length then
    markDown K i (record (.branch i pid .quarantined)
      (s.setService i { v with state := .quarantined }))
  else scheduleRestart K i (record (.branch i pid .backoff) s)

/-- One turn of the reap loop, for a child of service `i`. -/
def reapService (K : Kernel) (i : Fin n) (pid : Int) (status : WaitStatus) (s : Sup n) : Sup n :=
  let v := s.services i
  let s := publishUptime i (s.setService i { v with pid := -1 })
  let s := s.setService i { s.services i with healthKnown := false }
  let v := s.services i
  if s.shuttingDown then
    record (.branch i pid .stopped) (s.setService i { v with state := .stopped })
  else if v.wantsRestart then
    spawn K i (record (.branch i pid .relaunched)
      (s.setService i { v with wantsRestart := false, currentBackoffSec := 0 }))
  else unexpectedExit K i pid status s

def reapChild (K : Kernel) (pid : Int) (status : WaitStatus) (s : Sup n) : Sup n :=
  match s.findByPid pid with
  | none => s
  | some i => reapService K i pid status s

def finishIfDrained (s : Sup n) : Sup n :=
  if ∃ i, 0 < (s.services i).pid then s
  else record .stop { s with loopRunning := false }

/-! ## The other handlers -/

/-- The first half of the loop body of `on_tick`. -/
def relaunchIfDue (K : Kernel) (now : Int) (i : Fin n) (s : Sup n) : Sup n :=
  if (s.services i).state = .backoff ∧ (s.services i).nextRestart ≤ now then spawn K i s else s

/-- The second half. -/
def checkHealth (K : Kernel) (now : Int) (i : Fin n) (s : Sup n) : Sup n :=
  let v := s.services i
  if 0 < v.pid ∧ v.cfg.healthPort ≠ 0 ∧ v.cfg.healthIntervalSec ≤ seconds (now - v.lastHealth) then
    { (s.setService i { v with
        healthy := K.probe s.probes v.cfg.healthHost v.cfg.healthPort,
        healthKnown := true, lastHealth := now }) with
      probes := s.probes + 1 }
  else s

def tickService (K : Kernel) (now : Int) (i : Fin n) (s : Sup n) : Sup n :=
  checkHealth K now i (relaunchIfDue K now i s)

def killService (sig : Signal) (i : Fin n) (s : Sup n) : Sup n :=
  if 0 < (s.services i).pid then record (.killed (s.services i).pid sig) s else s

def onTick (K : Kernel) (s : Sup n) : Sup n :=
  let now := K.clock s.reads
  let s := { s with reads := s.reads + 1 }
  if s.shuttingDown then
    finishIfDrained (if s.killDeadline ≤ now then forServices (killService .kill) s else s)
  else forServices (tickService K now) s

def stopService (i : Fin n) (s : Sup n) : Sup n :=
  if 0 < (s.services i).pid then record (.killed (s.services i).pid .term) s
  else s.setService i { s.services i with state := .stopped }

/-- The flag and the kill deadline. -/
def armShutdown (K : Kernel) (s : Sup n) : Sup n :=
  record .shutdown { s with
    shuttingDown := true, killDeadline := K.clock s.reads + kGraceSec * nanos,
    reads := s.reads + 1 }

def beginShutdown (K : Kernel) (s : Sup n) : Sup n :=
  finishIfDrained (forServices stopService (armShutdown K s))

/-- The operator's restart clears the circuit breaker. -/
def clearBreaker (i : Fin n) (s : Sup n) : Sup n :=
  record (.restarted i) (s.setService i { s.services i with recentFailures := [] })

def doRestart (K : Kernel) (name : String) (s : Sup n) : Bool × Sup n :=
  match s.findByName name with
  | none => (false, s)
  | some i =>
      let s := clearBreaker i s
      let v := s.services i
      if 0 < v.pid then
        (true, record (.killed v.pid .term) (s.setService i { v with wantsRestart := true }))
      else
        (true, spawn K i (s.setService i { v with currentBackoffSec := 0, wantsRestart := false }))

def runTask (K : Kernel) (t : Task) (s : Sup n) : Sup n :=
  match t with
  | .beginShutdown => beginShutdown K s
  | .restart name => (doRestart K name s).2

/-! ## Runs -/

inductive Label where
  /-- a child dies -/
  | exit (pid : Int) (status : WaitStatus)
  /-- `on_sigchld` is entered -/
  | sigchld
  /-- one `read` of the signalfd -/
  | read
  /-- one `waitpid`, which may return any dead child -/
  | waitpid (k : Nat)
  | tick
  /-- another thread posts a task -/
  | post (t : Task)
  /-- `run_pending_tasks` swaps the queue out -/
  | doorbell
  /-- the next task of the batch runs -/
  | task
  /-- the loop looks at `running_` -/
  | check
  deriving DecidableEq, Repr

/-- The loop thread is between two callbacks. -/
def free (s : Sup n) : Bool := s.pc == .idle && s.batch.isEmpty && !s.left

def exitChild (pid : Int) (status : WaitStatus) (s : Sup n) : Sup n :=
  if pid ∈ s.live then
    record (.exited pid) { s with
      live := s.live.erase pid, dead := s.dead ++ [(pid, status)], sigPending := true }
  else s

def readSignal (s : Sup n) : Sup n :=
  if s.pc = .drain then
    if s.sigPending then { s with sigPending := false } else { s with pc := .reap }
  else s

/-- The kernel forgets the `k`-th dead child, `pid`. -/
def collect (pid : Int) (k : Nat) (s : Sup n) : Sup n :=
  record (.reaped pid) { s with dead := s.dead.eraseIdx k }

def waitpid (K : Kernel) (k : Nat) (s : Sup n) : Sup n :=
  if s.pc = .reap then
    if s.dead = [] then
      let s := { s with pc := .idle }
      if s.shuttingDown then finishIfDrained s else s
    else match s.dead[k]? with
      | none => s
      | some (pid, status) => reapChild K pid status (collect pid k s)
  else s

def step (K : Kernel) (s : Sup n) : Label → Sup n
  | .exit pid status => exitChild pid status s
  | .sigchld => if s.free then { s with pc := .drain } else s
  | .read => readSignal s
  | .waitpid k => waitpid K k s
  | .tick => if s.free then onTick K s else s
  | .post t => { s with tasks := s.tasks ++ [t] }
  | .doorbell => if s.free then { s with batch := s.tasks, tasks := [] } else s
  | .task =>
      match s.batch with
      | [] => s
      | t :: rest => if s.left then s else runTask K t { s with batch := rest }
  | .check => if s.free ∧ s.loopRunning = false then { s with left := true } else s

/-- The supervisor's own state, its children and the log are as before. -/
structure Quiet (s s' : Sup n) : Prop where
  services : s'.services = s.services
  uptime : s'.uptime = s.uptime
  shuttingDown : s'.shuttingDown = s.shuttingDown
  live : s'.live = s.live
  dead : s'.dead = s.dead
  reads : s'.reads = s.reads
  log : s'.log = s.log

/-- What one step can do. -/
theorem step_cases (K : Kernel) (s : Sup n) (l : Label) :
    Quiet s (step K s l) ∨
    (∃ pid status, l = .exit pid status ∧ step K s l = exitChild pid status s) ∨
    (∃ k, l = .waitpid k ∧ step K s l = waitpid K k s) ∨
    (l = .tick ∧ s.free = true ∧ step K s l = onTick K s) ∨
    (∃ t rest, l = .task ∧ s.batch = t :: rest ∧
      step K s l = runTask K t { s with batch := rest }) := by
  have hsame : Quiet s s := ⟨rfl, rfl, rfl, rfl, rfl, rfl, rfl⟩
  cases l with
  | exit pid status => exact .inr (.inl ⟨pid, status, rfl, rfl⟩)
  | sigchld =>
      refine .inl ?_
      show Quiet s (if s.free then { s with pc := .drain } else s)
      split
      · exact ⟨rfl, rfl, rfl, rfl, rfl, rfl, rfl⟩
      · exact hsame
  | read =>
      refine .inl ?_
      show Quiet s (readSignal s)
      rw [readSignal]
      split
      · split <;> exact ⟨rfl, rfl, rfl, rfl, rfl, rfl, rfl⟩
      · exact hsame
  | waitpid k => exact .inr (.inr (.inl ⟨k, rfl, rfl⟩))
  | tick =>
      by_cases hfree : s.free = true
      · exact .inr (.inr (.inr (.inl ⟨rfl, hfree, if_pos hfree⟩)))
      · refine .inl ?_
        rw [show step K s .tick = s from if_neg hfree]
        exact hsame
  | post t => exact .inl ⟨rfl, rfl, rfl, rfl, rfl, rfl, rfl⟩
  | doorbell =>
      refine .inl ?_
      show Quiet s (if s.free then { s with batch := s.tasks, tasks := [] } else s)
      split
      · exact ⟨rfl, rfl, rfl, rfl, rfl, rfl, rfl⟩
      · exact hsame
  | task =>
      cases hb : s.batch with
      | nil =>
          refine .inl ?_
          rw [step]
          rw [hb]
          exact hsame
      | cons t rest =>
          cases hl : s.left with
          | true =>
              refine .inl ?_
              rw [step]
              rw [hb, hl]
              exact hsame
          | false =>
              refine .inr (.inr (.inr (.inr ⟨t, rest, rfl, rfl, ?_⟩)))
              rw [step]
              rw [hb, hl]
              rfl
  | check =>
      refine .inl ?_
      show Quiet s (if s.free ∧ s.loopRunning = false then { s with left := true } else s)
      split
      · exact ⟨rfl, rfl, rfl, rfl, rfl, rfl, rfl⟩
      · exact hsame

/-- The constructor. -/
def create (cfgs : Fin n → ServiceConfig) : Sup n :=
  { services := fun i => { cfg := cfgs i }, uptime := fun i => { name := (cfgs i).name } }

/-- `start`, up to the moment the thread runs the loop. -/
def start (K : Kernel) (cfgs : Fin n → ServiceConfig) : Sup n :=
  forServices (spawn K) (create cfgs)

def run (K : Kernel) (cfgs : Fin n → ServiceConfig) (ls : List Label) : Sup n :=
  ls.foldl (step K) (start K cfgs)

end Sup

end CastlePlus
