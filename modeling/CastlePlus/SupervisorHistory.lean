import CastlePlus.StatusTables
import CastlePlus.SupervisorBreaker
import CastlePlus.SupervisorManifest
import CastlePlus.SupervisorShutdown
import Mathlib.Logic.Relation

/-! # The failure history and `backendstatus`

    `render_backend_status` prints, for each service, counters and times that the handlers keep up
    one by one: `failure_count`, `ever_failed`, `last_failure_mono`, `restart_count`, and the deque
    of the circuit breaker, which it filters by age without pruning it.

    * `Edit` lists what a handler can do to these fields and to the log of events; every step is a
      sequence of edits (`step_edits`);
    * `Ledger`: the counters agree with the log.  So every figure of a row is the one that the log
      gives (**`backend_row_from_log`**). -/

namespace CastlePlus

open Relation

namespace Sup

variable {n : Nat}

/-! ## The log -/

def failureOf (i : Fin n) : Event n → Option Int
  | .failure j t => if j = i then some t else none
  | _ => none

/-- All failures of `i`. -/
def failuresOf (i : Fin n) (log : List (Event n)) : List Int := log.filterMap (failureOf i)

/-- `schedule_restart` follows the event: a `fork` that failed, or a child that did. -/
def retries (i : Fin n) : Event n → Bool
  | .forkFailed j => j = i
  | .branch j _ .backoff => j = i
  | _ => false

/-- What the operator's restarts leave of the failures are the last of them. -/
theorem failuresSince_suffix (i : Fin n) (log : List (Event n)) :
    failuresSince i log <:+ failuresOf i log := by
  induction log using List.reverseRecOn with
  | nil => exact List.suffix_refl _
  | append_singleton log e ih =>
      rw [failuresSince_concat, failuresOf, List.filterMap_append]
      cases e with
      | failure j t =>
          by_cases hj : j = i
          · rw [failureEvent, if_pos hj]
            have hone : List.filterMap (failureOf i) [Event.failure j t] = [t] := by
              simp [failureOf, hj]
            rw [hone]
            obtain ⟨pre, hpre⟩ := ih
            exact ⟨pre, by rw [← List.append_assoc, hpre, failuresOf]⟩
          · rw [failureEvent, if_neg hj]
            have hnone : List.filterMap (failureOf i) [Event.failure j t] = [] := by
              simp [failureOf, hj]
            rw [hnone, List.append_nil]
            exact ih
      | restarted j =>
          have hnone : List.filterMap (failureOf i) [(Event.restarted j : Event n)] = [] := rfl
          rw [failureEvent, hnone, List.append_nil]
          split
          · exact List.nil_suffix
          · exact ih
      | forked j pid => exact (List.append_nil _).symm ▸ ih
      | forkFailed j => exact (List.append_nil _).symm ▸ ih
      | exited pid => exact (List.append_nil _).symm ▸ ih
      | reaped pid => exact (List.append_nil _).symm ▸ ih
      | branch j pid b => exact (List.append_nil _).symm ▸ ih
      | killed pid sig => exact (List.append_nil _).symm ▸ ih
      | shutdown => exact (List.append_nil _).symm ▸ ih
      | stop => exact (List.append_nil _).symm ▸ ih

/-! ## Edits -/

end Sup

/-- The fields that are kept up for the tables. -/
structure Tally where
  failureCount : Int
  everFailed : Bool
  lastFailureMono : Int
  restartCount : Int

def Service.tally (v : Service) : Tally :=
  ⟨v.failureCount, v.everFailed, v.lastFailureMono, v.restartCount⟩

namespace Sup

variable {n : Nat} {K : Kernel} {s s' : Sup n} {i j : Fin n}

/-- An event that no tally counts. -/
def Uncounted (e : Event n) : Prop := ∀ i, failureOf i e = none ∧ retries i e = false

/-- What a handler does to the tallies and the log, one thing at a time. -/
inductive Edit (K : Kernel) (s : Sup n) : Sup n → Prop where
  /-- anything that leaves the tallies alone -/
  | write {s' : Sup n} (hserv : ∀ j, (s'.services j).tally = (s.services j).tally)
      (hlog : ∃ ext, s'.log = s.log ++ ext ∧ ∀ e ∈ ext, Uncounted e) : Edit K s s'
  /-- a failed launch, or a failed child, and the restart that follows -/
  | retry (j : Fin n) (e : Event n)
      (he : ∀ i, failureOf i e = none ∧ retries i e = decide (j = i)) :
      Edit K s (scheduleRestart K j (record e s))
  | failure (j : Fin n) (status : WaitStatus) : Edit K s (recordFailure K j status s)

/-- A sequence of edits. -/
def Edits (K : Kernel) : Sup n → Sup n → Prop := ReflTransGen (Edit K)

theorem Edits.trans {s'' : Sup n} (h : Edits K s s') (h' : Edits K s' s'') : Edits K s s'' :=
  ReflTransGen.trans h h'

theorem edits_write (hserv : ∀ j, (s'.services j).tally = (s.services j).tally)
    (hlog : ∃ ext, s'.log = s.log ++ ext ∧ ∀ e ∈ ext, Uncounted e) : Edits K s s' :=
  ReflTransGen.single (.write hserv hlog)

/-- Only fields outside `services_` and the log have changed. -/
theorem edits_of_eq (hserv : s'.services = s.services) (hlog : s'.log = s.log) :
    Edits K s s' :=
  edits_write (fun j => by rw [hserv])
    ⟨[], by rw [hlog, List.append_nil], fun e he => absurd he List.not_mem_nil⟩

theorem edits_record {e : Event n} (he : Uncounted e) : Edits K s (record e s) :=
  edits_write (fun _ => rfl) ⟨[e], rfl, fun e' he' => by rwa [List.mem_singleton.mp he']⟩

theorem edits_setService {v : Service} (hv : v.tally = (s.services i).tally) :
    Edits K s (s.setService i v) := by
  refine edits_write (fun j => ?_) ⟨[], (List.append_nil _).symm, fun e he => (by cases he)⟩
  by_cases hj : j = i
  · rw [hj, setService_self, hv]
  · rw [setService_of_ne hj]

theorem edits_spawn : Edits K s (spawn K i s) := by
  rw [spawn]
  cases K.fork s.forks s.unreaped with
  | none =>
      have hforks : Edits K s { s with forks := s.forks + 1 } := edits_of_eq rfl rfl
      exact hforks.trans (ReflTransGen.single (.retry i (.forkFailed i) fun k => ⟨rfl, rfl⟩))
  | some pid =>
      have hset : Edits K s (s.setService i { s.services i with
          pid := pid, state := .running, isDown := false, lastStart := K.clock s.reads }) :=
        edits_setService rfl
      have hrec := hset.trans (edits_record (e := .forked i pid) fun k => ⟨rfl, rfl⟩)
      exact hrec.trans (edits_of_eq rfl rfl)

theorem edits_markDown : Edits K s (markDown K i s) := by
  dsimp only [markDown]
  split
  · exact ReflTransGen.refl
  · have hset : Edits K s (s.setService i { s.services i with
        isDown := true, downSinceMono := K.clock s.reads, downSinceWall := K.wall s.reads }) :=
      edits_setService rfl
    exact hset.trans (edits_of_eq rfl rfl)

theorem edits_cleared : Edits K s (cleared i s) := by
  refine edits_write (fun j => ?_) ⟨[], (List.append_nil _).symm, fun e he => (by cases he)⟩
  by_cases hj : j = i
  · rw [hj, cleared_self]
    rfl
  · rw [cleared_of_ne hj]

/-- A branch of the reap loop writes the state and is logged. -/
theorem edits_branch {v : Service} {pid : Int} {b : Branch} (hv : v.tally = (s.services i).tally)
    (hb : b ≠ .backoff) : Edits K s (record (.branch i pid b) (s.setService i v)) := by
  refine (edits_setService hv).trans (edits_record fun k => ⟨rfl, ?_⟩)
  cases b with
  | backoff => exact absurd rfl hb
  | stopped => rfl
  | relaunched => rfl
  | failed => rfl
  | quarantined => rfl

theorem edits_unexpectedExit {pid : Int} {status : WaitStatus} :
    Edits K s (unexpectedExit K i pid status s) := by
  have hfail : Edits K s (recordFailure K i status s) := ReflTransGen.single (.failure i status)
  dsimp only [unexpectedExit]
  split
  · refine Edits.trans ?_ edits_markDown
    exact hfail.trans (edits_branch (b := .failed) rfl (by decide))
  · split
    · refine Edits.trans ?_ edits_markDown
      exact hfail.trans (edits_branch (b := .quarantined) rfl (by decide))
    · exact hfail.trans (ReflTransGen.single (.retry i (.branch i pid .backoff)
        fun k => ⟨rfl, rfl⟩))

theorem edits_reapService {pid : Int} {status : WaitStatus} :
    Edits K s (reapService K i pid status s) := by
  have hclear : Edits K s (cleared i s) := edits_cleared
  rw [reapService_eq]
  split
  · exact hclear.trans (edits_branch (b := .stopped) rfl (by decide))
  · split
    · refine Edits.trans ?_ edits_spawn
      exact hclear.trans (edits_branch (b := .relaunched) rfl (by decide))
    · exact hclear.trans edits_unexpectedExit

theorem edits_finishIfDrained : Edits K s (finishIfDrained s) := by
  rw [finishIfDrained]
  split
  · exact ReflTransGen.refl
  · have hrun : Edits K s { s with loopRunning := false } := edits_of_eq rfl rfl
    exact hrun.trans (edits_record fun k => ⟨rfl, rfl⟩)

theorem edits_waitpid {k : Nat} : Edits K s (waitpid K k s) := by
  rw [waitpid]
  split
  · split
    · have hidle : Edits K s { s with pc := .idle } := edits_of_eq rfl rfl
      dsimp only
      split
      · exact hidle.trans edits_finishIfDrained
      · exact hidle
    · cases s.dead[k]? with
      | none => exact ReflTransGen.refl
      | some d =>
          have hdead : Edits K s { s with dead := s.dead.eraseIdx k } := edits_of_eq rfl rfl
          have hcol : Edits K s (s.collect d.1 k) :=
            hdead.trans (edits_record (e := .reaped d.1) fun k => ⟨rfl, rfl⟩)
          show Edits K s (reapChild K d.1 d.2 (s.collect d.1 k))
          rw [reapChild]
          split
          · exact hcol
          · exact hcol.trans edits_reapService
  · exact ReflTransGen.refl

theorem edits_forServices {f : Fin n → Sup n → Sup n} (hf : ∀ j s, Edits K s (f j s)) :
    Edits K s (forServices f s) :=
  forServices_inv (P := Edits K s) (fun j t ht => ht.trans (hf j t)) ReflTransGen.refl

theorem edits_tickService {now : Int} : Edits K s (tickService K now i s) := by
  have hrelaunch : Edits K s (relaunchIfDue K now i s) := by
    rw [relaunchIfDue]
    split
    · exact edits_spawn
    · exact ReflTransGen.refl
  refine hrelaunch.trans ?_
  show Edits K _ (checkHealth K now i (relaunchIfDue K now i s))
  dsimp only [checkHealth]
  split
  · have hset : Edits K (relaunchIfDue K now i s) ((relaunchIfDue K now i s).setService i
        { (relaunchIfDue K now i s).services i with
          healthy := K.probe (relaunchIfDue K now i s).probes
            ((relaunchIfDue K now i s).services i).cfg.healthHost
            ((relaunchIfDue K now i s).services i).cfg.healthPort,
          healthKnown := true, lastHealth := now }) := edits_setService rfl
    exact hset.trans (edits_of_eq rfl rfl)
  · exact ReflTransGen.refl

theorem edits_kill {p : Int} {sig : Signal} : Edits K s (record (.killed p sig) s) :=
  edits_record fun _ => ⟨rfl, rfl⟩

theorem edits_killService {sig : Signal} : Edits K s (killService sig i s) := by
  rw [killService]
  split
  · exact edits_kill
  · exact ReflTransGen.refl

theorem edits_stopService : Edits K s (stopService i s) := by
  rw [stopService]
  split
  · exact edits_kill
  · exact edits_setService rfl

theorem edits_onTick : Edits K s (onTick K s) := by
  have hread : Edits K s { s with reads := s.reads + 1 } := edits_of_eq rfl rfl
  dsimp only [onTick]
  split
  · refine (hread.trans ?_).trans edits_finishIfDrained
    split
    · exact edits_forServices fun j t => edits_killService
    · exact ReflTransGen.refl
  · exact hread.trans (edits_forServices fun j t => edits_tickService)

theorem edits_beginShutdown : Edits K s (beginShutdown K s) := by
  have harm : Edits K s (armShutdown K s) := by
    have hflag : Edits K s { s with
        shuttingDown := true, killDeadline := K.clock s.reads + kGraceSec * nanos,
        reads := s.reads + 1 } := edits_of_eq rfl rfl
    exact hflag.trans (edits_record fun k => ⟨rfl, rfl⟩)
  exact (harm.trans (edits_forServices fun j t => edits_stopService)).trans edits_finishIfDrained

theorem edits_doRestart {name : String} : Edits K s (doRestart K name s).2 := by
  rw [doRestart]
  cases s.findByName name with
  | none => exact ReflTransGen.refl
  | some j =>
      have hset : Edits K s (s.setService j { s.services j with recentFailures := [] }) :=
        edits_setService rfl
      have hclear : Edits K s (clearBreaker j s) :=
        hset.trans (edits_record (e := .restarted j) fun k => ⟨rfl, rfl⟩)
      dsimp only
      split
      · refine Edits.trans ?_ edits_kill
        exact hclear.trans (edits_setService rfl)
      · refine Edits.trans ?_ edits_spawn
        exact hclear.trans (edits_setService rfl)

/-- Every step is a sequence of edits. -/
theorem step_edits (l : Label) : Edits K s (step K s l) := by
  rcases step_cases K s l with hq | ⟨pid, status, -, heq⟩ | ⟨k, -, heq⟩ | ⟨-, -, heq⟩ |
    ⟨t, rest, -, -, heq⟩
  · exact edits_of_eq hq.services hq.log
  · rw [heq, exitChild]
    split
    · have hlive : Edits K s { s with
          live := s.live.erase pid, dead := s.dead ++ [(pid, status)], sigPending := true } :=
        edits_of_eq rfl rfl
      exact hlive.trans (edits_record fun k => ⟨rfl, rfl⟩)
    · exact ReflTransGen.refl
  · rw [heq]
    exact edits_waitpid
  · rw [heq]
    exact edits_onTick
  · have hnext : Edits K s { s with batch := rest } := edits_of_eq rfl rfl
    rw [heq]
    cases t with
    | beginShutdown => exact hnext.trans edits_beginShutdown
    | restart name => exact hnext.trans edits_doRestart

/-! ## The ledger -/

/-- The tally of a service is the one that the log gives. -/
structure Ledger (i : Fin n) (s : Sup n) : Prop where
  failures : (s.services i).failureCount = (failuresOf i s.log).length
  ever : (s.services i).everFailed = !(failuresOf i s.log).isEmpty
  last : ∀ t ∈ (failuresOf i s.log).getLast?, (s.services i).lastFailureMono = t
  restarts : (s.services i).restartCount = s.log.countP (retries i)

theorem failuresOf_append (i : Fin n) (xs ys : List (Event n)) :
    failuresOf i (xs ++ ys) = failuresOf i xs ++ failuresOf i ys := List.filterMap_append ..

theorem failuresOf_uncounted {ext : List (Event n)} (h : ∀ e ∈ ext, failureOf i e = none) :
    failuresOf i ext = [] := List.filterMap_eq_nil_iff.mpr h

theorem Ledger.edit (h : Ledger i s) (he : Edit K s s') : Ledger i s' := by
  cases he with
  | write hserv hlog =>
      obtain ⟨ext, hext, hplain⟩ := hlog
      have htally := hserv i
      -- nothing that counts goes into the log, and no tally moves
      have hfail : failuresOf i s'.log = failuresOf i s.log := by
        rw [hext, failuresOf_append, failuresOf_uncounted fun e he => (hplain e he i).1,
          List.append_nil]
      have hcount : s'.log.countP (retries i) = s.log.countP (retries i) := by
        have hext0 : ext.countP (retries i) = 0 :=
          List.countP_eq_zero.mpr fun e he => by rw [(hplain e he i).2]; decide
        rw [hext, List.countP_append, hext0, Nat.add_zero]
      refine ⟨?_, ?_, ?_, ?_⟩
      · rw [hfail, ← h.failures]
        exact congrArg Tally.failureCount htally
      · rw [hfail, ← h.ever]
        exact congrArg Tally.everFailed htally
      · rw [hfail]
        intro t ht
        rw [← h.last t ht]
        exact congrArg Tally.lastFailureMono htally
      · rw [hcount, ← h.restarts]
        exact congrArg Tally.restartCount htally
  | retry j e he =>
      -- one more retry of service `j`, in the log and in its tally
      obtain ⟨hnone, hretry⟩ := he i
      have hfail : failuresOf i (s.log ++ [e]) = failuresOf i s.log := by
        have hempty : failuresOf i [e] = [] := failuresOf_uncounted fun e' he' =>
          (congrArg (failureOf i) (List.mem_singleton.mp he')).trans hnone
        rw [failuresOf_append, hempty, List.append_nil]
      have hcount : (s.log ++ [e]).countP (retries i) =
          s.log.countP (retries i) + if j = i then 1 else 0 := by
        rw [List.countP_append, List.countP_singleton, hretry]
        by_cases hj : j = i
        · simp [hj]
        · simp [hj]
      have hlog : (scheduleRestart K j (record e s)).log = s.log ++ [e] := rfl
      have htally : ((scheduleRestart K j (record e s)).services i).tally =
          { (s.services i).tally with
            restartCount := (s.services i).restartCount + if j = i then 1 else 0 } := by
        by_cases hj : i = j
        · rw [if_pos hj.symm, hj]
          exact congrArg Service.tally setService_self
        · have hne : ¬ j = i := fun h => hj h.symm
          rw [if_neg hne, Int.add_zero]
          exact congrArg Service.tally (setService_of_ne hj)
      refine ⟨?_, ?_, ?_, ?_⟩
      · rw [hlog, hfail, ← h.failures]
        exact congrArg Tally.failureCount htally
      · rw [hlog, hfail, ← h.ever]
        exact congrArg Tally.everFailed htally
      · rw [hlog, hfail]
        intro t ht
        rw [← h.last t ht]
        exact congrArg Tally.lastFailureMono htally
      · rw [hlog, hcount]
        refine (congrArg Tally.restartCount htally).trans ?_
        show (s.services i).restartCount + (if j = i then 1 else 0) = _
        rw [h.restarts]
        split <;> rfl
  | failure j status =>
      have hlog : (recordFailure K j status s).log = s.log ++ [.failure j (K.clock s.reads)] := rfl
      have hcount : (s.log ++ [Event.failure j (K.clock s.reads)]).countP (retries i) =
          s.log.countP (retries i) := List.countP_append ..
      by_cases hj : i = j
      · -- a failure of service `i` itself
        have hfail : failuresOf i (s.log ++ [Event.failure j (K.clock s.reads)]) =
            failuresOf i s.log ++ [K.clock s.reads] := by
          rw [failuresOf_append]
          congr 1
          simp [failuresOf, failureOf, hj]
        have htally : ((recordFailure K j status s).services i).tally =
            ⟨(s.services i).failureCount + 1, true, K.clock s.reads,
              (s.services i).restartCount⟩ := by
          rw [hj]
          exact congrArg Service.tally setService_self
        refine ⟨?_, ?_, ?_, ?_⟩
        · rw [hlog, hfail, List.length_append]
          refine (congrArg Tally.failureCount htally).trans ?_
          show (s.services i).failureCount + 1 = _
          rw [h.failures]
          rfl
        · rw [hlog, hfail]
          refine (congrArg Tally.everFailed htally).trans ?_
          simp
        · rw [hlog, hfail]
          intro t ht
          rw [List.getLast?_concat, Option.mem_some_iff] at ht
          exact (congrArg Tally.lastFailureMono htally).trans ht
        · rw [hlog, hcount, ← h.restarts]
          exact congrArg Tally.restartCount htally
      · -- a failure of another: the tally of `i` stays
        have hne : ¬ j = i := fun h => hj h.symm
        have hfail : failuresOf i (s.log ++ [Event.failure j (K.clock s.reads)]) =
            failuresOf i s.log := by
          have hempty : failuresOf i [Event.failure j (K.clock s.reads)] = [] :=
            failuresOf_uncounted fun e he =>
              (congrArg (failureOf i) (List.mem_singleton.mp he)).trans (if_neg hne)
          rw [failuresOf_append, hempty, List.append_nil]
        have hsame : (recordFailure K j status s).services i = s.services i :=
          setService_of_ne hj
        refine ⟨?_, ?_, ?_, ?_⟩
        · rw [hlog, hfail, hsame]
          exact h.failures
        · rw [hlog, hfail, hsame]
          exact h.ever
        · rw [hlog, hfail, hsame]
          exact h.last
        · rw [hlog, hcount, hsame]
          exact h.restarts

theorem Ledger.edits (h : Ledger i s) (he : Edits K s s') : Ledger i s' := by
  induction he with
  | refl => exact h
  | tail _ hstep ih => exact ih.edit hstep

theorem ledger_run (K : Kernel) (cfgs : Fin n → ServiceConfig) (ls : List Label) (i : Fin n) :
    Ledger i (run K cfgs ls) := by
  refine run_inv (P := Ledger i) ?_ (fun s l hs => hs.edits (step_edits l)) ls
  have hcreate : Ledger i (create cfgs) :=
    ⟨rfl, rfl, fun t ht => (by cases ht), rfl⟩
  exact hcreate.edits (edits_forServices fun j t => edits_spawn)

/-! ## The figures of a row -/

/-- The line of `i`, with its figures taken from the log. -/
def rowFromLog (i : Fin n) (now : Int) (s : Sup n) : Bytes :=
  let v := s.services i
  formatBackendRow (ascii v.cfg.name) (stateName v.state)
    (if v.pid ∈ childrenOf s.log then humanDuration (seconds (now - v.lastStart)) else ascii "-")
    (countWithin kRecentWindow now (failuresSince i s.log))
    (countWithin kFailureWindow now (failuresSince i s.log))
    (failuresOf i s.log).length
    (match (failuresOf i s.log).getLast? with
      | none => ascii "-"
      | some t => agoText now t (ascii v.lastFailureReason))

/-- What the deque has lost is older than any of the two windows. -/
theorem countWithin_recent {w : Int} (hw : w ≤ kFailureWindow) (h : Windowed K s i) :
    countWithin w (K.clock s.reads) (s.services i).recentFailures =
      countWithin w (K.clock s.reads) (failuresSince i s.log) := by
  obtain ⟨old, hsplit, hold⟩ := h.split
  have hzero : old.countP (fun t => decide (K.clock s.reads - t ≤ w)) = 0 := by
    refine List.countP_eq_zero.mpr fun t ht => ?_
    have := hold t ht
    rw [decide_eq_true_eq]
    omega
  rw [hsplit, countWithin, countWithin, List.countP_append, hzero, Nat.zero_add]

/-- **Backend status.**  In every reachable state each line of `backendstatus` is the one that the
    log of events gives: an uptime exactly for the services with a child that is not reaped, the
    failures since the operator's last restart that are at most an hour and at most a day old, the
    number of all failures ever, and the age of the last of them.  The three figures never
    decrease from left to right.  `failure_count` is an `int`: it holds the number as long as
    there have been fewer than 2^31 failures. -/
theorem backend_row_from_log (K : Kernel) (cfgs : Fin n → ServiceConfig) (ls : List Label)
    (i : Fin n) :
    let s := run K cfgs ls
    let now := K.clock s.reads
    backendRow now (s.services i) = rowFromLog i now s ∧
      countWithin kRecentWindow now (failuresSince i s.log) ≤
        countWithin kFailureWindow now (failuresSince i s.log) ∧
      countWithin kFailureWindow now (failuresSince i s.log) ≤ (failuresOf i s.log).length ∧
      ((failuresOf i s.log).length < 2 ^ 31 → (s.services i).failureCount < 2 ^ 31) := by
  intro s now
  have hl : Ledger i s := ledger_run K cfgs ls i
  have hw : Windowed K s i := windowed_run K cfgs ls i
  have ht : Tracked s := tracked_run K cfgs ls
  have hle : kRecentWindow ≤ kFailureWindow := by decide
  -- the test of the state adds nothing: a service with a child is running
  have hup : (0 < (s.services i).pid ∧ (s.services i).state = .running) ↔
      (s.services i).pid ∈ childrenOf s.log := by
    rw [(ht.fine i).state, and_self, ht.books.tracked]
    exact ⟨fun h => ⟨h, i, rfl⟩, fun h => h.1⟩
  have hlast : (if (s.services i).everFailed then
        agoText now (s.services i).lastFailureMono (ascii (s.services i).lastFailureReason)
      else ascii "-") =
      (match (failuresOf i s.log).getLast? with
        | none => ascii "-"
        | some t => agoText now t (ascii (s.services i).lastFailureReason)) := by
    cases hg : (failuresOf i s.log).getLast? with
    | none =>
        have hever := hl.ever
        rw [List.getLast?_eq_none_iff.mp hg] at hever
        rw [hever]
        rfl
    | some t =>
        have hever : (s.services i).everFailed = true := by
          rw [hl.ever]
          cases hf : failuresOf i s.log with
          | nil => rw [hf] at hg; cases hg
          | cons a rest => rfl
        rw [hever, hl.last t hg]
        rfl
  refine ⟨?_, ?_, ?_, fun hfew => ?_⟩
  · rw [backendRow, rowFromLog]
    rw [countWithin_recent hle hw, countWithin_recent (le_refl _) hw, hl.failures, hlast]
    by_cases hp : (s.services i).pid ∈ childrenOf s.log
    · rw [if_pos hp, if_pos (hup.mpr hp)]
    · rw [if_neg hp, if_neg (mt hup.mp hp)]
  · refine List.countP_mono_left fun t _ hrecent => ?_
    have := of_decide_eq_true hrecent
    exact decide_eq_true (le_trans this hle)
  · exact le_trans List.countP_le_length (failuresSince_suffix i s.log).length_le
  · rw [hl.failures]
    exact_mod_cast hfew

/-! ## `services` -/

end Sup

end CastlePlus
