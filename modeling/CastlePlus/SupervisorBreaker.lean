import CastlePlus.SupervisorSignals

/-! # The failure circuit breaker

    `recent_failures` is pruned lazily, from the front, and its size stands for
    the number of failures in the last 24 hours.

    * `Windowed`: the deque is what remains of all failures since the operator's
      last restart once those too old have been cut off the front;
    * `breaker_exact`: so the breaker trips on the sixth failure in the window
      and on no other; a service that tripped it, or that failed with autorestart
      off, is launched again by the operator only; and a tick launches a service
      in backoff only when it is due. -/

namespace CastlePlus

open HandleLog

namespace Sup

variable {n : Nat}

def failureEvent (i : Fin n) (ts : List Int) : Event n → List Int
  | .failure j t => if j = i then ts ++ [t] else ts
  | .restarted j => if j = i then [] else ts
  | _ => ts

/-- The failures of `i` since the operator last restarted it. -/
def failuresSince (i : Fin n) (log : List (Event n)) : List Int :=
  log.foldl (failureEvent i) []

/-- `τ` lies in the 24 hours up to `t`. -/
def inWindow (t τ : Int) : Bool := decide (t - kFailureWindow ≤ τ ∧ τ ≤ t)

theorem failuresSince_concat (i : Fin n) (log : List (Event n)) (e : Event n) :
    failuresSince i (log ++ [e]) = failureEvent i (failuresSince i log) e := by
  rw [failuresSince]
  rw [List.foldl_append]
  rfl

/-! ## The window -/

/-- Dropping from the front of a sorted list drops everything that is too old. -/
theorem dropWhile_sorted {now w : Int} {l : List Int} (h : l.Pairwise (· ≤ ·)) :
    ∀ τ ∈ l.dropWhile (fun t => w < now - t), now - τ ≤ w := by
  induction l with
  | nil => intro τ hτ; cases hτ
  | cons a l ih =>
      obtain ⟨hle, hl⟩ := List.pairwise_cons.mp h
      intro τ hτ
      by_cases hold : w < now - a
      · rw [List.dropWhile_cons_of_pos (by simpa using hold)] at hτ
        exact ih hl τ hτ
      · rw [List.dropWhile_cons_of_neg (by simpa using hold)] at hτ
        rcases List.mem_cons.mp hτ with rfl | hτ
        · omega
        · have := hle τ hτ
          omega

structure Windowed (K : Kernel) (s : Sup n) (i : Fin n) : Prop where
  split : ∃ old, failuresSince i s.log = old ++ (s.services i).recentFailures ∧
    ∀ τ ∈ old, kFailureWindow < K.clock s.reads - τ
  sorted : (failuresSince i s.log).Pairwise (· ≤ ·)
  past : ∀ τ ∈ failuresSince i s.log, τ ≤ K.clock s.reads

/-- Neither the failures of a service nor its deque have changed. -/
structure Unbroken (i : Fin n) (s s' : Sup n) : Prop where
  recent : (s'.services i).recentFailures = (s.services i).recentFailures
  history : failuresSince i s'.log = failuresSince i s.log
  reads : s.reads ≤ s'.reads

variable {s s' s'' : Sup n} {i j : Fin n} {K : Kernel}

theorem Unbroken.refl (i : Fin n) (s : Sup n) : Unbroken i s s := ⟨rfl, rfl, le_refl _⟩

theorem Unbroken.trans (h : Unbroken i s s') (h' : Unbroken i s' s'') : Unbroken i s s'' :=
  ⟨h'.recent.trans h.recent, h'.history.trans h.history, le_trans h.reads h'.reads⟩

theorem Windowed.unbroken (h : Windowed K s i) (hu : Unbroken i s s') : Windowed K s' i := by
  have hclock : K.clock s.reads ≤ K.clock s'.reads := K.clock_mono hu.reads
  obtain ⟨old, hsplit, hold⟩ := h.split
  refine ⟨⟨old, by rw [hu.history, hu.recent]; exact hsplit, fun τ hτ => ?_⟩, ?_, fun τ hτ => ?_⟩
  · have := hold τ hτ
    omega
  · rw [hu.history]
    exact h.sorted
  · rw [hu.history] at hτ
    exact le_trans (h.past τ hτ) hclock

theorem unbroken_record {e : Event n} (he : ∀ ts, failureEvent i ts e = ts) :
    Unbroken i s (s.record e) :=
  ⟨rfl, (failuresSince_concat i s.log e).trans (he _), le_refl _⟩

theorem unbroken_setService {v : Service}
    (hv : v.recentFailures = (s.services j).recentFailures) : Unbroken i s (s.setService j v) := by
  refine ⟨?_, rfl, le_refl _⟩
  by_cases hij : i = j
  · subst hij
    rw [setService_self, hv]
  · rw [setService_of_ne hij]

theorem unbroken_scheduleRestart : Unbroken i s (scheduleRestart K j s) := by
  have hset : Unbroken i s (s.setService j { s.services j with
      currentBackoffSec := nextBackoff (s.services j) (K.clock s.reads),
      restartCount := (s.services j).restartCount + 1, state := .backoff,
      nextRestart := K.clock s.reads
        + nextBackoff (s.services j) (K.clock s.reads) * nanos }) := unbroken_setService rfl
  exact ⟨hset.1, hset.2, Nat.le_succ _⟩

theorem unbroken_spawn : Unbroken i s (spawn K j s) := by
  rw [spawn]
  cases K.fork s.forks s.unreaped with
  | none =>
      have hrec : Unbroken i s (record (.forkFailed j) { s with forks := s.forks + 1 }) := by
        have := unbroken_record (s := s) (i := i) (e := .forkFailed j) fun _ => rfl
        exact ⟨this.1, this.2, this.3⟩
      exact hrec.trans unbroken_scheduleRestart
  | some pid =>
      have hset : Unbroken i s (s.setService j { s.services j with
          pid := pid, state := .running, isDown := false, lastStart := K.clock s.reads }) :=
        unbroken_setService rfl
      have hrec := hset.trans (unbroken_record (e := .forked j pid) fun _ => rfl)
      exact ⟨hrec.1, hrec.2, Nat.le_succ _⟩

theorem unbroken_markDown : Unbroken i s (markDown K j s) := by
  rw [markDown]
  dsimp only
  split
  · exact Unbroken.refl i s
  · have hset : Unbroken i s (s.setService j { s.services j with
        isDown := true, downSinceMono := K.clock s.reads, downSinceWall := K.wall s.reads }) :=
      unbroken_setService rfl
    exact ⟨hset.1, hset.2, Nat.le_succ _⟩

theorem unbroken_cleared : Unbroken i s (cleared j s) := by
  refine ⟨?_, rfl, le_refl _⟩
  by_cases hij : i = j
  · subst hij
    rw [cleared_self]
  · rw [cleared_of_ne hij]

/-- A failure enters the deque, and what is too old leaves it: its length is the
    number of failures in the window. -/
theorem recordFailure_windowed (status : WaitStatus) (h : Windowed K s i) :
    Windowed K (recordFailure K i status s) i ∧
    failuresSince i (recordFailure K i status s).log = failuresSince i s.log ++ [K.clock s.reads] ∧
    ((recordFailure K i status s).services i).recentFailures.length =
      (failuresSince i (recordFailure K i status s).log).countP (inWindow (K.clock s.reads)) := by
  obtain ⟨old, hsplit, hold⟩ := h.split
  have hhist : failuresSince i (recordFailure K i status s).log =
      failuresSince i s.log ++ [K.clock s.reads] := by
    refine (failuresSince_concat i s.log (.failure i (K.clock s.reads))).trans ?_
    exact if_pos rfl
  have hdeque : ((recordFailure K i status s).services i).recentFailures =
      ((s.services i).recentFailures ++ [K.clock s.reads]).dropWhile
        fun t => kFailureWindow < K.clock s.reads - t := by
    show (Function.update s.services i _ i).recentFailures = _
    rw [Function.update_self]
    rfl
  have hsorted : (failuresSince i s.log ++ [K.clock s.reads]).Pairwise (· ≤ ·) := by
    rw [List.pairwise_append]
    refine ⟨h.sorted, List.pairwise_singleton .., fun a ha b hb => ?_⟩
    rw [List.mem_singleton] at hb
    rw [hb]
    exact h.past a ha
  have hpast : ∀ τ ∈ failuresSince i s.log ++ [K.clock s.reads], τ ≤ K.clock s.reads := by
    intro τ hτ
    rcases List.mem_append.mp hτ with hτ | hτ
    · exact h.past τ hτ
    · rw [List.mem_singleton] at hτ
      exact le_of_eq hτ
  have hclock : K.clock s.reads ≤ K.clock (s.reads + 1) := K.clock_mono (Nat.le_succ _)
  -- what the deque held splits into what is dropped now and what is kept
  obtain ⟨cut, hcut⟩ := List.dropWhile_suffix
    (fun t => decide (kFailureWindow < K.clock s.reads - t))
    (l := (s.services i).recentFailures ++ [K.clock s.reads])
  have hdropped : ∀ τ ∈ cut, kFailureWindow < K.clock s.reads - τ := by
    intro τ hτ
    have htake : cut = ((s.services i).recentFailures ++ [K.clock s.reads]).takeWhile
        fun t => decide (kFailureWindow < K.clock s.reads - t) := by
      have hsplit := List.takeWhile_append_dropWhile
        (p := fun t => decide (kFailureWindow < K.clock s.reads - t))
        (l := (s.services i).recentFailures ++ [K.clock s.reads])
      exact List.append_cancel_right (hcut.trans hsplit.symm)
    rw [htake] at hτ
    have hall := List.all_takeWhile
      (p := fun t => decide (kFailureWindow < K.clock s.reads - t))
      (l := (s.services i).recentFailures ++ [K.clock s.reads])
    simpa using List.all_eq_true.mp hall τ hτ
  have hfull : failuresSince i s.log ++ [K.clock s.reads] =
      (old ++ cut) ++ ((recordFailure K i status s).services i).recentFailures := by
    rw [hdeque, List.append_assoc, hcut, hsplit, List.append_assoc]
  have hkept : ∀ τ ∈ ((recordFailure K i status s).services i).recentFailures,
      K.clock s.reads - τ ≤ kFailureWindow := by
    rw [hdeque]
    have hdeq : ((s.services i).recentFailures ++ [K.clock s.reads]).Pairwise (· ≤ ·) := by
      rw [hsplit, List.append_assoc] at hsorted
      exact (List.pairwise_append.mp hsorted).2.1
    exact dropWhile_sorted hdeq
  refine ⟨⟨⟨old ++ cut, by rw [hhist, hfull], fun τ hτ => ?_⟩, ?_, fun τ hτ => ?_⟩, hhist, ?_⟩
  · show kFailureWindow < K.clock (s.reads + 1) - τ
    rcases List.mem_append.mp hτ with hτ | hτ
    · have := hold τ hτ
      omega
    · have := hdropped τ hτ
      omega
  · rw [hhist]
    exact hsorted
  · rw [hhist] at hτ
    exact le_trans (hpast τ hτ) hclock
  · -- what is kept is in the window, what was dropped is not
    rw [hhist, hfull, List.countP_append, List.countP_eq_zero.mpr, List.countP_eq_length.mpr, Nat.zero_add]
    · intro τ hτ
      have hle := hpast τ (by rw [hfull]; exact List.mem_append_right _ hτ)
      have := hkept τ hτ
      simp only [inWindow, decide_eq_true_eq]
      omega
    · intro τ hτ hin
      simp only [inWindow, decide_eq_true_eq] at hin
      rcases List.mem_append.mp hτ with hτ | hτ
      · have := hold τ hτ
        omega
      · have := hdropped τ hτ
        omega

/-- A failure of `j` is no concern of `i`. -/
theorem unbroken_recordFailure {status : WaitStatus} (hij : i ≠ j) :
    Unbroken i s (recordFailure K j status s) := by
  refine ⟨?_, ?_, Nat.le_succ _⟩
  · exact congrArg Service.recentFailures (Function.update_of_ne hij ..)
  · refine (failuresSince_concat i s.log (.failure j (K.clock s.reads))).trans ?_
    exact if_neg (Ne.symm hij)

/-- A branch of the reap loop writes the service back and is logged. -/
theorem unbroken_branch {v : Service} {pid : Int} {b : Branch}
    (hv : v.recentFailures = (s.services j).recentFailures) :
    Unbroken i s (record (.branch j pid b) (s.setService j v)) :=
  (unbroken_setService hv).trans (unbroken_record fun _ => rfl)

theorem unbroken_unexpectedExit_tail {pid : Int} {status : WaitStatus} :
    Unbroken i (recordFailure K j status s) (unexpectedExit K j pid status s) := by
  unfold unexpectedExit
  dsimp only
  split
  · refine Unbroken.trans ?_ unbroken_markDown
    exact unbroken_branch rfl
  · split
    · refine Unbroken.trans ?_ unbroken_markDown
      exact unbroken_branch rfl
    · refine Unbroken.trans ?_ unbroken_scheduleRestart
      exact unbroken_record fun _ => rfl

theorem Windowed.unexpectedExit {pid : Int} {status : WaitStatus} (h : Windowed K s i) :
    Windowed K (unexpectedExit K j pid status s) i := by
  by_cases hij : i = j
  · subst hij
    exact (recordFailure_windowed _ h).1.unbroken unbroken_unexpectedExit_tail
  · exact (h.unbroken (unbroken_recordFailure hij)).unbroken unbroken_unexpectedExit_tail

theorem Windowed.reapService {pid : Int} {status : WaitStatus} (h : Windowed K s i) :
    Windowed K (reapService K j pid status s) i := by
  have hclear := h.unbroken (unbroken_cleared (j := j))
  rw [reapService_eq]
  split
  · exact hclear.unbroken (unbroken_branch rfl)
  · split
    · refine (hclear.unbroken ?_).unbroken unbroken_spawn
      exact unbroken_branch rfl
    · exact hclear.unexpectedExit

theorem unbroken_finishIfDrained : Unbroken i s (finishIfDrained s) := by
  rw [finishIfDrained]
  split
  · exact Unbroken.refl i s
  · have hrec := unbroken_record (s := s) (i := i) (e := .stop) fun _ => rfl
    exact ⟨hrec.1, hrec.2, hrec.3⟩

theorem Windowed.waitpid {k : Nat} (h : Windowed K s i) : Windowed K (waitpid K k s) i := by
  have hidle : Windowed K { s with pc := .idle } i := ⟨h.1, h.2, h.3⟩
  rw [Sup.waitpid]
  split
  · split
    · dsimp only
      split
      · exact hidle.unbroken unbroken_finishIfDrained
      · exact hidle
    · cases s.dead[k]? with
      | none => exact h
      | some d =>
          dsimp only
          have hcol : Windowed K (s.collect d.1 k) i := by
            have hrec := h.unbroken (unbroken_record (e := .reaped d.1) fun _ => rfl)
            exact ⟨hrec.1, hrec.2, hrec.3⟩
          rw [reapChild]
          split
          · exact hcol
          · exact hcol.reapService
  · exact h

theorem unbroken_forServices {f : Fin n → Sup n → Sup n} (hf : ∀ j s, Unbroken i s (f j s)) :
    Unbroken i s (forServices f s) :=
  forServices_inv (P := Unbroken i s) (fun j t ht => ht.trans (hf j t)) (Unbroken.refl i s)

theorem unbroken_tickService {now : Int} : Unbroken i s (tickService K now j s) := by
  have hrelaunch : Unbroken i s (relaunchIfDue K now j s) := by
    rw [relaunchIfDue]
    split
    · exact unbroken_spawn
    · exact Unbroken.refl i s
  refine hrelaunch.trans ?_
  rw [tickService, checkHealth]
  dsimp only
  split
  · have hset := unbroken_setService (i := i) (j := j) (s := relaunchIfDue K now j s)
      (v := { (relaunchIfDue K now j s).services j with
        healthy := K.probe (relaunchIfDue K now j s).probes
          ((relaunchIfDue K now j s).services j).cfg.healthHost
          ((relaunchIfDue K now j s).services j).cfg.healthPort,
        healthKnown := true, lastHealth := now }) rfl
    exact ⟨hset.1, hset.2, hset.3⟩
  · exact Unbroken.refl i _

theorem unbroken_killService {sig : Signal} : Unbroken i s (killService sig j s) := by
  rw [killService]
  split
  · exact unbroken_record fun _ => rfl
  · exact Unbroken.refl i s

theorem unbroken_stopService : Unbroken i s (stopService j s) := by
  rw [stopService]
  split
  · exact unbroken_record fun _ => rfl
  · exact unbroken_setService rfl

theorem unbroken_onTick : Unbroken i s (onTick K s) := by
  have hread : Unbroken i s { s with reads := s.reads + 1 } := ⟨rfl, rfl, Nat.le_succ _⟩
  rw [onTick]
  dsimp only
  split
  · refine Unbroken.trans ?_ unbroken_finishIfDrained
    split
    · exact hread.trans (unbroken_forServices fun j s => unbroken_killService)
    · exact hread
  · exact hread.trans (unbroken_forServices fun j s => unbroken_tickService)

theorem unbroken_beginShutdown : Unbroken i s (beginShutdown K s) := by
  have harm : Unbroken i s (armShutdown K s) :=
    ⟨rfl, failuresSince_concat i s.log .shutdown, Nat.le_succ _⟩
  exact (harm.trans (unbroken_forServices fun j s => unbroken_stopService)).trans
    unbroken_finishIfDrained

/-- The operator's restart starts a new count for its service. -/
theorem Windowed.clearBreaker (h : Windowed K s i) : Windowed K (clearBreaker j s) i := by
  have hhist : failuresSince i (Sup.clearBreaker j s).log =
      if j = i then [] else failuresSince i s.log := failuresSince_concat i s.log (.restarted j)
  by_cases hij : j = i
  · subst hij
    rw [if_pos rfl] at hhist
    refine ⟨⟨[], ?_, fun τ hτ => (by cases hτ)⟩, ?_, fun τ hτ => ?_⟩
    · rw [hhist, clearBreaker_self]
      rfl
    · rw [hhist]
      exact List.Pairwise.nil
    · rw [hhist] at hτ
      cases hτ
  · rw [if_neg hij] at hhist
    refine h.unbroken ⟨?_, hhist, le_refl _⟩
    exact congrArg Service.recentFailures (Function.update_of_ne (Ne.symm hij) ..)

theorem Windowed.doRestart {name : String} (h : Windowed K s i) :
    Windowed K (doRestart K name s).2 i := by
  rw [Sup.doRestart]
  cases s.findByName name with
  | none => exact h
  | some j =>
      have hclear := h.clearBreaker (j := j)
      dsimp only
      split
      · refine (hclear.unbroken ?_).unbroken (unbroken_record fun _ => rfl)
        exact unbroken_setService rfl
      · refine (hclear.unbroken ?_).unbroken unbroken_spawn
        exact unbroken_setService rfl

theorem Windowed.step (h : Windowed K s i) (l : Label) : Windowed K (step K s l) i := by
  rcases step_cases K s l with hq | ⟨pid, status, -, heq⟩ | ⟨k, -, heq⟩ | ⟨-, -, heq⟩ |
    ⟨t, rest, -, -, heq⟩
  · exact h.unbroken ⟨by rw [hq.services], by rw [hq.log], le_of_eq hq.reads.symm⟩
  · rw [heq]
    rw [exitChild]
    split
    · have hrec := h.unbroken (unbroken_record (e := .exited pid) fun _ => rfl)
      exact ⟨hrec.1, hrec.2, hrec.3⟩
    · exact h
  · rw [heq]
    exact h.waitpid
  · rw [heq]
    exact h.unbroken unbroken_onTick
  · have hnext : Windowed K { s with batch := rest } i := ⟨h.1, h.2, h.3⟩
    rw [heq]
    cases t with
    | beginShutdown => exact hnext.unbroken unbroken_beginShutdown
    | restart name => exact hnext.doRestart

theorem windowed_run (K : Kernel) (cfgs : Fin n → ServiceConfig) (ls : List Label) (i : Fin n) :
    Windowed K (run K cfgs ls) i := by
  refine run_inv (P := fun s => Windowed K s i) ?_ (fun s l hs => hs.step l) ls
  have hcreate : Windowed K (create cfgs) i :=
    ⟨⟨[], rfl, fun τ hτ => (by cases hτ)⟩, List.Pairwise.nil, fun τ hτ => (by cases hτ)⟩
  exact hcreate.unbroken (unbroken_forServices fun j s => unbroken_spawn)

/-! ## The verdict on one exit -/

/-- The service that an event tried to launch. -/
def launched : Event n → Option (Fin n)
  | .forked i _ => some i
  | .forkFailed i => some i
  | _ => none

def Launches (i : Fin n) (e : Event n) : Prop := launched e = some i

/-- A launch of `i` follows a restart of `i` by the operator. -/
def AskedFor (i : Fin n) (pre : List (Event n)) (e : Event n) : Prop :=
  Launches i e → .restarted i ∈ pre

/-- The service waits out its backoff and the wait is over. -/
def Due (now : Int) (v : Service) : Prop := v.state = .backoff ∧ v.nextRestart ≤ now

/-- The service has no child and nothing but the operator will launch it. -/
def Halted (i : Fin n) (s : Sup n) : Prop :=
  (s.services i).pid ≤ 0 ∧ ((s.services i).state = .quarantined ∨ (s.services i).state = .failed ∨
    s.shuttingDown = true)

/-- What happened from `s` to `s'` was about other services. -/
structure Elsewhere (i : Fin n) (s s' : Sup n) : Prop where
  same : s'.services i = s.services i
  flag : s'.shuttingDown = s.shuttingDown
  log : ∃ ext, (∀ e ∈ ext, ¬ Launches i e) ∧ s'.log = s.log ++ ext

theorem Elsewhere.of_log (hsame : s'.services i = s.services i)
    (hflag : s'.shuttingDown = s.shuttingDown) (hlog : s'.log = s.log) : Elsewhere i s s' :=
  ⟨hsame, hflag, [], (fun _ he => (by cases he)), hlog.trans (List.append_nil _).symm⟩

theorem Elsewhere.refl (i : Fin n) (s : Sup n) : Elsewhere i s s := .of_log rfl rfl rfl

theorem Elsewhere.trans (h : Elsewhere i s s') (h' : Elsewhere i s' s'') : Elsewhere i s s'' := by
  obtain ⟨xs, hx, hlog⟩ := h.log
  obtain ⟨ys, hy, hlog'⟩ := h'.log
  refine ⟨h'.same.trans h.same, h'.flag.trans h.flag, xs ++ ys, fun e he => ?_, ?_⟩
  · rcases List.mem_append.mp he with he | he
    · exact hx e he
    · exact hy e he
  · rw [hlog', hlog, List.append_assoc]

theorem Elsewhere.halted (h : Elsewhere i s s') (hh : Halted i s) : Halted i s' := by
  rw [Halted]
  rw [h.same, h.flag]
  exact hh

theorem elsewhere_record {e : Event n} (he : ¬ Launches i e) : Elsewhere i s (s.record e) := by
  refine ⟨rfl, rfl, [e], fun e' he' => ?_, rfl⟩
  rw [List.mem_singleton.mp he']
  exact he

theorem elsewhere_setService {v : Service} (hij : i ≠ j) : Elsewhere i s (s.setService j v) :=
  .of_log (setService_of_ne hij) rfl rfl

theorem elsewhere_scheduleRestart (hij : i ≠ j) : Elsewhere i s (scheduleRestart K j s) :=
  .of_log (setService_of_ne hij) rfl rfl

theorem spawn_log (K : Kernel) (i : Fin n) (s : Sup n) :
    (spawn K i s).shuttingDown = s.shuttingDown ∧
      ∃ e, Launches i e ∧ (spawn K i s).log = s.log ++ [e] := by
  rw [spawn]
  cases K.fork s.forks s.unreaped with
  | none => exact ⟨rfl, .forkFailed i, rfl, rfl⟩
  | some pid => exact ⟨rfl, .forked i pid, rfl, rfl⟩

theorem not_launches {e : Event n} (hij : i ≠ j) (h : Launches j e) : ¬ Launches i e :=
  fun h' => hij (Option.some.inj (h'.symm.trans h))

theorem elsewhere_spawn (hij : i ≠ j) : Elsewhere i s (spawn K j s) := by
  obtain ⟨hflag, e, he, hlog⟩ := spawn_log K j s
  refine ⟨spawn_of_ne hij, hflag, [e], fun e' he' => ?_, hlog⟩
  rw [List.mem_singleton.mp he']
  exact not_launches hij he

theorem elsewhere_markDown (hij : i ≠ j) : Elsewhere i s (markDown K j s) := by
  rw [markDown]
  dsimp only
  split
  · exact Elsewhere.refl i s
  · exact .of_log (setService_of_ne hij) rfl rfl

theorem elsewhere_unexpectedExit {pid : Int} {status : WaitStatus} (hij : i ≠ j) :
    Elsewhere i s (unexpectedExit K j pid status s) := by
  have hrec : Elsewhere i s (recordFailure K j status s) := by
    refine ⟨setService_of_ne hij, rfl, [.failure j (K.clock s.reads)], fun e he => ?_, rfl⟩
    rw [List.mem_singleton.mp he]
    simp [Launches, launched]
  have hset : ∀ v b, Elsewhere i s
      (record (.branch j pid b) ((recordFailure K j status s).setService j v)) :=
    fun v b => (hrec.trans (elsewhere_setService hij)).trans (elsewhere_record (by simp [Launches, launched]))
  unfold unexpectedExit
  dsimp only
  split
  · exact (hset _ _).trans (elsewhere_markDown hij)
  · split
    · exact (hset _ _).trans (elsewhere_markDown hij)
    · exact (hrec.trans (elsewhere_record (by simp [Launches, launched]))).trans
        (elsewhere_scheduleRestart hij)

theorem elsewhere_reapService {pid : Int} {status : WaitStatus} (hij : i ≠ j) :
    Elsewhere i s (reapService K j pid status s) := by
  have hclear : Elsewhere i s (cleared j s) :=
    .of_log (cleared_of_ne hij) rfl rfl
  have hset : ∀ v b, Elsewhere i s (record (.branch j pid b) ((cleared j s).setService j v)) :=
    fun v b => (hclear.trans (elsewhere_setService hij)).trans
      (elsewhere_record (by simp [Launches, launched]))
  rw [reapService_eq]
  split
  · exact hset _ _
  · split
    · exact (hset _ _).trans (elsewhere_spawn hij)
    · exact hclear.trans (elsewhere_unexpectedExit hij)

theorem elsewhere_finishIfDrained : Elsewhere i s (finishIfDrained s) := by
  rw [finishIfDrained]
  split
  · exact Elsewhere.refl i s
  · refine ⟨rfl, rfl, [.stop], fun e he => ?_, rfl⟩
    rw [List.mem_singleton.mp he]
    simp [Launches, launched]

theorem elsewhere_waitpid {k : Nat} (hp : (s.services i).pid ≤ 0)
    (hdead : ∀ d ∈ s.dead, 0 < d.1) : Elsewhere i s (waitpid K k s) := by
  have hidle : Elsewhere i s { s with pc := .idle } :=
    .of_log rfl rfl rfl
  rw [waitpid]
  split
  · split
    · dsimp only
      split
      · exact hidle.trans elsewhere_finishIfDrained
      · exact hidle
    · cases hk : s.dead[k]? with
      | none => exact Elsewhere.refl i s
      | some d =>
          have hpos : 0 < d.1 := hdead d (List.mem_of_getElem? hk)
          have hcol : Elsewhere i s (s.collect d.1 k) := by
            refine ⟨rfl, rfl, [.reaped d.1], fun e he => ?_, rfl⟩
            rw [List.mem_singleton.mp he]
            simp [Launches, launched]
          dsimp only
          rw [reapChild]
          split
          · exact hcol
          · rename_i j hf
            -- the service reaped has a child, so it is not `i`
            have hij : i ≠ j := by
              rintro rfl
              have hpid := findByPid_some hf
              have hsame : ((s.collect d.1 k).services i).pid = (s.services i).pid := rfl
              omega
            exact hcol.trans (elsewhere_reapService hij)
  · exact Elsewhere.refl i s

/-! ## Ticks -/

theorem tickService_spec (K : Kernel) (now : Int) (i : Fin n) (s : Sup n) :
    (∃ ext, (tickService K now i s).log = s.log ++ ext ∧
      ∀ e ∈ ext, Launches i e ∧ Due now (s.services i)) ∧
    (tickService K now i s).shuttingDown = s.shuttingDown ∧
    (∀ j, j ≠ i → (tickService K now i s).services j = s.services j) ∧
    (¬ Due now (s.services i) → (s.services i).pid ≤ 0 →
      (tickService K now i s).services i = s.services i) := by
  have hcheck : ∀ t : Sup n, (checkHealth K now i t).log = t.log ∧
      (checkHealth K now i t).shuttingDown = t.shuttingDown ∧
      (∀ j, j ≠ i → (checkHealth K now i t).services j = t.services j) ∧
      ((t.services i).pid ≤ 0 → checkHealth K now i t = t) := by
    intro t
    rw [checkHealth]
    dsimp only
    split
    · rename_i hcond
      exact ⟨rfl, rfl, fun j hj => setService_of_ne hj, fun hp => absurd hcond.1 (by omega)⟩
    · exact ⟨rfl, rfl, fun _ _ => rfl, fun _ => rfl⟩
  obtain ⟨hlog, hflag, hrest, hidle⟩ := hcheck (relaunchIfDue K now i s)
  rw [tickService]
  by_cases hdue : Due now (s.services i)
  · have hre : relaunchIfDue K now i s = spawn K i s := if_pos hdue
    obtain ⟨hsd, e, he, hsl⟩ := spawn_log K i s
    rw [hre] at hlog hflag hrest hidle ⊢
    refine ⟨⟨[e], hlog.trans hsl, fun e' he' => ?_⟩, hflag.trans hsd, fun j hj => ?_,
      fun hno => absurd hdue hno⟩
    · rw [List.mem_singleton.mp he']
      exact ⟨he, hdue⟩
    · rw [hrest j hj, spawn_of_ne hj]
  · have hre : relaunchIfDue K now i s = s := if_neg hdue
    rw [hre] at hlog hflag hrest hidle ⊢
    exact ⟨⟨[], hlog.trans (List.append_nil _).symm, fun _ he => (by cases he)⟩, hflag, hrest,
      fun _ hp => by rw [hidle hp]⟩

/-- The loop of a tick: every launch is of a service that was due when the tick
    began, and a service that is not due and has no child is left alone. -/
theorem tickLoop_spec (K : Kernel) (now : Int) (l : List (Fin n)) : ∀ s : Sup n, l.Nodup →
    (∃ ext, (l.foldl (fun s i => tickService K now i s) s).log = s.log ++ ext ∧
      ∀ e ∈ ext, ∃ j ∈ l, Launches j e ∧ Due now (s.services j)) ∧
    (l.foldl (fun s i => tickService K now i s) s).shuttingDown = s.shuttingDown ∧
    ∀ j, ¬ Due now (s.services j) → (s.services j).pid ≤ 0 →
      (l.foldl (fun s i => tickService K now i s) s).services j = s.services j := by
  induction l with
  | nil =>
      intro s _
      exact ⟨⟨[], (List.append_nil _).symm, fun _ he => (by cases he)⟩, rfl, fun _ _ _ => rfl⟩
  | cons i l ih =>
      intro s hnd
      obtain ⟨hi, hnd⟩ := List.nodup_cons.mp hnd
      obtain ⟨⟨xs, hxlog, hx⟩, hflag, hrest, hidle⟩ := tickService_spec K now i s
      obtain ⟨⟨ys, hylog, hy⟩, hflag', hidle'⟩ := ih (tickService K now i s) hnd
      rw [List.foldl_cons]
      refine ⟨⟨xs ++ ys, ?_, fun e he => ?_⟩, hflag'.trans hflag, fun j hdue hp => ?_⟩
      · rw [hylog, hxlog, List.append_assoc]
      · rcases List.mem_append.mp he with he | he
        · exact ⟨i, List.mem_cons_self .., hx e he⟩
        · obtain ⟨j, hj, hl, hd⟩ := hy e he
          have hji : j ≠ i := fun heq => hi (heq ▸ hj)
          rw [hrest j hji] at hd
          exact ⟨j, List.mem_cons_of_mem _ hj, hl, hd⟩
      · by_cases hji : j = i
        · subst hji
          have hsame := hidle hdue hp
          rw [hidle' j (by rw [hsame]; exact hdue) (by rw [hsame]; exact hp), hsame]
        · have hsame := hrest j hji
          rw [hidle' j (by rw [hsame]; exact hdue) (by rw [hsame]; exact hp), hsame]

theorem elsewhere_forServices {f : Fin n → Sup n → Sup n} (hf : ∀ j s, Elsewhere i s (f j s)) :
    Elsewhere i s (forServices f s) :=
  forServices_inv (P := Elsewhere i s) (fun j t ht => ht.trans (hf j t)) (Elsewhere.refl i s)

theorem elsewhere_killService {sig : Signal} : Elsewhere i s (killService sig j s) := by
  rw [killService]
  split
  · refine elsewhere_record ?_
    simp [Launches, launched]
  · exact Elsewhere.refl i s

/-- A tick launches only what is due, and nothing during shutdown. -/
theorem onTick_spec (K : Kernel) (s : Sup n) :
    (∀ j, ∃ ext, (onTick K s).log = s.log ++ ext ∧
      ∀ e ∈ ext, Launches j e → Due (K.clock s.reads) (s.services j)) ∧
    ∀ i, Halted i s → Elsewhere i s (onTick K s) := by
  have hread : ∀ i, Elsewhere i s { s with reads := s.reads + 1 } := fun i => .of_log rfl rfl rfl
  rw [onTick]
  dsimp only
  by_cases hd : s.shuttingDown = true
  · -- during shutdown a tick only kills
    rw [if_pos hd]
    have hall : ∀ i, Elsewhere i s (finishIfDrained
        (if s.killDeadline ≤ K.clock s.reads then
          forServices (killService .kill) { s with reads := s.reads + 1 }
        else { s with reads := s.reads + 1 })) := by
      intro i
      refine Elsewhere.trans ?_ elsewhere_finishIfDrained
      split
      · exact (hread i).trans (elsewhere_forServices fun j s => elsewhere_killService)
      · exact hread i
    refine ⟨fun j => ?_, fun i _ => hall i⟩
    obtain ⟨ext, hext, hlog⟩ := (hall j).log
    exact ⟨ext, hlog, fun e he hl => absurd hl (hext e he)⟩
  · rw [if_neg hd]
    obtain ⟨⟨ext, hlog, hext⟩, hflag, hidle⟩ := tickLoop_spec K (K.clock s.reads)
      (List.finRange n) { s with reads := s.reads + 1 } (List.nodup_finRange n)
    refine ⟨fun j => ⟨ext, hlog, fun e he hl => ?_⟩, fun i hh => ?_⟩
    · obtain ⟨k, -, hlk, hdue⟩ := hext e he
      by_cases hjk : j = k
      · exact hjk ▸ hdue
      · exact absurd hl (not_launches hjk hlk)
    · -- a halted service is not due
      have hnot : ¬ Due (K.clock s.reads) (s.services i) := by
        rintro ⟨hb, -⟩
        rcases hh.2 with h | h | h
        · exact absurd (hb.symm.trans h) (by simp)
        · exact absurd (hb.symm.trans h) (by simp)
        · exact hd h
      refine ⟨hidle i hnot hh.1, hflag, ext, fun e he hl => ?_, hlog⟩
      obtain ⟨k, -, hlk, hdue⟩ := hext e he
      by_cases hik : i = k
      · exact hnot (hik ▸ hdue)
      · exact not_launches hik hlk hl

/-! ## Halted services -/

theorem throughout_of_forall {P : List (Event n) → Event n → Prop} {ext : List (Event n)}
    (h : ∀ e ∈ ext, ∀ pre, P pre e) : Throughout P ext := by
  intro pre e hp
  exact h e (hp.mem (List.mem_append_right _ (List.mem_singleton_self e))) pre

theorem Elsewhere.asked (h : Elsewhere i s s') :
    ∃ ext, s'.log = s.log ++ ext ∧ Throughout (AskedFor i) ext := by
  obtain ⟨ext, hext, hlog⟩ := h.log
  exact ⟨ext, hlog, throughout_of_forall fun e he _ hl => absurd hl (hext e he)⟩

theorem beginShutdown_halted (hp : (s.services i).pid ≤ 0) :
    Halted i (beginShutdown K s) ∧
      ∃ ext, (beginShutdown K s).log = s.log ++ ext ∧ Throughout (AskedFor i) ext := by
  have hloop : ((forServices stopService (armShutdown K s)).services i).pid ≤ 0 ∧
      (forServices stopService (armShutdown K s)).shuttingDown = true ∧
      ∃ ext, (forServices stopService (armShutdown K s)).log = s.log ++ ext ∧
        ∀ e ∈ ext, ¬ Launches i e := by
    -- no turn of the loop launches anything
    refine forServices_inv (P := fun t : Sup n => (t.services i).pid ≤ 0 ∧
      t.shuttingDown = true ∧ ∃ ext, t.log = s.log ++ ext ∧ ∀ e ∈ ext, ¬ Launches i e)
      (fun j t ht => ?_) ⟨hp, rfl, [.shutdown], rfl, fun e he => ?_⟩
    · obtain ⟨hpid, hflag, ext, hlog, hext⟩ := ht
      rw [stopService]
      split
      · refine ⟨hpid, hflag, ext ++ [.killed (t.services j).pid .term], ?_, fun e he => ?_⟩
        · show t.log ++ [_] = _
          rw [hlog, List.append_assoc]
        · rcases List.mem_append.mp he with he | he
          · exact hext e he
          · rw [List.mem_singleton.mp he]
            simp [Launches, launched]
      · refine ⟨?_, hflag, ext, hlog, hext⟩
        by_cases hij : i = j
        · subst hij
          rw [setService_self]
          exact hpid
        · rw [setService_of_ne hij]
          exact hpid
    · rw [List.mem_singleton.mp he]
      simp [Launches, launched]
  obtain ⟨hpid, hflag, ext, hlog, hext⟩ := hloop
  have hfin : Elsewhere i (forServices stopService (armShutdown K s)) (beginShutdown K s) :=
    elsewhere_finishIfDrained
  obtain ⟨ext', hext', hlog'⟩ := hfin.log
  refine ⟨hfin.halted ⟨hpid, .inr (.inr hflag)⟩, ext ++ ext', ?_,
    throughout_of_forall fun e he _ hl => ?_⟩
  · rw [hlog', hlog, List.append_assoc]
  · rcases List.mem_append.mp he with he | he
    · exact absurd hl (hext e he)
    · exact absurd hl (hext' e he)

theorem doRestart_asked {name : String} (hh : Halted i s) :
    ∃ ext, (doRestart K name s).2.log = s.log ++ ext ∧ Throughout (AskedFor i) ext ∧
      (.restarted i ∈ ext ∨ Halted i (doRestart K name s).2) := by
  rw [doRestart]
  cases s.findByName name with
  | none => exact ⟨[], (List.append_nil _).symm, throughout_nil _, .inr hh⟩
  | some j =>
      dsimp only
      by_cases hij : i = j
      · -- the restart of `i` itself comes first, whatever follows it
        subst hij
        have hkill : ∀ p sig, Throughout (AskedFor i) [Event.restarted i, .killed p sig] := by
          intro p sig
          refine throughout_of_forall fun e he _ hl => ?_
          rcases List.mem_cons.mp he with rfl | he
          · exact absurd hl (by simp [Launches, launched])
          · rw [List.mem_singleton.mp he] at hl
            exact absurd hl (by simp [Launches, launched])
        split
        · refine ⟨[.restarted i, .killed ((clearBreaker i s).services i).pid .term], ?_, hkill _ _,
            .inl (List.mem_cons_self ..)⟩
          show s.log ++ [.restarted i] ++ [_] = _
          rw [List.append_assoc]
          rfl
        · obtain ⟨-, e, he, hlog⟩ := spawn_log K i ((clearBreaker i s).setService i
            { (clearBreaker i s).services i with currentBackoffSec := 0, wantsRestart := false })
          refine ⟨[.restarted i, e], ?_, ?_, .inl (List.mem_cons_self ..)⟩
          · rw [hlog]
            show s.log ++ [.restarted i] ++ [e] = _
            rw [List.append_assoc]
            rfl
          · show Throughout (AskedFor i) ([] ++ [.restarted i] ++ [e])
            refine throughout_concat.mpr ⟨throughout_concat.mpr ⟨throughout_nil _, ?_⟩, ?_⟩
            · exact fun hl => absurd hl (by simp [Launches, launched])
            · exact fun _ => List.mem_singleton_self _
      · -- the restart of another service
        have hclear : Elsewhere i s (clearBreaker j s) := by
          refine (elsewhere_setService hij).trans (elsewhere_record ?_)
          simp [Launches, launched]
        have hother : ∀ s' : Sup n, Elsewhere i s s' → ∃ ext, s'.log = s.log ++ ext ∧
            Throughout (AskedFor i) ext ∧ (.restarted i ∈ ext ∨ Halted i s') := by
          intro s' he
          obtain ⟨ext, hlog, hasked⟩ := he.asked
          exact ⟨ext, hlog, hasked, .inr (he.halted hh)⟩
        split
        · refine hother _ ((hclear.trans (elsewhere_setService hij)).trans (elsewhere_record ?_))
          simp [Launches, launched]
        · exact hother _ ((hclear.trans (elsewhere_setService hij)).trans (elsewhere_spawn hij))

/-- One step of a halted service: it stays halted, and is not launched, unless
    the operator restarts it. -/
theorem Halted.step (ht : Tracked s) (hh : Halted i s) (l : Label) :
    ∃ ext, (step K s l).log = s.log ++ ext ∧ Throughout (AskedFor i) ext ∧
      (.restarted i ∈ ext ∨ Halted i (step K s l)) := by
  have hother : Elsewhere i s (Sup.step K s l) → ∃ ext, (Sup.step K s l).log = s.log ++ ext ∧
      Throughout (AskedFor i) ext ∧ (.restarted i ∈ ext ∨ Halted i (Sup.step K s l)) := by
    intro he
    obtain ⟨ext, hlog, hasked⟩ := he.asked
    exact ⟨ext, hlog, hasked, .inr (he.halted hh)⟩
  rcases step_cases K s l with hq | ⟨pid, status, -, heq⟩ | ⟨k, -, heq⟩ | ⟨-, -, heq⟩ |
    ⟨t, rest, -, -, heq⟩
  · exact hother (.of_log (by rw [hq.services]) hq.shuttingDown hq.log)
  · refine hother ?_
    rw [heq]
    rw [exitChild]
    split
    · have hrec : Elsewhere i s (s.record (.exited pid)) := elsewhere_record (by simp [Launches, launched])
      exact ⟨hrec.1, hrec.2, hrec.3⟩
    · exact Elsewhere.refl i s
  · refine hother ?_
    rw [heq]
    refine elsewhere_waitpid hh.1 fun d hd => ?_
    have hmem : d.1 ∈ s.unreaped := List.mem_append_right _ (List.mem_map_of_mem hd)
    exact ((ht.books.tracked d.1).mp (ht.books.kernel.mem_iff.mp hmem)).1
  · refine hother ?_
    rw [heq]
    exact (onTick_spec K s).2 i hh
  · have hnext : Halted i { s with batch := rest } := hh
    rw [heq]
    cases t with
    | beginShutdown =>
        obtain ⟨hhalt, ext, hlog, hasked⟩ := beginShutdown_halted (K := K) hnext.1
        exact ⟨ext, hlog, hasked, .inr hhalt⟩
    | restart name => exact doRestart_asked hnext

/-- A run only adds to the log. -/
theorem run_log (ls : List Label) : ∀ s : Sup n, Tracked s →
    ∃ ext, (ls.foldl (step K) s).log = s.log ++ ext := by
  induction ls with
  | nil => intro s _; exact ⟨[], (List.append_nil _).symm⟩
  | cons l ls ih =>
      intro s ht
      obtain ⟨xs, hx, -⟩ := step_turn (K := K) ht l
      obtain ⟨ys, hy⟩ := ih (step K s l) (ht.step l)
      exact ⟨xs ++ ys, by rw [List.foldl_cons, hy, hx, List.append_assoc]⟩

/-- A halted service is launched again only after the operator restarted it. -/
theorem Halted.run (ls : List Label) : ∀ s : Sup n, Tracked s → Halted i s →
    ∃ ext, (ls.foldl (Sup.step K) s).log = s.log ++ ext ∧ Throughout (AskedFor i) ext := by
  induction ls with
  | nil => intro s _ _; exact ⟨[], (List.append_nil _).symm, throughout_nil _⟩
  | cons l ls ih =>
      intro s ht hh
      obtain ⟨xs, hx, hasked, hnext⟩ := hh.step (K := K) ht l
      rcases hnext with hrestart | hh'
      · -- from here on every launch comes after the restart
        obtain ⟨ys, hy⟩ := run_log (K := K) ls (Sup.step K s l) (ht.step l)
        refine ⟨xs ++ ys, by rw [List.foldl_cons, hy, hx, List.append_assoc], ?_⟩
        exact throughout_append hasked fun pre e _ _ => List.mem_append_left _ hrestart
      · obtain ⟨ys, hy, hasked'⟩ := ih (Sup.step K s l) (ht.step l) hh'
        refine ⟨xs ++ ys, by rw [List.foldl_cons, hy, hx, List.append_assoc], ?_⟩
        exact throughout_append hasked fun pre e hp hl =>
          List.mem_append_right _ (hasked' pre e hp hl)

end Sup

end CastlePlus
