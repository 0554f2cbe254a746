import CastlePlus.SupervisorTracking

/-! # Shutdown and the children

    After `begin_shutdown` nothing is to be forked, and `finish_if_drained` stops
    the loop only when every child has been reaped.  Every path that can launch a
    service looks at `shutting_down_` first, except the operator's restart of a
    service that has no child. -/

namespace CastlePlus

open HandleLog

namespace Sup

variable {n : Nat}

/-- No child is forked once the shutdown has begun or the loop was stopped. -/
def NoLateFork (pre : List (Event n)) (e : Event n) : Prop :=
  ∀ i p, e = .forked i p → .shutdown ∉ pre ∧ .stop ∉ pre

/-- The loop is stopped when every child has been reaped. -/
def CleanStop (pre : List (Event n)) (e : Event n) : Prop := e = .stop → childrenOf pre = []

def LeavesNoChild (s : Sup n) : Prop :=
  Throughout NoLateFork s.log ∧ Throughout CleanStop s.log

/-- The next task is an operator's restart of a service without a child, and the
    shutdown has begun. -/
def restartsIdle (s : Sup n) : Label → Bool
  | .task =>
      match s.batch with
      | .restart name :: _ =>
          s.shuttingDown && (s.findByName name).any fun i => decide ((s.services i).pid ≤ 0)
      | _ => false
  | _ => false

/-- No step of the run is such a restart. -/
def neverRestartsIdle (K : Kernel) : Sup n → List Label → Bool
  | _, [] => true
  | s, l :: ls => !restartsIdle s l && neverRestartsIdle K (step K s l) ls

/-- The invariant: what was promised so far, and the flag that keeps it. -/
structure Calm (s : Sup n) : Prop where
  forks : Throughout NoLateFork s.log
  stops : Throughout CleanStop s.log
  flag : .shutdown ∈ s.log ∨ .stop ∈ s.log → s.shuttingDown = true

variable {s : Sup n} {i : Fin n} {K : Kernel}

theorem Calm.record {e : Event n} (h : Calm s) (hstop : e ≠ .stop)
    (hdown : e = .shutdown → s.shuttingDown = true)
    (hfork : ∀ i p, e = .forked i p → s.shuttingDown = false) : Calm (s.record e) := by
  refine ⟨throughout_concat.mpr ⟨h.forks, fun i p he => ?_⟩,
    throughout_concat.mpr ⟨h.stops, fun he => absurd he hstop⟩, fun hin => ?_⟩
  · have hopen := hfork i p he
    exact ⟨fun hin => absurd (hopen.symm.trans (h.flag (.inl hin))) (by simp),
      fun hin => absurd (hopen.symm.trans (h.flag (.inr hin))) (by simp)⟩
  · simp only [Sup.record, List.mem_append, List.mem_singleton] at hin
    rcases hin with (hin | he) | (hin | he)
    · exact h.flag (.inl hin)
    · exact hdown he.symm
    · exact h.flag (.inr hin)
    · exact absurd he.symm hstop

theorem Calm.spawn (h : Calm s) (hopen : s.shuttingDown = false) :
    Calm (spawn K i s) ∧ (Sup.spawn K i s).shuttingDown = false := by
  rw [Sup.spawn]
  cases K.fork s.forks s.unreaped with
  | none =>
      have hrec : Calm (s.record (.forkFailed i)) :=
        h.record (by simp) (fun he => (by cases he)) fun _ _ he => (by cases he)
      exact ⟨⟨hrec.1, hrec.2, hrec.3⟩, hopen⟩
  | some pid =>
      have hrec : Calm (s.record (.forked i pid)) :=
        h.record (by simp) (fun he => (by cases he)) fun _ _ _ => hopen
      exact ⟨⟨hrec.1, hrec.2, hrec.3⟩, hopen⟩

theorem Calm.markDown (h : Calm s) : Calm (markDown K i s) := by
  rw [Sup.markDown]
  dsimp only
  split
  · exact h
  · exact ⟨h.1, h.2, h.3⟩

theorem Calm.branch (h : Calm s) (i : Fin n) (pid : Int) (b : Branch) :
    Calm (s.record (.branch i pid b)) :=
  h.record (by simp) (fun he => (by cases he)) fun _ _ he => (by cases he)

theorem Calm.unexpectedExit {pid : Int} {status : WaitStatus} (h : Calm s) :
    Calm (unexpectedExit K i pid status s) := by
  have hrec : Calm (recordFailure K i status s) := by
    have hfail : Calm (s.record (.failure i (K.clock s.reads))) :=
      h.record (by simp) (fun he => (by cases he)) fun _ _ he => (by cases he)
    exact ⟨hfail.1, hfail.2, hfail.3⟩
  unfold Sup.unexpectedExit
  dsimp only
  have hset : ∀ v, Calm ((recordFailure K i status s).setService i v) :=
    fun v => ⟨hrec.1, hrec.2, hrec.3⟩
  split
  · exact ((hset _).branch _ _ _).markDown
  · split
    · exact ((hset _).branch _ _ _).markDown
    · have hbr := hrec.branch i pid .backoff
      exact ⟨hbr.1, hbr.2, hbr.3⟩

theorem Calm.reapService {pid : Int} {status : WaitStatus} (h : Calm s) :
    Calm (reapService K i pid status s) := by
  have hclear : Calm (cleared i s) := ⟨h.1, h.2, h.3⟩
  have hset : ∀ v, Calm ((cleared i s).setService i v) :=
    fun v => ⟨hclear.1, hclear.2, hclear.3⟩
  rw [reapService_eq]
  cases hd : s.shuttingDown with
  | true =>
      rw [if_pos rfl]
      exact (hset _).branch _ _ _
  | false =>
      rw [if_neg (by simp)]
      split
      · exact (((hset _).branch _ _ _).spawn hd).1
      · exact hclear.unexpectedExit

theorem Calm.finishIfDrained (h : Calm s) (ht : Tracked s) (hdown : s.shuttingDown = true) :
    Calm (finishIfDrained s) := by
  rw [Sup.finishIfDrained]
  split
  · exact h
  · rename_i hnone
    refine ⟨throughout_concat.mpr ⟨h.forks, fun _ _ he => (by cases he)⟩,
      throughout_concat.mpr ⟨h.stops, fun _ => ?_⟩, fun _ => hdown⟩
    rw [List.eq_nil_iff_forall_not_mem]
    intro p hp
    obtain ⟨hpos, i, hi⟩ := (ht.books.tracked p).mp hp
    exact hnone ⟨i, by rw [hi]; exact hpos⟩

theorem Calm.waitpid {k : Nat} (h : Calm s) (ht : Tracked s) : Calm (waitpid K k s) := by
  have hidle : Tracked { s with pc := .idle } := ⟨⟨ht.1.1, ht.1.2, ht.1.3, ht.1.4, ht.1.5⟩, ht.2⟩
  have hcalm : Calm { s with pc := .idle } := ⟨h.1, h.2, h.3⟩
  rw [Sup.waitpid]
  split
  · split
    · dsimp only
      split
      · rename_i hdown
        exact hcalm.finishIfDrained hidle hdown
      · exact hcalm
    · cases s.dead[k]? with
      | none => exact h
      | some d =>
          dsimp only
          have hcol : Calm (s.collect d.1 k) := by
            have hrec : Calm (s.record (.reaped d.1)) :=
              h.record (by simp) (fun he => (by cases he)) fun _ _ he => (by cases he)
            exact ⟨hrec.1, hrec.2, hrec.3⟩
          rw [reapChild]
          split
          · exact hcol
          · exact hcol.reapService
  · exact h

theorem Calm.onTick (h : Calm s) (ht : Tracked s) : Calm (onTick K s) := by
  have hread : Calm { s with reads := s.reads + 1 } := ⟨h.1, h.2, h.3⟩
  have htread : Tracked { s with reads := s.reads + 1 } :=
    ⟨⟨ht.1.1, ht.1.2, ht.1.3, ht.1.4, ht.1.5⟩, ht.2⟩
  rw [Sup.onTick]
  dsimp only
  by_cases hd : s.shuttingDown = true
  · rw [if_pos hd]
    split
    · -- past the deadline: the loop only kills
      have hloop := forServices_inv (P := fun s => Calm s ∧ Tracked s ∧ s.shuttingDown = true)
        (f := killService .kill) (fun i s hs => ?_) ⟨hread, htread, hd⟩
      · exact hloop.1.finishIfDrained hloop.2.1 hloop.2.2
      · refine ⟨?_, hs.2.1.killService, ?_⟩
        · rw [killService]
          split
          · exact hs.1.record (by simp) (fun he => (by cases he)) fun _ _ he => (by cases he)
          · exact hs.1
        · rw [killService]
          split
          · exact hs.2.2
          · exact hs.2.2
    · exact hread.finishIfDrained htread hd
  · rw [if_neg hd]
    -- before the shutdown a launch is no matter
    refine (forServices_inv (P := fun s => Calm s ∧ s.shuttingDown = false)
      (fun i s hs => ?_) ⟨hread, Bool.eq_false_iff.mpr hd⟩).1
    have hre : ∀ now, Calm (relaunchIfDue K now i s) ∧
        (relaunchIfDue K now i s).shuttingDown = false := by
      intro now
      rw [relaunchIfDue]
      split
      · exact hs.1.spawn hs.2
      · exact hs
    rw [tickService, checkHealth]
    dsimp only
    split
    · exact ⟨⟨(hre _).1.1, (hre _).1.2, (hre _).1.3⟩, (hre _).2⟩
    · exact hre _

theorem Calm.beginShutdown (h : Calm s) (ht : Tracked s) : Calm (beginShutdown K s) := by
  have harm : Calm (armShutdown K s) := by
    refine Calm.record ?_ (by simp) (fun _ => rfl) fun _ _ he => (by cases he)
    exact ⟨h.1, h.2, fun _ => rfl⟩
  have htarm : Tracked (armShutdown K s) := by
    refine Tracked.record ?_ rfl fun p sig he => (by cases he)
    exact ⟨⟨ht.1.1, ht.1.2, ht.1.3, ht.1.4, ht.1.5⟩, ht.2⟩
  rw [Sup.beginShutdown]
  have hloop := forServices_inv (P := fun s => Calm s ∧ Tracked s ∧ s.shuttingDown = true)
    (f := stopService) (fun i s hs => ?_) ⟨harm, htarm, rfl⟩
  · exact hloop.1.finishIfDrained hloop.2.1 hloop.2.2
  · refine ⟨?_, hs.2.1.stopService, ?_⟩
    · rw [stopService]
      split
      · exact hs.1.record (by simp) (fun he => (by cases he)) fun _ _ he => (by cases he)
      · exact ⟨hs.1.1, hs.1.2, hs.1.3⟩
    · rw [stopService]
      split
      · exact hs.2.2
      · exact hs.2.2

/-- A restart is harmless before the shutdown, and for a service that has a
    child. -/
theorem Calm.doRestart {name : String} (h : Calm s)
    (hok : s.shuttingDown = true → ∀ i, s.findByName name = some i → 0 < (s.services i).pid) :
    Calm (doRestart K name s).2 := by
  rw [Sup.doRestart]
  cases hf : s.findByName name with
  | none => exact h
  | some i =>
      have hclear : Calm (clearBreaker i s) := by
        have hrec : Calm (s.record (.restarted i)) :=
          h.record (by simp) (fun he => (by cases he)) fun _ _ he => (by cases he)
        exact ⟨hrec.1, hrec.2, hrec.3⟩
      have hpid : ((clearBreaker i s).services i).pid = (s.services i).pid := by
        rw [clearBreaker_self]
      dsimp only
      split
      · refine Calm.record ?_ (by simp) (fun he => (by cases he)) fun _ _ he => (by cases he)
        exact ⟨hclear.1, hclear.2, hclear.3⟩
      · rename_i hnone
        have hopen : s.shuttingDown = false := by
          cases hd : s.shuttingDown with
          | false => rfl
          | true => exact absurd (hok hd i hf) (by rw [← hpid]; exact hnone)
        have hset : Calm ((clearBreaker i s).setService i
            { (clearBreaker i s).services i with
              currentBackoffSec := 0, wantsRestart := false }) :=
          ⟨hclear.1, hclear.2, hclear.3⟩
        exact (hset.spawn hopen).1

theorem Calm.step (h : Calm s) (ht : Tracked s) {l : Label} (hok : restartsIdle s l = false) :
    Calm (step K s l) := by
  rcases step_cases K s l with hq | ⟨pid, status, -, heq⟩ | ⟨k, -, heq⟩ | ⟨-, -, heq⟩ |
    ⟨t, rest, rfl, hbatch, heq⟩
  · refine ⟨?_, ?_, ?_⟩
    · rw [hq.log]
      exact h.forks
    · rw [hq.log]
      exact h.stops
    · rw [hq.log, hq.shuttingDown]
      exact h.flag
  · rw [heq]
    rw [exitChild]
    split
    · have hrec : Calm (s.record (.exited pid)) :=
        h.record (by simp) (fun he => (by cases he)) fun _ _ he => (by cases he)
      exact ⟨hrec.1, hrec.2, hrec.3⟩
    · exact h
  · rw [heq]
    exact h.waitpid ht
  · rw [heq]
    exact h.onTick ht
  · have hnext : Calm { s with batch := rest } := ⟨h.1, h.2, h.3⟩
    have htnext : Tracked { s with batch := rest } := ht.quiet ⟨rfl, rfl, rfl, rfl, rfl, rfl, rfl⟩
    rw [heq]
    cases t with
    | beginShutdown => exact hnext.beginShutdown htnext
    | restart name =>
        -- `hok`: in the shutdown, only a service that has a child
        refine hnext.doRestart fun hd i hi => ?_
        rw [restartsIdle] at hok
        rw [hbatch] at hok
        have hd' : s.shuttingDown = true := hd
        have hi' : s.findByName name = some i := hi
        dsimp only at hok
        rw [hd', hi'] at hok
        simpa using hok

theorem calm_start (K : Kernel) (cfgs : Fin n → ServiceConfig) : Calm (start K cfgs) := by
  have hcreate : Calm (create cfgs) :=
    ⟨throughout_nil _, throughout_nil _, fun hin => by rcases hin with hin | hin <;> exact (by cases hin)⟩
  exact (forServices_inv (P := fun s => Calm s ∧ s.shuttingDown = false)
    (fun i s hs => hs.1.spawn hs.2) ⟨hcreate, rfl⟩).1

/-- In every run in which no operator's restart of a service without a child runs
    after `begin_shutdown`: nothing is forked after `begin_shutdown` has run, the
    loop is stopped only when every child ever forked has been reaped, and nothing
    is forked after that. -/
theorem shutdown_leaves_no_child (K : Kernel) (cfgs : Fin n → ServiceConfig) (ls : List Label)
    (hok : neverRestartsIdle K (start K cfgs) ls = true) : LeavesNoChild (run K cfgs ls) := by
  have hfold : ∀ (ls : List Label) (s : Sup n), Tracked s → Calm s →
      neverRestartsIdle K s ls = true → Calm (ls.foldl (step K) s) := by
    intro ls
    induction ls with
    | nil => intro s _ hc _; exact hc
    | cons l ls ih =>
        intro s ht hc hok
        obtain ⟨hhead, htail⟩ := Bool.and_eq_true_iff.mp hok
        exact ih _ (ht.step l) (hc.step ht (by simpa using hhead)) htail
  have hcalm := hfold ls _ (tracked_start K cfgs) (calm_start K cfgs) hok
  exact ⟨hcalm.forks, hcalm.stops⟩

/-! ## A restart in the same batch -/

/-- A kernel whose `fork` always succeeds, with the next pid. -/
def demoKernel : Kernel where
  fork _ l := some (l.foldr max 0 + 1)
  fork_pos := by
    intro k l p h
    have hp := Option.some.inj h
    have hmax : ∀ l : List Int, 0 ≤ l.foldr max 0 := by
      intro l
      induction l with
      | nil => exact le_refl _
      | cons a l ih => exact le_trans ih (le_max_right ..)
    have := hmax l
    omega
  fork_fresh := by
    intro k l p h hin
    have hp := Option.some.inj h
    have hmax : ∀ l : List Int, ∀ a ∈ l, a ≤ l.foldr max 0 := by
      intro l
      induction l with
      | nil => intro a ha; cases ha
      | cons b l ih =>
          intro a ha
          rcases List.mem_cons.mp ha with rfl | ha
          · exact le_max_left ..
          · exact le_trans (ih a ha) (le_max_right ..)
    have := hmax l p hin
    omega
  clock k := k
  clock_mono := fun a b h => Int.ofNat_le.mpr h
  wall k := k
  probe _ _ _ := true
  strsignal _ := none

def demoCfgs : Fin 1 → ServiceConfig := fun _ => { name := "app" }

/-- The child is asked to stop, dies and is reaped. -/
def plainShutdown : List Label :=
  [.post .beginShutdown, .doorbell, .task, .exit 1 (.signaled 15), .sigchld, .read, .read,
    .waitpid 0, .waitpid 0, .check]

theorem shutdown_leaves_no_child_plain : LeavesNoChild (run demoKernel demoCfgs plainShutdown) :=
  shutdown_leaves_no_child demoKernel demoCfgs plainShutdown (by decide)

/-- The child dies, then another thread queues a shutdown and an operator's
    restart, and both run in one batch. -/
def lateRestart : List Label :=
  [.exit 1 (.exited 1), .sigchld, .read, .read, .waitpid 0, .waitpid 0,
    .post .beginShutdown, .post (.restart "app"), .doorbell, .task, .task, .check]

/-- The restart forks a child after `begin_shutdown` and after the loop was
    stopped; the loop is left with that child alive. -/
theorem restart_after_shutdown :
    ¬ LeavesNoChild (run demoKernel demoCfgs lateRestart) ∧
    (run demoKernel demoCfgs lateRestart).left = true ∧
    (run demoKernel demoCfgs lateRestart).live = [1] := by
  have hlog : (run demoKernel demoCfgs lateRestart).log =
      [.forked 0 1, .exited 1, .reaped 1, .failure 0 1, .branch 0 1 .backoff, .shutdown, .stop,
        .restarted 0] ++ [.forked 0 1] := by decide
  refine ⟨fun h => ?_, by decide, by decide⟩
  have hlate := h.1 _ (.forked 0 1) ⟨[], by rw [hlog, List.append_nil]⟩ 0 1 rfl
  exact hlate.1 (by simp)

end Sup

end CastlePlus
