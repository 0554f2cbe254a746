import CastlePlus.SupervisorMoves
import CastlePlus.SupervisorShutdown
import Mathlib.Data.List.Induction

/-! # How the supervisor stops

    `begin_shutdown` sends SIGTERM to the children and arms a deadline; `on_sigchld` and `on_tick`
    stop the loop once no child is left, and from the deadline on each tick sends SIGKILL.

    * `Gentle`: what all the other functions leave alone;
    * **`shutdown_never_hangs`**: while the shutdown waits there is something to wait for: a child
      that is alive, or a dead one whose signal the loop will see;
    * **`stop_signals`**: every child is told to stop, and is killed only when the five seconds
      are over. -/

namespace CastlePlus

namespace Sup

variable {n : Nat}

/-- An event that neither begins nor ends the shutdown, and no SIGKILL. -/
def Mild (e : Event n) : Prop := e ≠ .shutdown ∧ e ≠ .stop ∧ ∀ p, e ≠ .killed p .kill

/-- The shutdown is where it was. -/
structure Gentle (s s' : Sup n) : Prop where
  shuttingDown : s'.shuttingDown = s.shuttingDown
  loopRunning : s'.loopRunning = s.loopRunning
  killDeadline : s'.killDeadline = s.killDeadline
  log : ∃ ext, s'.log = s.log ++ ext ∧ ∀ e ∈ ext, Mild e

variable {s s' s'' : Sup n} {i j : Fin n} {K : Kernel}

theorem Gentle.of_eq (hshut : s'.shuttingDown = s.shuttingDown)
    (hloop : s'.loopRunning = s.loopRunning) (hdead : s'.killDeadline = s.killDeadline)
    (hlog : s'.log = s.log) : Gentle s s' :=
  ⟨hshut, hloop, hdead, [], by rw [hlog, List.append_nil], fun e he => absurd he List.not_mem_nil⟩

theorem Gentle.refl (s : Sup n) : Gentle s s := .of_eq rfl rfl rfl rfl

theorem Gentle.trans (h : Gentle s s') (h' : Gentle s' s'') : Gentle s s'' := by
  obtain ⟨xs, hxs, hx⟩ := h.log
  obtain ⟨ys, hys, hy⟩ := h'.log
  refine ⟨h'.shuttingDown.trans h.shuttingDown, h'.loopRunning.trans h.loopRunning,
    h'.killDeadline.trans h.killDeadline, xs ++ ys, ?_, fun e he => ?_⟩
  · rw [hys, hxs, List.append_assoc]
  · rcases List.mem_append.mp he with he | he
    · exact hx e he
    · exact hy e he

theorem gentle_record {e : Event n} (he : Mild e) : Gentle s (record e s) :=
  ⟨rfl, rfl, rfl, [e], rfl, fun e' he' => by rwa [List.mem_singleton.mp he']⟩

theorem gentle_spawn : Gentle s (spawn K i s) := by
  rw [spawn]
  cases K.fork s.forks s.unreaped with
  | none =>
      have hrec : Gentle s (record (.forkFailed i) s) :=
        gentle_record ⟨by simp, by simp, by simp⟩
      exact ⟨rfl, rfl, rfl, hrec.log⟩
  | some pid =>
      have hrec : Gentle s (record (.forked i pid) s) := gentle_record ⟨by simp, by simp, by simp⟩
      exact ⟨rfl, rfl, rfl, hrec.log⟩

theorem gentle_markDown : Gentle s (markDown K i s) := by
  dsimp only [markDown]
  split
  · exact Gentle.refl s
  · exact .of_eq rfl rfl rfl rfl

theorem gentle_branch (i : Fin n) (pid : Int) (b : Branch) :
    Gentle s (record (.branch i pid b) s) := gentle_record ⟨by simp, by simp, by simp⟩

theorem gentle_unexpectedExit {pid : Int} {status : WaitStatus} :
    Gentle s (unexpectedExit K i pid status s) := by
  have hfail : Gentle s (recordFailure K i status s) := by
    have hrec : Gentle s (record (.failure i (K.clock s.reads)) s) :=
      gentle_record ⟨by simp, by simp, by simp⟩
    exact ⟨rfl, rfl, rfl, hrec.log⟩
  have hset : ∀ v, Gentle s ((recordFailure K i status s).setService i v) :=
    fun v => ⟨rfl, rfl, rfl, hfail.log⟩
  dsimp only [unexpectedExit]
  split
  · refine Gentle.trans ?_ gentle_markDown
    exact (hset _).trans (gentle_branch i pid .failed)
  · split
    · refine Gentle.trans ?_ gentle_markDown
      exact (hset _).trans (gentle_branch i pid .quarantined)
    · have hbranch := hfail.trans (gentle_branch i pid .backoff)
      exact ⟨rfl, rfl, rfl, hbranch.log⟩

theorem gentle_reapService {pid : Int} {status : WaitStatus} :
    Gentle s (reapService K i pid status s) := by
  have hclear : Gentle s (cleared i s) := .of_eq rfl rfl rfl rfl
  have hset : ∀ v, Gentle s ((cleared i s).setService i v) := fun v => .of_eq rfl rfl rfl rfl
  rw [reapService_eq]
  split
  · exact (hset _).trans (gentle_branch i pid .stopped)
  · split
    · exact ((hset _).trans (gentle_branch i pid .relaunched)).trans gentle_spawn
    · exact hclear.trans gentle_unexpectedExit

theorem gentle_tickService {now : Int} : Gentle s (tickService K now i s) := by
  have hrelaunch : Gentle s (relaunchIfDue K now i s) := by
    rw [relaunchIfDue]
    split
    · exact gentle_spawn
    · exact Gentle.refl s
  refine hrelaunch.trans ?_
  show Gentle _ (checkHealth K now i (relaunchIfDue K now i s))
  dsimp only [checkHealth]
  split
  · exact .of_eq rfl rfl rfl rfl
  · exact Gentle.refl _

theorem gentle_term {p : Int} : Gentle s (record (.killed p .term) s) :=
  gentle_record ⟨by simp, by simp, by simp⟩

theorem gentle_stopService : Gentle s (stopService i s) := by
  rw [stopService]
  split
  · exact gentle_term
  · exact .of_eq rfl rfl rfl rfl

theorem gentle_forServices {f : Fin n → Sup n → Sup n} (hf : ∀ j s, Gentle s (f j s)) :
    Gentle s (forServices f s) :=
  forServices_inv (P := Gentle s) (fun j t ht => ht.trans (hf j t)) (Gentle.refl s)

theorem gentle_doRestart {name : String} : Gentle s (doRestart K name s).2 := by
  rw [doRestart]
  cases s.findByName name with
  | none => exact Gentle.refl s
  | some j =>
      have hclear : Gentle s (clearBreaker j s) := by
        have hrec : Gentle s (record (.restarted j) s) := gentle_record ⟨by simp, by simp, by simp⟩
        exact ⟨rfl, rfl, rfl, hrec.log⟩
      have hset : ∀ v, Gentle s ((clearBreaker j s).setService j v) :=
        fun v => ⟨rfl, rfl, rfl, hclear.log⟩
      dsimp only
      split
      · exact (hset _).trans gentle_term
      · exact (hset _).trans gentle_spawn

/-! ## What a step does to the shutdown -/

theorem finishIfDrained_of_none (h : ∀ i, (s.services i).pid ≤ 0) :
    (finishIfDrained s).loopRunning = false := by
  have hnone : ¬ ∃ i, 0 < (s.services i).pid := by
    rintro ⟨i, hi⟩
    have := h i
    omega
  rw [finishIfDrained, if_neg hnone]
  rfl

theorem shuttingDown_finishIfDrained : (finishIfDrained s).shuttingDown = s.shuttingDown := by
  rw [finishIfDrained]
  split <;> rfl

theorem killDeadline_finishIfDrained : (finishIfDrained s).killDeadline = s.killDeadline := by
  rw [finishIfDrained]
  split <;> rfl

theorem log_finishIfDrained : ∃ ext, (finishIfDrained s).log = s.log ++ ext ∧
    ∀ e ∈ ext, e = .stop := by
  rw [finishIfDrained]
  split
  · exact ⟨[], (List.append_nil _).symm, fun e he => absurd he List.not_mem_nil⟩
  · exact ⟨[.stop], rfl, fun e he => List.mem_singleton.mp he⟩

/-- The step is a tick of the shutdown, after the deadline or before it. -/
theorem onTick_shutdown (hdown : s.shuttingDown = true) : onTick K s = finishIfDrained
    (if s.killDeadline ≤ K.clock s.reads then
      forServices (killService .kill) { s with reads := s.reads + 1 }
    else { s with reads := s.reads + 1 }) := if_pos hdown

theorem onTick_open (hopen : s.shuttingDown = false) : Gentle s (onTick K s) := by
  have htick : onTick K s =
      forServices (tickService K (K.clock s.reads)) { s with reads := s.reads + 1 } :=
    if_neg (by rw [hopen]; decide)
  have hread : Gentle s { s with reads := s.reads + 1 } := .of_eq rfl rfl rfl rfl
  rw [htick]
  exact hread.trans (gentle_forServices fun j t => gentle_tickService)

/-- One `waitpid`: nothing, a turn of the reap loop, or its end. -/
theorem waitpid_gentle (k : Nat) :
    waitpid K k s = s ∨ Gentle s (waitpid K k s) ∧
      (s.shuttingDown = false ∨ (waitpid K k s).pc = .reap) ∨
    (s.shuttingDown = true ∧ waitpid K k s = finishIfDrained { s with pc := .idle }) := by
  by_cases hpc : s.pc = .reap
  · by_cases hdead : s.dead = []
    · rw [waitpid, if_pos hpc, if_pos hdead]
      dsimp only
      by_cases hdown : s.shuttingDown = true
      · rw [if_pos hdown]
        exact .inr (.inr ⟨hdown, rfl⟩)
      · rw [if_neg hdown]
        exact .inr (.inl ⟨.of_eq rfl rfl rfl rfl, .inl (by simpa using hdown)⟩)
    · cases hk : s.dead[k]? with
      | none =>
          rw [waitpid, if_pos hpc, if_neg hdead, hk]
          exact .inl rfl
      | some d =>
          have hw : waitpid K k s = reapChild K d.1 d.2 (s.collect d.1 k) := by
            rw [waitpid, if_pos hpc, if_neg hdead, hk]
          have hcol : Gentle s (s.collect d.1 k) := by
            have hrec : Gentle s (record (.reaped d.1) s) :=
              gentle_record ⟨by simp, by simp, by simp⟩
            exact ⟨rfl, rfl, rfl, hrec.log⟩
          rw [hw, reapChild]
          cases findByPid d.1 (s.collect d.1 k) with
          | none => exact .inr (.inl ⟨hcol, .inr hpc⟩)
          | some i =>
              have hturn : TurnTaken i d.1 (s.collect d.1 k)
                  (reapService K i d.1 d.2 (s.collect d.1 k)) := reapService_turn
              exact .inr (.inl ⟨hcol.trans gentle_reapService, .inr (hturn.pc.trans hpc)⟩)
  · rw [waitpid, if_neg hpc]
    exact .inl rfl

/-! ## Nothing to wait for -/

/-- Outside `on_sigchld` a shutdown without children has stopped the loop. -/
def Finishing (s : Sup n) : Prop :=
  s.shuttingDown = true → s.pc = .idle → (∀ i, (s.services i).pid ≤ 0) → s.loopRunning = false

/-- `finish_if_drained` settles it. -/
theorem finishing_finishIfDrained : Finishing (finishIfDrained s) := by
  intro _ _ hnone
  rw [finishIfDrained_services] at hnone
  exact finishIfDrained_of_none hnone

/-- An operator's restart takes no child from a service. -/
theorem doRestart_pid {name : String} (h : 0 < (s.services j).pid) :
    ((doRestart K name s).2.services j).pid = (s.services j).pid := by
  rw [doRestart]
  cases s.findByName name with
  | none => rfl
  | some i =>
      dsimp only
      by_cases hij : j = i
      · have hp : 0 < ((clearBreaker i s).services i).pid := by
          rw [clearBreaker_self, ← hij]
          exact h
        rw [if_pos hp, hij]
        refine (congrArg Service.pid setService_self).trans ?_
        rw [clearBreaker_self]
      · have hother : (clearBreaker i s).services j = s.services j := setService_of_ne hij
        split
        · exact congrArg Service.pid ((setService_of_ne hij).trans hother)
        · rw [spawn_of_ne hij]
          exact congrArg Service.pid ((setService_of_ne hij).trans hother)

theorem Finishing.step (h : Finishing s) (l : Label) : Finishing (step K s l) := by
  cases l with
  | exit pid status =>
      show Finishing (exitChild pid status s)
      rw [exitChild]
      split
      · exact h
      · exact h
  | sigchld =>
      show Finishing (if s.free then { s with pc := .drain } else s)
      split
      · -- inside `on_sigchld` there is nothing to show
        intro _ hpc
        cases hpc
      · exact h
  | read =>
      show Finishing (readSignal s)
      rw [readSignal]
      split
      · split
        · exact h
        · intro _ hpc
          cases hpc
      · exact h
  | waitpid k =>
      show Finishing (waitpid K k s)
      rcases waitpid_gentle (K := K) (s := s) k with heq | ⟨hg, hopen | hreap⟩ | ⟨-, heq⟩
      · rw [heq]
        exact h
      · -- the shutdown has not begun
        intro hdown
        exact absurd (hopen.symm.trans (hg.shuttingDown.symm.trans hdown)) (by decide)
      · -- a child was reaped: the loop asks for the next one
        intro _ hpc
        exact absurd (hreap.symm.trans hpc) (by decide)
      · rw [heq]
        exact finishing_finishIfDrained
  | tick =>
      show Finishing (if s.free then onTick K s else s)
      split
      · by_cases hdown : s.shuttingDown = true
        · rw [onTick_shutdown hdown]
          exact finishing_finishIfDrained
        · have hopen : s.shuttingDown = false := by simpa using hdown
          intro hdown'
          exact absurd ((onTick_open hopen).shuttingDown.symm.trans hdown') hdown
      · exact h
  | post t => exact h
  | doorbell =>
      show Finishing (if s.free then { s with batch := s.tasks, tasks := [] } else s)
      split
      · exact h
      · exact h
  | task =>
      rw [Sup.step]
      cases hb : s.batch with
      | nil => exact h
      | cons t rest =>
          dsimp only
          split
          · exact h
          · cases t with
            | beginShutdown => exact finishing_finishIfDrained
            | restart name =>
                have hg : Gentle { s with batch := rest }
                    (doRestart K name { s with batch := rest }).2 := gentle_doRestart
                have ha : Aside { s with batch := rest }
                    (runTask K (.restart name) { s with batch := rest }) := aside_runTask
                intro hdown hpc hnone
                refine hg.loopRunning.trans (h (hg.shuttingDown.symm.trans hdown)
                  (ha.pc.symm.trans hpc) fun i => ?_)
                -- a child that was there is still there, so without one now there was none before
                by_contra hp
                have hkeep : ((doRestart K name { s with batch := rest }).2.services i).pid =
                    (s.services i).pid :=
                  doRestart_pid (s := { s with batch := rest }) (Int.not_le.mp hp)
                have := hnone i
                rw [runTask, hkeep] at this
                exact hp this
  | check =>
      show Finishing (if s.free ∧ s.loopRunning = false then { s with left := true } else s)
      split
      · exact h
      · exact h

theorem gentle_start (K : Kernel) (cfgs : Fin n → ServiceConfig) :
    Gentle (create cfgs) (start K cfgs) := gentle_forServices fun _ _ => gentle_spawn

theorem finishing_run (K : Kernel) (cfgs : Fin n → ServiceConfig) (ls : List Label) :
    Finishing (run K cfgs ls) := by
  refine run_inv ?_ (fun s l hs => hs.step l) ls
  intro hdown
  exact Bool.noConfusion ((gentle_start K cfgs).shuttingDown.symm.trans hdown)

/-- **No hang at shutdown.**  In every reachable state in which the shutdown has begun and the
    thread is outside `on_sigchld`, the loop has been stopped, or a child is alive, or a dead child
    waits to be reaped and the signalfd is readable, so that the loop will wake up for it. -/
theorem shutdown_never_hangs (K : Kernel) (cfgs : Fin n → ServiceConfig) (ls : List Label)
    (hdown : (run K cfgs ls).shuttingDown = true) (hidle : (run K cfgs ls).pc = .idle) :
    let s := run K cfgs ls
    s.loopRunning = false ∨ s.live ≠ [] ∨ (s.dead ≠ [] ∧ s.sigPending = true) := by
  intro s
  have ht : Tracked s := tracked_run K cfgs ls
  obtain ⟨hheard, -, -⟩ := no_lost_exit K cfgs ls
  by_cases hnone : ∀ i, (s.services i).pid ≤ 0
  · exact .inl (finishing_run K cfgs ls hdown hidle hnone)
  · obtain ⟨i, hi⟩ := not_forall.mp hnone
    have hmem : (s.services i).pid ∈ s.unreaped :=
      ht.books.kernel.mem_iff.mpr ((ht.books.tracked _).mpr ⟨Int.not_le.mp hi, i, rfl⟩)
    rcases List.mem_append.mp hmem with hlive | hdead
    · exact .inr (.inl (List.ne_nil_of_mem hlive))
    · have hne : s.dead ≠ [] := fun hnil => by
        rw [hnil] at hdead
        cases hdead
      exact .inr (.inr ⟨hne, hheard hidle hne⟩)

/-- The shutdown has begun, and the child has not exited yet. -/
def stopping : List Label := [.post .beginShutdown, .doorbell, .task]

theorem shutdown_never_hangs_stopping :
    let s := run demoKernel demoCfgs stopping
    s.loopRunning = false ∨ s.live ≠ [] ∨ (s.dead ≠ [] ∧ s.sigPending = true) :=
  shutdown_never_hangs demoKernel demoCfgs stopping (by decide) (by decide)

/-! ## SIGKILL -/

/-- What a step does to the flag and the deadline, and which SIGKILLs it sends. -/
structure Paced (K : Kernel) (s : Sup n) (l : Label) (s' : Sup n) : Prop where
  /-- the deadline is kept, or armed by `begin_shutdown` -/
  deadline : (s'.shuttingDown = s.shuttingDown ∧ s'.killDeadline = s.killDeadline) ∨
    (shuts s l = true ∧ s'.killDeadline = K.clock s.reads + kGraceSec * nanos)
  kills : ∀ p, .killed p .kill ∈ s'.log.drop s.log.length →
    l = .tick ∧ s.shuttingDown = true ∧ s.killDeadline ≤ K.clock s.reads

theorem Gentle.paced {l : Label} (h : Gentle s s') : Paced K s l s' := by
  refine ⟨.inl ⟨h.shuttingDown, h.killDeadline⟩, fun p hp => ?_⟩
  obtain ⟨ext, hext, hmild⟩ := h.log
  rw [hext, List.drop_left] at hp
  exact absurd rfl ((hmild _ hp).2.2 p)

/-- `finish_if_drained` after something gentle. -/
theorem Gentle.paced_finish {l : Label} (h : Gentle s s') : Paced K s l (finishIfDrained s') := by
  obtain ⟨ext, hext, hmild⟩ := h.log
  obtain ⟨ext', hext', hstop⟩ := log_finishIfDrained (s := s')
  refine ⟨.inl ⟨?_, ?_⟩, fun p hp => ?_⟩
  · rw [shuttingDown_finishIfDrained]
    exact h.shuttingDown
  · rw [killDeadline_finishIfDrained]
    exact h.killDeadline
  · rw [hext', hext, List.append_assoc, List.drop_left] at hp
    rcases List.mem_append.mp hp with hp | hp
    · exact absurd rfl ((hmild _ hp).2.2 p)
    · exact absurd (hstop _ hp) (by simp)

/-- The loop of a tick after the deadline adds to the log and touches nothing else. -/
theorem killLoop_frame (l : List (Fin n)) : ∀ s : Sup n, ∃ ext,
    l.foldl (fun s i => killService .kill i s) s = { s with log := s.log ++ ext } := by
  induction l with
  | nil => intro s; exact ⟨[], by rw [List.append_nil]; rfl⟩
  | cons j l ih =>
      intro s
      obtain ⟨xs, hxs⟩ : ∃ xs, killService .kill j s = { s with log := s.log ++ xs } := by
        rw [killService]
        split
        · exact ⟨_, rfl⟩
        · exact ⟨[], by rw [List.append_nil]⟩
      obtain ⟨ys, hys⟩ := ih (killService .kill j s)
      refine ⟨xs ++ ys, ?_⟩
      rw [List.foldl_cons, hys, hxs, List.append_assoc]

theorem onTick_paced : Paced K s .tick (onTick K s) := by
  by_cases hdown : s.shuttingDown = true
  · rw [onTick_shutdown hdown]
    by_cases hdue : s.killDeadline ≤ K.clock s.reads
    · rw [if_pos hdue]
      obtain ⟨ext, hext⟩ := killLoop_frame (List.finRange n) { s with reads := s.reads + 1 }
      rw [forServices, hext]
      refine ⟨.inl ⟨?_, ?_⟩, fun _ _ => ⟨rfl, hdown, hdue⟩⟩
      · rw [shuttingDown_finishIfDrained]
      · rw [killDeadline_finishIfDrained]
    · rw [if_neg hdue]
      have hread : Gentle s { s with reads := s.reads + 1 } := .of_eq rfl rfl rfl rfl
      exact hread.paced_finish
  · exact (onTick_open (by simpa using hdown)).paced

/-- Every step is paced. -/
theorem step_paced (l : Label) : Paced K s l (step K s l) := by
  have hsame : ∀ l : Label, Paced K s l s := fun _ => (Gentle.refl s).paced
  have hkeep : ∀ (l : Label) {s' : Sup n}, s'.shuttingDown = s.shuttingDown →
      s'.loopRunning = s.loopRunning → s'.killDeadline = s.killDeadline → s'.log = s.log →
      Paced K s l s' := fun _ _ h₁ h₂ h₃ h₄ => (Gentle.of_eq h₁ h₂ h₃ h₄).paced
  cases l with
  | exit pid status =>
      show Paced K s (.exit pid status) (exitChild pid status s)
      rw [exitChild]
      split
      · have hrec : Gentle s (record (.exited pid) s) := gentle_record ⟨by simp, by simp, by simp⟩
        exact Gentle.paced ⟨rfl, rfl, rfl, hrec.log⟩
      · exact hsame _
  | sigchld =>
      show Paced K s .sigchld (if s.free then { s with pc := .drain } else s)
      split
      · exact hkeep _ rfl rfl rfl rfl
      · exact hsame _
  | read =>
      show Paced K s .read (readSignal s)
      rw [readSignal]
      split
      · split <;> exact hkeep _ rfl rfl rfl rfl
      · exact hsame _
  | waitpid k =>
      show Paced K s (.waitpid k) (waitpid K k s)
      rcases waitpid_gentle (K := K) (s := s) k with heq | ⟨hg, -⟩ | ⟨-, heq⟩
      · rw [heq]
        exact hsame _
      · exact hg.paced
      · rw [heq]
        exact Gentle.paced_finish (.of_eq rfl rfl rfl rfl)
  | tick =>
      show Paced K s .tick (if s.free then onTick K s else s)
      split
      · exact onTick_paced
      · exact hsame _
  | post t => exact hkeep _ rfl rfl rfl rfl
  | doorbell =>
      show Paced K s .doorbell (if s.free then { s with batch := s.tasks, tasks := [] } else s)
      split
      · exact hkeep _ rfl rfl rfl rfl
      · exact hsame _
  | task =>
      cases hb : s.batch with
      | nil =>
          rw [show step K s .task = s by rw [step, hb]]
          exact hsame _
      | cons t rest =>
          cases hleft : s.left with
          | true =>
              rw [show step K s .task = s by rw [step, hb, hleft]; rfl]
              exact hsame _
          | false =>
              have hstep : step K s .task = runTask K t { s with batch := rest } := by
                rw [step, hb, hleft]
                rfl
              have hbatch : Gentle s { s with batch := rest } := .of_eq rfl rfl rfl rfl
              rw [hstep]
              cases t with
              | restart name => exact (hbatch.trans gentle_doRestart).paced
              | beginShutdown =>
                  have hloop : Gentle (armShutdown K { s with batch := rest })
                      (forServices stopService (armShutdown K { s with batch := rest })) :=
                    gentle_forServices fun _ _ => gentle_stopService
                  -- the loop sends SIGTERM but no SIGKILL, and `finish_if_drained` sends nothing
                  obtain ⟨ext, hext, hmild⟩ := hloop.log
                  obtain ⟨ext', hext', hstop⟩ := log_finishIfDrained
                    (s := forServices stopService (armShutdown K { s with batch := rest }))
                  have hlog : (runTask K .beginShutdown { s with batch := rest }).log =
                      s.log ++ (.shutdown :: (ext ++ ext')) := by
                    refine (hext'.trans (congrArg (· ++ ext') hext)).trans ?_
                    show (s.log ++ [.shutdown]) ++ ext ++ ext' = _
                    rw [List.append_assoc, List.append_assoc]
                    rfl
                  have hshuts : shuts s .task = true := by simp [shuts, hb, hleft]
                  refine ⟨.inr ⟨hshuts, ?_⟩, fun p hp => ?_⟩
                  · refine killDeadline_finishIfDrained.trans ?_
                    exact hloop.killDeadline
                  · rw [hlog, List.drop_left] at hp
                    rcases List.mem_cons.mp hp with hp | hp
                    · cases hp
                    · rcases List.mem_append.mp hp with hp | hp
                      · exact absurd rfl ((hmild _ hp).2.2 p)
                      · exact absurd (hstop _ hp) (by simp)
  | check =>
      show Paced K s .check (if s.free ∧ s.loopRunning = false then { s with left := true } else s)
      split
      · exact hkeep _ rfl rfl rfl rfl
      · exact hsame _

/-- While the shutdown lasts, its deadline is the one a `begin_shutdown` of the run has armed. -/
theorem deadline_run (K : Kernel) (cfgs : Fin n → ServiceConfig) (ls : List Label)
    (hdown : (run K cfgs ls).shuttingDown = true) : ∃ pre post, ls = pre ++ .task :: post ∧
      shuts (run K cfgs pre) .task = true ∧
      (run K cfgs ls).killDeadline = K.clock (run K cfgs pre).reads + kGraceSec * nanos := by
  induction ls using List.reverseRecOn with
  | nil => exact Bool.noConfusion ((gentle_start K cfgs).shuttingDown.symm.trans hdown)
  | append_singleton ls l ih =>
      have hstep : Paced K (run K cfgs ls) l (run K cfgs (ls ++ [l])) := by
        rw [run_concat]
        exact step_paced l
      rcases hstep.deadline with ⟨hshut, hdead⟩ | ⟨hshuts, hdead⟩
      · obtain ⟨pre, post, hsplit, hpre, hd⟩ := ih (hshut.symm.trans hdown)
        exact ⟨pre, post ++ [l], by rw [hsplit]; simp, hpre, hdead.trans hd⟩
      · have hl : l = .task := by
          cases l with
          | task => rfl
          | _ => exact Bool.noConfusion hshuts
        subst hl
        exact ⟨ls, [], rfl, hshuts, hdead⟩

/-- The services that the loop of a tick has come to are killed. -/
theorem killLoop_kills (l : List (Fin n)) : ∀ t : Sup n, i ∈ l → 0 < (t.services i).pid →
    .killed (t.services i).pid .kill ∈ (l.foldl (fun s i => killService .kill i s) t).log.drop
      t.log.length := by
  induction l with
  | nil => intro t hi; cases hi
  | cons j l ih =>
      intro t hi hp
      obtain ⟨ext, hext⟩ := killLoop_frame l (killService .kill j t)
      rw [List.foldl_cons]
      rcases List.mem_cons.mp hi with rfl | hi
      · have hone : (killService .kill i t).log = t.log ++ [.killed (t.services i).pid .kill] := by
          rw [killService, if_pos hp]
          rfl
        rw [hext, hone, List.append_assoc, List.drop_left]
        exact List.mem_cons_self
      · obtain ⟨xs, hxs⟩ := killLoop_frame [j] t
        have hj : killService .kill j t = { t with log := t.log ++ xs } := hxs
        have hin := ih (killService .kill j t) hi (by rw [hj]; exact hp)
        rw [hext, List.drop_left] at hin
        rw [hext]
        show _ ∈ ((killService .kill j t).log ++ ext).drop t.log.length
        rw [hj, List.append_assoc, List.drop_left]
        refine List.mem_append_right _ ?_
        rw [hj] at hin
        exact hin

/-- **SIGKILL.**  In every run: whenever a step sends SIGKILL, it is a tick, and a `begin_shutdown`
    of the run has read the clock at least five seconds earlier; and a tick of a shutdown whose
    deadline has passed sends it to every service that still has a child. -/
theorem sigkill_after_grace (K : Kernel) (cfgs : Fin n → ServiceConfig) (ls : List Label)
    (l : Label) :
    let s := run K cfgs ls
    let new := (step K s l).log.drop s.log.length
    (∀ p, .killed p .kill ∈ new → l = .tick ∧ ∃ pre post, ls = pre ++ .task :: post ∧
      shuts (run K cfgs pre) .task = true ∧
      K.clock (run K cfgs pre).reads + kGraceSec * nanos ≤ K.clock s.reads) ∧
    (l = .tick → s.free = true → s.shuttingDown = true → s.killDeadline ≤ K.clock s.reads →
      ∀ i, 0 < (s.services i).pid → .killed (s.services i).pid .kill ∈ new) := by
  intro s new
  refine ⟨fun p hp => ?_, ?_⟩
  · obtain ⟨hl, hdown, hdue⟩ := (step_paced (K := K) (s := s) l).kills p hp
    obtain ⟨pre, post, hsplit, hpre, hd⟩ := deadline_run K cfgs ls hdown
    exact ⟨hl, pre, post, hsplit, hpre, hd ▸ hdue⟩
  · rintro rfl hfree hdown hdue i hi
    have hstep : step K s .tick = finishIfDrained
        (forServices (killService .kill) { s with reads := s.reads + 1 }) := by
      rw [show step K s .tick = onTick K s from if_pos hfree, onTick_shutdown hdown, if_pos hdue]
    have hin := killLoop_kills (List.finRange n) { s with reads := s.reads + 1 }
      (List.mem_finRange i) hi
    obtain ⟨ext, hext⟩ := killLoop_frame (List.finRange n) { s with reads := s.reads + 1 }
    obtain ⟨ext', hext', -⟩ := log_finishIfDrained
      (s := forServices (killService .kill) { s with reads := s.reads + 1 })
    rw [hext, List.drop_left] at hin
    show _ ∈ (step K s .tick).log.drop s.log.length
    rw [hstep, hext', forServices, hext, List.append_assoc, List.drop_left]
    exact List.mem_append_left _ hin

/-! ## SIGTERM -/

def toldEvent (ps : List Int) : Event n → List Int
  | .killed p .term => p :: ps
  | .forked _ p => ps.filter (· ≠ p)
  | _ => ps

/-- The pids that were sent SIGTERM since they were forked. -/
def toldOf (log : List (Event n)) : List Int := log.foldl toldEvent []

/-- `p` was forked for service `i` after the shutdown had begun. -/
def ForkedLate (i : Fin n) (p : Int) (log : List (Event n)) : Prop :=
  ∃ pre post, log = pre ++ post ∧ .shutdown ∈ pre ∧ .forked i p ∈ post

/-- During a shutdown every child was told to stop, or is younger than the shutdown. -/
def Told (s : Sup n) : Prop :=
  s.shuttingDown = true → .shutdown ∈ s.log ∧ ∀ i, 0 < (s.services i).pid →
    (s.services i).pid ∈ toldOf s.log ∨ ForkedLate i (s.services i).pid s.log

/-- Events without a `fork` forget nobody who was told. -/
theorem toldOf_append {log ext : List (Event n)} {p : Int} (h : p ∈ toldOf log)
    (hext : ∀ e ∈ ext, ∀ j q, e ≠ .forked j q) : p ∈ toldOf (log ++ ext) := by
  rw [toldOf, List.foldl_append]
  have hfold : ∀ (ext : List (Event n)) (ps : List Int), p ∈ ps →
      (∀ e ∈ ext, ∀ j q, e ≠ .forked j q) → p ∈ ext.foldl toldEvent ps := by
    intro ext
    induction ext with
    | nil => intro ps hps _; exact hps
    | cons e ext ih =>
        intro ps hps hno
        refine ih _ ?_ fun e' he' => hno e' (List.mem_cons_of_mem _ he')
        cases e with
        | forked j q => exact absurd rfl (hno _ List.mem_cons_self j q)
        | killed q sig =>
            cases sig with
            | term => exact List.mem_cons_of_mem _ hps
            | kill => exact hps
        | _ => exact hps
  exact hfold ext _ h hext

theorem ForkedLate.append {log : List (Event n)} {p : Int} (h : ForkedLate i p log)
    (ext : List (Event n)) : ForkedLate i p (log ++ ext) := by
  obtain ⟨pre, post, rfl, hpre, hpost⟩ := h
  exact ⟨pre, post ++ ext, by rw [List.append_assoc], hpre, List.mem_append_left _ hpost⟩

/-- No child is forked, and none is put down as another. -/
structure Barren (s s' : Sup n) : Prop where
  shuttingDown : s'.shuttingDown = true → s.shuttingDown = true
  pid : ∀ i, 0 < (s'.services i).pid → (s'.services i).pid = (s.services i).pid
  log : ∃ ext, s'.log = s.log ++ ext ∧ ∀ e ∈ ext, ∀ j q, e ≠ .forked j q

theorem Told.barren (h : Told s) (hb : Barren s s') : Told s' := by
  intro hdown
  obtain ⟨hbegun, hall⟩ := h (hb.shuttingDown hdown)
  obtain ⟨ext, hext, hno⟩ := hb.log
  rw [hext]
  refine ⟨List.mem_append_left _ hbegun, fun i hi => ?_⟩
  have hpid := hb.pid i hi
  rw [hpid] at hi ⊢
  rcases hall i hi with htold | hlate
  · exact .inl (toldOf_append htold hno)
  · exact .inr (hlate.append ext)

theorem Barren.of_eq (hshut : s'.shuttingDown = s.shuttingDown)
    (hpid : ∀ i, (s'.services i).pid = (s.services i).pid) (hlog : s'.log = s.log) :
    Barren s s' :=
  ⟨fun h => hshut ▸ h, fun i _ => hpid i, [], by rw [hlog, List.append_nil],
    fun e he => absurd he List.not_mem_nil⟩

theorem Barren.trans (h : Barren s s') (h' : Barren s' s'') : Barren s s'' := by
  obtain ⟨xs, hxs, hx⟩ := h.log
  obtain ⟨ys, hys, hy⟩ := h'.log
  refine ⟨fun hd => h.shuttingDown (h'.shuttingDown hd), fun i hi => ?_, xs ++ ys, ?_,
    fun e he => ?_⟩
  · have hpid := h'.pid i hi
    rw [hpid] at hi ⊢
    exact h.pid i hi
  · rw [hys, hxs, List.append_assoc]
  · rcases List.mem_append.mp he with he | he
    · exact hx e he
    · exact hy e he

theorem barren_record {e : Event n} (he : ∀ j q, e ≠ .forked j q) : Barren s (record e s) :=
  ⟨id, fun _ _ => rfl, [e], rfl, fun e' he' => by rwa [List.mem_singleton.mp he']⟩

theorem barren_kill {p : Int} {sig : Signal} : Barren s (record (.killed p sig) s) :=
  barren_record (by simp)

theorem barren_finishIfDrained : Barren s (finishIfDrained s) := by
  rw [finishIfDrained]
  split
  · exact .of_eq rfl (fun _ => rfl) rfl
  · have hrec : Barren s (record .stop s) := barren_record (by simp)
    exact ⟨id, fun _ _ => rfl, hrec.log⟩

/-- In a shutdown a turn of the reap loop only strikes a child off. -/
theorem barren_reapService {pid : Int} {status : WaitStatus} (hdown : s.shuttingDown = true) :
    Barren s (reapService K i pid status s) := by
  rw [reapService_eq, if_pos hdown]
  refine ⟨id, fun j hj => ?_, [.branch i pid .stopped], rfl, by simp⟩
  by_cases hji : j = i
  · have hself : ((record (.branch i pid .stopped) ((cleared i s).setService i
        { (cleared i s).services i with state := .stopped })).services j).pid = -1 := by
      rw [hji]
      refine (congrArg Service.pid setService_self).trans ?_
      rw [cleared_self]
    rw [hself] at hj
    exact absurd hj (by decide)
  · exact congrArg Service.pid ((setService_of_ne hji).trans (cleared_of_ne hji))

theorem barren_waitpid {k : Nat} (hdown : s.shuttingDown = true) : Barren s (waitpid K k s) := by
  rw [waitpid]
  split
  · split
    · dsimp only
      have hidle : Barren s { s with pc := .idle } := .of_eq rfl (fun _ => rfl) rfl
      rw [if_pos hdown]
      exact hidle.trans barren_finishIfDrained
    · cases s.dead[k]? with
      | none => exact .of_eq rfl (fun _ => rfl) rfl
      | some d =>
          have hcol : Barren s (s.collect d.1 k) := ⟨id, fun _ _ => rfl, [.reaped d.1], rfl, by simp⟩
          show Barren s (reapChild K d.1 d.2 (s.collect d.1 k))
          rw [reapChild]
          split
          · exact hcol
          · exact hcol.trans (barren_reapService hdown)
  · exact .of_eq rfl (fun _ => rfl) rfl

theorem barren_onTick (hdown : s.shuttingDown = true) : Barren s (onTick K s) := by
  rw [onTick_shutdown hdown]
  refine Barren.trans ?_ barren_finishIfDrained
  split
  · obtain ⟨ext, hext⟩ := killLoop_frame (List.finRange n) { s with reads := s.reads + 1 }
    have hread : Barren s { s with reads := s.reads + 1 } := .of_eq rfl (fun _ => rfl) rfl
    refine hread.trans ?_
    refine forServices_inv (P := Barren { s with reads := s.reads + 1 }) ?_
      (.of_eq rfl (fun _ => rfl) rfl)
    intro j t ht
    rw [killService]
    split
    · exact ht.trans barren_kill
    · exact ht
  · exact .of_eq rfl (fun _ => rfl) rfl

theorem barren_stopService : Barren s (stopService i s) := by
  rw [stopService]
  split
  · exact barren_kill
  · refine .of_eq rfl (fun j => ?_) rfl
    by_cases hj : j = i
    · rw [hj, setService_self]
    · rw [setService_of_ne hj]

/-- The loop of `begin_shutdown` tells every service it comes to. -/
theorem stopLoop_tells (l : List (Fin n)) : ∀ t : Sup n,
    Barren t (l.foldl (fun s i => stopService i s) t) ∧ ∀ i ∈ l, 0 < (t.services i).pid →
      (t.services i).pid ∈ toldOf (l.foldl (fun s i => stopService i s) t).log := by
  induction l with
  | nil => intro t; exact ⟨.of_eq rfl (fun _ => rfl) rfl, fun i hi => absurd hi List.not_mem_nil⟩
  | cons j l ih =>
      intro t
      obtain ⟨hb, htold⟩ := ih (stopService j t)
      refine ⟨barren_stopService.trans hb, fun i hi hp => ?_⟩
      rw [List.foldl_cons]
      have hpid : ((stopService j t).services i).pid = (t.services i).pid := by
        rw [stopService]
        split
        · rfl
        · by_cases hij : i = j
          · rw [hij, setService_self]
          · rw [setService_of_ne hij]
      rcases List.mem_cons.mp hi with rfl | hi
      · obtain ⟨ext, hext, hno⟩ := hb.log
        rw [hext]
        refine toldOf_append ?_ hno
        rw [stopService, if_pos hp]
        show _ ∈ toldOf (t.log ++ [.killed (t.services i).pid .term])
        rw [toldOf, List.foldl_append]
        exact List.mem_cons_self
      · rw [← hpid]
        exact htold i hi (by rw [hpid]; exact hp)

theorem told_beginShutdown : Told (beginShutdown K s) := by
  obtain ⟨hb, htold⟩ := stopLoop_tells (List.finRange n) (armShutdown K s)
  have hloop : Told (forServices stopService (armShutdown K s)) := by
    intro _
    obtain ⟨ext, hext, -⟩ := hb.log
    refine ⟨?_, fun i hi => .inl ?_⟩
    · rw [forServices, hext]
      exact List.mem_append_left _ (List.mem_append_right _ (List.mem_singleton_self _))
    · have hpid := hb.pid i hi
      rw [forServices, hpid]
      refine htold i (List.mem_finRange i) ?_
      rw [← hpid]
      exact hi
  exact hloop.barren barren_finishIfDrained

/-- Launching a service that has no child. -/
theorem Told.spawn (h : Told s) (hchild : ∀ j, 0 < (s.services j).pid →
    (s.services j).pid ∈ s.unreaped) : Told (spawn K i s) := by
  cases hf : K.fork s.forks s.unreaped with
  | none =>
      -- the failed fork gives no service a child
      have hs : Sup.spawn K i s =
          scheduleRestart K i (record (.forkFailed i) { s with forks := s.forks + 1 }) := by
        rw [Sup.spawn, hf]
      rw [hs]
      refine h.barren ⟨id, fun j _ => ?_, [.forkFailed i], rfl, by simp⟩
      by_cases hj : j = i
      · rw [hj]
        exact (congrArg Service.pid setService_self).trans rfl
      · exact congrArg Service.pid (setService_of_ne hj)
  | some pid =>
      rw [Sup.spawn, hf]
      intro hdown
      obtain ⟨hbegun, hall⟩ := h hdown
      refine ⟨List.mem_append_left _ hbegun, fun j hj => ?_⟩
      by_cases hji : j = i
      · -- the new child is one forked late
        subst hji
        refine .inr ⟨s.log, [.forked j pid], rfl, hbegun, ?_⟩
        have hpid : (setService j { s.services j with
            pid := pid, state := .running, isDown := false, lastStart := K.clock s.reads }
              s).services j = { s.services j with
            pid := pid, state := .running, isDown := false, lastStart := K.clock s.reads } :=
          setService_self
        exact List.mem_singleton.mpr (congrArg (fun v : Service => Event.forked j v.pid) hpid)
      · -- another one keeps its pid, which is not the new child's
        have hsame : (setService i { s.services i with
            pid := pid, state := .running, isDown := false, lastStart := K.clock s.reads }
              s).services j = s.services j := setService_of_ne hji
        have hpid := congrArg Service.pid hsame
        have hj' : 0 < (s.services j).pid := hpid ▸ hj
        have hne : (s.services j).pid ≠ pid := fun heq =>
          K.fork_fresh hf (heq ▸ hchild j hj')
        have hgoal : (s.services j).pid ∈ toldOf (s.log ++ [.forked i pid]) ∨
            ForkedLate j (s.services j).pid (s.log ++ [.forked i pid]) := by
          rcases hall j hj' with htold | hlate
          · refine .inl ?_
            rw [toldOf, List.foldl_append]
            exact List.mem_filter.mpr ⟨htold, by simpa using hne⟩
          · exact .inr (hlate.append _)
        exact hpid ▸ hgoal

theorem Told.doRestart (h : Told s) (ht : Tracked s) {name : String} :
    Told (doRestart K name s).2 := by
  rw [Sup.doRestart]
  cases s.findByName name with
  | none => exact h
  | some i =>
      have hwrite : ∀ v : Service, v.pid = (s.services i).pid →
          Barren s ((clearBreaker i s).setService i v) := by
        intro v hv
        refine ⟨id, fun j _ => ?_, [.restarted i], rfl, by simp⟩
        by_cases hj : j = i
        · rw [hj, setService_self, hv]
        · rw [setService_of_ne hj]
          exact congrArg Service.pid (setService_of_ne hj)
      have hpid : ((clearBreaker i s).services i).pid = (s.services i).pid := by
        rw [clearBreaker_self]
      dsimp only
      split
      · -- it has a child, which gets a SIGTERM
        refine Told.barren ?_ barren_kill
        exact h.barren (hwrite _ hpid)
      · -- it has none, and is launched at once
        refine Told.spawn (h.barren (hwrite _ hpid)) fun j hj => ?_
        have hkeep := (hwrite { (clearBreaker i s).services i with
          currentBackoffSec := 0, wantsRestart := false } hpid).pid j hj
        rw [hkeep] at hj ⊢
        exact ht.books.kernel.mem_iff.mpr ((ht.books.tracked _).mpr ⟨hj, j, rfl⟩)

theorem Told.step (h : Told s) (ht : Tracked s) (l : Label) : Told (step K s l) := by
  by_cases hdown : s.shuttingDown = true
  · have hkeep : ∀ s' : Sup n, s'.shuttingDown = s.shuttingDown → s'.services = s.services →
        s'.log = s.log → Told s' := fun s' h₁ h₂ h₃ =>
      h.barren (.of_eq h₁ (fun i => by rw [h₂]) h₃)
    cases l with
    | exit pid status =>
        show Told (exitChild pid status s)
        rw [exitChild]
        split
        · exact h.barren ⟨id, fun _ _ => rfl, [.exited pid], rfl, by simp⟩
        · exact h
    | sigchld =>
        show Told (if s.free then { s with pc := .drain } else s)
        split
        · exact hkeep _ rfl rfl rfl
        · exact h
    | read =>
        show Told (readSignal s)
        rw [readSignal]
        split
        · split <;> exact hkeep _ rfl rfl rfl
        · exact h
    | waitpid k => exact h.barren (barren_waitpid hdown)
    | tick =>
        show Told (if s.free then onTick K s else s)
        split
        · exact h.barren (barren_onTick hdown)
        · exact h
    | post t => exact hkeep _ rfl rfl rfl
    | doorbell =>
        show Told (if s.free then { s with batch := s.tasks, tasks := [] } else s)
        split
        · exact hkeep _ rfl rfl rfl
        · exact h
    | task =>
        rw [Sup.step]
        cases s.batch with
        | nil => exact h
        | cons t rest =>
            dsimp only
            split
            · exact h
            · cases t with
              | beginShutdown => exact told_beginShutdown
              | restart name =>
                  have hnext : Told { s with batch := rest } := hkeep _ rfl rfl rfl
                  have htnext : Tracked { s with batch := rest } :=
                    ht.quiet ⟨rfl, rfl, rfl, rfl, rfl, rfl, rfl⟩
                  exact hnext.doRestart htnext
    | check =>
        show Told (if s.free ∧ s.loopRunning = false then { s with left := true } else s)
        split
        · exact hkeep _ rfl rfl rfl
        · exact h
  · rcases (step_paced (K := K) (s := s) l).deadline with ⟨hshut, -⟩ | ⟨hshuts, -⟩
    · intro hdown'
      exact absurd (hshut.symm.trans hdown') hdown
    · -- the shutdown begins with this step
      cases l with
      | task =>
          rw [Sup.step]
          cases hb : s.batch with
          | nil => simp [shuts, hb] at hshuts
          | cons t rest =>
              cases t with
              | restart name => simp [shuts, hb] at hshuts
              | beginShutdown =>
                  have hleft : s.left = false := by simpa [shuts, hb] using hshuts
                  rw [hleft]
                  exact told_beginShutdown
      | _ => exact Bool.noConfusion hshuts

/-- **SIGTERM.**  In every reachable state in which the shutdown has begun, every child that a
    service still has was sent SIGTERM after it was forked, unless it was forked after the shutdown
    had begun. -/
theorem sigterm_to_all (K : Kernel) (cfgs : Fin n → ServiceConfig) (ls : List Label)
    (hdown : (run K cfgs ls).shuttingDown = true) (i : Fin n)
    (hchild : 0 < ((run K cfgs ls).services i).pid) :
    ((run K cfgs ls).services i).pid ∈ toldOf (run K cfgs ls).log ∨
      ForkedLate i ((run K cfgs ls).services i).pid (run K cfgs ls).log := by
  have hrun : Tracked (run K cfgs ls) ∧ Told (run K cfgs ls) := by
    refine run_inv (P := fun s : Sup n => Tracked s ∧ Told s) ?_
      (fun s l hs => ⟨hs.1.step l, hs.2.step hs.1 l⟩) ls
    refine ⟨tracked_start K cfgs, fun hdown => ?_⟩
    exact Bool.noConfusion ((gentle_start K cfgs).shuttingDown.symm.trans hdown)
  exact (hrun.2 hdown).2 i hchild

theorem sigterm_to_all_stopping :
    let s := run demoKernel demoCfgs stopping
    (s.services 0).pid ∈ toldOf s.log ∨ ForkedLate 0 (s.services 0).pid s.log :=
  sigterm_to_all demoKernel demoCfgs stopping (by decide) 0 (by decide)

end Sup

end CastlePlus
