import CastlePlus.SupervisorTracking

/-! # No exit of a child is lost

    `SIGCHLD` coalesces: any number of deaths leave one pending signal, and
    children die between the drain of the signalfd and the last `waitpid`.

    * `Heard`: outside `on_sigchld` a dead child has left the signalfd readable;
    * `Accounted`: every exit was handled by one turn of the reap loop, or its
      child is still waiting to be reaped. -/

namespace CastlePlus

namespace Sup

variable {n : Nat}

def branchesOf (log : List (Event n)) : List (Fin n × Int × Branch) :=
  log.filterMap fun | .branch i pid b => some (i, pid, b) | _ => none

def reapsOf (log : List (Event n)) : List Int :=
  log.filterMap fun | .reaped pid => some pid | _ => none

def exitsOf (log : List (Event n)) : List Int :=
  log.filterMap fun | .exited pid => some pid | _ => none

/-- The children handled by the reap loop, one entry for each turn. -/
def handledOf (log : List (Event n)) : List Int := (branchesOf log).map fun b => b.2.1

theorem branchesOf_append (xs ys : List (Event n)) :
    branchesOf (xs ++ ys) = branchesOf xs ++ branchesOf ys := List.filterMap_append

theorem reapsOf_append (xs ys : List (Event n)) :
    reapsOf (xs ++ ys) = reapsOf xs ++ reapsOf ys := List.filterMap_append

theorem exitsOf_append (xs ys : List (Event n)) :
    exitsOf (xs ++ ys) = exitsOf xs ++ exitsOf ys := List.filterMap_append

theorem handledOf_append (xs ys : List (Event n)) :
    handledOf (xs ++ ys) = handledOf xs ++ handledOf ys := by
  unfold handledOf
  rw [branchesOf_append, List.map_append]

/-- No exit, no reap and no branch of the reap loop is among the events. -/
structure Silent (ext : List (Event n)) : Prop where
  branches : branchesOf ext = []
  reaps : reapsOf ext = []
  exits : exitsOf ext = []

/-- `s'` is `s` after something that does not concern the reap loop. -/
structure Aside (s s' : Sup n) : Prop where
  dead : s'.dead = s.dead
  pc : s'.pc = s.pc
  sigPending : s'.sigPending = s.sigPending
  log : ∃ ext, Silent ext ∧ s'.log = s.log ++ ext

variable {s s' s'' : Sup n} {i : Fin n} {K : Kernel}

theorem Silent.append {xs ys : List (Event n)} (hx : Silent xs) (hy : Silent ys) :
    Silent (xs ++ ys) := by
  refine ⟨?_, ?_, ?_⟩
  · rw [branchesOf_append, hx.branches, hy.branches]
    rfl
  · rw [reapsOf_append, hx.reaps, hy.reaps]
    rfl
  · rw [exitsOf_append, hx.exits, hy.exits]
    rfl

theorem Aside.refl (s : Sup n) : Aside s s :=
  ⟨rfl, rfl, rfl, [], ⟨rfl, rfl, rfl⟩, (List.append_nil _).symm⟩

theorem Aside.trans (h : Aside s s') (h' : Aside s' s'') : Aside s s'' := by
  obtain ⟨xs, hx, hlog⟩ := h.log
  obtain ⟨ys, hy, hlog'⟩ := h'.log
  refine ⟨h'.dead.trans h.dead, h'.pc.trans h.pc, h'.sigPending.trans h.sigPending, xs ++ ys,
    hx.append hy, ?_⟩
  rw [hlog', hlog, List.append_assoc]

theorem aside_record {e : Event n} (he : Silent [e]) : Aside s (s.record e) :=
  ⟨rfl, rfl, rfl, [e], he, rfl⟩

theorem aside_setService {v : Service} : Aside s (s.setService i v) :=
  ⟨rfl, rfl, rfl, [], ⟨rfl, rfl, rfl⟩, (List.append_nil _).symm⟩

theorem aside_scheduleRestart : Aside s (scheduleRestart K i s) :=
  ⟨rfl, rfl, rfl, [], ⟨rfl, rfl, rfl⟩, (List.append_nil _).symm⟩

theorem aside_spawn : Aside s (spawn K i s) := by
  rw [spawn]
  cases K.fork s.forks s.unreaped with
  | none => exact ⟨rfl, rfl, rfl, [.forkFailed i], ⟨rfl, rfl, rfl⟩, rfl⟩
  | some pid => exact ⟨rfl, rfl, rfl, [.forked i pid], ⟨rfl, rfl, rfl⟩, rfl⟩

theorem aside_markDown : Aside s (markDown K i s) := by
  rw [markDown]
  dsimp only
  split
  · exact Aside.refl s
  · exact ⟨rfl, rfl, rfl, [], ⟨rfl, rfl, rfl⟩, (List.append_nil _).symm⟩

theorem aside_finishIfDrained : Aside s (finishIfDrained s) := by
  rw [finishIfDrained]
  split
  · exact Aside.refl s
  · exact ⟨rfl, rfl, rfl, [.stop], ⟨rfl, rfl, rfl⟩, rfl⟩

theorem aside_tickService {now : Int} : Aside s (tickService K now i s) := by
  have hrelaunch : Aside s (relaunchIfDue K now i s) := by
    rw [relaunchIfDue]
    split
    · exact aside_spawn
    · exact Aside.refl s
  refine hrelaunch.trans ?_
  show Aside _ (checkHealth K now i (relaunchIfDue K now i s))
  rw [checkHealth]
  dsimp only
  split
  · exact ⟨rfl, rfl, rfl, [], ⟨rfl, rfl, rfl⟩, (List.append_nil _).symm⟩
  · exact Aside.refl _

theorem aside_killService {sig : Signal} : Aside s (killService sig i s) := by
  rw [killService]
  split
  · exact aside_record ⟨rfl, rfl, rfl⟩
  · exact Aside.refl s

theorem aside_stopService : Aside s (stopService i s) := by
  rw [stopService]
  split
  · exact aside_record ⟨rfl, rfl, rfl⟩
  · exact aside_setService

theorem aside_forServices {f : Fin n → Sup n → Sup n} (hf : ∀ i s, Aside s (f i s)) :
    Aside s (forServices f s) :=
  forServices_inv (P := Aside s) (fun i t ht => ht.trans (hf i t)) (Aside.refl s)

theorem aside_onTick : Aside s (onTick K s) := by
  have hread : Aside s { s with reads := s.reads + 1 } :=
    ⟨rfl, rfl, rfl, [], ⟨rfl, rfl, rfl⟩, (List.append_nil _).symm⟩
  rw [onTick]
  dsimp only
  split
  · refine Aside.trans ?_ aside_finishIfDrained
    split
    · exact hread.trans (aside_forServices fun i s => aside_killService)
    · exact hread
  · exact hread.trans (aside_forServices fun i s => aside_tickService)

theorem aside_runTask {t : Task} : Aside s (runTask K t s) := by
  cases t with
  | beginShutdown =>
      refine Aside.trans ?_ aside_finishIfDrained
      refine Aside.trans ?_ (aside_forServices fun i s => aside_stopService)
      exact ⟨rfl, rfl, rfl, [.shutdown], ⟨rfl, rfl, rfl⟩, rfl⟩
  | restart name =>
      show Aside s (doRestart K name s).2
      rw [doRestart]
      cases s.findByName name with
      | none => exact Aside.refl s
      | some i =>
          have hclear : Aside s (clearBreaker i s) :=
            ⟨rfl, rfl, rfl, [.restarted i], ⟨rfl, rfl, rfl⟩, rfl⟩
          dsimp only
          split
          · exact (hclear.trans aside_setService).trans (aside_record ⟨rfl, rfl, rfl⟩)
          · exact (hclear.trans aside_setService).trans aside_spawn

/-! ## One turn of the reap loop -/

/-- A turn takes exactly one branch, whatever it then does. -/
structure TurnTaken (i : Fin n) (pid : Int) (s s' : Sup n) : Prop where
  dead : s'.dead = s.dead
  pc : s'.pc = s.pc
  sigPending : s'.sigPending = s.sigPending
  log : ∃ b ext, branchesOf ext = [(i, pid, b)] ∧ reapsOf ext = [] ∧ exitsOf ext = [] ∧
    s'.log = s.log ++ ext

theorem TurnTaken.of_branch {pid : Int} {b : Branch} {s₁ s₂ : Sup n} (h : Aside s s₁)
    (hb : s₂ = record (.branch i pid b) s₁) (h' : Aside s₂ s') : TurnTaken i pid s s' := by
  subst hb
  obtain ⟨xs, hx, hlog⟩ := h.log
  obtain ⟨ys, hy, hlog'⟩ := h'.log
  refine ⟨h'.dead.trans h.dead, h'.pc.trans h.pc, h'.sigPending.trans h.sigPending, b,
    xs ++ [.branch i pid b] ++ ys, ?_, ?_, ?_, ?_⟩
  · rw [branchesOf_append, branchesOf_append, hx.branches, hy.branches]
    rfl
  · rw [reapsOf_append, reapsOf_append, hx.reaps, hy.reaps]
    rfl
  · rw [exitsOf_append, exitsOf_append, hx.exits, hy.exits]
    rfl
  · rw [hlog', ← List.append_assoc, ← List.append_assoc, ← hlog]
    rfl

theorem aside_cleared : Aside s (cleared i s) :=
  ⟨rfl, rfl, rfl, [], ⟨rfl, rfl, rfl⟩, (List.append_nil _).symm⟩

theorem unexpectedExit_turn {pid : Int} {status : WaitStatus} :
    TurnTaken i pid s (unexpectedExit K i pid status s) := by
  have hrec : Aside s (recordFailure K i status s) :=
    ⟨rfl, rfl, rfl, [.failure i (K.clock s.reads)], ⟨rfl, rfl, rfl⟩, rfl⟩
  unfold unexpectedExit
  dsimp only
  split
  · exact TurnTaken.of_branch (hrec.trans aside_setService) rfl aside_markDown
  · split
    · exact TurnTaken.of_branch (hrec.trans aside_setService) rfl aside_markDown
    · exact TurnTaken.of_branch hrec rfl aside_scheduleRestart

theorem reapService_turn {pid : Int} {status : WaitStatus} :
    TurnTaken i pid s (reapService K i pid status s) := by
  rw [reapService_eq]
  split
  · exact TurnTaken.of_branch (aside_cleared.trans aside_setService) rfl (Aside.refl _)
  · split
    · exact TurnTaken.of_branch (aside_cleared.trans aside_setService) rfl aside_spawn
    · have hturn : TurnTaken i pid (cleared i s) (unexpectedExit K i pid status (cleared i s)) :=
        unexpectedExit_turn
      exact ⟨hturn.dead, hturn.pc, hturn.sigPending, hturn.log⟩

/-- A `waitpid` that returns a child of the supervisor. -/
theorem waitpid_turn {k : Nat} {pid : Int} {status : WaitStatus} (h : Tracked s)
    (hpc : s.pc = .reap) (hk : s.dead[k]? = some (pid, status)) :
    ∃ i, (s.services i).pid = pid ∧ TurnTaken i pid (s.collect pid k) (waitpid K k s) := by
  have hne : s.dead ≠ [] := by
    intro hnil
    rw [hnil] at hk
    cases hk
  have hmem : pid ∈ s.unreaped :=
    List.mem_append_right _ (List.mem_map.mpr ⟨(pid, status), List.mem_of_getElem? hk, rfl⟩)
  rw [waitpid]
  rw [if_pos hpc, if_neg hne, hk]
  dsimp only
  rw [reapChild]
  cases hf : findByPid pid (s.collect pid k) with
  | some i => exact ⟨i, findByPid_some hf, reapService_turn⟩
  | none =>
      obtain ⟨-, j, hj⟩ := (h.books.tracked pid).mp (h.books.kernel.mem_iff.mp hmem)
      exact absurd hj (findByPid_none hf j)

/-! ## The invariants -/

/-- Outside `on_sigchld` the signalfd is readable while a dead child waits. -/
def Heard (s : Sup n) : Prop := s.pc = .idle → s.dead ≠ [] → s.sigPending = true

/-- Each exit was handled once, or its child is still to be reaped. -/
def Accounted (s : Sup n) : Prop :=
  ∀ p, (exitsOf s.log).count p = (handledOf s.log).count p + (s.dead.map Prod.fst).count p

theorem Heard.aside (h : Heard s) (ha : Aside s s') : Heard s' := by
  rw [Heard]
  rw [ha.pc, ha.dead, ha.sigPending]
  exact h

theorem Accounted.aside (h : Accounted s) (ha : Aside s s') : Accounted s' := by
  obtain ⟨ext, hext, hlog⟩ := ha.log
  intro p
  rw [hlog, ha.dead, exitsOf_append, hext.exits, List.append_nil, handledOf_append,
    show handledOf ext = [] from congrArg (List.map _) hext.branches, List.append_nil]
  exact h p

/-- A turn of the reap loop moves one child from the dead to the handled. -/
theorem Accounted.waitpid {k : Nat} {pid : Int} {status : WaitStatus} (h : Accounted s)
    (hk : s.dead[k]? = some (pid, status)) (hturn : TurnTaken i pid (s.collect pid k) s') :
    Accounted s' := by
  obtain ⟨b, ext, hbr, -, hex, hlog⟩ := hturn.log
  obtain ⟨hlt, hget⟩ := List.getElem?_eq_some_iff.mp hk
  have hlog' : s'.log = s.log ++ [.reaped pid] ++ ext := hlog
  have hdead : s'.dead = s.dead.eraseIdx k := hturn.dead
  have hperm := ((List.getElem_cons_eraseIdx_perm hlt).map Prod.fst)
  rw [List.map_cons, hget] at hperm
  dsimp only at hperm
  intro p
  have hcount := hperm.count_eq p
  rw [List.count_cons] at hcount
  rw [hlog', hdead, exitsOf_append, exitsOf_append, hex, handledOf_append, handledOf_append,
    show handledOf ext = [pid] from congrArg (List.map _) hbr, List.append_nil]
  rw [show exitsOf [Event.reaped (n := n) pid] = [] from rfl,
    show handledOf [Event.reaped (n := n) pid] = [] from rfl, List.append_nil, List.append_nil,
    List.count_append, List.count_singleton, h p]
  omega

theorem Accounted.exitChild {pid : Int} {status : WaitStatus} (h : Accounted s) :
    Accounted (exitChild pid status s) := by
  rw [Sup.exitChild]
  split
  · intro p
    show (exitsOf (s.log ++ [.exited pid])).count p =
      (handledOf (s.log ++ [.exited pid])).count p +
        ((s.dead ++ [(pid, status)]).map Prod.fst).count p
    rw [exitsOf_append, handledOf_append, List.map_append, List.count_append, List.count_append,
      List.count_append, h p]
    show _ + List.count p [pid] = _ + 0 + (_ + List.count p [pid])
    omega
  · exact h

/-- One `waitpid`: it leaves the loop with no child dead, handles one, or (an
    index the kernel never picks) does nothing. -/
theorem waitpid_cases (K : Kernel) (k : Nat) (h : Tracked s) :
    (s.pc = .reap ∧ s.dead = [] ∧ (waitpid K k s).dead = [] ∧
      (waitpid K k s).sigPending = s.sigPending ∧ Aside { s with pc := .idle } (waitpid K k s)) ∨
    (∃ pid status i, s.pc = .reap ∧ s.dead[k]? = some (pid, status) ∧
      (s.services i).pid = pid ∧ TurnTaken i pid (s.collect pid k) (waitpid K k s)) ∨
    waitpid K k s = s := by
  by_cases hpc : s.pc = .reap
  · by_cases hdead : s.dead = []
    · left
      have haside : Aside { s with pc := .idle } (waitpid K k s) := by
        rw [waitpid]
        rw [if_pos hpc, if_pos hdead]
        dsimp only
        split
        · exact aside_finishIfDrained
        · exact Aside.refl _
      exact ⟨hpc, hdead, haside.dead.trans hdead, haside.sigPending, haside⟩
    · right
      cases hk : s.dead[k]? with
      | none =>
          right
          rw [waitpid]
          rw [if_pos hpc, if_neg hdead, hk]
      | some d =>
          left
          obtain ⟨pid, status⟩ := d
          obtain ⟨i, hi, hturn⟩ := waitpid_turn (K := K) h hpc hk
          exact ⟨pid, status, i, hpc, rfl, hi, hturn⟩
  · right
    right
    rw [waitpid]
    rw [if_neg hpc]

theorem Accounted.step (ht : Tracked s) (h : Accounted s) (l : Label) :
    Accounted (step K s l) := by
  rcases step_cases K s l with hq | ⟨pid, status, -, heq⟩ | ⟨k, -, heq⟩ | ⟨-, -, heq⟩ |
    ⟨t, rest, -, -, heq⟩
  · intro p
    rw [hq.log, hq.dead]
    exact h p
  · rw [heq]
    exact h.exitChild
  · rw [heq]
    rcases waitpid_cases K k ht with ⟨-, -, -, -, ha⟩ | ⟨pid, status, i, -, hk, -, hturn⟩ | heq'
    · have hidle : Accounted { s with pc := .idle } := h
      exact hidle.aside ha
    · exact h.waitpid hk hturn
    · rw [heq']
      exact h
  · rw [heq]
    exact h.aside aside_onTick
  · rw [heq]
    have hnext : Accounted { s with batch := rest } := h
    exact hnext.aside aside_runTask

/-- The thread is in `on_sigchld` while it drains and reaps; deaths make the
    signalfd readable; the loop is left only when no child is dead. -/
theorem Heard.step (ht : Tracked s) (h : Heard s) (l : Label) : Heard (step K s l) := by
  cases l with
  | exit pid status =>
      show Heard (exitChild pid status s)
      rw [exitChild]
      split
      · -- a death makes the signalfd readable
        exact fun _ _ => rfl
      · exact h
  | sigchld =>
      show Heard (if s.free then { s with pc := .drain } else s)
      split
      · intro hpc
        cases hpc
      · exact h
  | read =>
      show Heard (readSignal s)
      rw [readSignal]
      split
      · rename_i hpc
        split
        · intro hpc'
          exact absurd (hpc.symm.trans hpc') (by simp)
        · intro hpc'
          cases hpc'
      · exact h
  | waitpid k =>
      show Heard (waitpid K k s)
      rcases waitpid_cases K k ht with ⟨-, -, hnone, -, -⟩ | ⟨pid, status, i, hpc, -, -, hturn⟩ |
        heq
      · -- the reap loop is left only when no child is dead
        exact fun _ hne => absurd hnone hne
      · intro hpc'
        rw [hturn.pc] at hpc'
        exact absurd (hpc.symm.trans hpc') (by simp)
      · rw [heq]
        exact h
  | tick =>
      show Heard (if s.free then onTick K s else s)
      split
      · exact h.aside aside_onTick
      · exact h
  | post t => exact h
  | doorbell =>
      show Heard (if s.free then { s with batch := s.tasks, tasks := [] } else s)
      split
      · exact h
      · exact h
  | task =>
      rw [Sup.step]
      cases s.batch with
      | nil => exact h
      | cons t rest =>
          dsimp only
          split
          · exact h
          · have hnext : Heard { s with batch := rest } := h
            exact hnext.aside aside_runTask
  | check =>
      show Heard (if s.free ∧ s.loopRunning = false then { s with left := true } else s)
      split
      · exact h
      · exact h

/-- One step and the reap loop: either the step handles no child, or it is a
    `waitpid` of the reap loop that returned a dead child of a service and took
    exactly one branch for it. -/
theorem step_turn (h : Tracked s) (l : Label) :
    ∃ ext, (step K s l).log = s.log ++ ext ∧
      (reapsOf ext = [] ∧ branchesOf ext = [] ∨
        ∃ i pid b, s.pc = .reap ∧ pid ∈ s.dead.map Prod.fst ∧ (s.services i).pid = pid ∧
          reapsOf ext = [pid] ∧ branchesOf ext = [(i, pid, b)]) := by
  rcases step_cases K s l with hq | ⟨pid, status, -, heq⟩ | ⟨k, -, heq⟩ | ⟨-, -, heq⟩ |
    ⟨t, rest, -, -, heq⟩
  · exact ⟨[], by rw [hq.log, List.append_nil], .inl ⟨rfl, rfl⟩⟩
  · rw [heq]
    rw [exitChild]
    split
    · exact ⟨[.exited pid], rfl, .inl ⟨rfl, rfl⟩⟩
    · exact ⟨[], (List.append_nil _).symm, .inl ⟨rfl, rfl⟩⟩
  · rw [heq]
    rcases waitpid_cases K k h with ⟨-, -, -, -, ha⟩ | ⟨pid, status, i, hpc, hk, hi, hturn⟩ | heq'
    · obtain ⟨ext, hext, hlog⟩ := ha.log
      exact ⟨ext, hlog, .inl ⟨hext.reaps, hext.branches⟩⟩
    · -- a child of service `i` was reaped and took branch `b`
      obtain ⟨b, ext, hbr, hre, -, hlog⟩ := hturn.log
      refine ⟨[.reaped pid] ++ ext, ?_, .inr ⟨i, pid, b, hpc, ?_, hi, ?_, ?_⟩⟩
      · rw [hlog, ← List.append_assoc]
        rfl
      · exact List.mem_map.mpr ⟨(pid, status), List.mem_of_getElem? hk, rfl⟩
      · rw [reapsOf_append, hre]
        rfl
      · rw [branchesOf_append, hbr]
        rfl
    · rw [heq']
      exact ⟨[], (List.append_nil _).symm, .inl ⟨rfl, rfl⟩⟩
  · rw [heq]
    obtain ⟨ext, hext, hlog⟩ := (aside_onTick (s := s) (K := K)).log
    exact ⟨ext, hlog, .inl ⟨hext.reaps, hext.branches⟩⟩
  · rw [heq]
    obtain ⟨ext, hext, hlog⟩ := (aside_runTask (s := { s with batch := rest }) (K := K) (t := t)).log
    exact ⟨ext, hlog, .inl ⟨hext.reaps, hext.branches⟩⟩

theorem aside_start (K : Kernel) (cfgs : Fin n → ServiceConfig) :
    Aside (create cfgs) (start K cfgs) := aside_forServices fun _ _ => aside_spawn

/-- For every interleaving of deaths with the steps of `on_sigchld`: while the
    thread is outside it and a dead child is not reaped, the signalfd is
    readable; every exit has been handled once, or its child is still dead and
    unreaped; and a step that reaps a child takes exactly one branch for it. -/
theorem no_lost_exit (K : Kernel) (cfgs : Fin n → ServiceConfig) (ls : List Label) :
    let s := run K cfgs ls
    (s.pc = .idle → s.dead ≠ [] → s.sigPending = true) ∧
    (∀ p, (exitsOf s.log).count p = (handledOf s.log).count p + (s.dead.map Prod.fst).count p) ∧
    ∀ l, ∃ ext, (step K s l).log = s.log ++ ext ∧
      (reapsOf ext = [] ∧ branchesOf ext = [] ∨
        ∃ i pid b, s.pc = .reap ∧ pid ∈ s.dead.map Prod.fst ∧ (s.services i).pid = pid ∧
          reapsOf ext = [pid] ∧ branchesOf ext = [(i, pid, b)]) := by
  intro s
  have hcreate : Heard (create cfgs) ∧ Accounted (create cfgs) :=
    ⟨fun _ hne => absurd rfl hne, fun p => rfl⟩
  have hinv : Tracked s ∧ Heard s ∧ Accounted s := by
    refine run_inv (P := fun s => Tracked s ∧ Heard s ∧ Accounted s) ?_ ?_ ls
    · exact ⟨tracked_start K cfgs, hcreate.1.aside (aside_start K cfgs),
        hcreate.2.aside (aside_start K cfgs)⟩
    · rintro s l ⟨ht, hh, ha⟩
      exact ⟨ht.step l, hh.step ht l, ha.step ht l⟩
  exact ⟨hinv.2.1, hinv.2.2, fun l => step_turn hinv.1 l⟩

end Sup

end CastlePlus
