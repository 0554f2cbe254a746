import CastlePlus.SupervisorSignals

/-! # What one step does to one service

    The fields of a service that its launches, failures and stops write (`Outline`), and the
    ways in which a step of the supervisor can change them (`Move`).  A step makes at most one
    move of each service; **`step_move`** is the list of all of them, with the clock readings
    they use. -/

namespace CastlePlus

/-- The part of a `Service` that this module follows. -/
structure Outline where
  cfg : ServiceConfig
  state : ServiceState
  isDown : Bool
  downSinceMono : Int
  currentBackoffSec : Int
  restartCount : Int
  lastStart : Int
  wantsRestart : Bool
  deriving DecidableEq

def Service.outline (v : Service) : Outline :=
  ⟨v.cfg, v.state, v.isDown, v.downSinceMono, v.currentBackoffSec, v.restartCount, v.lastStart,
    v.wantsRestart⟩

namespace Outline

def nextBackoff (o : Outline) (now : Int) : Int :=
  if Sup.kStableSec ≤ Sup.seconds (now - o.lastStart) then o.cfg.backoffMinSec
  else if o.currentBackoffSec = 0 then o.cfg.backoffMinSec
  else min (o.currentBackoffSec * 2) o.cfg.backoffMaxSec

/-- `fork` succeeded. -/
def launch (now : Int) (o : Outline) : Outline :=
  { o with state := .running, isDown := false, lastStart := now }

/-- `schedule_restart`. -/
def schedule (now : Int) (o : Outline) : Outline :=
  { o with
    currentBackoffSec := o.nextBackoff now, restartCount := o.restartCount + 1,
    state := .backoff }

/-- `spawn`, with the outcome of `fork`. -/
def spawn (fork : Option Int) (now : Int) (o : Outline) : Outline :=
  match fork with
  | none => o.schedule now
  | some _ => o.launch now

/-- The backoff starts over and no restart is asked for. -/
def fresh (o : Outline) : Outline := { o with currentBackoffSec := 0, wantsRestart := false }

/-- The service goes down for good. -/
def goDown (state : ServiceState) (now : Int) (o : Outline) : Outline :=
  { o with
    state, isDown := true, downSinceMono := if o.isDown then o.downSinceMono else now }

end Outline

namespace Sup

variable {n : Nat}

/-- The next task is an operator's restart of service `i`. -/
def names (s : Sup n) (l : Label) (i : Fin n) : Bool :=
  match l, s.batch with
  | .task, .restart name :: _ => !s.left && s.findByName name == some i
  | _, _ => false

/-- The next task is `begin_shutdown`. -/
def shuts (s : Sup n) (l : Label) : Bool :=
  match l, s.batch with
  | .task, .beginShutdown :: _ => !s.left
  | _, _ => false

/-- The test of `on_tick`. -/
def due (now : Int) (v : Service) : Bool := v.state = .backoff ∧ v.nextRestart ≤ now

/-- The clock reading a tick makes for service `i`: one for itself, and one for each service
    before `i` that it launches. -/
def tickReading (K : Kernel) (s : Sup n) (i : Fin n) : Nat :=
  s.reads + 1 +
    ((List.finRange n).takeWhile (· ≠ i)).countP fun j => due (K.clock s.reads) (s.services j)

/-- The ways from `s` to `s'` for one service. -/
inductive Move (K : Kernel) (s : Sup n) (l : Label) (i : Fin n) (s' : Sup n) : Prop where
  | stays (h : (s'.services i).outline = (s.services i).outline)
  /-- the operator restarts a running service -/
  | asked (hn : names s l i = true) (hrun : (s.services i).state = .running)
      (h : (s'.services i).outline = { (s.services i).outline with wantsRestart := true })
  /-- the operator restarts a service without a child -/
  | operator (hn : names s l i = true)
      (h : (s'.services i).outline = (s.services i).outline.fresh.spawn
        (K.fork s.forks s.unreaped) (K.clock s.reads))
  /-- the child that was to be restarted has exited -/
  | relaunch (fork : Option Int) (hrun : (s.services i).state = .running)
      (hw : (s.services i).wantsRestart = true)
      (h : (s'.services i).outline =
        (s.services i).outline.fresh.spawn fork (K.clock s.reads))
  /-- a tick finds the delay over -/
  | due (fork : Option Int) (hl : l = .tick) (hb : (s.services i).state = .backoff)
      (hf : fork = none → .forkFailed i ∈ s'.log.drop s.log.length)
      (h : (s'.services i).outline =
        (s.services i).outline.spawn fork (K.clock (tickReading K s i)))
  /-- the child exited, and a restart is scheduled -/
  | exit (hrun : (s.services i).state = .running) (hw : (s.services i).wantsRestart = false)
      (hr : s'.reads = s.reads + 2)
      (h : (s'.services i).outline = (s.services i).outline.schedule (K.clock (s.reads + 1)))
  /-- the child exited, for good -/
  | down (state : ServiceState) (hrun : (s.services i).state = .running)
      (hs : state = .failed ∨ state = .quarantined)
      (hr : (s.services i).isDown = false → s.reads + 1 < s'.reads)
      (h : (s'.services i).outline =
        (s.services i).outline.goDown state (K.clock (s.reads + 1)))
  /-- the shutdown begins, or reaps the child -/
  | stopped (hc : (s.services i).state = .running ∨ shuts s l = true)
      (h : (s'.services i).outline = { (s.services i).outline with state := .stopped })

/-! ## The functions -/

variable {s : Sup n} {i j : Fin n} {K : Kernel}

theorem outline_spawn : ((spawn K i s).services i).outline =
    (s.services i).outline.spawn (K.fork s.forks s.unreaped) (K.clock s.reads) := by
  rw [spawn]
  cases K.fork s.forks s.unreaped with
  | none => exact congrArg Service.outline setService_self
  | some pid => exact congrArg Service.outline setService_self

theorem reads_spawn : (spawn K i s).reads = s.reads + 1 := by
  rw [spawn]
  cases K.fork s.forks s.unreaped <;> rfl

theorem log_spawn_none (h : K.fork s.forks s.unreaped = none) :
    (spawn K i s).log = s.log ++ [.forkFailed i] := by
  rw [spawn, h]
  rfl

theorem markDown_of_ne (h : j ≠ i) : (markDown K i s).services j = s.services j := by
  dsimp only [markDown]
  split
  · rfl
  · exact setService_of_ne h

theorem scheduleRestart_of_ne (h : j ≠ i) :
    (scheduleRestart K i s).services j = s.services j := setService_of_ne h

theorem recordFailure_of_ne {status : WaitStatus} (h : j ≠ i) :
    (recordFailure K i status s).services j = s.services j := setService_of_ne h

theorem unexpectedExit_of_ne {pid : Int} {status : WaitStatus} (h : j ≠ i) :
    (unexpectedExit K i pid status s).services j = s.services j := by
  dsimp only [unexpectedExit]
  split
  · rw [markDown_of_ne h]
    exact (setService_of_ne h).trans (recordFailure_of_ne h)
  · split
    · rw [markDown_of_ne h]
      exact (setService_of_ne h).trans (recordFailure_of_ne h)
    · rw [scheduleRestart_of_ne h]
      exact recordFailure_of_ne h

theorem reapService_of_ne {pid : Int} {status : WaitStatus} (h : j ≠ i) :
    (reapService K i pid status s).services j = s.services j := by
  rw [reapService_eq]
  split
  · exact (setService_of_ne h).trans (cleared_of_ne h)
  · split
    · rw [spawn_of_ne h]
      exact (setService_of_ne h).trans (cleared_of_ne h)
    · rw [unexpectedExit_of_ne h, cleared_of_ne h]

theorem outline_recordFailure (status : WaitStatus) :
    ((recordFailure K i status s).services i).outline = (s.services i).outline := by
  refine (congrArg Service.outline setService_self).trans ?_
  rfl

/-- `mark_down` after the state has been written. -/
theorem markDown_spec (state : ServiceState) (e : Event n) :
    let s' := markDown K i (record e (s.setService i { s.services i with state }))
    (s'.services i).outline = (s.services i).outline.goDown state (K.clock s.reads) ∧
      ((s.services i).isDown = false → s'.reads = s.reads + 1) := by
  intro s'
  have hself : ((record e (s.setService i { s.services i with state })).services i) =
      { s.services i with state } := setService_self
  cases hd : (s.services i).isDown with
  | true =>
      have hs' : s' = record e (s.setService i { s.services i with state }) := by
        dsimp only [s', markDown]
        rw [hself]
        exact if_pos hd
      rw [hs', hself]
      exact ⟨by simp [Service.outline, Outline.goDown, hd], fun h => by cases h⟩
  | false =>
      have hs' : s' = { ((record e (s.setService i { s.services i with state })).setService i
          { s.services i with
            state, isDown := true, downSinceMono := K.clock s.reads,
            downSinceWall := K.wall s.reads }) with reads := s.reads + 1 } := by
        dsimp only [s', markDown]
        rw [hself, if_neg (by simp [hd])]
        rfl
      rw [hs']
      refine ⟨?_, fun _ => rfl⟩
      refine (congrArg Service.outline setService_self).trans ?_
      simp [Service.outline, Outline.goDown, hd]

/-- An exit nobody asked for, reaped: a new delay, or the end. -/
theorem unexpectedExit_spec (pid : Int) (status : WaitStatus) :
    let s' := unexpectedExit K i pid status s
    (s'.reads = s.reads + 2 ∧
      (s'.services i).outline = (s.services i).outline.schedule (K.clock (s.reads + 1))) ∨
    ∃ state, (state = .failed ∨ state = .quarantined) ∧
      (s'.services i).outline = (s.services i).outline.goDown state (K.clock (s.reads + 1)) ∧
      ((s.services i).isDown = false → s.reads + 1 < s'.reads) := by
  intro s'
  have hout := outline_recordFailure (K := K) (i := i) (s := s) status
  have hdown : ((recordFailure K i status s).services i).isDown = (s.services i).isDown :=
    congrArg Outline.isDown hout
  have hmark : ∀ state e, (state = .failed ∨ state = .quarantined) →
      s' = markDown K i (record e ((recordFailure K i status s).setService i
        { (recordFailure K i status s).services i with state })) →
      ∃ state, (state = .failed ∨ state = .quarantined) ∧
        (s'.services i).outline = (s.services i).outline.goDown state (K.clock (s.reads + 1)) ∧
        ((s.services i).isDown = false → s.reads + 1 < s'.reads) := by
    intro state e hstate hs'
    obtain ⟨hgo, hreads⟩ := markDown_spec (K := K) (s := recordFailure K i status s) (i := i)
      state e
    rw [hs']
    refine ⟨state, hstate, hgo.trans (by rw [hout]; rfl), fun h => ?_⟩
    rw [hreads (hdown.trans h)]
    exact Nat.lt_succ_self _
  by_cases hauto : ((recordFailure K i status s).services i).cfg.autorestart = false
  · exact .inr (hmark .failed _ (.inl rfl) (if_pos hauto))
  · by_cases htrip : kMaxFailures < ((recordFailure K i status s).services i).recentFailures.length
    · exact .inr (hmark .quarantined _ (.inr rfl) ((if_neg hauto).trans (if_pos htrip)))
    · have hs' : s' = scheduleRestart K i (record (.branch i pid .backoff)
          (recordFailure K i status s)) := (if_neg hauto).trans (if_neg htrip)
      rw [hs']
      refine .inl ⟨rfl, ?_⟩
      refine (congrArg Service.outline setService_self).trans ?_
      show Outline.schedule (K.clock (s.reads + 1))
        ((recordFailure K i status s).services i).outline = _
      rw [hout]

/-- One turn of the reap loop for the child of service `i`. -/
theorem reapService_move {pid : Int} {status : WaitStatus} {l : Label} {s₀ : Sup n}
    (hserv : s.services = s₀.services) (hreads : s.reads = s₀.reads)
    (hrun : (s₀.services i).state = .running) :
    Move K s₀ l i (reapService K i pid status s) := by
  have hclear : ((cleared i s).services i).outline = (s₀.services i).outline := by
    rw [cleared_self, hserv]
    rfl
  have hwants : ((cleared i s).services i).wantsRestart = (s₀.services i).wantsRestart :=
    congrArg Outline.wantsRestart hclear
  have hdown : ((cleared i s).services i).isDown = (s₀.services i).isDown :=
    congrArg Outline.isDown hclear
  have hclearReads : (cleared i s).reads = s₀.reads := hreads
  rw [reapService_eq]
  by_cases hshut : s.shuttingDown = true
  · -- during the shutdown: `Stopped`, and nothing more
    rw [if_pos hshut]
    refine .stopped (.inl hrun) ?_
    refine (congrArg Service.outline setService_self).trans ?_
    rw [← hclear]
    rfl
  · rw [if_neg hshut]
    cases hw : ((cleared i s).services i).wantsRestart with
    | true =>
        -- the operator asked for it: launched at once, with a fresh delay
        obtain ⟨t, htdef⟩ : ∃ t, t = record (.branch i pid .relaunched) ((cleared i s).setService i
            { (cleared i s).services i with wantsRestart := false, currentBackoffSec := 0 }) :=
          ⟨_, rfl⟩
        have hself : (t.services i).outline = (s₀.services i).outline.fresh := by
          rw [htdef, ← hclear]
          exact congrArg Service.outline setService_self
        have htreads : t.reads = s₀.reads := by
          rw [htdef]
          exact hreads
        have ho := outline_spawn (K := K) (i := i) (s := t)
        rw [hself, htreads] at ho
        rw [if_pos rfl, ← htdef]
        exact .relaunch _ hrun (hwants.symm.trans hw) ho
    | false =>
        rw [if_neg (by simp)]
        rcases unexpectedExit_spec (K := K) (s := cleared i s) (i := i) pid status
          with ⟨hr, ho⟩ | ⟨state, hstate, ho, hr⟩
        · rw [hclear, hclearReads] at ho
          rw [hclearReads] at hr
          exact .exit hrun (hwants.symm.trans hw) hr ho
        · rw [hclear, hclearReads] at ho
          rw [hclearReads, hdown] at hr
          exact .down state hrun hstate hr ho

theorem finishIfDrained_services : (finishIfDrained s).services = s.services := by
  rw [finishIfDrained]
  split <;> rfl

theorem waitpid_move (ht : Tracked s) (k : Nat) (l : Label) (i : Fin n) :
    Move K s l i (waitpid K k s) := by
  have hsame : ∀ s' : Sup n, s'.services = s.services → Move K s l i s' :=
    fun s' h => .stays (by rw [h])
  by_cases hpc : s.pc = .reap
  · by_cases hdead : s.dead = []
    · -- no dead child: the loop is left, in a shutdown through `finish_if_drained`
      refine hsame _ ?_
      rw [waitpid, if_pos hpc, if_pos hdead]
      dsimp only
      split
      · rw [finishIfDrained_services]
      · rfl
    · cases hk : s.dead[k]? with
      | none =>
          refine hsame _ ?_
          rw [waitpid, if_pos hpc, if_neg hdead, hk]
      | some d =>
          obtain ⟨pid, status⟩ := d
          have hw : waitpid K k s = reapChild K pid status (s.collect pid k) := by
            rw [waitpid, if_pos hpc, if_neg hdead, hk]
          rw [hw, reapChild]
          cases hf : findByPid pid (s.collect pid k) with
          | none => exact hsame _ rfl
          | some j =>
              have hmem : pid ∈ s.unreaped := List.mem_append_right _
                (List.mem_map.mpr ⟨(pid, status), List.mem_of_getElem? hk, rfl⟩)
              have hpos := ((ht.books.tracked pid).mp (ht.books.kernel.mem_iff.mp hmem)).1
              have hj : (s.services j).pid = pid := findByPid_some hf
              have hrun : (s.services j).state = .running :=
                (ht.fine j).state.mpr (by rw [hj]; exact hpos)
              by_cases hij : i = j
              · -- the turn is for the child of `i`
                subst hij
                exact reapService_move rfl rfl hrun
              · refine .stays ?_
                rw [reapService_of_ne hij]
                rfl
  · refine hsame _ ?_
    rw [waitpid, if_neg hpc]

/-! ## Loops over the services -/

section Loops

variable {f : Fin n → Sup n → Sup n}

/-- A loop leaves alone the services it does not come to. -/
theorem foldl_services_of_notMem (hf : ∀ i j s, j ≠ i → (f i s).services j = s.services j)
    {l : List (Fin n)} (hj : j ∉ l) : ∀ s : Sup n,
      (l.foldl (fun s i => f i s) s).services j = s.services j := by
  induction l with
  | nil => intro s; rfl
  | cons i l ih =>
      intro s
      have hne : j ≠ i := fun h => hj (h ▸ List.mem_cons_self)
      have hl : j ∉ l := fun h => hj (List.mem_cons_of_mem _ h)
      rw [List.foldl_cons, ih hl, hf i j s hne]

/-- The turn for service `i`, in the state the turns before it have left. -/
theorem forServices_at (hf : ∀ i j s, j ≠ i → (f i s).services j = s.services j) (i : Fin n)
    (s : Sup n) : ∃ pre post t, List.finRange n = pre ++ i :: post ∧
      pre = (List.finRange n).takeWhile (· ≠ i) ∧ pre.Nodup ∧
      t = pre.foldl (fun s i => f i s) s ∧ t.services i = s.services i ∧
      (forServices f s).services i = (f i t).services i ∧
      forServices f s = post.foldl (fun s i => f i s) (f i t) := by
  obtain ⟨pre, post, hl, hpre⟩ := List.eq_append_cons_of_mem (List.mem_finRange i)
  have hnd : (pre ++ i :: post).Nodup := hl ▸ List.nodup_finRange n
  have hpost : i ∉ post := (List.nodup_cons.mp (List.nodup_append.mp hnd).2.1).1
  have htake : (List.finRange n).takeWhile (· ≠ i) = pre := by
    rw [hl, List.takeWhile_append_of_pos]
    · simp
    · intro j hj
      simpa using fun h : j = i => hpre (h ▸ hj)
  have hloop : forServices f s = post.foldl (fun s i => f i s)
      (f i (pre.foldl (fun s i => f i s) s)) := by
    rw [forServices, hl, List.foldl_append, List.foldl_cons]
  refine ⟨pre, post, _, hl, htake.symm, (List.nodup_append.mp hnd).1, rfl,
    foldl_services_of_notMem hf hpre s, ?_, hloop⟩
  rw [hloop, foldl_services_of_notMem hf hpost]

end Loops

/-! ## Ticks -/

theorem due_iff {now : Int} {v : Service} :
    due now v = true ↔ v.state = .backoff ∧ v.nextRestart ≤ now := decide_eq_true_iff

theorem checkHealth_of_ne {now : Int} (h : j ≠ i) :
    (checkHealth K now i s).services j = s.services j := by
  dsimp only [checkHealth]
  split
  · exact setService_of_ne h
  · rfl

theorem outline_checkHealth {now : Int} :
    ((checkHealth K now i s).services i).outline = (s.services i).outline := by
  dsimp only [checkHealth]
  split
  · refine (congrArg Service.outline setService_self).trans ?_
    rfl
  · rfl

theorem reads_checkHealth {now : Int} : (checkHealth K now i s).reads = s.reads := by
  dsimp only [checkHealth]
  split <;> rfl

theorem log_checkHealth {now : Int} : (checkHealth K now i s).log = s.log := by
  dsimp only [checkHealth]
  split <;> rfl

theorem tickService_of_ne {now : Int} (h : j ≠ i) :
    (tickService K now i s).services j = s.services j := by
  rw [tickService, checkHealth_of_ne h, relaunchIfDue]
  split
  · exact spawn_of_ne h
  · rfl

theorem reads_tickService {now : Int} : (tickService K now i s).reads =
    s.reads + if due now (s.services i) = true then 1 else 0 := by
  rw [tickService, reads_checkHealth, relaunchIfDue]
  by_cases hdue : due now (s.services i) = true
  · rw [if_pos (due_iff.mp hdue), if_pos hdue, reads_spawn]
  · rw [if_neg (mt due_iff.mpr hdue), if_neg hdue, Nat.add_zero]

/-- Each service of a tick that is due costs one clock reading. -/
theorem reads_tickLoop {now : Int} (l : List (Fin n)) : ∀ s : Sup n, l.Nodup →
    (l.foldl (fun s i => tickService K now i s) s).reads =
      s.reads + l.countP fun j => due now (s.services j) := by
  induction l with
  | nil => intro s _; rfl
  | cons i l ih =>
      intro s hnd
      obtain ⟨hi, hnd⟩ := List.nodup_cons.mp hnd
      have hsame : ∀ j ∈ l, (tickService K now i s).services j = s.services j := fun j hj =>
        tickService_of_ne fun h => hi (h ▸ hj)
      have hcount : l.countP (fun j => due now ((tickService K now i s).services j)) =
          l.countP fun j => due now (s.services j) :=
        List.countP_congr fun j hj => by rw [hsame j hj]
      rw [List.foldl_cons, ih _ hnd, hcount, reads_tickService, List.countP_cons]
      omega

theorem aside_tickLoop (now : Int) (l : List (Fin n)) : ∀ s : Sup n,
    Aside s (l.foldl (fun s i => tickService K now i s) s) := by
  induction l with
  | nil => intro s; exact Aside.refl s
  | cons i l ih => intro s; exact aside_tickService.trans (ih _)

theorem forServices_kill_services {sig : Signal} :
    (forServices (killService sig) s).services = s.services := by
  refine forServices_inv (P := fun t : Sup n => t.services = s.services) ?_ rfl
  intro j t ht
  rw [killService]
  split
  · exact ht
  · exact ht

theorem onTick_move (i : Fin n) : Move K s .tick i (onTick K s) := by
  by_cases hshut : s.shuttingDown = true
  · refine .stays ?_
    have hserv : (onTick K s).services = s.services := by
      dsimp only [onTick]
      rw [if_pos hshut, finishIfDrained_services]
      split
      · exact forServices_kill_services
      · rfl
    rw [hserv]
  · -- one turn of the loop is for `i`, the others leave it alone
    have htick : onTick K s =
        forServices (tickService K (K.clock s.reads)) { s with reads := s.reads + 1 } :=
      if_neg hshut
    obtain ⟨pre, post, t, -, hpre, hnd, ht, htserv, hserv, hloop⟩ := forServices_at
      (f := tickService K (K.clock s.reads)) (fun i j s h => tickService_of_ne h) i
      { s with reads := s.reads + 1 }
    have htserv' : t.services i = s.services i := htserv
    have htreads : t.reads = tickReading K s i := by
      rw [ht, reads_tickLoop pre _ hnd, hpre]
      rfl
    have hout : ((onTick K s).services i).outline =
        ((relaunchIfDue K (K.clock s.reads) i t).services i).outline := by
      rw [htick, hserv, tickService, outline_checkHealth]
    by_cases hdue : due (K.clock s.reads) (s.services i) = true
    · have hre : relaunchIfDue K (K.clock s.reads) i t = spawn K i t :=
        if_pos (due_iff.mp (htserv' ▸ hdue))
      rw [hre, outline_spawn, htserv', htreads] at hout
      refine .due _ rfl (due_iff.mp hdue).1 ?_ hout
      intro hfork
      -- the failure was logged in this tick, and logs only grow
      obtain ⟨xs, -, hxs⟩ := (aside_tickLoop (K := K) (K.clock s.reads) pre
        { s with reads := s.reads + 1 }).log
      rw [← ht] at hxs
      obtain ⟨ys, -, hys⟩ := (aside_tickLoop (K := K) (K.clock s.reads) post
        (tickService K (K.clock s.reads) i t)).log
      have hlog : (onTick K s).log = s.log ++ (xs ++ [.forkFailed i] ++ ys) := by
        rw [htick, hloop, hys, tickService, log_checkHealth, hre, log_spawn_none hfork, hxs]
        simp only [List.append_assoc]
      rw [hlog, List.drop_left]
      simp
    · have hre : relaunchIfDue K (K.clock s.reads) i t = t :=
        if_neg (mt due_iff.mpr (htserv' ▸ hdue))
      rw [hre, htserv'] at hout
      exact .stays hout

/-! ## Tasks -/

theorem stopService_of_ne (h : j ≠ i) : (stopService i s).services j = s.services j := by
  rw [stopService]
  split
  · rfl
  · exact setService_of_ne h

theorem beginShutdown_move {l : Label} {s₀ : Sup n} (hserv : s.services = s₀.services)
    (hshuts : shuts s₀ l = true) (i : Fin n) : Move K s₀ l i (beginShutdown K s) := by
  obtain ⟨pre, post, t, -, -, -, -, htserv, hloop, -⟩ := forServices_at
    (f := stopService) (fun i j s h => stopService_of_ne h) i (armShutdown K s)
  have htserv' : t.services i = s₀.services i := htserv.trans (congrFun hserv i)
  have hself : (beginShutdown K s).services i = (stopService i t).services i := by
    rw [beginShutdown, finishIfDrained_services, hloop]
  by_cases hp : 0 < (t.services i).pid
  · refine .stays ?_
    rw [hself, stopService, if_pos hp]
    exact congrArg Service.outline htserv'
  · refine .stopped (.inr hshuts) ?_
    rw [hself, stopService, if_neg hp, setService_self, htserv']
    rfl

theorem doRestart_move {l : Label} {s₀ : Sup n} {name : String} (hserv : s.services = s₀.services)
    (hreads : s.reads = s₀.reads) (hforks : s.forks = s₀.forks) (hun : s.unreaped = s₀.unreaped)
    (hnames : ∀ i, s.findByName name = some i → names s₀ l i = true)
    (hrun : ∀ i, 0 < (s.services i).pid → (s₀.services i).state = .running) (i : Fin n) :
    Move K s₀ l i (doRestart K name s).2 := by
  rw [doRestart]
  cases hf : s.findByName name with
  | none => exact .stays (by rw [hserv])
  | some j =>
      dsimp only
      have hself : ((clearBreaker j s).services j).outline = (s₀.services j).outline := by
        rw [clearBreaker_self, hserv]
        rfl
      by_cases hij : i = j
      · subst hij
        by_cases hp : 0 < ((clearBreaker i s).services i).pid
        · -- it has a child, and waits for the exit
          rw [if_pos hp]
          have hpid : ((clearBreaker i s).services i).pid = (s.services i).pid := by
            rw [clearBreaker_self]
          refine .asked (hnames i hf) (hrun i (hpid ▸ hp)) ?_
          refine (congrArg Service.outline setService_self).trans ?_
          rw [← hself]
          rfl
        · -- it has none: launched at once, with a fresh delay
          rw [if_neg hp]
          obtain ⟨t, htdef⟩ : ∃ t, t = (clearBreaker i s).setService i
              { (clearBreaker i s).services i with
                currentBackoffSec := 0, wantsRestart := false } := ⟨_, rfl⟩
          have htself : (t.services i).outline = (s₀.services i).outline.fresh := by
            rw [htdef, ← hself]
            exact congrArg Service.outline setService_self
          have ho := outline_spawn (K := K) (i := i) (s := t)
          have htreads : t.reads = s₀.reads := by rw [htdef]; exact hreads
          have htforks : t.forks = s₀.forks := by rw [htdef]; exact hforks
          have htun : t.unreaped = s₀.unreaped := by rw [htdef]; exact hun
          rw [htself, htreads, htforks, htun] at ho
          rw [← htdef]
          exact .operator (hnames i hf) ho
      · refine .stays ?_
        have hother : (clearBreaker j s).services i = s₀.services i :=
          (setService_of_ne hij).trans (congrFun hserv i)
        split
        · exact congrArg Service.outline ((setService_of_ne hij).trans hother)
        · rw [spawn_of_ne hij]
          exact congrArg Service.outline ((setService_of_ne hij).trans hother)

/-- Every step makes one of the moves of every service. -/
theorem step_move (ht : Tracked s) (l : Label) (i : Fin n) : Move K s l i (step K s l) := by
  rcases step_cases K s l with hq | ⟨pid, status, -, heq⟩ | ⟨k, -, heq⟩ | ⟨rfl, -, heq⟩ |
    ⟨t, rest, rfl, hb, heq⟩
  · -- no step but a reap, a tick and a task touches a service
    exact .stays (by rw [hq.services])
  · refine .stays ?_
    rw [heq, exitChild]
    split <;> rfl
  · rw [heq]
    exact waitpid_move ht k l i
  · rw [heq]
    exact onTick_move i
  · cases hleft : s.left with
    | true =>
        refine .stays ?_
        rw [step, hb, hleft]
        rfl
    | false =>
        rw [heq]
        cases t with
        | beginShutdown =>
            refine beginShutdown_move
              (show ({ s with batch := rest } : Sup n).services = s.services from rfl) ?_ i
            simp only [shuts, hb, hleft, Bool.not_false]
        | restart name =>
            refine doRestart_move
              (show ({ s with batch := rest } : Sup n).services = s.services from rfl)
              rfl rfl rfl ?_ (fun j hj => (ht.fine j).state.mpr hj) i
            intro j hj
            have hj' : s.findByName name = some j := hj
            simp [names, hb, hleft, hj']

theorem run_concat {cfgs : Fin n → ServiceConfig} (ls : List Label) (l : Label) :
    run K cfgs (ls ++ [l]) = step K (run K cfgs ls) l := by
  rw [run, List.foldl_append]
  rfl

/-- `start` launches every service once. -/
theorem start_outline (K : Kernel) (cfgs : Fin n → ServiceConfig) (i : Fin n) :
    ∃ fork k, ((start K cfgs).services i).outline =
      ((create cfgs).services i).outline.spawn fork (K.clock k) := by
  obtain ⟨pre, post, t, -, -, -, -, htserv, hself, -⟩ := forServices_at
    (f := spawn K) (fun i j s h => spawn_of_ne h) i (create cfgs)
  refine ⟨K.fork t.forks t.unreaped, t.reads, ?_⟩
  rw [start, hself, outline_spawn, htserv]

end Sup

end CastlePlus
