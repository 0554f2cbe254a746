import CastlePlus.SupervisorManifest
import CastlePlus.SupervisorOutage

/-! # The restart backoff

    `schedule_restart` doubles the delay between `backoff_min_sec` and `backoff_max_sec`, and
    starts over when the service "stayed up a good while".  That test reads `last_start`, which a
    failed `fork` does not write: a service that crashed at once and waited out a long delay passes
    it when its relaunch cannot fork.  And the parser takes any bounds: reversed, negative, or so
    large that the doubling overflows.

    `Attempts` follows the delays and the launch attempts of a service along a run.  With sane
    bounds, in every run without a fork failure of that kind, the delays are what they should be
    (**`backoff_run`**). -/

namespace CastlePlus

/-- What is remembered of a service's launch attempts: the last delay, unless the operator
    restarted the service since, and how long the last attempt had run when it failed. -/
structure Attempts where
  delay : Option Int := none
  ran : Int := 0

/-- Bounds with which the delays behave: in order, and not so large that a delay overflows when
    it is doubled.  A delay of 0 is never doubled. -/
structure ServiceConfig.Sane (c : ServiceConfig) : Prop where
  nonneg : 0 ≤ c.backoffMinSec
  ordered : c.backoffMinSec ≤ c.backoffMaxSec
  small : c.backoffMinSec = 0 ∨ c.backoffMaxSec < 2 ^ 30

namespace Sup

variable {n : Nat}

/-- `schedule_restart` runs for service `i` between `s` and `s'`. -/
def schedules (s s' : Sup n) (i : Fin n) : Bool :=
  (s'.services i).restartCount != (s.services i).restartCount

/-- It is the child of service `i` that fails, not a `fork`. -/
def childFails (s : Sup n) (i : Fin n) : Bool :=
  (s.services i).state = .running ∧ (s.services i).wantsRestart = false

/-- How long the child had run; the last clock reading of the step is that of
    `schedule_restart`. -/
def childRan (K : Kernel) (s s' : Sup n) (i : Fin n) : Int :=
  seconds (K.clock (s'.reads - 1) - (s.services i).lastStart)

/-- An operator's restart ends a series of delays. -/
def forget (s : Sup n) (l : Label) (i : Fin n) (a : Attempts) : Attempts :=
  if names s l i then { a with delay := none } else a

def observe (K : Kernel) (s : Sup n) (l : Label) (s' : Sup n) (i : Fin n) (a : Attempts) :
    Attempts :=
  if schedules s s' i then
    { delay := some (s'.services i).currentBackoffSec,
      ran := if childFails s i then childRan K s s' i else 0 }
  else forget s l i a

/-- How long the service has run since its previous launch attempt, when an attempt fails. -/
def ranSince (K : Kernel) (s s' : Sup n) (i : Fin n) (a : Attempts) : Int :=
  if childFails s i then childRan K s s' i else a.ran

/-- What is expected of a step. -/
structure BackoffStep (K : Kernel) (c : ServiceConfig) (s : Sup n) (l : Label) (s' : Sup n)
    (i : Fin n) (a : Attempts) : Prop where
  bounds : schedules s s' i = true → c.backoffMinSec ≤ (s'.services i).currentBackoffSec ∧
    (s'.services i).currentBackoffSec ≤ c.backoffMaxSec
  /-- the next doubling does not overflow `int` -/
  fits : -2 ^ 31 ≤ (s'.services i).currentBackoffSec * 2 ∧
    (s'.services i).currentBackoffSec * 2 < 2 ^ 31
  doubles : schedules s s' i = true → ∀ d, (forget s l i a).delay = some d →
    ranSince K s s' i a < kStableSec →
      (s'.services i).currentBackoffSec = min (2 * d) c.backoffMaxSec

/-- A relaunch cannot fork, `kStableSec` or more after the last start of a service that had not
    run so long, and starting over makes a difference. -/
def misjudges (K : Kernel) (s : Sup n) (l : Label) (i : Fin n) (a : Attempts) : Bool :=
  l = .tick && decide (.forkFailed i ∈ (step K s l).log.drop s.log.length) &&
    decide (a.ran < kStableSec) &&
    decide (kStableSec ≤ seconds (K.clock (tickReading K s i) - (s.services i).lastStart)) &&
    match a.delay with
    | none => false
    | some d => min (2 * d) (s.services i).cfg.backoffMaxSec != (s.services i).cfg.backoffMinSec

/-- A step, and what is observed of it. -/
def watch (K : Kernel) (i : Fin n) (p : Sup n × Attempts) (l : Label) : Sup n × Attempts :=
  (step K p.1 l, observe K p.1 l (step K p.1 l) i p.2)

/-- The attempts when the thread enters the loop; `start` makes the first one. -/
def firstAttempt (K : Kernel) (cfgs : Fin n → ServiceConfig) (i : Fin n) : Attempts :=
  observe K (create cfgs) .check (start K cfgs) i {}

/-- The attempts after a run. -/
def attempts (K : Kernel) (cfgs : Fin n → ServiceConfig) (ls : List Label) (i : Fin n) :
    Attempts :=
  (ls.foldl (watch K i) (start K cfgs, firstAttempt K cfgs i)).2

/-- No relaunch of service `i` is misjudged in the run. -/
def neverMisjudges (K : Kernel) (i : Fin n) : Sup n × Attempts → List Label → Bool
  | _, [] => true
  | p, l :: ls => !misjudges K p.1 l i p.2 && neverMisjudges K i (watch K i p l) ls

/-- The invariant of a service and its attempts. -/
structure Steady (c : ServiceConfig) (o : Outline) (a : Attempts) : Prop where
  cfg : o.cfg = c
  range : o.currentBackoffSec = 0 ∨
    0 < c.backoffMinSec ∧ c.backoffMinSec ≤ o.currentBackoffSec ∧
      o.currentBackoffSec ≤ c.backoffMaxSec
  delay : ∀ d, a.delay = some d → o.currentBackoffSec = d ∧ c.backoffMinSec ≤ d
  asked : o.wantsRestart = true → a.delay = none ∧ o.state ≠ .backoff

variable {K : Kernel} {c : ServiceConfig} {s s' : Sup n} {i : Fin n} {l : Label} {a : Attempts}

/-! ## One attempt -/

theorem Steady.fits (hc : c.Sane) {o : Outline} (h : Steady c o a) :
    -2 ^ 31 ≤ o.currentBackoffSec * 2 ∧ o.currentBackoffSec * 2 < 2 ^ 31 := by
  have hnonneg := hc.nonneg
  have hsmall := hc.small
  rcases h.range with hzero | ⟨hpos, hlo, hhi⟩
  · rw [hzero]
    decide
  · omega

/-- The delay that is scheduled. -/
theorem nextBackoff_spec (hc : c.Sane) {o : Outline} (hcfg : o.cfg = c)
    (hrange : o.currentBackoffSec = 0 ∨ 0 < c.backoffMinSec ∧
      c.backoffMinSec ≤ o.currentBackoffSec ∧ o.currentBackoffSec ≤ c.backoffMaxSec) (now : Int) :
    (c.backoffMinSec ≤ o.nextBackoff now ∧ o.nextBackoff now ≤ c.backoffMaxSec) ∧
      (o.nextBackoff now = 0 ∨ 0 < c.backoffMinSec) := by
  have hnonneg := hc.nonneg
  have hordered := hc.ordered
  rw [Outline.nextBackoff, hcfg]
  split
  · omega
  · split
    · omega
    · omega

/-- A service that is scheduled is steady again. -/
theorem steady_schedule (hc : c.Sane) {o : Outline} (hcfg : o.cfg = c)
    (hrange : o.currentBackoffSec = 0 ∨ 0 < c.backoffMinSec ∧
      c.backoffMinSec ≤ o.currentBackoffSec ∧ o.currentBackoffSec ≤ c.backoffMaxSec)
    (hasked : o.wantsRestart = false) (now ran : Int) :
    Steady c (o.schedule now) ⟨some (o.nextBackoff now), ran⟩ := by
  obtain ⟨⟨hlo, hhi⟩, hzero⟩ := nextBackoff_spec hc hcfg hrange now
  refine ⟨hcfg, ?_, ?_, ?_⟩
  · rcases hzero with hzero | hpos
    · exact .inl hzero
    · exact .inr ⟨hpos, hlo, hhi⟩
  · intro d hd
    cases hd
    exact ⟨rfl, hlo⟩
  · intro h
    exact absurd (hasked.symm.trans h) (by decide)

/-- Without the time on its side, the delay doubles. -/
theorem nextBackoff_doubles (hc : c.Sane) {o : Outline} (h : Steady c o a) {d now : Int}
    (hd : a.delay = some d) (hnow : seconds (now - o.lastStart) < kStableSec) :
    o.nextBackoff now = min (2 * d) c.backoffMaxSec := by
  obtain ⟨hcur, hmin⟩ := h.delay d hd
  have hnonneg := hc.nonneg
  have hordered := hc.ordered
  rw [Outline.nextBackoff, h.cfg, if_neg (not_le.mpr hnow)]
  by_cases hzero : o.currentBackoffSec = 0
  · rw [if_pos hzero]
    omega
  · rw [if_neg hzero, hcur, Int.mul_comm]

/-! ## One step -/

/-- A step without `schedule_restart`. -/
theorem backoff_quiet (hc : c.Sane) {o : Outline} (ho : (s'.services i).outline = o)
    (hcount : o.restartCount = (s.services i).restartCount) (h : Steady c o (forget s l i a)) :
    BackoffStep K c s l s' i a ∧
      Steady c (s'.services i).outline (observe K s l s' i a) := by
  have hno : schedules s s' i = false := by
    have hsame : (s'.services i).restartCount = (s.services i).restartCount :=
      (congrArg Outline.restartCount ho).trans hcount
    rw [schedules, hsame, bne_self_eq_false]
  rw [← ho] at h
  refine ⟨⟨?_, h.fits hc, ?_⟩, ?_⟩
  · intro hyes
    exact absurd (hno.symm.trans hyes) (by decide)
  · intro hyes
    exact absurd (hno.symm.trans hyes) (by decide)
  · rwa [observe, if_neg (by rw [hno]; decide)]

/-- A step with it, from the outline `o`. -/
theorem backoff_scheduled (hc : c.Sane) {o : Outline} {now : Int}
    (ho : (s'.services i).outline = o.schedule now)
    (hcount : o.restartCount = (s.services i).restartCount) (hcfg : o.cfg = c)
    (hrange : o.currentBackoffSec = 0 ∨ 0 < c.backoffMinSec ∧
      c.backoffMinSec ≤ o.currentBackoffSec ∧ o.currentBackoffSec ≤ c.backoffMaxSec)
    (hasked : o.wantsRestart = false)
    (hdoubles : ∀ d, (forget s l i a).delay = some d → ranSince K s s' i a < kStableSec →
      o.nextBackoff now = min (2 * d) c.backoffMaxSec) :
    BackoffStep K c s l s' i a ∧
      Steady c (s'.services i).outline (observe K s l s' i a) := by
  have hcur : (s'.services i).currentBackoffSec = o.nextBackoff now :=
    congrArg Outline.currentBackoffSec ho
  have hyes : schedules s s' i = true := by
    have hmore : (s'.services i).restartCount = (s.services i).restartCount + 1 := by
      rw [← hcount]
      exact congrArg Outline.restartCount ho
    rw [schedules, hmore, bne_iff_ne]
    omega
  have hsteady : Steady c (s'.services i).outline (observe K s l s' i a) := by
    rw [observe, if_pos hyes, ho, hcur]
    exact steady_schedule hc hcfg hrange hasked now _
  refine ⟨⟨fun _ => ?_, hsteady.fits hc, fun _ d hd hran => ?_⟩, hsteady⟩
  · rw [hcur]
    exact (nextBackoff_spec hc hcfg hrange now).1
  · rw [hcur]
    exact hdoubles d hd hran

/-- A launch whose delay was forgotten. -/
theorem backoff_fresh (hc : c.Sane) {o : Outline} {fork : Option Int} {now : Int}
    (ho : (s'.services i).outline = o.fresh.spawn fork now)
    (hcount : o.restartCount = (s.services i).restartCount) (hcfg : o.cfg = c)
    (hforgot : (forget s l i a).delay = none) :
    BackoffStep K c s l s' i a ∧
      Steady c (s'.services i).outline (observe K s l s' i a) := by
  have hnone : ∀ d, (forget s l i a).delay = some d → False := by
    intro d hd
    rw [hforgot] at hd
    cases hd
  cases fork with
  | none =>
      exact backoff_scheduled (o := o.fresh) hc ho hcount hcfg (.inl rfl) rfl
        fun d hd _ => (hnone d hd).elim
  | some pid =>
      refine backoff_quiet hc ho hcount ⟨hcfg, .inl rfl, fun d hd => (hnone d hd).elim, ?_⟩
      intro h
      cases h

theorem forget_tick : forget s .tick i a = a := by
  have hnot : names s .tick i = false := by
    cases hb : s.batch <;> rfl
  rw [forget, hnot]
  rfl

/-- What is forgotten leaves the rest steady. -/
theorem Steady.forget {o : Outline} (h : Steady c o a) : Steady c o (forget s l i a) := by
  rw [Sup.forget]
  split
  · refine ⟨h.cfg, h.range, fun d hd => ?_, fun hw => ⟨rfl, (h.asked hw).2⟩⟩
    cases hd
  · exact h

/-- The step lemma. -/
theorem Move.backoff (hc : c.Sane) (h : Move K s l i s') (hs' : s' = step K s l)
    (hst : Steady c (s.services i).outline a) (hok : misjudges K s l i a = false) :
    BackoffStep K c s l s' i a ∧
      Steady c (s'.services i).outline (observe K s l s' i a) := by
  have hnames : names s l i = true → (Sup.forget s l i a).delay = none := by
    intro hn
    rw [Sup.forget, if_pos hn]
  cases h with
  | stays h => exact backoff_quiet hc h rfl hst.forget
  | asked hn hrun h =>
      refine backoff_quiet hc h rfl ⟨hst.cfg, hst.range, hst.forget.delay, fun _ => ?_⟩
      refine ⟨hnames hn, ?_⟩
      show (s.services i).state ≠ .backoff
      rw [hrun]
      decide
  | operator hn h => exact backoff_fresh hc h rfl hst.cfg (hnames hn)
  | relaunch fork hrun hw h => exact backoff_fresh hc h rfl hst.cfg (hst.forget.asked hw).1
  | exit hrun hw hr h =>
      refine backoff_scheduled hc h rfl hst.cfg hst.range hw fun d hd hran => ?_
      -- `last_start` is that of the child that has exited
      have hchild : childFails s i = true := decide_eq_true ⟨hrun, hw⟩
      rw [ranSince, if_pos hchild, childRan, hr] at hran
      exact nextBackoff_doubles hc hst.forget hd hran
  | down state hrun hs hr h =>
      refine backoff_quiet hc h rfl ⟨hst.cfg, hst.range, hst.forget.delay, fun hw => ?_⟩
      refine ⟨(hst.forget.asked hw).1, ?_⟩
      show state ≠ .backoff
      rcases hs with rfl | rfl <;> decide
  | stopped hcause h =>
      refine backoff_quiet hc h rfl ⟨hst.cfg, hst.range, hst.forget.delay, fun hw => ?_⟩
      exact ⟨(hst.forget.asked hw).1, fun hbad => (by cases hbad)⟩
  | due fork hl hb hf h =>
      -- a service in backoff was not asked to restart
      have hwants : (s.services i).wantsRestart = false := by
        cases hw : (s.services i).wantsRestart with
        | false => rfl
        | true => exact absurd hb (hst.asked hw).2
      subst hl
      cases fork with
      | some pid =>
          refine backoff_quiet hc h rfl ?_
          rw [forget_tick]
          refine ⟨hst.cfg, hst.range, hst.delay, fun hw => ?_⟩
          exact absurd (hwants.symm.trans hw) (by decide)
      | none =>
          refine backoff_scheduled hc h rfl hst.cfg hst.range hwants fun d hd hran => ?_
          rw [forget_tick] at hd
          -- the fork failed: `last_start` is still that of the child before it
          have hchild : childFails s i = false := by
            rw [childFails, hb]
            rfl
          rw [ranSince, if_neg (by rw [hchild]; decide)] at hran
          by_cases hnow : seconds (K.clock (tickReading K s i) - (s.services i).lastStart) <
              kStableSec
          · exact nextBackoff_doubles hc hst hd hnow
          · -- the test of `schedule_restart` passes: starting over is the same here
            have hmem := hf rfl
            rw [hs'] at hmem
            have hcfg : (s.services i).cfg = c := hst.cfg
            have hsame : min (2 * d) c.backoffMaxSec = c.backoffMinSec := by
              by_contra hne
              have hdiffers : (min (2 * d) c.backoffMaxSec != c.backoffMinSec) = true :=
                bne_iff_ne.mpr hne
              rw [misjudges, hd, hcfg, decide_eq_true hmem, decide_eq_true hran,
                decide_eq_true (not_lt.mp hnow)] at hok
              simp only [hdiffers] at hok
              cases hok
            rw [hsame, Outline.nextBackoff]
            have hle : kStableSec ≤
                seconds (K.clock (tickReading K s i) - (s.services i).outline.lastStart) :=
              not_lt.mp hnow
            rw [if_pos hle]
            exact congrArg ServiceConfig.backoffMinSec hcfg

/-! ## Runs -/

/-- From a steady state, every step of a run is as expected. -/
theorem backoff_from (hc : c.Sane) (ls : List Label) : ∀ p : Sup n × Attempts,
    Tracked p.1 → Steady c (p.1.services i).outline p.2 → neverMisjudges K i p ls = true →
    ∀ pre l, pre ++ [l] <+: ls →
      BackoffStep K c (pre.foldl (step K) p.1) l ((pre ++ [l]).foldl (step K) p.1) i
        (pre.foldl (watch K i) p).2 := by
  induction ls with
  | nil =>
      intro p _ _ _ pre l hpre
      exact absurd (List.prefix_nil.mp hpre) (List.concat_ne_nil _ _)
  | cons l' ls ih =>
      intro p ht hst hok pre l hpre
      obtain ⟨hnow, hlater⟩ := Bool.and_eq_true_iff.mp hok
      obtain ⟨hstep, hnext⟩ := (step_move (K := K) ht l' i).backoff hc rfl hst
        ((Bool.not_eq_true' _).mp hnow)
      cases pre with
      | nil =>
          obtain ⟨rfl, -⟩ := List.cons_prefix_cons.mp hpre
          exact hstep
      | cons e pre =>
          obtain ⟨rfl, hrest⟩ := List.cons_prefix_cons.mp hpre
          exact ih (watch K i p e) (ht.step e) hnext hlater pre l hrest

theorem steady_start (hc : c.Sane) (cfgs : Fin n → ServiceConfig) (hcfg : cfgs i = c) :
    BackoffStep K c (create cfgs) .check (start K cfgs) i {} ∧
      Steady c ((start K cfgs).services i).outline (firstAttempt K cfgs i) := by
  obtain ⟨fork, k, h⟩ := start_outline K cfgs i
  have hforgot : (Sup.forget (create cfgs) .check i {}).delay = none := rfl
  exact backoff_fresh (o := ((create cfgs).services i).outline) hc h rfl hcfg hforgot

/-- **Restart backoff.**  For every service of a manifest with sane bounds, in every run in which
    none of its relaunches is misjudged, at every step, the launch at `start` included: a scheduled
    delay is within the bounds, doubling it does not overflow, and it is twice the last one (or the
    upper bound) when the service had not run for `kStableSec` since its previous launch attempt
    and no operator's restart came between. -/
theorem backoff_run (K : Kernel) (es : List ServiceEntry) (i : Fin es.length)
    (hc : (manifestCfgs es i).Sane) (ls : List Label)
    (hok : neverMisjudges K i (start K (manifestCfgs es), firstAttempt K (manifestCfgs es) i) ls =
      true) :
    BackoffStep K (manifestCfgs es i) (create (manifestCfgs es)) .check
        (start K (manifestCfgs es)) i {} ∧
      ∀ pre l, pre ++ [l] <+: ls →
        BackoffStep K (manifestCfgs es i) (run K (manifestCfgs es) pre) l
          (run K (manifestCfgs es) (pre ++ [l])) i (attempts K (manifestCfgs es) pre i) := by
  obtain ⟨hstart, hst⟩ := steady_start (K := K) (i := i) hc (manifestCfgs es) rfl
  exact ⟨hstart, backoff_from hc ls _ (tracked_start K _) hst hok⟩

/-! ## A relaunch that cannot fork -/

/-- A clock that stands still for three readings, and is 20 seconds on after that. -/
def lateKernel (fails : Nat → Bool) : Kernel :=
  { patchyKernel fails with
    clock := fun k => if k ≤ 2 then 0 else 20 * nanos
    clock_mono := by
      intro a b hab
      have hpos : (0 : Int) ≤ 20 * nanos := by decide
      dsimp only
      split
      · split
        · exact le_refl _
        · exact hpos
      · rw [if_neg (by omega)] }

/-- The service of `backoffManifest`. -/
def backoffEntries (min max : Int32) : List ServiceEntry :=
  [{ name := ascii "a", exec := ascii "/a", backoffMinSec := min, backoffMaxSec := max }]

def crash : List Label := [.exit 1 (.exited 1), .sigchld, .read, .read]

/-- The step after `pre` is as expected, for the one service of `backoffEntries`. -/
def AsExpected (K : Kernel) (min max : Int32) (pre : List Label) (l : Label) : Prop :=
  BackoffStep K (manifestCfgs (backoffEntries min max) ⟨0, Nat.one_pos⟩)
    (run K (manifestCfgs (backoffEntries min max)) pre) l
    (run K (manifestCfgs (backoffEntries min max)) (pre ++ [l])) ⟨0, Nat.one_pos⟩
    (attempts K (manifestCfgs (backoffEntries min max)) pre ⟨0, Nat.one_pos⟩)

/-- The child crashes, is relaunched by the next tick, and crashes again. -/
def crashTwice : List Label := crash ++ [.waitpid 0, .waitpid 0, .tick] ++ crash

/-- The second delay is twice the first, but for the upper bound. -/
theorem backoff_run_crash :
    AsExpected (lateKernel fun _ => false) 16 30 crashTwice (.waitpid 0) ∧
      (attempts (lateKernel fun _ => false) (manifestCfgs (backoffEntries 16 30)) crashTwice
        ⟨0, Nat.one_pos⟩).delay = some 16 ∧
      ((run (lateKernel fun _ => false) (manifestCfgs (backoffEntries 16 30))
        (crashTwice ++ [.waitpid 0])).services ⟨0, Nat.one_pos⟩).currentBackoffSec = 30 := by
  have hrun := (backoff_run (lateKernel fun _ => false) (backoffEntries 16 30) ⟨0, Nat.one_pos⟩
    ⟨by decide, by decide, by decide⟩ (crashTwice ++ [.waitpid 0]) (by decide)).2 crashTwice
    (.waitpid 0) ⟨[], rfl⟩
  exact ⟨hrun, by decide, hrun.doubles (by decide) 16 (by decide) (by decide)⟩

/-- Two manifests that are accepted.  With bounds of 16 and 30 seconds the service crashes at once,
    and its relaunch 20 seconds later cannot fork: the delay is 16 again and not 30.  With bounds
    of 5 and 2 seconds the first delay is above the upper bound. -/
theorem backoff_broken :
    parseServicesFile (ascii "m") (some (backoffManifest "16")) [] [] =
        (true, backoffEntries 16 30, []) ∧
      ¬AsExpected (lateKernel (· == 1)) 16 30 (crash ++ [.waitpid 0, .waitpid 0]) .tick ∧
      parseServicesFile (ascii "m") (some (backoffManifest "5\nbackoff_max = 2")) [] [] =
        (true, backoffEntries 5 2, []) ∧
      ¬AsExpected (lateKernel fun _ => false) 5 2 crash (.waitpid 0) := by
  refine ⟨by decide, fun h => ?_, by decide, fun h => ?_⟩
  · have hdelay := h.doubles (by decide) 16 (by decide) (by decide)
    exact absurd hdelay (by decide)
  · have hbound := (h.bounds (by decide)).2
    exact absurd hbound (by decide)

end Sup

end CastlePlus
