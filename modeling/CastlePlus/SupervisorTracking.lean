import CastlePlus.HandleLog
import CastlePlus.Supervisor
import Mathlib.Data.List.Perm.Basic

/-! # The supervisor and its children

    The pids in `services_` are exactly the children that were forked and not
    reaped yet.  The invariant `Tracked` has two parts:

    * `Books`: the pids, the kernel's view and the log agree;
    * `Fine`: one service and its uptime entry are consistent.

    A handler works on one service at a time.  Between the moment it clears a pid
    and the moment it decides what becomes of the service only `Vacant` holds. -/

namespace CastlePlus

open HandleLog

namespace Sup

variable {n : Nat}

def childEvent (cs : List Int) : Event n → List Int
  | .forked _ pid => pid :: cs
  | .reaped pid => cs.erase pid
  | _ => cs

/-- The children forked and not reaped yet, read off the log. -/
def childrenOf (log : List (Event n)) : List Int := log.foldl childEvent []

/-- A `kill` goes to a child that is not reaped. -/
def KillsChild (pre : List (Event n)) (e : Event n) : Prop :=
  ∀ p sig, e = .killed p sig → p ∈ childrenOf pre

theorem childrenOf_concat (log : List (Event n)) (e : Event n) :
    childrenOf (log ++ [e]) = childEvent (childrenOf log) e := by
  rw [childrenOf]
  rw [List.foldl_append]
  rfl

/-! ## The invariant -/

structure Books (s : Sup n) : Prop where
  tracked : ∀ p, p ∈ childrenOf s.log ↔ 0 < p ∧ ∃ i, (s.services i).pid = p
  distinct : ∀ i j, 0 < (s.services i).pid → (s.services i).pid = (s.services j).pid → i = j
  nodup : (childrenOf s.log).Nodup
  kernel : s.unreaped.Perm (childrenOf s.log)
  kills : Throughout KillsChild s.log

structure Fine (v : Service) (u : ServiceUptime) : Prop where
  state : v.state = .running ↔ 0 < v.pid
  health : v.healthKnown = true → 0 < v.pid
  running : u.running = decide (0 < v.pid)
  since : 0 < v.pid → u.since = v.lastStart

structure Tracked (s : Sup n) : Prop where
  books : Books s
  fine : ∀ i, Fine (s.services i) (s.uptime i)

/-- Service `i` has no child and is not settled yet; everything else is. -/
structure Vacant (i : Fin n) (s : Sup n) : Prop where
  books : Books s
  fine : ∀ j, j ≠ i → Fine (s.services j) (s.uptime j)
  pid : (s.services i).pid ≤ 0
  health : (s.services i).healthKnown = false
  running : (s.uptime i).running = false

variable {s : Sup n} {i : Fin n} {v : Service}

theorem Tracked.vacant (h : Tracked s) (hp : (s.services i).pid ≤ 0) : Vacant i s := by
  refine ⟨h.books, fun j _ => h.fine j, hp, ?_, ?_⟩
  · cases hk : (s.services i).healthKnown with
    | false => rfl
    | true =>
        have := (h.fine i).health hk
        omega
  · rw [(h.fine i).running, decide_eq_false (by omega)]

theorem setService_self : (s.setService i v).services i = v := Function.update_self ..

theorem setService_of_ne {j : Fin n} (h : j ≠ i) :
    (s.setService i v).services j = s.services j := Function.update_of_ne h ..

theorem clearBreaker_self :
    (clearBreaker i s).services i = { s.services i with recentFailures := [] } :=
  Function.update_self ..

/-- Launching `i` touches no other service. -/
theorem spawn_of_ne {K : Kernel} {j : Fin n} (h : j ≠ i) :
    (spawn K i s).services j = s.services j := by
  rw [spawn]
  cases K.fork s.forks s.unreaped with
  | none => exact setService_of_ne h
  | some pid => exact setService_of_ne h

/-- Writing back a service with the pid it had. -/
theorem Books.setService (h : Books s) (hp : v.pid = (s.services i).pid) :
    Books (s.setService i v) := by
  have hpid : ∀ j, ((s.setService i v).services j).pid = (s.services j).pid := by
    intro j
    by_cases hj : j = i
    · subst hj
      rw [setService_self, hp]
    · rw [setService_of_ne hj]
  refine ⟨fun p => ?_, fun j k => ?_, h.nodup, h.kernel, h.kills⟩
  · simp only [hpid]
    exact h.tracked p
  · rw [hpid, hpid]
    exact h.distinct j k

/-- Events that are no fork, no reap and no kill leave the books alone. -/
theorem Books.record {e : Event n} (h : Books s) (he : childEvent (childrenOf s.log) e = childrenOf s.log)
    (hk : KillsChild s.log e) : Books (s.record e) := by
  have hsame : childrenOf (s.record e).log = childrenOf s.log := by
    show childrenOf (s.log ++ [e]) = _
    rw [childrenOf_concat, he]
  refine ⟨fun p => ?_, h.distinct, ?_, ?_, throughout_concat.mpr ⟨h.kills, hk⟩⟩
  · rw [hsame]
    exact h.tracked p
  · rw [hsame]
    exact h.nodup
  · rw [hsame]
    exact h.kernel

theorem Fine.of_idle {u : ServiceUptime} (hp : v.pid ≤ 0) (hs : v.state ≠ .running)
    (hh : v.healthKnown = false) (hu : u.running = false) : Fine v u := by
  refine ⟨⟨fun h => absurd h hs, fun h => absurd h (by omega)⟩, fun h => ?_, ?_, fun h => ?_⟩
  · exact absurd (hh.symm.trans h) (by simp)
  · rw [hu, decide_eq_false (by omega)]
  · exact absurd h (by omega)

/-- What becomes of a service without a child: any state but `Running`. -/
theorem Vacant.settle (h : Vacant i s) (hp : v.pid = (s.services i).pid)
    (hs : v.state ≠ .running) (hh : v.healthKnown = false) : Tracked (s.setService i v) := by
  refine ⟨h.books.setService hp, fun j => ?_⟩
  by_cases hj : j = i
  · subst hj
    rw [setService_self]
    exact Fine.of_idle (by rw [hp]; exact h.pid) hs hh h.running
  · rw [setService_of_ne hj]
    exact h.fine j hj

theorem Vacant.setService (h : Vacant i s) (hp : v.pid = (s.services i).pid)
    (hh : v.healthKnown = false) : Vacant i (s.setService i v) := by
  refine ⟨h.books.setService hp, fun j hj => ?_, ?_, ?_, h.running⟩
  · rw [setService_of_ne hj]
    exact h.fine j hj
  · rw [setService_self, hp]
    exact h.pid
  · rw [setService_self, hh]

theorem Vacant.record {e : Event n} (h : Vacant i s)
    (he : childEvent (childrenOf s.log) e = childrenOf s.log) (hk : KillsChild s.log e) :
    Vacant i (s.record e) :=
  ⟨h.books.record he hk, h.fine, h.pid, h.health, h.running⟩

theorem Tracked.record {e : Event n} (h : Tracked s)
    (he : childEvent (childrenOf s.log) e = childrenOf s.log) (hk : KillsChild s.log e) :
    Tracked (s.record e) :=
  ⟨h.books.record he hk, h.fine⟩

/-- Writing back a service whose tracked fields are as before. -/
theorem Tracked.setService (h : Tracked s) (hp : v.pid = (s.services i).pid)
    (hs : v.state = (s.services i).state) (hh : v.healthKnown = true → 0 < v.pid)
    (hl : v.lastStart = (s.services i).lastStart) : Tracked (s.setService i v) := by
  refine ⟨h.books.setService hp, fun j => ?_⟩
  by_cases hj : j = i
  · subst hj
    rw [setService_self]
    have hf := h.fine j
    refine ⟨?_, hh, ?_, ?_⟩
    · rw [hs, hp]
      exact hf.state
    · rw [hp]
      exact hf.running
    · rw [hp, hl]
      exact hf.since
  · rw [setService_of_ne hj]
    exact h.fine j

theorem Vacant.scheduleRestart {K : Kernel} (h : Vacant i s) : Tracked (scheduleRestart K i s) := by
  have hset : Tracked (s.setService i _) :=
    h.settle (v := { s.services i with
      currentBackoffSec := nextBackoff (s.services i) (K.clock s.reads),
      restartCount := (s.services i).restartCount + 1, state := .backoff,
      nextRestart := K.clock s.reads
        + nextBackoff (s.services i) (K.clock s.reads) * nanos }) rfl (by simp) h.health
  exact ⟨⟨hset.1.1, hset.1.2, hset.1.3, hset.1.4, hset.1.5⟩, hset.2⟩

/-- A new child is entered for a service that has none. -/
theorem Books.fork {s' : Sup n} {pid : Int} (h : Books s) (hv : (s.services i).pid ≤ 0)
    (hpos : 0 < pid) (hfresh : pid ∉ s.unreaped)
    (hself : (s'.services i).pid = pid) (hrest : ∀ j, j ≠ i → s'.services j = s.services j)
    (hlog : s'.log = s.log ++ [.forked i pid]) (hkernel : s'.unreaped = pid :: s.unreaped) :
    Books s' := by
  have hnew : pid ∉ childrenOf s.log := fun hm => hfresh (h.kernel.mem_iff.mpr hm)
  have hcs : childrenOf s'.log = pid :: childrenOf s.log := by
    rw [hlog, childrenOf_concat]
    rfl
  have hother : ∀ j, j ≠ i → (s'.services j).pid ≠ pid := by
    intro j hj heq
    rw [hrest j hj] at heq
    exact hnew ((h.tracked pid).mpr ⟨hpos, j, heq⟩)
  refine ⟨fun p => ?_, fun j k hj hjk => ?_, ?_, ?_, ?_⟩
  · -- the children are those of before and the new one
    rw [hcs, List.mem_cons]
    constructor
    · rintro (rfl | hp)
      · exact ⟨hpos, i, hself⟩
      · obtain ⟨hp0, j, hj⟩ := (h.tracked p).mp hp
        have hji : j ≠ i := by
          rintro rfl
          omega
        exact ⟨hp0, j, by rw [hrest j hji]; exact hj⟩
    · rintro ⟨hp0, j, hj⟩
      by_cases hji : j = i
      · subst hji
        exact .inl (hj.symm.trans hself)
      · rw [hrest j hji] at hj
        exact .inr ((h.tracked p).mpr ⟨hp0, j, hj⟩)
  · -- no two services share a pid: the new one was nobody's
    by_cases hji : j = i
    · by_cases hki : k = i
      · rw [hji, hki]
      · rw [hji, hself] at hjk
        exact absurd hjk.symm (hother k hki)
    · by_cases hki : k = i
      · rw [hki, hself] at hjk
        exact absurd hjk (hother j hji)
      · rw [hrest j hji] at hj hjk
        rw [hrest k hki] at hjk
        exact h.distinct j k hj hjk
  · rw [hcs]
    exact List.nodup_cons.mpr ⟨hnew, h.nodup⟩
  · rw [hcs, hkernel]
    exact h.kernel.cons pid
  · rw [hlog]
    exact throughout_concat.mpr ⟨h.kills, fun p sig he => (by cases he)⟩

theorem Vacant.spawn {K : Kernel} (h : Vacant i s) : Tracked (spawn K i s) := by
  rw [Sup.spawn]
  cases hf : K.fork s.forks s.unreaped with
  | none =>
      have hrec : Vacant i (s.record (.forkFailed i)) := h.record rfl fun p sig he => (by cases he)
      exact Vacant.scheduleRestart
        ⟨⟨hrec.1.1, hrec.1.2, hrec.1.3, hrec.1.4, hrec.1.5⟩, hrec.2, hrec.3, hrec.4, hrec.5⟩
  | some pid =>
      have hself : ∀ w : Service, Function.update s.services i w i = w :=
        fun w => Function.update_self ..
      refine ⟨h.books.fork h.pid (K.fork_pos hf) (K.fork_fresh hf) ?_ ?_ rfl rfl, fun j => ?_⟩
      · exact congrArg Service.pid (hself _)
      · exact fun j hj => Function.update_of_ne hj ..
      · show Fine (Function.update s.services i _ j) (Function.update s.uptime i _ j)
        by_cases hj : j = i
        · subst hj
          rw [Function.update_self, Function.update_self]
          refine ⟨⟨fun _ => K.fork_pos hf, fun _ => rfl⟩, fun _ => K.fork_pos hf, ?_, fun _ => ?_⟩
          · exact congrArg (fun w : Service => decide (0 < w.pid)) (hself _)
          · exact congrArg Service.lastStart (hself _)
        · rw [Function.update_of_ne hj, Function.update_of_ne hj]
          exact h.fine j hj

theorem Tracked.markDown {K : Kernel} (h : Tracked s) : Tracked (markDown K i s) := by
  rw [Sup.markDown]
  dsimp only
  split
  · exact h
  · have hset := h.setService (i := i) (v := { s.services i with
      isDown := true, downSinceMono := K.clock s.reads, downSinceWall := K.wall s.reads })
      rfl rfl (h.fine i).health rfl
    exact ⟨⟨hset.1.1, hset.1.2, hset.1.3, hset.1.4, hset.1.5⟩, hset.2⟩

theorem Vacant.recordFailure (K : Kernel) (status : WaitStatus) (h : Vacant i s) :
    Vacant i (recordFailure K i status s) := by
  rw [Sup.recordFailure]
  refine Vacant.record ?_ rfl fun p sig he => (by cases he)
  have hset := h.setService (v := pruneFailures (K.clock s.reads) { s.services i with
      failureCount := (s.services i).failureCount + 1, everFailed := true,
      lastFailureMono := K.clock s.reads, lastFailureWall := K.wall s.reads,
      lastFailureReason := failureReason K status,
      recentFailures := (s.services i).recentFailures ++ [K.clock s.reads] }) rfl h.health
  exact ⟨⟨hset.1.1, hset.1.2, hset.1.3, hset.1.4, hset.1.5⟩, hset.2, hset.3, hset.4, hset.5⟩

theorem Vacant.unexpectedExit {K : Kernel} {pid : Int} {status : WaitStatus} (h : Vacant i s) :
    Tracked (unexpectedExit K i pid status s) := by
  have hrec := h.recordFailure K status
  unfold Sup.unexpectedExit
  dsimp only
  split
  · refine Tracked.markDown (Tracked.record ?_ rfl fun p sig he => (by cases he))
    exact hrec.settle rfl (by simp) hrec.health
  · split
    · refine Tracked.markDown (Tracked.record ?_ rfl fun p sig he => (by cases he))
      exact hrec.settle rfl (by simp) hrec.health
    · exact (hrec.record (e := .branch i pid .backoff) rfl
        fun p sig he => (by cases he)).scheduleRestart

/-! ## Reaping -/

theorem findByPid_some {pid : Int} (h : s.findByPid pid = some i) : (s.services i).pid = pid := by
  have hp := List.find?_some h
  exact eq_of_beq hp

theorem findByPid_none {pid : Int} (h : s.findByPid pid = none) :
    ∀ i, (s.services i).pid ≠ pid := by
  intro i heq
  have hp := List.find?_eq_none.mp h i (List.mem_finRange i)
  exact hp (by rw [heq]; exact beq_self_eq_true pid)

/-- A dead child is struck off the books of the service that had it. -/
theorem Books.reap {s' : Sup n} {pid : Int} {status : WaitStatus} {k : Nat} (h : Books s)
    (hk : s.dead[k]? = some (pid, status)) (hi : (s.services i).pid = pid)
    (hself : (s'.services i).pid ≤ 0)
    (hrest : ∀ j, j ≠ i → (s'.services j).pid = (s.services j).pid)
    (hlog : s'.log = s.log ++ [.reaped pid]) (hlive : s'.live = s.live)
    (hdead : s'.dead = s.dead.eraseIdx k) : Books s' := by
  obtain ⟨hlt, hget⟩ := List.getElem?_eq_some_iff.mp hk
  have hcs : childrenOf s'.log = (childrenOf s.log).erase pid := by
    rw [hlog, childrenOf_concat]
    rfl
  have hperm : s.unreaped.Perm (pid :: s'.unreaped) := by
    unfold unreaped
    rw [hlive, hdead]
    have hd : (s.dead.map Prod.fst).Perm (pid :: (s.dead.eraseIdx k).map Prod.fst) := by
      have := (List.getElem_cons_eraseIdx_perm hlt).symm.map Prod.fst
      rwa [List.map_cons, hget] at this
    exact (hd.append_left s.live).trans List.perm_middle
  have hin : pid ∈ childrenOf s.log := h.kernel.mem_iff.mp (hperm.mem_iff.mpr (List.mem_cons_self ..))
  have hpos := ((h.tracked pid).mp hin).1
  have hother : ∀ j, j ≠ i → (s.services j).pid ≠ pid := by
    intro j hj heq
    exact hj (h.distinct j i (by rw [heq]; exact hpos) (heq.trans hi.symm))
  refine ⟨fun p => ?_, fun j k hj hjk => ?_, ?_, ?_, ?_⟩
  · -- only service `i` had the pid
    rw [hcs, h.nodup.mem_erase_iff, h.tracked]
    constructor
    · rintro ⟨hne, hp0, j, hj⟩
      have hji : j ≠ i := by
        rintro rfl
        exact hne (hj.symm.trans hi)
      exact ⟨hp0, j, by rw [hrest j hji]; exact hj⟩
    · rintro ⟨hp0, j, hj⟩
      have hji : j ≠ i := by
        rintro rfl
        omega
      rw [hrest j hji] at hj
      refine ⟨?_, hp0, j, hj⟩
      rintro rfl
      exact hother j hji hj
  · have hji : j ≠ i := by
      rintro rfl
      omega
    have hki : k ≠ i := by
      rintro rfl
      omega
    rw [hrest j hji] at hj hjk
    rw [hrest k hki] at hjk
    exact h.distinct j k hj hjk
  · rw [hcs]
    exact h.nodup.erase pid
  · rw [hcs]
    have hcons := hperm.symm.trans h.kernel
    exact (List.cons_perm_iff_perm_erase.mp hcons).2
  · rw [hlog]
    exact throughout_concat.mpr ⟨h.kills, fun p sig he => (by cases he)⟩

/-- The service of a reaped child, its pid cleared. -/
def cleared (i : Fin n) (s : Sup n) : Sup n :=
  let s' := publishUptime i (s.setService i { s.services i with pid := -1 })
  s'.setService i { s'.services i with healthKnown := false }

theorem cleared_self :
    (cleared i s).services i = { s.services i with pid := -1, healthKnown := false } := by
  unfold cleared publishUptime setService
  dsimp only
  rw [Function.update_self, Function.update_self]

theorem cleared_of_ne {j : Fin n} (h : j ≠ i) : (cleared i s).services j = s.services j := by
  unfold cleared publishUptime setService
  dsimp only
  rw [Function.update_of_ne h, Function.update_of_ne h]

theorem Tracked.cleared {pid : Int} {status : WaitStatus} {k : Nat} (h : Tracked s)
    (hk : s.dead[k]? = some (pid, status)) (hi : (s.services i).pid = pid) :
    Vacant i (Sup.cleared i (s.collect pid k)) := by
  refine ⟨h.books.reap hk hi ?_ (fun j hj => by rw [cleared_of_ne hj]; rfl) rfl rfl rfl,
    fun j hj => ?_, ?_, ?_, ?_⟩
  · rw [cleared_self]
    show (-1 : Int) ≤ 0
    decide
  · rw [cleared_of_ne hj]
    have hu : (Sup.cleared i (s.collect pid k)).uptime j = s.uptime j := Function.update_of_ne hj ..
    rw [hu]
    exact h.fine j
  · rw [cleared_self]
    show (-1 : Int) ≤ 0
    decide
  · rw [cleared_self]
  · unfold Sup.cleared Sup.publishUptime Sup.setService
    dsimp only
    rw [Function.update_self, Function.update_self]
    rfl

theorem reapService_eq (K : Kernel) (i : Fin n) (pid : Int) (status : WaitStatus) (s : Sup n) :
    reapService K i pid status s =
      if s.shuttingDown then
        record (.branch i pid .stopped)
          ((cleared i s).setService i { (cleared i s).services i with state := .stopped })
      else if ((cleared i s).services i).wantsRestart then
        spawn K i (record (.branch i pid .relaunched) ((cleared i s).setService i
          { (cleared i s).services i with wantsRestart := false, currentBackoffSec := 0 }))
      else unexpectedExit K i pid status (cleared i s) := rfl

theorem Vacant.reapService {K : Kernel} {pid : Int} {status : WaitStatus}
    (h : Vacant i (Sup.cleared i s)) : Tracked (reapService K i pid status s) := by
  rw [reapService_eq]
  split
  · refine Tracked.record ?_ rfl fun p sig he => (by cases he)
    exact h.settle rfl (by simp) h.health
  · split
    · refine Vacant.spawn (Vacant.record ?_ rfl fun p sig he => (by cases he))
      exact h.setService rfl h.health
    · exact h.unexpectedExit

theorem Tracked.finishIfDrained (h : Tracked s) : Tracked (finishIfDrained s) := by
  rw [Sup.finishIfDrained]
  split
  · exact h
  · refine Tracked.record ?_ rfl fun p sig he => (by cases he)
    exact ⟨⟨h.1.1, h.1.2, h.1.3, h.1.4, h.1.5⟩, h.2⟩

theorem Tracked.waitpid {K : Kernel} {k : Nat} (h : Tracked s) : Tracked (waitpid K k s) := by
  rw [Sup.waitpid]
  split
  · split
    · have hidle : Tracked { s with pc := .idle } := ⟨⟨h.1.1, h.1.2, h.1.3, h.1.4, h.1.5⟩, h.2⟩
      dsimp only
      split
      · exact hidle.finishIfDrained
      · exact hidle
    · cases hk : s.dead[k]? with
      | none => exact h
      | some d =>
          obtain ⟨pid, status⟩ := d
          dsimp only
          rw [reapChild]
          cases hf : findByPid pid (s.collect pid k) with
          | some i => exact (h.cleared hk (findByPid_some hf)).reapService
          | none =>
              -- every dead child belongs to a service
              have hmem : pid ∈ s.unreaped := by
                refine List.mem_append_right _ (List.mem_map.mpr ⟨(pid, status), ?_, rfl⟩)
                exact List.mem_of_getElem? hk
              obtain ⟨-, j, hj⟩ := (h.books.tracked pid).mp (h.books.kernel.mem_iff.mp hmem)
              exact absurd hj (findByPid_none hf j)
  · exact h

/-! ## The other handlers -/

/-- What every turn of a `for` over the services preserves holds after it. -/
theorem forServices_inv {P : Sup n → Prop} {f : Fin n → Sup n → Sup n}
    (hf : ∀ i s, P s → P (f i s)) (h : P s) : P (forServices f s) := by
  rw [forServices]
  have hfold : ∀ (l : List (Fin n)) (s : Sup n), P s → P (l.foldl (fun s i => f i s) s) := by
    intro l
    induction l with
    | nil => intro s hs; exact hs
    | cons i l ih => intro s hs; exact ih _ (hf i s hs)
  exact hfold _ s h

theorem Tracked.relaunchIfDue {K : Kernel} {now : Int} (h : Tracked s) :
    Tracked (relaunchIfDue K now i s) := by
  rw [Sup.relaunchIfDue]
  split
  · rename_i hdue
    refine (h.vacant ?_).spawn
    by_contra hp
    have hrun := (h.fine i).state.mpr (by omega)
    exact absurd (hdue.1.symm.trans hrun) (by simp)
  · exact h

theorem Tracked.checkHealth {K : Kernel} {now : Int} (h : Tracked s) :
    Tracked (checkHealth K now i s) := by
  rw [Sup.checkHealth]
  dsimp only
  split
  · rename_i hcond
    have hset := h.setService (i := i) (v := { s.services i with
        healthy := K.probe s.probes (s.services i).cfg.healthHost (s.services i).cfg.healthPort,
        healthKnown := true, lastHealth := now }) rfl rfl (fun _ => hcond.1) rfl
    exact ⟨⟨hset.1.1, hset.1.2, hset.1.3, hset.1.4, hset.1.5⟩, hset.2⟩
  · exact h

theorem Tracked.tickService {K : Kernel} {now : Int} (h : Tracked s) :
    Tracked (tickService K now i s) := h.relaunchIfDue.checkHealth

theorem Tracked.recordKill {sig : Signal} (h : Tracked s) (hp : 0 < (s.services i).pid) :
    Tracked (s.record (.killed (s.services i).pid sig)) := by
  refine h.record rfl fun p sig' he => ?_
  cases he
  exact (h.books.tracked _).mpr ⟨hp, i, rfl⟩

theorem Tracked.killService {sig : Signal} (h : Tracked s) : Tracked (killService sig i s) := by
  rw [Sup.killService]
  split
  · rename_i hp
    exact h.recordKill hp
  · exact h

theorem Tracked.stopService (h : Tracked s) : Tracked (stopService i s) := by
  rw [Sup.stopService]
  split
  · rename_i hp
    exact h.recordKill hp
  · rename_i hp
    have hv := h.vacant (i := i) (by omega)
    exact hv.settle rfl (by simp) hv.health

theorem Tracked.onTick {K : Kernel} (h : Tracked s) : Tracked (onTick K s) := by
  have hread : Tracked { s with reads := s.reads + 1 } :=
    ⟨⟨h.1.1, h.1.2, h.1.3, h.1.4, h.1.5⟩, h.2⟩
  rw [Sup.onTick]
  dsimp only
  split
  · refine Tracked.finishIfDrained ?_
    split
    · exact forServices_inv (fun i s hs => hs.killService) hread
    · exact hread
  · exact forServices_inv (fun i s hs => hs.tickService) hread

theorem Tracked.beginShutdown {K : Kernel} (h : Tracked s) : Tracked (beginShutdown K s) := by
  rw [Sup.beginShutdown]
  refine Tracked.finishIfDrained (forServices_inv (fun i s hs => hs.stopService) ?_)
  refine Tracked.record ?_ rfl fun p sig he => (by cases he)
  exact ⟨⟨h.1.1, h.1.2, h.1.3, h.1.4, h.1.5⟩, h.2⟩

theorem Tracked.clearBreaker (h : Tracked s) : Tracked (clearBreaker i s) := by
  have hclear : Tracked (s.setService i { s.services i with recentFailures := [] }) :=
    h.setService rfl rfl (h.fine i).health rfl
  exact hclear.record (e := .restarted i) rfl fun p sig he => (by cases he)

theorem Tracked.doRestart {K : Kernel} {name : String} (h : Tracked s) :
    Tracked (doRestart K name s).2 := by
  rw [Sup.doRestart]
  cases hf : s.findByName name with
  | none => exact h
  | some i =>
      have hclear := h.clearBreaker (i := i)
      dsimp only
      split
      · rename_i hp
        have hset := hclear.setService (i := i)
          (v := { (Sup.clearBreaker i s).services i with wantsRestart := true })
          rfl rfl (hclear.fine i).health rfl
        refine hset.record rfl fun p sig he => ?_
        cases he
        exact (hclear.books.tracked _).mpr ⟨hp, i, rfl⟩
      · rename_i hp
        have hv := hclear.vacant (i := i) (by omega)
        refine Vacant.spawn ?_
        exact hv.setService rfl hv.health

theorem Tracked.exitChild {pid : Int} {status : WaitStatus} (h : Tracked s) :
    Tracked (exitChild pid status s) := by
  rw [Sup.exitChild]
  split
  · rename_i hp
    refine Tracked.record ?_ rfl fun p sig he => (by cases he)
    refine ⟨⟨h.1.1, h.1.2, h.1.3, ?_, h.1.5⟩, h.2⟩
    refine List.Perm.trans ?_ h.books.kernel
    show (s.live.erase pid ++ (s.dead ++ [(pid, status)]).map Prod.fst).Perm
      (s.live ++ s.dead.map Prod.fst)
    rw [List.map_append, List.map_singleton, ← List.append_assoc]
    have hlive : s.live.Perm (pid :: s.live.erase pid) := List.perm_cons_erase hp
    exact (List.perm_append_singleton pid _).trans (hlive.append_right _).symm
  · exact h

theorem Tracked.quiet {s' : Sup n} (h : Tracked s) (hq : Quiet s s') : Tracked s' := by
  refine ⟨⟨?_, ?_, ?_, ?_, ?_⟩, ?_⟩
  · rw [hq.services, hq.log]
    exact h.books.tracked
  · rw [hq.services]
    exact h.books.distinct
  · rw [hq.log]
    exact h.books.nodup
  · rw [unreaped]
    rw [hq.live, hq.dead, hq.log]
    exact h.books.kernel
  · rw [hq.log]
    exact h.books.kills
  · rw [hq.services, hq.uptime]
    exact h.fine

theorem Tracked.step {K : Kernel} (h : Tracked s) (l : Label) : Tracked (step K s l) := by
  rcases step_cases K s l with hq | ⟨pid, status, -, heq⟩ | ⟨k, -, heq⟩ | ⟨-, -, heq⟩ |
    ⟨t, rest, -, -, heq⟩
  · exact h.quiet hq
  · rw [heq]
    exact h.exitChild
  · rw [heq]
    exact h.waitpid
  · rw [heq]
    exact h.onTick
  · have hnext : Tracked { s with batch := rest } := h.quiet ⟨rfl, rfl, rfl, rfl, rfl, rfl, rfl⟩
    rw [heq]
    cases t with
    | beginShutdown => exact hnext.beginShutdown
    | restart name => exact hnext.doRestart

/-- What holds at `start` and is kept by every step holds in every run. -/
theorem run_inv {P : Sup n → Prop} {K : Kernel} {cfgs : Fin n → ServiceConfig}
    (hstart : P (start K cfgs)) (hstep : ∀ s l, P s → P (step K s l)) (ls : List Label) :
    P (run K cfgs ls) := by
  rw [run]
  have hfold : ∀ (ls : List Label) (s : Sup n), P s → P (ls.foldl (step K) s) := by
    intro ls
    induction ls with
    | nil => intro s hs; exact hs
    | cons l ls ih => intro s hs; exact ih _ (hstep s l hs)
  exact hfold ls _ hstart

theorem tracked_create (cfgs : Fin n → ServiceConfig) : Tracked (create cfgs) := by
  have hpid : ∀ i, ((create cfgs).services i).pid = -1 := fun i => rfl
  refine ⟨⟨fun p => ⟨fun hp => absurd hp (by simp [create, childrenOf]), ?_⟩, ?_, List.nodup_nil,
    List.Perm.refl _, throughout_nil _⟩, fun i => ?_⟩
  · rintro ⟨hp, i, hi⟩
    rw [hpid] at hi
    omega
  · intro i j hi
    rw [hpid] at hi
    omega
  · exact Fine.of_idle (by rw [hpid]; decide) (by simp [create]) rfl rfl

theorem tracked_start (K : Kernel) (cfgs : Fin n → ServiceConfig) : Tracked (start K cfgs) := by
  rw [start, forServices]
  have hfold : ∀ (l : List (Fin n)) (s : Sup n), l.Nodup → Tracked s →
      (∀ i ∈ l, (s.services i).pid ≤ 0) → Tracked (l.foldl (fun s i => spawn K i s) s) := by
    intro l
    induction l with
    | nil => intro s _ hs _; exact hs
    | cons i l ih =>
        intro s hnd hs hidle
        obtain ⟨hi, hnd⟩ := List.nodup_cons.mp hnd
        refine ih _ hnd (hs.vacant (hidle i (List.mem_cons_self ..))).spawn fun j hj => ?_
        have hji : j ≠ i := fun he => hi (he ▸ hj)
        rw [spawn_of_ne hji]
        exact hidle j (List.mem_cons_of_mem _ hj)
  exact hfold _ _ (List.nodup_finRange n) (tracked_create cfgs) fun i _ => by
    show (-1 : Int) ≤ 0
    decide

theorem tracked_run (K : Kernel) (cfgs : Fin n → ServiceConfig) (ls : List Label) :
    Tracked (run K cfgs ls) :=
  run_inv (tracked_start K cfgs) (fun _ l hs => hs.step l) ls

/-- After every step of every run: the pids in `services_` are pairwise distinct
    and are exactly the children forked and not yet reaped, by the log and by the
    kernel; state, health and uptime agree with the pid; and every `kill` went to
    a child that was not reaped. -/
theorem child_tracking (K : Kernel) (cfgs : Fin n → ServiceConfig) (ls : List Label) :
    let s := run K cfgs ls
    (∀ i j, 0 < (s.services i).pid → (s.services i).pid = (s.services j).pid → i = j) ∧
    (∀ p, (0 < p ∧ ∃ i, (s.services i).pid = p) ↔ p ∈ childrenOf s.log) ∧
    (childrenOf s.log).Nodup ∧ s.unreaped.Perm (childrenOf s.log) ∧
    (∀ i, (s.services i).state = .running ↔ 0 < (s.services i).pid) ∧
    (∀ i, (s.services i).healthKnown = true → 0 < (s.services i).pid) ∧
    (∀ i, (s.uptime i).running = decide (0 < (s.services i).pid) ∧
      ((s.uptime i).running = true → (s.uptime i).since = (s.services i).lastStart)) ∧
    Throughout KillsChild s.log := by
  intro s
  have h : Tracked s := tracked_run K cfgs ls
  refine ⟨h.books.distinct, fun p => (h.books.tracked p).symm, h.books.nodup, h.books.kernel,
    fun i => (h.fine i).state, fun i => (h.fine i).health, fun i => ⟨(h.fine i).running, ?_⟩,
    h.books.kills⟩
  intro hrun
  rw [(h.fine i).running] at hrun
  exact (h.fine i).since (of_decide_eq_true hrun)

end Sup

end CastlePlus
