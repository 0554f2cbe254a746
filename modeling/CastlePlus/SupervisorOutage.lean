import CastlePlus.StatusTables
import CastlePlus.SupervisorMoves
import CastlePlus.SupervisorShutdown
import Mathlib.Data.List.Induction

/-! # The outage flag

    `is_down` is set by `mark_down` and cleared by a successful `fork` only, while the state is
    also written by `schedule_restart` and by `begin_shutdown`.  So a service that is down keeps
    the flag when its state moves on without a launch: the operator's restart of it cannot fork,
    or the shutdown stops it.  In every run without such a step the flag says exactly that the
    service is quarantined or failed (**`outage_flag`**). -/

namespace CastlePlus

/-- Failed or quarantined: not going to be restarted. -/
def ServiceState.isOut : ServiceState → Bool
  | .failed => true
  | .quarantined => true
  | _ => false

theorem ServiceState.isOut_iff {st : ServiceState} :
    st.isOut = true ↔ st = .quarantined ∨ st = .failed := by
  cases st <;> simp [isOut]

namespace Sup

variable {n : Nat}

/-- The step moves a service that is down to another state without launching it: its restart
    cannot fork, or the shutdown begins. -/
def strands (K : Kernel) (s : Sup n) (l : Label) (i : Fin n) : Bool :=
  (s.services i).isDown &&
    (shuts s l || (names s l i && (K.fork s.forks s.unreaped).isNone))

/-- No step of the run is like that. -/
def neverStrands (K : Kernel) : Sup n → List Label → Bool
  | _, [] => true
  | s, l :: ls => decide (∀ i, strands K s l i = false) && neverStrands K (step K s l) ls

/-- When the service went down: by the last step that took it out of the other states, which read
    the clock then; it has been out ever since. -/
def DownSince (K : Kernel) (cfgs : Fin n → ServiceConfig) (ls : List Label) (i : Fin n) : Prop :=
  ∃ pre l post k, ls = pre ++ l :: post ∧
    ((run K cfgs pre).services i).state.isOut = false ∧
    (∀ mid, mid <+: post → ((run K cfgs (pre ++ l :: mid)).services i).state.isOut = true) ∧
    (run K cfgs pre).reads ≤ k ∧ k < (run K cfgs (pre ++ [l])).reads ∧
    ((run K cfgs ls).services i).downSinceMono = K.clock k

variable {K : Kernel} {cfgs : Fin n → ServiceConfig} {s : Sup n} {i : Fin n} {l : Label}

theorem neverStrands_concat (ls : List Label) (l : Label) : ∀ s : Sup n,
    neverStrands K s (ls ++ [l]) = true → neverStrands K s ls = true ∧
      ∀ i, strands K (ls.foldl (step K) s) l i = false := by
  induction ls with
  | nil =>
      intro s h
      refine ⟨rfl, ?_⟩
      exact of_decide_eq_true (Bool.and_eq_true_iff.mp h).1
  | cons l' ls ih =>
      intro s h
      obtain ⟨hhead, htail⟩ := Bool.and_eq_true_iff.mp h
      obtain ⟨hls, hlast⟩ := ih _ htail
      exact ⟨Bool.and_eq_true_iff.mpr ⟨hhead, hls⟩, hlast⟩

/-- What a move does to the flag and the state. -/
structure Flagged (K : Kernel) (o o' : Outline) (lo hi : Nat) : Prop where
  agrees : o'.isDown = o'.state.isOut
  /-- the service stays out as it was -/
  since : o.state.isOut = true → o'.state.isOut = true → o'.downSinceMono = o.downSinceMono
  /-- or goes out now -/
  enters : o.state.isOut = false → o'.state.isOut = true →
    ∃ k, lo ≤ k ∧ k < hi ∧ o'.downSinceMono = K.clock k

/-- A service that is not out and ends not out. -/
theorem Flagged.of_up {o o' : Outline} {lo hi : Nat} (hdown : o'.isDown = false)
    (hstate : o'.state.isOut = false) : Flagged K o o' lo hi :=
  ⟨hdown.trans hstate.symm, fun _ h => absurd (hstate.symm.trans h) (by simp),
    fun _ h => absurd (hstate.symm.trans h) (by simp)⟩

/-- Launching, or trying to, a service that is not down. -/
theorem Flagged.spawn {o u : Outline} {lo hi : Nat} (fork : Option Int) (now : Int)
    (hdown : u.isDown = false) : Flagged K o (u.spawn fork now) lo hi := by
  cases fork with
  | none => exact .of_up hdown rfl
  | some pid => exact .of_up rfl rfl

theorem Move.flagged {s' : Sup n} (h : Move K s l i s')
    (hflag : (s.services i).isDown = (s.services i).state.isOut)
    (hok : strands K s l i = false) :
    Flagged K (s.services i).outline (s'.services i).outline s.reads s'.reads := by
  have hup : (s.services i).state.isOut = false → (s.services i).outline.isDown = false :=
    fun h => hflag.trans h
  cases h with
  | stays h =>
      rw [h]
      exact ⟨hflag, fun _ _ => rfl, fun h h' => absurd (h.symm.trans h') (by simp)⟩
  | asked hn hrun h =>
      rw [h]
      exact ⟨hflag, fun _ _ => rfl, fun h h' => absurd (h.symm.trans h') (by simp)⟩
  | operator hn h =>
      rw [h]
      cases hfork : K.fork s.forks s.unreaped with
      | some pid => exact .of_up rfl rfl
      | none =>
          -- for a service that is down this fork would strand it
          refine .spawn none _ ?_
          show (s.services i).isDown = false
          cases hd : (s.services i).isDown with
          | false => rfl
          | true =>
              simp only [strands, hd, hn, hfork, Option.isNone_none, Bool.and_self, Bool.or_true]
                at hok
              cases hok
  | relaunch fork hrun hw h =>
      rw [h]
      exact .spawn fork _ (hup (by rw [hrun]; rfl))
  | due fork hl hb hf h =>
      rw [h]
      exact .spawn fork _ (hup (by rw [hb]; rfl))
  | exit hrun hw hr h =>
      rw [h]
      exact .of_up (hup (by rw [hrun]; rfl)) rfl
  | down state hrun hs hr h =>
      have hnot : (s.services i).isDown = false := hup (by rw [hrun]; rfl)
      have hout : state.isOut = true := ServiceState.isOut_iff.mpr hs.symm
      rw [h]
      have hbefore : (s.services i).outline.state.isOut = false := by
        show (s.services i).state.isOut = false
        rw [hrun]
        rfl
      -- the outage begins, at the clock reading of `mark_down`
      refine ⟨hout.symm, fun h => absurd (hbefore.symm.trans h) (by simp), fun _ _ => ?_⟩
      refine ⟨s.reads + 1, Nat.le_succ _, hr hnot, ?_⟩
      show (if (s.services i).isDown then _ else _) = _
      rw [hnot]
      rfl
  | stopped hc h =>
      rw [h]
      refine .of_up ?_ rfl
      show (s.services i).isDown = false
      rcases hc with hrun | hshuts
      · exact hup (by rw [hrun]; rfl)
      · -- `begin_shutdown` stops it: down, it would be stranded
        cases hd : (s.services i).isDown with
        | false => rfl
        | true =>
            simp only [strands, hd, hshuts, Bool.true_or, Bool.and_self] at hok
            cases hok

theorem outage_start (K : Kernel) (cfgs : Fin n → ServiceConfig) (i : Fin n) :
    ((start K cfgs).services i).isDown = ((start K cfgs).services i).state.isOut ∧
      ((start K cfgs).services i).isDown = false := by
  obtain ⟨fork, k, h⟩ := start_outline K cfgs i
  have hflag : Flagged K ((create cfgs).services i).outline
      (((create cfgs).services i).outline.spawn fork (K.clock k)) 0 0 := .spawn fork _ rfl
  rw [← h] at hflag
  refine ⟨hflag.agrees, ?_⟩
  have hdown := congrArg Outline.isDown h
  cases fork <;> exact hdown

/-- The flag and the time, along a run. -/
theorem outage_run (K : Kernel) (cfgs : Fin n → ServiceConfig) (i : Fin n) (ls : List Label) :
    neverStrands K (start K cfgs) ls = true →
    ((run K cfgs ls).services i).isDown = ((run K cfgs ls).services i).state.isOut ∧
      (((run K cfgs ls).services i).state.isOut = true → DownSince K cfgs ls i) := by
  induction ls using List.reverseRecOn with
  | nil =>
      intro _
      obtain ⟨hflag, hdown⟩ := outage_start K cfgs i
      refine ⟨hflag, fun hout => ?_⟩
      exact absurd (hdown.symm.trans (hflag.trans hout)) (by simp)
  | append_singleton ls l ih =>
      intro hok
      obtain ⟨hls, hlast⟩ := neverStrands_concat ls l _ hok
      obtain ⟨hflag, hsince⟩ := ih hls
      have hmove := (step_move (K := K) (tracked_run K cfgs ls) l i).flagged hflag (hlast i)
      rw [← run_concat] at hmove
      refine ⟨hmove.agrees, fun hout => ?_⟩
      cases hbefore : ((run K cfgs ls).services i).state.isOut with
      | false =>
          -- this is the step
          obtain ⟨k, hlo, hhi, hk⟩ := hmove.enters hbefore hout
          refine ⟨ls, l, [], k, rfl, hbefore, ?_, hlo, hhi, hk⟩
          intro mid hmid
          rw [List.prefix_nil.mp hmid]
          exact hout
      | true =>
          obtain ⟨pre, l', post, k, hsplit, hpre, hmid, hlo, hhi, hk⟩ := hsince hbefore
          refine ⟨pre, l', post ++ [l], k, by rw [hsplit]; simp, hpre, ?_, hlo, hhi, ?_⟩
          · intro mid hm
            rcases List.prefix_concat_iff.mp hm with rfl | hm
            · rw [show pre ++ l' :: (post ++ [l]) = ls ++ [l] by rw [hsplit]; simp]
              exact hout
            · exact hmid mid hm
          · exact (hmove.since hbefore hout).trans hk

/-- In every run in which no service that is down has its restart fail to fork, nor is stopped by
    the shutdown, in every state reached: `is_down` holds exactly when the service is quarantined
    or failed, and then `down_since_mono` is the clock reading of the step that took it there;
    so `backendstatus` lists exactly these services as permanently down. -/
theorem outage_flag (K : Kernel) (cfgs : Fin n → ServiceConfig) (ls : List Label)
    (hok : neverStrands K (start K cfgs) ls = true) (i : Fin n) :
    let s := run K cfgs ls
    ((s.services i).isDown = true ↔
      (s.services i).state = .quarantined ∨ (s.services i).state = .failed) ∧
    (i ∈ permanentlyDown s ↔
      (s.services i).state = .quarantined ∨ (s.services i).state = .failed) ∧
    (∀ wallText now, renderBackendStatus wallText now s = backendTable now s ++
      downSection wallText now s
        ((List.finRange n).filter fun j => (s.services j).state.isOut)) ∧
    ((s.services i).isDown = true → DownSince K cfgs ls i) := by
  intro s
  have hflag : ∀ j, (s.services j).isDown = (s.services j).state.isOut := fun j =>
    (outage_run K cfgs j ls hok).1
  have hlist : permanentlyDown s = (List.finRange n).filter fun j => (s.services j).state.isOut :=
    List.filter_congr fun j _ => hflag j
  refine ⟨?_, ?_, fun wallText now => ?_, fun hdown => ?_⟩
  · rw [hflag, ServiceState.isOut_iff]
  · rw [hlist, List.mem_filter, ServiceState.isOut_iff]
    exact and_iff_right (List.mem_finRange i)
  · rw [renderBackendStatus, hlist]
  · exact (outage_run K cfgs i ls hok).2 ((hflag i).symm.trans hdown)

/-! ## A restart that cannot fork -/

/-- A kernel whose `fork` fails where `fails` says so. -/
def patchyKernel (fails : Nat → Bool) : Kernel where
  fork k l := if fails k then none else demoKernel.fork k l
  fork_pos := by
    intro k l p h
    split at h
    · cases h
    · exact demoKernel.fork_pos h
  fork_fresh := by
    intro k l p h
    split at h
    · cases h
    · exact demoKernel.fork_fresh h
  clock := demoKernel.clock
  clock_mono := demoKernel.clock_mono
  wall := demoKernel.wall
  probe := demoKernel.probe
  strsignal := demoKernel.strsignal

/-- A service that is not restarted automatically. -/
def onceCfgs : Fin 1 → ServiceConfig := fun _ => { name := "app", autorestart := false }

/-- Its child exits and is reaped, then the operator restarts it. -/
def downThenRestart : List Label :=
  [.exit 1 (.exited 1), .sigchld, .read, .read, .waitpid 0, .waitpid 0,
    .post (.restart "app"), .doorbell, .task]

theorem outage_flag_down :
    neverStrands (patchyKernel fun _ => false) (start (patchyKernel fun _ => false) onceCfgs)
      (downThenRestart.take 6) = true ∧
    DownSince (patchyKernel fun _ => false) onceCfgs (downThenRestart.take 6) 0 :=
  ⟨by decide, (outage_flag (patchyKernel fun _ => false) onceCfgs (downThenRestart.take 6)
    (by decide) 0).2.2.2 (by decide)⟩

/-- The second `fork` fails: the service is in backoff, about to be restarted, and is listed as
    permanently down. -/
theorem listed_while_in_backoff :
    let s := run (patchyKernel (· == 1)) onceCfgs downThenRestart
    (s.services 0).isDown = true ∧ (s.services 0).state = .backoff ∧
      permanentlyDown s = [0] ∧
      ¬ ((s.services 0).isDown = true ↔
        (s.services 0).state = .quarantined ∨ (s.services 0).state = .failed) := by
  refine ⟨by decide, by decide, by decide, ?_⟩
  intro h
  have hstate := h.mp (by decide)
  revert hstate
  decide

end Sup

end CastlePlus
