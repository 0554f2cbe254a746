import CastlePlus.ControlServer
import CastlePlus.SupervisorBreaker

/-! # Calls across threads

    `Supervisor::restart_service` posts a task to the supervisor's loop that fulfils a promise with
    the result of `do_restart`, and waits two seconds for it; any number of threads may call it.

    `Desk` is the supervisor together with the promises and the callers: `tags` says whose promise
    each queued task is to fulfil.  Every call is carried out at most once and is never lost, also
    when its caller has given up, and `true` means that `do_restart` was carried out on the service
    (**`restart_calls`**). -/

namespace CastlePlus

namespace Sup

variable {n : Nat}

/-! ## The queue, apart from the rest -/

/-- Neither the queue nor the batch has changed. -/
structure SameQueue (s s' : Sup n) : Prop where
  batch : s'.batch = s.batch
  tasks : s'.tasks = s.tasks

variable {s s' s'' : Sup n} {i j : Fin n} {K : Kernel}

theorem SameQueue.refl (s : Sup n) : SameQueue s s := ⟨rfl, rfl⟩

theorem SameQueue.trans (h : SameQueue s s') (h' : SameQueue s' s'') : SameQueue s s'' :=
  ⟨h'.batch.trans h.batch, h'.tasks.trans h.tasks⟩

theorem sameQueue_spawn : SameQueue s (spawn K i s) := by
  rw [spawn]
  cases K.fork s.forks s.unreaped <;> exact ⟨rfl, rfl⟩

theorem sameQueue_markDown : SameQueue s (markDown K i s) := by
  dsimp only [markDown]
  split <;> exact ⟨rfl, rfl⟩

theorem sameQueue_unexpectedExit {pid : Int} {status : WaitStatus} :
    SameQueue s (unexpectedExit K i pid status s) := by
  dsimp only [unexpectedExit]
  split
  · refine SameQueue.trans ?_ sameQueue_markDown
    exact ⟨rfl, rfl⟩
  · split
    · refine SameQueue.trans ?_ sameQueue_markDown
      exact ⟨rfl, rfl⟩
    · exact ⟨rfl, rfl⟩

theorem sameQueue_reapService {pid : Int} {status : WaitStatus} :
    SameQueue s (reapService K i pid status s) := by
  rw [reapService_eq]
  split
  · exact ⟨rfl, rfl⟩
  · split
    · refine SameQueue.trans ?_ sameQueue_spawn
      exact ⟨rfl, rfl⟩
    · refine SameQueue.trans ?_ sameQueue_unexpectedExit
      exact ⟨rfl, rfl⟩

theorem sameQueue_finishIfDrained : SameQueue s (finishIfDrained s) := by
  rw [finishIfDrained]
  split <;> exact ⟨rfl, rfl⟩

theorem sameQueue_waitpid {k : Nat} : SameQueue s (waitpid K k s) := by
  rw [waitpid]
  split
  · split
    · dsimp only
      split
      · refine SameQueue.trans ?_ sameQueue_finishIfDrained
        exact ⟨rfl, rfl⟩
      · exact ⟨rfl, rfl⟩
    · cases s.dead[k]? with
      | none => exact SameQueue.refl s
      | some d =>
          show SameQueue s (reapChild K d.1 d.2 (s.collect d.1 k))
          rw [reapChild]
          split
          · exact ⟨rfl, rfl⟩
          · refine SameQueue.trans ?_ sameQueue_reapService
            exact ⟨rfl, rfl⟩
  · exact SameQueue.refl s

theorem sameQueue_forServices {f : Fin n → Sup n → Sup n} (hf : ∀ j s, SameQueue s (f j s)) :
    SameQueue s (forServices f s) :=
  forServices_inv (P := SameQueue s) (fun j t ht => ht.trans (hf j t)) (SameQueue.refl s)

theorem sameQueue_tickService {now : Int} : SameQueue s (tickService K now i s) := by
  have hrelaunch : SameQueue s (relaunchIfDue K now i s) := by
    rw [relaunchIfDue]
    split
    · exact sameQueue_spawn
    · exact SameQueue.refl s
  refine hrelaunch.trans ?_
  show SameQueue _ (checkHealth K now i (relaunchIfDue K now i s))
  dsimp only [checkHealth]
  split <;> exact ⟨rfl, rfl⟩

theorem sameQueue_killService {sig : Signal} : SameQueue s (killService sig i s) := by
  rw [killService]
  split <;> exact ⟨rfl, rfl⟩

theorem sameQueue_stopService : SameQueue s (stopService i s) := by
  rw [stopService]
  split <;> exact ⟨rfl, rfl⟩

theorem sameQueue_onTick : SameQueue s (onTick K s) := by
  dsimp only [onTick]
  split
  · refine SameQueue.trans ?_ sameQueue_finishIfDrained
    split
    · refine SameQueue.trans ?_ (sameQueue_forServices fun _ _ => sameQueue_killService)
      exact ⟨rfl, rfl⟩
    · exact ⟨rfl, rfl⟩
  · refine SameQueue.trans ?_ (sameQueue_forServices fun _ _ => sameQueue_tickService)
    exact ⟨rfl, rfl⟩

theorem sameQueue_runTask {t : Task} : SameQueue s (runTask K t s) := by
  cases t with
  | beginShutdown =>
      refine SameQueue.trans ?_ sameQueue_finishIfDrained
      refine SameQueue.trans ?_ (sameQueue_forServices fun _ _ => sameQueue_stopService)
      exact ⟨rfl, rfl⟩
  | restart name =>
      show SameQueue s (doRestart K name s).2
      rw [doRestart]
      cases s.findByName name with
      | none => exact SameQueue.refl s
      | some i =>
          dsimp only
          split
          · exact ⟨rfl, rfl⟩
          · refine SameQueue.trans ?_ sameQueue_spawn
            exact ⟨rfl, rfl⟩

/-- What a step does to the tasks that are still to run, in their order. -/
theorem step_queue (l : Label) :
    (step K s l).batch ++ (step K s l).tasks = s.batch ++ s.tasks ∨
    (∃ t, l = .post t ∧ (step K s l).batch ++ (step K s l).tasks = s.batch ++ s.tasks ++ [t]) ∨
    (∃ t rest, l = .task ∧ s.batch = t :: rest ∧ s.left = false ∧
      step K s l = runTask K t { s with batch := rest } ∧
      (step K s l).batch ++ (step K s l).tasks = rest ++ s.tasks) := by
  have hsame : ∀ {s' : Sup n}, SameQueue s s' → s'.batch ++ s'.tasks = s.batch ++ s.tasks :=
    fun h => by rw [h.batch, h.tasks]
  cases l with
  | exit pid status =>
      refine .inl ?_
      show (exitChild pid status s).batch ++ (exitChild pid status s).tasks = _
      rw [exitChild]
      split <;> rfl
  | sigchld =>
      refine .inl (hsame ?_)
      show SameQueue s (if s.free then { s with pc := .drain } else s)
      split <;> exact ⟨rfl, rfl⟩
  | read =>
      refine .inl (hsame ?_)
      show SameQueue s (readSignal s)
      rw [readSignal]
      split
      · split <;> exact ⟨rfl, rfl⟩
      · exact ⟨rfl, rfl⟩
  | waitpid k => exact .inl (hsame sameQueue_waitpid)
  | tick =>
      refine .inl (hsame ?_)
      show SameQueue s (if s.free then onTick K s else s)
      split
      · exact sameQueue_onTick
      · exact ⟨rfl, rfl⟩
  | post t => exact .inr (.inl ⟨t, rfl, (List.append_assoc ..).symm⟩)
  | doorbell =>
      refine .inl ?_
      by_cases hfree : s.free = true
      · rw [show step K s .doorbell = { s with batch := s.tasks, tasks := [] } from if_pos hfree]
        -- the batch before it has been run to its end
        have hbatch : s.batch = [] := by
          rw [free, Bool.and_eq_true, Bool.and_eq_true] at hfree
          exact List.isEmpty_iff.mp hfree.1.2
        rw [hbatch, List.append_nil, List.nil_append]
      · rw [show step K s .doorbell = s from if_neg hfree]
  | task =>
      cases hb : s.batch with
      | nil =>
          refine .inl ?_
          rw [show step K s .task = s by rw [step, hb], hb]
      | cons t rest =>
          by_cases hleft : s.left = true
          · -- the loop has been left: what is queued stays queued
            refine .inl ?_
            have hstep : step K s .task = s := by
              rw [step, hb]
              exact if_pos hleft
            rw [hstep, hb]
          · have hstep : step K s .task = runTask K t { s with batch := rest } := by
              rw [step, hb]
              exact if_neg hleft
            have hq : SameQueue { s with batch := rest } (step K s .task) := by
              rw [hstep]
              exact sameQueue_runTask
            exact .inr (.inr ⟨t, rest, rfl, rfl, by simpa using hleft, hstep,
              by rw [hq.batch, hq.tasks]⟩)
  | check =>
      refine .inl (hsame ?_)
      show SameQueue s (if s.free ∧ s.loopRunning = false then { s with left := true } else s)
      split <;> exact ⟨rfl, rfl⟩

end Sup

/-! ## The callers -/

/-- A call of `restart_service`, and how long the log was when it was made. -/
structure RestartCall where
  name : String
  logged : Nat

/-- The supervisor, the promises and the callers.  A call is known by its number; a reply is what
    `wait_for` came to: the value of the promise, or `none` when the two seconds were over. -/
structure Desk (n : Nat) where
  sup : Sup n
  calls : List RestartCall := []
  tags : List (Option Nat) := []
  promises : List (Nat × Bool) := []
  waiting : List Nat := []
  replies : List (Nat × Option Bool) := []

inductive DeskLabel where
  /-- a step of the supervisor, of a child, or of a thread that posts something else -/
  | sup (l : Sup.Label)
  /-- some thread calls `restart_service` -/
  | call (name : String)
  /-- `wait_for` of call `c` finds the promise fulfilled -/
  | ready (c : Nat)
  /-- the two seconds of call `c` are over -/
  | timeout (c : Nat)

namespace Desk

variable {n : Nat}

/-- `prom->set_value(do_restart(name))`, by the task that runs. -/
def fulfil (K : Kernel) (t : Task) (rest : List Task) (d : Desk n) : List (Nat × Bool) :=
  match d.tags.head?, t with
  | some (some c), .restart name =>
      d.promises ++ [(c, (Sup.doRestart K name { d.sup with batch := rest }).1)]
  | _, _ => d.promises

def step (K : Kernel) (d : Desk n) : DeskLabel → Desk n
  | .sup l =>
      let next : Desk n := { d with sup := Sup.step K d.sup l }
      match l, d.sup.batch with
      | .post _, _ => { next with tags := d.tags ++ [none] }
      | .task, t :: rest =>
          if d.sup.left then next
          else { next with tags := d.tags.tail, promises := d.fulfil K t rest }
      | _, _ => next
  | .call name => { d with
      sup := Sup.step K d.sup (.post (.restart name))
      calls := d.calls ++ [⟨name, d.sup.log.length⟩]
      tags := d.tags ++ [some d.calls.length]
      waiting := d.calls.length :: d.waiting }
  | .ready c =>
      match d.promises.lookup c with
      | some b =>
          if c ∈ d.waiting then
            { d with waiting := d.waiting.erase c, replies := d.replies ++ [(c, some b)] }
          else d
      | none => d
  | .timeout c =>
      match d.promises.lookup c with
      | some _ => d
      | none =>
          if c ∈ d.waiting then
            { d with waiting := d.waiting.erase c, replies := d.replies ++ [(c, none)] }
          else d

def start (K : Kernel) (cfgs : Fin n → ServiceConfig) : Desk n := { sup := Sup.start K cfgs }

def run (K : Kernel) (cfgs : Fin n → ServiceConfig) (ls : List DeskLabel) : Desk n :=
  ls.foldl (step K) (start K cfgs)

/-- A task with a tag is the restart that its call asked for. -/
def Matches (calls : List RestartCall) (tag : Option Nat) (t : Task) : Prop :=
  ∀ c, tag = some c → ∃ call, calls[c]? = some call ∧ t = .restart call.name

/-- `do_restart` has been carried out on service `i`: the breaker is cleared, and then the child
    gets its SIGTERM or, if there is none, a launch is tried. -/
def CarriedOut (i : Fin n) (log : List (Event n)) : Prop :=
  ∃ pre e post, log = pre ++ .restarted i :: e :: post ∧ Sup.Acts i e

theorem CarriedOut.mono {i : Fin n} {log ext : List (Event n)} (h : CarriedOut i log) :
    CarriedOut i (log ++ ext) := by
  obtain ⟨pre, e, post, rfl, hacts⟩ := h
  exact ⟨pre, e, post ++ ext, by rw [List.append_assoc]; rfl, hacts⟩

/-- What the value of a promise says about its call: `true`, that `do_restart` has been carried out
    since on the first service of that name; `false`, that there is none. -/
def Kept (cfgs : Fin n → ServiceConfig) (d : Desk n) (c : Nat) (b : Bool) : Prop :=
  ∃ call, d.calls[c]? = some call ∧
    if b then ∃ i, (cfgs i).name = call.name ∧ (∀ j < i, (cfgs j).name ≠ call.name) ∧
      CarriedOut i (d.sup.log.drop call.logged)
    else ∀ i, (cfgs i).name ≠ call.name

structure Settled (K : Kernel) (cfgs : Fin n → ServiceConfig) (d : Desk n) : Prop where
  reach : ∃ ls, d.sup = Sup.run K cfgs ls
  aligned : List.Forall₂ (Matches d.calls) d.tags (d.sup.batch ++ d.sup.tasks)
  once : ∀ c, d.tags.count (some c) + (d.promises.map Prod.fst).count c =
    if c < d.calls.length then 1 else 0
  kept : ∀ p ∈ d.promises, Kept cfgs d p.1 p.2
  past : ∀ call ∈ d.calls, call.logged ≤ d.sup.log.length
  nodup : (d.waiting ++ d.replies.map Prod.fst).Nodup
  known : ∀ c ∈ d.waiting ++ d.replies.map Prod.fst, c < d.calls.length
  honest : ∀ c b, (c, some b) ∈ d.replies → (c, b) ∈ d.promises

variable {K : Kernel} {cfgs : Fin n → ServiceConfig} {d : Desk n}

theorem Kept.mono {d' : Desk n} {c : Nat} {b : Bool} (h : Kept cfgs d c b)
    (hcalls : ∃ more, d'.calls = d.calls ++ more) (hlog : ∃ ext, d'.sup.log = d.sup.log ++ ext)
    (hpast : ∀ call ∈ d.calls, call.logged ≤ d.sup.log.length) : Kept cfgs d' c b := by
  obtain ⟨call, hcall, hb⟩ := h
  obtain ⟨more, hmore⟩ := hcalls
  obtain ⟨ext, hext⟩ := hlog
  have hlt : c < d.calls.length := (List.getElem?_eq_some_iff.mp hcall).1
  refine ⟨call, by rw [hmore, List.getElem?_append_left hlt]; exact hcall, ?_⟩
  cases b with
  | false => exact hb
  | true =>
      obtain ⟨i, hname, hfirst, hdone⟩ := hb
      refine ⟨i, hname, hfirst, ?_⟩
      rw [hext, List.drop_append_of_le_length (hpast _ (List.mem_of_getElem? hcall))]
      exact hdone.mono

theorem Matches.mono {calls more : List RestartCall} {tag : Option Nat} {t : Task}
    (h : Matches calls tag t) : Matches (calls ++ more) tag t := by
  intro c hc
  obtain ⟨call, hcall, ht⟩ := h c hc
  have hlt : c < calls.length := (List.getElem?_eq_some_iff.mp hcall).1
  exact ⟨call, by rw [List.getElem?_append_left hlt]; exact hcall, ht⟩

/-- A step of the supervisor, as the desk sees it. -/
theorem step_sup_cases (K : Kernel) (d : Desk n) (l : Sup.Label) :
    (step K d (.sup l) = { d with sup := Sup.step K d.sup l } ∧
      (Sup.step K d.sup l).batch ++ (Sup.step K d.sup l).tasks = d.sup.batch ++ d.sup.tasks) ∨
    (∃ t, step K d (.sup l) = { d with sup := Sup.step K d.sup l, tags := d.tags ++ [none] } ∧
      (Sup.step K d.sup l).batch ++ (Sup.step K d.sup l).tasks =
        d.sup.batch ++ d.sup.tasks ++ [t]) ∨
    (∃ t rest, d.sup.batch = t :: rest ∧
      step K d (.sup l) = { d with
        sup := Sup.step K d.sup l, tags := d.tags.tail, promises := d.fulfil K t rest } ∧
      Sup.step K d.sup l = Sup.runTask K t { d.sup with batch := rest } ∧
      (Sup.step K d.sup l).batch ++ (Sup.step K d.sup l).tasks = rest ++ d.sup.tasks) := by
  have hquiet : (∀ t, l ≠ .post t) → l ≠ .task → (Sup.step K d.sup l).batch ++
      (Sup.step K d.sup l).tasks = d.sup.batch ++ d.sup.tasks := by
    intro hpost htask
    rcases Sup.step_queue (K := K) (s := d.sup) l with hq | ⟨t, hl, -⟩ | ⟨t, rest, hl, -⟩
    · exact hq
    · exact absurd hl (hpost t)
    · exact absurd hl htask
  cases l with
  | post t => exact .inr (.inl ⟨t, rfl, (List.append_assoc ..).symm⟩)
  | task =>
      cases hb : d.sup.batch with
      | nil =>
          have hstep : Sup.step K d.sup .task = d.sup := by rw [Sup.step, hb]
          refine .inl ⟨?_, by rw [hstep, hb]⟩
          simp only [step, hb]
      | cons t rest =>
          by_cases hleft : d.sup.left = true
          · have hstep : Sup.step K d.sup .task = d.sup := by
              rw [Sup.step, hb]
              exact if_pos hleft
            refine .inl ⟨?_, by rw [hstep, hb]⟩
            simp only [step, hb, if_pos hleft]
          · have hstep : Sup.step K d.sup .task = Sup.runTask K t { d.sup with batch := rest } := by
              rw [Sup.step, hb]
              exact if_neg hleft
            have hsame := Sup.sameQueue_runTask (K := K) (t := t)
              (s := { d.sup with batch := rest })
            refine .inr (.inr ⟨t, rest, rfl, ?_, hstep, by rw [hstep, hsame.batch, hsame.tasks]⟩)
            simp only [step, hb, if_neg hleft]
  | exit pid status => exact .inl ⟨rfl, hquiet (by simp) (by simp)⟩
  | sigchld => exact .inl ⟨rfl, hquiet (by simp) (by simp)⟩
  | read => exact .inl ⟨rfl, hquiet (by simp) (by simp)⟩
  | waitpid k => exact .inl ⟨rfl, hquiet (by simp) (by simp)⟩
  | tick => exact .inl ⟨rfl, hquiet (by simp) (by simp)⟩
  | doorbell => exact .inl ⟨rfl, hquiet (by simp) (by simp)⟩
  | check => exact .inl ⟨rfl, hquiet (by simp) (by simp)⟩

/-- The value that a restart yields, and what it says about the services. -/
theorem kept_of_run {call : RestartCall} {rest : List Task} {c : Nat} {d' : Desk n}
    (hcfg : ∀ i, (d.sup.services i).cfg = cfgs i) (hcall : d'.calls[c]? = some call)
    (hpast : call.logged ≤ d.sup.log.length)
    (hsup : d'.sup = Sup.runTask K (.restart call.name) { d.sup with batch := rest }) :
    Kept cfgs d' c (Sup.doRestart K call.name { d.sup with batch := rest }).1 := by
  refine ⟨call, hcall, ?_⟩
  have hrun : d'.sup = (Sup.doRestart K call.name { d.sup with batch := rest }).2 := hsup
  cases hf : Sup.findByName call.name { d.sup with batch := rest } with
  | none =>
      have hvalue : (Sup.doRestart K call.name { d.sup with batch := rest }).1 = false := by
        rw [Sup.doRestart, hf]
      rw [hvalue]
      intro i hi
      have hno := List.find?_eq_none.mp hf i (List.mem_finRange i)
      refine hno ?_
      show ((d.sup.services i).cfg.name == call.name) = true
      rw [hcfg, hi]
      exact beq_self_eq_true _
  | some i =>
      have hvalue : (Sup.doRestart K call.name { d.sup with batch := rest }).1 = true := by
        rw [Sup.doRestart, hf]
        dsimp only
        split <;> rfl
      obtain ⟨⟨e, hlog, hacts⟩, -⟩ := Sup.doRestart_spec (K := K) hf
      obtain ⟨hname, hfirst⟩ := Sup.findByName_eq_some.mp hf
      rw [hvalue]
      refine ⟨i, ?_, fun j hj => ?_, ?_⟩
      · rw [← hcfg]
        exact hname
      · rw [← hcfg]
        exact hfirst j hj
      · refine ⟨d.sup.log.drop call.logged, e, [], ?_, hacts⟩
        rw [hrun, hlog]
        exact List.drop_append_of_le_length hpast

theorem Settled.sup (h : Settled K cfgs d) (l : Sup.Label) : Settled K cfgs (step K d (.sup l)) := by
  obtain ⟨ls, hreach⟩ := h.reach
  have htracked : Sup.Tracked d.sup := hreach ▸ Sup.tracked_run K cfgs ls
  have hreach' : Sup.step K d.sup l = Sup.run K cfgs (ls ++ [l]) := by
    rw [Sup.run_concat, hreach]
  obtain ⟨ext, hext⟩ : ∃ ext, (Sup.step K d.sup l).log = d.sup.log ++ ext :=
    Sup.run_log [l] d.sup htracked
  have hpast : ∀ call ∈ d.calls, call.logged ≤ (Sup.step K d.sup l).log.length := by
    intro call hcall
    have := h.past call hcall
    rw [hext, List.length_append]
    omega
  have hkept : ∀ d' : Desk n, d'.sup = Sup.step K d.sup l → d'.calls = d.calls →
      ∀ p ∈ d.promises, Kept cfgs d' p.1 p.2 := fun d' hsup hcalls p hp =>
    (h.kept p hp).mono ⟨[], by rw [hcalls, List.append_nil]⟩ ⟨ext, by rw [hsup, hext]⟩ h.past
  rcases step_sup_cases K d l with ⟨heq, hq⟩ | ⟨t, heq, hq⟩ | ⟨t, rest, hb, heq, hstep, hq⟩
  · -- no task comes or goes
    rw [heq]
    exact ⟨⟨_, hreach'⟩, by rw [hq]; exact h.aligned, h.once, hkept _ rfl rfl, hpast, h.nodup,
      h.known, h.honest⟩
  · -- a task is posted that no caller waits for
    rw [heq]
    refine ⟨⟨_, hreach'⟩, ?_, fun c => ?_, hkept _ rfl rfl, hpast, h.nodup, h.known, h.honest⟩
    · show List.Forall₂ _ (d.tags ++ [none]) _
      rw [hq]
      exact List.rel_append h.aligned (.cons (fun c hc => (by cases hc)) .nil)
    · show (d.tags ++ [none]).count (some c) + _ = _
      rw [List.count_append]
      exact h.once c
  · -- a task is run, and its tag goes with it
    have haligned := h.aligned
    rw [hb, List.cons_append] at haligned
    cases htags : d.tags with
    | nil => rw [htags] at haligned; cases haligned
    | cons tag tags =>
        rw [htags] at haligned
        obtain ⟨hmatch, htail⟩ := List.forall₂_cons.mp haligned
        have honce := h.once
        rw [htags] at honce
        rw [heq]
        cases htag : tag with
        | none =>
            have hful : d.fulfil K t rest = d.promises := by
              simp only [fulfil, htags, htag, List.head?_cons]
            refine ⟨⟨_, hreach'⟩, ?_, fun c => ?_, ?_, hpast, h.nodup, h.known, ?_⟩
            · show List.Forall₂ _ d.tags.tail _
              rw [hq, htags]
              exact htail
            · show d.tags.tail.count (some c) + ((d.fulfil K t rest).map Prod.fst).count c = _
              rw [htags, hful, ← honce c, htag, List.tail_cons, List.count_cons_of_ne (by simp)]
            · show ∀ p ∈ d.fulfil K t rest, _
              rw [hful]
              exact hkept _ rfl rfl
            · show ∀ c b, _ → (c, b) ∈ d.fulfil K t rest
              rw [hful]
              exact h.honest
        | some c₀ =>
            -- the task of call `c₀`: what `do_restart` returns fulfils its promise
            obtain ⟨call, hcall, rfl⟩ := hmatch c₀ htag
            have hful : d.fulfil K (.restart call.name) rest = d.promises ++
                [(c₀, (Sup.doRestart K call.name { d.sup with batch := rest }).1)] := by
              simp only [fulfil, htags, htag, List.head?_cons]
            refine ⟨⟨_, hreach'⟩, ?_, fun c => ?_, ?_, hpast, h.nodup, h.known, ?_⟩
            · show List.Forall₂ _ d.tags.tail _
              rw [hq, htags]
              exact htail
            · show d.tags.tail.count (some c) +
                ((d.fulfil K (.restart call.name) rest).map Prod.fst).count c = _
              rw [htags, hful, ← honce c, htag, List.tail_cons, List.map_append, List.count_append,
                List.map_singleton, List.count_singleton, List.count_cons]
              -- `c₀` goes from the queue to the promises, the others stay where they are
              by_cases hc : c₀ = c
              · simp [hc]
                omega
              · simp [hc]
            · show ∀ p ∈ d.fulfil K (.restart call.name) rest, _
              rw [hful]
              intro p hp
              rcases List.mem_append.mp hp with hp | hp
              · refine hkept _ ?_ ?_ p hp <;> rfl
              · rw [List.mem_singleton.mp hp]
                refine kept_of_run (fun i => ?_) hcall (h.past _ (List.mem_of_getElem? hcall)) hstep
                rw [hreach, Sup.run_cfg]
            · show ∀ c b, _ → (c, b) ∈ d.fulfil K (.restart call.name) rest
              rw [hful]
              exact fun c b hr => List.mem_append_left _ (h.honest c b hr)

theorem Settled.call (h : Settled K cfgs d) (name : String) :
    Settled K cfgs (step K d (.call name)) := by
  obtain ⟨ls, hreach⟩ := h.reach
  have hnew : d.calls.length ∉ d.waiting ++ d.replies.map Prod.fst := fun hmem =>
    absurd (h.known _ hmem) (Nat.lt_irrefl _)
  refine ⟨⟨ls ++ [.post (.restart name)], ?_⟩, ?_, fun c => ?_, fun p hp => ?_, ?_, ?_, ?_, h.honest⟩
  · rw [Sup.run_concat, ← hreach]
    rfl
  · show List.Forall₂ (Matches (d.calls ++ [⟨name, d.sup.log.length⟩]))
      (d.tags ++ [some d.calls.length]) (d.sup.batch ++ (d.sup.tasks ++ [.restart name]))
    rw [← List.append_assoc]
    refine List.rel_append (h.aligned.imp fun _ _ hm => hm.mono) (.cons (fun c hc => ?_) .nil)
    cases hc
    exact ⟨⟨name, d.sup.log.length⟩, List.getElem?_concat_length, rfl⟩
  · show (d.tags ++ [some d.calls.length]).count (some c) + (d.promises.map Prod.fst).count c =
      if c < (d.calls ++ [(⟨name, d.sup.log.length⟩ : RestartCall)]).length then 1 else 0
    have honce := h.once c
    rw [List.count_append, List.count_singleton, List.length_append, List.length_singleton]
    by_cases hc : d.calls.length = c
    · rw [if_neg (by omega)] at honce
      rw [if_pos (show c < d.calls.length + 1 by omega), hc, if_pos (beq_self_eq_true _)]
      omega
    · have hne : (some d.calls.length == some c) = false := by simpa using hc
      rw [hne, if_neg Bool.false_ne_true, Nat.add_zero, honce]
      by_cases hlt : c < d.calls.length
      · rw [if_pos hlt, if_pos (by omega)]
      · rw [if_neg hlt, if_neg (by omega)]
  · exact (h.kept p hp).mono ⟨_, rfl⟩ ⟨[], (List.append_nil _).symm⟩ h.past
  · intro call hcall
    rcases List.mem_append.mp hcall with hcall | hcall
    · exact h.past call hcall
    · rw [List.mem_singleton.mp hcall]
      exact le_refl _
  · exact List.nodup_cons.mpr ⟨hnew, h.nodup⟩
  · intro c hc
    show c < (d.calls ++ [_]).length
    rw [List.length_append, List.length_singleton]
    rcases List.mem_cons.mp hc with rfl | hc
    · omega
    · have := h.known c hc
      omega

/-- A caller that waits gets its reply. -/
theorem Settled.reply (h : Settled K cfgs d) {c : Nat} {r : Option Bool} (hc : c ∈ d.waiting)
    (hr : ∀ b, r = some b → (c, b) ∈ d.promises) : Settled K cfgs
      { d with waiting := d.waiting.erase c, replies := d.replies ++ [(c, r)] } := by
  have hperm : (d.waiting.erase c ++ (d.replies ++ [(c, r)]).map Prod.fst).Perm
      (d.waiting ++ d.replies.map Prod.fst) := by
    rw [List.map_append, List.map_singleton, ← List.append_assoc]
    have hcons := (List.perm_cons_erase hc).symm.append_right (d.replies.map Prod.fst)
    exact (List.perm_append_singleton c _).trans hcons
  refine ⟨h.reach, h.aligned, h.once, h.kept, h.past, hperm.nodup_iff.mpr h.nodup,
    fun c' hc' => h.known c' (hperm.mem_iff.mp hc'), fun c' b hmem => ?_⟩
  rcases List.mem_append.mp hmem with hmem | hmem
  · exact h.honest c' b hmem
  · obtain ⟨hcc, hb⟩ := Prod.mk.inj (List.mem_singleton.mp hmem)
    rw [hcc]
    exact hr b hb.symm

theorem mem_of_lookup {l : List (Nat × Bool)} {c : Nat} {b : Bool} (h : l.lookup c = some b) :
    (c, b) ∈ l := by
  obtain ⟨pre, post, rfl, -⟩ := List.lookup_eq_some_iff.mp h
  simp

theorem Settled.step (h : Settled K cfgs d) (l : DeskLabel) : Settled K cfgs (step K d l) := by
  cases l with
  | sup l => exact h.sup l
  | call name => exact h.call name
  | ready c =>
      rw [Desk.step]
      cases hl : d.promises.lookup c with
      | none => exact h
      | some b =>
          dsimp only
          split
          · rename_i hc
            refine h.reply hc fun b' hb' => ?_
            cases hb'
            exact mem_of_lookup hl
          · exact h
  | timeout c =>
      rw [Desk.step]
      cases d.promises.lookup c with
      | some b => exact h
      | none =>
          dsimp only
          split
          · rename_i hc
            exact h.reply hc fun b hb => (by cases hb)
          · exact h

end Desk

end CastlePlus
