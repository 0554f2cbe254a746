import Mathlib.Algebra.Order.Ring.Int
import Mathlib.Data.List.Basic

/-! # Cross-thread tasks of the event loop

    `EventLoop::post`, `run_pending_tasks`, `drain_wakeup` and the loop around
    them (`net/event_loop.cpp`), cut at every access to what the threads share:
    the queue under `task_mutex_` and the counter of the eventfd.

    A poster pushes under the lock and then writes the eventfd; the loop thread
    reads the eventfd until it is empty and then swaps the queue out.  Posters are
    any threads, and the loop thread itself while it runs callbacks and tasks. -/

namespace CastlePlus

/-- Where the loop thread stands in `run`. -/
inductive LoopPc where
  /-- the test of `running_` -/
  | check
  /-- about to wait in `epoll_wait` -/
  | waiting
  /-- in a batch of events; the doorbell's event is still to come in it, or not -/
  | events (bell : Bool)
  /-- `drain_wakeup` -/
  | drain
  /-- `run_pending_tasks`, before the swap -/
  | swap
  /-- `run_pending_tasks`, after the swap -/
  | run
  | left
  deriving DecidableEq, Repr

/-- The queue, the eventfd and the loop thread.  A poster is another thread
    (`some t`) or the loop thread (`none`); `writers` are those between their push
    and their write.  `pushed` and `ran` are the history. -/
structure TaskQueue (ι α : Type) where
  tasks : List α := []
  counter : Nat := 0
  running : Bool := true
  writers : List (Option ι) := []
  pc : LoopPc := .check
  batch : List α := []
  pushed : List α := []
  ran : List α := []

namespace TaskQueue

variable {ι α : Type} [DecidableEq ι]

/-- The largest value of an eventfd counter. -/
def kMaxCounter : Nat := 2 ^ 64 - 2

/-- A write of 1, which fails when the counter is at its maximum. -/
def ring (c : Nat) : Nat := if c < kMaxCounter then c + 1 else c

/-- The loop thread is in a callback or a task. -/
def inCallback (s : TaskQueue ι α) : Bool :=
  match s.pc with
  | .events _ => true
  | .run => true
  | _ => false

/-- The loop thread is not in the middle of a `post` of its own. -/
def loopFree (s : TaskQueue ι α) : Bool := !s.writers.contains none

/-- Thread `t` may start a `post`. -/
def mayPost (s : TaskQueue ι α) (t : Option ι) : Bool :=
  !s.writers.contains t && (t.isSome || s.inCallback)

inductive Step (ι α : Type) where
  /-- a poster pushes under the lock -/
  | push (t : Option ι) (a : α)
  /-- the poster writes the eventfd -/
  | write (t : Option ι)
  /-- `stop` clears `running_` -/
  | stop
  /-- `stop` writes the eventfd -/
  | stopRing
  /-- the loop thread tests `running_` -/
  | check
  /-- `epoll_wait` returns, with the doorbell's event or without -/
  | wake (bell : Bool)
  /-- the doorbell's event is handled -/
  | bell
  /-- one `read` of the eventfd -/
  | read
  /-- the queue is swapped out under the lock -/
  | swap
  /-- the next task runs -/
  | runTask
  /-- the tasks, or the events of the batch, are done -/
  | done

def step (s : TaskQueue ι α) : Step ι α → TaskQueue ι α
  | .push t a =>
      if s.mayPost t then
        { s with tasks := s.tasks ++ [a], pushed := s.pushed ++ [a], writers := t :: s.writers }
      else s
  | .write t =>
      if s.writers.contains t then
        { s with counter := ring s.counter, writers := s.writers.erase t }
      else s
  | .stop => { s with running := false }
  | .stopRing => { s with counter := ring s.counter }
  | .check =>
      if s.pc = .check then { s with pc := if s.running then .waiting else .left } else s
  | .wake bell =>
      -- the doorbell is level-triggered: it is reported only while the counter is not 0
      if s.pc = .waiting then { s with pc := .events (bell && s.counter != 0) } else s
  | .bell => if s.pc = .events true ∧ s.loopFree then { s with pc := .drain } else s
  | .read =>
      if s.pc = .drain then
        if s.counter = 0 then { s with pc := .swap } else { s with counter := 0 }
      else s
  | .swap => if s.pc = .swap then { s with pc := .run, batch := s.tasks, tasks := [] } else s
  | .runTask =>
      if s.pc = .run ∧ s.loopFree then
        match s.batch with
        | [] => s
        | a :: rest => { s with batch := rest, ran := s.ran ++ [a] }
      else s
  | .done =>
      if s.loopFree then
        if s.pc = .run ∧ s.batch.isEmpty then { s with pc := .events false }
        else if s.pc = .events false then { s with pc := .check }
        else s
      else s

def run (ls : List (Step ι α)) : TaskQueue ι α := ls.foldl step {}

/-! ## The invariant -/

structure Inv (s : TaskQueue ι α) : Prop where
  fifo : s.pushed = s.ran ++ s.batch ++ s.tasks
  batch : s.pc ≠ .run → s.batch = []
  /-- a task in the queue has a ring coming, or the loop is about to swap -/
  bell : s.tasks ≠ [] → s.counter ≠ 0 ∨ s.writers ≠ [] ∨ s.pc = .drain ∨ s.pc = .swap
  own : none ∈ s.writers → s.inCallback = true

theorem ring_ne_zero (c : Nat) : ring c ≠ 0 := by
  rw [ring]
  split
  · omega
  · rename_i h
    have : 0 < kMaxCounter := by decide
    omega

variable {s : TaskQueue ι α}

theorem Inv.push (h : Inv s) (t : Option ι) (a : α) : Inv (step s (.push t a)) := by
  rw [step]
  by_cases hmay : s.mayPost t = true
  · rw [if_pos hmay]
    refine ⟨?_, h.batch, fun _ => .inr (.inl (by simp)), fun hnone => ?_⟩
    · show s.pushed ++ [a] = s.ran ++ s.batch ++ (s.tasks ++ [a])
      rw [h.fifo, List.append_assoc, List.append_assoc]
    · rcases List.mem_cons.mp hnone with rfl | hnone
      · exact (Bool.and_eq_true_iff.mp hmay).2
      · exact h.own hnone
  · rw [if_neg hmay]
    exact h

theorem Inv.write (h : Inv s) (t : Option ι) : Inv (step s (.write t)) := by
  rw [step]
  by_cases hwriter : s.writers.contains t = true
  · rw [if_pos hwriter]
    exact ⟨h.fifo, h.batch, fun _ => .inl (ring_ne_zero _),
      fun hnone => h.own (List.mem_of_mem_erase hnone)⟩
  · rw [if_neg hwriter]
    exact h

theorem not_own (hfree : s.loopFree = true) : none ∉ s.writers := by
  rw [loopFree] at hfree
  simpa using hfree

omit [DecidableEq ι] in
theorem Inv.not_own_outside (h : Inv s) (hout : s.inCallback = false) : none ∉ s.writers :=
  fun hnone => absurd (hout.symm.trans (h.own hnone)) (by simp)

omit [DecidableEq ι] in
/-- Between the swap and the next doorbell a task in the queue has a ring coming. -/
theorem Inv.ringing (h : Inv s) (hdrain : s.pc ≠ .drain) (hswap : s.pc ≠ .swap)
    (hne : s.tasks ≠ []) : s.counter ≠ 0 ∨ s.writers ≠ [] := by
  rcases h.bell hne with hb | hb | hb | hb
  · exact .inl hb
  · exact .inr hb
  · exact absurd hb hdrain
  · exact absurd hb hswap

omit [DecidableEq ι] in
/-- Moves of the loop thread that leave the queue and the eventfd alone. -/
theorem Inv.move (h : Inv s) {pc : LoopPc} (hbatch : s.batch = []) (hdrain : s.pc ≠ .drain)
    (hswap : s.pc ≠ .swap) (hown : none ∈ s.writers → inCallback { s with pc } = true) :
    Inv { s with pc } := by
  refine ⟨h.fifo, fun _ => hbatch, fun hne => ?_, hown⟩
  rcases h.ringing hdrain hswap hne with hb | hb
  · exact .inl hb
  · exact .inr (.inl hb)

theorem Inv.read (h : Inv s) : Inv (step s .read) := by
  rw [step]
  by_cases hpc : s.pc = .drain
  · rw [if_pos hpc]
    have hbatch : s.batch = [] := h.batch (by rw [hpc]; simp)
    have hown : none ∉ s.writers := h.not_own_outside (by rw [inCallback, hpc])
    split
    · exact ⟨h.fifo, fun _ => hbatch, fun _ => .inr (.inr (.inr rfl)), fun hn => absurd hn hown⟩
    · exact ⟨h.fifo, fun _ => hbatch, fun _ => .inr (.inr (.inl hpc)), fun hn => absurd hn hown⟩
  · rw [if_neg hpc]
    exact h

theorem Inv.swap (h : Inv s) : Inv (step s .swap) := by
  rw [step]
  by_cases hpc : s.pc = .swap
  · rw [if_pos hpc]
    have hbatch : s.batch = [] := h.batch (by rw [hpc]; simp)
    refine ⟨?_, fun hne => absurd rfl hne, fun hne => absurd rfl hne, fun _ => rfl⟩
    show s.pushed = s.ran ++ s.tasks ++ []
    rw [h.fifo, hbatch, List.append_nil, List.append_nil]
  · rw [if_neg hpc]
    exact h

theorem Inv.runTask (h : Inv s) : Inv (step s .runTask) := by
  rw [step]
  by_cases hpc : s.pc = .run ∧ s.loopFree = true
  · rw [if_pos hpc]
    cases hb : s.batch with
    | nil => exact h
    | cons a rest =>
        refine ⟨?_, fun hne => absurd hpc.1 hne, h.bell, h.own⟩
        show s.pushed = s.ran ++ [a] ++ rest ++ s.tasks
        rw [h.fifo, hb, List.append_assoc s.ran [a] rest]
        rfl
  · rw [if_neg hpc]
    exact h

theorem Inv.done (h : Inv s) : Inv (step s .done) := by
  rw [step]
  by_cases hfree : s.loopFree = true
  · rw [if_pos hfree]
    have hown := not_own hfree
    split
    · rename_i hpc
      exact h.move (by simpa using hpc.2) (by rw [hpc.1]; simp) (by rw [hpc.1]; simp)
        fun hn => absurd hn hown
    · split
      · rename_i hpc
        exact h.move (h.batch (by rw [hpc]; simp)) (by rw [hpc]; simp) (by rw [hpc]; simp)
          fun hn => absurd hn hown
      · exact h
  · rw [if_neg hfree]
    exact h

theorem Inv.step (h : Inv s) (l : Step ι α) : Inv (step s l) := by
  cases l with
  | push t a => exact h.push t a
  | write t => exact h.write t
  | stop => exact ⟨h.fifo, h.batch, h.bell, h.own⟩
  | stopRing => exact ⟨h.fifo, h.batch, fun _ => .inl (ring_ne_zero _), h.own⟩
  | check =>
      rw [TaskQueue.step]
      by_cases hpc : s.pc = .check
      · rw [if_pos hpc]
        -- outside its callbacks the loop owes no ring of its own
        have hown : none ∉ s.writers := h.not_own_outside (by rw [inCallback, hpc])
        exact h.move (h.batch (by rw [hpc]; simp)) (by rw [hpc]; simp) (by rw [hpc]; simp)
          fun hn => absurd hn hown
      · rw [if_neg hpc]
        exact h
  | wake bell =>
      rw [TaskQueue.step]
      by_cases hpc : s.pc = .waiting
      · rw [if_pos hpc]
        exact h.move (h.batch (by rw [hpc]; simp)) (by rw [hpc]; simp) (by rw [hpc]; simp)
          fun _ => rfl
      · rw [if_neg hpc]
        exact h
  | bell =>
      rw [TaskQueue.step]
      by_cases hpc : s.pc = .events true ∧ s.loopFree = true
      · rw [if_pos hpc]
        exact h.move (h.batch (by rw [hpc.1]; simp)) (by rw [hpc.1]; simp) (by rw [hpc.1]; simp)
          fun hn => absurd hn (not_own hpc.2)
      · rw [if_neg hpc]
        exact h
  | read => exact h.read
  | swap => exact h.swap
  | runTask => exact h.runTask
  | done => exact h.done

theorem inv_run (ls : List (Step ι α)) : Inv (run ls) := by
  have hfold : ∀ (ls : List (Step ι α)) (s : TaskQueue ι α), Inv s → Inv (ls.foldl step s) := by
    intro ls
    induction ls with
    | nil => intro s hs; exact hs
    | cons l ls ih => intro s hs; exact ih _ (hs.step l)
  exact hfold ls {} ⟨rfl, fun _ => rfl, fun hne => absurd rfl hne, fun hn => (by cases hn)⟩

/-- For every interleaving of posters and the loop thread: what has been pushed
    is what has run, followed by what is swapped out and by what is in the queue,
    so tasks run in the order they were pushed and none runs twice or is lost; and
    when the loop is about to wait with tasks in the queue, the eventfd is readable
    or some other thread is between its push and its write. -/
theorem tasks_once_in_order (ls : List (Step ι α)) :
    let s := run ls
    s.pushed = s.ran ++ s.batch ++ s.tasks ∧ s.ran <+: s.pushed ∧
    (s.pc = .waiting → s.tasks ≠ [] → s.counter ≠ 0 ∨ ∃ t, some t ∈ s.writers) := by
  intro s
  have h : Inv s := inv_run ls
  refine ⟨h.fifo, ⟨s.batch ++ s.tasks, by rw [h.fifo, List.append_assoc]⟩, fun hpc hne => ?_⟩
  rcases h.ringing (by rw [hpc]; simp) (by rw [hpc]; simp) hne with hb | hb
  · exact .inl hb
  · right
    obtain ⟨w, hw⟩ := List.exists_mem_of_ne_nil _ hb
    cases w with
    | some t => exact ⟨t, hw⟩
    | none =>
        exact absurd hw (h.not_own_outside (by rw [inCallback, hpc]))

end TaskQueue

end CastlePlus
