import Mathlib.Logic.Function.Basic

/-! # The reactor

    `EventLoop` (`net/event_loop.cpp`) with the handlers it owns and the file
    descriptors of the process.

    * A handler object is known by a number, the address that epoll hands back as
      `data.ptr`; `live` says whether it still exists.
    * `FdUse` says who holds a descriptor.  The kernel hands out a descriptor only
      when it is closed.
    * What callbacks, posted tasks and the idle sweep may do to the loop is any
      sequence of `Op`s.  A handler is registered under a descriptor that the
      callback has just created and holds.

    `Inv` ties the keys of `handlers_` to open descriptors, each held by the
    handler registered under it, so that a descriptor cannot be reused inside a
    batch. -/

namespace CastlePlus

inductive FdUse where
  | closed
  /-- a thread other than the loop's -/
  | foreign
  /-- created by the callback that is running, not registered -/
  | held
  /-- a live handler object -/
  | owned (obj : Nat)
  deriving DecidableEq, Repr

structure EventLoop where
  handlers : Nat → Option Nat := fun _ => none
  live : Nat → Bool := fun _ => false
  fds : Nat → FdUse := fun _ => .closed
  next : Nat := 0
  pendingClose : List Nat := []
  /-- between `epoll_wait` and `process_pending_close` -/
  inBatch : Bool := false
  /-- the `data.ptr`s still to be dispatched; `none` is the doorbell -/
  todo : List (Option Nat) := []
  /-- `add` has replaced an entry of `handlers_` -/
  replaced : Bool := false
  /-- a `data.ptr` to a destroyed handler was dispatched -/
  dangling : Bool := false

namespace EventLoop

inductive Op where
  /-- `accept4`, `socket`, `timerfd_create`, ... return `fd` -/
  | create (fd : Nat)
  /-- `close` of a descriptor the callback holds -/
  | close (fd : Nat)
  /-- `add` of a new handler for `fd`; `epoll_ctl` succeeds or fails -/
  | add (fd : Nat) (ok : Bool)
  | update (fd : Nat)
  | requestClose (fd : Nat)
  deriving DecidableEq, Repr

/-- `handlers_.erase(fd)`: the handler is destroyed and closes its descriptor. -/
def erase (s : EventLoop) (fd : Nat) : EventLoop :=
  match s.handlers fd with
  | none => s
  | some obj =>
      { s with
        handlers := Function.update s.handlers fd none
        live := Function.update s.live obj false
        fds := Function.update s.fds fd .closed }

/-- `add`: when `epoll_ctl` fails the handler is dropped and closes `fd`; else
    `handlers_[fd] = handler`, which destroys what was there. -/
def add (s : EventLoop) (fd : Nat) (ok : Bool) : EventLoop :=
  if ok then
    let t := s.erase fd
    { t with
      handlers := Function.update t.handlers fd (some s.next)
      live := Function.update t.live s.next true
      fds := Function.update t.fds fd (.owned s.next)
      next := s.next + 1
      replaced := s.replaced || (s.handlers fd).isSome }
  else { s with fds := Function.update s.fds fd .closed, next := s.next + 1 }

/-- `update` changes what epoll watches, and nothing here. -/
def update (s : EventLoop) (_fd : Nat) : EventLoop := s

def requestClose (s : EventLoop) (fd : Nat) : EventLoop :=
  { s with pendingClose := if fd ∈ s.pendingClose then s.pendingClose else fd :: s.pendingClose }

def op (s : EventLoop) : Op → EventLoop
  | .create fd => if s.fds fd = .closed then { s with fds := Function.update s.fds fd .held } else s
  | .close fd => if s.fds fd = .held then { s with fds := Function.update s.fds fd .closed } else s
  | .add fd ok => if s.fds fd = .held then s.add fd ok else s
  | .update fd => s.update fd
  | .requestClose fd => s.requestClose fd

def processPendingClose (s : EventLoop) : EventLoop :=
  { s.pendingClose.foldl erase s with pendingClose := [], inBatch := false }

inductive Step where
  /-- `epoll_wait` returns a batch: ready descriptors, and the doorbell -/
  | wait (ready : List (Option Nat))
  /-- the next event of the batch is dispatched -/
  | dispatch
  /-- what a callback, a posted task or a `check_timeout` does to the loop -/
  | op (x : Op)
  /-- another thread opens or closes a descriptor of its own -/
  | foreignOpen (fd : Nat)
  | foreignClose (fd : Nat)
  | processPendingClose

/-- The `data.ptr` of an event: epoll reports what is registered. -/
def dataPtr (s : EventLoop) : Option Nat → Option (Option Nat)
  | none => some none
  | some fd => (s.handlers fd).map some

def step (s : EventLoop) : Step → EventLoop
  | .wait ready =>
      if s.inBatch then s else { s with inBatch := true, todo := ready.filterMap s.dataPtr }
  | .dispatch =>
      match s.todo with
      | [] => s
      | none :: rest => { s with todo := rest }
      | some obj :: rest => { s with todo := rest, dangling := s.dangling || !s.live obj }
  | .op x => s.op x
  | .foreignOpen fd =>
      if s.fds fd = .closed then { s with fds := Function.update s.fds fd .foreign } else s
  | .foreignClose fd =>
      if s.fds fd = .foreign then { s with fds := Function.update s.fds fd .closed } else s
  | .processPendingClose => if s.todo = [] then s.processPendingClose else s

def run (ls : List Step) : EventLoop := ls.foldl step {}

/-! ## The invariant -/

structure Inv (s : EventLoop) : Prop where
  /-- a registered handler is alive and holds its descriptor -/
  keys : ∀ fd obj, s.handlers fd = some obj → s.live obj = true ∧ s.fds fd = .owned obj
  inj : ∀ fd fd' obj, s.fds fd = .owned obj → s.fds fd' = .owned obj → fd = fd'
  fresh : ∀ fd obj, s.fds fd = .owned obj → obj < s.next
  todo : ∀ obj, some obj ∈ s.todo → ∃ fd, s.handlers fd = some obj
  replaced : s.replaced = false
  dangling : s.dangling = false

variable {s : EventLoop}

/-- A descriptor that is not a registered handler's changes hands. -/
theorem Inv.setFd (h : Inv s) {fd : Nat} {u : FdUse} (hfd : ∀ obj, s.fds fd ≠ .owned obj)
    (hu : ∀ obj, u ≠ .owned obj) : Inv { s with fds := Function.update s.fds fd u } := by
  have hget : ∀ fd' obj, Function.update s.fds fd u fd' = .owned obj → s.fds fd' = .owned obj := by
    intro fd' obj hown
    by_cases heq : fd' = fd
    · rw [heq, Function.update_self] at hown
      exact absurd hown (hu obj)
    · rwa [Function.update_of_ne heq] at hown
  refine ⟨fun fd' obj hkey => ?_, fun a b obj ha hb => ?_, fun fd' obj hown => ?_, h.todo,
    h.replaced, h.dangling⟩
  · obtain ⟨hlive, hown⟩ := h.keys fd' obj hkey
    have hne : fd' ≠ fd := by
      rintro rfl
      exact hfd obj hown
    exact ⟨hlive, (Function.update_of_ne hne ..).trans hown⟩
  · exact h.inj a b obj (hget a obj ha) (hget b obj hb)
  · exact h.fresh fd' obj (hget fd' obj hown)

theorem erase_of_none {fd : Nat} (h : s.handlers fd = none) : s.erase fd = s := by
  rw [erase]
  rw [h]

/-- A held descriptor is nobody's key. -/
theorem Inv.held (h : Inv s) {fd : Nat} (hheld : s.fds fd = .held) : s.handlers fd = none := by
  cases hkey : s.handlers fd with
  | none => rfl
  | some obj => exact absurd (hheld.symm.trans (h.keys fd obj hkey).2) (by simp)

theorem Inv.add (h : Inv s) {fd : Nat} (hheld : s.fds fd = .held) (ok : Bool) :
    Inv (s.add fd ok) ∧ ∀ fd' obj, s.handlers fd' = some obj → (s.add fd ok).handlers fd' = some obj := by
  have hnone := h.held hheld
  rw [EventLoop.add]
  cases ok with
  | false =>
      -- `epoll_ctl` failed: the handler is destroyed and closes its fd
      have hset : Inv { s with fds := Function.update s.fds fd .closed } :=
        h.setFd (by rw [hheld]; simp) (by simp)
      refine ⟨⟨hset.keys, hset.inj, fun fd' obj hown => ?_, hset.todo, hset.replaced,
        hset.dangling⟩, fun _ _ hkey => hkey⟩
      exact Nat.lt_succ_of_lt (hset.fresh fd' obj hown)
  | true =>
      rw [if_pos rfl, erase_of_none hnone]
      dsimp only
      have hkeep : ∀ fd' obj, s.handlers fd' = some obj →
          Function.update s.handlers fd (some s.next) fd' = some obj := by
        intro fd' obj hkey
        have hne : fd' ≠ fd := by
          rintro rfl
          exact absurd (hnone.symm.trans hkey) (by simp)
        exact (Function.update_of_ne hne ..).trans hkey
      have hhandlers : ∀ fd' obj, Function.update s.handlers fd (some s.next) fd' = some obj →
          fd' = fd ∧ obj = s.next ∨ fd' ≠ fd ∧ s.handlers fd' = some obj := by
        intro fd' obj hkey
        by_cases heq : fd' = fd
        · rw [heq, Function.update_self] at hkey
          exact .inl ⟨heq, (Option.some.inj hkey).symm⟩
        · rw [Function.update_of_ne heq] at hkey
          exact .inr ⟨heq, hkey⟩
      have hfds : ∀ fd' obj, Function.update s.fds fd (.owned s.next) fd' = .owned obj →
          fd' = fd ∧ obj = s.next ∨ s.fds fd' = .owned obj ∧ obj < s.next := by
        intro fd' obj hown
        by_cases heq : fd' = fd
        · rw [heq, Function.update_self] at hown
          exact .inl ⟨heq, (FdUse.owned.inj hown).symm⟩
        · rw [Function.update_of_ne heq] at hown
          exact .inr ⟨hown, h.fresh fd' obj hown⟩
      refine ⟨⟨fun fd' obj hkey => ?_, fun a b obj ha hb => ?_, fun fd' obj hown => ?_,
        fun obj hobj => ?_, ?_, h.dangling⟩, hkeep⟩
      · rcases hhandlers fd' obj hkey with ⟨rfl, rfl⟩ | ⟨hne, hkey⟩
        · exact ⟨Function.update_self .., Function.update_self ..⟩
        · obtain ⟨hlive, hown⟩ := h.keys fd' obj hkey
          have hlt := h.fresh fd' obj hown
          refine ⟨?_, (Function.update_of_ne hne ..).trans hown⟩
          exact (Function.update_of_ne (by omega) ..).trans hlive
      · rcases hfds a obj ha with ⟨rfl, hobj⟩ | ⟨ha, hlt⟩
        · rcases hfds b obj hb with ⟨rfl, -⟩ | ⟨-, hlt⟩
          · rfl
          · omega
        · rcases hfds b obj hb with ⟨-, hobj⟩ | ⟨hb, -⟩
          · omega
          · exact h.inj a b obj ha hb
      · rcases hfds fd' obj hown with ⟨-, rfl⟩ | ⟨-, hlt⟩
        · exact Nat.lt_succ_self _
        · exact Nat.lt_succ_of_lt hlt
      · obtain ⟨fd', hkey⟩ := h.todo obj hobj
        exact ⟨fd', hkeep fd' obj hkey⟩
      · rw [h.replaced, hnone]
        rfl

/-- Destroying a handler that no event of the batch points to. -/
theorem Inv.erase (h : Inv s) (htodo : s.todo = []) (fd : Nat) :
    Inv (s.erase fd) ∧ (s.erase fd).todo = [] := by
  rw [EventLoop.erase]
  cases hkey : s.handlers fd with
  | none => exact ⟨h, htodo⟩
  | some obj =>
      obtain ⟨-, hown⟩ := h.keys fd obj hkey
      have hfds : ∀ fd' obj', Function.update s.fds fd .closed fd' = .owned obj' →
          fd' ≠ fd ∧ s.fds fd' = .owned obj' := by
        intro fd' obj' hown'
        by_cases heq : fd' = fd
        · rw [heq, Function.update_self] at hown'
          cases hown'
        · rw [Function.update_of_ne heq] at hown'
          exact ⟨heq, hown'⟩
      refine ⟨⟨fun fd' obj' hkey' => ?_, fun a b obj' ha hb => ?_, fun fd' obj' hown' => ?_,
        fun obj' hobj => ?_, h.replaced, h.dangling⟩, htodo⟩
      · have hne : fd' ≠ fd := by
          rintro rfl
          have hself : Function.update s.handlers fd' none fd' = none := Function.update_self ..
          exact absurd (hself.symm.trans hkey') (by simp)
        have hkey'' : s.handlers fd' = some obj' := (Function.update_of_ne hne ..).symm.trans hkey'
        obtain ⟨hlive', hown'⟩ := h.keys fd' obj' hkey''
        have hobj : obj' ≠ obj := by
          rintro rfl
          exact hne (h.inj fd' fd obj' hown' hown)
        exact ⟨(Function.update_of_ne hobj ..).trans hlive',
          (Function.update_of_ne hne ..).trans hown'⟩
      · exact h.inj a b obj' (hfds a obj' ha).2 (hfds b obj' hb).2
      · exact h.fresh fd' obj' (hfds fd' obj' hown').2
      · have hnil : some obj' ∈ s.todo := hobj
        rw [htodo] at hnil
        cases hnil

theorem erase_none {fd fd' : Nat} (h : s.handlers fd = none) : (s.erase fd').handlers fd = none := by
  rw [EventLoop.erase]
  cases hkey : s.handlers fd' with
  | none => exact h
  | some obj =>
      by_cases heq : fd = fd'
      · rw [heq]
        exact Function.update_self ..
      · exact (Function.update_of_ne heq ..).trans h

theorem erase_self (fd : Nat) : (s.erase fd).handlers fd = none := by
  rw [EventLoop.erase]
  cases hkey : s.handlers fd with
  | none => exact hkey
  | some obj => exact Function.update_self ..

/-- The loop of `process_pending_close`. -/
theorem eraseAll_spec (fds : List Nat) : ∀ s : EventLoop, Inv s → s.todo = [] →
    Inv (fds.foldl EventLoop.erase s) ∧ (fds.foldl EventLoop.erase s).todo = [] ∧
    (∀ fd, s.handlers fd = none → (fds.foldl EventLoop.erase s).handlers fd = none) ∧
    ∀ fd ∈ fds, (fds.foldl EventLoop.erase s).handlers fd = none := by
  induction fds with
  | nil => intro s h htodo; exact ⟨h, htodo, fun _ hn => hn, fun _ hfd => (by cases hfd)⟩
  | cons a fds ih =>
      intro s h htodo
      obtain ⟨h', htodo'⟩ := h.erase htodo a
      obtain ⟨hinv, hnil, hkeep, hgone⟩ := ih (s.erase a) h' htodo'
      refine ⟨hinv, hnil, fun fd hn => hkeep fd (erase_none hn), fun fd hfd => ?_⟩
      rcases List.mem_cons.mp hfd with rfl | hfd
      · exact hkeep fd (erase_self fd)
      · exact hgone fd hfd

theorem Inv.processPendingClose (h : Inv s) (htodo : s.todo = []) : Inv s.processPendingClose := by
  obtain ⟨hinv, hnil, -, -⟩ := eraseAll_spec s.pendingClose s h htodo
  exact ⟨hinv.keys, hinv.inj, hinv.fresh, hinv.todo, hinv.replaced, hinv.dangling⟩

theorem Inv.op (h : Inv s) (x : Op) :
    Inv (s.op x) ∧ ∀ fd obj, s.handlers fd = some obj → (s.op x).handlers fd = some obj := by
  cases x with
  | create fd =>
      rw [EventLoop.op]
      by_cases hclosed : s.fds fd = .closed
      · rw [if_pos hclosed]
        exact ⟨h.setFd (by rw [hclosed]; simp) (by simp), fun _ _ hkey => hkey⟩
      · rw [if_neg hclosed]
        exact ⟨h, fun _ _ hkey => hkey⟩
  | close fd =>
      rw [EventLoop.op]
      by_cases hheld : s.fds fd = .held
      · rw [if_pos hheld]
        exact ⟨h.setFd (by rw [hheld]; simp) (by simp), fun _ _ hkey => hkey⟩
      · rw [if_neg hheld]
        exact ⟨h, fun _ _ hkey => hkey⟩
  | add fd ok =>
      rw [EventLoop.op]
      by_cases hheld : s.fds fd = .held
      · rw [if_pos hheld]
        exact h.add hheld ok
      · rw [if_neg hheld]
        exact ⟨h, fun _ _ hkey => hkey⟩
  | update fd => exact ⟨h, fun _ _ hkey => hkey⟩
  | requestClose fd =>
      exact ⟨⟨h.keys, h.inj, h.fresh, h.todo, h.replaced, h.dangling⟩, fun _ _ hkey => hkey⟩

/-- One step: the invariant is kept, and whatever is registered stays registered
    and alive, except in `process_pending_close`. -/
theorem Inv.step (h : Inv s) (l : Step) :
    Inv (s.step l) ∧ (l ≠ .processPendingClose → ∀ fd obj, s.handlers fd = some obj →
      (s.step l).handlers fd = some obj ∧ (s.step l).live obj = true) := by
  have hinv : Inv (s.step l) ∧ (l ≠ .processPendingClose → ∀ fd obj,
      s.handlers fd = some obj → (s.step l).handlers fd = some obj) := by
    cases l with
    | wait ready =>
        rw [EventLoop.step]
        by_cases hbatch : s.inBatch = true
        · rw [if_pos hbatch]
          exact ⟨h, fun _ _ _ hkey => hkey⟩
        · rw [if_neg hbatch]
          refine ⟨⟨h.keys, h.inj, h.fresh, fun obj hobj => ?_, h.replaced, h.dangling⟩,
            fun _ _ _ hkey => hkey⟩
          -- the batch points to what is registered now
          obtain ⟨ev, -, hev⟩ := List.mem_filterMap.mp hobj
          cases ev with
          | none => cases hev
          | some fd =>
              obtain ⟨obj', hkey, heq⟩ := Option.map_eq_some_iff.mp hev
              cases heq
              exact ⟨fd, hkey⟩
    | dispatch =>
        unfold EventLoop.step
        dsimp only
        cases htodo : s.todo with
        | nil => exact ⟨h, fun _ _ _ hkey => hkey⟩
        | cons ev rest =>
            have hrest : ∀ obj, some obj ∈ rest → ∃ fd, s.handlers fd = some obj := fun obj hobj =>
              h.todo obj (by rw [htodo]; exact List.mem_cons_of_mem _ hobj)
            cases ev with
            | none =>
                exact ⟨⟨h.keys, h.inj, h.fresh, hrest, h.replaced, h.dangling⟩,
                  fun _ _ _ hkey => hkey⟩
            | some obj =>
                -- the handler is registered still, so it is alive
                obtain ⟨fd, hkey⟩ := h.todo obj (by rw [htodo]; exact List.mem_cons_self ..)
                refine ⟨⟨h.keys, h.inj, h.fresh, hrest, h.replaced, ?_⟩, fun _ _ _ hkey => hkey⟩
                show (s.dangling || !s.live obj) = false
                rw [h.dangling, (h.keys fd obj hkey).1]
                rfl
    | op x => exact ⟨(h.op x).1, fun _ => (h.op x).2⟩
    | foreignOpen fd =>
        rw [EventLoop.step]
        by_cases hclosed : s.fds fd = .closed
        · rw [if_pos hclosed]
          exact ⟨h.setFd (by rw [hclosed]; simp) (by simp), fun _ _ _ hkey => hkey⟩
        · rw [if_neg hclosed]
          exact ⟨h, fun _ _ _ hkey => hkey⟩
    | foreignClose fd =>
        rw [EventLoop.step]
        by_cases hforeign : s.fds fd = .foreign
        · rw [if_pos hforeign]
          exact ⟨h.setFd (by rw [hforeign]; simp) (by simp), fun _ _ _ hkey => hkey⟩
        · rw [if_neg hforeign]
          exact ⟨h, fun _ _ _ hkey => hkey⟩
    | processPendingClose =>
        rw [EventLoop.step]
        by_cases htodo : s.todo = []
        · rw [if_pos htodo]
          exact ⟨h.processPendingClose htodo, fun hne => absurd rfl hne⟩
        · rw [if_neg htodo]
          exact ⟨h, fun hne => absurd rfl hne⟩
  exact ⟨hinv.1, fun hl fd obj hkey =>
    ⟨hinv.2 hl fd obj hkey, (hinv.1.keys fd obj (hinv.2 hl fd obj hkey)).1⟩⟩

theorem inv_run (ls : List Step) : Inv (run ls) := by
  have hfold : ∀ (ls : List Step) (s : EventLoop), Inv s → Inv (ls.foldl step s) := by
    intro ls
    induction ls with
    | nil => intro s hs; exact hs
    | cons l ls ih => intro s hs; exact ih _ (hs.step l).1
  exact hfold ls {} ⟨(fun _ _ hkey => (by cases hkey)), (fun _ _ _ hown => (by cases hown)),
    (fun _ _ hown => (by cases hown)), (fun _ hobj => (by cases hobj)), rfl, rfl⟩

/-- After `process_pending_close` nothing that was scheduled is registered. -/
theorem processPendingClose_spec (h : Inv s) (htodo : s.todo = []) :
    (s.step .processPendingClose).pendingClose = [] ∧
      ∀ fd ∈ s.pendingClose, (s.step .processPendingClose).handlers fd = none := by
  rw [show s.step .processPendingClose = s.processPendingClose from if_pos htodo]
  exact ⟨rfl, (eraseAll_spec s.pendingClose s h htodo).2.2.2⟩

end EventLoop

end CastlePlus
