import Mathlib.Algebra.Order.Ring.Int
import Mathlib.Data.Fin.VecNotation
import Mathlib.Data.Finset.Card
import Mathlib.Data.Fintype.Basic
import Mathlib.Data.Fintype.Card
import Mathlib.Logic.Function.Basic

/-! # The cap on client connections

    `active_conn_count` and `conn_slot_available` (`net/conn_limit.h`) as the listener threads
    (`Listener::on_readable`), the constructors and destructors of the client connections and
    `EventLoop::add` use them.  The check and the increment are two atomic steps, so a thread
    may construct a connection on a count that others have raised in between.

    The invariant counts the threads that have passed the check and not yet constructed:
    together with the counter they stay below `max_conn + threads`. -/

namespace CastlePlus

/-- What `main` sets before the threads start.  `--max-conn` is read into a `long`, the number
    of threads is an `unsigned`. -/
structure CapConfig where
  maxConn : Nat
  threads : Nat
  maxConn_lt : maxConn < 2 ^ 63
  threads_lt : threads < 2 ^ 32

/-- Where a listener thread stands in one round of its accept loop. -/
inductive AcceptPc where
  /-- not between the check and the end of the round -/
  | accepting
  /-- `conn_slot_available()` was true -/
  | passed
  /-- the factory returned connection `c`, which the thread still owns -/
  | made (c : Nat)
  deriving DecidableEq

/-- The counter, the client connection objects constructed and not destroyed, and the
    listener threads. -/
structure ConnTable (n : Nat) where
  count : Nat := 0
  live : Finset Nat := ∅
  pc : Fin n → AcceptPc := fun _ => .accepting

namespace ConnTable

variable {n : Nat}

/-- `fetch_add(1)` on a `size_t`. -/
def fetchAdd (c : Nat) : Nat := if c + 1 = 2 ^ 64 then 0 else c + 1

/-- `fetch_sub(1)` on a `size_t`. -/
def fetchSub (c : Nat) : Nat := if c = 0 then 2 ^ 64 - 1 else c - 1

/-- `conn_slot_available`. -/
def connSlotAvailable (maxConn count : Nat) : Bool := maxConn == 0 || count < maxConn

/-- The constructor of `HttpConnection` and of `EchoConnection`. -/
def construct (s : ConnTable n) (c : Nat) : ConnTable n :=
  { s with count := fetchAdd s.count, live := insert c s.live }

/-- Their destructor. -/
def destroy (s : ConnTable n) (c : Nat) : ConnTable n :=
  { s with count := fetchSub s.count, live := s.live.erase c }

def setPc (s : ConnTable n) (i : Fin n) (pc : AcceptPc) : ConnTable n :=
  { s with pc := Function.update s.pc i pc }

inductive Step (n : Nat) where
  /-- thread `i` calls `conn_slot_available()` for a client that is within its rate -/
  | check (i : Fin n)
  /-- the factory of thread `i` returns null: no connection was constructed -/
  | null (i : Fin n)
  /-- the factory of thread `i` constructs connection `c` -/
  | make (i : Fin n) (c : Nat)
  /-- `loop_.add`, with the outcome of `epoll_ctl` -/
  | add (i : Fin n) (ok : Bool)
  /-- a loop drops its registered connection `c` -/
  | drop (c : Nat)

def step (maxConn : Nat) (s : ConnTable n) : Step n → ConnTable n
  | .check i =>
      if s.pc i = .accepting ∧ connSlotAvailable maxConn s.count then s.setPc i .passed
      -- the socket is closed and the next client accepted
      else s
  | .null i => if s.pc i = .passed then s.setPc i .accepting else s
  | .make i c =>
      if s.pc i = .passed ∧ c ∉ s.live then (s.construct c).setPc i (.made c) else s
  | .add i ok =>
      match s.pc i with
      -- a handler that could not be registered is dropped on return
      | .made c => if ok then s.setPc i .accepting else (s.destroy c).setPc i .accepting
      | _ => s
  | .drop c =>
      if c ∈ s.live ∧ ∀ i, s.pc i ≠ .made c then s.destroy c else s

def run (maxConn : Nat) (ls : List (Step n)) : ConnTable n := ls.foldl (step maxConn) {}

/-! ## The invariant -/

/-- The threads that have passed the check and not yet counted. -/
def passed (s : ConnTable n) : Finset (Fin n) := Finset.univ.filter fun i => s.pc i = .passed

structure Inv (maxConn : Nat) (s : ConnTable n) : Prop where
  counted : s.count = s.live.card
  below : s.count + s.passed.card < maxConn + n
  owned : ∀ i c, s.pc i = .made c → c ∈ s.live
  single : ∀ i j c, s.pc i = .made c → s.pc j = .made c → i = j

@[simp] theorem setPc_self (s : ConnTable n) (i : Fin n) (pc : AcceptPc) :
    (s.setPc i pc).pc i = pc := by
  simp only [setPc, Function.update_self]

theorem setPc_of_ne (s : ConnTable n) {i j : Fin n} (pc : AcceptPc) (h : j ≠ i) :
    (s.setPc i pc).pc j = s.pc j := by
  simp only [setPc, Function.update_of_ne h]

@[simp] theorem mem_passed {s : ConnTable n} {i : Fin n} : i ∈ s.passed ↔ s.pc i = .passed := by
  simp [passed]

theorem passed_card_le (s : ConnTable n) : s.passed.card ≤ n := by
  have h := Finset.card_le_univ s.passed
  rwa [Fintype.card_fin] at h

variable {s : ConnTable n} {i : Fin n} {pc : AcceptPc}

/-- A thread that leaves the window between the check and the increment. -/
theorem passed_leave (h : s.pc i = .passed) (hpc : pc ≠ .passed) :
    (s.setPc i pc).passed.card + 1 = s.passed.card := by
  have hi : i ∈ s.passed := mem_passed.mpr h
  have herase : (s.setPc i pc).passed = s.passed.erase i := by
    ext j
    by_cases hj : j = i
    · subst hj
      simp [hpc]
    · simp [setPc_of_ne s pc hj, hj]
  rw [herase]
  exact Finset.card_erase_add_one hi

theorem passed_outside (h : s.pc i ≠ .passed) (hpc : pc ≠ .passed) :
    (s.setPc i pc).passed = s.passed := by
  ext j
  by_cases hj : j = i
  · subst hj
    simp [hpc, h]
  · simp [setPc_of_ne s pc hj]

theorem setPc_made {j : Fin n} {c : Nat} (hpc : ∀ c, pc ≠ .made c)
    (h : (s.setPc i pc).pc j = .made c) : j ≠ i ∧ s.pc j = .made c := by
  by_cases hj : j = i
  · subst hj
    rw [setPc_self] at h
    exact absurd h (hpc c)
  · rw [setPc_of_ne s pc hj] at h
    exact ⟨hj, h⟩

section

variable {maxConn : Nat}

/-- Within the bound the counter does not wrap. -/
theorem Inv.fetchAdd_eq (h : Inv maxConn s) (hm : maxConn < 2 ^ 63) (hn : n < 2 ^ 32) :
    fetchAdd s.count = s.count + 1 := by
  have := h.below
  exact if_neg (by omega)

theorem Inv.fetchSub_eq (h : Inv maxConn s) {c : Nat} (hc : c ∈ s.live) :
    0 < s.count ∧ fetchSub s.count = s.count - 1 := by
  have hpos : 0 < s.count := by
    rw [h.counted]
    exact Finset.card_pos.mpr ⟨c, hc⟩
  exact ⟨hpos, if_neg (Nat.ne_of_gt hpos)⟩

/-- A thread moves on without a connection of its own. -/
theorem Inv.setPc (h : Inv maxConn s) (hpc : ∀ c, pc ≠ .made c)
    (hbelow : s.count + (s.setPc i pc).passed.card < maxConn + n) :
    Inv maxConn (s.setPc i pc) := by
  refine ⟨h.counted, hbelow, ?_, ?_⟩
  · intro j c hj
    exact h.owned j c (setPc_made hpc hj).2
  · intro j k c hj hk
    exact h.single j k c (setPc_made hpc hj).2 (setPc_made hpc hk).2

/-- A connection that no thread is about to register is destroyed. -/
theorem Inv.destroy (h : Inv maxConn s) {c : Nat} (hc : c ∈ s.live)
    (hfree : ∀ i, s.pc i ≠ .made c) : Inv maxConn (s.destroy c) := by
  obtain ⟨hpos, hsub⟩ := h.fetchSub_eq hc
  refine ⟨?_, ?_, ?_, h.single⟩
  · show fetchSub s.count = (s.live.erase c).card
    rw [hsub, Finset.card_erase_of_mem hc, h.counted]
  · show fetchSub s.count + s.passed.card < maxConn + n
    have := h.below
    omega
  · intro j d hj
    refine Finset.mem_erase.mpr ⟨?_, h.owned j d hj⟩
    intro hd
    exact hfree j (hd ▸ hj)

theorem Inv.check (h : Inv maxConn s) (hpos : 0 < maxConn)
    (havail : connSlotAvailable maxConn s.count = true) : Inv maxConn (s.setPc i .passed) := by
  have hlt : s.count < maxConn := by
    simp only [connSlotAvailable, Bool.or_eq_true, beq_iff_eq, decide_eq_true_eq] at havail
    omega
  refine h.setPc (fun c hc => by cases hc) ?_
  have := passed_card_le (s.setPc i .passed)
  omega

theorem Inv.make (h : Inv maxConn s) (hm : maxConn < 2 ^ 63) (hn : n < 2 ^ 32) {c : Nat}
    (hi : s.pc i = .passed) (hc : c ∉ s.live) : Inv maxConn ((s.construct c).setPc i (.made c)) := by
  have hleave : ((s.construct c).setPc i (.made c)).passed.card + 1 = s.passed.card :=
    passed_leave (s := s.construct c) hi (by intro hp; cases hp)
  refine ⟨?_, ?_, ?_, ?_⟩
  · show fetchAdd s.count = (insert c s.live).card
    rw [h.fetchAdd_eq hm hn, Finset.card_insert_of_notMem hc, h.counted]
  · show fetchAdd s.count + _ < maxConn + n
    rw [h.fetchAdd_eq hm hn]
    have := h.below
    omega
  · intro j d hj
    show d ∈ insert c s.live
    by_cases hji : j = i
    · subst hji
      rw [setPc_self] at hj
      cases hj
      exact Finset.mem_insert_self _ _
    · rw [setPc_of_ne _ _ hji] at hj
      exact Finset.mem_insert_of_mem (h.owned j d hj)
  · -- the new object is not one that another thread holds
    intro j k d hj hk
    by_cases hji : j = i <;> by_cases hki : k = i
    · rw [hji, hki]
    · rw [hji, setPc_self] at hj
      rw [setPc_of_ne _ _ hki] at hk
      cases hj
      exact absurd (h.owned k c hk) hc
    · rw [setPc_of_ne _ _ hji] at hj
      rw [hki, setPc_self] at hk
      cases hk
      exact absurd (h.owned j c hj) hc
    · rw [setPc_of_ne _ _ hji] at hj
      rw [setPc_of_ne _ _ hki] at hk
      exact h.single j k d hj hk

/-- The end of a round: the connection is registered, or dropped because it could not be. -/
theorem Inv.add (h : Inv maxConn s) {c : Nat} (hi : s.pc i = .made c) (ok : Bool) :
    Inv maxConn (if ok then s.setPc i .accepting else (s.destroy c).setPc i .accepting) := by
  have hout : (s.setPc i .accepting).passed = s.passed :=
    passed_outside (by rw [hi]; intro hp; cases hp) (by intro hp; cases hp)
  have hdone : Inv maxConn (s.setPc i .accepting) :=
    h.setPc (fun c hc => by cases hc) (by rw [hout]; exact h.below)
  cases ok with
  | true => exact hdone
  | false =>
      show Inv maxConn ((s.setPc i .accepting).destroy c)
      refine hdone.destroy (h.owned i c hi) ?_
      intro j hj
      obtain ⟨hne, hj⟩ := setPc_made (fun c hc => by cases hc) hj
      exact hne (h.single j i c hj hi)

theorem Inv.step (h : Inv maxConn s) (hpos : 0 < maxConn) (hm : maxConn < 2 ^ 63)
    (hn : n < 2 ^ 32) (l : Step n) : Inv maxConn (s.step maxConn l) := by
  cases l with
  | check i =>
      dsimp only [ConnTable.step]
      split
      · rename_i hc
        exact h.check hpos hc.2
      · exact h
  | null i =>
      dsimp only [ConnTable.step]
      split
      · rename_i hi
        refine h.setPc (fun c hc => by cases hc) ?_
        -- the thread has passed the check for nothing, and gives its place back
        have hleave : (s.setPc i .accepting).passed.card + 1 = s.passed.card :=
          passed_leave hi (by intro hp; cases hp)
        have := h.below
        omega
      · exact h
  | make i c =>
      dsimp only [ConnTable.step]
      split
      · rename_i hc
        exact h.make hm hn hc.1 hc.2
      · exact h
  | add i ok =>
      dsimp only [ConnTable.step]
      split
      · rename_i c hi
        exact h.add hi ok
      · exact h
  | drop c =>
      dsimp only [ConnTable.step]
      split
      · rename_i hc
        exact h.destroy hc.1 hc.2
      · exact h

theorem Inv.run (hpos : 0 < maxConn) (hm : maxConn < 2 ^ 63) (hn : n < 2 ^ 32)
    (ls : List (Step n)) : Inv maxConn (run maxConn ls) := by
  have hfold : ∀ (ls : List (Step n)) (s : ConnTable n), Inv maxConn s →
      Inv maxConn (ls.foldl (ConnTable.step maxConn) s) := by
    intro ls
    induction ls with
    | nil => intro s hs; exact hs
    | cons l ls ih => intro s hs; exact ih _ (hs.step hpos hm hn l)
  refine hfold ls {} ⟨rfl, ?_, fun i c hc => (by cases hc), fun i j c hc => (by cases hc)⟩
  have hnone : passed ({} : ConnTable n) = ∅ := Finset.filter_eq_empty_iff.mpr (by simp)
  rw [hnone]
  show 0 + 0 < maxConn + n
  omega

/-- The only steps that end a connection are its destructor's. -/
theorem step_ends {l : Step n} {c : Nat} (hc : c ∈ s.live) (hgone : c ∉ (s.step maxConn l).live) :
    (s.step maxConn l).count = fetchSub s.count := by
  cases l with
  | check i =>
      dsimp only [ConnTable.step] at hgone
      split at hgone <;> exact absurd hc hgone
  | null i =>
      dsimp only [ConnTable.step] at hgone
      split at hgone <;> exact absurd hc hgone
  | make i d =>
      dsimp only [ConnTable.step] at hgone
      split at hgone
      · exact absurd (Finset.mem_insert_of_mem hc) hgone
      · exact absurd hc hgone
  | add i ok =>
      cases hi : s.pc i with
      | made d =>
          simp only [ConnTable.step, hi] at hgone ⊢
          cases ok with
          | true => exact absurd hc hgone
          | false => rfl
      | accepting => exact absurd hc (by simpa only [ConnTable.step, hi] using hgone)
      | passed => exact absurd hc (by simpa only [ConnTable.step, hi] using hgone)
  | drop d =>
      dsimp only [ConnTable.step] at hgone ⊢
      split at hgone
      · rename_i hd
        rw [if_pos hd]
        rfl
      · exact absurd hc hgone

end

/-- For every interleaving of the listener threads with destructions on any loop: the counter
    is the number of live client connections, it is at most `max_conn + threads - 1`, and
    whatever step destroys a connection next finds it positive and takes one off. -/
theorem soft_cap (cfg : CapConfig) (hpos : 0 < cfg.maxConn) (ls : List (Step cfg.threads)) :
    let s := run cfg.maxConn ls
    s.count = s.live.card ∧ s.count ≤ cfg.maxConn + cfg.threads - 1 ∧
    ∀ l c, c ∈ s.live → c ∉ (s.step cfg.maxConn l).live →
      0 < s.count ∧ (s.step cfg.maxConn l).count = s.count - 1 := by
  intro s
  have h : Inv cfg.maxConn s := Inv.run hpos cfg.maxConn_lt cfg.threads_lt ls
  refine ⟨h.counted, ?_, ?_⟩
  · have := h.below
    omega
  · intro l c hc hgone
    obtain ⟨hcount, hsub⟩ := h.fetchSub_eq hc
    exact ⟨hcount, (step_ends hc hgone).trans hsub⟩

/-- One slot and three threads that all pass the check before any of them counts; the second
    connection cannot be registered. -/
def overshoot : List (Step 3) :=
  [.check 0, .check 1, .check 2, .make 0 0, .make 1 1, .make 2 2, .add 1 false, .check 1]

theorem soft_cap_overshoot : let s := run 1 (overshoot.take 6)
    s.count = 3 ∧ (run 1 overshoot).count = 2 ∧ s.count ≤ 1 + 3 - 1 ∧
    (s.step 1 (.add 1 false)).count = s.count - 1 := by
  have h := soft_cap ⟨1, 3, by decide, by decide⟩ (by decide) (overshoot.take 6)
  exact ⟨by decide, by decide, h.2.1, (h.2.2 (.add 1 false) 1 (by decide) (by decide)).2⟩

end ConnTable

end CastlePlus
