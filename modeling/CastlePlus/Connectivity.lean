import CastlePlus.ConfigText
import CastlePlus.LogPull

/-! # The internet watch

    `ConnectivityMonitor` (`net/connectivity.cpp`): one thread probes, logs the changes, publishes
    the result and waits for the interval on a condition variable, until the owner's `stop`.

    The two threads and the clock take steps in any order.  `tcp_probe` is a parameter of the step
    that probes.  The log has one line for each outage and one for each recovery, with the length
    of the outage (**`outages_logged`**), and `stop` loses no wake-up (**`watch_stops`**). -/

namespace CastlePlus

inductive NetState where
  | unknown
  | up
  | down
  deriving DecidableEq

structure ProbeTarget where
  host : Bytes
  port : Nat

def kProbeTargets : List ProbeTarget := [⟨ascii "1.1.1.1", 443⟩, ⟨ascii "8.8.8.8", 443⟩]

def internetReachable (tcpProbe : ProbeTarget → Bool) : Bool := kProbeTargets.any tcpProbe

/-- What the watch logs. -/
inductive NetEvent where
  | lost
  | restored (secs : Nat)

def NetEvent.message : NetEvent → LogLevel × Bytes
  | .lost => (.critical,
      ascii "internet connectivity lost: no TCP response from 1.1.1.1:443 or 8.8.8.8:443")
  | .restored secs =>
      (.info, ascii "internet connectivity restored (down ~" ++ natText secs ++ ascii "s)")

/-- Where the thread is in `run`. -/
inductive WatchPc where
  | unborn
  /-- before `internet_reachable` -/
  | probe
  /-- the probes have answered -/
  | judge (up : Bool)
  | store (up : Bool)
  /-- before it takes the mutex -/
  | enter
  /-- inside `wait_for`, which gives the mutex back -/
  | waiting (deadline : Nat)
  | ended
  deriving DecidableEq

/-- Where the owner is in `stop`. -/
inductive OwnerPc where
  | out
  | notify
  | join
  deriving DecidableEq

/-- The monitor, its thread and its owner; the clock counts nanoseconds.  A line of the log stands
    with the number of the probe that it is about.  `probes` keeps every result, with the clock's
    reading after it, and `flagged` how many there were when `stop_` was set: no step looks at
    either. -/
structure ConnectivityMonitor where
  pc : WatchPc := .unborn
  owner : OwnerPc := .out
  joinable : Bool := false
  stop : Bool := false
  notified : Bool := false
  clock : Nat := 0
  downSince : Nat := 0
  internetState : NetState := .unknown
  log : List (Nat × NetEvent) := []
  probes : List (Bool × Nat) := []
  flagged : Option Nat := none

inductive WatchLabel where
  | elapse (ns : Nat)
  | start
  /-- `stop` sets the flag, under the mutex -/
  | stop
  | notifyAll
  | join
  | probe (tcpProbe : ProbeTarget → Bool)
  | judge
  | store
  | enter
  /-- `wait_until` returns: at the deadline, notified, or for no reason -/
  | wake (timedOut : Bool)

namespace ConnectivityMonitor

/-- `steady_clock` counts nanoseconds. -/
def kSecond : Nat := 1000000000

/-- The transitions of `run` that are logged. -/
def judge (up : Bool) (w : ConnectivityMonitor) : ConnectivityMonitor :=
  let w := { w with pc := .store up, probes := w.probes ++ [(up, w.clock)] }
  let k := w.probes.length - 1
  if up = false ∧ w.internetState ≠ .down then
    { w with downSince := w.clock, log := w.log ++ [(k, .lost)] }
  else if up = true ∧ w.internetState = .down then
    { w with log := w.log ++ [(k, .restored ((w.clock - w.downSince) / kSecond))] }
  else w

/-- `wait_for`: the predicate again and again, the mutex held, until it holds or the time is up. -/
def wake (timedOut : Bool) (deadline : Nat) (w : ConnectivityMonitor) : ConnectivityMonitor :=
  if timedOut then
    if w.clock < deadline then w
    else if w.stop then { w with pc := .ended, notified := false }
    else { w with pc := .probe, notified := false }
  else if w.stop then { w with pc := .ended, notified := false }
  else { w with notified := false }

def step (interval : Nat) (w : ConnectivityMonitor) : WatchLabel → ConnectivityMonitor
  | .elapse ns => { w with clock := w.clock + ns }
  | .start =>
      if w.owner = .out ∧ w.pc = .unborn then { w with pc := .probe, joinable := true } else w
  | .stop =>
      if w.owner = .out then { w with
        stop := true
        owner := .notify
        flagged := some (w.flagged.getD w.probes.length) }
      else w
  | .notifyAll =>
      if w.owner = .notify then { w with
        notified := true
        owner := if w.joinable then .join else .out }
      else w
  | .join =>
      if w.owner = .join ∧ w.pc = .ended then { w with owner := .out, joinable := false } else w
  | .probe tcpProbe =>
      if w.pc = .probe then { w with pc := .judge (internetReachable tcpProbe) } else w
  | .judge =>
      match w.pc with
      | .judge up => judge up w
      | _ => w
  | .store =>
      match w.pc with
      | .store up => { w with pc := .enter, internetState := if up then .up else .down }
      | _ => w
  | .enter =>
      if w.pc = .enter then
        if w.stop then { w with pc := .ended }
        else { w with pc := .waiting (w.clock + interval * kSecond), notified := false }
      else w
  | .wake timedOut =>
      match w.pc with
      | .waiting deadline => wake timedOut deadline w
      | _ => w

def run (interval : Nat) (ls : List WatchLabel) : ConnectivityMonitor := ls.foldl (step interval) {}

/-! ## Outages in the history of the probes -/

variable {p : List (Bool × Nat)} {i j k t since : Nat} {u v : Bool}
  {log : List (Nat × NetEvent)}

/-- Probe `i` answered `u`. -/
def Said (p : List (Bool × Nat)) (i : Nat) (u : Bool) : Prop := (p[i]?).map Prod.fst = some u

/-- Probe `j` is the first to fail, or the first after one that did not. -/
def Starts (p : List (Bool × Nat)) (j : Nat) : Prop :=
  Said p j false ∧ (j = 0 ∨ Said p (j - 1) true)

/-- Probes `j` up to `k`, exclusive, fail, and the one before `j` did not. -/
def Outage (p : List (Bool × Nat)) (j k : Nat) : Prop :=
  j < k ∧ Starts p j ∧ ∀ i, j ≤ i → i < k → Said p i false

theorem Said.lt (h : Said p i u) : i < p.length := by
  by_contra hlt
  rw [Said, List.getElem?_eq_none (Nat.le_of_not_lt hlt)] at h
  cases h

theorem Said.unique (h : Said p i u) (h' : Said p i v) : u = v := Option.some.inj (h.symm.trans h')

theorem said_snoc : Said (p ++ [(u, t)]) i v ↔ Said p i v ∨ (i = p.length ∧ u = v) := by
  rcases Nat.lt_trichotomy i p.length with hlt | rfl | hlt
  · rw [Said, List.getElem?_append_left hlt]
    exact ⟨.inl, fun h => h.resolve_right fun h => absurd h.1 (Nat.ne_of_lt hlt)⟩
  · rw [Said, List.getElem?_concat_length]
    constructor
    · intro h
      exact .inr ⟨rfl, Option.some.inj h⟩
    · rintro (h | ⟨-, rfl⟩)
      · exact absurd h.lt (Nat.lt_irrefl _)
      · rfl
  · constructor
    · intro h
      have := h.lt
      rw [List.length_append, List.length_singleton] at this
      omega
    · rintro (h | ⟨rfl, -⟩)
      · exact absurd h.lt (by omega)
      · exact absurd hlt (Nat.lt_irrefl _)

theorem said_snoc_of_lt (hi : i < p.length) : Said (p ++ [(u, t)]) i v ↔ Said p i v := by
  rw [said_snoc]
  exact or_iff_left fun h => absurd h.1 (Nat.ne_of_lt hi)

theorem starts_snoc : Starts (p ++ [(u, t)]) k ↔
    Starts p k ∨ (k = p.length ∧ u = false ∧ (k = 0 ∨ Said p (k - 1) true)) := by
  constructor
  · rintro ⟨hdown, hbefore⟩
    have hb : k = 0 ∨ Said p (k - 1) true := by
      rcases hbefore with h0 | h
      · exact .inl h0
      · rcases said_snoc.mp h with h | ⟨hk, -⟩
        · exact .inr h
        · rcases said_snoc.mp hdown with hd | ⟨hk', -⟩
          · exact absurd hd.lt (by omega)
          · exact .inl (by omega)
    rcases said_snoc.mp hdown with h | ⟨hk, hu⟩
    · exact .inl ⟨h, hb⟩
    · exact .inr ⟨hk, hu, hb⟩
  · rintro (⟨hdown, hb⟩ | ⟨hk, hu, hb⟩)
    · exact ⟨said_snoc.mpr (.inl hdown), hb.imp_right fun h => said_snoc.mpr (.inl h)⟩
    · exact ⟨said_snoc.mpr (.inr ⟨hk, hu⟩), hb.imp_right fun h => said_snoc.mpr (.inl h)⟩

theorem outage_snoc (hk : k ≤ p.length) : Outage (p ++ [(u, t)]) j k ↔ Outage p j k := by
  constructor
  · rintro ⟨hlt, hstart, hall⟩
    refine ⟨hlt, ?_, fun i hji hik => (said_snoc_of_lt (by omega)).mp (hall i hji hik)⟩
    exact (starts_snoc.mp hstart).resolve_right fun h => absurd h.1 (by omega)
  · rintro ⟨hlt, hstart, hall⟩
    exact ⟨hlt, starts_snoc.mpr (.inl hstart), fun i hji hik => said_snoc.mpr (.inl (hall i hji hik))⟩

/-- An outage has one beginning. -/
theorem Outage.unique {j' : Nat} (h : Outage p j k) (h' : Outage p j' k) : j = j' := by
  have hle : ∀ {a b : Nat}, Outage p a k → Outage p b k → b ≤ a := by
    intro a b ha hb
    by_contra hlt
    rcases hb.2.1.2 with h0 | hup
    · omega
    · exact Bool.false_ne_true ((ha.2.2 (b - 1) (by omega) (by have := hb.1; omega)).unique hup)
  exact Nat.le_antisymm (hle h' h) (hle h h')

/-- The log tells the history; `since` is the reading at the beginning of an outage that goes on. -/
structure Account (p : List (Bool × Nat)) (log : List (Nat × NetEvent)) (since : Nat) : Prop where
  lost : ∀ k, (k, .lost) ∈ log ↔ Starts p k
  restored : ∀ k secs, (k, .restored secs) ∈ log ↔ ∃ j t t', Outage p j k ∧
    p[j]? = some (false, t) ∧ p[k]? = some (true, t') ∧ secs = (t' - t) / kSecond
  sorted : (log.map Prod.fst).Pairwise (· < ·)
  below : ∀ k ∈ log.map Prod.fst, k < p.length
  since : Said p (p.length - 1) false →
    ∃ j, Outage p j p.length ∧ p[j]? = some (false, since)

theorem getElem?_snoc_of_some {x y : Bool × Nat} (h : p[i]? = some x) : (p ++ [y])[i]? = some x := by
  rw [List.getElem?_append_left (List.getElem?_eq_some_iff.mp h).1]
  exact h

/-- What a further probe does to the recoveries in the history. -/
theorem restored_snoc {secs : Nat} :
    (∃ j t₀ t₁, Outage (p ++ [(u, t)]) j k ∧ (p ++ [(u, t)])[j]? = some (false, t₀) ∧
      (p ++ [(u, t)])[k]? = some (true, t₁) ∧ secs = (t₁ - t₀) / kSecond) ↔
    (∃ j t₀ t₁, Outage p j k ∧ p[j]? = some (false, t₀) ∧ p[k]? = some (true, t₁) ∧
      secs = (t₁ - t₀) / kSecond) ∨
    (k = p.length ∧ u = true ∧ ∃ j t₀, Outage p j p.length ∧ p[j]? = some (false, t₀) ∧
      secs = (t - t₀) / kSecond) := by
  constructor
  · rintro ⟨j, t₀, t₁, hout, hj, hk, hsecs⟩
    have hlt := (List.getElem?_eq_some_iff.mp hk).1
    rw [List.length_append, List.length_singleton] at hlt
    have hjk := hout.1
    rw [outage_snoc (by omega)] at hout
    rw [List.getElem?_append_left (by omega)] at hj
    by_cases hkl : k = p.length
    · rw [hkl, List.getElem?_concat_length] at hk
      cases hk
      exact .inr ⟨hkl, rfl, j, t₀, hkl ▸ hout, hj, hsecs⟩
    · rw [List.getElem?_append_left (by omega)] at hk
      exact .inl ⟨j, t₀, t₁, hout, hj, hk, hsecs⟩
  · rintro (⟨j, t₀, t₁, hout, hj, hk, hsecs⟩ | ⟨rfl, rfl, j, t₀, hout, hj, hsecs⟩)
    · have hlt := (List.getElem?_eq_some_iff.mp hk).1
      exact ⟨j, t₀, t₁, (outage_snoc (by omega)).mpr hout, getElem?_snoc_of_some hj,
        getElem?_snoc_of_some hk, hsecs⟩
    · exact ⟨j, t₀, t, (outage_snoc (le_refl _)).mpr hout, getElem?_snoc_of_some hj,
        List.getElem?_concat_length, hsecs⟩

/-- An outage that goes on after one more failed probe. -/
theorem Outage.snoc (h : Outage p j p.length) : Outage (p ++ [(false, t)]) j (p.length + 1) := by
  refine ⟨Nat.lt_succ_of_lt h.1, starts_snoc.mpr (.inl h.2.1), fun i hji hik => ?_⟩
  by_cases hi : i = p.length
  · exact said_snoc.mpr (.inr ⟨hi, rfl⟩)
  · exact said_snoc.mpr (.inl (h.2.2 i hji (by omega)))

theorem not_outage_of_up (h : p = [] ∨ Said p (p.length - 1) true) : ¬ Outage p j p.length := by
  intro hout
  have hlt := hout.1
  rcases h with rfl | hup
  · simp at hlt
  · exact Bool.false_ne_true ((hout.2.2 (p.length - 1) (by omega) (by omega)).unique hup)

theorem Account.sorted_snoc (h : Account p log since) {e : NetEvent} :
    ((log ++ [(p.length, e)]).map Prod.fst).Pairwise (· < ·) := by
  rw [List.map_append, List.map_singleton, List.pairwise_append]
  refine ⟨h.sorted, List.pairwise_singleton _ _, fun a ha b hb => ?_⟩
  rw [List.mem_singleton.mp hb]
  exact h.below a ha

theorem Account.below_snoc (h : Account p log since) {x : Bool × Nat} :
    ∀ k ∈ log.map Prod.fst, k < (p ++ [x]).length := fun k hk => by
  rw [List.length_append]
  exact Nat.lt_add_right _ (h.below k hk)

theorem Account.below_snoc_both (h : Account p log since) {x : Bool × Nat} {e : NetEvent} :
    ∀ k ∈ (log ++ [(p.length, e)]).map Prod.fst, k < (p ++ [x]).length := by
  intro k hk
  rw [List.map_append, List.map_singleton] at hk
  rcases List.mem_append.mp hk with hk | hk
  · exact h.below_snoc k hk
  · rw [List.mem_singleton.mp hk, List.length_append]
    exact Nat.lt_succ_self _

/-- The first failed probe. -/
theorem Account.begins (h : Account p log since) (hup : p = [] ∨ Said p (p.length - 1) true) :
    Account (p ++ [(false, t)]) (log ++ [(p.length, .lost)]) t := by
  have hb : p.length = 0 ∨ Said p (p.length - 1) true := hup.imp_left fun h => by rw [h]; rfl
  refine ⟨fun k => ?_, fun k secs => ?_, h.sorted_snoc, h.below_snoc_both, fun _ => ?_⟩
  · rw [List.mem_append, h.lost, starts_snoc, List.mem_singleton, Prod.mk.injEq]
    refine or_congr_right ⟨fun hk => ⟨hk.1, rfl, hk.1 ▸ hb⟩, fun hk => ⟨hk.1, rfl⟩⟩
  · rw [restored_snoc, List.mem_append, h.restored, List.mem_singleton, Prod.mk.injEq]
    exact or_congr_right ⟨fun hk => (by cases hk.2), fun hk => (by cases hk.2.1)⟩
  · rw [List.length_append, List.length_singleton]
    refine ⟨p.length, ⟨Nat.lt_succ_self _, ?_, fun i hi hi' => ?_⟩, List.getElem?_concat_length⟩
    · exact starts_snoc.mpr (.inr ⟨rfl, rfl, hb⟩)
    · exact said_snoc.mpr (.inr ⟨by omega, rfl⟩)

/-- A further failed probe. -/
theorem Account.goes_on (h : Account p log since) (hdown : Said p (p.length - 1) false) :
    Account (p ++ [(false, t)]) log since := by
  have hlt := hdown.lt
  refine ⟨fun k => ?_, fun k secs => ?_, h.sorted, h.below_snoc, fun _ => ?_⟩
  · rw [h.lost, starts_snoc]
    refine (or_iff_left ?_).symm
    rintro ⟨rfl, -, h0 | hup⟩
    · omega
    · exact Bool.false_ne_true (hdown.unique hup)
  · rw [restored_snoc, h.restored]
    exact (or_iff_left fun hk => (by cases hk.2.1)).symm
  · obtain ⟨j, hout, hj⟩ := h.since hdown
    rw [List.length_append, List.length_singleton]
    exact ⟨j, hout.snoc, getElem?_snoc_of_some hj⟩

theorem not_said_snoc_true : ¬ Said (p ++ [(true, t)]) ((p ++ [(true, t)]).length - 1) false := by
  rw [List.length_append, List.length_singleton, Nat.add_sub_cancel, said_snoc]
  rintro (h | ⟨-, h⟩)
  · exact absurd h.lt (Nat.lt_irrefl _)
  · cases h

/-- The first probe that succeeds again. -/
theorem Account.ends (h : Account p log since) (hdown : Said p (p.length - 1) false) :
    Account (p ++ [(true, t)]) (log ++ [(p.length, .restored ((t - since) / kSecond))]) since := by
  obtain ⟨j, hout, hj⟩ := h.since hdown
  refine ⟨fun k => ?_, fun k secs => ?_, h.sorted_snoc, h.below_snoc_both,
    fun hd => absurd hd not_said_snoc_true⟩
  · rw [List.mem_append, h.lost, starts_snoc, List.mem_singleton, Prod.mk.injEq]
    exact or_congr_right ⟨fun hk => (by cases hk.2), fun hk => (by cases hk.2.1)⟩
  · rw [restored_snoc, List.mem_append, h.restored, List.mem_singleton, Prod.mk.injEq,
      NetEvent.restored.injEq]
    refine or_congr_right ⟨fun hk => ⟨hk.1, rfl, j, since, hout, hj, hk.2⟩, ?_⟩
    rintro ⟨hk, -, j', t₀, hout', hj', hsecs⟩
    rw [hout.unique hout', hj'] at hj
    cases hj
    exact ⟨hk, hsecs⟩

/-- A probe that succeeds, with no outage before it. -/
theorem Account.fine (h : Account p log since) (hup : p = [] ∨ Said p (p.length - 1) true) :
    Account (p ++ [(true, t)]) log since := by
  refine ⟨fun k => ?_, fun k secs => ?_, h.sorted, h.below_snoc,
    fun hd => absurd hd not_said_snoc_true⟩
  · rw [h.lost, starts_snoc]
    exact (or_iff_left fun hk => (by cases hk.2.1)).symm
  · rw [restored_snoc, h.restored]
    refine (or_iff_left ?_).symm
    rintro ⟨-, -, j, t₀, hout, -⟩
    exact not_outage_of_up hup hout

/-! ## The threads -/

/-- The state that the results of the probes amount to. -/
def published (p : List (Bool × Nat)) : NetState :=
  match p.getLast? with
  | none => .unknown
  | some (up, _) => if up then .up else .down

/-- The probes whose result has been stored. -/
def settled (w : ConnectivityMonitor) : List (Bool × Nat) :=
  match w.pc with
  | .store _ => w.probes.dropLast
  | _ => w.probes

/-- How far the clock is from the last probe, or will be. -/
def Paced (interval : Nat) (w : ConnectivityMonitor) : Prop :=
  match w.pc with
  | .unborn => w.probes = []
  | .probe => ∀ x ∈ w.probes, x.2 + interval * kSecond ≤ w.clock
  | .judge _ => ∀ x ∈ w.probes, x.2 + interval * kSecond ≤ w.clock
  | .waiting deadline => ∀ x ∈ w.probes, x.2 + interval * kSecond ≤ deadline
  | .ended => True
  | _ => ∀ x ∈ w.probes, x.2 ≤ w.clock

structure Watched (interval : Nat) (w : ConnectivityMonitor) : Prop where
  account : Account w.probes w.log w.downSince
  shown : w.internetState = published w.settled
  stored : ∀ up, w.pc = .store up → Said w.probes (w.probes.length - 1) up
  paced : w.Paced interval
  spaced : w.probes.Pairwise fun x y => x.2 + interval * kSecond ≤ y.2

variable {interval : Nat} {w w' : ConnectivityMonitor}

theorem getLast?_eq_getElem? : p.getLast? = p[p.length - 1]? := List.getLast?_eq_getElem? ..

theorem published_eq_down : published p = .down ↔ Said p (p.length - 1) false := by
  rw [published, Said, getLast?_eq_getElem?]
  cases p[p.length - 1]? with
  | none => constructor <;> intro h <;> cases h
  | some x =>
      obtain ⟨up, t⟩ := x
      cases up
      · exact ⟨fun _ => rfl, fun _ => rfl⟩
      · constructor <;> intro h <;> cases h

theorem up_of_published (h : published p ≠ .down) : p = [] ∨ Said p (p.length - 1) true := by
  rw [published] at h
  cases hl : p.getLast? with
  | none => exact .inl (List.getLast?_eq_none_iff.mp hl)
  | some x =>
      obtain ⟨up, t⟩ := x
      rw [hl] at h
      cases up
      · exact absurd rfl h
      · rw [getLast?_eq_getElem?] at hl
        exact .inr (by rw [Said, hl]; rfl)

theorem published_of_said (h : Said p (p.length - 1) u) :
    published p = if u then .up else .down := by
  rw [Said, ← getLast?_eq_getElem?] at h
  rw [published]
  obtain ⟨x, hx, rfl⟩ := Option.map_eq_some_iff.mp h
  rw [hx]

/-- A step that does not touch what the thread has found out. -/
theorem Watched.of_same (h : Watched interval w) (hprobes : w'.probes = w.probes)
    (hlog : w'.log = w.log) (hsince : w'.downSince = w.downSince)
    (hshown : w'.internetState = published w'.settled) (hstore : ∀ up, w'.pc ≠ .store up)
    (hpaced : w'.Paced interval) : Watched interval w' := by
  refine ⟨?_, hshown, fun up hup => absurd hup (hstore up), hpaced, ?_⟩
  · rw [hprobes, hlog, hsince]
    exact h.account
  · rw [hprobes]
    exact h.spaced

theorem Watched.judge {up : Bool} (h : Watched interval w) (hpc : w.pc = .judge up) :
    Watched interval (judge up w) := by
  have hshown : w.internetState = published w.probes := by
    rw [h.shown, settled, hpc]
  have hpaced : ∀ x ∈ w.probes, x.2 + interval * kSecond ≤ w.clock := by
    have := h.paced
    rw [Paced, hpc] at this
    exact this
  have hlen : (w.probes ++ [(up, w.clock)]).length - 1 = w.probes.length := by
    rw [List.length_append, List.length_singleton, Nat.add_sub_cancel]
  have hspaced : (w.probes ++ [(up, w.clock)]).Pairwise
      fun x y => x.2 + interval * kSecond ≤ y.2 := by
    rw [List.pairwise_append]
    refine ⟨h.spaced, List.pairwise_singleton _ _, fun x hx y hy => ?_⟩
    rw [List.mem_singleton.mp hy]
    exact hpaced x hx
  have hpast : ∀ x ∈ w.probes ++ [(up, w.clock)], x.2 ≤ w.clock := by
    intro x hx
    rcases List.mem_append.mp hx with hx | hx
    · exact le_trans (Nat.le_add_right _ _) (hpaced x hx)
    · rw [List.mem_singleton.mp hx]
  have hstored : ∀ up', WatchPc.store up = .store up' →
      Said (w.probes ++ [(up, w.clock)]) ((w.probes ++ [(up, w.clock)]).length - 1) up' := by
    intro up' hup
    cases hup
    rw [hlen]
    exact said_snoc.mpr (.inr ⟨rfl, rfl⟩)
  have hsettled : w.internetState = published (w.probes ++ [(up, w.clock)]).dropLast := by
    rw [List.dropLast_concat]
    exact hshown
  rw [ConnectivityMonitor.judge]
  dsimp only
  rw [hlen]
  cases up with
  | false =>
      by_cases hdown : w.internetState = .down
      · -- the outage goes on
        rw [if_neg (fun hc => hc.2 hdown), if_neg (fun hc => (by cases hc.1))]
        rw [hshown, published_eq_down] at hdown
        exact ⟨h.account.goes_on hdown, hsettled, hstored, hpast, hspaced⟩
      · -- an outage begins
        rw [if_pos ⟨rfl, hdown⟩]
        rw [hshown] at hdown
        exact ⟨h.account.begins (up_of_published hdown), hsettled, hstored, hpast, hspaced⟩
  | true =>
      rw [if_neg (fun hc => (by cases hc.1))]
      by_cases hdown : w.internetState = .down
      · -- it is over
        rw [if_pos ⟨rfl, hdown⟩]
        rw [hshown, published_eq_down] at hdown
        exact ⟨h.account.ends hdown, hsettled, hstored, hpast, hspaced⟩
      · -- there was none
        rw [if_neg (fun hc => hdown hc.2)]
        rw [hshown] at hdown
        exact ⟨h.account.fine (up_of_published hdown), hsettled, hstored, hpast, hspaced⟩

theorem Watched.wake {timedOut : Bool} {deadline : Nat} (h : Watched interval w)
    (hpc : w.pc = .waiting deadline) : Watched interval (wake timedOut deadline w) := by
  have hshown : w.internetState = published w.probes := by
    rw [h.shown, settled, hpc]
  have hpaced : ∀ x ∈ w.probes, x.2 + interval * kSecond ≤ deadline := by
    have := h.paced
    rw [Paced, hpc] at this
    exact this
  have hkeep : ∀ {pc : WatchPc} {notified : Bool}, (∀ up, pc ≠ .store up) →
      Paced interval { w with pc := pc, notified := notified } →
      Watched interval { w with pc := pc, notified := notified } := by
    intro pc notified hstore hp
    refine h.of_same rfl rfl rfl ?_ hstore hp
    show w.internetState = published (settled { w with pc := pc, notified := notified })
    rw [hshown, settled]
    cases pc <;> first | rfl | exact absurd rfl (hstore _)
  have hended : Watched interval { w with pc := .ended, notified := false } :=
    hkeep (fun up hup => (by cases hup)) trivial
  rw [ConnectivityMonitor.wake]
  split
  · split
    · -- the time is not up: `wait_for` does not return
      exact h
    · split
      · exact hended
      · -- the time is up, so that every probe is an interval ago
        rename_i htime _
        refine hkeep (fun up hup => (by cases hup)) fun x hx => ?_
        exact le_trans (hpaced x hx) (Nat.le_of_not_lt htime)
  · split
    · exact hended
    · -- woken with the flag down, it waits on
      refine h.of_same rfl rfl rfl ?_ ?_ ?_
      · exact h.shown
      · intro up hup
        rw [hpc] at hup
        cases hup
      · exact h.paced

theorem Watched.step (h : Watched interval w) (l : WatchLabel) :
    Watched interval (step interval w l) := by
  cases l with
  | elapse ns =>
      refine ⟨h.account, h.shown, h.stored, ?_, h.spaced⟩
      have hle : ∀ {a : Nat}, a ≤ w.clock → a ≤ w.clock + ns := fun h => Nat.le_add_right_of_le h
      have hp := h.paced
      rw [Paced] at hp
      show Paced interval { w with clock := w.clock + ns }
      rw [Paced]
      cases hpc : w.pc with
      | unborn => rw [hpc] at hp; exact hp
      | probe => rw [hpc] at hp; exact fun x hx => hle (hp x hx)
      | judge up => rw [hpc] at hp; exact fun x hx => hle (hp x hx)
      | store up => rw [hpc] at hp; exact fun x hx => hle (hp x hx)
      | enter => rw [hpc] at hp; exact fun x hx => hle (hp x hx)
      | waiting d => rw [hpc] at hp; exact hp
      | ended => trivial
  | start =>
      show Watched interval (if _ then _ else w)
      split
      · -- before the thread is there no probe has ended
        rename_i hc
        have hp := h.paced
        rw [Paced, hc.2] at hp
        have hshown := h.shown
        rw [settled, hc.2] at hshown
        refine h.of_same rfl rfl rfl hshown (fun up hup => (by cases hup)) fun x hx => ?_
        have hx' : x ∈ w.probes := hx
        rw [hp] at hx'
        cases hx'
      · exact h
  | stop =>
      show Watched interval (if _ then _ else w)
      split
      · exact ⟨h.account, h.shown, h.stored, h.paced, h.spaced⟩
      · exact h
  | notifyAll =>
      show Watched interval (if _ then _ else w)
      split
      · exact ⟨h.account, h.shown, h.stored, h.paced, h.spaced⟩
      · exact h
  | join =>
      show Watched interval (if _ then _ else w)
      split
      · exact ⟨h.account, h.shown, h.stored, h.paced, h.spaced⟩
      · exact h
  | probe tcpProbe =>
      show Watched interval (if _ then _ else w)
      split
      · rename_i hpc
        have hp := h.paced
        rw [Paced, hpc] at hp
        have hshown := h.shown
        rw [settled, hpc] at hshown
        exact h.of_same rfl rfl rfl hshown (fun up hup => (by cases hup)) hp
      · exact h
  | judge =>
      rw [ConnectivityMonitor.step]
      cases hpc : w.pc with
      | judge up => exact h.judge hpc
      | _ => exact h
  | store =>
      rw [ConnectivityMonitor.step]
      cases hpc : w.pc with
      | store up =>
          have hp := h.paced
          rw [Paced, hpc] at hp
          exact h.of_same rfl rfl rfl (published_of_said (h.stored up hpc)).symm
            (fun up hup => (by cases hup)) hp
      | _ => exact h
  | enter =>
      show Watched interval (if _ then _ else w)
      split
      · rename_i hpc
        have hp := h.paced
        rw [Paced, hpc] at hp
        have hshown := h.shown
        rw [settled, hpc] at hshown
        split
        · exact h.of_same rfl rfl rfl hshown (fun up hup => (by cases hup)) trivial
        · refine h.of_same rfl rfl rfl hshown (fun up hup => (by cases hup)) fun x hx => ?_
          exact Nat.add_le_add_right (hp x hx) _
      · exact h
  | wake timedOut =>
      rw [ConnectivityMonitor.step]
      cases hpc : w.pc with
      | waiting d => exact h.wake hpc
      | _ => exact h

theorem watched_run (interval : Nat) (ls : List WatchLabel) : Watched interval (run interval ls) := by
  have hfold : ∀ (ls : List WatchLabel) (w : ConnectivityMonitor), Watched interval w →
      Watched interval (ls.foldl (ConnectivityMonitor.step interval) w) := by
    intro ls
    induction ls with
    | nil => intro w hw; exact hw
    | cons l ls ih => intro w hw; exact ih _ (hw.step l)
  refine hfold ls {} ⟨⟨fun k => ?_, fun k secs => ?_, .nil, fun k hk => (by cases hk), ?_⟩, rfl,
    fun up hup => (by cases hup), rfl, .nil⟩
  · exact ⟨fun h => (by cases h), fun h => absurd h.1.lt (Nat.not_lt_zero k)⟩
  · refine ⟨fun h => (by cases h), ?_⟩
    rintro ⟨j, t, t', -, hj, -⟩
    cases hj
  · exact fun h => absurd h.lt (Nat.not_lt_zero _)

/-- **Outages logged.**  Whatever the order of the steps: the log has a CRITICAL line for the first
    probe of every outage and an INFO line for the first probe after it, with the whole seconds
    between the two, and no other; the published state is the result of the last probe once it is
    stored; probes are an interval apart. -/
theorem outages_logged (interval : Nat) (ls : List WatchLabel) :
    let w := run interval ls
    (∀ k, (k, .lost) ∈ w.log ↔ Starts w.probes k) ∧
    (∀ k secs, (k, .restored secs) ∈ w.log ↔ ∃ j t t', Outage w.probes j k ∧
      w.probes[j]? = some (false, t) ∧ w.probes[k]? = some (true, t') ∧
      secs = (t' - t) / kSecond) ∧
    (w.log.map Prod.fst).Pairwise (· < ·) ∧
    w.internetState = published w.settled ∧
    w.probes.Pairwise fun x y => x.2 + interval * kSecond ≤ y.2 := by
  intro w
  have h : Watched interval w := watched_run interval ls
  exact ⟨h.account.lost, h.account.restored, h.account.sorted, h.shown, h.spaced⟩

/-! ## Stopping -/

/-- How many steps of the thread are left once the flag is set. -/
def rank : WatchPc → Nat
  | .unborn => 5
  | .probe => 4
  | .judge _ => 3
  | .store _ => 2
  | .enter => 1
  | .waiting _ => 1
  | .ended => 0

/-- The thread's next step; it waits for no deadline. -/
def turn (tcpProbe : ProbeTarget → Bool) : WatchPc → WatchLabel
  | .unborn => .start
  | .probe => .probe tcpProbe
  | .judge _ => .judge
  | .store _ => .store
  | .enter => .enter
  | .waiting _ => .wake false
  | .ended => .join

/-- What holds of the flag, the owner and the thread.  The thread looks at the flag with the mutex
    held up to the moment it waits, so `awake` survives `enter`. -/
structure Flagged (w : ConnectivityMonitor) : Prop where
  raised : ∀ m, w.flagged = some m → w.stop = true ∧ w.probes.length ≤ m + 1
  early : ∀ m, w.flagged = some m → 3 ≤ rank w.pc → w.probes.length ≤ m
  awake : w.stop = true → w.owner ≠ .notify → ∀ d, w.pc = .waiting d → w.notified = true
  born : w.joinable = true → w.pc ≠ .unborn
  joining : w.owner = .join → w.joinable = true

/-- The thread takes a step and does not wait after it, unless the flag is down. -/
theorem Flagged.of_pc {pc : WatchPc} {notified : Bool} {state : NetState} (h : Flagged w)
    (hrank : rank pc ≤ rank w.pc) (hwait : w.stop = true → ∀ d, pc ≠ .waiting d)
    (hborn : pc ≠ .unborn) :
    Flagged { w with pc := pc, notified := notified, internetState := state } :=
  ⟨h.raised, fun m hm hr => h.early m hm (le_trans hr hrank),
    fun hs _ d hd => absurd hd (hwait hs d), fun _ => hborn, h.joining⟩

theorem Flagged.judge {up : Bool} (h : Flagged w) (hpc : w.pc = .judge up) :
    Flagged (judge up w) := by
  have hlen : ∀ m, w.flagged = some m → (w.probes ++ [(up, w.clock)]).length ≤ m + 1 := by
    intro m hm
    rw [List.length_append, List.length_singleton]
    exact Nat.succ_le_succ (h.early m hm (by rw [hpc]; exact le_refl _))
  have hnext : ∀ {log : List (Nat × NetEvent)} {since : Nat}, Flagged { w with
      pc := .store up, probes := w.probes ++ [(up, w.clock)], log := log, downSince := since } := by
    intro log since
    refine ⟨fun m hm => ⟨(h.raised m hm).1, hlen m hm⟩, fun m _ hr => ?_, fun _ _ d hd => ?_,
      fun _ hp => ?_, h.joining⟩
    · exact absurd (show 3 ≤ 2 from hr) (by omega)
    · cases hd
    · cases hp
  rw [ConnectivityMonitor.judge]
  dsimp only
  split
  · exact hnext
  · split
    · exact hnext
    · exact hnext

theorem Flagged.wake {timedOut : Bool} {deadline : Nat} (h : Flagged w) :
    Flagged (wake timedOut deadline w) := by
  have hended : Flagged { w with pc := .ended, notified := false } :=
    h.of_pc (Nat.zero_le _) (fun _ d hd => (by cases hd)) (fun hp => (by cases hp))
  rw [ConnectivityMonitor.wake]
  split
  · split
    · exact h
    · split
      · exact hended
      · rename_i hs
        refine ⟨h.raised, fun m hm => absurd (h.raised m hm).1 hs, fun hs' => absurd hs' hs,
          fun _ hp => (by cases hp), h.joining⟩
  · split
    · exact hended
    · rename_i hs
      exact ⟨h.raised, h.early, fun hs' => absurd hs' hs, h.born, h.joining⟩

theorem Flagged.step (h : Flagged w) (l : WatchLabel) : Flagged (step interval w l) := by
  cases l with
  | elapse ns => exact ⟨h.raised, h.early, h.awake, h.born, h.joining⟩
  | start =>
      show Flagged (if _ then _ else w)
      split
      · rename_i hc
        refine ⟨h.raised, fun m hm _ => h.early m hm (by rw [hc.2]; decide),
          fun _ _ d hd => (by cases hd), fun _ hp => (by cases hp), fun _ => rfl⟩
      · exact h
  | stop =>
      show Flagged (if _ then _ else w)
      split
      · refine ⟨fun m hm => ⟨rfl, ?_⟩, fun m hm hr => ?_, fun _ hn => absurd rfl hn, h.born,
          fun hj => (by cases hj)⟩
        · -- what counts is the first `stop`: the flag may have been up
          have hm' : w.flagged.getD w.probes.length = m := Option.some.inj hm
          show w.probes.length ≤ m + 1
          cases hf : w.flagged with
          | none =>
              rw [hf, Option.getD_none] at hm'
              omega
          | some k =>
              rw [hf, Option.getD_some] at hm'
              exact hm' ▸ (h.raised k hf).2
        · have hm' : w.flagged.getD w.probes.length = m := Option.some.inj hm
          show w.probes.length ≤ m
          cases hf : w.flagged with
          | none =>
              rw [hf, Option.getD_none] at hm'
              omega
          | some k =>
              rw [hf, Option.getD_some] at hm'
              exact hm' ▸ h.early k hf hr
      · exact h
  | notifyAll =>
      show Flagged (if _ then _ else w)
      split
      · refine ⟨h.raised, h.early, fun _ _ _ _ => rfl, h.born, fun hj => ?_⟩
        show w.joinable = true
        by_contra hjoin
        have : (if w.joinable then OwnerPc.join else .out) = .join := hj
        rw [if_neg hjoin] at this
        cases this
      · exact h
  | join =>
      show Flagged (if _ then _ else w)
      split
      · -- `join` returns only when the thread is at its end
        rename_i hc
        refine ⟨h.raised, h.early, fun _ _ d hd => ?_, fun hj => (by cases hj),
          fun hj => (by cases hj)⟩
        have hd' : w.pc = .waiting d := hd
        rw [hc.2] at hd'
        cases hd'
      · exact h
  | probe tcpProbe =>
      show Flagged (if _ then _ else w)
      split
      · rename_i hpc
        exact h.of_pc (by rw [hpc]; exact Nat.le_succ 3) (fun _ d hd => (by cases hd))
          (fun hp => (by cases hp))
      · exact h
  | judge =>
      rw [ConnectivityMonitor.step]
      cases hpc : w.pc with
      | judge up => exact h.judge hpc
      | _ => exact h
  | store =>
      rw [ConnectivityMonitor.step]
      cases hpc : w.pc with
      | store up =>
          exact h.of_pc (by rw [hpc]; exact Nat.le_succ 1) (fun _ d hd => (by cases hd))
            (fun hp => (by cases hp))
      | _ => exact h
  | enter =>
      show Flagged (if _ then _ else w)
      split
      · rename_i hpc
        split
        · exact h.of_pc (Nat.zero_le _) (fun _ d hd => (by cases hd)) (fun hp => (by cases hp))
        · rename_i hs
          exact h.of_pc (by rw [hpc]; exact le_refl _) (fun hs' => absurd hs' hs)
            (fun hp => (by cases hp))
      · exact h
  | wake timedOut =>
      rw [ConnectivityMonitor.step]
      cases hpc : w.pc with
      | waiting d => exact h.wake
      | _ => exact h

theorem flagged_run (interval : Nat) (ls : List WatchLabel) : Flagged (run interval ls) := by
  have hfold : ∀ (ls : List WatchLabel) (w : ConnectivityMonitor), Flagged w →
      Flagged (ls.foldl (ConnectivityMonitor.step interval) w) := by
    intro ls
    induction ls with
    | nil => intro w hw; exact hw
    | cons l ls ih => intro w hw; exact ih _ (hw.step l)
  exact hfold ls {} ⟨fun m hm => (by cases hm), fun m hm => (by cases hm), fun hs => (by cases hs),
    fun hj => (by cases hj), fun hj => (by cases hj)⟩

/-- With the flag up no step takes the thread back. -/
theorem rank_step_le (hs : w.stop = true) (l : WatchLabel) :
    rank (step interval w l).pc ≤ rank w.pc := by
  cases l with
  | elapse ns => exact le_refl _
  | start =>
      show rank (if _ then _ else w : ConnectivityMonitor).pc ≤ _
      split
      · rename_i hc
        rw [hc.2]
        exact Nat.le_succ 4
      · exact le_refl _
  | stop =>
      show rank (if _ then _ else w : ConnectivityMonitor).pc ≤ _
      split <;> exact le_refl _
  | notifyAll =>
      show rank (if _ then _ else w : ConnectivityMonitor).pc ≤ _
      split <;> exact le_refl _
  | join =>
      show rank (if _ then _ else w : ConnectivityMonitor).pc ≤ _
      split <;> exact le_refl _
  | probe tcpProbe =>
      show rank (if _ then _ else w : ConnectivityMonitor).pc ≤ _
      split
      · rename_i hpc
        rw [hpc]
        exact Nat.le_succ 3
      · exact le_refl _
  | judge =>
      rw [ConnectivityMonitor.step]
      cases hpc : w.pc with
      | judge up =>
          dsimp only
          rw [ConnectivityMonitor.judge]
          dsimp only
          split
          · exact Nat.le_succ 2
          · split <;> exact Nat.le_succ 2
      | _ => exact le_of_eq (congrArg rank hpc)
  | store =>
      rw [ConnectivityMonitor.step]
      cases hpc : w.pc with
      | store up => exact Nat.le_succ 1
      | _ => exact le_of_eq (congrArg rank hpc)
  | enter =>
      show rank (if _ then _ else w : ConnectivityMonitor).pc ≤ _
      rw [hs, if_pos rfl]
      split <;> first | exact Nat.zero_le _ | exact le_refl _
  | wake timedOut =>
      rw [ConnectivityMonitor.step]
      cases hpc : w.pc with
      | waiting d =>
          dsimp only
          rw [ConnectivityMonitor.wake, hs, if_pos rfl, if_pos rfl]
          split
          · split
            · exact le_of_eq (congrArg rank hpc)
            · exact Nat.zero_le _
          · exact Nat.zero_le _
      | _ => exact le_of_eq (congrArg rank hpc)

theorem rank_turn_lt (hs : w.stop = true) (hunborn : w.pc ≠ .unborn) (hended : w.pc ≠ .ended)
    (tcpProbe : ProbeTarget → Bool) :
    rank (step interval w (turn tcpProbe w.pc)).pc < rank w.pc := by
  cases hpc : w.pc with
  | unborn => exact absurd hpc hunborn
  | ended => exact absurd hpc hended
  | probe =>
      rw [turn, ConnectivityMonitor.step, if_pos hpc]
      exact Nat.lt_succ_self 3
  | judge up =>
      rw [turn, ConnectivityMonitor.step, hpc]
      dsimp only
      rw [ConnectivityMonitor.judge]
      dsimp only
      split
      · exact Nat.lt_succ_self 2
      · split <;> exact Nat.lt_succ_self 2
  | store up =>
      rw [turn, ConnectivityMonitor.step, hpc]
      exact Nat.lt_succ_self 1
  | enter =>
      rw [turn, ConnectivityMonitor.step, if_pos hpc, if_pos hs]
      exact Nat.zero_lt_one
  | waiting d =>
      rw [turn, ConnectivityMonitor.step, hpc]
      dsimp only
      rw [ConnectivityMonitor.wake, if_neg Bool.false_ne_true, if_pos hs]
      exact Nat.zero_lt_one

theorem step_ended (hpc : w.pc = .ended) (l : WatchLabel) :
    (step interval w l).pc = .ended ∧ (step interval w l).log = w.log ∧
      (step interval w l).internetState = w.internetState := by
  cases l with
  | elapse ns => exact ⟨hpc, rfl, rfl⟩
  | start =>
      have hstep : step interval w .start = w := if_neg fun hc => by
        rw [hpc] at hc
        cases hc.2
      rw [hstep]
      exact ⟨hpc, rfl, rfl⟩
  | stop =>
      rw [ConnectivityMonitor.step]
      split <;> exact ⟨hpc, rfl, rfl⟩
  | notifyAll =>
      rw [ConnectivityMonitor.step]
      split <;> exact ⟨hpc, rfl, rfl⟩
  | join =>
      rw [ConnectivityMonitor.step]
      split <;> exact ⟨hpc, rfl, rfl⟩
  | probe tcpProbe =>
      rw [ConnectivityMonitor.step, hpc]
      exact ⟨hpc, rfl, rfl⟩
  | enter =>
      rw [ConnectivityMonitor.step, hpc]
      exact ⟨hpc, rfl, rfl⟩
  | judge =>
      rw [ConnectivityMonitor.step, hpc]
      exact ⟨hpc, rfl, rfl⟩
  | store =>
      rw [ConnectivityMonitor.step, hpc]
      exact ⟨hpc, rfl, rfl⟩
  | wake timedOut =>
      rw [ConnectivityMonitor.step, hpc]
      exact ⟨hpc, rfl, rfl⟩

theorem run_ended (hpc : w.pc = .ended) (ls : List WatchLabel) :
    (ls.foldl (step interval) w).pc = .ended ∧ (ls.foldl (step interval) w).log = w.log ∧
      (ls.foldl (step interval) w).internetState = w.internetState := by
  induction ls generalizing w with
  | nil => exact ⟨hpc, rfl, rfl⟩
  | cons l ls ih =>
      have hstep : (step interval w l).pc = .ended ∧ (step interval w l).log = w.log ∧
          (step interval w l).internetState = w.internetState := step_ended hpc l
      obtain ⟨hpc', hlog, hstate⟩ := hstep
      obtain ⟨h1, h2, h3⟩ := ih hpc'
      exact ⟨h1, h2.trans hlog, h3.trans hstate⟩

/-- **The watch stops.**  Whatever the order of the steps: at most one probe ends after `stop` has
    set the flag; once `stop` has notified, the thread does not sleep on; it then goes only
    forward, each of its own steps brings it nearer to its end, and no deadline is needed; nothing
    is logged or published after the end, which is when `join` returns. -/
theorem watch_stops (interval : Nat) (ls : List WatchLabel) :
    let w := run interval ls
    (∀ m, w.flagged = some m → w.probes.length ≤ m + 1) ∧
    (w.stop = true → w.owner ≠ .notify → ∀ d, w.pc = .waiting d → w.notified = true) ∧
    (w.stop = true → ∀ l, rank (step interval w l).pc ≤ rank w.pc) ∧
    (w.owner = .join → w.pc ≠ .unborn) ∧
    (w.stop = true → w.pc ≠ .unborn → w.pc ≠ .ended → ∀ tcpProbe,
      rank (step interval w (turn tcpProbe w.pc)).pc < rank w.pc) ∧
    (w.pc = .ended → ∀ ls', (run interval (ls ++ ls')).pc = .ended ∧
      (run interval (ls ++ ls')).log = w.log ∧
      (run interval (ls ++ ls')).internetState = w.internetState) := by
  intro w
  have h : Flagged w := flagged_run interval ls
  refine ⟨fun m hm => (h.raised m hm).2, h.awake, rank_step_le, fun hj => h.born (h.joining hj),
    rank_turn_lt, fun hended ls' => ?_⟩
  rw [run, List.foldl_append]
  exact run_ended hended ls'

end ConnectivityMonitor

end CastlePlus
