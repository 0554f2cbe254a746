import CastlePlus.TokenBucket
import Mathlib.Data.Rat.Defs
import Mathlib.Algebra.Order.Ring.Rat
import Mathlib.Tactic.NormNum

/-! # The per-IP rate limiter

    `RateLimiter::allow` and its helpers (`gateway/rate_limiter.cpp`), with the
    token arithmetic over the rationals.  Every call brings the time sample it
    took before it got the mutex; a list of calls is in the order in which the
    mutex was taken.

    * `allow_step` is the one case analysis of a call: an own bucket, a fresh
      one, or `overflow_`;
    * `own_run` relates the bounded, pruned table to one private bucket per IP;
    * admission and isolation follow from it. -/

namespace CastlePlus

open TokenBucket

structure RateLimiter where
  rate : ℚ
  burst : ℚ
  buckets : Std.HashMap UInt32 (Bucket ℚ)
  overflow : Bucket ℚ

namespace RateLimiter

def kMaxBuckets : Nat := 100000

/-- The constructor, at time `now`. -/
def create (rate burst now : ℚ) : RateLimiter :=
  { rate, burst, buckets := ∅, overflow := ⟨burst, now⟩ }

def spend (l : RateLimiter) (b : Bucket ℚ) (now : ℚ) : Bool × Bucket ℚ :=
  TokenBucket.spend l.rate l.burst b now

def pruneLocked (now : ℚ) (l : RateLimiter) : RateLimiter :=
  { l with buckets := l.buckets.filter fun _ b =>
      !decide (l.burst ≤ b.tokens + (now - b.last) * l.rate) }

/-- The first of the two size checks on an unknown IP. -/
def makeRoom (now : ℚ) (l : RateLimiter) : RateLimiter :=
  if kMaxBuckets ≤ l.buckets.size then pruneLocked now l else l

def allow (l : RateLimiter) (ipv4 : UInt32) (now : ℚ) : Bool × RateLimiter :=
  match l.buckets[ipv4]? with
  | none =>
      let l := makeRoom now l
      if kMaxBuckets ≤ l.buckets.size then
        let (ok, b) := l.spend l.overflow now
        (ok, { l with overflow := b })
      else
        (true, { l with buckets := l.buckets.insert ipv4 ⟨l.burst - 1, now⟩ })
  | some b =>
      let (ok, b) := l.spend b now
      (ok, { l with buckets := l.buckets.insert ipv4 b })

/-- The call runs `prune_locked`. -/
def prunes (l : RateLimiter) (ipv4 : UInt32) : Bool :=
  l.buckets[ipv4]?.isNone && decide (kMaxBuckets ≤ l.buckets.size)

/-- The call is charged to `overflow_`: the IP has no bucket and the table is
    full even after pruning. -/
def overflows (l : RateLimiter) (ipv4 : UInt32) (now : ℚ) : Bool :=
  l.buckets[ipv4]?.isNone && decide (kMaxBuckets ≤ (makeRoom now l).buckets.size)

/-! ## Sequences of calls -/

structure Call where
  ipv4 : UInt32
  now : ℚ

structure Outcome where
  ipv4 : UInt32
  now : ℚ
  own : Bool
  admitted : Bool

def outcomes : RateLimiter → List Call → List Outcome
  | _, [] => []
  | l, c :: cs =>
      ⟨c.ipv4, c.now, !l.overflows c.ipv4 c.now, (l.allow c.ipv4 c.now).1⟩ ::
        outcomes (l.allow c.ipv4 c.now).2 cs

def after (l : RateLimiter) (cs : List Call) : RateLimiter :=
  cs.foldl (fun l c => (l.allow c.ipv4 c.now).2) l

/-- No call of the sequence runs `prune_locked`. -/
def NoPrune : RateLimiter → List Call → Prop
  | _, [] => True
  | l, c :: cs => l.prunes c.ipv4 = false ∧ NoPrune (l.allow c.ipv4 c.now).2 cs

/-- The time samples never decrease, in the order the mutex is taken. -/
def Sorted (cs : List Call) : Prop := (cs.map (·.now)).Pairwise (· ≤ ·)

/-- The calls of one IP admitted from its own bucket in `[a, a + T]`. -/
def ownAdmitted (x : UInt32) (a T : ℚ) (o : Outcome) : Bool :=
  o.ipv4 == x && o.own && servedIn a T (o.now, o.admitted)

/-- The calls admitted from `overflow_` in `[a, a + T]`. -/
def overflowAdmitted (a T : ℚ) (o : Outcome) : Bool :=
  !o.own && servedIn a T (o.now, o.admitted)

/-! ## One call -/

variable {l : RateLimiter} {x ip : UInt32} {now : ℚ}

@[simp] theorem makeRoom_rate : (makeRoom now l).rate = l.rate := by
  rw [makeRoom]
  split <;> rfl

@[simp] theorem makeRoom_burst : (makeRoom now l).burst = l.burst := by
  rw [makeRoom]
  split <;> rfl

@[simp] theorem makeRoom_overflow : (makeRoom now l).overflow = l.overflow := by
  rw [makeRoom]
  split <;> rfl

/-- Pruning keeps a bucket as it is or drops it, and it drops full ones only. -/
theorem makeRoom_lookup (l : RateLimiter) (x : UInt32) (now : ℚ) :
    (makeRoom now l).buckets[x]? = l.buckets[x]? ∨
      kMaxBuckets ≤ l.buckets.size ∧ (makeRoom now l).buckets[x]? = none ∧
        ∃ b, l.buckets[x]? = some b ∧ Full l.rate l.burst b now := by
  rw [makeRoom]
  split
  · rename_i hsize
    rw [pruneLocked]
    dsimp only
    rw [Std.HashMap.getElem?_filter']
    cases hb : l.buckets[x]? with
    | none => exact .inl rfl
    | some b =>
        by_cases hfull : Full l.rate l.burst b now
        · right
          refine ⟨hsize, ?_, b, rfl, hfull⟩
          rw [Option.filter_some, if_neg (by simpa [Full] using hfull)]
        · left
          rw [Option.filter_some, if_pos (by simpa [Full] using hfull)]
  · exact .inl rfl

/-- What one call can do. -/
theorem allow_cases (l : RateLimiter) (ip : UInt32) (now : ℚ) :
    (∃ b, l.buckets[ip]? = some b ∧ l.overflows ip now = false ∧
      l.allow ip now = ((l.spend b now).1,
        { l with buckets := l.buckets.insert ip (l.spend b now).2 })) ∨
    (l.buckets[ip]? = none ∧ l.overflows ip now = false ∧
      (makeRoom now l).buckets.size < kMaxBuckets ∧
      l.allow ip now = (true, { makeRoom now l with
        buckets := (makeRoom now l).buckets.insert ip ⟨l.burst - 1, now⟩ })) ∨
    (l.buckets[ip]? = none ∧ l.overflows ip now = true ∧
      l.allow ip now = ((l.spend l.overflow now).1,
        { makeRoom now l with overflow := (l.spend l.overflow now).2 })) := by
  rw [allow, overflows]
  cases hb : l.buckets[ip]? with
  | some b => exact .inl ⟨b, rfl, rfl, rfl⟩
  | none =>
      right
      by_cases hsize : kMaxBuckets ≤ (makeRoom now l).buckets.size
      · right
        refine ⟨rfl, by simp [hsize], ?_⟩
        dsimp only
        rw [if_pos hsize]
        simp [spend]
      · left
        refine ⟨rfl, by simp [hsize], by omega, ?_⟩
        dsimp only
        rw [if_neg hsize]
        simp

theorem allow_rate (l : RateLimiter) (ip : UInt32) (now : ℚ) :
    (l.allow ip now).2.rate = l.rate ∧ (l.allow ip now).2.burst = l.burst := by
  rcases allow_cases l ip now with ⟨b, -, -, h⟩ | ⟨-, -, -, h⟩ | ⟨-, -, h⟩ <;> rw [h] <;> simp

theorem after_cons (l : RateLimiter) (c : Call) (cs : List Call) :
    after l (c :: cs) = after (l.allow c.ipv4 c.now).2 cs := rfl

theorem size_allow (l : RateLimiter) (ip : UInt32) (now : ℚ)
    (h : l.buckets.size ≤ kMaxBuckets) : (l.allow ip now).2.buckets.size ≤ kMaxBuckets := by
  rcases allow_cases l ip now with ⟨b, hb, -, heq⟩ | ⟨-, -, hroom, heq⟩ | ⟨-, -, heq⟩
  · rw [heq]
    dsimp only
    have hmem : ip ∈ l.buckets := Std.HashMap.mem_iff_isSome_getElem?.mpr (by rw [hb]; rfl)
    rw [Std.HashMap.size_insert, if_pos hmem]
    exact h
  · rw [heq]
    dsimp only
    have hle := Std.HashMap.size_insert_le (m := (makeRoom now l).buckets) (k := ip)
      (v := (⟨l.burst - 1, now⟩ : Bucket ℚ))
    omega
  · rw [heq]
    show (makeRoom now l).buckets.size ≤ kMaxBuckets
    rw [makeRoom]
    split
    · have hle : (pruneLocked now l).buckets.size ≤ l.buckets.size :=
        Std.HashMap.size_filter_le_size
      omega
    · exact h

theorem size_after (cs : List Call) : ∀ l : RateLimiter, l.buckets.size ≤ kMaxBuckets →
    (after l cs).buckets.size ≤ kMaxBuckets := by
  induction cs with
  | nil => intro l h; exact h
  | cons c cs ih =>
      intro l h
      rw [after_cons]
      exact ih _ (size_allow l c.ipv4 c.now h)

/-! ## The table and the private buckets -/

/-- The calls of `x` charged to its own bucket, with their decisions. -/
def ownCalls (x : UInt32) (os : List Outcome) : List (ℚ × Bool) :=
  (os.filter fun o => o.ipv4 == x && o.own).map fun o => (o.now, o.admitted)

/-- The calls charged to `overflow_`, with their decisions. -/
def overflowCalls (os : List Outcome) : List (ℚ × Bool) :=
  (os.filter fun o => !o.own).map fun o => (o.now, o.admitted)

theorem outcomes_cons (l : RateLimiter) (c : Call) (cs : List Call) :
    outcomes l (c :: cs) =
      ⟨c.ipv4, c.now, !l.overflows c.ipv4 c.now, (l.allow c.ipv4 c.now).1⟩ ::
        outcomes (l.allow c.ipv4 c.now).2 cs := rfl

theorem ownCalls_cons (x : UInt32) (o : Outcome) (os : List Outcome) :
    ownCalls x (o :: os) =
      if o.ipv4 = x ∧ o.own = true then (o.now, o.admitted) :: ownCalls x os
      else ownCalls x os := by
  unfold ownCalls
  by_cases h : o.ipv4 = x ∧ o.own = true
  · rw [if_pos h, List.filter_cons_of_pos (by simp [h.1, h.2]), List.map_cons]
  · rw [if_neg h, List.filter_cons_of_neg (by simpa using h)]

theorem overflowCalls_cons (o : Outcome) (os : List Outcome) :
    overflowCalls (o :: os) =
      if o.own = false then (o.now, o.admitted) :: overflowCalls os else overflowCalls os := by
  unfold overflowCalls
  by_cases h : o.own = false
  · rw [if_pos h, List.filter_cons_of_pos (by simp [h]), List.map_cons]
  · rw [if_neg h, List.filter_cons_of_neg (by simpa using h)]

/-- `o` is what a private bucket of `x` would be: the one in the table, or, when
    there is none, one that is full at all the calls still to come. -/
def Tracks (l : RateLimiter) (x : UInt32) (o : Option (Bucket ℚ)) (cs : List Call) : Prop :=
  (∀ b, l.buckets[x]? = some b → o = some b) ∧
  (l.buckets[x]? = none → o = none ∨
    ∃ b, o = some b ∧ Sorted cs ∧ ∀ c ∈ cs, Full l.rate l.burst b c.now)

theorem Sorted.tail {c : Call} {cs : List Call} (h : Sorted (c :: cs)) : Sorted cs :=
  (List.pairwise_cons.mp h).2

theorem Sorted.head_le {c : Call} {cs : List Call} (h : Sorted (c :: cs)) :
    ∀ d ∈ cs, c.now ≤ d.now := by
  intro d hd
  exact (List.pairwise_cons.mp h).1 d.now (List.mem_map_of_mem hd)

/-- A call leaves the table of another IP alone, or drops a full bucket. -/
theorem Tracks.makeRoom {o : Option (Bucket ℚ)} {c : Call} {cs : List Call}
    (hrate : 0 ≤ l.rate) (h : Tracks l x o (c :: cs))
    (hok : Sorted (c :: cs) ∨ l.prunes c.ipv4 = false) (hnone : l.buckets[c.ipv4]? = none) :
    Tracks (makeRoom c.now l) x o cs := by
  rcases makeRoom_lookup l x c.now with heq | ⟨hsize, hgone, b, hb, hfull⟩
  · refine ⟨fun b hb => h.1 b (heq ▸ hb), fun hn => ?_⟩
    rcases h.2 (heq ▸ hn) with ho | ⟨b, ho, hs, hfull⟩
    · exact .inl ho
    · refine .inr ⟨b, ho, hs.tail, fun d hd => ?_⟩
      rw [makeRoom_rate, makeRoom_burst]
      exact hfull d (List.mem_cons_of_mem _ hd)
  · refine ⟨fun b hb => absurd (hgone.symm.trans hb) (by simp), fun _ => .inr ?_⟩
    rcases hok with hs | hp
    · refine ⟨b, h.1 b hb, hs.tail, fun d hd => ?_⟩
      rw [makeRoom_rate, makeRoom_burst]
      exact hfull.later hrate (hs.head_le d hd)
    · rw [prunes, hnone] at hp
      simp [hsize] at hp

theorem Tracks.insert {o : Option (Bucket ℚ)} {cs : List Call} (h : Tracks l x o cs)
    (ip : UInt32) (b : Bucket ℚ) :
    Tracks { l with buckets := l.buckets.insert ip b } x (if ip = x then some b else o) cs := by
  rw [Tracks]
  dsimp only
  rw [Std.HashMap.getElem?_insert]
  by_cases hx : ip = x
  · rw [if_pos (by simpa using hx), if_pos hx]
    exact ⟨fun b' hb' => hb', fun hn => absurd hn (by simp)⟩
  · rw [if_neg (by simpa using hx), if_neg hx]
    exact h

/-- A fresh bucket, and an old one that is full, serve alike. -/
theorem Tracks.fresh {o : Option (Bucket ℚ)} {c : Call} {cs : List Call}
    (hburst : 1 ≤ l.burst) (h : Tracks l c.ipv4 o (c :: cs))
    (hnone : l.buckets[c.ipv4]? = none) :
    serve l.rate l.burst o c.now = (true, ⟨l.burst - 1, c.now⟩) := by
  rcases h.2 hnone with rfl | ⟨b, rfl, -, hfull⟩
  · rfl
  · exact spend_of_full hburst (hfull c (List.mem_cons_self ..))

/-- One call and the private bucket of `x`: a call of `x` charged to its own
    bucket is decided as the private bucket decides it, every other call leaves
    the private bucket as it is. -/
theorem Tracks.step {o : Option (Bucket ℚ)} {c : Call} {cs : List Call}
    (hrate : 0 ≤ l.rate) (hburst : 1 ≤ l.burst) (h : Tracks l x o (c :: cs))
    (hok : Sorted (c :: cs) ∨ l.prunes c.ipv4 = false) :
    if c.ipv4 = x ∧ l.overflows c.ipv4 c.now = false then
      (l.allow c.ipv4 c.now).1 = (serve l.rate l.burst o c.now).1 ∧
        Tracks (l.allow c.ipv4 c.now).2 x (some (serve l.rate l.burst o c.now).2) cs
    else Tracks (l.allow c.ipv4 c.now).2 x o cs := by
  have hweak : Tracks l x o cs := by
    refine ⟨h.1, fun hn => ?_⟩
    rcases h.2 hn with ho | ⟨b, ho, hs, hfull⟩
    · exact .inl ho
    · exact .inr ⟨b, ho, hs.tail, fun d hd => hfull d (List.mem_cons_of_mem _ hd)⟩
  rcases allow_cases l c.ipv4 c.now with ⟨b, hb, hov, heq⟩ | ⟨hb, hov, -, heq⟩ | ⟨hb, hov, heq⟩
  · -- the bucket in the table
    rw [heq, hov]
    have hins := hweak.insert c.ipv4 (l.spend b c.now).2
    by_cases hx : c.ipv4 = x
    · rw [if_pos ⟨hx, rfl⟩]
      rw [if_pos hx] at hins
      subst hx
      rw [h.1 b hb]
      exact ⟨rfl, hins⟩
    · rw [if_neg fun hh => hx hh.1]
      rw [if_neg hx] at hins
      exact hins
  · -- a fresh bucket
    rw [heq, hov]
    have hins := (h.makeRoom hrate hok hb).insert c.ipv4 ⟨l.burst - 1, c.now⟩
    by_cases hx : c.ipv4 = x
    · rw [if_pos ⟨hx, rfl⟩]
      rw [if_pos hx] at hins
      subst hx
      rw [h.fresh hburst hb]
      exact ⟨rfl, hins⟩
    · rw [if_neg fun hh => hx hh.1]
      rw [if_neg hx] at hins
      exact hins
  · -- the shared bucket
    rw [heq, hov, if_neg fun hh => absurd hh.2 (by simp)]
    exact h.makeRoom hrate hok hb

/-- **The table refines one private bucket per IP**: the calls of `x` charged to
    its own bucket are decided as a private bucket of `x`, driven by these calls
    alone, decides them, however often the table dropped and re-created it. -/
theorem own_run (x : UInt32) (cs : List Call) : ∀ (l : RateLimiter) (o : Option (Bucket ℚ)),
    0 ≤ l.rate → 1 ≤ l.burst → Tracks l x o cs → Sorted cs ∨ NoPrune l cs →
    ownCalls x (outcomes l cs) =
      serveAll l.rate l.burst o ((ownCalls x (outcomes l cs)).map Prod.fst) := by
  induction cs with
  | nil => intro l o _ _ _ _; rfl
  | cons c cs ih =>
      intro l o hrate hburst ht hok
      have hstep := ht.step hrate hburst (hok.imp_right And.left)
      have hok' : Sorted cs ∨ NoPrune (l.allow c.ipv4 c.now).2 cs := hok.imp Sorted.tail And.right
      obtain ⟨hr, hb⟩ := allow_rate l c.ipv4 c.now
      by_cases hown : c.ipv4 = x ∧ l.overflows c.ipv4 c.now = false
      · rw [if_pos hown] at hstep
        have ih' := ih (l.allow c.ipv4 c.now).2 _ (by rw [hr]; exact hrate)
          (by rw [hb]; exact hburst) hstep.2 hok'
        rw [hr, hb] at ih'
        rw [outcomes_cons, ownCalls_cons, if_pos ⟨hown.1, by simp [hown.2]⟩, hstep.1,
          List.map_cons]
        exact congrArg _ ih'
      · rw [if_neg hown] at hstep
        have ih' := ih (l.allow c.ipv4 c.now).2 _ (by rw [hr]; exact hrate)
          (by rw [hb]; exact hburst) hstep hok'
        rw [hr, hb] at ih'
        rw [outcomes_cons, ownCalls_cons, if_neg (by simpa using hown)]
        exact ih'

/-- `overflow_` is one bucket, driven by the calls charged to it. -/
theorem overflow_run (cs : List Call) : ∀ l : RateLimiter,
    overflowCalls (outcomes l cs) =
      serveAll l.rate l.burst (some l.overflow) ((overflowCalls (outcomes l cs)).map Prod.fst) := by
  induction cs with
  | nil => intro l; rfl
  | cons c cs ih =>
      intro l
      have ih' := ih (l.allow c.ipv4 c.now).2
      obtain ⟨hr, hb⟩ := allow_rate l c.ipv4 c.now
      rw [hr, hb] at ih'
      by_cases hov : l.overflows c.ipv4 c.now = true
      · rw [outcomes_cons, overflowCalls_cons, if_pos (by simp [hov]), List.map_cons]
        rcases allow_cases l c.ipv4 c.now with ⟨b, -, hno, -⟩ | ⟨-, hno, -, -⟩ | ⟨-, -, heq⟩
        · exact absurd (hno.symm.trans hov) (by simp)
        · exact absurd (hno.symm.trans hov) (by simp)
        · rw [heq] at ih' ⊢
          exact congrArg _ ih'
      · have hsame : (l.allow c.ipv4 c.now).2.overflow = l.overflow := by
          rcases allow_cases l c.ipv4 c.now with ⟨b, -, -, heq⟩ | ⟨-, -, -, heq⟩ | ⟨-, hyes, -⟩
          · rw [heq]
          · rw [heq]
            exact makeRoom_overflow
          · exact absurd hyes hov
        rw [hsame] at ih'
        rw [outcomes_cons, overflowCalls_cons, if_neg (by simpa using hov)]
        exact ih'

theorem countP_ownAdmitted (x : UInt32) (a T : ℚ) (os : List Outcome) :
    os.countP (ownAdmitted x a T) = (ownCalls x os).countP (servedIn a T) := by
  rw [ownCalls]
  rw [List.countP_map, List.countP_filter]
  refine List.countP_congr fun o _ => ?_
  simp only [ownAdmitted, Function.comp_apply, Bool.and_eq_true]
  tauto

theorem countP_overflowAdmitted (a T : ℚ) (os : List Outcome) :
    os.countP (overflowAdmitted a T) = (overflowCalls os).countP (servedIn a T) := by
  rw [overflowCalls]
  rw [List.countP_map, List.countP_filter]
  refine List.countP_congr fun o _ => ?_
  simp only [overflowAdmitted, Function.comp_apply, Bool.and_eq_true]
  tauto

theorem tracks_create (rate burst t₀ : ℚ) (x : UInt32) (cs : List Call) :
    Tracks (create rate burst t₀) x none cs := by
  refine ⟨fun b hb => ?_, fun _ => .inl rfl⟩
  rw [show (create rate burst t₀).buckets[x]? = none from Std.HashMap.getElem?_empty] at hb
  cases hb

/-! ## Admission -/

/-- In any window of length `T` an IP is admitted at most `burst + rate * T`
    times from its own bucket, over all incarnations of the bucket, and all IPs
    together as often from `overflow_`; the samples may come out of order as
    long as no prune runs.  The table never holds more than `kMaxBuckets`. -/
theorem admission_bound (rate burst t₀ : ℚ) (hrate : 0 < rate) (hburst : 1 ≤ burst)
    (cs : List Call) :
    (Sorted cs ∨ NoPrune (create rate burst t₀) cs → ∀ a T : ℚ, 0 ≤ T →
      (∀ x, ((outcomes (create rate burst t₀) cs).countP (ownAdmitted x a T) : ℚ)
        ≤ burst + rate * T) ∧
      ((outcomes (create rate burst t₀) cs).countP (overflowAdmitted a T) : ℚ)
        ≤ burst + rate * T) ∧
    ∀ n, (after (create rate burst t₀) (cs.take n)).buckets.size ≤ kMaxBuckets := by
  refine ⟨fun hok a T hT => ⟨fun x => ?_, ?_⟩, fun n => ?_⟩
  · rw [countP_ownAdmitted, own_run x cs (create rate burst t₀) none hrate.le hburst
      (tracks_create rate burst t₀ x cs) hok]
    exact served_le hrate.le hburst hT _ _
  · rw [countP_overflowAdmitted, overflow_run]
    exact served_le hrate.le hburst hT _ _
  · refine size_after _ _ ?_
    rw [show (create rate burst t₀).buckets.size = 0 from Std.HashMap.size_empty]
    exact Nat.zero_le _

theorem admission_bound_second :
    ((outcomes (create 1 2 0) [⟨7, 0⟩, ⟨7, 0⟩, ⟨7, 0⟩, ⟨7, 1⟩]).countP
      (ownAdmitted 7 0 1) : ℚ) ≤ 2 + 1 * 1 :=
  (((admission_bound 1 2 0 (by norm_num) (by norm_num) [⟨7, 0⟩, ⟨7, 0⟩, ⟨7, 0⟩, ⟨7, 1⟩]).1
    (.inl (by unfold Sorted; decide))) 0 1 (by norm_num)).1 7

/-! ## Isolation -/

/-- The decisions on the calls of `x`. -/
def decisions (x : UInt32) (os : List Outcome) : List (ℚ × Bool) :=
  (os.filter fun o => o.ipv4 == x).map fun o => (o.now, o.admitted)

/-- The times of the calls of `x`. -/
def callTimes (x : UInt32) (cs : List Call) : List ℚ :=
  (cs.filter fun c => c.ipv4 == x).map (·.now)

/-- At every call of `x` it has a bucket, or the table has a free slot once
    pruned. -/
def KeepsRoom (x : UInt32) : RateLimiter → List Call → Prop
  | _, [] => True
  | l, c :: cs =>
      (c.ipv4 = x → l.overflows c.ipv4 c.now = false) ∧
        KeepsRoom x (l.allow c.ipv4 c.now).2 cs

theorem decisions_cons (x : UInt32) (o : Outcome) (os : List Outcome) :
    decisions x (o :: os) =
      if o.ipv4 = x then (o.now, o.admitted) :: decisions x os else decisions x os := by
  unfold decisions
  by_cases h : o.ipv4 = x
  · rw [if_pos h, List.filter_cons_of_pos (by simp [h]), List.map_cons]
  · rw [if_neg h, List.filter_cons_of_neg (by simpa using h)]

theorem callTimes_cons (x : UInt32) (c : Call) (cs : List Call) :
    callTimes x (c :: cs) = if c.ipv4 = x then c.now :: callTimes x cs else callTimes x cs := by
  unfold callTimes
  by_cases h : c.ipv4 = x
  · rw [if_pos h, List.filter_cons_of_pos (by simp [h]), List.map_cons]
  · rw [if_neg h, List.filter_cons_of_neg (by simpa using h)]

theorem times_decisions (x : UInt32) (cs : List Call) : ∀ l : RateLimiter,
    (decisions x (outcomes l cs)).map Prod.fst = callTimes x cs := by
  induction cs with
  | nil => intro l; rfl
  | cons c cs ih =>
      intro l
      rw [outcomes_cons, decisions_cons, callTimes_cons]
      by_cases h : c.ipv4 = x
      · rw [if_pos h, if_pos h, List.map_cons, ih]
      · rw [if_neg h, if_neg h, ih]

theorem ownCalls_of_room (x : UInt32) (cs : List Call) : ∀ l : RateLimiter,
    KeepsRoom x l cs → ownCalls x (outcomes l cs) = decisions x (outcomes l cs) := by
  induction cs with
  | nil => intro l _; rfl
  | cons c cs ih =>
      intro l h
      rw [outcomes_cons, decisions_cons, ownCalls_cons, ih _ h.2]
      by_cases hx : c.ipv4 = x
      · rw [if_pos hx, if_pos ⟨hx, by simp [h.1 hx]⟩]
      · rw [if_neg hx, if_neg fun hh => hx hh.1]

/-- An IP that keeps its room is decided by the private bucket that the table tracks. -/
theorem decisions_of_room {l : RateLimiter} {x : UInt32} {o : Option (Bucket ℚ)} {cs : List Call}
    (hrate : 0 ≤ l.rate) (hburst : 1 ≤ l.burst) (ht : Tracks l x o cs) (hs : Sorted cs)
    (hroom : KeepsRoom x l cs) :
    decisions x (outcomes l cs) = serveAll l.rate l.burst o (callTimes x cs) := by
  have hrun := own_run x cs l o hrate hburst ht (.inl hs)
  rwa [ownCalls_of_room x cs l hroom, times_decisions] at hrun

/-- As long as every call of `x` finds its bucket or a free slot, whatever the
    other IPs do, each decision on `x` is that of a private bucket of `x`. -/
theorem tracked_isolated (rate burst t₀ : ℚ) (hrate : 0 < rate) (hburst : 1 ≤ burst)
    (cs : List Call) (hs : Sorted cs) (x : UInt32)
    (hroom : KeepsRoom x (create rate burst t₀) cs) :
    decisions x (outcomes (create rate burst t₀) cs) =
      serveAll rate burst none (callTimes x cs) :=
  decisions_of_room hrate.le hburst (tracks_create rate burst t₀ x cs) hs hroom

theorem size_makeRoom (l : RateLimiter) (now : ℚ) :
    (makeRoom now l).buckets.size ≤ l.buckets.size := by
  rw [makeRoom]
  split
  · exact Std.HashMap.size_filter_le_size
  · exact le_refl _

theorem size_allow_succ (l : RateLimiter) (ip : UInt32) (now : ℚ) :
    (l.allow ip now).2.buckets.size ≤ l.buckets.size + 1 := by
  have hroom := size_makeRoom l now
  rcases allow_cases l ip now with ⟨b, -, -, heq⟩ | ⟨-, -, -, heq⟩ | ⟨-, -, heq⟩
  · rw [heq]
    exact Std.HashMap.size_insert_le
  · rw [heq]
    exact le_trans Std.HashMap.size_insert_le (by omega)
  · rw [heq]
    exact le_trans hroom (Nat.le_succ _)

/-- Fewer calls than slots leave room for everyone. -/
theorem KeepsRoom.of_length (x : UInt32) (cs : List Call) : ∀ l : RateLimiter,
    l.buckets.size + cs.length ≤ kMaxBuckets → KeepsRoom x l cs := by
  induction cs with
  | nil => intro l _; trivial
  | cons c cs ih =>
      intro l hlen
      rw [List.length_cons] at hlen
      refine ⟨fun _ => ?_, ih _ ?_⟩
      · have hroom := size_makeRoom l c.now
        rw [overflows]
        rw [decide_eq_false (by omega), Bool.and_false]
      · have hsucc := size_allow_succ l c.ipv4 c.now
        omega

theorem tracked_isolated_pair :
    decisions 7 (outcomes (create 1 1 0) [⟨7, 0⟩, ⟨9, 0⟩, ⟨7, 0⟩, ⟨7, 1⟩]) =
      serveAll 1 1 none (callTimes 7 [⟨7, 0⟩, ⟨9, 0⟩, ⟨7, 0⟩, ⟨7, 1⟩]) :=
  tracked_isolated 1 1 0 (by norm_num) (by norm_num) _ (by unfold Sorted; decide) 7
    (KeepsRoom.of_length 7 _ _ (by
      rw [show (create 1 1 0).buckets.size = 0 from Std.HashMap.size_empty]; decide))

/-! ## Conforming clients -/

/-- **Conforming clients.**  In exact arithmetic, an IP that keeps its room in the table (which
    the calls of other IPs can take from it) is admitted at every call exactly if from any of its
    calls to any later one there are at most `burst` plus `rate` for each second between them. -/
theorem conforming_admitted (rate burst t₀ : ℚ) (hrate : 0 < rate) (hburst : 1 ≤ burst)
    (cs : List Call) (hs : Sorted cs) (x : UInt32)
    (hroom : KeepsRoom x (create rate burst t₀) cs) :
    (∀ o ∈ outcomes (create rate burst t₀) cs, o.ipv4 = x → o.admitted = true) ↔
      Conforms rate burst (callTimes x cs) := by
  have hdec : (∀ o ∈ outcomes (create rate burst t₀) cs, o.ipv4 = x → o.admitted = true) ↔
      ∀ p ∈ decisions x (outcomes (create rate burst t₀) cs), p.2 = true := by
    constructor
    · intro h p hp
      obtain ⟨o, ho, rfl⟩ := List.mem_map.mp hp
      obtain ⟨hmem, hx⟩ := List.mem_filter.mp ho
      exact h o hmem (beq_iff_eq.mp hx)
    · intro h o ho hx
      exact h (o.now, o.admitted)
        (List.mem_map.mpr ⟨o, List.mem_filter.mpr ⟨ho, beq_iff_eq.mpr hx⟩, rfl⟩)
  have htracks : Tracks (create rate burst t₀) x none cs := tracks_create rate burst t₀ x cs
  rw [hdec, decisions_of_room hrate.le hburst htracks hs hroom]
  exact serveAll_none_iff hburst _

/-- Two calls a second apart, among those of another IP. -/
theorem conforming_admitted_pair :
    (∀ o ∈ outcomes (create 1 1 0) [⟨7, 0⟩, ⟨9, 0⟩, ⟨9, 0⟩, ⟨7, 1⟩], o.ipv4 = 7 →
      o.admitted = true) ↔ Conforms 1 1 (callTimes 7 [⟨7, 0⟩, ⟨9, 0⟩, ⟨9, 0⟩, ⟨7, 1⟩]) :=
  conforming_admitted 1 1 0 (by norm_num) (by norm_num) _ (by unfold Sorted; decide) 7
    (KeepsRoom.of_length 7 _ _ (by
      rw [show (create 1 1 0).buckets.size = 0 from Std.HashMap.size_empty]; decide))

/-! ## The full table

    With `rate = burst = 1`: `kMaxBuckets` IPs call at time 0, the first of them
    being `0`; at time 1 all their buckets are full, the next new IP drops them
    all, and `kMaxBuckets` new IPs take the slots.  One more new IP empties
    `overflow_`, and then `0` calls again. -/

def flood (a n : Nat) (now : ℚ) : List Call :=
  (List.range n).map fun i => ⟨UInt32.ofNat (a + i), now⟩

/-- The table holds the `n` addresses from `a` on, each last served at `now`. -/
def Flooded (l : RateLimiter) (a n : Nat) (now : ℚ) : Prop :=
  l.rate = 1 ∧ l.burst = 1 ∧ l.buckets.size = n ∧
  ∀ ip b, l.buckets[ip]? = some b →
    b = ⟨0, now⟩ ∧ ∃ j, a ≤ j ∧ j < a + n ∧ ip = UInt32.ofNat j

theorem flood_succ (a n : Nat) (now : ℚ) :
    flood a (n + 1) now = flood a n now ++ [⟨UInt32.ofNat (a + n), now⟩] := by
  unfold flood
  rw [List.range_succ, List.map_append, List.map_singleton]

theorem after_append (l : RateLimiter) (cs ds : List Call) :
    after l (cs ++ ds) = after (after l cs) ds := List.foldl_append

theorem ofNat_inj {i j : Nat} (hi : i < 2 ^ 32) (hj : j < 2 ^ 32)
    (h : UInt32.ofNat i = UInt32.ofNat j) : i = j := by
  have hnat := congrArg UInt32.toNat h
  rw [UInt32.toNat_ofNat', UInt32.toNat_ofNat', Nat.mod_eq_of_lt hi, Nat.mod_eq_of_lt hj] at hnat
  exact hnat

theorem Flooded.absent {a n : Nat} (h : Flooded l a n now) {j : Nat} (hj : j < 2 ^ 32)
    (hn : a + n < 2 ^ 32) (hout : j < a ∨ a + n ≤ j) : l.buckets[UInt32.ofNat j]? = none := by
  cases hb : l.buckets[UInt32.ofNat j]? with
  | none => rfl
  | some b =>
      obtain ⟨-, i, hai, hin, heq⟩ := h.2.2.2 _ b hb
      have := ofNat_inj hj (by omega) heq
      omega

/-- A new IP takes a free slot. -/
theorem Flooded.step {a n : Nat} (h : Flooded l a n now) (hn : a + n < 2 ^ 32)
    (hfree : n < kMaxBuckets) :
    Flooded (l.allow (UInt32.ofNat (a + n)) now).2 a (n + 1) now ∧
      (l.allow (UInt32.ofNat (a + n)) now).2.overflow = l.overflow := by
  have habs := h.absent hn hn (.inr (le_refl _))
  obtain ⟨hr, hb, hsize, hall⟩ := h
  have hroom : makeRoom now l = l := by
    rw [makeRoom]
    rw [if_neg (by omega)]
  rcases allow_cases l (UInt32.ofNat (a + n)) now with ⟨b, hsome, -, -⟩ | ⟨-, -, -, heq⟩ |
    ⟨-, hov, -⟩
  · exact absurd (habs.symm.trans hsome) (by simp)
  · rw [hroom] at heq
    rw [heq]
    refine ⟨⟨hr, hb, ?_, fun ip b hget => ?_⟩, rfl⟩
    · have hnot : ¬ UInt32.ofNat (a + n) ∈ l.buckets := fun hmem => by
        rw [Std.HashMap.mem_iff_isSome_getElem?, habs] at hmem
        cases hmem
      dsimp only
      rw [Std.HashMap.size_insert, if_neg hnot, hsize]
    · dsimp only at hget
      rw [Std.HashMap.getElem?_insert] at hget
      split at hget
      · rename_i hip
        refine ⟨?_, a + n, by omega, by omega, (eq_of_beq hip).symm⟩
        rw [← Option.some.inj hget, hb]
        norm_num
      · obtain ⟨hval, j, h1, h2, h3⟩ := hall ip b hget
        exact ⟨hval, j, h1, by omega, h3⟩
  · rw [overflows] at hov
    rw [hroom, habs, decide_eq_false (by omega)] at hov
    cases hov

theorem Flooded.run {a : Nat} (h : Flooded l a 0 now) (n : Nat) :
    n ≤ kMaxBuckets → a + n < 2 ^ 32 →
    Flooded (after l (flood a n now)) a n now ∧ (after l (flood a n now)).overflow = l.overflow := by
  induction n with
  | zero => intro _ _; exact ⟨h, rfl⟩
  | succ n ih =>
      intro hn ha
      obtain ⟨hflood, hov⟩ := ih (by omega) (by omega)
      rw [flood_succ, after_append]
      obtain ⟨hflood', hov'⟩ := hflood.step (by omega) (by omega)
      exact ⟨hflood', hov'.trans hov⟩

theorem flood_cons (a n : Nat) (now : ℚ) :
    flood a (n + 1) now = ⟨UInt32.ofNat a, now⟩ :: flood (a + 1) n now := by
  rw [flood]
  rw [List.range_succ_eq_map, List.map_cons, List.map_map]
  refine congrArg₂ _ rfl (List.map_congr_left fun i _ => ?_)
  simp [Nat.add_comm, Nat.add_left_comm]

/-- A second later every bucket is full, and the first new IP drops them all. -/
theorem Flooded.restart {a : Nat} (h : Flooded l a kMaxBuckets now) (a' n : Nat)
    (hout : a + kMaxBuckets ≤ a') (ha' : a' < 2 ^ 32) :
    ∃ l', Flooded l' a' 0 (now + 1) ∧ l'.overflow = l.overflow ∧
      after l (flood a' (n + 1) (now + 1)) = after l' (flood a' (n + 1) (now + 1)) := by
  have habs := h.absent ha' (by omega) (.inr hout)
  obtain ⟨hr, hb, hsize, hall⟩ := h
  have hgone : ∀ ip : UInt32, (makeRoom (now + 1) l).buckets[ip]? = none := by
    intro ip
    unfold makeRoom
    rw [if_pos (le_of_eq hsize.symm)]
    unfold pruneLocked
    dsimp only
    rw [Std.HashMap.getElem?_filter']
    cases hget : l.buckets[ip]? with
    | none => rfl
    | some b =>
        obtain ⟨rfl, -⟩ := hall ip b hget
        rw [Option.filter_some, if_neg]
        rw [hr, hb]
        norm_num
  have hempty : (makeRoom (now + 1) l).buckets.size = 0 := by
    have hemp : (makeRoom (now + 1) l).buckets.isEmpty = true := by
      rw [Std.HashMap.isEmpty_iff_forall_not_mem]
      intro ip hmem
      rw [Std.HashMap.mem_iff_isSome_getElem?, hgone] at hmem
      cases hmem
    rw [Std.HashMap.isEmpty_eq_size_eq_zero] at hemp
    exact eq_of_beq hemp
  refine ⟨makeRoom (now + 1) l, ⟨by simpa using hr, by simpa using hb, hempty, fun ip b hget =>
    absurd ((hgone ip).symm.trans hget) (by simp)⟩, makeRoom_overflow, ?_⟩
  -- the first call sees no bucket of its own, before and after the prune
  have hagain : makeRoom (now + 1) (makeRoom (now + 1) l) = makeRoom (now + 1) l := by
    show (if kMaxBuckets ≤ (makeRoom (now + 1) l).buckets.size then _ else _) = _
    rw [hempty, if_neg (by decide)]
  have hfirst : l.allow (UInt32.ofNat a') (now + 1)
      = (makeRoom (now + 1) l).allow (UInt32.ofNat a') (now + 1) := by
    unfold allow
    rw [habs, hgone]
    dsimp only
    rw [hagain]
  rw [flood_cons, after_cons, after_cons, hfirst]

/-- A new IP that finds the table full of fresh buckets pays from `overflow_`. -/
theorem Flooded.overflowed {a : Nat} (h : Flooded l a kMaxBuckets now)
    (habs : l.buckets[ip]? = none) :
    l.allow ip now = ((l.spend l.overflow now).1,
      { makeRoom now l with overflow := (l.spend l.overflow now).2 }) ∧
    Flooded (l.allow ip now).2 a kMaxBuckets now ∧
    ∀ x : UInt32, l.buckets[x]? = none → (l.allow ip now).2.buckets[x]? = none := by
  obtain ⟨hr, hb, hsize, hall⟩ := h
  have hsame : ∀ x : UInt32, (makeRoom now l).buckets[x]? = l.buckets[x]? := by
    intro x
    rcases makeRoom_lookup l x now with heq | ⟨-, -, b, hget, hfull⟩
    · exact heq
    · obtain ⟨rfl, -⟩ := hall x b hget
      rw [Full] at hfull
      rw [hb] at hfull
      norm_num at hfull
  have hkeep : (makeRoom now l).buckets.size = kMaxBuckets := by
    rw [← hsize]
    rw [makeRoom]
    rw [if_pos (le_of_eq hsize.symm)]
    rw [pruneLocked]
    dsimp only
    rw [Std.HashMap.size_filter_eq_size_iff]
    intro x hx
    obtain ⟨hval, -⟩ := hall x (l.buckets.get x hx) (Std.HashMap.getElem?_eq_some_getElem hx)
    rw [show l.buckets[x] = ⟨0, now⟩ from hval, hb]
    norm_num
  rcases allow_cases l ip now with ⟨b, hsome, -, -⟩ | ⟨-, -, hlt, -⟩ | ⟨-, -, heq⟩
  · exact absurd (habs.symm.trans hsome) (by simp)
  · rw [hkeep] at hlt
    exact absurd hlt (Nat.lt_irrefl _)
  · rw [heq]
    refine ⟨rfl, ⟨by simpa using hr, by simpa using hb, hkeep, fun x b hget => ?_⟩,
      fun x hx => (hsame x).trans hx⟩
    exact hall x b ((hsame x).symm.trans hget)

theorem outcomes_append (cs ds : List Call) : ∀ l : RateLimiter,
    outcomes l (cs ++ ds) = outcomes l cs ++ outcomes (after l cs) ds := by
  induction cs with
  | nil => intro l; rfl
  | cons c cs ih =>
      intro l
      rw [List.cons_append, outcomes_cons, outcomes_cons, ih, after_cons, List.cons_append]

theorem decisions_append (x : UInt32) (os ps : List Outcome) :
    decisions x (os ++ ps) = decisions x os ++ decisions x ps := by
  unfold decisions
  rw [List.filter_append, List.map_append]

theorem callTimes_append (x : UInt32) (cs ds : List Call) :
    callTimes x (cs ++ ds) = callTimes x cs ++ callTimes x ds := by
  unfold callTimes
  rw [List.filter_append, List.map_append]

theorem callTimes_flood {a n : Nat} (ha : 0 < a) (hn : a + n ≤ 2 ^ 32) (now : ℚ) :
    callTimes 0 (flood a n now) = [] := by
  rw [callTimes, flood]
  rw [List.map_eq_nil_iff, List.filter_eq_nil_iff]
  intro c hc
  obtain ⟨i, hi, rfl⟩ := List.mem_map.mp hc
  rw [List.mem_range] at hi
  intro heq
  have hzero : a + i = 0 := ofNat_inj (by omega) (by omega) (eq_of_beq heq)
  omega

theorem decisions_of_absent {cs : List Call} (h : callTimes x cs = []) :
    decisions x (outcomes l cs) = [] := by
  rw [← times_decisions x cs l] at h
  exact List.map_eq_nil_iff.mp h

def evicted : List Call :=
  flood 0 kMaxBuckets 0 ++ flood kMaxBuckets kMaxBuckets 1 ++
    [⟨UInt32.ofNat (2 * kMaxBuckets), 1⟩, ⟨0, 1⟩]

theorem sorted_evicted : Sorted evicted := by
  have hflood : ∀ a n (now : ℚ), (flood a n now).map (·.now) = List.replicate n now := by
    intro a n now
    rw [flood]
    rw [List.map_map, List.eq_replicate_iff]
    refine ⟨by simp, fun t ht => ?_⟩
    obtain ⟨i, -, rfl⟩ := List.mem_map.mp ht
    rfl
  rw [Sorted, evicted]
  rw [List.map_append, List.map_append, hflood, hflood]
  simp only [List.map_cons, List.map_nil, List.pairwise_append, List.pairwise_replicate,
    List.mem_append, List.mem_replicate]
  refine ⟨⟨.inr (le_refl _), .inr (le_refl _), ?_⟩, by decide, ?_⟩
  · rintro s ⟨-, rfl⟩ t ⟨-, rfl⟩
    norm_num
  · rintro s hs t ht
    have htime : t = 1 := by simpa using ht
    rw [htime]
    rcases hs with ⟨-, rfl⟩ | ⟨-, rfl⟩ <;> norm_num

/-- The state in which `0` calls for the second time. -/
theorem evicted_state :
    ∃ l : RateLimiter, after (create 1 1 0)
        (flood 0 kMaxBuckets 0 ++ flood kMaxBuckets kMaxBuckets 1) = l ∧
      Flooded l kMaxBuckets kMaxBuckets 1 ∧ l.overflow = ⟨1, 0⟩ := by
  have hstart : Flooded (create 1 1 0) 0 0 0 := by
    refine ⟨rfl, rfl, Std.HashMap.size_empty, fun ip b hget => ?_⟩
    rw [show (create 1 1 0).buckets[ip]? = none from Std.HashMap.getElem?_empty] at hget
    cases hget
  obtain ⟨hfull, hov⟩ := hstart.run kMaxBuckets (le_refl _) (by decide)
  obtain ⟨l', hempty, hov', heq⟩ := hfull.restart kMaxBuckets (kMaxBuckets - 1)
    (by omega) (by decide)
  obtain ⟨hfull', hov''⟩ := hempty.run kMaxBuckets (le_refl _) (by decide)
  rw [show (0 : ℚ) + 1 = 1 from zero_add 1] at heq hfull' hov''
  refine ⟨_, after_append .., ?_⟩
  rw [show kMaxBuckets - 1 + 1 = kMaxBuckets from rfl] at heq
  rw [heq]
  exact ⟨hfull', hov''.trans (hov'.trans hov)⟩

/-- An IP that had its own bucket long before the table was full is denied by
    `overflow_` where its private bucket would admit it. -/
theorem tracked_ip_denied :
    Sorted evicted ∧ evicted.head? = some ⟨0, 0⟩ ∧ (create 1 1 0).overflows 0 0 = false ∧
    decisions 0 (outcomes (create 1 1 0) evicted) ≠ serveAll 1 1 none (callTimes 0 evicted) := by
  obtain ⟨l, hl, hfull, hov⟩ := evicted_state
  have hfirst : flood 0 kMaxBuckets 0 = ⟨0, 0⟩ :: flood 1 (kMaxBuckets - 1) 0 :=
    flood_cons 0 (kMaxBuckets - 1) 0
  refine ⟨sorted_evicted, by unfold evicted; rw [hfirst]; rfl, ?_, fun heq => ?_⟩
  · rw [overflows]
    rw [decide_eq_false, Bool.and_false]
    have hroom := size_makeRoom (create 1 1 0) 0
    rw [show (create 1 1 0).buckets.size = 0 from Std.HashMap.size_empty] at hroom
    exact fun hle => absurd (le_trans hle hroom) (by decide)
  -- the first call of `0` and its last one are the only two
  have hrest := callTimes_flood (a := 1) (n := kMaxBuckets - 1) (by decide) (by decide) 0
  have hnew := callTimes_flood (a := kMaxBuckets) (n := kMaxBuckets) (by decide) (by decide) 1
  have hother : UInt32.ofNat (2 * kMaxBuckets) ≠ 0 := by decide
  have htimes : callTimes 0 evicted = [0, 1] := by
    rw [evicted]
    rw [callTimes_append, callTimes_append, hfirst, callTimes_cons, if_pos rfl, hrest, hnew,
      callTimes_cons, if_neg hother, callTimes_cons, if_pos rfl]
    rfl
  have habs : l.buckets[UInt32.ofNat (2 * kMaxBuckets)]? = none :=
    hfull.absent (by decide) (by decide) (.inr (by decide))
  have hgone : l.buckets[(0 : UInt32)]? = none :=
    hfull.absent (j := 0) (by decide) (by decide) (.inl (by decide))
  obtain ⟨hpay, hfull', hkeep⟩ := hfull.overflowed habs
  obtain ⟨hpay', -, -⟩ := hfull'.overflowed (hkeep 0 hgone)
  -- the first overflow call takes the last token, the second one is denied
  have hemptied : (l.allow (UInt32.ofNat (2 * kMaxBuckets)) 1).2.overflow = ⟨0, 1⟩ := by
    rw [hpay]
    show (TokenBucket.spend l.rate l.burst l.overflow 1).2 = _
    rw [hov, hfull.1, hfull.2.1]
    norm_num [TokenBucket.spend]
  have hdenied : ((l.allow (UInt32.ofNat (2 * kMaxBuckets)) 1).2.allow 0 1).1 = false := by
    rw [hpay']
    show (TokenBucket.spend _ _ (l.allow (UInt32.ofNat (2 * kMaxBuckets)) 1).2.overflow 1).1 = _
    rw [hemptied, hfull'.1, hfull'.2.1]
    norm_num [TokenBucket.spend]
  have hsecond : decisions 0 (outcomes l [⟨UInt32.ofNat (2 * kMaxBuckets), 1⟩, ⟨0, 1⟩])
      = [(1, false)] := by
    rw [outcomes_cons, outcomes_cons, decisions_cons, if_neg hother, decisions_cons, if_pos rfl,
      hdenied]
    rfl
  have hlast : decisions 0 (outcomes (create 1 1 0) evicted) =
      [(0, ((create 1 1 0).allow 0 0).1), (1, false)] := by
    rw [evicted]
    rw [outcomes_append, decisions_append, hl, hsecond, outcomes_append, decisions_append,
      decisions_of_absent hnew, List.append_nil, hfirst, outcomes_cons, decisions_cons,
      if_pos rfl, decisions_of_absent hrest]
    rfl
  rw [hlast, htimes] at heq
  norm_num [serveAll, serve, TokenBucket.spend] at heq

end RateLimiter

end CastlePlus
