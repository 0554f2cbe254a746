import Mathlib.Algebra.Order.Field.Basic
import Mathlib.Tactic.Linarith
import Mathlib.Tactic.Ring

/-! # Token buckets with lazy refill

    A bucket holds at most `burst` tokens and gains `rate` tokens per unit of
    time; serving a request takes one.  The refill is lazy: it is computed from
    the time since the bucket was last touched.

    * `spend` refills a bucket and tries to take one token;
    * `serve` is the same for a bucket that need not exist yet (a fresh bucket
      is full);
    * `potential` (`tokens - rate * last`) never increases, whatever the order
      of the time samples, and falls by one with every request served;
    * `served_le` bounds the requests served in any window of time;
    * `serveAll_none_iff` says which sequences of requests are served in full. -/

namespace TokenBucket

variable {K : Type*} [Field K] [LinearOrder K]

structure Bucket (K : Type*) where
  tokens : K
  last : K
  deriving DecidableEq, Repr

/-- Refill `b` from the time elapsed, then try to spend one token. -/
def spend (rate burst : K) (b : Bucket K) (now : K) : Bool × Bucket K :=
  let tokens := min burst (b.tokens + (now - b.last) * rate)
  if 1 ≤ tokens then (true, ⟨tokens - 1, now⟩) else (false, ⟨tokens, now⟩)

/-- A bucket that does not exist yet is a full one. -/
def serve (rate burst : K) : Option (Bucket K) → K → Bool × Bucket K
  | none, now => (true, ⟨burst - 1, now⟩)
  | some b, now => spend rate burst b now

/-- The decisions on a list of requests, each with its time. -/
def serveAll (rate burst : K) : Option (Bucket K) → List K → List (K × Bool)
  | _, [] => []
  | o, now :: ts =>
      (now, (serve rate burst o now).1) :: serveAll rate burst (some (serve rate burst o now).2) ts

/-- What the bucket holds once refilled, without the cap, is at least `burst`. -/
def Full (rate burst : K) (b : Bucket K) (now : K) : Prop :=
  burst ≤ b.tokens + (now - b.last) * rate

instance (rate burst : K) (b : Bucket K) (now : K) : Decidable (Full rate burst b now) :=
  inferInstanceAs (Decidable (_ ≤ _))

def potential (rate : K) (b : Bucket K) : K := b.tokens - rate * b.last

/-- A request served at a time in `[a, a + T]`. -/
def servedIn (a T : K) (p : K × Bool) : Bool := p.2 && decide (a ≤ p.1 ∧ p.1 ≤ a + T)

variable {rate burst : K} {b : Bucket K} {now : K}

theorem last_serve (rate burst : K) (o : Option (Bucket K)) (now : K) :
    (serve rate burst o now).2.last = now := by
  cases o with
  | none => rfl
  | some b =>
      unfold serve spend
      dsimp only
      split <;> rfl

/-- Serving from a full bucket leaves what serving from a fresh one leaves. -/
theorem spend_of_full (hburst : 1 ≤ burst) (h : Full rate burst b now) :
    spend rate burst b now = serve rate burst none now := by
  rw [spend, serve]
  rw [min_eq_left h, if_pos hburst]

variable [IsStrictOrderedRing K]

theorem Full.later {now' : K} (hrate : 0 ≤ rate) (hle : now ≤ now')
    (h : Full rate burst b now) : Full rate burst b now' := by
  rw [Full] at h ⊢
  have hmul : (now - b.last) * rate ≤ (now' - b.last) * rate :=
    mul_le_mul_of_nonneg_right (by linarith) hrate
  linarith

/-- The tokens left after a request was served. -/
theorem tokens_serve (hburst : 1 ≤ burst) (o : Option (Bucket K))
    (h : (serve rate burst o now).1 = true) :
    0 ≤ (serve rate burst o now).2.tokens ∧ (serve rate burst o now).2.tokens ≤ burst - 1 := by
  cases o with
  | none => exact ⟨by show 0 ≤ burst - 1; linarith, le_refl _⟩
  | some b =>
      unfold serve spend at h ⊢
      dsimp only at h ⊢
      split at h
      · rename_i htok
        rw [if_pos htok]
        have hcap := min_le_left burst (b.tokens + (now - b.last) * rate)
        exact ⟨by show 0 ≤ _ - 1; linarith, by show _ - 1 ≤ _; linarith⟩
      · exact absurd h (by simp)

theorem potential_spend (rate burst : K) (b : Bucket K) (now : K) :
    potential rate (spend rate burst b now).2 ≤ potential rate b ∧
    ((spend rate burst b now).1 = true →
      potential rate (spend rate burst b now).2 ≤ potential rate b - 1) := by
  have hmin := min_le_right burst (b.tokens + (now - b.last) * rate)
  unfold spend potential
  dsimp only
  split
  · exact ⟨by dsimp only; linarith, fun _ => by dsimp only; linarith⟩
  · exact ⟨by dsimp only; linarith, fun h => absurd h (by simp)⟩

variable {a T : K}

/-- Requests served in the window from an existing bucket: the potential pays
    for each of them, and is at least `-rate * (a + T)` when the last is served. -/
theorem served_le_potential (hrate : 0 ≤ rate) (hburst : 1 ≤ burst) (ts : List K) :
    ∀ b : Bucket K, (serveAll rate burst (some b) ts).countP (servedIn a T) = 0 ∨
      ((serveAll rate burst (some b) ts).countP (servedIn a T) : K)
        ≤ potential rate b + rate * (a + T) := by
  induction ts with
  | nil => intro b; exact .inl rfl
  | cons now ts ih =>
      intro b
      have hpot := potential_spend rate burst b now
      have ih' := ih (spend rate burst b now).2
      rw [show serveAll rate burst (some b) (now :: ts)
        = (now, (spend rate burst b now).1) ::
          serveAll rate burst (some (spend rate burst b now).2) ts from rfl, List.countP_cons]
      by_cases hin : servedIn a T (now, (spend rate burst b now).1) = true
      · rw [if_pos hin]
        right
        obtain ⟨hserved, hwin⟩ := Bool.and_eq_true_iff.mp hin
        have hpaid := hpot.2 hserved
        push_cast
        rcases ih' with hzero | hle
        · -- the last one served in the window
          rw [hzero]
          have htok := (tokens_serve hburst (some b) hserved).1
          have hlast := last_serve rate burst (some b) now
          have htime : rate * now ≤ rate * (a + T) :=
            mul_le_mul_of_nonneg_left (of_decide_eq_true hwin).2 hrate
          have hfloor : -(rate * now) ≤ potential rate (spend rate burst b now).2 := by
            show _ ≤ (serve rate burst (some b) now).2.tokens
              - rate * (serve rate burst (some b) now).2.last
            rw [hlast]
            linarith
          push_cast
          linarith
        · linarith
      · rw [if_neg hin, Nat.add_zero]
        rcases ih' with hzero | hle
        · exact .inl hzero
        · exact .inr (by linarith [hpot.1])

/-- **The admission bound**: at most `burst + rate * T` requests are served in
    any window of length `T`, in whatever order the time samples come. -/
theorem served_le (hrate : 0 ≤ rate) (hburst : 1 ≤ burst) (hT : 0 ≤ T) (ts : List K) :
    ∀ o : Option (Bucket K),
      ((serveAll rate burst o ts).countP (servedIn a T) : K) ≤ burst + rate * T := by
  have hpos : 0 ≤ rate * T := mul_nonneg hrate hT
  induction ts with
  | nil =>
      intro o
      rw [show serveAll rate burst o [] = [] from rfl, List.countP_nil]
      push_cast
      linarith
  | cons now ts ih =>
      intro o
      rw [show serveAll rate burst o (now :: ts)
        = (now, (serve rate burst o now).1) ::
          serveAll rate burst (some (serve rate burst o now).2) ts from rfl, List.countP_cons]
      by_cases hin : servedIn a T (now, (serve rate burst o now).1) = true
      · rw [if_pos hin]
        obtain ⟨hserved, hwin⟩ := Bool.and_eq_true_iff.mp hin
        have hcap := (tokens_serve hburst o hserved).2
        have htime : rate * a ≤ rate * now :=
          mul_le_mul_of_nonneg_left (of_decide_eq_true hwin).1 hrate
        have hstart : potential rate (serve rate burst o now).2 ≤ burst - 1 - rate * a := by
          rw [potential]
          rw [last_serve]
          linarith
        push_cast
        rcases served_le_potential (a := a) (T := T) hrate hburst ts
          (serve rate burst o now).2 with hzero | hle
        · rw [hzero]
          push_cast
          linarith
        · rw [mul_add] at hle
          linarith
      · rw [if_neg hin, Nat.add_zero]
        exact ih _

/-! ## Sequences that are served in full -/

/-- From any request to any later one there are at most `burst` and what flows in meanwhile. -/
def Conforms (rate burst : K) (ts : List K) : Prop :=
  ∀ i j (hi : i ≤ j) (hj : j < ts.length),
    ((j - i + 1 : Nat) : K) ≤ burst + rate * (ts[j] - ts[i])

/-- The first `j + 1` requests get by with the tokens of `b` and what flows in. -/
def Within (rate : K) (b : Bucket K) (ts : List K) : Prop :=
  ∀ j (hj : j < ts.length), ((j + 1 : Nat) : K) ≤ b.tokens + rate * (ts[j] - b.last)

omit [IsStrictOrderedRing K] in
theorem conforms_cons {ts : List K} : Conforms rate burst (now :: ts) ↔ 1 ≤ burst ∧
    (∀ j (hj : j < ts.length), ((j + 2 : Nat) : K) ≤ burst + rate * (ts[j] - now)) ∧
    Conforms rate burst ts := by
  constructor
  · intro h
    refine ⟨?_, fun j hj => ?_, fun i j hi hj => ?_⟩
    · simpa using h 0 0 (le_refl 0) (Nat.zero_lt_succ _)
    · exact h 0 (j + 1) (Nat.zero_le _) (Nat.succ_lt_succ hj)
    · have := h (i + 1) (j + 1) (Nat.succ_le_succ hi) (Nat.succ_lt_succ hj)
      rw [Nat.add_sub_add_right] at this
      exact this
  · rintro ⟨hburst, hfirst, hrest⟩ i j hi hj
    cases j with
    | zero =>
        obtain rfl : i = 0 := Nat.le_zero.mp hi
        simpa using hburst
    | succ j =>
        have hj' : j < ts.length := Nat.lt_of_succ_lt_succ hj
        cases i with
        | zero => exact hfirst j hj'
        | succ i =>
            have := hrest i j (Nat.le_of_succ_le_succ hi) hj'
            rw [Nat.add_sub_add_right]
            exact this

/-- From an existing bucket. -/
theorem serveAll_some_iff (ts : List K) : ∀ b : Bucket K,
    (∀ p ∈ serveAll rate burst (some b) ts, p.2 = true) ↔
      Conforms rate burst ts ∧ Within rate b ts := by
  induction ts with
  | nil =>
      intro b
      constructor
      · exact fun _ => ⟨fun i j _ hj => absurd hj (Nat.not_lt_zero j),
          fun j hj => absurd hj (Nat.not_lt_zero j)⟩
      · exact fun _ p hp => absurd hp List.not_mem_nil
  | cons now ts ih =>
      intro b
      obtain ⟨tokens, htok⟩ : ∃ t, t = min burst (b.tokens + (now - b.last) * rate) := ⟨_, rfl⟩
      have hspend : spend rate burst b now =
          if 1 ≤ tokens then (true, ⟨tokens - 1, now⟩) else (false, ⟨tokens, now⟩) := by
        rw [htok]
        rfl
      -- the bound on the first request, apart from those on the later ones
      have hwithin : Within rate b (now :: ts) ↔ 1 ≤ b.tokens + (now - b.last) * rate ∧
          ∀ j (hj : j < ts.length), ((j + 2 : Nat) : K) ≤ b.tokens + rate * (ts[j] - b.last) := by
        constructor
        · intro h
          refine ⟨?_, fun j hj => h (j + 1) (Nat.succ_lt_succ hj)⟩
          have := h 0 (Nat.zero_lt_succ _)
          rw [mul_comm]
          simpa using this
        · rintro ⟨h0, hrest⟩ j hj
          cases j with
          | zero =>
              rw [mul_comm] at h0
              simpa using h0
          | succ j => exact hrest j (Nat.lt_of_succ_lt_succ hj)
      -- behind it the later ones are bounded by `burst` and by what there was before
      have hafter : Within rate ⟨tokens - 1, now⟩ ts ↔
          (∀ j (hj : j < ts.length), ((j + 2 : Nat) : K) ≤ burst + rate * (ts[j] - now)) ∧
          ∀ j (hj : j < ts.length), ((j + 2 : Nat) : K) ≤ b.tokens + rate * (ts[j] - b.last) := by
        rw [← forall₂_and]
        refine forall₂_congr fun j hj => ?_
        have hshift : ((j + 1 : Nat) : K) ≤ tokens - 1 + rate * (ts[j] - now) ↔
            ((j + 2 : Nat) : K) - rate * (ts[j] - now) ≤ tokens := by
          push_cast
          constructor <;> intro h <;> linarith
        have hflow : (now - b.last) * rate + rate * (ts[j] - now) = rate * (ts[j] - b.last) := by
          ring
        rw [hshift, htok, le_min_iff]
        constructor <;> rintro ⟨h1, h2⟩ <;> constructor <;> linarith
      rw [show serveAll rate burst (some b) (now :: ts) = (now, (spend rate burst b now).1) ::
        serveAll rate burst (some (spend rate burst b now).2) ts from rfl, List.forall_mem_cons,
        hspend, conforms_cons, hwithin]
      by_cases hone : 1 ≤ tokens
      · -- the first request is served
        rw [if_pos hone, ih, hafter]
        rw [htok, le_min_iff] at hone
        tauto
      · -- it is denied
        rw [if_neg hone]
        rw [htok, le_min_iff] at hone
        constructor
        · exact fun h => absurd h.1 Bool.false_ne_true
        · exact fun h => absurd ⟨h.1.1, h.2.1⟩ hone

/-- **Full service**: a fresh bucket serves every request of a sequence exactly if it conforms,
    in whatever order the time samples come. -/
theorem serveAll_none_iff (hburst : 1 ≤ burst) (ts : List K) :
    (∀ p ∈ serveAll rate burst none ts, p.2 = true) ↔ Conforms rate burst ts := by
  cases ts with
  | nil =>
      constructor
      · exact fun _ i j _ hj => absurd hj (Nat.not_lt_zero j)
      · exact fun _ p hp => absurd hp List.not_mem_nil
  | cons now ts =>
      rw [show serveAll rate burst none (now :: ts) = (now, true) ::
        serveAll rate burst (some ⟨burst - 1, now⟩) ts from rfl, List.forall_mem_cons,
        serveAll_some_iff, conforms_cons]
      have hwithin : Within rate ⟨burst - 1, now⟩ ts ↔
          ∀ j (hj : j < ts.length), ((j + 2 : Nat) : K) ≤ burst + rate * (ts[j] - now) := by
        refine forall₂_congr fun j hj => ?_
        dsimp only
        push_cast
        constructor <;> intro h <;> linarith
      rw [hwithin]
      tauto

end TokenBucket
