import Mathlib.Logic.Basic
import Mathlib.Data.List.Basic

/-! # Scripted programs — re-entrant code against an arbitrary environment

    A scripted program runs over a state `σ` and reads the environment's answers
    (results of system calls) one at a time from a script, a list of `ι`.  It
    either returns, with the part of the script it did not read, or halts with a
    reason `ε` in the state it had reached.

    Halting is what makes statements about EVERY moment of a run possible: a
    script that ends early stops the program inside the call that wanted the next
    answer, so the states a program can be observed in are its return states plus
    its halt states, over all scripts.

    `wp` is the matching program logic: `wp p Q H s w` says that `p`, run from
    `s` on the script `w`, returns in `Q` or halts in `H`.  Everything here is
    over arbitrary types. -/

namespace ScriptProg

variable {ι ε σ α β : Type}

/-- How a scripted program ends. -/
inductive Outcome (ι ε σ α : Type) where
  | ret (a : α) (s : σ) (rest : List ι)
  | halt (e : ε) (s : σ)

/-- A program over state `σ`, answered from a script of `ι`, halting with `ε`. -/
def Prog (ι ε σ α : Type) : Type := σ → List ι → Outcome ι ε σ α

/-- Do nothing, return `a`. -/
def ret (a : α) : Prog ι ε σ α := fun s w => .ret a s w

/-- Sequencing: a halt of the first program is a halt of the whole. -/
def andThen (p : Prog ι ε σ α) (f : α → Prog ι ε σ β) : Prog ι ε σ β :=
  fun s w =>
    match p s w with
    | .ret a s' w' => f a s' w'
    | .halt e s' => .halt e s'

instance : Monad (Prog ι ε σ) where
  pure := ret
  bind := andThen

/-- Read the state. -/
def get : Prog ι ε σ σ := fun s w => .ret s s w

/-- Apply a state transformer. -/
def modify (f : σ → σ) : Prog ι ε σ Unit := fun s w => .ret () (f s) w

/-- Stop here. -/
def halt (e : ε) : Prog ι ε σ α := fun s _ => .halt e s

/-- Take the next answer of the script: `k` recognises the answers this call can
    get and says what they do to the state.  With no answer left, or with an
    answer that belongs to another call, the program stops with `e`. -/
def await (e : ε) (k : ι → Option (α × (σ → σ))) : Prog ι ε σ α :=
  fun s w =>
    match w with
    | [] => .halt e s
    | i :: w' =>
        match k i with
        | some (a, f) => .ret a (f s) w'
        | none => .halt e s

/-! ## Weakest preconditions -/

/-- `p` from `s` on the script `w` returns in `Q` or halts in `H`. -/
def wp (p : Prog ι ε σ α) (Q : α → σ → List ι → Prop) (H : ε → σ → Prop)
    (s : σ) (w : List ι) : Prop :=
  match p s w with
  | .ret a s' w' => Q a s' w'
  | .halt e s' => H e s'

section Rules

variable {p : Prog ι ε σ α} {f : α → Prog ι ε σ β}
variable {Q Q' : α → σ → List ι → Prop} {R : β → σ → List ι → Prop}
variable {H H' : ε → σ → Prop} {s : σ} {w : List ι}

@[simp] theorem wp_pure (a : α) :
    wp (pure a : Prog ι ε σ α) Q H s w ↔ Q a s w := Iff.rfl

@[simp] theorem wp_get {Q : σ → σ → List ι → Prop} :
    wp (get : Prog ι ε σ σ) Q H s w ↔ Q s s w := Iff.rfl

@[simp] theorem wp_modify (g : σ → σ) {Q : Unit → σ → List ι → Prop} :
    wp (modify g : Prog ι ε σ Unit) Q H s w ↔ Q () (g s) w := Iff.rfl

@[simp] theorem wp_halt (e : ε) :
    wp (halt e : Prog ι ε σ α) Q H s w ↔ H e s := Iff.rfl

@[simp] theorem wp_bind :
    wp (p >>= f) R H s w ↔ wp p (fun a s' w' => wp (f a) R H s' w') H s w := by
  show wp (andThen p f) R H s w ↔ _
  unfold wp andThen
  cases p s w <;> rfl

@[simp] theorem wp_await_nil (e : ε) (k : ι → Option (α × (σ → σ))) :
    wp (await e k) Q H s [] ↔ H e s := Iff.rfl

theorem wp_await_some {e : ε} {k : ι → Option (α × (σ → σ))} {i : ι} {a : α}
    {g : σ → σ} (hk : k i = some (a, g)) :
    wp (await e k) Q H s (i :: w) ↔ Q a (g s) w := by
  rw [wp, await]
  simp [hk]

theorem wp_await_none {e : ε} {k : ι → Option (α × (σ → σ))} {i : ι}
    (hk : k i = none) : wp (await e k) Q H s (i :: w) ↔ H e s := by
  rw [wp, await]
  simp [hk]

/-- The rule for a call that waits for the environment: the halt condition for a
    script that stops here, the postcondition for every answer it accepts. -/
theorem wp_await (e : ε) (k : ι → Option (α × (σ → σ))) (hH : H e s)
    (hQ : ∀ i a g w', w = i :: w' → k i = some (a, g) → Q a (g s) w') :
    wp (await e k) Q H s w := by
  cases w with
  | nil => exact hH
  | cons i w' =>
      cases hk : k i with
      | none => exact (wp_await_none hk).mpr hH
      | some x => exact (wp_await_some hk).mpr (hQ i x.1 x.2 w' rfl hk)

theorem wp_ite {c : Prop} [Decidable c] {q : Prog ι ε σ α} :
    wp (if c then p else q) Q H s w
      ↔ (c → wp p Q H s w) ∧ (¬ c → wp q Q H s w) := by
  by_cases hc : c <;> simp [hc]

/-- Consequence: weaken the postcondition and the halt condition. -/
theorem wp_mono (h : wp p Q H s w)
    (hQ : ∀ a s' w', Q a s' w' → Q' a s' w')
    (hH : ∀ e s', H e s' → H' e s') : wp p Q' H' s w := by
  rw [wp] at *
  cases hp : p s w with
  | ret a s' w' => rw [hp] at h; exact hQ a s' w' h
  | halt e s' => rw [hp] at h; exact hH e s' h

/-- Conjunction: two facts about one program hold of the same outcome. -/
theorem wp_and (h : wp p Q H s w) (h' : wp p Q' H' s w) :
    wp p (fun a s' w' => Q a s' w' ∧ Q' a s' w') (fun e s' => H e s' ∧ H' e s') s w := by
  rw [wp] at *
  cases hp : p s w with
  | ret a s' w' => rw [hp] at h h'; exact ⟨h, h'⟩
  | halt e s' => rw [hp] at h h'; exact ⟨h, h'⟩

theorem wp_trivial : wp p (fun _ _ _ => True) (fun _ _ => True) s w := by
  rw [wp]
  split <;> trivial

end Rules

/-! ## Scripts are read front to back -/

/-- `p` takes answers off the front of its script and hands back the rest. -/
def Consumes (p : Prog ι ε σ α) : Prop :=
  ∀ s w, wp p (fun _ _ w' => w' <:+ w) (fun _ _ => True) s w

section Consuming

variable {p q : Prog ι ε σ α} {f : α → Prog ι ε σ β}

theorem Consumes.pure (a : α) : Consumes (pure a : Prog ι ε σ α) :=
  fun _ _ => List.suffix_rfl

theorem Consumes.get : Consumes (get : Prog ι ε σ σ) := fun _ _ => List.suffix_rfl

theorem Consumes.modify (g : σ → σ) : Consumes (modify g : Prog ι ε σ Unit) :=
  fun _ _ => List.suffix_rfl

theorem Consumes.halt (e : ε) : Consumes (halt e : Prog ι ε σ α) := fun _ _ => trivial

theorem Consumes.await (e : ε) (k : ι → Option (α × (σ → σ))) : Consumes (await e k) :=
  fun _ _ => wp_await e k trivial fun _ _ _ _ hw _ => hw ▸ List.suffix_cons _ _

theorem Consumes.bind (hp : Consumes p) (hf : ∀ a, Consumes (f a)) : Consumes (p >>= f) := by
  intro s w
  rw [wp_bind]
  refine wp_mono (hp s w) (fun a s' w' h => ?_) fun _ _ h => h
  exact wp_mono (hf a s' w') (fun _ _ _ h' => h'.trans h) fun _ _ h => h

theorem Consumes.ite {c : Prop} [Decidable c] (hp : Consumes p) (hq : Consumes q) :
    Consumes (if c then p else q) := by
  split
  · exact hp
  · exact hq

/-- Add what is known of the script to what is known of the outcome. -/
theorem Consumes.and {Q : α → σ → List ι → Prop} {H : ε → σ → Prop} {s : σ} {w : List ι}
    (hp : Consumes p) (h : wp p Q H s w) :
    wp p (fun a s' w' => Q a s' w' ∧ w' <:+ w) H s w :=
  wp_mono (wp_and h (hp s w)) (fun _ _ _ h => h) fun _ _ h => h.1

end Consuming

/-! ## Loops that wait for the environment -/

section Looping

variable {τ : Type} (e : ε) (exit : τ → σ → Option α)
variable (body : τ → σ → ι → Option ((τ ⊕ α) × σ))

/-- A loop with a local variable `τ`.  It is left before the next call where `exit` says so;
    otherwise one answer is taken, and `body` goes on or leaves.  As in `await`, the program
    stops with `e` where no answer `body` knows is left. -/
def loopOn : List ι → τ → σ → Outcome ι ε σ α
  | [], t, s =>
      match exit t s with
      | some a => .ret a s []
      | none => .halt e s
  | i :: w, t, s =>
      match exit t s with
      | some a => .ret a s (i :: w)
      | none =>
          match body t s i with
          | none => .halt e s
          | some (.inl t', s') => loopOn w t' s'
          | some (.inr a, s') => .ret a s' w

def loop (t : τ) : Prog ι ε σ α := fun s w => loopOn e exit body w t s

variable {e exit body}

/-- The invariant rule for such a loop. -/
theorem wp_loop {Q : α → σ → List ι → Prop} {H : ε → σ → Prop} (I : τ → σ → List ι → Prop)
    (hexit : ∀ t s w a, I t s w → exit t s = some a → Q a s w)
    (hhalt : ∀ t s w, I t s w → H e s)
    (hnext : ∀ t s i w t' s', I t s (i :: w) → exit t s = none →
      body t s i = some (.inl t', s') → I t' s' w)
    (hdone : ∀ t s i w a s', I t s (i :: w) → exit t s = none →
      body t s i = some (.inr a, s') → Q a s' w)
    {t : τ} {s : σ} {w : List ι} (h : I t s w) : wp (loop e exit body t) Q H s w := by
  induction w generalizing t s with
  | nil =>
      rw [wp, loop, loopOn]
      cases hx : exit t s with
      | some a => exact hexit t s _ a h hx
      | none => exact hhalt t s _ h
  | cons i w ih =>
      rw [wp, loop, loopOn]
      cases hx : exit t s with
      | some a => exact hexit t s _ a h hx
      | none =>
          cases hb : body t s i with
          | none => exact hhalt t s _ h
          | some r =>
              obtain ⟨r, s'⟩ := r
              cases r with
              | inl t' => exact ih (hnext t s i w t' s' h hx hb)
              | inr a => exact hdone t s i w a s' h hx hb

end Looping

/-! ## What a program keeps of the state and the script together -/

/-- If `I` holds of the state and the answers to come, it holds of what `p` leaves of them. -/
def Keeps (I : σ → List ι → Prop) (p : Prog ι ε σ α) : Prop :=
  ∀ s w, I s w → wp p (fun _ s' w' => I s' w') (fun _ _ => True) s w

section Keeping

variable {I : σ → List ι → Prop} {p q : Prog ι ε σ α} {f : α → Prog ι ε σ β}

theorem Keeps.pure (a : α) : Keeps I (pure a : Prog ι ε σ α) := fun _ _ h => h

theorem Keeps.modify {g : σ → σ} (hg : ∀ s w, I s w → I (g s) w) :
    Keeps I (modify g : Prog ι ε σ Unit) := hg

theorem Keeps.await {e : ε} {k : ι → Option (α × (σ → σ))}
    (hk : ∀ i a g s w, k i = some (a, g) → I s (i :: w) → I (g s) w) : Keeps I (await e k) := by
  intro s w h
  refine wp_await e k trivial fun i a g w' hw hi => ?_
  subst hw
  exact hk i a g s w' hi h

theorem Keeps.bind (hp : Keeps I p) (hf : ∀ a, Keeps I (f a)) : Keeps I (p >>= f) := by
  intro s w h
  rw [wp_bind]
  exact wp_mono (hp s w h) (fun a s' w' h' => hf a s' w' h') fun _ _ h' => h'

theorem Keeps.ite {c : Prop} [Decidable c] (hp : Keeps I p) (hq : Keeps I q) :
    Keeps I (if c then p else q) := by
  split
  · exact hp
  · exact hq

theorem Keeps.get_bind {f : σ → Prog ι ε σ β} (hf : ∀ s, Keeps I (f s)) : Keeps I (get >>= f) := by
  intro s w h
  rw [wp_bind, wp_get]
  exact hf s s w h

theorem Keeps.loop {τ : Type} {e : ε} {exit : τ → σ → Option α}
    {body : τ → σ → ι → Option ((τ ⊕ α) × σ)}
    (hbody : ∀ t s i w r s', body t s i = some (r, s') → I s (i :: w) → I s' w) (t : τ) :
    Keeps I (loop e exit body t) := by
  intro s w h
  refine wp_loop (fun _ s' w' => I s' w') (fun _ _ _ _ h' _ => h') (fun _ _ _ _ => trivial)
    ?_ ?_ h
  · intro t s i w t' s' h' _ hb
    exact hbody t s i w _ s' hb h'
  · intro t s i w a s' h' _ hb
    exact hbody t s i w _ s' hb h'

end Keeping

/-! ## What a program can do to its state -/

/-- Wherever `p` returns or halts, the state is `R`-later than the one it started in. -/
def Along (R : σ → σ → Prop) (p : Prog ι ε σ α) : Prop :=
  ∀ s w, wp p (fun _ s' _ => R s s') (fun _ s' => R s s') s w

section Going

variable {R : σ → σ → Prop} {p q : Prog ι ε σ α} {f : α → Prog ι ε σ β}

theorem Along.pure (hr : ∀ s, R s s) (a : α) : Along R (pure a : Prog ι ε σ α) :=
  fun s _ => hr s

theorem Along.halt (hr : ∀ s, R s s) (e : ε) : Along R (halt e : Prog ι ε σ α) :=
  fun s _ => hr s

theorem Along.modify {g : σ → σ} (hg : ∀ s, R s (g s)) :
    Along R (modify g : Prog ι ε σ Unit) := fun s _ => hg s

theorem Along.await (hr : ∀ s, R s s) {e : ε} {k : ι → Option (α × (σ → σ))}
    (hk : ∀ i a g s, k i = some (a, g) → R s (g s)) : Along R (await e k) :=
  fun s _ => wp_await e k (hr s) fun i a g _ _ h => hk i a g s h

/-- Go on from a state that is already `R`-later than `s₀`. -/
theorem Along.after (hp : Along R p) (ht : ∀ {a b c}, R a b → R b c → R a c) {s₀ s : σ}
    (h₀ : R s₀ s) (w : List ι) :
    wp p (fun _ s' _ => R s₀ s') (fun _ s' => R s₀ s') s w :=
  wp_mono (hp s w) (fun _ _ _ h => ht h₀ h) fun _ _ h => ht h₀ h

theorem Along.bind (ht : ∀ {a b c}, R a b → R b c → R a c) (hp : Along R p)
    (hf : ∀ a, Along R (f a)) : Along R (p >>= f) := by
  intro s w
  rw [wp_bind]
  exact wp_mono (hp s w) (fun a s' w' h => (hf a).after ht h w') fun _ _ h => h

theorem Along.ite {c : Prop} [Decidable c] (hp : Along R p) (hq : Along R q) :
    Along R (if c then p else q) := by
  split
  · exact hp
  · exact hq

/-- A branch on the state just read. -/
theorem Along.get_bind {f : σ → Prog ι ε σ β}
    (hf : ∀ s w, wp (f s) (fun _ s' _ => R s s') (fun _ s' => R s s') s w) :
    Along R (get >>= f) := by
  intro s w
  rw [wp_bind, wp_get]
  exact hf s w

end Going

/-! ## Runs

    A system offers calls `κ`, each a scripted program; `ok` says which call may be
    made in which state, on which script.  A run is a sequence of calls that all
    returned with their script used up. -/

section Runs

variable {κ : Type} (code : κ → Prog ι ε σ Unit) (ok : σ → κ → List ι → Prop) (s₀ : σ)

/-- `s` is reached after finitely many complete calls. -/
inductive Reaches : σ → Prop where
  | init : Reaches s₀
  | step {s s' : σ} {k : κ} {w : List ι} : Reaches s → ok s k w →
      code k s w = .ret () s' [] → Reaches s'

/-- After finitely many complete calls the next one stops with `e` in `s`. -/
inductive Stops : ε → σ → Prop where
  | intro {s s' : σ} {k : κ} {w : List ι} {e : ε} : Reaches code ok s₀ s → ok s k w →
      code k s w = .halt e s' → Stops e s'

variable {code ok s₀}

/-- The invariant rule for runs. -/
theorem reaches_inv {I : σ → Prop} {J : ε → σ → Prop} (h₀ : I s₀)
    (hstep : ∀ s k w, I s → ok s k w →
      wp (code k) (fun _ s' _ => I s') J s w) {s : σ}
    (h : Reaches code ok s₀ s) : I s := by
  induction h with
  | init => exact h₀
  | @step s s' k w _ hok hrun ih =>
      have := hstep s k w ih hok
      rw [wp] at this
      rw [hrun] at this
      exact this

/-- What an invariant says about the moment a run stops inside a call. -/
theorem stops_inv {I : σ → Prop} {J : ε → σ → Prop} (h₀ : I s₀)
    (hstep : ∀ s k w, I s → ok s k w →
      wp (code k) (fun _ s' _ => I s') J s w) {e : ε} {s : σ}
    (h : Stops code ok s₀ e s) : J e s := by
  obtain ⟨hr, hok, hrun⟩ := h
  have := hstep _ _ _ (reaches_inv h₀ hstep hr) hok
  rw [wp] at this
  rw [hrun] at this
  exact this

end Runs

/-! ## Replaying a run -/

section Replay

variable {κ : Type} (code : κ → Prog ι ε σ Unit) (ok : σ → κ → List ι → Bool)

/-- Make the calls of a list one after the other; nothing unless each may be made and
    returns with its script used up. -/
def replay : List (κ × List ι) → σ → Option σ
  | [], s => some s
  | (k, w) :: calls, s =>
      if ok s k w then
        match code k s w with
        | .ret () s' [] => replay calls s'
        | _ => none
      else none

variable {code ok}

theorem reaches_replay {s₀ s s' : σ} (h : Reaches code (fun s k w => ok s k w = true) s₀ s) :
    ∀ {calls}, replay code ok calls s = some s' →
      Reaches code (fun s k w => ok s k w = true) s₀ s' := by
  intro calls hrun
  induction calls generalizing s with
  | nil =>
      cases hrun
      exact h
  | cons call calls ih =>
      obtain ⟨k, w⟩ := call
      simp only [replay] at hrun
      split at hrun
      · rename_i hok
        split at hrun
        · rename_i hret
          exact ih (h.step hok hret) hrun
        · cases hrun
      · cases hrun

variable (code ok) in
/-- Replay `calls`, then make the call `k`: where that one halts. -/
def replayHalt (calls : List (κ × List ι)) (k : κ) (w : List ι) (s : σ) : Option (ε × σ) :=
  match replay code ok calls s with
  | some s' =>
      if ok s' k w then
        match code k s' w with
        | .halt e s'' => some (e, s'')
        | _ => none
      else none
  | none => none

theorem stops_replayHalt {calls : List (κ × List ι)} {k : κ} {w : List ι} {s₀ s : σ} {e : ε}
    (h : replayHalt code ok calls k w s₀ = some (e, s)) :
    Stops code (fun s k w => ok s k w = true) s₀ e s := by
  rw [replayHalt] at h
  split at h
  · rename_i hrun
    split at h
    · rename_i hok
      split at h
      · rename_i hhalt
        cases h
        exact ⟨reaches_replay .init hrun, hok, hhalt⟩
      · cases h
    · cases h
  · cases h

end Replay

end ScriptProg
