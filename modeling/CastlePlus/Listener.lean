import CastlePlus.ScriptProg
import CastlePlus.RateLimiter

/-! # The accept loop

    `Listener::on_readable` (`net/listener.cpp`), registered edge-triggered.  The errno of a
    failed `accept4` decides between four exits; `acceptOther` is every errno the source does
    not name, `EMFILE` and `ENFILE` among them.

    `drained_iff`: the accept queue has been emptied exactly when no `accept4` took that
    exit. -/

namespace CastlePlus

open ScriptProg

/-- One `accept4`, and for a new connection what the checks behind it find. -/
inductive AcceptResult where
  /-- the peer, the clock of the limiter, `conn_slot_available()`, and whether the factory
      returned a connection -/
  | conn (ip : UInt32) (now : ℚ) (slot made : Bool)
  /-- `EAGAIN`, `EWOULDBLOCK` -/
  | again
  | intr
  /-- `ECONNABORTED` -/
  | aborted
  | acceptOther
  deriving DecidableEq

structure Listener where
  limiter : Option RateLimiter := none
  /-- connections handed to `loop_.add` -/
  added : Nat := 0
  /-- connections closed by the listener, over the peer's rate or the global cap -/
  dropped : Nat := 0
  /-- the last `accept4` would have blocked -/
  dry : Bool := false

namespace Listener

/-- `!limiter_ || limiter_->allow(addr.sin_addr.s_addr)`. -/
def allowed (ip : UInt32) (now : ℚ) (s : Listener) : Bool × Listener :=
  match s.limiter with
  | none => (true, s)
  | some l => ((l.allow ip now).1, { s with limiter := some (l.allow ip now).2 })

/-- What follows a successful `accept4`. -/
def take (ip : UInt32) (now : ℚ) (slot made : Bool) (s : Listener) : Listener :=
  let (ok, s) := s.allowed ip now
  if !ok then { s with dropped := s.dropped + 1 }
  else if !slot then { s with dropped := s.dropped + 1 }
  else if made then { s with added := s.added + 1 }
  else s

/-- One round of the loop. -/
def accept (s : Listener) : AcceptResult → (Unit ⊕ Unit) × Listener
  | .conn ip now slot made => (.inl (), { s.take ip now slot made with dry := false })
  | .again => (.inr (), { s with dry := true })
  | .intr => (.inl (), { s with dry := false })
  | .aborted => (.inl (), { s with dry := false })
  -- logged; the loop is left with the queue as it is
  | .acceptOther => (.inr (), { s with dry := false })

/-- `Listener::on_readable`; it stops early where the script has no further answer. -/
def onReadable : Prog AcceptResult Unit Listener Unit :=
  loop () (fun _ _ => none) (fun _ s r => some (s.accept r)) ()

/-- A round goes on after everything but the two answers that leave the loop. -/
theorem accept_next {s s' : Listener} {r : AcceptResult} (h : s.accept r = (.inl (), s')) :
    r ≠ .again ∧ r ≠ .acceptOther := by
  cases r with
  | conn => exact ⟨(by rintro ⟨⟩), (by rintro ⟨⟩)⟩
  | again => cases h
  | intr => exact ⟨(by rintro ⟨⟩), (by rintro ⟨⟩)⟩
  | aborted => exact ⟨(by rintro ⟨⟩), (by rintro ⟨⟩)⟩
  | acceptOther => cases h

theorem accept_done {s s' : Listener} {r : AcceptResult} (h : s.accept r = (.inr (), s')) :
    s'.dry = true ∧ r = .again ∨ s'.dry = false ∧ r = .acceptOther := by
  cases r with
  | conn => cases h
  | again =>
      cases h
      exact .inl ⟨rfl, rfl⟩
  | intr => cases h
  | aborted => cases h
  | acceptOther =>
      cases h
      exact .inr ⟨rfl, rfl⟩

/-- The listener has emptied its queue exactly when no `accept4` of the call failed with an
    errno the loop does not expect. -/
theorem drained_iff {s s' : Listener} {w : List AcceptResult}
    (h : onReadable s w = .ret () s' []) : s'.dry = true ↔ .acceptOther ∉ w := by
  have hwp : wp onReadable (fun _ s' w' => w' = [] → (s'.dry = true ↔ .acceptOther ∉ w))
      (fun _ _ => True) s w := by
    -- the answers read so far have all kept the loop going
    refine wp_loop (fun _ _ w' => ∃ pre, w = pre ++ w' ∧ .acceptOther ∉ pre)
      (fun _ _ _ _ _ h => by cases h) (fun _ _ _ _ => trivial) ?_ ?_
      ⟨[], rfl, List.not_mem_nil⟩
    · rintro _ s₁ r w₁ _ s₂ ⟨pre, rfl, hpre⟩ _ hb
      have hne := (accept_next (Option.some.inj hb)).2
      refine ⟨pre ++ [r], by simp, ?_⟩
      simp only [List.mem_append, List.mem_singleton, not_or]
      exact ⟨hpre, hne.symm⟩
    · rintro _ s₁ r w₁ _ s₂ ⟨pre, rfl, hpre⟩ _ hb rfl
      rcases accept_done (Option.some.inj hb) with ⟨hd, rfl⟩ | ⟨hd, rfl⟩
      · simp [hd, hpre]
      · simp [hd]
  rw [wp] at hwp
  rw [h] at hwp
  exact hwp rfl

end Listener

end CastlePlus
