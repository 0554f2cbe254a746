import CastlePlus.Listener
import CastlePlus.EchoConnection
import CastlePlus.LoopRuns

/-! # The drain contract of edge-triggered handlers

    A handler registered with `EPOLLET` gets no second event for input it leaves in the
    kernel.  So `on_readable` may return only after a call that would have blocked, with the
    input turned off for a reason the handler remembers, or with its close scheduled.

    Of the pair, the client's loop is `pump_read`, and nothing behind it in `drive` touches
    what it left (`Untouched`); the backend's loop comes back to its own test after every
    nested callback. -/

namespace CastlePlus

open ScriptProg

variable {cfg : Cfg} {s s' : Pair} {w : List Answer} {n : Nat}

/-! ## HttpConnection -/

/-- The client's input is exhausted or turned off. -/
def ClientQuiet (s : Pair) : Prop :=
  s.hist.clientDry = true ∨ s.client.readPaused = true ∨ s.client.clientEof = true

/-- The same, or the connection is closed. -/
def ClientDone (s : Pair) : Prop := s.client.closed = true ∨ ClientQuiet s

theorem ClientDone.untouched (h : ClientDone s) (hu : Untouched s s') : ClientDone s' := by
  rcases h with hc | hq
  · exact .inl (hu.closed hc)
  · refine .inr ?_
    rw [ClientQuiet]
    rw [hu.dry, hu.paused, hu.eof]
    exact hq

/-- `pump_read` returns nowhere else. -/
theorem pumpRead_done : ∀ n s w,
    wp (pumpRead cfg n) (fun _ s' _ => ClientDone s') (fun _ _ => True) s w := by
  intro n
  induction n with
  | zero => exact fun _ _ => trivial
  | succ n ih =>
      intro s w
      simp only [pumpRead, wp_bind, wp_get, wp_ite, wp_pure]
      refine ⟨fun hoff => .inr (.inr hoff), fun _ => ?_⟩
      refine wp_transportRecv trivial ?_
      intro a w₁ res _ _ _
      cases res with
      | ok c =>
          simp only [wp_bind, wp_modify, wp_get, wp_ite, wp_pure]
          refine wp_mono wp_trivial (fun _ s₂ w₂ _ => ?_) fun _ _ _ => trivial
          exact ⟨fun hc => .inl hc, fun _ => ih s₂ w₂⟩
      | closed =>
          simp only [wp_bind, wp_modify, wp_get, wp_ite, wp_pure]
          exact ⟨fun _ => .inr (.inr (.inr rfl)), fun _ => .inl closed_closeBoth⟩
      | error =>
          simp only [wp_bind, wp_modify, wp_pure]
          exact .inl closed_closeBoth
      | wouldBlockRead => exact .inr (.inl rfl)
      | wouldBlockWrite => exact .inr (.inl rfl)

theorem drivePumps_done (n : Nat) (s : Pair) (w : List Answer) :
    wp (drivePumps cfg n) (fun _ s' _ => ClientDone s') (fun _ _ => True) s w := by
  cases n with
  | zero => trivial
  | succ n =>
      simp only [drivePumps, wp_bind, wp_modify, wp_get, wp_ite, wp_pure]
      refine wp_mono (pumpRead_done n s w) (fun st s₁ w₁ h₁ => ?_) fun _ _ _ => trivial
      refine ⟨fun hc => .inl hc, fun _ => ?_⟩
      have h₂ : ClientDone (setReadBlock st s₁) := h₁
      have hw := (resp_along Untouched.moves cfg n).pumpWrite (setReadBlock st s₁) w₁
      refine wp_mono hw (fun st' s₃ _ hu => ?_) fun _ _ _ => trivial
      exact (h₂.untouched hu).untouched (.of_outline (outline_finishPump st'))

theorem drive_done (n : Nat) (s : Pair) (w : List Answer) :
    wp (drive cfg n) (fun _ s' _ => ClientDone s') (fun _ _ => True) s w := by
  cases n with
  | zero => trivial
  | succ n =>
      simp only [drive, wp_bind, wp_get, wp_ite, wp_pure]
      refine ⟨fun hc => .inl hc, fun _ => ⟨fun _ => drivePumps_done n s w, fun _ => ?_⟩⟩
      refine wp_transportHandshake trivial ?_
      intro a w₁ res _ _ _
      -- a handshake that would block is the last call of the wakeup
      have hblock : ∀ {t : Pair} ev, t.hist.clientDry = true →
          ClientDone (setInterest ev t) := fun ev hdry =>
        ClientDone.untouched (.inr (.inl hdry)) (.of_outline (outline_setInterest ev))
      cases res with
      | ok u =>
          simp only [wp_bind, wp_modify]
          exact drivePumps_done n _ w₁
      | wouldBlockRead => exact hblock _ rfl
      | wouldBlockWrite => exact hblock _ rfl
      | closed => exact .inl closed_closeBoth
      | error => exact .inl closed_closeBoth

/-- On a registered connection, closed means scheduled. -/
theorem clientReadable_drains (h : Reachable cfg s) (hen : enabled s .clientReadable = true)
    {w' : List Answer} (hrun : dispatch cfg .clientReadable s w = .ret () s' w')
    (hp : s'.clientPending = false) : ClientQuiet s' := by
  have hwp : wp (dispatch cfg .clientReadable) (fun _ s' _ => ClientDone s' ∧ Onward s s')
      (fun _ s' => True ∧ Onward s s') s w :=
    wp_dispatch.mpr (wp_and (drive_done _ s w) ((req_onward cfg _).drive s w))
  rw [wp] at hwp
  rw [hrun] at hwp
  obtain ⟨hdone, hon⟩ := hwp
  refine hdone.resolve_left fun hc => ?_
  have hsw : Swept s := (h.loop.live ⟨cfg, s⟩ (by simp)).swept
  have hpend := hon.swept hsw hc (hon.registered.trans hen)
  rw [hp] at hpend
  cases hpend

/-! ## BackendConnection -/

/-- The backend's input is exhausted or turned off. -/
def BackendQuiet (s : Pair) : Prop :=
  s.hist.backendDry = true ∨ ∃ b, s.backend = some b ∧ b.readPaused = true

theorem fail_schedules (n : Nat) (why : Bytes) (s : Pair) (w : List Answer) :
    wp (fail cfg n why) (fun _ s' _ => s'.backendPending = true) (fun _ _ => True) s w := by
  cases n with
  | zero => trivial
  | succ n =>
      simp only [fail, wp_bind, wp_ite, wp_modify]
      refine wp_mono wp_trivial (fun b s₁ w₁ _ => ?_) fun _ _ _ => trivial
      refine ⟨fun _ => ?_, fun _ => rfl⟩
      exact wp_mono wp_trivial (fun _ _ _ _ => rfl) fun _ _ _ => trivial

theorem onReadable_done : ∀ n s w,
    wp (onReadable cfg n) (fun _ s' _ => BackendQuiet s' ∨ s'.backendPending = true)
      (fun _ _ => True) s w := by
  intro n
  induction n with
  | zero => exact fun _ _ => trivial
  | succ n ih =>
      intro s w
      cases hb : s.backend with
      | none =>
          simp only [onReadable, self, wp_bind, wp_get, hb, wp_halt]
      | some b =>
          simp only [onReadable, wp_bind, wp_self hb, wp_ite, wp_pure]
          refine ⟨fun hoff => .inl (.inr ⟨b, hb, hoff⟩), fun _ => ?_⟩
          refine wp_backendRead trivial ?_
          intro a w₁ res _ _
          cases res with
          | data c =>
              simp only [wp_bind, wp_modify, wp_ite]
              refine ⟨fun _ => ?_, fun _ => ih _ w₁⟩
              exact wp_mono wp_trivial (fun _ s₂ w₂ _ => ih s₂ w₂) fun _ _ _ => trivial
          | eof =>
              simp only [wp_bind, wp_modify, wp_ite]
              refine ⟨fun _ => ?_, fun _ => .inr rfl⟩
              exact wp_mono wp_trivial (fun _ _ _ _ => .inr rfl) fun _ _ _ => trivial
          | again => exact .inl (.inl rfl)
          | intr => exact ih _ w₁
          | error =>
              exact wp_mono (fail_schedules n _ _ w₁) (fun _ _ _ hp => .inr hp)
                fun _ _ _ => trivial

theorem backendReadable_drains {w' : List Answer}
    (hrun : dispatch cfg .backendReadable s w = .ret () s' w')
    (hp : s'.backendPending = false) : BackendQuiet s' := by
  have hwp : wp (dispatch cfg .backendReadable)
      (fun _ s' _ => BackendQuiet s' ∨ s'.backendPending = true) (fun _ _ => True) s w :=
    wp_dispatch.mpr (onReadable_done _ s w)
  rw [wp] at hwp
  rw [hrun] at hwp
  refine hwp.resolve_right fun hpend => ?_
  rw [hp] at hpend
  cases hpend

/-! ## The contract -/

/-- A call of `on_readable` on a handler registered with `EPOLLET`: the state it was made in,
    its script and the state it returned in. -/
inductive Wakeup where
  | listener (l : Listener) (w : List AcceptResult) (l' : Listener)
  | echo (e : EchoConnection) (w : List EchoResult) (e' : EchoConnection)
  | client (cfg : Cfg) (s : Pair) (w : List Answer) (s' : Pair)
  | backend (cfg : Cfg) (s : Pair) (w : List Answer) (s' : Pair)

namespace Wakeup

/-- The handler was registered, in a reachable state, and the call returned. -/
def Returned : Wakeup → Prop
  | .listener l w l' => Listener.onReadable l w = .ret () l' []
  | .echo e w e' => EchoConnection.onReadable e w = .ret () e' []
  | .client cfg s w s' => Reachable cfg s ∧ enabled s .clientReadable = true ∧
      dispatch cfg .clientReadable s w = .ret () s' []
  | .backend cfg s w s' => Reachable cfg s ∧ enabled s .backendReadable = true ∧
      dispatch cfg .backendReadable s w = .ret () s' []

/-- The handler is in `pending_close_`; a listener never is. -/
def scheduled : Wakeup → Bool
  | .listener _ _ _ => false
  | .echo _ _ e' => e'.pending
  | .client _ _ _ s' => s'.clientPending
  | .backend _ _ _ s' => s'.backendPending

/-- The last call on the fd would have blocked, or the handler remembers why its input is
    off. -/
def Quiet : Wakeup → Prop
  | .listener _ _ l' => l'.dry = true
  | .echo _ _ e' => e'.dry = true ∨ e'.closing = true
  | .client _ _ _ s' => ClientQuiet s'
  | .backend _ _ _ s' => BackendQuiet s'

/-- An `accept4` failed with an errno the accept loop does not expect. -/
def acceptFailed : Wakeup → Bool
  | .listener _ w _ => decide (.acceptOther ∈ w)
  | _ => false

end Wakeup

/-- Three of the four edge-triggered handlers never leave input behind; the listener does so
    exactly in the calls in which an `accept4` failed so. -/
theorem drained_on_return (x : Wakeup) (h : x.Returned) (hp : x.scheduled = false) :
    x.Quiet ↔ x.acceptFailed = false := by
  cases x with
  | listener l w l' => exact (Listener.drained_iff h).trans decide_eq_false_iff_not.symm
  | echo e w e' => exact ⟨fun _ => rfl, fun _ => EchoConnection.onReadable_drains h hp⟩
  | client cfg s w s' =>
      obtain ⟨hreach, hen, hrun⟩ := h
      exact ⟨fun _ => rfl, fun _ => clientReadable_drains hreach hen hrun hp⟩
  | backend cfg s w s' =>
      obtain ⟨-, -, hrun⟩ := h
      exact ⟨fun _ => rfl, fun _ => backendReadable_drains hrun hp⟩

theorem drained_on_return_idle : ∃ s', (Wakeup.client demoCfg (newPair 0 [])
    [{ res := .handshake (.ok ()) }, { res := .recv .wouldBlockRead }] s').Quiet := by
  obtain ⟨s', hrun, hp⟩ : ∃ s', dispatch demoCfg .clientReadable (newPair 0 [])
      [{ res := .handshake (.ok ()) }, { res := .recv .wouldBlockRead }] = .ret () s' [] ∧
      s'.clientPending = false := ⟨_, rfl, rfl⟩
  exact ⟨s', (drained_on_return (.client demoCfg _ _ s') ⟨⟨0, [], .init⟩, rfl, hrun⟩ hp).mpr rfl⟩

/-- The listener runs out of descriptors behind the first connection: it returns, with the
    rest of the queue in the kernel. -/
theorem queue_left : ∃ l', (Wakeup.listener {} [.conn 0x7f000001 0 true true, .acceptOther]
      l').Returned ∧
    ¬ (Wakeup.listener {} [.conn 0x7f000001 0 true true, .acceptOther] l').Quiet :=
  ⟨{ added := 1 }, rfl, (by rintro ⟨⟩)⟩

end CastlePlus
