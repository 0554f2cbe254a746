import CastlePlus.Delivery

/-! # The idle sweep and backpressure

    `EventLoop::sweep_timeouts` asks each endpoint of a pair for its own `last_activity_`.
    An endpoint that castle has paused moves no byte, so its clock runs on while the other
    endpoint keeps moving bytes.

    **`sweep_spares_paused`**: of a pair with one endpoint paused and the other one active,
    the sweep closes neither exactly when the paused endpoint was itself active within the
    timeout.  No system call is made on the way. -/

namespace CastlePlus

open ScriptProg

variable {cfg : Cfg} {s s' : Pair} {w : List Answer} {n : Nat} {b : BackendConnection}

/-- `handler->check_timeout(now)` for an entry of `handlers_`. -/
def checkTimeout (cfg : Cfg) (cb : Callback) : M Unit := do
  let s ← get
  if enabled s cb then dispatch cfg cb

/-- `EventLoop::sweep_timeouts`, for the two entries of the pair; the map yields them in
    either order. -/
def sweepTimeouts (cfg : Cfg) (now : Nat) (backendFirst : Bool) : M Unit :=
  if backendFirst then do
    checkTimeout cfg (.backendTimeout now)
    checkTimeout cfg (.clientTimeout now)
  else do
    checkTimeout cfg (.clientTimeout now)
    checkTimeout cfg (.backendTimeout now)

/-- Neither endpoint is in `pending_close_`. -/
def Spared (s : Pair) : Prop := s.clientPending = false ∧ s.backendPending = false

section Checking

variable {now : Nat} {Q : Unit → Pair → List Answer → Prop} {H : Halt → Pair → Prop}

theorem checkClient_fresh (hfresh : idleExpired cfg now s.client.lastActivity = false)
    (hQ : Q () s w) : wp (checkTimeout cfg (.clientTimeout now)) Q H s w := by
  simp only [checkTimeout, wp_bind, wp_get, wp_ite, wp_pure]
  refine ⟨fun _ => ?_, fun _ => hQ⟩
  rw [wp_dispatch]
  simp only [callback, wp_modify, hfresh]
  exact hQ

theorem checkClient_expired (hm : s.clientMask.isSome = true)
    (hold : idleExpired cfg now s.client.lastActivity = true) (hQ : Q () (closeBoth s) w) :
    wp (checkTimeout cfg (.clientTimeout now)) Q H s w := by
  simp only [checkTimeout, wp_bind, wp_get, wp_ite, wp_pure]
  refine ⟨fun _ => ?_, fun hno => absurd hm hno⟩
  rw [wp_dispatch]
  simp only [callback, wp_modify, hold]
  exact hQ

theorem checkBackend_fresh (hb : s.backend = some b)
    (hfresh : idleExpired cfg now b.lastActivity = false) (hQ : Q () s w) :
    wp (checkTimeout cfg (.backendTimeout now)) Q H s w := by
  simp only [checkTimeout, wp_bind, wp_get, wp_ite, wp_pure]
  refine ⟨fun _ => ?_, fun _ => hQ⟩
  rw [wp_dispatch]
  simp only [callback, wp_bind, wp_self hb, hfresh]
  exact hQ

/-- `fail` under a reply: the error page is too late, both sides are dropped. -/
def dropped (s : Pair) : Pair := requestCloseBackend (cutOff (detachBackend (detachClient s)))

theorem checkBackend_expired (hb : s.backend = some b) (hcl : b.hasClient = true)
    (hr : s.client.responded = true) (hm : s.backendMask.isSome = true)
    (hold : idleExpired cfg now b.lastActivity = true) (hQ : Q () (dropped s) w) :
    wp (checkTimeout cfg (.backendTimeout now)) Q H s w := by
  simp only [checkTimeout, wp_bind, wp_get, wp_ite, wp_pure]
  refine ⟨fun _ => ?_, fun hno => absurd hm hno⟩
  rw [wp_dispatch]
  -- sixteen is enough for the two calls below
  simp only [callback, fuelFor, fail, onBackendError, wp_bind, wp_self hb, wp_ite, wp_modify,
    wp_get, hold, hcl]
  refine ⟨fun _ => ⟨fun _ => ⟨fun _ => hQ, fun hno => absurd hr hno⟩, fun hno => ?_⟩, fun hno => ?_⟩
  · exact absurd trivial hno
  · exact absurd trivial hno

end Checking

/-! ## The sweep -/

theorem spared_iff_of_closed {p : Bool} (hc : s'.clientPending = true) (hp : p = true) :
    Spared s' ↔ p = false := by
  subst hp
  refine ⟨fun hsp => ?_, (by rintro ⟨⟩)⟩
  rw [hsp.1] at hc
  cases hc

/-- A program that cannot halt returns. -/
theorem returns_of_wp {p : M Unit} {Q : Pair → Prop}
    (h : wp p (fun _ s' w' => w' = w ∧ Q s') (fun _ _ => False) s w) :
    ∃ s', p s w = .ret () s' w ∧ Q s' := by
  rw [wp] at h
  cases hrun : p s w with
  | ret a s' w' =>
      rw [hrun] at h
      obtain ⟨rfl, hq⟩ := h
      exact ⟨s', rfl, hq⟩
  | halt e s' => rw [hrun] at h; exact h.elim

/-- A linked pair is open, registered and not scheduled. -/
theorem Reachable.spared (h : Reachable cfg s) (hlink : s.client.hasBackend = true) :
    s.client.closed = false ∧ Spared s := by
  have hc := h.inv.settled.steady.toCore
  have hopen : s.client.closed = false := by
    cases hcl : s.client.closed with
    | false => rfl
    | true => rw [hc.closedCut hcl] at hlink; cases hlink
  refine ⟨hopen, ?_, ?_⟩
  · cases hp : s.clientPending with
    | false => rfl
    | true => rw [hc.clientPending hp] at hopen; cases hopen
  · cases hp : s.backendPending with
    | false => rfl
    | true => rw [hc.backendPending hp] at hlink; cases hlink

/-- The download: the backend is paused, the client moves bytes. -/
theorem sweep_download (h : Reachable cfg s) (hb : s.backend = some b)
    (hlink : s.client.hasBackend = true) (hpaused : b.readPaused = true) {now : Nat}
    (hfresh : idleExpired cfg now s.client.lastActivity = false) (backendFirst : Bool) :
    ∃ s', sweepTimeouts cfg now backendFirst s w = .ret () s' w ∧
      (Spared s' ↔ idleExpired cfg now b.lastActivity = false) := by
  have hs := h.inv.settled
  obtain ⟨hopen, hspared⟩ := h.spared hlink
  cases hold : idleExpired cfg now b.lastActivity with
  | false =>
      refine returns_of_wp ?_
      rw [sweepTimeouts]
      rw [wp_ite, wp_bind, wp_bind]
      have hQ : w = w ∧ (Spared s ↔ false = false) := ⟨rfl, fun _ => rfl, fun _ => hspared⟩
      exact ⟨fun _ => checkBackend_fresh hb hold (checkClient_fresh hfresh hQ),
        fun _ => checkClient_fresh hfresh (checkBackend_fresh hb hold hQ)⟩
  | true =>
      -- a paused backend has begun its reply
      have hflag : s.client.backendPaused = true :=
        (hs.steady.agree.flags hlink b hb).symm.trans hpaused
      have hr := hs.steady.pausedResponded hflag
      obtain ⟨b', hb', hcl⟩ := hs.steady.linked hlink
      obtain rfl : b' = b := Option.some.inj (hb'.symm.trans hb)
      have hm : s.backendMask.isSome = true := hs.backendIn (by simp [hb])
      have hdrop : (dropped s).clientPending = true ∧
          (dropped s).client.lastActivity = s.client.lastActivity := by
        rw [dropped, cutOff]
        rw [closeBoth_of_open (by exact hopen)]
        exact ⟨rfl, rfl⟩
      have hQ : w = w ∧ (Spared (dropped s) ↔ true = false) :=
        ⟨rfl, spared_iff_of_closed hdrop.1 rfl⟩
      refine returns_of_wp ?_
      rw [sweepTimeouts]
      rw [wp_ite, wp_bind, wp_bind]
      refine ⟨fun _ => ?_, fun _ => ?_⟩
      · refine checkBackend_expired hb hcl hr hm hold (checkClient_fresh ?_ hQ)
        rw [hdrop.2]
        exact hfresh
      · exact checkClient_fresh hfresh (checkBackend_expired hb hcl hr hm hold hQ)

/-- The upload: the client is paused, the backend moves bytes. -/
theorem sweep_upload (h : Reachable cfg s) (hb : s.backend = some b)
    (hlink : s.client.hasBackend = true) {now : Nat}
    (hfresh : idleExpired cfg now b.lastActivity = false) (backendFirst : Bool) :
    ∃ s', sweepTimeouts cfg now backendFirst s w = .ret () s' w ∧
      (Spared s' ↔ idleExpired cfg now s.client.lastActivity = false) := by
  obtain ⟨hopen, hspared⟩ := h.spared hlink
  refine returns_of_wp ?_
  rw [sweepTimeouts]
  rw [wp_ite, wp_bind, wp_bind]
  cases hold : idleExpired cfg now s.client.lastActivity with
  | false =>
      have hQ : w = w ∧ (Spared s ↔ false = false) := ⟨rfl, fun _ => rfl, fun _ => hspared⟩
      exact ⟨fun _ => checkBackend_fresh hb hfresh (checkClient_fresh hold hQ),
        fun _ => checkClient_fresh hold (checkBackend_fresh hb hfresh hQ)⟩
  | true =>
      have hm : s.clientMask.isSome = true := h.inv.settled.clientIn hopen
      have hclose : (closeBoth s).clientPending = true ∧
          (closeBoth s).backend = some { b with hasClient := false } := by
        rw [closeBoth_of_open hopen]
        exact ⟨rfl, by simp [hlink, hb]⟩
      have hQ : w = w ∧ (Spared (closeBoth s) ↔ true = false) :=
        ⟨rfl, spared_iff_of_closed hclose.1 rfl⟩
      exact ⟨fun _ => checkBackend_fresh hb hfresh (checkClient_expired hm hold hQ),
        fun _ => checkClient_expired hm hold (checkBackend_fresh hclose.2 hfresh hQ)⟩

/-- A sweep over a linked pair with one endpoint paused and the other one active within the
    timeout closes neither exactly when the paused one was active within the timeout too. -/
theorem sweep_spares_paused (h : Reachable cfg s) (hb : s.backend = some b)
    (hlink : s.client.hasBackend = true) (now : Nat) (backendFirst : Bool) (w : List Answer) :
    (b.readPaused = true → idleExpired cfg now s.client.lastActivity = false →
      ∃ s', sweepTimeouts cfg now backendFirst s w = .ret () s' w ∧
        (Spared s' ↔ idleExpired cfg now b.lastActivity = false)) ∧
    (s.client.readPaused = true → idleExpired cfg now b.lastActivity = false →
      ∃ s', sweepTimeouts cfg now backendFirst s w = .ret () s' w ∧
        (Spared s' ↔ idleExpired cfg now s.client.lastActivity = false)) :=
  ⟨fun hp hfresh => sweep_download h hb hlink hp hfresh backendFirst,
    fun _ hfresh => sweep_upload h hb hlink hfresh backendFirst⟩

/-! ## A slow download -/

/-- `demoCfg` with an idle timeout of a minute. -/
def timedCfg : Cfg := { demoCfg with timeout := 60 }

/-- A run of no duration that ends with the backend paused. -/
theorem exists_paused : ∃ s, Reachable timedCfg s ∧ Relaying s true ∧
    kBackpressureHigh < s.client.outBuf.length := by
  obtain ⟨s₀, hr₀, h₀, hout₀⟩ := Relaying.of_replay
    (show (replay (dispatch timedCfg) legal demoSent (newPair 0 [])).any relayStart = true by
      decide +kernel)
  obtain ⟨w, s, hrun, hs⟩ : ∃ w s, dispatch timedCfg .backendReadable s₀ w = .ret () s [] ∧ _ :=
    h₀.pauses hout₀
  have hreach : Reachable timedCfg s₀ := ⟨0, [], hr₀⟩
  obtain ⟨b, hb, -⟩ := h₀.object
  have hok : legal s₀ .backendReadable w = true := hreach.inv.settled.backendIn (by simp [hb])
  exact ⟨s, ⟨0, [], hr₀.step hok hrun⟩, hs⟩

theorem sweep_spares_paused_demo : ∃ s s', Reachable timedCfg s ∧ s.client.backendPaused = true ∧
    sweepTimeouts timedCfg 0 false s [] = .ret () s' [] ∧ Spared s' := by
  obtain ⟨s, hreach, h, -⟩ := exists_paused
  obtain ⟨b, hb, -, hp⟩ := h.object
  have hfresh : ∀ la, idleExpired timedCfg 0 la = false := by
    intro la
    simp [idleExpired, timedCfg]
  obtain ⟨s', hrun, hiff⟩ :=
    (sweep_spares_paused hreach hb h.linked 0 false []).1 hp (hfresh _)
  exact ⟨s, s', hreach, h.flag, hrun, hiff.mpr (hfresh _)⟩

/-- The client takes one byte, `dt` after its last one, and blocks again. -/
def sip (dt : Nat) : List Answer :=
  [{ res := .recv .wouldBlockRead }, { res := .send (.ok ⟨1, by decide⟩), dt },
   { res := .send .wouldBlockWrite }]

/-- What that does: the client's clock is set, the backend's is not. -/
structure Sipped (s : Pair) (dt : Nat) (s' : Pair) : Prop where
  relaying : Relaying s' true
  sent : s'.hist.toClient.length = s.hist.toClient.length + 1
  unsent : s'.client.outBuf ≠ []
  touched : s'.client.lastActivity = s.now + dt
  backend : s'.backend = s.backend

theorem Sipped.finishPump {dt : Nat} (h : Sipped s dt s') (st : IoStatus) :
    Sipped s dt (finishPump st s') := by
  obtain ⟨mask, mods, failed, heq, -, -⟩ := recomputeInterest_cases (setWriteBlock st s')
  have hkeep : (CastlePlus.finishPump st s').hist.toClient = s'.hist.toClient ∧
      (CastlePlus.finishPump st s').client.outBuf = s'.client.outBuf ∧
      (CastlePlus.finishPump st s').client.lastActivity = s'.client.lastActivity ∧
      (CastlePlus.finishPump st s').backend = s'.backend := by
    rw [CastlePlus.finishPump]
    rw [heq]
    split <;> exact ⟨rfl, rfl, rfl, rfl⟩
  obtain ⟨hsent, hout, htouch, hobj⟩ := hkeep
  refine ⟨h.relaying.finishPump st, ?_, ?_, htouch.trans h.touched, hobj.trans h.backend⟩
  · rw [hsent]; exact h.sent
  · rw [hout]; exact h.unsent

theorem wp_pump_sip (h : Relaying s true) (hlen : 1 < s.client.outBuf.length) (dt : Nat) :
    wp (pumpWrite cfg n) (fun _ s' w' => w' = [] ∧ Sipped s dt s') (fun e _ => e = .fuel) s
      [{ res := .send (.ok ⟨1, by decide⟩), dt }, { res := .send .wouldBlockWrite }] := by
  have hone : min 1 s.client.outBuf.length = 1 := by omega
  have hout : s.client.outBuf ≠ [] := List.ne_nil_of_length_pos (by omega)
  cases n with
  | zero => rfl
  | succ n =>
      simp only [pumpWrite, wp_bind, wp_get, wp_ite, hout]
      refine ⟨(by rintro ⟨⟩), fun _ => ?_⟩
      rw [transportSend, sysCall]
      rw [wp_await_some (by rfl)]
      simp only [wp_bind, wp_modify]
      generalize hs₁ : acceptSent ⟨1, by decide⟩ (noteSend _ (tick dt s)) = s₁
      have h₁ : Sipped s dt s₁ := by
        rw [← hs₁]
        refine ⟨⟨h.1, h.2, h.3, h.4, ?_, h.6, h.7, h.8, h.9, h.10, h.11⟩, ?_, ?_, rfl, rfl⟩
        · simp [acceptSent, touchClient, noteSend, tick, h.whole]
        · simp [acceptSent, touchClient, noteSend, tick, hone]
        · show s.client.outBuf.drop (min 1 s.client.outBuf.length) ≠ []
          rw [hone, ne_eq, List.drop_eq_nil_iff]
          omega
      cases n with
      | zero => rfl
      | succ n =>
          simp only [pumpWrite, wp_bind, wp_get, wp_ite, h₁.unsent]
          refine ⟨(by rintro ⟨⟩), fun _ => ?_⟩
          rw [transportSend, sysCall]
          rw [wp_await_some (by rfl)]
          refine ⟨rfl, ⟨?_, h₁.sent, h₁.unsent, h₁.touched, h₁.backend⟩⟩
          have h₂ := h₁.relaying
          exact ⟨h₂.1, h₂.2, h₂.3, h₂.4, h₂.5, h₂.6, h₂.7, h₂.8, h₂.9, h₂.10, h₂.11⟩

theorem wp_drive_sip (h : Relaying s true) (hlen : 1 < s.client.outBuf.length) (dt : Nat) :
    wp (drive cfg n) (fun _ s' w' => w' = [] ∧ Sipped s dt s') (fun e _ => e = .fuel) s
      (sip dt) := by
  cases n with
  | zero => rfl
  | succ n =>
      simp only [drive, wp_bind, wp_get, wp_ite, wp_pure, h.opened, h.shaken]
      refine ⟨(by rintro ⟨⟩), fun _ => ⟨fun _ => ?_, fun hno => absurd trivial hno⟩⟩
      cases n with
      | zero => rfl
      | succ n =>
          simp only [drivePumps, wp_bind, wp_modify, wp_get, wp_ite, wp_pure]
          cases n with
          | zero => rfl
          | succ n =>
              simp only [pumpRead, wp_bind, wp_get, wp_ite, wp_pure, h.reading.1, h.reading.2]
              refine ⟨fun hno => ?_, fun _ => ?_⟩
              · rcases hno with hno | hno <;> cases hno
              rw [transportRecv, sysCall, sip]
              rw [wp_await_some (by rfl)]
              refine ⟨fun hno => absurd (h.opened.symm.trans hno) (by simp), fun _ => ?_⟩
              have h' : Relaying (setReadBlock .wouldBlockRead (noteRecv .wouldBlockRead
                  (tick 0 s))) true :=
                ⟨h.1, h.2, h.3, h.4, h.5, h.6, h.7, h.8, h.9, h.10, h.11⟩
              refine wp_mono (wp_pump_sip h' hlen dt) ?_ fun _ _ hh => hh
              rintro st s' w' ⟨hw, hsip⟩
              have hsip' : Sipped s dt s' :=
                ⟨hsip.relaying, hsip.sent, hsip.unsent, hsip.touched, hsip.backend⟩
              exact ⟨hw, hsip'.finishPump st⟩

/-- The backend is paused, and more than a minute later the client takes a byte.  A sweep at
    that very moment closes the connection under the unsent rest. -/
theorem slow_download_cut : ∃ s₁ s₂ s₃ w now, Reachable timedCfg s₁ ∧
    s₁.client.backendPaused = true ∧
    dispatch timedCfg .clientWritable s₁ w = .ret () s₂ [] ∧
    s₂.hist.toClient.length = s₁.hist.toClient.length + 1 ∧
    s₂.client.outBuf ≠ [] ∧ s₂.client.lastActivity = now ∧ s₂.client.backendPaused = true ∧
    sweepTimeouts timedCfg now false s₂ [] = .ret () s₃ [] ∧ ¬ Spared s₃ := by
  obtain ⟨s₁, hreach, h₁, hlen⟩ := exists_paused
  obtain ⟨b, hb, -, hp⟩ := h₁.object
  -- so long that the backend's clock runs out, whenever it was last set
  obtain ⟨dt, hdt⟩ : ∃ dt, dt = b.lastActivity + 61000000000 := ⟨_, rfl⟩
  have hlong : 1 < s₁.client.outBuf.length := by
    rw [kBackpressureHigh] at hlen
    omega
  obtain ⟨s₂, hrun, h₂⟩ : ∃ s₂, dispatch timedCfg .clientWritable s₁ (sip dt) = .ret () s₂ [] ∧ _ :=
    dispatch_returns .clientWritable (wp_dispatch.mpr (wp_drive_sip h₁ hlong dt))
  have hopen₁ := hreach.spared h₁.linked
  have hok : legal s₁ .clientWritable (sip dt) = true := by
    simp [legal, enabled, hreach.inv.settled.clientIn hopen₁.1, hopen₁.2.1]
  obtain ⟨now₀, mods, hr⟩ := hreach
  have hreach₂ : Reachable timedCfg s₂ := ⟨now₀, mods, hr.step hok hrun⟩
  have hb₂ : s₂.backend = some b := h₂.backend.trans hb
  have hfresh : idleExpired timedCfg (s₁.now + dt) s₂.client.lastActivity = false := by
    rw [h₂.touched]
    simp [idleExpired, timedCfg]
  have hold : idleExpired timedCfg (s₁.now + dt) b.lastActivity = true := by
    have hlate : (60 : Int) * 1000000000 < ((s₁.now + dt : Nat) : Int) - b.lastActivity := by
      omega
    rw [idleExpired]
    exact Bool.and_eq_true_iff.mpr ⟨rfl, decide_eq_true hlate⟩
  obtain ⟨s₃, hsweep, hiff⟩ := sweep_download (w := []) hreach₂ hb₂ h₂.relaying.linked hp hfresh
    false
  refine ⟨s₁, s₂, s₃, sip dt, s₁.now + dt, ⟨now₀, mods, hr⟩, h₁.flag, hrun, h₂.sent, h₂.unsent,
    h₂.touched, h₂.relaying.flag, hsweep, fun hsp => ?_⟩
  rw [hiff.mp hsp] at hold
  cases hold

end CastlePlus
