import CastlePlus.ProxyInvariant

/-! # The response side keeps the invariant

    One specification per function of the response side, proved together by induction
    on the fuel: `resp_specs`.  Each starts from `Core` or `Steady`, ends in `Steady`,
    leaves the upload alone (`RespFrame`), and stops only inside a system call
    (`AtCall`). -/

namespace CastlePlus

open ScriptProg

variable {cfg : Cfg} {s s' : Pair} {w : List Answer} {n : Nat}

/-- Where a response-side function started in `s` may stop. -/
def RespHalt (cfg : Cfg) (s : Pair) (e : Halt) (s' : Pair) : Prop :=
  e = .fuel ∨ (e = .pending ∧ AtCall cfg s' ∧ RespFrame s s')

theorem RespHalt.of_frame {e : Halt} {s₁ : Pair} (hf : RespFrame s s₁) (h : RespHalt cfg s₁ e s') :
    RespHalt cfg s e s' := by
  rcases h with h | ⟨h1, h2, h3⟩
  · exact .inl h
  · exact .inr ⟨h1, h2, hf.trans h3⟩

/-- What a response-side function establishes. -/
structure RespPost (cfg : Cfg) (s s' : Pair) : Prop where
  steady : Steady cfg s'
  frame : RespFrame s s'
  armed : BackendArmed s → BackendArmed s'
  scheduled : Scheduled s → Scheduled s'
  relayed : Relayed s'

/-- What `pump_write` establishes; `clientArmed` is left to `recompute_interest`. -/
structure PumpPost (cfg : Cfg) (s : Pair) (st : IoStatus) (s' : Pair) : Prop where
  core : Core cfg s'
  frame : RespFrame s s'
  agree : Agree s'
  armed : BackendArmed s → BackendArmed s'
  scheduled : Scheduled s → Scheduled s'
  relayed : Relayed s'
  slack : Slack s → Slack s'
  pausedFull : PausedFull s'
  plain : cfg.transport = .plain → st ≠ .wouldBlockRead

/-- The specifications of the response side at fuel `n`. -/
structure RespSpecs (cfg : Cfg) (n : Nat) : Prop where
  pumpWrite : ∀ s w, Core cfg s → Agree s → Relayed s →
    wp (pumpWrite cfg n) (fun st s' _ => PumpPost cfg s st s') (RespHalt cfg s) s w
  resumeReads : ∀ s w, Core cfg s → Relayed s → s.client.hasBackend = true →
    s.client.backendPaused = false → s.client.outBuf = [] →
    wp (resumeReads cfg n) (fun _ s' _ => RespPost cfg s s') (RespHalt cfg s) s w
  onReadable : ∀ s w, Steady cfg s → Relayed s → s.backend ≠ none →
    wp (onReadable cfg n) (fun _ s' _ => RespPost cfg s s') (RespHalt cfg s) s w
  deliverToClient : ∀ s w d, Steady cfg s → s.client.hasBackend = true →
    s.client.backendPaused = false → d.length ≤ kReadBuf →
    s.hist.fromBackend = s.hist.delivered ++ d →
    wp (deliverToClient cfg n d) (fun _ s' _ => RespPost cfg s s') (RespHalt cfg s) s w
  onBackendClosed : ∀ s w, Core cfg (detachBackend s) → s.client.backendPaused = false →
    wp (onBackendClosed cfg n)
      (fun _ s' _ => RespPost cfg s s' ∧ s'.client.hasBackend = false) (RespHalt cfg s) s w
  fail : ∀ s w why, Steady cfg s → s.backend ≠ none →
    wp (fail cfg n why) (fun _ s' _ => RespPost cfg s s' ∧ s'.client.hasBackend = false)
      (RespHalt cfg s) s w
  onBackendError : ∀ s w why, Core cfg (detachBackend s) →
    wp (onBackendError cfg n why)
      (fun _ s' _ => RespPost cfg s s' ∧ s'.client.hasBackend = false) (RespHalt cfg s) s w
  sendResponse : ∀ s w r headOnly, Core cfg s → s.client.hasBackend = false →
    s.client.responded = false →
    wp (sendResponse cfg n r headOnly)
      (fun _ s' _ => RespPost cfg s s' ∧ s'.client.hasBackend = false ∧
        s'.client.state = .closing)
      (fun e s' => RespHalt cfg s e s' ∧ (e = .pending → s'.client.state = .closing)) s w

/-! ## Small facts the proofs below share -/

theorem wp_viaBackend {α : Type} {p : M α} {Q : α → Pair → List Answer → Prop}
    {H : Halt → Pair → Prop} (hb : s.client.hasBackend = true) :
    wp (viaBackend p) Q H s w ↔ wp p Q H s w := by
  simp only [viaBackend, wp_bind, wp_get, wp_ite, hb]
  simp

theorem wp_self {b : BackendConnection} {Q : BackendConnection → Pair → List Answer → Prop}
    {H : Halt → Pair → Prop} (hb : s.backend = some b) :
    wp self Q H s w ↔ Q b s w := by
  simp only [self, wp_bind, wp_get, hb, wp_pure]

theorem closed_closeBoth : (closeBoth s).client.closed = true := by
  cases hc : s.client.closed with
  | true => rw [closeBoth_of_closed hc, hc]
  | false => rw [closeBoth_of_open hc]

/-- Nothing is owed to a closed connection. -/
theorem Steady.of_closed (h : Core cfg s) (hc : s.client.closed = true) : Steady cfg s := by
  have hb := h.closedCut hc
  exact ⟨h, ⟨by simp [hb], by simp [hc]⟩, by simp [Slack, hb], by simp [PausedFull, hc],
    by simp [ClientArmed, hc]⟩

theorem BackendArmed.of_unlinked (h : s.client.hasBackend = false) : BackendArmed s := by
  simp [BackendArmed, h]

theorem Relayed.of_unlinked (h : s.client.hasBackend = false) : Relayed s := by
  simp [Relayed, h]

/-- A backend with a client has nothing to be scheduled for. -/
theorem Scheduled.of_client {b' : BackendConnection} (hb : s.backend = some b')
    (hcl : b'.hasClient = true) : Scheduled s := by
  intro b'' hb'' hno
  rw [hb] at hb''
  cases hb''
  rw [hcl] at hno
  cases hno

/-- `close_both` schedules the backend it lets go. -/
theorem Scheduled.closeBoth (h : Scheduled s) : Scheduled (closeBoth s) := by
  cases hc : s.client.closed with
  | true => rw [closeBoth_of_closed hc]; exact h
  | false =>
      rw [closeBoth_of_open hc]
      cases hb : s.client.hasBackend with
      | true => exact fun _ _ _ => by simp
      | false =>
          intro b hbk hcl
          simp only [Bool.or_false]
          exact h b (by simpa using hbk) hcl

/-- After `close_both`. -/
theorem PumpPost.closeBoth {s₁ : Pair} {st : IoStatus} (hc : Core cfg s₁) (hf : RespFrame s s₁)
    (hsch : Scheduled s → Scheduled s₁)
    (hst : cfg.transport = .plain → st ≠ .wouldBlockRead) :
    PumpPost cfg s st (closeBoth s₁) := by
  have hst' := Steady.of_closed hc.closeBoth closed_closeBoth
  have hcut := hc.closeBoth.closedCut closed_closeBoth
  exact ⟨hst'.toCore, hf.trans .closeBoth, hst'.agree, fun _ => .of_unlinked hcut,
    fun h => (hsch h).closeBoth, .of_unlinked hcut, fun _ => hst'.slack, hst'.pausedFull,
    hst⟩

theorem RespPost.closeBoth {s₁ : Pair} (hc : Core cfg s₁) (hf : RespFrame s (closeBoth s₁))
    (hsch : Scheduled s → Scheduled s₁) : RespPost cfg s (closeBoth s₁) :=
  have hcut := hc.closeBoth.closedCut closed_closeBoth
  ⟨.of_closed hc.closeBoth closed_closeBoth, hf, fun _ => .of_unlinked hcut,
    fun h => (hsch h).closeBoth, .of_unlinked hcut⟩

/-- After the end of a drained `pump_write`. -/
theorem PumpPost.closeIfClosing {s₁ : Pair} (hc : Core cfg s₁) (hf : RespFrame s s₁)
    (hagree : Agree s₁) (harmed : BackendArmed s → BackendArmed s₁)
    (hsch : Scheduled s → Scheduled s₁) (hrel : Relayed s₁) (hslack : Slack s → Slack s₁)
    (hfull : PausedFull s₁) : PumpPost cfg s .ok (closeIfClosing s₁) := by
  rw [CastlePlus.closeIfClosing]
  split
  · exact .closeBoth hc hf hsch (by simp)
  · exact ⟨hc, hf, hagree, harmed, hsch, hrel, hslack, hfull, by simp⟩

/-- `recompute_interest` asks for `EPOLLOUT` while bytes are unsent. -/
theorem ClientArmed.finishPump (st : IoStatus) : ClientArmed (finishPump st s) := by
  intro hopen hout hblock
  rw [CastlePlus.finishPump] at hopen hout hblock ⊢
  cases hc : s.client.closed with
  | true => simp [hc, setWriteBlock] at hopen
  | false =>
      obtain ⟨mask, mods, failed, heq, -, -⟩ := recomputeInterest_cases (setWriteBlock st s)
      simp only [hc, heq] at hout hblock ⊢
      simp_all [wantedInterest]

/-- The common end of the callers of `pump_write`. -/
theorem RespPost.finishPump {s₁ : Pair} {st : IoStatus} (hc : Core cfg s₁)
    (hf : RespFrame s s₁) (hagree : Agree s₁) (harmed : BackendArmed s → BackendArmed s₁)
    (hsch : Scheduled s → Scheduled s₁) (hrel : Relayed s₁) (hslack : Slack s₁)
    (hfull : PausedFull s₁)
    (hplain : cfg.transport = .plain → st ≠ .wouldBlockRead) :
    RespPost cfg s (finishPump st s₁) := by
  have harm := ClientArmed.finishPump (s := s₁) st
  have hcore := hc.finishPump hplain
  have hframe := hf.trans (.finishPump st)
  -- the interest mask is all that is new, and no other clause reads it
  have hsame : (CastlePlus.finishPump st s₁).client.hasBackend = s₁.client.hasBackend ∧
      (CastlePlus.finishPump st s₁).client.backendPaused = s₁.client.backendPaused ∧
      (CastlePlus.finishPump st s₁).client.outBuf = s₁.client.outBuf ∧
      (CastlePlus.finishPump st s₁).client.closed = s₁.client.closed ∧
      (CastlePlus.finishPump st s₁).backend = s₁.backend ∧
      (CastlePlus.finishPump st s₁).backendPending = s₁.backendPending ∧
      (CastlePlus.finishPump st s₁).hist.delivered = s₁.hist.delivered ∧
      (CastlePlus.finishPump st s₁).hist.fromBackend = s₁.hist.fromBackend := by
    obtain ⟨mask, mods, failed, heq, -, -⟩ := recomputeInterest_cases (setWriteBlock st s₁)
    rw [CastlePlus.finishPump]
    rw [heq]
    split <;> simp [setWriteBlock]
  obtain ⟨h1, h2, h3, h4, h5, h6, h7, h8⟩ := hsame
  refine ⟨⟨hcore, ⟨?_, ?_⟩, ?_, ?_, harm⟩, hframe, ?_, ?_, ?_⟩
  · rw [h1, h2, h5]; exact hagree.flags
  · rw [h1, h2, h4]; exact hagree.attached
  · unfold Slack; rw [h1, h2, h3]; exact hslack
  · unfold PausedFull; rw [h2, h3, h4]; exact hfull
  · unfold BackendArmed; rw [h1, h5]; exact harmed
  · unfold Scheduled; rw [h5, h6]; exact hsch
  · unfold Relayed; rw [h1, h7, h8]; exact hrel

theorem RespFrame.tick (dt : Nat) : RespFrame s (tick dt s) := .of_view rfl

theorem RespFrame.requestCloseBackend : RespFrame s (requestCloseBackend s) :=
  .of_view rfl

/-- The response side destroys no object. -/
theorem RespFrame.backend_ne_none (h : RespFrame s s') (hb : s.backend ≠ none) :
    s'.backend ≠ none := by
  have hq : s'.backend.map _ = s.backend.map _ := congrArg Upload.queue h.upload
  intro hn
  rw [hn] at hq
  exact hb (Option.map_eq_none_iff.mp hq.symm)

theorem Steady.requestCloseBackend (h : Steady cfg s) (hcut : s.client.hasBackend = false) :
    Steady cfg (requestCloseBackend s) :=
  ⟨h.toCore.requestCloseBackend hcut, ⟨h.agree.flags, h.agree.attached⟩, h.slack, h.pausedFull,
    h.clientArmed⟩

theorem Steady.noteRead (h : Steady cfg s) (hb : s.backend ≠ none) (dt : Nat)
    (r : ReadResult) :
    Steady cfg (noteRead r (tick dt s)) := by
  cases r <;>
    exact ⟨(h.toCore.tick _).noteRead hb _, ⟨h.agree.flags, h.agree.attached⟩, h.slack,
      h.pausedFull, h.clientArmed⟩

/-- A change of the backend object away from its pointer, its mask and its pause flag. -/
theorem Steady.onBackend (h : Steady cfg s) (f : BackendConnection → BackendConnection)
    (hclient : ∀ b, (f b).hasClient = b.hasClient)
    (hinterest : ∀ b, (f b).interest = b.interest)
    (hpaused : ∀ b, (f b).readPaused = b.readPaused) : Steady cfg (onBackend f s) := by
  refine ⟨h.toCore.onBackend f hclient hinterest, ⟨?_, h.agree.attached⟩, h.slack,
    h.pausedFull, h.clientArmed⟩
  intro hb b hbk
  obtain ⟨b₀, hb₀, rfl⟩ := Option.map_eq_some_iff.mp hbk
  rw [hpaused]
  exact h.agree.flags hb b₀ hb₀

/-- `apply_interest` asks for `EPOLLOUT` whenever it is needed. -/
theorem BackendArmed.applyInterest : BackendArmed (applyInterest s) := by
  obtain ⟨mask, mods, failed, heq, -, -⟩ := applyInterest_cases s
  rw [heq]
  intro _ b hb hwait
  obtain ⟨b₀, -, rfl⟩ := Option.map_eq_some_iff.mp hb
  rw [backendInterest]
  rcases hwait with hwait | hwait
  · rw [if_neg (by simpa using hwait)]
  · split
    · simpa using hwait
    · rfl

theorem BackendArmed.onBackend (h : BackendArmed s)
    (f : BackendConnection → BackendConnection)
    (hf : ∀ b, ((f b).connected, (f b).outBuf, (f b).interest)
      = (b.connected, b.outBuf, b.interest)) : BackendArmed (onBackend f s) := by
  intro hb b hbk
  obtain ⟨b₀, hb₀, rfl⟩ := Option.map_eq_some_iff.mp hbk
  have := hf b₀
  simp only [Prod.mk.injEq] at this
  rw [this.1, this.2.1, this.2.2]
  exact h hb b₀ hb₀

theorem Scheduled.onBackend (h : Scheduled s) (f : BackendConnection → BackendConnection)
    (hf : ∀ b, (f b).hasClient = b.hasClient) : Scheduled (onBackend f s) := by
  intro b hbk hcl
  obtain ⟨b₀, hb₀, rfl⟩ := Option.map_eq_some_iff.mp hbk
  exact h b₀ hb₀ (by rw [← hf]; exact hcl)

theorem Scheduled.applyInterest (h : Scheduled s) : Scheduled (applyInterest s) := by
  obtain ⟨mask, mods, failed, heq, -, -⟩ := applyInterest_cases s
  rw [heq]
  exact h.onBackend (fun b => { b with interest := backendInterest b }) fun _ => rfl

theorem Relayed.applyInterest (h : Relayed s) : Relayed (applyInterest s) := by
  obtain ⟨mask, mods, failed, heq, -, -⟩ := applyInterest_cases s
  rw [heq]
  exact h

theorem Relayed.pauseIfFull (h : Relayed s) : Relayed (pauseIfFull s) := by
  have hpaused : Relayed (CastlePlus.applyInterest (CastlePlus.setReads true s)) :=
    Relayed.applyInterest (s := CastlePlus.setReads true s) h
  rw [CastlePlus.pauseIfFull, pauseReads]
  split
  · cases hbk : s.backend with
    | none => exact h
    | some b =>
        dsimp only
        split
        · exact h
        · exact hpaused
  · exact h

theorem Scheduled.setReads (h : Scheduled s) (p : Bool) : Scheduled (setReads p s) :=
  h.onBackend _ fun _ => rfl

theorem Scheduled.pauseIfFull (h : Scheduled s) : Scheduled (pauseIfFull s) := by
  rw [CastlePlus.pauseIfFull, pauseReads]
  have hpaused : Scheduled (CastlePlus.applyInterest (CastlePlus.setReads true s)) :=
    (h.setReads true).applyInterest
  split
  · cases hbk : s.backend with
    | none => exact h
    | some b =>
        dsimp only
        split
        · exact h
        · exact hpaused
  · exact h

/-- A backend without a client: the client has no backend either. -/
theorem Core.orphan (h : Core cfg s) {b : BackendConnection} (hbk : s.backend = some b)
    (hcl : ¬ b.hasClient = true) : s.client.hasBackend = false := by
  cases hb : s.client.hasBackend with
  | false => rfl
  | true =>
      obtain ⟨b', hbk', hcl'⟩ := h.linked hb
      rw [hbk] at hbk'
      cases hbk'
      exact absurd hcl' hcl

/-- Where `on_readable` and `fail` end: the backend is told to close. -/
theorem RespPost.requestCloseBackend (hs : Steady cfg s') (hf : RespFrame s s')
    (hcut : s'.client.hasBackend = false) : RespPost cfg s (requestCloseBackend s') :=
  ⟨hs.requestCloseBackend hcut, hf.trans .requestCloseBackend, fun _ => .of_unlinked hcut,
    fun _ _ _ _ => rfl, .of_unlinked hcut⟩

theorem RespPost.of_frame {s₁ : Pair} (hf : RespFrame s s₁)
    (ha : BackendArmed s → BackendArmed s₁) (hsch : Scheduled s → Scheduled s₁)
    (h : RespPost cfg s₁ s') : RespPost cfg s s' :=
  ⟨h.steady, hf.trans h.frame, fun hs => h.armed (ha hs), fun hs => h.scheduled (hsch hs),
    h.relayed⟩

/-- Use the specification of a callee started in `s₁`, which `s` has led to. -/
theorem wp_call {p : M Unit} {s₁ : Pair} {Q : Unit → Pair → List Answer → Prop}
    (h : wp p (fun _ s' _ => RespPost cfg s₁ s') (RespHalt cfg s₁) s₁ w)
    (hf : RespFrame s s₁) (ha : BackendArmed s → BackendArmed s₁)
    (hsch : Scheduled s → Scheduled s₁)
    (hk : ∀ s' w', RespPost cfg s s' → Q () s' w') : wp p Q (RespHalt cfg s) s₁ w :=
  wp_mono h (fun _ s' w' hpost => hk s' w' (.of_frame hf ha hsch hpost))
    fun _ _ => RespHalt.of_frame hf

/-- The same for a callee that runs between the cut of the link and `request_close`. -/
theorem wp_call_cut {p : M Unit} {s₁ : Pair} {Q : Unit → Pair → List Answer → Prop}
    (h : wp p (fun _ s' _ => RespPost cfg s₁ s' ∧ s'.client.hasBackend = false)
      (RespHalt cfg s₁) s₁ w)
    (hf : RespFrame s s₁)
    (hk : ∀ s' w', RespPost cfg s (CastlePlus.requestCloseBackend s') →
      s'.client.hasBackend = false → Q () s' w') :
    wp p Q (RespHalt cfg s) s₁ w :=
  wp_mono h
    (fun _ s' w' hpost => hk s' w' (.requestCloseBackend hpost.1.steady
      (hf.trans hpost.1.frame) hpost.2) hpost.2)
    fun _ _ => RespHalt.of_frame hf

/-- The backpressure check of `deliver_to_client` re-establishes the slack. -/
theorem pauseIfFull_post {s₁ s₂ : Pair} {st : IoStatus} (h : PumpPost cfg s₁ st s₂) :
    Core cfg (pauseIfFull s₂) ∧ Agree (pauseIfFull s₂) ∧ Slack (pauseIfFull s₂) ∧
      PausedFull (pauseIfFull s₂) ∧ (BackendArmed s₂ → BackendArmed (pauseIfFull s₂)) := by
  rw [pauseIfFull]
  split
  · rename_i hfull
    obtain ⟨hb, hnp, hlong⟩ := hfull
    obtain ⟨b, hbk, -⟩ := h.core.linked hb
    have hread : b.readPaused = false := by
      rw [h.agree.flags hb b hbk]
      simpa using hnp
    have hresp : s₂.client.responded = true := by
      cases hr : s₂.client.responded with
      | true => rfl
      | false => simp [(h.core.nothing_sent hr).2] at hlong
    have hpause : pauseReads s₂ = applyInterest (setReads true s₂) := by
      simp [pauseReads, hbk, hread]
    obtain ⟨mask, mods, failed, heq, -, -⟩ := applyInterest_cases (setReads true s₂)
    have hcore := (h.core.setReads true).applyInterest
    rw [hpause, heq]
    rw [heq] at hcore
    have harm := BackendArmed.applyInterest (s := setReads true s₂)
    rw [heq] at harm
    refine ⟨⟨hcore.1, hcore.2, hcore.3, hcore.4, hcore.5, hcore.6, hcore.7, fun _ => hresp,
      hcore.9, hcore.10, hcore.11, hcore.12, hcore.13, hcore.14, hcore.15, hcore.16, hcore.17⟩,
      ⟨?_, fun _ _ => hb⟩, ?_, ?_, fun _ => harm⟩
    · intro _ b' hb'
      simp only [setReads, onBackend, hbk, Option.map_some, Option.some.injEq] at hb'
      rw [← hb']
    · intro _ hp
      cases hp
    · intro _ _ hempty
      have : s₂.client.outBuf = [] := hempty
      simp [this] at hlong
  · rename_i hfull
    refine ⟨h.core, h.agree, ?_, h.pausedFull, id⟩
    intro hb hp
    by_contra hlong
    exact hfull ⟨hb, by simp [hp], by omega⟩

theorem hasBackend_finishPump (st : IoStatus) :
    (finishPump st s).client.hasBackend = s.client.hasBackend := by
  obtain ⟨mask, mods, failed, heq, -, -⟩ := recomputeInterest_cases (setWriteBlock st s)
  rw [finishPump]
  rw [heq]
  split <;> rfl

/-- After a pump that ran with the link cut. -/
theorem finishPump_cut {s₁ s₂ : Pair} {st : IoStatus} (hf : RespFrame s s₁)
    (hsch : Scheduled s → Scheduled s₁) (h : PumpPost cfg s₁ st s₂)
    (hb : s₁.client.hasBackend = false) :
    RespPost cfg s (finishPump st s₂) ∧ (finishPump st s₂).client.hasBackend = false := by
  have hcut : s₂.client.hasBackend = false := by
    cases hb₂ : s₂.client.hasBackend with
    | false => rfl
    | true => rw [h.frame.unlink hb₂] at hb; cases hb
  have hslack : Slack s₂ := by simp [Slack, hcut]
  refine ⟨.finishPump h.core (hf.trans h.frame) h.agree (fun _ => .of_unlinked hcut)
    (fun hs => h.scheduled (hsch hs)) (.of_unlinked hcut) hslack h.pausedFull h.plain, ?_⟩
  rw [hasBackend_finishPump, hcut]

/-! ## One lemma per function: from fuel `n` to fuel `n + 1` -/

theorem pumpWrite_step (h : RespSpecs cfg n) (hc : Core cfg s) (ha : Agree s)
    (hrel : Relayed s) :
    wp (pumpWrite cfg (n + 1)) (fun st s' _ => PumpPost cfg s st s') (RespHalt cfg s) s w := by
  simp only [pumpWrite, wp_bind, wp_get, wp_ite, wp_modify, wp_pure]
  refine ⟨fun hout => ⟨fun hpb => ?_, fun hnp => ?_⟩, fun hout => ?_⟩
  · obtain ⟨-, hb⟩ := hpb
    -- drained with the backend paused: resume it, then look at the state it left
    have hf : RespFrame s (releaseBackend s) := .of_view rfl
    rw [wp_viaBackend (show (releaseBackend s).client.hasBackend = true from hb)]
    refine wp_mono (h.resumeReads _ w hc.releaseBackend hrel hb rfl hout) ?_
      fun e s' => RespHalt.of_frame hf
    intro _ s' _ hpost
    exact .closeIfClosing hpost.steady.toCore (hf.trans hpost.frame) hpost.steady.agree
      hpost.armed hpost.scheduled hpost.relayed (fun _ => hpost.steady.slack) hpost.steady.pausedFull
  · -- drained and nothing paused
    refine .closeIfClosing hc (.refl s) ha id id hrel id ?_
    intro hopen hp
    exact absurd ⟨hp, ha.attached hopen hp⟩ hnp
  · refine wp_transportSend (.inr ⟨rfl, ⟨hc, ha.flags⟩, .refl s⟩) ?_
    intro a w' r _ _ hallowed
    have hblocked : ∀ st, (cfg.transport = .plain → st ≠ .wouldBlockRead) →
        PumpPost cfg s st (tick a.dt s) := fun st hst =>
      ⟨hc.tick _, .tick _, ⟨ha.flags, ha.attached⟩, id, id, hrel, id, fun _ _ => hout, hst⟩
    have hnote : RespFrame s (noteSend r (tick a.dt s)) := (RespFrame.tick _).trans (.noteSend r)
    cases r with
    | ok k =>
        have hacc : RespFrame s (acceptSent k (tick a.dt s)) := .of_view rfl
        refine wp_mono (h.pumpWrite _ w' ((hc.tick _).acceptSent k)
          ⟨ha.flags, ha.attached⟩ hrel) ?_ fun e s' => RespHalt.of_frame hacc
        intro st s' _ hpost
        refine ⟨hpost.core, hacc.trans hpost.frame, hpost.agree, hpost.armed,
          hpost.scheduled, hpost.relayed, ?_, hpost.pausedFull, hpost.plain⟩
        intro hslack
        refine hpost.slack fun hb hp => ?_
        have := hslack hb hp
        simp only [noteSend, acceptSent, touchClient, tick, List.length_drop]
        omega
    | wouldBlockRead =>
        refine hblocked _ fun hplain => ?_
        rw [hplain] at hallowed
        cases hallowed
    | wouldBlockWrite => exact hblocked _ (by simp)
    | closed => exact PumpPost.closeBoth ((hc.tick _).noteSend _) hnote id (by simp)
    | error => exact PumpPost.closeBoth ((hc.tick _).noteSend _) hnote id (by simp)

/-- Both flags are down: the backend may read again. -/
theorem Steady.unpauseReads {b : BackendConnection} (hc : Core cfg s)
    (hb : s.client.hasBackend = true) (hp : s.client.backendPaused = false)
    (hout : s.client.outBuf = []) (hbk : s.backend = some b) :
    Steady cfg (unpauseReads s) := by
  have hcore : Core cfg (CastlePlus.unpauseReads s) := (hc.setReads false).applyInterest
  obtain ⟨mask, mods, failed, heq, -, -⟩ := applyInterest_cases (setReads false s)
  have heq' : CastlePlus.unpauseReads s = _ := heq
  refine ⟨hcore, ⟨?_, ?_⟩, ?_, ?_, ?_⟩ <;> rw [heq']
  · intro _ b' hb'
    simp only [setReads, CastlePlus.onBackend, hbk, Option.map_some, Option.some.injEq] at hb'
    rw [← hb']
    exact hp.symm
  · intro _ _
    exact hb
  · simp [Slack, setReads, CastlePlus.onBackend, hout]
  · simp [PausedFull, setReads, CastlePlus.onBackend, hp]
  · simp [ClientArmed, setReads, CastlePlus.onBackend, hout]

theorem resumeReads_step (h : RespSpecs cfg n) (hc : Core cfg s) (hrel : Relayed s)
    (hb : s.client.hasBackend = true) (hp : s.client.backendPaused = false)
    (hout : s.client.outBuf = []) :
    wp (resumeReads cfg (n + 1)) (fun _ s' _ => RespPost cfg s s') (RespHalt cfg s) s w := by
  obtain ⟨b, hbk, hcl⟩ := hc.linked hb
  simp only [resumeReads, wp_bind, wp_self hbk, wp_ite, wp_modify, wp_pure]
  refine ⟨fun hpaused => ?_, fun hpaused => ?_⟩
  · have hs : Steady cfg (unpauseReads s) := .unpauseReads hc hb hp hout hbk
    have hf : RespFrame s (unpauseReads s) := (RespFrame.setReads false).trans .applyInterest
    have hrel' : Relayed (unpauseReads s) :=
      Relayed.applyInterest (s := setReads false s) hrel
    exact wp_call (h.onReadable _ w hs hrel' (hf.backend_ne_none (by simp [hbk]))) hf
      (fun _ => .applyInterest)
      (fun hsch => (hsch.setReads false).applyInterest) fun _ _ hpost => hpost
  · -- it was not paused after all
    refine ⟨⟨hc, ⟨fun _ b' hb' => ?_, ?_⟩, ?_, ?_, ?_⟩, .refl s, id, id, hrel⟩
    · rw [hbk] at hb'
      cases hb'
      rw [hp]
      simpa using hpaused
    · simp [hp]
    · simp [Slack, hout]
    · simp [PausedFull, hp]
    · simp [ClientArmed, hout]

theorem onReadable_step (h : RespSpecs cfg n) (hs : Steady cfg s) (hrel : Relayed s)
    (hb : s.backend ≠ none) :
    wp (onReadable cfg (n + 1)) (fun _ s' _ => RespPost cfg s s') (RespHalt cfg s) s w := by
  obtain ⟨b, hbk⟩ := Option.ne_none_iff_exists'.mp hb
  simp only [onReadable, wp_bind, wp_self hbk, wp_ite, wp_pure]
  refine ⟨fun _ => ⟨hs, .refl s, id, id, hrel⟩, fun hp => ?_⟩
  refine wp_backendRead (.inr ⟨rfl, hs.atCall, .refl s⟩) ?_
  intro a w' r _ _
  have hf : RespFrame s (noteRead r (tick a.dt s)) := (RespFrame.tick _).trans (.noteRead r)
  have hs' := hs.noteRead hb a.dt r
  have hsch : Scheduled s → Scheduled (noteRead r (tick a.dt s)) := by cases r <;> exact id
  -- a backend that reads is not paused, on either side
  have hunpaused : b.hasClient = true →
      s.client.hasBackend = true ∧ s.client.backendPaused = false := by
    intro hcl
    have hlink := hs.linkedBack b hbk hcl
    exact ⟨hlink, by rw [← hs.agree.flags hlink b hbk]; simpa using hp⟩
  have horphan : ¬ b.hasClient = true → s.client.hasBackend = false := hs.toCore.orphan hbk
  cases r with
  | data c =>
      have hf' : RespFrame s (touchBackend (noteRead (.data c) (tick a.dt s))) :=
        hf.trans .touchBackend
      have hs'' : Steady cfg (touchBackend (noteRead (.data c) (tick a.dt s))) :=
        hs'.onBackend _ (fun _ => rfl) (fun _ => rfl) (fun _ => rfl)
      have harm : BackendArmed s →
          BackendArmed (touchBackend (noteRead (.data c) (tick a.dt s))) := fun ha =>
        BackendArmed.onBackend (s := noteRead (.data c) (tick a.dt s)) ha _ fun _ => rfl
      have hsch' : Scheduled s →
          Scheduled (touchBackend (noteRead (.data c) (tick a.dt s))) := fun h =>
        (hsch h).onBackend _ fun _ => rfl
      simp only [wp_bind, wp_modify, wp_ite]
      refine ⟨fun hcl => ?_, fun _ => ?_⟩
      · obtain ⟨hlink, hnp⟩ := hunpaused hcl
        have hread : s.hist.fromBackend ++ c.val = s.hist.delivered ++ c.val := by
          rw [hrel hlink]
        refine wp_call (h.deliverToClient _ w' _ hs'' hlink hnp c.property.2 hread) hf' harm
          hsch' ?_
        intro s₂ w₂ hpost
        exact wp_call (h.onReadable s₂ w₂ hpost.steady hpost.relayed (hpost.frame.backend_ne_none hb))
          hpost.frame hpost.armed hpost.scheduled fun _ _ hpost' => hpost'
      · exact wp_call (h.onReadable _ w' hs'' (.of_unlinked (horphan ‹_›)) (hf'.backend_ne_none hb)) hf' harm hsch'
          fun _ _ hpost => hpost
  | eof =>
      simp only [wp_ite, wp_bind, wp_modify]
      refine ⟨fun hcl => ?_, fun _ => ?_⟩
      · obtain ⟨hlink, hnp⟩ := hunpaused hcl
        refine wp_call_cut (h.onBackendClosed _ w' hs'.toCore.unlink hnp)
          (hf.trans .detachClient) ?_
        intro s₂ w₂ hpost _
        exact hpost
      · exact RespPost.requestCloseBackend hs' hf (horphan ‹_›)
  | again => exact ⟨hs', hf, id, hsch, hrel⟩
  | intr => exact wp_call (h.onReadable _ w' hs' hrel hb) hf id hsch fun _ _ hpost => hpost
  | error =>
      refine wp_mono (h.fail _ w' _ hs' hb) ?_ fun _ _ => RespHalt.of_frame hf
      intro _ s₂ _ hpost
      exact .of_frame hf id hsch hpost.1

theorem deliverToClient_step (h : RespSpecs cfg n) (hs : Steady cfg s)
    (hb : s.client.hasBackend = true) (hp : s.client.backendPaused = false) (d : Bytes)
    (hd : d.length ≤ kReadBuf) (hread : s.hist.fromBackend = s.hist.delivered ++ d) :
    wp (deliverToClient cfg (n + 1) d) (fun _ s' _ => RespPost cfg s s') (RespHalt cfg s)
      s w := by
  simp only [deliverToClient, wp_bind, wp_get, wp_ite, wp_modify, wp_pure]
  refine ⟨fun hclosed => ?_, fun hopen => ?_⟩
  · rw [hs.closedCut hclosed] at hb
    cases hb
  have hq : Core cfg (queueClient d s) := hs.toCore.queueClient hb hd hread (hs.slack hb hp)
  have hf : RespFrame s (queueClient d s) :=
    ⟨rfl, .inl rfl, id, fun _ _ => rfl, id, id, id, id, fun h => absurd hb (by simp [h]), rfl, rfl⟩
  refine wp_mono (h.pumpWrite _ w hq ⟨hs.agree.flags, hs.agree.attached⟩
    fun _ => hread.symm) ?_
    fun e s' => RespHalt.of_frame hf
  intro st s₂ w₂ hpost
  split
  · rename_i hc₂
    have hcut := hpost.core.closedCut hc₂
    have hs₂ := Steady.of_closed hpost.core hc₂
    exact .finishPump hpost.core (hf.trans hpost.frame) hpost.agree hpost.armed
      hpost.scheduled hpost.relayed hs₂.slack hpost.pausedFull hpost.plain
  · obtain ⟨hcore, hagree, hslack, hfull, harmed⟩ := pauseIfFull_post hpost
    exact .finishPump hcore (hf.trans (hpost.frame.trans .pauseIfFull)) hagree
      (fun ha => harmed (hpost.armed ha)) (fun h => (hpost.scheduled h).pauseIfFull)
      hpost.relayed.pauseIfFull hslack hfull hpost.plain

theorem onBackendClosed_step (h : RespSpecs cfg n) (hc : Core cfg (detachBackend s))
    (hp : s.client.backendPaused = false) :
    wp (onBackendClosed cfg (n + 1))
      (fun _ s' _ => RespPost cfg s s' ∧ s'.client.hasBackend = false) (RespHalt cfg s) s w := by
  simp only [onBackendClosed, wp_bind, wp_modify]
  have hf : RespFrame s (setState .closing (detachBackend s)) :=
    .of_detach ⟨rfl, .inr rfl, id, fun _ _ => rfl, id, id, id, id, fun _ _ => rfl, rfl, rfl⟩
      (.inl rfl)
  refine wp_mono (h.pumpWrite _ w (hc.setState .closing) ⟨?_, ?_⟩ (.of_unlinked rfl)) ?_
    fun e s' => RespHalt.of_frame hf
  · intro hb
    cases hb
  · intro _ hp'
    rw [show (setState .closing (detachBackend s)).client.backendPaused = false from hp] at hp'
    cases hp'
  · intro st s₂ w₂ hpost
    exact finishPump_cut hf id hpost rfl

theorem fail_step (h : RespSpecs cfg n) (hs : Steady cfg s) (hb : s.backend ≠ none)
    (why : Bytes) :
    wp (fail cfg (n + 1) why)
      (fun _ s' _ => RespPost cfg s s' ∧ s'.client.hasBackend = false) (RespHalt cfg s) s w := by
  obtain ⟨b, hbk⟩ := Option.ne_none_iff_exists'.mp hb
  simp only [fail, wp_bind, wp_self hbk, wp_ite, wp_modify]
  refine ⟨fun hcl => ?_, fun hcl => ?_⟩
  · refine wp_call_cut (h.onBackendError _ w why hs.toCore.unlink) .detachClient ?_
    intro s₂ w₂ hpost hcut
    exact ⟨hpost, hcut⟩
  · -- an orphaned backend: nobody to tell
    have hcut := hs.toCore.orphan hbk hcl
    exact ⟨RespPost.requestCloseBackend hs (.refl s) hcut, hcut⟩

theorem onBackendError_step (h : RespSpecs cfg n) (hc : Core cfg (detachBackend s))
    (why : Bytes) :
    wp (onBackendError cfg (n + 1) why)
      (fun _ s' _ => RespPost cfg s s' ∧ s'.client.hasBackend = false) (RespHalt cfg s) s w := by
  simp only [onBackendError, wp_bind, wp_get, wp_ite, wp_modify]
  refine ⟨fun _ => ?_, fun hr => ?_⟩
  · -- bytes are already out: nothing graceful to do
    have hc' : Core cfg { detachBackend s with
        hist.silenced := s.hist.silenced || s.hist.toClient.isEmpty } :=
      ⟨hc.1, hc.2, hc.3, hc.4, hc.5, hc.6, hc.7, hc.8, hc.9, hc.10, hc.11, hc.12, hc.13, hc.14,
        hc.15, hc.16, hc.17⟩
    have hnote : RespFrame (detachBackend s) { detachBackend s with
        hist.silenced := s.hist.silenced || s.hist.toClient.isEmpty } := .of_view rfl
    have hf : RespFrame (detachBackend s) (cutOff (detachBackend s)) := hnote.trans .closeBoth
    exact ⟨.closeBoth hc' (.of_detach hf (.inr closed_closeBoth)) id,
      hc'.closeBoth.closedCut closed_closeBoth⟩
  · refine wp_mono (h.sendResponse _ w _ _ hc rfl (by simpa using hr)) ?_ ?_
    · rintro _ s' _ ⟨hpost, hcut, hst⟩
      exact ⟨⟨hpost.steady, .of_detach hpost.frame (.inl hst), fun _ => .of_unlinked hcut,
        hpost.scheduled, hpost.relayed⟩, hcut⟩
    · rintro e s' ⟨hhalt, hst⟩
      rcases hhalt with he | ⟨he, hcore, hf⟩
      · exact .inl he
      · exact .inr ⟨he, hcore, .of_detach hf (.inl (hst he))⟩

theorem sendResponse_step (h : RespSpecs cfg n) (hc : Core cfg s)
    (hb : s.client.hasBackend = false) (hr : s.client.responded = false) (r : Reply)
    (headOnly : Bool) :
    wp (sendResponse cfg (n + 1) r headOnly)
      (fun _ s' _ => RespPost cfg s s' ∧ s'.client.hasBackend = false ∧
        s'.client.state = .closing)
      (fun e s' => RespHalt cfg s e s' ∧ (e = .pending → s'.client.state = .closing)) s w := by
  simp only [sendResponse, wp_bind, wp_modify]
  generalize responseText r.code r.status r.body headOnly = text
  have hcore := hc.beginResponse hb hr text
  have hnp : s.client.backendPaused = false := by
    cases hp : s.client.backendPaused with
    | false => rfl
    | true => rw [hc.pausedResponded hp] at hr; cases hr
  have hagree : Agree (beginResponse text s) := by
    refine ⟨fun hb' => ?_, fun _ hp' => ?_⟩
    · rw [show (beginResponse text s).client.hasBackend = false from hb] at hb'
      cases hb'
    · rw [show (beginResponse text s).client.backendPaused = false from hnp] at hp'
      cases hp'
  refine wp_mono (h.pumpWrite _ w hcore hagree (.of_unlinked hb)) ?_ ?_
  · intro st s₂ w₂ hpost
    obtain ⟨hresp, hcut⟩ := finishPump_cut (.beginResponse text) id hpost hb
    refine ⟨hresp, hcut, ?_⟩
    have hst := (hpost.frame.trans (.finishPump st)).state
    exact hst.elim id id
  · intro e s' hhalt
    refine ⟨hhalt.of_frame (.beginResponse text), fun he => ?_⟩
    rcases hhalt with he' | ⟨-, -, hf⟩
    · rw [he] at he'
      cases he'
    · exact hf.state.elim id id

theorem resp_specs (cfg : Cfg) : ∀ n, RespSpecs cfg n := by
  intro n
  induction n with
  | zero =>
      constructor <;> intros <;> first | exact .inl rfl | exact ⟨.inl rfl, (by rintro ⟨⟩)⟩
  | succ n ih =>
      exact
        { pumpWrite := fun _ _ => pumpWrite_step ih
          resumeReads := fun _ _ => resumeReads_step ih
          onReadable := fun _ _ => onReadable_step ih
          deliverToClient := fun _ _ d hs hb hp hd => deliverToClient_step ih hs hb hp d hd
          onBackendClosed := fun _ _ => onBackendClosed_step ih
          fail := fun _ _ why hs hb => fail_step ih hs hb why
          onBackendError := fun _ _ why hc => onBackendError_step ih hc why
          sendResponse := fun _ _ r ho hc hb hr => sendResponse_step ih hc hb hr r ho }

end CastlePlus
