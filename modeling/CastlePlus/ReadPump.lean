import CastlePlus.RequestSide

/-! # From the request head to the read loop

    `process_head` and `start_backend` in the state they are called in (`AtHead`,
    `Starting`), and the loop of `pump_read` over them.

    * **`processHead_spec`** — the head is answered, forwarded or waited for; nothing of it
      is lost and what it queues for the backend fits.
    * **`pumpRead_spec`** — the loop keeps the invariant of the pair, `PairInv`, and calls
      through a null `backend_` only on a script that `CutsUpload` describes. -/

namespace CastlePlus

open ScriptProg

variable {cfg : Cfg} {s s' : Pair} {w w' : List Answer} {n : Nat} {r : Routed}

/-- `process_head` at work: all client bytes are in `in_`, no backend yet. -/
structure AtHead (cfg : Cfg) (s : Pair) : Prop where
  settled : Settled cfg s
  state : s.client.state = .readingHead
  opened : s.client.closed = false
  shaken : s.client.handshakeDone = true
  unpaused : s.client.readPaused = false
  silent : s.client.responded = false
  alone : s.backend = none
  fresh : s.hist.forwarded = false
  whole : s.client.inBuf = s.hist.fromClient
  bound : s.client.inBuf.length ≤ kMaxHead + kReadBuf
  unsent : s.hist.toBackend = []
  routing : ∀ r, s.hist.routed = some r → Accepted cfg s.hist.fromClient r ∧
    s.client.bodyRemaining = r.bodyLen ∧ r.headLen ≤ s.hist.fromClient.length

/-- What the functions behind the head establish. -/
structure HeadPost (cfg : Cfg) (s' : Pair) : Prop where
  settled : Settled cfg s'
  up : UpAt cfg s' s'.hist.fromClient
  shaken : s'.client.handshakeDone = true
  idle : ¬ Uploading s'
  unpaused : s'.client.closed = false → s'.client.backendPaused = false
  delivery : Delivery s'

namespace AtHead

theorem unlinked (h : AtHead cfg s) : s.client.hasBackend = false := by
  cases hb : s.client.hasBackend with
  | false => rfl
  | true =>
      obtain ⟨b, hbk, -⟩ := h.settled.steady.linked hb
      rw [h.alone] at hbk
      cases hbk

theorem safe (h : AtHead cfg s) : UpSafe cfg s where
  inBound := h.bound
  bound b hb := by rw [h.alone] at hb; cases hb
  unrouted _ := ⟨h.alone, h.unsent, h.fresh⟩
  accepted r hr := (h.routing r hr).1
  sent r _ := by rw [h.unsent]; exact List.nil_prefix
  whole _ hst := by rw [h.state] at hst; cases hst

/-- Time may pass. -/
theorem at_time (h : AtHead cfg s) (t : Nat) : AtHead cfg { s with now := t } where
  settled := h.settled.of_view rfl
  state := h.state
  opened := h.opened
  shaken := h.shaken
  unpaused := h.unpaused
  silent := h.silent
  alone := h.alone
  fresh := h.fresh
  whole := h.whole
  bound := h.bound
  unsent := h.unsent
  routing := h.routing

theorem pending (h : AtHead cfg s) : ReqHalt cfg False .pending s :=
  .inr ⟨h.settled.steady.atCall, h.safe, fun _ _ => h.opened, .inl rfl⟩

/-- Answering ends the upload before it began. -/
theorem sendResponse_spec (h : AtHead cfg s) (reply : Reply) (headOnly : Bool) :
    wp (sendResponse cfg n reply headOnly)
      (fun _ s' _ => HeadPost cfg s' ∧ s'.client.state = .closing) (ReqHalt cfg False) s w := by
  refine wp_mono ((resp_specs cfg n).sendResponse s w reply headOnly h.settled.steady.toCore
    h.unlinked h.silent) ?_ fun e s' hh => hh.1.toReq h.safe (.inl h.fresh)
  rintro _ s' _ ⟨hpost, hcut, hst⟩
  have hup := hpost.frame.upload
  simp only [upload, Upload.mk.injEq] at hup
  obtain ⟨e1, -, e3, e4, -, e6, e7, e8, e9, e10, -⟩ := hup
  have hnone := hpost.frame.backend_none h.alone
  have hsafe := h.safe.of_frame hpost.frame
  refine ⟨⟨h.settled.of_post hpost, ?_, e6.trans h.shaken, ?_, hpost.steady.unpaused hcut,
    .of_void (.inl (e10.trans h.fresh))⟩, hst⟩
  · refine ⟨hsafe.inBound, ?_, ?_, hsafe.unrouted, hsafe.accepted, hsafe.sent, ?_, ?_, ?_, ?_,
      hsafe.bound, ?_, ?_, ?_⟩
    · rw [hst]; rintro ⟨⟩
    · rw [e6, h.shaken]; rintro ⟨⟩
    · rw [hnone]; intros; contradiction
    · intro r hr
      rw [e9] at hr
      obtain ⟨-, h2, h3⟩ := h.routing r hr
      rw [e3, h2, e7]
      exact ⟨Nat.le_refl _, by omega⟩
    · rw [hst]; intros; contradiction
    · rw [hst]; rintro ⟨⟩
    · rw [hst]; intros; contradiction
    · rw [hnone]; intros; contradiction
    · rw [hst]; intros; contradiction
  · rintro ⟨hup, -⟩
    rw [hst] at hup
    cases hup

end AtHead

/-! ## Castle's own endpoints -/

theorem renderHealth_spec {routes : List Route} {probed : List Backend} {acc : Bytes × Bool} :
    wp (renderHealth routes probed acc) (fun _ s' _ => ∃ t, s' = { s with now := t })
      (fun e s' => e = .pending ∧ ∃ t, s' = { s with now := t }) s w := by
  induction routes generalizing s w probed acc with
  | nil => exact ⟨s.now, rfl⟩
  | cons r rest ih =>
      simp only [renderHealth, wp_ite, wp_bind]
      refine ⟨fun _ => ih, fun _ => ?_⟩
      refine wp_sysCall ⟨rfl, s.now, rfl⟩ ?_
      intro a w' up _ _
      refine wp_mono ih ?_ ?_
      · rintro _ s' _ ⟨t, rfl⟩
        exact ⟨t, rfl⟩
      · rintro e s' ⟨he, t, rfl⟩
        exact ⟨he, t, rfl⟩

theorem handleInternal_spec (h : AtHead cfg s) (method target : Bytes) :
    wp (handleInternal cfg n method target) (fun _ s' _ => HeadPost cfg s')
      (ReqHalt cfg False) s w := by
  have hreply : ∀ t reply headOnly w, wp (sendResponse cfg n reply headOnly)
      (fun _ s' _ => HeadPost cfg s') (ReqHalt cfg False) { s with now := t } w := by
    intro t reply headOnly w
    refine wp_mono ((h.at_time t).sendResponse_spec reply headOnly) ?_ fun _ _ h => h
    exact fun _ _ _ h => h.1
  simp only [handleInternal, wp_ite, wp_bind]
  refine ⟨fun _ => hreply s.now _ _ w, fun _ => ⟨fun _ => ?_, fun _ => ⟨fun _ => ?_, fun _ =>
    hreply s.now _ _ w⟩⟩⟩
  · refine wp_mono renderHealth_spec ?_ ?_
    · rintro ⟨body, allUp⟩ s' w' ⟨t, rfl⟩
      exact ⟨fun _ => hreply t _ _ w', fun _ => hreply t _ _ w'⟩
    · rintro e s' ⟨rfl, t, rfl⟩
      exact (h.at_time t).pending
  · refine wp_sysCall h.pending ?_
    intro a w' text _ _
    exact hreply _ _ _ w'

/-! ## Opening the backend -/

/-- `start_backend` at work for `r`. -/
structure Starting (cfg : Cfg) (s : Pair) (r : Routed) : Prop extends AtHead cfg s where
  routed : s.hist.routed = some r
  headLen : s.client.headLen = r.headLen
  upstream : s.client.upstream = r.head
  size : r.head.length + (s.client.inBuf.length - r.headLen) ≤ kBackpressureHigh

/-- `start_backend` got through: at most the pointer to the new, unconnected backend has
    changed on the client's side. -/
structure Started (cfg : Cfg) (s : Pair) (r : Routed) (s' : Pair) : Prop where
  settled : Settled cfg s'
  client : ∃ link, s'.client = { s.client with hasBackend := link }
  hist : ∃ err, s'.hist = { s.hist with forwarded := true, backendError := err }
  linked : s'.hist.backendError = true ∨ s'.client.hasBackend = true
  object : ∀ b, s'.backend = some b → b.outBuf = r.head ∧ b.connected = false

/-- The pair with a fresh backend object. -/
def attached (s : Pair) (b : BackendConnection) (mask : Option Mask) : Pair :=
  { s with
    backend := some b
    backendMask := mask
    backendPending := false
    client.hasBackend := true
    hist.forwarded := true }

namespace Starting

theorem at_time (h : Starting cfg s r) (t : Nat) : Starting cfg { s with now := t } r :=
  ⟨h.toAtHead.at_time t, h.routed, h.headLen, h.upstream, h.size⟩

/-- The new backend is linked, unpaused and armed, whether registered yet or not. -/
theorem attached_steady (h : Starting cfg s r) {b : BackendConnection} {mask : Option Mask}
    (hcl : b.hasClient = true) (hint : b.interest = ⟨false, true⟩)
    (hread : b.readPaused = false) (hmask : ∀ m, mask = some m → m = ⟨false, true⟩) :
    Steady cfg (attached s b mask) := by
  obtain ⟨hresp, hdel⟩ := h.settled.steady.quiet h.silent
  obtain ⟨hsent, hout⟩ := h.settled.steady.nothing_sent h.silent
  have hopen := h.opened
  have hnp : s.client.backendPaused = false := by
    cases hp : s.client.backendPaused with
    | false => rfl
    | true =>
        have := h.settled.steady.pausedResponded hp
        rw [h.silent] at this
        cases this
  obtain ⟨⟨-, -, -, -, h5, h6, h7, h8, h9, -, h11, -, h13, -, h15, -, -⟩, -, -, g4, g5⟩ :=
    h.settled.steady
  refine ⟨⟨fun _ => ⟨b, rfl, hcl⟩, fun _ _ _ => rfl, ?_, ?_, h5, h6, h7, h8, h9, ?_, h11,
    (by rintro ⟨⟩), h13, (by rintro ⟨⟩), h15, fun _ => rfl, (by rintro ⟨⟩)⟩, ⟨?_, fun _ _ => rfl⟩, ?_, g4, g5⟩
  · intro hclosed
    rw [show (attached s b mask).client.closed = s.client.closed from rfl, hopen] at hclosed
    cases hclosed
  · exact .inl ⟨hresp, by simp [attached, hsent, hout, hdel]⟩
  · rintro _ m _ hm ⟨⟩
    rw [hint]
    exact hmask m hm
  · rintro _ _ ⟨⟩
    rw [hread]
    exact hnp.symm
  · intro _ _
    simp [attached, hout]

/-- Nothing has been read from a fresh backend. -/
theorem attached_relayed (h : Starting cfg s r) 
    {b : BackendConnection} {mask : Option Mask} : Relayed (attached s b mask) := by
  intro _
  rw [show (attached s b mask).hist.delivered = [] from
    (h.settled.steady.quiet h.silent).2, show (attached s b mask).hist.fromBackend = [] from
    (h.settled.steady.unread h.fresh).1]

theorem attached_armed {b : BackendConnection} {mask : Option Mask}
    (hint : b.interest = ⟨false, true⟩) : BackendArmed (attached s b mask) := by
  rintro _ _ ⟨⟩ _
  rw [hint]

theorem attached_safe (h : Starting cfg s r) {b : BackendConnection} {mask : Option Mask}
    (hout : b.outBuf = r.head) : UpSafe cfg (attached s b mask) where
  inBound := h.bound
  bound := by
    rintro _ ⟨⟩
    have := h.size
    rw [hout]
    omega
  unrouted hnone := absurd (h.routed.symm.trans hnone) (by simp)
  accepted r' hr := (h.routing r' hr).1
  sent r' _ := by
    rw [show (attached s b mask).hist.toBackend = [] from h.unsent]
    exact List.nil_prefix
  whole _ hst := absurd (h.state.symm.trans hst) (by simp)

/-- The pair without the backend that could not be registered. -/
theorem destroyed_settled (h : Starting cfg s r) :
    Settled cfg { s with
      backendMask := none
      backendPending := false
      hist.forwarded := true } :=
  have hst := h.settled.steady
  have hnone : ∀ {b}, s.backend ≠ some b := fun {b} hb => by
    rw [h.alone] at hb
    cases hb
  { steady :=
      { linked := hst.linked
        linkedBack := hst.linkedBack
        closedCut := hst.closedCut
        origin := hst.origin
        quiet := hst.quiet
        keptOut := hst.keptOut
        room := hst.room
        pausedResponded := hst.pausedResponded
        clientMask := hst.clientMask
        backendMask := fun _ _ _ hm => by cases hm
        plainBlock := hst.plainBlock
        registered := fun _ => rfl
        clientPending := hst.clientPending
        backendPending := fun hp => by cases hp
        relayed := hst.relayed
        opened := fun _ => rfl
        unread := fun hf => by cases hf
        agree := ⟨hst.agree.flags, hst.agree.attached⟩
        slack := hst.slack
        pausedFull := hst.pausedFull
        clientArmed := hst.clientArmed }
    armed := h.settled.armed
    scheduled := fun _ hb _ => absurd hb hnone
    relayed := h.settled.relayed
    clientIn := h.settled.clientIn
    backendIn := fun hne => absurd h.alone hne }

/-- `loop_.add` of the new backend. -/
theorem register_spec (h : Starting cfg s r) (t : Nat) :
    wp epollAdd (fun added s' _ => Started cfg s r (finishAdd added s')) (ReqHalt cfg False)
      (attached s (appended { lastActivity := t } r.head) none) w := by
  have hsteady : ∀ t' mask, (∀ m, mask = some m → m = ⟨false, true⟩) →
      Steady cfg (attached { s with now := t' } (appended { lastActivity := t } r.head) mask) :=
    fun t' mask hmask => (h.at_time t').attached_steady rfl rfl rfl hmask
  refine wp_sysCall (.inr ⟨(hsteady s.now none (by intros; contradiction)).atCall,
    h.attached_safe (by simp [appended]), fun _ _ => h.opened, .inl rfl⟩) ?_
  intro a w' added _ _
  cases added with
  | true =>
      have heq : finishAdd true (noteConnect true (tick a.dt
          (attached s (appended { lastActivity := t } r.head) none)))
          = attached { s with now := s.now + a.dt } (appended { lastActivity := t } r.head)
            (some ⟨false, true⟩) := by
        simp [finishAdd, noteConnect, tick, attached]
      rw [heq]
      refine ⟨⟨hsteady _ _ (by simp), attached_armed rfl, ?_,
        (h.at_time _).attached_relayed, h.settled.clientIn, fun _ => rfl⟩, ⟨true, rfl⟩,
        ⟨_, rfl⟩, .inr rfl, ?_⟩
      · rintro _ ⟨⟩ hno
        cases hno
      · rintro _ ⟨⟩
        exact ⟨by simp [appended], rfl⟩
  | false =>
      -- `add` destroys what it cannot register, and the destructor cuts the link
      have heq : finishAdd false (noteConnect false (tick a.dt
          (attached s (appended { lastActivity := t } r.head) none)))
          = { s with
              now := s.now + a.dt
              backendMask := none
              backendPending := false
              hist.forwarded := true
              hist.backendError := true } := by
        have hlink := h.unlinked
        have halone := h.alone
        cases s with
        | mk client backend =>
          cases client
          simp_all [finishAdd, destroyBackend, detachBackend, noteConnect, tick, attached, appended]
      rw [heq]
      refine ⟨h.destroyed_settled.of_view rfl, ⟨s.client.hasBackend, rfl⟩, ⟨true, rfl⟩, .inl rfl,
        ?_⟩
      intro b hb
      exact absurd (h.alone.symm.trans hb) (by simp)

theorem startBackend_spec (h : Starting cfg s r) :
    wp (startBackend cfg n)
      (fun _ s' _ => (HeadPost cfg s' ∧ s'.client.state = .closing) ∨ Started cfg s r s')
      (ReqHalt cfg False) s w := by
  cases n with
  | zero => exact .inl rfl
  | succ n =>
      have hreply : ∀ t reply w, wp (sendResponse cfg n reply false)
          (fun _ s' _ => (HeadPost cfg s' ∧ s'.client.state = .closing) ∨ Started cfg s r s')
          (ReqHalt cfg False) { s with now := t } w := by
        intro t reply w
        refine wp_mono ((h.at_time t).sendResponse_spec reply false) ?_ fun _ _ h => h
        exact fun _ _ _ h => .inl h
      simp only [startBackend, wp_bind, wp_get, wp_ite, wp_modify]
      refine wp_sysCall h.pending ?_
      intro a₁ w₁ sock _ _
      refine ⟨fun _ => hreply _ _ w₁, fun _ => ⟨fun _ => hreply _ _ w₁, fun _ => ?_⟩⟩
      refine wp_sysCall (h.at_time _).pending ?_
      intro a₂ w₂ connecting _ _
      refine ⟨fun _ => hreply _ _ w₂, fun _ => ?_⟩
      -- the head is queued: the connect has not completed yet
      rw [wp_viaBackend rfl]
      cases n with
      | zero => exact .inl rfl
      | succ n =>
          generalize ht : s.now + a₁.dt + a₂.dt = t
          have hopen : openBackend (noNote connecting (tick a₂.dt (noNote sock (tick a₁.dt s))))
              = attached { s with now := t } { lastActivity := t } none := by
            simp [openBackend, noNote, tick, attached, ht]
          have hqueue : queueBackend s.client.upstream
              (attached { s with now := t } { lastActivity := t } none)
              = attached { s with now := t } (appended { lastActivity := t } r.head) none := by
            simp [queueBackend, onBackend, attached, appended, h.upstream]
          have hself : (attached { s with now := t } (appended { lastActivity := t } r.head)
              none).backend = some (appended { lastActivity := t } r.head) := rfl
          rw [hopen]
          simp only [send, wp_bind, wp_modify, wp_ite]
          rw [show (noNote sock (tick a₁.dt s)).client.upstream = s.client.upstream from rfl,
            hqueue]
          simp only [wp_self hself, wp_pure]
          refine ⟨fun hconn => (by cases hconn), fun _ => ?_⟩
          refine wp_mono ((h.at_time t).register_spec t) ?_ fun _ _ h => h
          exact fun _ _ _ hs => .inr ⟨hs.1, hs.2, hs.3, hs.4, hs.5⟩

end Starting

/-- The upload when the head has been queued for the backend, and nothing of the body. -/
theorem UpAt.started {fc : Bytes} {st : State}
    (hin : s.client.inBuf.length ≤ kMaxHead + kReadBuf) (hst : s.client.state = st)
    (hshake : s.client.handshakeDone = true) (hp : s.client.readPaused = false)
    (hr : s.hist.routed = some r) (hacc : Accepted cfg s.hist.fromClient r)
    (hrem : s.client.bodyRemaining = r.bodyLen) (hto : s.hist.toBackend = [])
    (hobj : ∀ b, s.backend = some b → b.outBuf = r.head)
    (hsize : r.head.length ≤ kBackpressureHigh)
    (hcase : (st = .streaming ∧ r.bodyLen = 0 ∧ r.headLen ≤ fc.length) ∨
      (st = .streamingUp ∧ 0 < r.bodyLen ∧ r.headLen = fc.length)) : UpAt cfg s fc := by
  have hroute : ∀ {r'}, s.hist.routed = some r' → r' = r := by
    intro r' hr'
    rw [hr] at hr'
    exact (Option.some.inj hr').symm
  -- no body byte has been handed over: what differs is in `hcase`
  refine ⟨hin, ?_, ?_, ?_, ?_, ?_, ?_, ?_, ?_, ?_, ?_, ?_, ?_, ?_⟩
  · intro h
    rw [hst] at h
    rcases hcase with ⟨hcase, -⟩ | ⟨hcase, -⟩ <;> rw [hcase] at h <;> cases h
  · rw [hshake]; rintro ⟨⟩
  · rw [hr]; rintro ⟨⟩
  · intro r' hr'
    rw [hroute hr']
    exact hacc
  · intro r' _
    rw [hto]
    exact List.nil_prefix
  · intro r' b hr' hb _
    rw [hroute hr', hto, hobj b hb, hrem]
    simp [Routed.handed]
  · intro r' hr'
    rw [hroute hr', hrem]
    exact ⟨Nat.le_refl _, by omega⟩
  · intro r' hr' hup _
    rw [hst] at hup
    rw [hroute hr', hrem]
    rcases hcase with ⟨hcase, -⟩ | ⟨-, h1, h2⟩
    · rw [hcase] at hup
      cases hup
    · exact ⟨h1, by omega⟩
  · intro h
    rw [hst] at h
    rcases hcase with ⟨-, hcase, -⟩ | ⟨hcase, -⟩
    · rw [hrem, hcase]
    · rw [hcase] at h
      cases h
  · intro b hb
    rw [hobj b hb]
    omega
  · intro b hb _ _ _
    rw [hobj b hb]
    exact hsize
  · rw [hp]; intros; contradiction
  · rw [hp]; intros; contradiction

theorem UpAt.clearIn {fc : Bytes} (h : UpAt cfg s fc) (hst : s.client.state ≠ .readingHead) :
    UpAt cfg (clearIn s) fc :=
  ⟨Nat.zero_le _, fun hr => absurd hr hst, h.3, h.4, h.5, h.6, h.7, h.8, h.9, h.10, h.11, h.12,
    h.13, h.14⟩

theorem beginUpload_spec (h : Starting cfg s r) :
    wp (beginUpload cfg n) (fun _ s' _ => HeadPost cfg s') (ReqHalt cfg False) s w := by
  cases n with
  | zero => exact .inl rfl
  | succ n =>
      simp only [beginUpload, wp_bind, wp_get, wp_ite, wp_modify, wp_pure]
      refine wp_mono (h.startBackend_spec) ?_ fun _ _ h => h
      rintro _ s₁ w₁ (⟨hpost, hst⟩ | ⟨hset, ⟨link, hc⟩, ⟨err, hhist⟩, hlinked, hobj⟩)
      · exact ⟨fun _ => hpost, fun hno => absurd (.inl hst) hno⟩
      · obtain ⟨hacc, hrem, hlen⟩ := h.routing r h.routed
        have hsize := h.size
        have hst₁ : s₁.client.state = .readingHead := by rw [hc]; exact h.state
        have hopen₁ : s₁.client.closed = false := by rw [hc]; exact h.opened
        have hin₁ : s₁.client.inBuf = s.client.inBuf := by rw [hc]
        refine ⟨fun hend => ?_, fun _ => ?_⟩
        · rw [hst₁, hopen₁] at hend
          rcases hend with hend | hend <;> cases hend
        -- the upload at either of the two states the head can lead to
        have hup : ∀ st fc, _ → UpAt cfg (setState st s₁) fc := fun st fc hcase =>
          .started (by simp [setState, hin₁, h.bound]) rfl
            (by simp [setState, hc, h.shaken]) (by simp [setState, hc, h.unpaused])
            (by simp [setState, hhist, h.routed]) (by simpa [setState, hhist] using hacc)
            (by simp [setState, hc, hrem]) (by simp [setState, hhist, h.unsent])
            (fun b hb => (hobj b hb).1) (by omega) hcase
        have hidle : ∀ s', s'.backend = s₁.backend → ¬ Uploading s' := by
          rintro s' hb ⟨-, -, b, hb', hconn⟩
          rw [(hobj b (hb.symm.trans hb')).2] at hconn
          cases hconn
        have hnp₁ : s₁.client.backendPaused = false := by
          rw [hc]
          exact h.settled.steady.unpaused h.unlinked h.opened
        -- the response has not begun
        have hdel : ∀ st, st ≠ .closing → Delivery (setState st s₁) := by
          intro st hne _ hclean
          have hlink : s₁.client.hasBackend = true :=
            hlinked.resolve_left fun herr => absurd (herr.symm.trans hclean.1) (by simp)
          refine ⟨?_, fun _ => ⟨?_, hne⟩, fun hcut => absurd (hlink.symm.trans hcut) (by simp),
            fun hclosed => absurd (hopen₁.symm.trans hclosed) (by simp)⟩
          · simp only [setState, hhist]
            exact (h.settled.steady.quiet h.silent).1
          · simp only [setState, hhist]
            exact (h.settled.steady.unread h.fresh).2
        refine ⟨fun hzero => ?_, fun hmore => ?_⟩
        · have hzero' : r.bodyLen = 0 := by rw [← hrem, ← hzero, hc]
          refine ⟨hset.of_view rfl, ?_, by simp [clearIn, setState, hc, h.shaken], hidle _ rfl,
            fun _ => hnp₁, (hdel .streaming (by rintro ⟨⟩)).of_view rfl .rfl⟩
          refine (hup .streaming _ (.inl ⟨rfl, hzero', ?_⟩)).clearIn (by simp [setState])
          simpa [clearIn, setState, hhist] using hlen
        · have hmore' : 0 < r.bodyLen := by
            rw [← hrem]
            rw [hc] at hmore
            exact Nat.pos_of_ne_zero hmore
          have hhead : s₁.client.headLen = r.headLen := by rw [hc]; exact h.headLen
          have hlen' : r.headLen ≤ s₁.client.inBuf.length := by rw [hin₁, h.whole]; exact hlen
          have hsplit : s₁.client.inBuf.take r.headLen ++ s₁.client.inBuf.drop r.headLen
              = s₁.hist.fromClient := by
            rw [List.take_append_drop, hin₁, hhist, h.whole]
          have hup₁ := hup .streamingUp (s₁.client.inBuf.take r.headLen)
            (.inr ⟨rfl, hmore', by rw [List.length_take]; omega⟩)
          rw [hhead]
          refine ⟨fun hbuf => ?_, fun hbuf => ?_⟩
          · refine wp_mono (forwardBody_spec (s := setState .streamingUp s₁) (hset.of_view rfl)
              hup₁ hsplit.symm rfl (by simp [setState, hc, h.unpaused]) hbuf ?_) ?_ ?_
            · intro b hb _
              rw [(hobj b hb).1, List.length_drop, hin₁]
              omega
            · intro _ s₂ w₂ hpost
              have hst₂ := hpost.headDone rfl
              refine ⟨hpost.settled.of_view rfl, hpost.up.clearIn hst₂,
                hpost.shaken.trans (by simp [setState, hc, h.shaken]),
                fun hup₂ => hidle (setState .streamingUp s₁) rfl (hpost.next hup₂).1, ?_,
                (hpost.kept.delivery (hdel .streamingUp (by rintro ⟨⟩))).of_view rfl .rfl⟩
              intro hopen₂
              by_contra hp₂
              have := hpost.kept.paused hopen₂ (by simpa [clearIn] using hp₂)
              rw [show (setState .streamingUp s₁).client.backendPaused = false from hnp₁] at this
              cases this
            · exact fun e s' hh => hh.mono fun hcut => hidle (setState .streamingUp s₁) rfl hcut.1
          · have hnil : s₁.client.inBuf.drop r.headLen = [] := by simpa using hbuf
            rw [hnil, List.append_nil] at hsplit
            refine ⟨hset.of_view rfl, ?_, by simp [clearIn, setState, hc, h.shaken],
              hidle _ rfl, fun _ => hnp₁, (hdel .streamingUp (by rintro ⟨⟩)).of_view rfl .rfl⟩
            rw [show (clearIn (setState .streamingUp s₁)).hist.fromClient = s₁.hist.fromClient
              from rfl, ← hsplit]
            exact hup₁.clearIn (by simp [setState])

/-! ## The head -/

/-- A head that is not complete and not too long yet. -/
theorem AtHead.up (h : AtHead cfg s) (hr : s.hist.routed = none)
    (hlen : s.client.inBuf.length ≤ kMaxHead) : UpAt cfg s s.hist.fromClient where
  inBound := h.bound
  reading _ := ⟨hr, h.whole, hlen, h.silent, h.unlinked, h.unpaused⟩
  shaking _ := h.state
  unrouted _ := ⟨h.alone, h.unsent, h.fresh⟩
  accepted r hr' := (h.routing r hr').1
  sent r hr' := absurd (hr.symm.trans hr') (by simp)
  queue r _ hr' := absurd (hr.symm.trans hr') (by simp)
  counted r hr' := absurd (hr.symm.trans hr') (by simp)
  uploading r hr' := absurd (hr.symm.trans hr') (by simp)
  done hst := absurd (h.state.symm.trans hst) (by simp)
  bound b hb := absurd (h.alone.symm.trans hb) (by simp)
  room b hb := absurd (h.alone.symm.trans hb) (by simp)
  paused b hb := absurd (h.alone.symm.trans hb) (by simp)
  pausedLinked _ hst := absurd (h.state.symm.trans hst) (by simp)

theorem AtHead.setHeadLen (h : AtHead cfg s) (k : Nat) : AtHead cfg (setHeadLen k s) :=
  ⟨h.settled.of_view rfl, h.state, h.opened, h.shaken, h.unpaused, h.silent, h.alone, h.fresh,
    h.whole, h.bound, h.unsent, h.routing⟩

/-- The head is accepted: what it leads to fits the backend's buffer. -/
theorem AtHead.acceptHead (h : AtHead cfg s) {req : PhrRequest} {head rest : Bytes}
    {target : Backend} {len : Nat}
    (hparse : phrParseRequest (some kMaxHeaders) s.client.inBuf = .done req rest)
    (hv : headVerdict cfg.routes cfg.maxBody req = .forward head target len) :
    Starting cfg (acceptHead head target len
        (CastlePlus.setHeadLen (s.client.inBuf.length - rest.length) s))
      ⟨head, s.client.inBuf.length - rest.length, len⟩ := by
  have hrest := (phrParseRequest_done hparse).2.2
  have hlen := headVerdict_length hparse hv
  refine ⟨⟨h.settled.of_view rfl, h.state, h.opened, h.shaken, h.unpaused, h.silent, h.alone,
    h.fresh, h.whole, h.bound, h.unsent, ?_⟩, rfl, rfl, rfl, ?_⟩
  · rintro r ⟨⟩
    have hle : s.client.inBuf.length - rest.length ≤ s.hist.fromClient.length := by
      rw [← h.whole]
      exact Nat.sub_le _ _
    exact ⟨⟨s.client.inBuf, req, rest, target, ⟨[], (List.append_nil _).trans h.whole⟩, hparse,
      hv, rfl⟩, rfl, hle⟩
  · have hb := h.bound
    have hmax : 2 * (kMaxHead + kReadBuf) + 33 ≤ kBackpressureHigh := by decide
    simp only [CastlePlus.acceptHead, CastlePlus.setHeadLen]
    omega

theorem processHead_spec (h : AtHead cfg s) (hr : s.hist.routed = none) :
    wp (processHead cfg n) (fun _ s' _ => HeadPost cfg s') (ReqHalt cfg False) s w := by
  cases n with
  | zero => exact .inl rfl
  | succ n =>
      have hreply : ∀ {s : Pair} {w}, AtHead cfg s → ∀ reply, wp (sendResponse cfg n reply false)
          (fun _ s' _ => HeadPost cfg s') (ReqHalt cfg False) s w := by
        intro s w h reply
        refine wp_mono (h.sendResponse_spec reply false) ?_ fun _ _ h => h
        exact fun _ _ _ h => h.1
      simp only [processHead, wp_bind, wp_get]
      cases hparse : phrParseRequest (some kMaxHeaders) s.client.inBuf with
      | incomplete =>
          simp only [wp_ite, wp_pure]
          refine ⟨fun _ => hreply h _, fun hshort => ?_⟩
          refine ⟨h.settled, h.up hr (by omega), h.shaken, ?_,
            fun _ => h.settled.steady.unpaused h.unlinked h.opened, .of_void (.inl h.fresh)⟩
          rintro ⟨hst, -⟩
          rw [h.state] at hst
          cases hst
      | malformed => exact hreply h _
      | done req rest =>
          simp only [wp_bind, wp_modify]
          have h' := h.setHeadLen (s.client.inBuf.length - rest.length)
          cases hv : headVerdict cfg.routes cfg.maxBody req with
          | handleInternal method target => exact handleInternal_spec h' method target
          | reply reply => exact hreply h' reply
          | overflow => exact absurd hv (headVerdict_ne_overflow _ _ _)
          | forward head target len =>
              simp only [wp_bind, wp_modify]
              exact beginUpload_spec (h.acceptHead hparse hv)

/-! ## The read loop -/

/-- The pair between two callbacks, and between two reads. -/
structure PairInv (cfg : Cfg) (s : Pair) : Prop where
  settled : Settled cfg s
  up : UpAt cfg s s.hist.fromClient

/-- The script of a callback that calls through a null `backend_`. -/
def CutsUpload (s : Pair) (w : List Answer) : Prop :=
  Uploading s ∧ cutsUpload s.client.bodyRemaining false w = true

theorem PairInv.safe (h : PairInv cfg s) : UpSafe cfg s := h.up.safe (List.append_nil _).symm

theorem PairInv.pending (h : PairInv cfg s) {cut : Prop} : CallHalt cfg cut .pending s :=
  .inr ⟨h.settled.steady.atCall, h.safe, .inl rfl⟩

/-- A step of the response side, or one that the upload does not notice. -/
theorem PairInv.of_post (h : PairInv cfg s) (hp : RespPost cfg s s')
    (hshake : s.client.handshakeDone = true ∨ s'.client.state = s.client.state) :
    PairInv cfg s' := by
  have hfrom : s'.hist.fromClient = s.hist.fromClient := congrArg Upload.fromClient hp.frame.upload
  refine ⟨h.settled.of_post hp, ?_⟩
  rw [hfrom]
  exact h.up.of_frame hp.frame hshake

theorem state_closeBoth : (closeBoth s).client.state = s.client.state ∧
    (closeBoth s).client.handshakeDone = s.client.handshakeDone := by
  cases hc : s.client.closed with
  | true => rw [closeBoth_of_closed hc]; exact ⟨rfl, rfl⟩
  | false => rw [closeBoth_of_open hc]; exact ⟨rfl, rfl⟩

theorem PairInv.closeBoth (h : PairInv cfg s) : PairInv cfg (closeBoth s) :=
  h.of_post (.closeBoth h.settled.steady.toCore .closeBoth id) (.inr state_closeBoth.1)

theorem PairInv.at_time (h : PairInv cfg s) (t : Nat) : PairInv cfg { s with now := t } :=
  ⟨h.settled.of_view rfl, h.up.of_frame (.of_view rfl) (.inr rfl)⟩

/-- Whether the client's fd is dry is nothing to the invariant. -/
theorem PairInv.noteDry (h : PairInv cfg s) (dry : Bool) :
    PairInv cfg { s with hist.clientDry := dry } :=
  ⟨h.settled.of_view rfl, h.up.of_frame (.of_view rfl) (.inr rfl)⟩

/-- A recv that handed over nothing. -/
theorem PairInv.noteRecv (h : PairInv cfg s) {res : Io Chunk} (hres : ∀ c, res ≠ .ok c)
    (dt : Nat) : PairInv cfg (noteRecv res (tick dt s)) := by
  have h' : PairInv cfg (tick dt s) := h.at_time _
  cases res with
  | ok c => exact absurd rfl (hres c)
  | closed =>
      simp only [CastlePlus.noteRecv]
      split
      · exact h'.noteDry _
      · exact ⟨h'.settled.of_view rfl, h'.up.of_frame
          ⟨rfl, .inl rfl, id, fun _ _ => rfl, id, id, by simp [Clean], id, fun _ _ => rfl, rfl,
            rfl⟩ (.inr rfl)⟩
  | error =>
      exact ⟨h'.settled.of_view rfl, h'.up.of_frame
        ⟨rfl, .inl rfl, id, fun _ _ => rfl, id, id, by simp [Clean, CastlePlus.noteRecv], id,
          fun _ _ => rfl, rfl, rfl⟩ (.inr rfl)⟩
  | wouldBlockRead => exact h'.noteDry _
  | wouldBlockWrite => exact h'.noteDry _

theorem hist_closeBoth : (closeBoth s).hist = s.hist := by
  cases hc : s.client.closed with
  | true => rw [closeBoth_of_closed hc]
  | false => rw [closeBoth_of_open hc]

/-- A close that the client has brought about. -/
theorem Kept.closeBoth {s₁ : Pair} (h : ¬ Clean s₁) : Kept s (closeBoth s₁) := by
  refine ⟨fun hopen => absurd (closed_closeBoth.symm.trans hopen) (by simp), fun _ _ hc => ?_⟩
  rw [Clean] at hc
  rw [hist_closeBoth] at hc
  exact absurd hc h

theorem client_noteRecv (res : Io Chunk) : (noteRecv res s).client = s.client := by
  unfold noteRecv
  split
  · rfl
  · split <;> rfl
  · rfl
  · rfl
  · rfl

/-- `process_head` starts when the bytes just read are in `in_`. -/
theorem UpAt.atHead {fc d : Bytes} (hup : UpAt cfg s fc) (hs : Settled cfg s)
    (hfc : s.hist.fromClient = fc ++ d) (hst : s.client.state = .readingHead)
    (hopen : s.client.closed = false) (hshake : s.client.handshakeDone = true)
    (hlen : d.length ≤ kReadBuf) : AtHead cfg (appendIn d s) := by
  obtain ⟨h1, h2, h3, h4, h5, h6⟩ := hup.reading hst
  obtain ⟨hnone, hto, hfresh⟩ := hup.unrouted h1
  refine ⟨hs.of_view rfl, hst, hopen, hshake, h6, h4, hnone, hfresh, ?_, ?_, hto, ?_⟩
  · simp [appendIn, h2, hfc]
  · simp only [appendIn, List.length_append]
    omega
  · intro r hr
    exact absurd (h1.symm.trans hr) (by simp)

theorem handleClientBytes_spec {fc d : Bytes} (hs : Settled cfg s) (hup : UpAt cfg s fc)
    (hfc : s.hist.fromClient = fc ++ d) (hopen : s.client.closed = false)
    (hshake : s.client.handshakeDone = true) (hp : s.client.readPaused = false) (hd : d ≠ [])
    (hlen : d.length ≤ kReadBuf) :
    wp (handleClientBytes cfg n d) (fun _ s' w' => FedPost cfg s d w s' w')
      (ReqHalt cfg (FedCut s d w)) s w := by
  cases n with
  | zero => exact .inl rfl
  | succ n =>
      -- bytes behind the request are dropped
      have hdrop : s.client.state ≠ .readingHead → s.client.state ≠ .streamingUp →
          FedPost cfg s d w s w := by
        intro h1 h2
        refine ⟨hs, ?_, rfl, fun h => absurd h h2, ⟨fun _ h => h, id⟩, fun h => absurd h.1 h2⟩
        rw [hfc]
        exact hup.ignore h1 fun h => absurd h h2
      simp only [handleClientBytes, wp_bind, wp_get]
      cases hst : s.client.state with
      | readingHead =>
          simp only [wp_bind, wp_modify]
          have h := hup.atHead hs hfc hst hopen hshake hlen
          refine wp_mono (processHead_spec h (hup.reading hst).1) ?_ ?_
          · intro _ s' w' hpost
            refine ⟨hpost.settled, hpost.up, hpost.shaken.trans hshake.symm, ?_,
              ⟨fun hopen hp => ?_, fun _ => hpost.delivery⟩, fun h => absurd h hpost.idle⟩
            · rw [hst]
              rintro ⟨⟩
            · rw [hpost.unpaused hopen] at hp
              cases hp
          · exact fun e s' hh => hh.mono False.elim
      | streamingUp =>
          refine forwardBody_spec hs hup hfc hst hp hd fun b hb hlink => ?_
          have := hup.room b hb hlink hst hp
          omega
      | streaming => exact hdrop (by simp [hst]) (by simp [hst])
      | closing => exact hdrop (by simp [hst]) (by simp [hst])

/-- The script of a read, seen from before it. -/
theorem CutsUpload.of_read {a : Answer} {c : Chunk} (hup : Uploading s)
    (hres : a.res = .recv (.ok c)) (hlt : c.val.length < s.client.bodyRemaining)
    (h : cutsUpload (s.client.bodyRemaining - c.val.length) true w = true) :
    CutsUpload s (a :: w) := by
  refine ⟨hup, ?_⟩
  rw [cutsUpload]
  rw [hres]
  simp [hlt, h]

/-- A recv that handed over `c`: the upload has yet to deal with it. -/
theorem PairInv.received (h : PairInv cfg s) (c : Chunk) (dt : Nat) :
    Settled cfg (countRecv c.val.length (CastlePlus.noteRecv (.ok c) (tick dt s))) ∧
    UpAt cfg (countRecv c.val.length (CastlePlus.noteRecv (.ok c) (tick dt s)))
      s.hist.fromClient := by
  have hu := h.up
  exact ⟨h.settled.of_view rfl, hu.1, hu.2, hu.3, hu.4, fun r hr => (hu.5 r hr).mono, hu.6, hu.7,
    hu.8, hu.9, hu.10, hu.11, hu.12, hu.13, hu.14⟩

/-- What `pump_read` leaves. -/
structure Pumped (cfg : Cfg) (s' : Pair) : Prop extends PairInv cfg s' where
  shaken : s'.client.handshakeDone = true

theorem pumpRead_spec (h : Pumped cfg s) (hopen : s.client.closed = false) :
    wp (pumpRead cfg n) (fun _ s' _ => Pumped cfg s' ∧ Kept s s')
      (ReqHalt cfg (CutsUpload s w)) s w := by
  induction n generalizing s w with
  | zero => exact .inl rfl
  | succ n ih =>
      simp only [pumpRead, wp_bind, wp_get, wp_ite, wp_pure]
      refine ⟨fun _ => ⟨h, fun _ h => h, id⟩, fun hread => ?_⟩
      obtain ⟨hp, -⟩ := not_or.mp hread
      refine wp_transportRecv (.inr ⟨h.settled.steady.atCall, h.toPairInv.safe,
        fun _ _ => hopen, .inl rfl⟩) ?_
      intro a w₁ res hw hres _
      -- a recv that handed over nothing
      have hidle : (∀ c, res ≠ .ok c) → Pumped cfg (noteRecv res (tick a.dt s)) := fun hne =>
        ⟨h.toPairInv.noteRecv hne _, by rw [client_noteRecv]; exact h.shaken⟩
      have hclose : (∀ c, res ≠ .ok c) →
          Pumped cfg (closeBoth (noteRecv res (tick a.dt s))) := fun hne =>
        ⟨(hidle hne).toPairInv.closeBoth, state_closeBoth.2.trans (hidle hne).shaken⟩
      cases res with
      | ok c =>
          simp only [wp_bind, wp_modify, wp_get, wp_ite, wp_pure]
          generalize hs₁ : countRecv c.val.length (noteRecv (.ok c) (tick a.dt s)) = s₁
          have hc₁ : s₁.client = { s.client with lastActivity := s.now + a.dt } := by
            rw [← hs₁]; rfl
          obtain ⟨hset₁, hup₁⟩ := h.received c a.dt
          rw [hs₁] at hset₁ hup₁
          have hcut : Uploading s₁ → Uploading s ∧
              s₁.client.bodyRemaining = s.client.bodyRemaining := by
            rw [← hs₁]
            exact fun h => ⟨h, rfl⟩
          have hfc₁ : s₁.hist.fromClient = s.hist.fromClient ++ c.val := by rw [← hs₁]; rfl
          refine wp_mono (handleClientBytes_spec hset₁ hup₁ hfc₁ (by rw [hc₁]; exact hopen)
            (by rw [hc₁]; exact h.shaken) (by rw [hc₁]; simpa using hp) c.property.1
            c.property.2) ?_ ?_
          · intro _ s₂ w₂ hpost
            have h₂ : Pumped cfg s₂ :=
              ⟨⟨hpost.settled, hpost.up⟩, hpost.shaken.trans (by rw [hc₁]; exact h.shaken)⟩
            have hk : Kept s s₂ := by
              refine ⟨fun ho hp₂ => ?_, fun hd => hpost.kept.delivery ?_⟩
              · have := hpost.kept.paused ho hp₂
                rwa [hc₁] at this
              · rw [← hs₁]
                exact hd.of_view rfl .rfl
            refine ⟨fun _ => ⟨h₂, hk⟩, fun hopen₂ => ?_⟩
            have hopen₂' : s₂.client.closed = false := by simpa using hopen₂
            refine wp_mono (ih h₂ hopen₂') ?_ ?_
            · rintro _ s' _ ⟨h', hk'⟩
              exact ⟨h', fun ho hp' => hk.paused hopen₂' (hk'.paused ho hp'),
                fun hd => hk'.delivery (hk.delivery hd)⟩
            refine fun e s' hh => hh.mono ?_
            -- a later cut, seen from this read
            rintro ⟨hup₂, hc₂⟩
            obtain ⟨hupl, hlt, hrem, hskip⟩ := hpost.next hup₂
            obtain ⟨hupl₀, hrem₁⟩ := hcut hupl
            rw [hrem, hrem₁] at hc₂
            rw [hrem₁] at hlt
            rw [hw]
            exact .of_read hupl₀ hres hlt (hskip.hides _ _ (cutsUpload_fed hc₂))
          · refine fun e s' hh => hh.mono ?_
            rintro ⟨hupl, hlt, hc₂⟩
            obtain ⟨hupl₀, hrem₁⟩ := hcut hupl
            rw [hrem₁] at hlt hc₂
            rw [hw]
            exact .of_read hupl₀ hres hlt hc₂
      | closed =>
          simp only [wp_bind, wp_get, wp_ite, wp_modify, wp_pure]
          have h' := hidle (fun _ h => by cases h)
          rw [client_noteRecv]
          refine ⟨fun hend => ⟨⟨⟨h'.settled.of_view rfl, ?_⟩, h'.shaken⟩, ?_⟩, fun hend =>
            ⟨hclose (fun _ h => by cases h), .closeBoth ?_⟩⟩
          · have hu := h'.up
            exact ⟨hu.1, hu.2, hu.3, hu.4, hu.5, hu.6, hu.7, hu.8, hu.9, hu.10, hu.11, hu.12,
              hu.13, hu.14⟩
          · simp only [noteRecv, if_pos hend]
            exact ⟨fun _ h => h, fun hd => hd.of_view rfl .rfl⟩
          · simp only [noteRecv, if_neg hend]
            simp [Clean]
      | error => exact ⟨hclose (fun _ h => by cases h), .closeBoth (by simp [Clean, noteRecv])⟩
      | wouldBlockRead => exact ⟨hidle (fun _ h => by cases h), fun _ h => h, fun hd => hd.of_view rfl .rfl⟩
      | wouldBlockWrite => exact ⟨hidle (fun _ h => by cases h), fun _ h => h, fun hd => hd.of_view rfl .rfl⟩

end CastlePlus
