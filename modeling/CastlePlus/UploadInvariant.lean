import CastlePlus.HeadRewrite
import CastlePlus.ResponseSide

/-! # The invariant of the upload

    What the bytes of one request look like on their way from the client to the
    backend.  `Routed.target` is the string a routed request owes the backend:
    the rewritten head and the `bodyLen` client bytes behind the client's head.

    * **`UpAt cfg s fc`** — `fc` are the client bytes the code has dealt with.  What the
      backend's socket took followed by the backend's `out_` is a prefix of the target,
      cut exactly where `body_remaining_` says; the buffers are bounded; a paused upload
      has a backend that will wake it.
    * **`UpSafe cfg s`** — the part of it that holds at every moment, also inside `flush`.

    The response side changes none of this (`UpAt.of_frame`, `UpSafe.of_frame`). -/

namespace CastlePlus

open ScriptProg

variable {cfg : Cfg} {s s' : Pair} {fc d : Bytes} {r : Routed}

/-- What a routed request owes the backend, as far as the client bytes `fc` go. -/
def Routed.target (r : Routed) (fc : Bytes) : Bytes :=
  r.head ++ (fc.drop r.headLen).take r.bodyLen

/-- The part of it handed over while `left` body bytes are outstanding. -/
def Routed.handed (r : Routed) (fc : Bytes) (left : Nat) : Bytes :=
  r.head ++ (fc.drop r.headLen).take (r.bodyLen - left)

/-- `process_head` forwarded `r` on account of the first client bytes. -/
def Accepted (cfg : Cfg) (fc : Bytes) (r : Routed) : Prop :=
  ∃ buf req rest target, buf <+: fc ∧
    phrParseRequest (some kMaxHeaders) buf = .done req rest ∧
    headVerdict cfg.routes cfg.maxBody req = .forward r.head target r.bodyLen ∧
    r.headLen = buf.length - rest.length

/-- The upload between two steps of the code, with the client bytes `fc` dealt with. -/
structure UpAt (cfg : Cfg) (s : Pair) (fc : Bytes) : Prop where
  inBound : s.client.inBuf.length ≤ kMaxHead + kReadBuf
  reading : s.client.state = .readingHead →
    s.hist.routed = none ∧ s.client.inBuf = fc ∧ s.client.inBuf.length ≤ kMaxHead ∧
    s.client.responded = false ∧ s.client.hasBackend = false ∧ s.client.readPaused = false
  shaking : s.client.handshakeDone = false → s.client.state = .readingHead
  unrouted : s.hist.routed = none → s.backend = none ∧ s.hist.toBackend = [] ∧
    s.hist.forwarded = false
  accepted : ∀ r, s.hist.routed = some r → Accepted cfg s.hist.fromClient r
  sent : ∀ r, s.hist.routed = some r → s.hist.toBackend <+: r.target fc
  queue : ∀ r b, s.hist.routed = some r → s.backend = some b →
    s.client.hasBackend = true ∨ s.hist.backendError = false →
    s.hist.toBackend ++ b.outBuf = r.handed fc s.client.bodyRemaining
  counted : ∀ r, s.hist.routed = some r → s.client.bodyRemaining ≤ r.bodyLen ∧
    r.headLen + (r.bodyLen - s.client.bodyRemaining) ≤ fc.length
  uploading : ∀ r, s.hist.routed = some r → s.client.state = .streamingUp →
    s.client.hasBackend = true →
    0 < s.client.bodyRemaining ∧
      r.headLen + (r.bodyLen - s.client.bodyRemaining) = fc.length
  done : s.client.state = .streaming → s.client.bodyRemaining = 0
  bound : ∀ b, s.backend = some b → b.outBuf.length ≤ kBackpressureHigh + kReadBuf
  room : ∀ b, s.backend = some b → s.client.hasBackend = true →
    s.client.state = .streamingUp → s.client.readPaused = false →
    b.outBuf.length ≤ kBackpressureHigh
  paused : ∀ b, s.backend = some b → s.client.hasBackend = true →
    s.client.readPaused = true → b.highWaterHit = true ∧ kBackpressureLow ≤ b.outBuf.length
  pausedLinked : s.client.closed = false → s.client.state = .streamingUp →
    s.client.readPaused = true → s.client.hasBackend = true

/-- The upload at any moment. -/
structure UpSafe (cfg : Cfg) (s : Pair) : Prop where
  inBound : s.client.inBuf.length ≤ kMaxHead + kReadBuf
  bound : ∀ b, s.backend = some b → b.outBuf.length ≤ kBackpressureHigh + kReadBuf
  unrouted : s.hist.routed = none → s.backend = none ∧ s.hist.toBackend = [] ∧
    s.hist.forwarded = false
  accepted : ∀ r, s.hist.routed = some r → Accepted cfg s.hist.fromClient r
  sent : ∀ r, s.hist.routed = some r → s.hist.toBackend <+: r.target s.hist.fromClient
  whole : s.hist.backendError = false → s.client.state = .streaming →
    ∀ r b, s.hist.routed = some r → s.backend = some b → b.outBuf = [] →
    s.hist.toBackend = r.target s.hist.fromClient ∧
      r.headLen + r.bodyLen ≤ s.hist.fromClient.length

/-! ## Targets and growing client bytes -/

theorem Routed.handed_prefix (r : Routed) (fc : Bytes) (left : Nat) :
    r.handed fc left <+: r.target fc := by
  rw [Routed.handed, Routed.target]
  rw [List.prefix_append_right_inj]
  exact List.take_prefix_take_left (by omega)

theorem Routed.target_mono (r : Routed) (fc d : Bytes) : r.target fc <+: r.target (fc ++ d) := by
  unfold Routed.target
  rw [List.prefix_append_right_inj, List.drop_append, List.take_append]
  exact List.prefix_append _ _

/-- Bytes behind the part handed over do not change it. -/
theorem Routed.handed_append {left : Nat} (h : r.headLen + (r.bodyLen - left) ≤ fc.length) :
    r.handed (fc ++ d) left = r.handed fc left := by
  unfold Routed.handed
  rw [List.drop_append, List.take_append, List.length_drop,
    show r.bodyLen - left - (fc.length - r.headLen) = 0 by omega, List.take_zero,
    List.append_nil]

/-- The next bytes of the client continue the part handed over. -/
theorem Routed.handed_feed {left : Nat} (hleft : left ≤ r.bodyLen)
    (h : r.headLen + (r.bodyLen - left) = fc.length) :
    r.handed (fc ++ d) (left - min d.length left) = r.handed fc left ++ d.take (min d.length left) := by
  unfold Routed.handed
  have hlen : (fc.drop r.headLen).length = r.bodyLen - left := by
    rw [List.length_drop]
    omega
  rw [List.append_assoc, List.drop_append_of_le_length (by omega), List.take_append, hlen]
  congr 2
  · rw [List.take_of_length_le (by omega), List.take_of_length_le (by omega)]
  · congr 1
    omega

theorem Accepted.mono (h : Accepted cfg fc r) : Accepted cfg (fc ++ d) r := by
  obtain ⟨buf, req, rest, target, hpre, hrest⟩ := h
  exact ⟨buf, req, rest, target, hpre.trans (List.prefix_append _ _), hrest⟩

/-- What is safe between two steps is safe while the next client bytes wait. -/
theorem UpAt.safe (h : UpAt cfg s fc) (hfc : s.hist.fromClient = fc ++ d) : UpSafe cfg s := by
  refine ⟨h.inBound, h.bound, h.unrouted, h.accepted, ?_, ?_⟩
  · intro r hr
    rw [hfc]
    exact (h.sent r hr).trans (r.target_mono fc d)
  · intro herr hst r b hr hb hout
    obtain ⟨-, hcount⟩ := h.counted r hr
    have hqueue := h.queue r b hr hb (.inr herr)
    rw [h.done hst, Nat.sub_zero] at hcount
    rw [h.done hst, hout, List.append_nil, ← Routed.handed_append (d := d)
      (by simpa using hcount), ← hfc] at hqueue
    rw [hfc, List.length_append]
    exact ⟨by rw [hqueue, hfc]; simp [Routed.handed, Routed.target], by omega⟩

/-- Client bytes that nobody waits for. -/
theorem UpAt.ignore (h : UpAt cfg s fc) (hst : s.client.state ≠ .readingHead)
    (hup : s.client.state = .streamingUp → s.client.hasBackend = false) :
    UpAt cfg s (fc ++ d) where
  inBound := h.inBound
  reading hr := absurd hr hst
  shaking := h.shaking
  unrouted := h.unrouted
  accepted := h.accepted
  sent r hr := (h.sent r hr).trans (r.target_mono fc d)
  queue r b hr hb hlink := by
    rw [h.queue r b hr hb hlink, Routed.handed_append (h.counted r hr).2]
  counted r hr := by
    obtain ⟨h1, h2⟩ := h.counted r hr
    rw [List.length_append]
    exact ⟨h1, by omega⟩
  uploading r hr hst' hb := absurd hb (by simp [hup hst'])
  done := h.done
  bound := h.bound
  room := h.room
  paused := h.paused
  pausedLinked := h.pausedLinked

/-! ## The response side leaves the upload alone -/

/-- A backend after the response side is the one before, as far as the upload goes. -/
theorem RespFrame.queue_eq (h : RespFrame s s') {b' : BackendConnection}
    (hb : s'.backend = some b') : ∃ b, s.backend = some b ∧ b'.outBuf = b.outBuf ∧
      b'.connected = b.connected ∧ b'.highWaterHit = b.highWaterHit := by
  have hq : s'.backend.map _ = s.backend.map _ := congrArg Upload.queue h.upload
  rw [hb] at hq
  obtain ⟨b, hb', heq⟩ := Option.map_eq_some_iff.mp hq.symm
  simp only [Prod.mk.injEq] at heq
  exact ⟨b, hb', heq.1.symm, heq.2.1.symm, heq.2.2.symm⟩

theorem RespFrame.backend_none (h : RespFrame s s') (hb : s.backend = none) :
    s'.backend = none := by
  cases hb' : s'.backend with
  | none => rfl
  | some b' =>
      obtain ⟨b, hb'', -⟩ := h.queue_eq hb'
      rw [hb] at hb''
      cases hb''

theorem UpAt.of_frame (h : UpAt cfg s fc) (hf : RespFrame s s')
    (hshake : s.client.handshakeDone = true ∨ s'.client.state = s.client.state) :
    UpAt cfg s' fc := by
  have hup := hf.upload
  simp only [upload, Upload.mk.injEq] at hup
  obtain ⟨e1, -, e3, e4, -, e6, e7, e8, e9, e10, -⟩ := hup
  have herr : s'.hist.backendError = false → s.hist.backendError = false := by
    intro h'
    cases herr : s.hist.backendError with
    | false => rfl
    | true => rw [hf.failed herr] at h'; cases h'
  -- the state is the old one unless the response side has begun to close
  have hst : ∀ st, st ≠ .closing → s'.client.state = st → s.client.state = st := by
    intro st hne h'
    rcases hf.state with h'' | h''
    · rw [← h'', h']
    · exact absurd (h'.symm.trans h'') hne
  refine ⟨?_, ?_, ?_, ?_, ?_, ?_, ?_, ?_, ?_, ?_, ?_, ?_, ?_, ?_⟩
  · rw [e1]; exact h.inBound
  · intro hr
    obtain ⟨h1, h2, h3, h4, h5, h6⟩ := h.reading (hst _ (by simp) hr)
    have hb' : s'.client.hasBackend = false := by
      cases hb : s'.client.hasBackend with
      | false => rfl
      | true => rw [hf.unlink hb] at h5; cases h5
    rw [e9, e1, e4, hf.silent h5 (by simp [hr])]
    exact ⟨h1, h2, h3, h4, hb', h6⟩
  · rw [e6]
    intro hnot
    rcases hshake with hshake | hshake
    · rw [hnot] at hshake
      cases hshake
    · rw [hshake]
      exact h.shaking hnot
  · rw [e9, e8, e10]
    intro hr
    exact ⟨hf.backend_none (h.unrouted hr).1, (h.unrouted hr).2⟩
  · rw [e9, e7]; exact h.accepted
  · rw [e9, e8]; exact h.sent
  · rw [e9, e8, e3]
    intro r b' hr hb' hlink
    obtain ⟨b, hb, hout, -, -⟩ := hf.queue_eq hb'
    rw [hout]
    exact h.queue r b hr hb (hlink.imp hf.unlink herr)
  · rw [e9, e3]; exact h.counted
  · rw [e9, e3]
    intro r hr hup hb
    exact h.uploading r hr (hst _ (by simp) hup) (hf.unlink hb)
  · rw [e3]
    intro h'
    exact h.done (hst _ (by simp) h')
  · intro b' hb'
    obtain ⟨b, hb, hout, -, -⟩ := hf.queue_eq hb'
    rw [hout]
    exact h.bound b hb
  · rw [e4]
    intro b' hb' hlink hup hp
    obtain ⟨b, hb, hout, -, -⟩ := hf.queue_eq hb'
    rw [hout]
    exact h.room b hb (hf.unlink hlink) (hst _ (by simp) hup) hp
  · rw [e4]
    intro b' hb' hlink hp
    obtain ⟨b, hb, hout, -, hhigh⟩ := hf.queue_eq hb'
    rw [hout, hhigh]
    exact h.paused b hb (hf.unlink hlink) hp
  · rw [e4]
    intro hopen hup hp
    have hopen' : s.client.closed = false := by
      cases hc : s.client.closed with
      | false => rfl
      | true => rw [hf.stayClosed hc] at hopen; cases hopen
    rw [hf.link hopen (by simp [hup])]
    exact h.pausedLinked hopen' (hst _ (by simp) hup) hp

theorem UpSafe.of_frame (h : UpSafe cfg s) (hf : RespFrame s s') : UpSafe cfg s' := by
  have hup := hf.upload
  simp only [upload, Upload.mk.injEq] at hup
  obtain ⟨e1, -, -, -, -, -, e7, e8, e9, e10, -⟩ := hup
  refine ⟨?_, ?_, ?_, ?_, ?_, ?_⟩
  · rw [e1]; exact h.inBound
  · intro b' hb'
    obtain ⟨b, hb, hout, -, -⟩ := hf.queue_eq hb'
    rw [hout]
    exact h.bound b hb
  · rw [e9, e8, e10]
    intro hr
    exact ⟨hf.backend_none (h.unrouted hr).1, (h.unrouted hr).2⟩
  · rw [e9, e7]; exact h.accepted
  · rw [e9, e8, e7]; exact h.sent
  · rw [e9, e8, e7]
    intro herr hst r b' hr hb' hout'
    obtain ⟨b, hb, hout, -, -⟩ := hf.queue_eq hb'
    have herr' : s.hist.backendError = false := by
      cases herr' : s.hist.backendError with
      | false => rfl
      | true => rw [hf.failed herr'] at herr; cases herr
    have hst' : s.client.state = .streaming := by
      rcases hf.state with h' | h'
      · rw [← h', hst]
      · exact absurd (hst.symm.trans h') (by simp)
    exact h.whole herr' hst' r b hr hb (by rw [← hout, hout'])

/-! ## The response, while the request is on its way

    The request side opens the link and otherwise leaves the response alone, unless the
    backend fails. -/

/-- Nothing is owed before the request is forwarded, nor once the backend has failed. -/
theorem Delivery.of_void (h : s.hist.forwarded = false ∨ s.hist.backendError = true) :
    Delivery s := by
  intro hf hc
  rcases h with h | h
  · rw [hf] at h
    cases h
  · rw [hc.1] at h
    cases h

/-- The fields `Delivery` speaks of, except for `state_`. -/
def deliveryView (s : Pair) :=
  (s.hist.forwarded, s.hist.backendError, s.hist.clientFailed, s.hist.aborted,
    s.hist.responses, s.hist.response, s.hist.delivered, s.client.hasBackend,
    s.client.closed, s.client.outBuf)

theorem Delivery.of_view (h : Delivery s) (hv : deliveryView s' = deliveryView s)
    (hst : s'.client.state = .closing ↔ s.client.state = .closing) : Delivery s' := by
  simp only [deliveryView, Prod.mk.injEq] at hv
  obtain ⟨e1, e2, e3, e4, e5, e6, e7, e8, e9, e10⟩ := hv
  intro hf hc
  rw [Clean] at hc
  rw [e2, e3, e4] at hc
  obtain ⟨h1, h2, h3, h4⟩ := h (e1.symm.trans hf) hc
  exact ⟨e5.trans h1, by rw [e8, e6, ne_eq, hst]; exact h2, by rw [e8, e6, e7, e9, hst]; exact h3,
    by rw [e9, e10]; exact h4⟩

/-- A clean connection with a forwarded request is open. -/
def Unclosed (s : Pair) : Prop :=
  s.hist.forwarded = true → Clean s → s.client.closed = false

theorem Unclosed.of_frame (h : s.hist.forwarded = false ∨ s.hist.backendError = true)
    (hf : RespFrame s s') : Unclosed s' := by
  have hfwd : s'.hist.forwarded = s.hist.forwarded := congrArg Upload.forwarded hf.upload
  intro hf' hc
  rcases h with h | h
  · rw [hfwd, h] at hf'
    cases hf'
  · rw [Clean, hf.failed h] at hc
    cases hc.1

/-- What the request side does to the response: a paused backend was paused before. -/
structure Kept (s s' : Pair) : Prop where
  paused : s'.client.closed = false → s'.client.backendPaused = true →
    s.client.backendPaused = true
  delivery : Delivery s → Delivery s'

/-- Only an attached backend is paused. -/
theorem Steady.unpaused (h : Steady cfg s) (hcut : s.client.hasBackend = false)
    (hopen : s.client.closed = false) : s.client.backendPaused = false := by
  cases hp : s.client.backendPaused with
  | false => rfl
  | true =>
      rw [h.agree.attached hopen hp] at hcut
      cases hcut

/-! ## The rest of the pair between two steps -/

/-- Everything but the upload, between two steps of the code. -/
structure Settled (cfg : Cfg) (s : Pair) : Prop where
  steady : Steady cfg s
  armed : BackendArmed s
  scheduled : Scheduled s
  relayed : Relayed s
  clientIn : s.client.closed = false → s.clientMask.isSome = true
  backendIn : s.backend ≠ none → s.backendMask.isSome = true

/-- The fields `Settled` speaks of. -/
def settledView (s : Pair) :=
  (s.client.hasBackend, s.client.closed, s.client.outBuf, s.client.responded,
    s.client.backendPaused, s.client.interest, s.client.writeBlock, s.backend, s.clientMask,
    s.backendMask, s.clientPending, s.backendPending, s.hist.responses, s.hist.toClient,
    s.hist.delivered, s.hist.overwrote, s.hist.modFailed, s.hist.fromBackend,
    s.hist.forwarded, s.hist.response)

theorem Steady.of_view (h : Steady cfg s) (hv : settledView s' = settledView s) :
    Steady cfg s' := by
  simp only [settledView, Prod.mk.injEq] at hv
  obtain ⟨e1, e2, e3, e4, e5, e6, e7, e8, e9, e10, e11, e12, e13, e14, e15, e16, e17, e18,
    e19, e20⟩ := hv
  obtain ⟨⟨h1, h2, h3, h4, h5, h6, h7, h8, h9, h10, h11, h12, h13, h14, h15, h16, h17⟩,
    ⟨g1, g2⟩, g3, g4, g5⟩ := h
  refine ⟨⟨?_, ?_, ?_, ?_, ?_, ?_, ?_, ?_, ?_, ?_, ?_, ?_, ?_, ?_, ?_, ?_, ?_⟩, ⟨?_, ?_⟩, ?_, ?_,
    ?_⟩ <;>
    simp only [OneOrigin, Slack, PausedFull, ClientArmed, e1, e2, e3, e4, e5, e6, e7, e8, e9,
      e10, e11, e12, e13, e14, e15, e16, e17, e18, e19, e20] <;> assumption

theorem Settled.of_view (h : Settled cfg s) (hv : settledView s' = settledView s) :
    Settled cfg s' := by
  refine ⟨h.steady.of_view hv, ?_, ?_, ?_, ?_, ?_⟩ <;>
    simp only [settledView, Prod.mk.injEq] at hv <;>
    obtain ⟨e1, e2, -, -, -, -, -, e8, e9, e10, -, e12, -, -, e15, -, -, e18, -⟩ := hv
  · unfold BackendArmed; rw [e1, e8]; exact h.armed
  · unfold Scheduled; rw [e8, e12]; exact h.scheduled
  · unfold Relayed; rw [e1, e15, e18]; exact h.relayed
  · rw [e2, e9]; exact h.clientIn
  · rw [e8, e10]; exact h.backendIn

/-- The response side keeps the pair settled. -/
theorem Settled.of_post (h : Settled cfg s) (hp : RespPost cfg s s') : Settled cfg s' := by
  refine ⟨hp.steady, hp.armed h.armed, hp.scheduled h.scheduled, hp.relayed, ?_, ?_⟩
  · intro hopen
    rw [hp.frame.masks.1]
    refine h.clientIn ?_
    cases hc : s.client.closed with
    | false => rfl
    | true => rw [hp.frame.stayClosed hc] at hopen; cases hopen
  · intro hb
    rw [hp.frame.masks.2]
    exact h.backendIn fun hnone => hb (hp.frame.backend_none hnone)

/-- A change of the backend object away from its pointer, its mask and its pause flag, with
    the bytes it took recorded. -/
theorem Steady.replace {b b' : BackendConnection} (h : Steady cfg s) (hb : s.backend = some b)
    (hclient : b'.hasClient = b.hasClient) (hinterest : b'.interest = b.interest)
    (hpaused : b'.readPaused = b.readPaused) : Steady cfg { s with backend := some b' } := by
  obtain ⟨⟨h1, h2, h3, h4, h5, h6, h7, h8, h9, h10, h11, h12, h13, h14, h15, h16, h17⟩,
    ⟨g1, g2⟩, g3, g4, g5⟩ := h
  refine ⟨⟨?_, ?_, h3, h4, h5, h6, h7, h8, h9, ?_, h11, ?_, h13, h14, h15,
    fun _ => h16 (by simp [hb]), h17⟩, ⟨?_, g2⟩, g3, g4, g5⟩
  · intro hlink
    obtain ⟨b₀, hb₀, hcl⟩ := h1 hlink
    rw [hb] at hb₀
    cases hb₀
    exact ⟨b', rfl, by rw [hclient, hcl]⟩
  · rintro _ ⟨⟩ hcl
    exact h2 b hb (by rw [← hclient, hcl])
  · rintro hmod m _ hm ⟨⟩
    rw [hinterest]
    exact h10 hmod m b hm hb
  · intro hn
    cases hn
  · rintro hlink _ ⟨⟩
    rw [hpaused]
    exact g1 hlink b hb

theorem Steady.applyInterest (h : Steady cfg s) : Steady cfg (applyInterest s) := by
  have hcore := h.toCore.applyInterest
  obtain ⟨mask, mods, failed, heq, -, -⟩ := applyInterest_cases s
  rw [heq] at hcore ⊢
  refine ⟨hcore, ⟨?_, h.agree.attached⟩, h.slack, h.pausedFull, h.clientArmed⟩
  intro hlink b hb
  obtain ⟨b₀, hb₀, rfl⟩ := Option.map_eq_some_iff.mp hb
  exact h.agree.flags hlink b₀ hb₀

/-- `apply_interest` settles what a step on the backend object left unarmed. -/
theorem Settled.applyInterest (hs : Steady cfg s) (hsch : Scheduled s) (hrel : Relayed s)
    (hc : s.client.closed = false → s.clientMask.isSome = true)
    (hb : s.backend ≠ none → s.backendMask.isSome = true) : Settled cfg (applyInterest s) := by
  refine ⟨hs.applyInterest, .applyInterest, hsch.applyInterest, hrel.applyInterest, ?_, ?_⟩
  · have hf : RespFrame s (CastlePlus.applyInterest s) := .applyInterest
    obtain ⟨mask, mods, failed, heq, -, -⟩ := applyInterest_cases s
    rw [hf.masks.1, heq]
    exact hc
  · have hf : RespFrame s (CastlePlus.applyInterest s) := .applyInterest
    rw [hf.masks.2]
    exact fun hne => hb fun hnone => hne (hf.backend_none hnone)

end CastlePlus
