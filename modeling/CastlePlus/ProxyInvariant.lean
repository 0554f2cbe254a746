import CastlePlus.ProxyPair

/-! # The invariant of the proxied pair

    Three layers of facts, by how long they hold.

    * **`Core`** holds at every system call: the two pointers mirror each other, every
      byte of the client's `out_` has one origin, `out_` stays within one read of the
      high-water mark, and the registered masks are the ones the objects remember.
      **`AtCall`** adds that the pause flags of the two objects agree.
    * **`Steady`** adds what holds whenever no response-side function is half-way: an
      unpaused backend has room in `out_`, a paused one has something in `out_` to wait
      for, and unsent bytes are waited for.
    * **`BackendArmed`**, the same for bytes on their way to the backend, is broken
      between the append of `send` and the end of `flush`; **`Scheduled`** is broken
      while `on_readable` or `fail` tells the client.

    `RespFrame` is what the response side leaves alone: everything about the upload. -/

namespace CastlePlus

open ScriptProg

variable {cfg : Cfg} {s s' s'' : Pair}

/-- The bytes towards the client have one origin: all from the backend, in order, or one
    synthesized response with the backend cut off. -/
def OneOrigin (s : Pair) : Prop :=
  (s.hist.responses = [] ∧ s.hist.toClient ++ s.client.outBuf = s.hist.delivered) ∨
  (s.hist.responses = [s.hist.toClient ++ s.client.outBuf] ∧ s.hist.delivered = [] ∧
    s.client.hasBackend = false ∧ s.client.responded = true)

/-- What holds at every system call. -/
structure Core (cfg : Cfg) (s : Pair) : Prop where
  linked : s.client.hasBackend = true → ∃ b, s.backend = some b ∧ b.hasClient = true
  linkedBack : ∀ b, s.backend = some b → b.hasClient = true → s.client.hasBackend = true
  closedCut : s.client.closed = true → s.client.hasBackend = false
  origin : OneOrigin s
  quiet : s.client.responded = false → s.hist.responses = [] ∧ s.hist.delivered = []
  keptOut : s.hist.overwrote = false
  room : s.hist.responses = [] → s.client.outBuf.length ≤ kBackpressureHigh + kReadBuf
  pausedResponded : s.client.backendPaused = true → s.client.responded = true
  clientMask : s.hist.modFailed = false → ∀ m, s.clientMask = some m → m = s.client.interest
  backendMask : s.hist.modFailed = false →
    ∀ m b, s.backendMask = some m → s.backend = some b → m = b.interest
  plainBlock : cfg.transport = .plain → s.client.writeBlock ≠ .wouldBlockRead
  registered : s.backend = none → s.backendMask = none
  clientPending : s.clientPending = true → s.client.closed = true
  backendPending : s.backendPending = true → s.client.hasBackend = false
  relayed : s.hist.delivered <+: s.hist.fromBackend
  opened : s.backend ≠ none → s.hist.forwarded = true
  unread : s.hist.forwarded = false → s.hist.fromBackend = [] ∧ s.hist.response = none

/-- `backend_paused_` and the backend's `read_paused_` say the same, and only an attached
    backend is paused. -/
structure Agree (s : Pair) : Prop where
  flags : s.client.hasBackend = true →
    ∀ b, s.backend = some b → b.readPaused = s.client.backendPaused
  attached : s.client.closed = false → s.client.backendPaused = true →
    s.client.hasBackend = true

/-- The pair inside a system call. -/
structure AtCall (cfg : Cfg) (s : Pair) : Prop extends Core cfg s where
  flags : s.client.hasBackend = true →
    ∀ b, s.backend = some b → b.readPaused = s.client.backendPaused

/-- A backend that may read finds `out_` at most at the high-water mark. -/
def Slack (s : Pair) : Prop :=
  s.client.hasBackend = true → s.client.backendPaused = false →
    s.client.outBuf.length ≤ kBackpressureHigh

/-- A paused backend has bytes in front of it. -/
def PausedFull (s : Pair) : Prop :=
  s.client.closed = false → s.client.backendPaused = true → s.client.outBuf ≠ []

/-- Unsent response bytes are waited for with `EPOLLOUT`, unless the last send asked to
    read first. -/
def ClientArmed (s : Pair) : Prop :=
  s.client.closed = false → s.client.outBuf ≠ [] →
    s.client.writeBlock ≠ .wouldBlockRead → s.client.interest.out = true

/-- A pending connect and unsent request bytes are waited for with `EPOLLOUT`. -/
def BackendArmed (s : Pair) : Prop :=
  s.client.hasBackend = true → ∀ b, s.backend = some b →
    b.connected = false ∨ b.outBuf ≠ [] → b.interest.out = true

/-- A backend without a client is in `pending_close_`. -/
def Scheduled (s : Pair) : Prop :=
  ∀ b, s.backend = some b → b.hasClient = false → s.backendPending = true

/-- Everything read from an attached backend has been delivered. -/
def Relayed (s : Pair) : Prop :=
  s.client.hasBackend = true → s.hist.delivered = s.hist.fromBackend

/-- What holds between the calls of response-side functions. -/
structure Steady (cfg : Cfg) (s : Pair) : Prop extends Core cfg s where
  agree : Agree s
  slack : Slack s
  pausedFull : PausedFull s
  clientArmed : ClientArmed s

theorem Steady.atCall (h : Steady cfg s) : AtCall cfg s := ⟨h.toCore, h.agree.flags⟩

/-- No socket has failed and the client has not given up. -/
def Clean (s : Pair) : Prop :=
  s.hist.backendError = false ∧ s.hist.clientFailed = false ∧ s.hist.aborted = false

/-- A forwarded request in a clean run: the link stands until the backend's EOF, and a
    closed connection has nothing left to send. -/
structure Relay (s : Pair) : Prop where
  single : s.hist.responses = []
  linked : s.client.hasBackend = true → s.hist.response = none ∧ s.client.state ≠ .closing
  cut : s.client.hasBackend = false → s.hist.response = some s.hist.delivered ∧
    (s.client.closed = false → s.client.state = .closing)
  sent : s.client.closed = true → s.client.outBuf = []

/-- What holds of the response between two steps of the code. -/
def Delivery (s : Pair) : Prop := s.hist.forwarded = true → Clean s → Relay s

/-- The part of the pair that belongs to the upload. -/
structure Upload where
  inBuf : Bytes
  headLen : Nat
  bodyRemaining : Nat
  readPaused : Bool
  clientEof : Bool
  handshakeDone : Bool
  fromClient : Bytes
  toBackend : Bytes
  routed : Option Routed
  forwarded : Bool
  queue : Option (Bytes × Bool × Bool)

/-- The upload of a pair; `queue` is the backend's `out_`, `connected_` and
    `high_water_hit_`. -/
def upload (s : Pair) : Upload where
  inBuf := s.client.inBuf
  headLen := s.client.headLen
  bodyRemaining := s.client.bodyRemaining
  readPaused := s.client.readPaused
  clientEof := s.client.clientEof
  handshakeDone := s.client.handshakeDone
  fromClient := s.hist.fromClient
  toBackend := s.hist.toBackend
  routed := s.hist.routed
  forwarded := s.hist.forwarded
  queue := s.backend.map fun b => (b.outBuf, b.connected, b.highWaterHit)

/-- What a response-side function may change between `s` and `s'`. -/
structure RespFrame (s s' : Pair) : Prop where
  upload : upload s' = upload s
  state : s'.client.state = s.client.state ∨ s'.client.state = .closing
  stayClosed : s.client.closed = true → s'.client.closed = true
  link : s'.client.closed = false → s'.client.state ≠ .closing →
    s'.client.hasBackend = s.client.hasBackend
  unlink : s'.client.hasBackend = true → s.client.hasBackend = true
  failed : s.hist.backendError = true → s'.hist.backendError = true
  clean : Clean s' → Clean s
  modFailed : s.hist.modFailed = true → s'.hist.modFailed = true
  silent : s.client.hasBackend = false → s'.client.state ≠ .closing →
    s'.client.responded = s.client.responded
  masks : s'.clientMask.isSome = s.clientMask.isSome ∧
    s'.backendMask.isSome = s.backendMask.isSome

/-- The fields the frame speaks of. -/
def frameView (s : Pair) :=
  (upload s, s.client.state, s.client.closed, s.client.hasBackend, s.client.responded,
    s.hist.backendError, s.hist.clientFailed, s.hist.aborted, s.hist.modFailed,
    s.clientMask.isSome, s.backendMask.isSome)

theorem RespFrame.of_view (h : frameView s' = frameView s) : RespFrame s s' := by
  simp only [frameView, Prod.mk.injEq] at h
  obtain ⟨h1, h2, h3, h4, h5, h6, h7, h8, h9, h10, h11⟩ := h
  constructor <;> simp_all [Clean]

theorem RespFrame.refl (s : Pair) : RespFrame s s := .of_view rfl

theorem RespFrame.trans (h : RespFrame s s') (h' : RespFrame s' s'') : RespFrame s s'' := by
  obtain ⟨h1, h2, h3, h4, h5, h6, h7, h8, h9, h10⟩ := h
  obtain ⟨g1, g2, g3, g4, g5, g6, g7, g8, g9, g10⟩ := h'
  constructor <;> grind

/-! ## What the interest functions change

    Both write the mask into the object, and into epoll unless the call fails. -/

theorem setInterest_cases (ev : Mask) (s : Pair) : ∃ mask mods failed,
    setInterest ev s = { s with
      client.interest := ev
      clientMask := mask
      modResults := mods
      hist.modFailed := failed } ∧
    mask.isSome = s.clientMask.isSome ∧
    (failed = false → s.hist.modFailed = false ∧
      ((∀ m, s.clientMask = some m → m = s.client.interest) →
        ∀ m, mask = some m → m = ev)) := by
  rw [setInterest]
  by_cases hev : ev = s.client.interest
  · exact ⟨s.clientMask, s.modResults, s.hist.modFailed, by simp [hev], rfl, by grind⟩
  · rw [if_neg hev]
    rw [updateClient, epollMod]
    cases hm : s.clientMask with
    | none => exact ⟨none, s.modResults, s.hist.modFailed, rfl, rfl, by simp⟩
    | some m =>
        rcases hr : s.modResults with - | ⟨_ | _, rest⟩
        · exact ⟨some ev, [], s.hist.modFailed, by simp, rfl, by simp⟩
        · exact ⟨some m, rest, true, by simp, rfl, by simp⟩
        · exact ⟨some ev, rest, s.hist.modFailed, by simp, rfl, by simp⟩

theorem recomputeInterest_cases (s : Pair) : ∃ mask mods failed,
    recomputeInterest s = { s with
      client.interest := wantedInterest s.client
      clientMask := mask
      modResults := mods
      hist.modFailed := failed } ∧
    mask.isSome = s.clientMask.isSome ∧
    (failed = false → s.hist.modFailed = false ∧
      ((∀ m, s.clientMask = some m → m = s.client.interest) →
        ∀ m, mask = some m → m = wantedInterest s.client)) :=
  setInterest_cases _ s

theorem applyInterest_cases (s : Pair) : ∃ mask mods failed,
    applyInterest s = { s with
      backend := s.backend.map fun b => { b with interest := backendInterest b }
      backendMask := mask
      modResults := mods
      hist.modFailed := failed } ∧
    mask.isSome = s.backendMask.isSome ∧
    (failed = false → s.hist.modFailed = false ∧ ∀ b, s.backend = some b →
      (∀ m, s.backendMask = some m → m = b.interest) →
        ∀ m, mask = some m → m = backendInterest b) := by
  rw [applyInterest]
  cases hb : s.backend with
  | none =>
      exact ⟨s.backendMask, s.modResults, s.hist.modFailed, by cases s; simp_all, rfl, by simp⟩
  | some b =>
      by_cases hev : backendInterest b = b.interest
      · exact ⟨s.backendMask, s.modResults, s.hist.modFailed, by cases s; simp_all, rfl, by grind⟩
      · simp only [if_neg hev]
        rw [updateBackend, epollMod, onBackend]
        cases hm : s.backendMask with
        | none => exact ⟨none, s.modResults, s.hist.modFailed, by simp [hb], rfl, by simp⟩
        | some m =>
            rcases hr : s.modResults with - | ⟨_ | _, rest⟩
            · exact ⟨some (backendInterest b), [], s.hist.modFailed, by simp [hb], rfl, by grind⟩
            · exact ⟨some m, rest, true, by simp [hb], rfl, by simp⟩
            · exact ⟨some (backendInterest b), rest, s.hist.modFailed, by simp [hb], rfl, by grind⟩

/-! ## Straight-line code preserves `Core` -/

theorem Core.acceptSent (h : Core cfg s) (k : Count) : Core cfg (acceptSent k s) := by
  obtain ⟨h1, h2, h3, h4, h5, h6, h7, h8, h9, h10, h11, h12, h13, h14, h15, h16, h17⟩ := h
  have hsplit : ∀ i, s.hist.toClient ++ s.client.outBuf.take i ++ s.client.outBuf.drop i
      = s.hist.toClient ++ s.client.outBuf := by
    intro i
    rw [List.append_assoc, List.take_append_drop]
  constructor <;> grind [CastlePlus.acceptSent, touchClient, OneOrigin]

theorem Core.closeBoth (h : Core cfg s) : Core cfg (closeBoth s) := by
  cases hc : s.client.closed with
  | true => rw [closeBoth_of_closed hc]; exact h
  | false =>
      rw [closeBoth_of_open hc]
      obtain ⟨h1, h2, h3, h4, h5, h6, h7, h8, h9, h10, h11, h12, h13, h14, h15, h16, h17⟩ := h
      cases hb : s.backend <;> constructor <;> grind [OneOrigin]

theorem Core.setInterest (h : Core cfg s) (ev : Mask) : Core cfg (setInterest ev s) := by
  obtain ⟨h1, h2, h3, h4, h5, h6, h7, h8, h9, h10, h11, h12, h13, h14, h15, h16, h17⟩ := h
  obtain ⟨mask, mods, failed, heq, hsome, hmask⟩ := setInterest_cases ev s
  rw [heq]
  constructor <;> grind [OneOrigin]

theorem Core.recomputeInterest (h : Core cfg s) : Core cfg (recomputeInterest s) :=
  h.setInterest _

theorem Core.applyInterest (h : Core cfg s) : Core cfg (applyInterest s) := by
  obtain ⟨h1, h2, h3, h4, h5, h6, h7, h8, h9, h10, h11, h12, h13, h14, h15, h16, h17⟩ := h
  obtain ⟨mask, mods, failed, heq, hsome, hmask⟩ := applyInterest_cases s
  have hnone : s.backendMask = none → mask = none := by
    intro hm
    rw [hm] at hsome
    simpa using hsome
  rw [heq]
  cases hb : s.backend <;> constructor <;> grind [OneOrigin]

/-- A change of the backend object that touches neither its pointer nor its mask. -/
theorem Core.onBackend (h : Core cfg s) (f : BackendConnection → BackendConnection)
    (hclient : ∀ b, (f b).hasClient = b.hasClient)
    (hinterest : ∀ b, (f b).interest = b.interest) : Core cfg (onBackend f s) := by
  obtain ⟨h1, h2, h3, h4, h5, h6, h7, h8, h9, h10, h11, h12, h13, h14, h15, h16, h17⟩ := h
  rw [CastlePlus.onBackend]
  cases hb : s.backend <;> constructor <;> grind [OneOrigin]

theorem Core.setReads (h : Core cfg s) (p : Bool) : Core cfg (setReads p s) :=
  h.onBackend _ (fun _ => rfl) (fun _ => rfl)

theorem Core.touchBackend (h : Core cfg s) : Core cfg (touchBackend s) :=
  h.onBackend _ (fun _ => rfl) (fun _ => rfl)

theorem Core.queueClient (h : Core cfg s) (hb : s.client.hasBackend = true) {d : Bytes}
    (hd : d.length ≤ kReadBuf) (hread : s.hist.fromBackend = s.hist.delivered ++ d)
    (hout : s.client.outBuf.length ≤ kBackpressureHigh) : Core cfg (queueClient d s) := by
  obtain ⟨h1, h2, h3, h4, h5, h6, h7, h8, h9, h10, h11, h12, h13, h14, h15, h16, h17⟩ := h
  constructor <;> grind [CastlePlus.queueClient, OneOrigin]

/-- Before the first response byte nothing is on its way to the client. -/
theorem Core.nothing_sent (h : Core cfg s) (hr : s.client.responded = false) :
    s.hist.toClient = [] ∧ s.client.outBuf = [] := by
  obtain ⟨hresp, hdel⟩ := h.quiet hr
  rcases h.origin with ⟨-, heq⟩ | ⟨-, -, -, hr'⟩
  · rw [hdel] at heq
    exact List.append_eq_nil_iff.mp heq
  · rw [hr] at hr'
    cases hr'

theorem Core.beginResponse (h : Core cfg s) (hb : s.client.hasBackend = false)
    (hr : s.client.responded = false) (text : Bytes) : Core cfg (beginResponse text s) := by
  obtain ⟨hsent, hout⟩ := h.nothing_sent hr
  obtain ⟨hresp, hdel⟩ := h.quiet hr
  obtain ⟨h1, h2, h3, h4, h5, h6, h7, h8, h9, h10, h11, h12, h13, h14, h15, h16, h17⟩ := h
  constructor <;> simp_all [CastlePlus.beginResponse, OneOrigin]

/-- Both ends of the link cut, as `fail` and the EOF branch do. -/
theorem Core.unlink (h : Core cfg s) : Core cfg (detachBackend (detachClient s)) := by
  obtain ⟨h1, h2, h3, h4, h5, h6, h7, h8, h9, h10, h11, h12, h13, h14, h15, h16, h17⟩ := h
  rw [detachBackend, detachClient, CastlePlus.onBackend]
  cases hb : s.backend <;> constructor <;> grind [OneOrigin]

theorem Core.setState (h : Core cfg s) (st : State) : Core cfg (setState st s) :=
  ⟨h.1, h.2, h.3, h.4, h.5, h.6, h.7, h.8, h.9, h.10, h.11, h.12, h.13, h.14, h.15, h.16, h.17⟩

theorem Core.requestCloseBackend (h : Core cfg s) (hcut : s.client.hasBackend = false) :
    Core cfg (requestCloseBackend s) :=
  ⟨h.1, h.2, h.3, h.4, h.5, h.6, h.7, h.8, h.9, h.10, h.11, h.12, h.13, fun _ => hcut, h.15, h.16, h.17⟩

theorem Core.tick (h : Core cfg s) (dt : Nat) : Core cfg (tick dt s) :=
  ⟨h.1, h.2, h.3, h.4, h.5, h.6, h.7, h.8, h.9, h.10, h.11, h.12, h.13, h.14, h.15, h.16, h.17⟩

theorem Core.noteSend (h : Core cfg s) (r : Io Count) : Core cfg (noteSend r s) := by
  cases r <;> exact ⟨h.1, h.2, h.3, h.4, h.5, h.6, h.7, h.8, h.9, h.10, h.11, h.12, h.13, h.14,
    h.15, h.16, h.17⟩

/-- Only an opened backend is read from. -/
theorem Core.noteRead (h : Core cfg s) (hb : s.backend ≠ none) (r : ReadResult) :
    Core cfg (noteRead r s) := by
  have hf := h.opened hb
  cases r with
  | data c =>
      exact ⟨h.1, h.2, h.3, h.4, h.5, h.6, h.7, h.8, h.9, h.10, h.11, h.12, h.13, h.14,
        h.15.trans (List.prefix_append _ _), h.16, by simp [CastlePlus.noteRead, hf]⟩
  | eof =>
      exact ⟨h.1, h.2, h.3, h.4, h.5, h.6, h.7, h.8, h.9, h.10, h.11, h.12, h.13, h.14, h.15,
        h.16, by simp [CastlePlus.noteRead, hf]⟩
  | again =>
      exact ⟨h.1, h.2, h.3, h.4, h.5, h.6, h.7, h.8, h.9, h.10, h.11, h.12, h.13, h.14, h.15,
        h.16, h.17⟩
  | intr =>
      exact ⟨h.1, h.2, h.3, h.4, h.5, h.6, h.7, h.8, h.9, h.10, h.11, h.12, h.13, h.14, h.15,
        h.16, h.17⟩
  | error =>
      exact ⟨h.1, h.2, h.3, h.4, h.5, h.6, h.7, h.8, h.9, h.10, h.11, h.12, h.13, h.14, h.15,
        h.16, h.17⟩

theorem Core.releaseBackend (h : Core cfg s) : Core cfg (releaseBackend s) :=
  ⟨h.1, h.2, h.3, h.4, h.5, h.6, h.7, by simp [CastlePlus.releaseBackend], h.9, h.10, h.11, h.12, h.13, h.14, h.15, h.16, h.17⟩

theorem Core.finishPump (h : Core cfg s) {st : IoStatus}
    (hst : cfg.transport = .plain → st ≠ .wouldBlockRead) : Core cfg (finishPump st s) := by
  have hset : Core cfg (setWriteBlock st s) :=
    ⟨h.1, h.2, h.3, h.4, h.5, h.6, h.7, h.8, h.9, h.10, hst, h.12, h.13, h.14, h.15, h.16, h.17⟩
  rw [CastlePlus.finishPump]
  split
  · exact hset
  · exact hset.recomputeInterest

theorem Core.pauseReads (h : Core cfg s) : Core cfg (pauseReads s) := by
  rw [CastlePlus.pauseReads]
  split
  · exact h
  · split
    · exact h
    · exact (h.setReads true).applyInterest

/-! ## Straight-line code of the response side keeps to its frame -/

/-- A change of the backend object that leaves its queue alone. -/
theorem upload_onBackend (f : BackendConnection → BackendConnection)
    (hf : ∀ b, ((f b).outBuf, (f b).connected, (f b).highWaterHit)
      = (b.outBuf, b.connected, b.highWaterHit)) : upload (onBackend f s) = upload s := by
  unfold upload onBackend
  cases s.backend with
  | none => rfl
  | some b => simp [hf b]

theorem RespFrame.onBackend (f : BackendConnection → BackendConnection)
    (hf : ∀ b, ((f b).outBuf, (f b).connected, (f b).highWaterHit)
      = (b.outBuf, b.connected, b.highWaterHit)) : RespFrame s (onBackend f s) :=
  .of_view (by unfold frameView; rw [upload_onBackend f hf]; rfl)

theorem RespFrame.setReads (p : Bool) : RespFrame s (setReads p s) :=
  .onBackend _ fun _ => rfl

theorem RespFrame.touchBackend : RespFrame s (touchBackend s) :=
  .onBackend _ fun _ => rfl

theorem RespFrame.detachClient : RespFrame s (detachClient s) :=
  .onBackend _ fun _ => rfl

theorem RespFrame.setInterest (ev : Mask) : RespFrame s (setInterest ev s) := by
  obtain ⟨mask, mods, failed, heq, hsome, hmask⟩ := setInterest_cases ev s
  rw [heq]
  exact ⟨rfl, .inl rfl, id, fun _ _ => rfl, id, id, id, by grind, fun _ _ => rfl, hsome, rfl⟩

theorem RespFrame.recomputeInterest : RespFrame s (recomputeInterest s) := .setInterest _

theorem RespFrame.applyInterest : RespFrame s (applyInterest s) := by
  obtain ⟨mask, mods, failed, heq, hsome, hmask⟩ := applyInterest_cases s
  rw [heq]
  refine ⟨?_, .inl rfl, id, fun _ _ => rfl, id, id, id, by grind, fun _ _ => rfl, rfl, hsome⟩
  unfold CastlePlus.upload
  cases s.backend <;> rfl

theorem RespFrame.closeBoth : RespFrame s (closeBoth s) := by
  cases hc : s.client.closed with
  | true => rw [closeBoth_of_closed hc]; exact RespFrame.refl s
  | false =>
      rw [closeBoth_of_open hc]
      refine ⟨?_, .inl rfl, by simp, by simp, by simp, id, id, id, fun _ _ => rfl, rfl, rfl⟩
      unfold CastlePlus.upload
      cases s.backend <;> simp
      split <;> simp

theorem RespFrame.finishPump (st : IoStatus) : RespFrame s (finishPump st s) := by
  have hset : RespFrame s (setWriteBlock st s) := .of_view rfl
  rw [CastlePlus.finishPump]
  split
  · exact hset
  · exact hset.trans .recomputeInterest

theorem RespFrame.pauseReads : RespFrame s (pauseReads s) := by
  rw [CastlePlus.pauseReads]
  split
  · exact RespFrame.refl s
  · split
    · exact RespFrame.refl s
    · exact (RespFrame.setReads true).trans .applyInterest

theorem RespFrame.pauseIfFull : RespFrame s (pauseIfFull s) := by
  rw [CastlePlus.pauseIfFull]
  split
  · exact RespFrame.pauseReads.trans (.of_view rfl)
  · exact RespFrame.refl s

theorem RespFrame.noteRead (r : ReadResult) : RespFrame s (noteRead r s) := by
  cases r <;> exact ⟨rfl, .inl rfl, id, fun _ _ => rfl, id, by simp [CastlePlus.noteRead],
    by simp [Clean, CastlePlus.noteRead], id, fun _ _ => rfl, rfl, rfl⟩

theorem RespFrame.noteSend (r : Io Count) : RespFrame s (noteSend r s) := by
  cases r <;> exact ⟨rfl, .inl rfl, id, fun _ _ => rfl, id, id,
    by simp [Clean, CastlePlus.noteSend], id, fun _ _ => rfl, rfl, rfl⟩

theorem RespFrame.beginResponse (text : Bytes) : RespFrame s (beginResponse text s) :=
  ⟨rfl, .inr rfl, id, fun _ _ => rfl, id, id, id, id, fun _ h => absurd rfl h, rfl, rfl⟩

/-- Cutting the link is within the frame once the connection is closing or closed. -/
theorem RespFrame.of_detach (h : RespFrame (detachBackend s) s')
    (hend : s'.client.state = .closing ∨ s'.client.closed = true) : RespFrame s s' :=
  ⟨h.upload, h.state, h.stayClosed, by grind,
    fun hb => absurd (h.unlink hb) (by simp [detachBackend]), h.failed, h.clean, h.modFailed,
    fun _ => h.silent rfl, h.masks⟩

end CastlePlus
