import CastlePlus.Callbacks
import CastlePlus.Fuel

/-! # Runs of the proxied pair

    A run starts with a freshly accepted connection and makes callbacks in any order, each
    against any script of system-call answers.

    * **`Reachable`** — the pair between two callbacks.
    * **`Observed`** — the pair at any moment: between two callbacks, or inside the system
      call at which a callback's script ends.

    The theorems below read the safety properties of the pair off the invariant. -/

namespace CastlePlus

open ScriptProg

variable {cfg : Cfg} {s : Pair} {now : Nat} {mods : List Bool}

/-- An accepted connection, registered with `EPOLLIN | EPOLLET`. -/
def newPair (now : Nat) (mods : List Bool) : Pair where
  client := { lastActivity := now }
  now := now
  modResults := mods

/-- The event loop makes no other callbacks. -/
def legal (s : Pair) (cb : Callback) (_ : List Answer) : Bool := enabled s cb

/-- The pair between two callbacks of a run. -/
def Reachable (cfg : Cfg) (s : Pair) : Prop :=
  ∃ now mods, Reaches (dispatch cfg) (fun s cb w => legal s cb w = true) (newPair now mods) s

/-- The pair at any moment of a run. -/
def Observed (cfg : Cfg) (s : Pair) : Prop :=
  Reachable cfg s ∨ ∃ now mods e,
    Stops (dispatch cfg) (fun s cb w => legal s cb w = true) (newPair now mods) e s

/-! ## A new pair -/

theorem newPair_core : Core cfg (newPair now mods) where
  linked h := by cases h
  linkedBack _ h := by cases h
  closedCut h := by cases h
  origin := .inl ⟨rfl, rfl⟩
  quiet _ := ⟨rfl, rfl⟩
  keptOut := rfl
  room _ := Nat.zero_le _
  pausedResponded h := by cases h
  clientMask _ m h := by
    cases h
    rfl
  backendMask _ _ _ h := by cases h
  plainBlock _ h := by cases h
  registered _ := rfl
  clientPending h := by cases h
  backendPending h := by cases h
  relayed := List.prefix_rfl
  opened h := absurd rfl h
  unread _ := ⟨rfl, rfl⟩

theorem newPair_settled : Settled cfg (newPair now mods) where
  steady :=
    { newPair_core with
      agree := ⟨fun h => (by cases h), fun _ h => (by cases h)⟩
      slack := fun h => by cases h
      pausedFull := fun _ h => by cases h
      clientArmed := fun _ h => absurd rfl h }
  armed h := by cases h
  scheduled _ h := by cases h
  relayed h := by cases h
  clientIn _ := rfl
  backendIn h := absurd rfl h

theorem newPair_up : UpAt cfg (newPair now mods) [] where
  inBound := Nat.zero_le _
  reading _ := ⟨rfl, rfl, Nat.zero_le _, rfl, rfl, rfl⟩
  shaking _ := rfl
  unrouted _ := ⟨rfl, rfl, rfl⟩
  accepted _ h := by cases h
  sent _ h := by cases h
  queue _ _ h := by cases h
  counted _ h := by cases h
  uploading _ h := by cases h
  done h := by cases h
  bound _ h := by cases h
  room _ h := by cases h
  paused _ h := by cases h
  pausedLinked _ h := by cases h

theorem newPair_inv : PairInv cfg (newPair now mods) := ⟨newPair_settled, newPair_up⟩

/-! ## Steps -/

/-- A callback of a run returns to the invariant, and stops for want of an answer or through
    a null `backend_`. -/
theorem step_inv (h : PairInv cfg s) {cb : Callback} {w : List Answer}
    (hen : enabled s cb = true) :
    wp (dispatch cfg cb) (fun _ s' _ => PairInv cfg s')
      (fun e s' => AtCall cfg s' ∧ UpSafe cfg s' ∧
        (e = .pending ∨ (e = .nullBackend ∧ CutsBody s w))) s w := by
  refine wp_mono (wp_and (dispatch_spec h hen) (dispatch_fuel cb)) (fun _ _ _ h => h.1) ?_
  rintro e s' ⟨hhalt | hhalt, hfuel⟩
  · exact absurd hhalt hfuel
  · exact hhalt

theorem step_safe (h : PairInv cfg s) {cb : Callback} {w : List Answer}
    (hen : enabled s cb = true) :
    wp (dispatch cfg cb) (fun _ s' _ => PairInv cfg s')
      (fun _ s' => AtCall cfg s' ∧ UpSafe cfg s') s w :=
  wp_mono (step_inv h hen) (fun _ _ _ h => h) fun _ _ hh => ⟨hh.1, hh.2.1⟩

theorem Reachable.inv (h : Reachable cfg s) : PairInv cfg s := by
  obtain ⟨now, mods, h⟩ := h
  exact reaches_inv newPair_inv (fun _ _ _ hi hok => step_safe hi hok) h

theorem Observed.safe (h : Observed cfg s) : AtCall cfg s ∧ UpSafe cfg s := by
  rcases h with h | ⟨now, mods, e, h⟩
  · exact ⟨h.inv.settled.steady.atCall, h.inv.safe⟩
  · exact stops_inv newPair_inv (fun _ _ _ hi hok => step_safe hi hok) h

/-! ## A concrete run

    The runs used to exhibit single states below share this beginning. -/

/-- One plaintext listener, one route. -/
def demoCfg : Cfg where
  transport := .plain
  routes := [{ backend := ⟨ascii "127.0.0.1", 80⟩ }]
  timeout := 0
  maxBody := 0

/-- `recv` hands over `text`. -/
def recvText (text : String) (h : ascii text ≠ [] ∧ (ascii text).length ≤ kReadBuf) : Answer :=
  { res := .recv (.ok ⟨ascii text, h⟩) }

/-- The head of a three-byte upload arrives, the backend connects and takes it. -/
def demoHead : List (Callback × List Answer) :=
  [(.clientReadable,
    [{ res := .handshake (.ok ()) },
     recvText "POST / HTTP/1.1\r\nContent-Length: 3\r\n\r\n" (by decide),
     { res := .socket true }, { res := .connect true }, { res := .epollAdd true },
     { res := .recv .wouldBlockRead }]),
   (.backendWritable, [{ res := .soError true }, { res := .write (.wrote ⟨1000, by decide⟩) }])]

/-- The body follows, and the backend answers a client that takes five bytes. -/
def demoRun : List (Callback × List Answer) :=
  demoHead ++
  [(.clientReadable,
    [recvText "abc" (by decide), { res := .write (.wrote ⟨3, by decide⟩) },
     { res := .recv .wouldBlockRead }]),
   (.backendReadable,
    [{ res := .read (.data ⟨ascii "HTTP/1.1 200 OK\r\n\r\n", by decide⟩) },
     { res := .send (.ok ⟨5, by decide⟩) }, { res := .send .wouldBlockWrite },
     { res := .read .again }])]

/-- The upload of `demoRun`, before the response. -/
def demoSent : List (Callback × List Answer) :=
  demoHead ++
  [(.clientReadable,
    [recvText "abc" (by decide), { res := .write (.wrote ⟨3, by decide⟩) },
     { res := .recv .wouldBlockRead }])]

/-- A reply that the client takes in two parts, the second after the backend's EOF. -/
def demoReply : List (Callback × List Answer) :=
  demoHead ++
  [(.clientReadable,
    [recvText "abc" (by decide), { res := .write (.wrote ⟨3, by decide⟩) },
     { res := .recv .wouldBlockRead }]),
   (.backendReadable,
    [{ res := .read (.data ⟨ascii "HTTP/1.1 200 OK\r\n\r\n", by decide⟩) },
     { res := .send (.ok ⟨5, by decide⟩) }, { res := .send .wouldBlockWrite },
     { res := .read .eof }, { res := .send .wouldBlockWrite }]),
   (.clientWritable, [{ res := .recv .wouldBlockRead }, { res := .send (.ok ⟨14, by decide⟩) }])]

/-- The pair after `demoRun`. -/
def demoPair : Pair :=
  (replay (dispatch demoCfg) legal demoRun (newPair 0 [])).get (by decide +kernel)

theorem demoPair_reachable : Reachable demoCfg demoPair :=
  ⟨0, [], reaches_replay .init (Option.some_get _).symm⟩

/-! ## The call through a null `backend_` -/

instance (s : Pair) (w : List Answer) : Decidable (CutsBody s w) :=
  inferInstanceAs (Decidable (_ ∧ _ ∧ _))

/-- A callback in which no hard write error follows client bytes that leave part of the
    body outstanding. -/
def uncut (s : Pair) (cb : Callback) (w : List Answer) : Bool :=
  enabled s cb && !decide (CutsBody s w)

/-- A run of such callbacks never calls through a null `backend_`. -/
theorem no_null_backend_call {e : Halt}
    (h : Stops (dispatch cfg) (fun s cb w => uncut s cb w = true) (newPair now mods) e s) :
    e ≠ .nullBackend := by
  have hstep : ∀ s cb w, PairInv cfg s → uncut s cb w = true →
      wp (dispatch cfg cb) (fun _ s' _ => PairInv cfg s') (fun e _ => e ≠ .nullBackend) s w := by
    intro s cb w hi hok
    simp only [uncut, Bool.and_eq_true, Bool.not_eq_true', decide_eq_false_iff_not] at hok
    refine wp_mono (step_inv hi hok.1) (fun _ _ _ h => h) ?_
    rintro e s' ⟨-, -, he | ⟨-, hcut⟩⟩
    · rw [he]
      rintro ⟨⟩
    · exact absurd hcut hok.2
  exact stops_inv newPair_inv hstep h

/-- Waiting for the backend to take the second of three body bytes. -/
theorem no_null_backend_call_waiting : ∃ e s,
    Stops (dispatch demoCfg) (fun s cb w => uncut s cb w = true) (newPair 0 []) e s ∧
      e = .pending ∧ e ≠ .nullBackend := by
  have h : (replayHalt (dispatch demoCfg) uncut demoHead .clientReadable
      [recvText "ab" (by decide), { res := .write (.wrote ⟨1, by decide⟩) }]
      (newPair 0 [])).map Prod.fst = some .pending := by decide +kernel
  obtain ⟨⟨e, s⟩, hrun, he⟩ := Option.map_eq_some_iff.mp h
  exact ⟨e, s, stops_replayHalt hrun, he, no_null_backend_call (stops_replayHalt hrun)⟩

/-- Two of three body bytes arrive and the backend's socket is gone: `on_backend_error`
    clears `backend_` under `forward_body`, which goes on to ask it for `pending_bytes`. -/
theorem null_backend_call : ∃ s,
    Stops (dispatch demoCfg) (fun s cb w => legal s cb w = true) (newPair 0 [])
      .nullBackend s := by
  have h : (replayHalt (dispatch demoCfg) legal demoHead .clientReadable
      [recvText "ab" (by decide), { res := .write .error },
       { res := .send (.ok ⟨1000, by decide⟩) }]
      (newPair 0 [])).map Prod.fst = some .nullBackend := by decide +kernel
  obtain ⟨⟨e, s⟩, hrun, rfl⟩ := Option.map_eq_some_iff.mp h
  exact ⟨s, stops_replayHalt hrun⟩

/-! ## The request -/

/-- At every moment the backend's socket has taken a prefix of the rewritten head and the
    body, and all of it once the upload is over and the backend's `out_` is empty. -/
theorem request_framing (h : Observed cfg s) :
    (s.hist.routed = none → s.hist.toBackend = []) ∧
    ∀ r, s.hist.routed = some r →
      Accepted cfg s.hist.fromClient r ∧
      s.hist.toBackend <+: r.head ++ (s.hist.fromClient.drop r.headLen).take r.bodyLen ∧
      (s.hist.backendError = false → s.client.state = .streaming →
        ∀ b, s.backend = some b → b.outBuf = [] →
        s.hist.toBackend = r.head ++ (s.hist.fromClient.drop r.headLen).take r.bodyLen ∧
          r.headLen + r.bodyLen ≤ s.hist.fromClient.length) := by
  have hup := h.safe.2
  refine ⟨fun hr => (hup.unrouted hr).2.1, fun r hr => ⟨hup.accepted r hr, hup.sent r hr, ?_⟩⟩
  exact fun herr hst b hb hout => hup.whole herr hst r b hr hb hout

theorem request_framing_demo :
    demoPair.hist.toBackend
      = ascii "POST / HTTP/1.1\r\nContent-Length: 3\r\nConnection: close\r\n\r\n" ++ ascii "abc" := by
  obtain ⟨r, hr⟩ : ∃ r, demoPair.hist.routed = some r :=
    Option.isSome_iff_exists.mp (by decide +kernel)
  obtain ⟨b, hb⟩ : ∃ b, demoPair.backend = some b :=
    Option.isSome_iff_exists.mp (by decide +kernel)
  have hout : demoPair.backend.map (·.outBuf) = some [] := by decide +kernel
  rw [hb] at hout
  rw [(((request_framing (.inl demoPair_reachable)).2 r hr).2.2 (by decide +kernel)
    (by decide +kernel) b hb (Option.some.inj hout)).1]
  have hr' : (demoPair.hist.routed.map fun r => (r.head, r.headLen, r.bodyLen))
      = some (ascii "POST / HTTP/1.1\r\nContent-Length: 3\r\nConnection: close\r\n\r\n", 38, 3) := by
    decide +kernel
  rw [hr] at hr'
  obtain ⟨h1, h2, h3⟩ : r.head = _ ∧ r.headLen = 38 ∧ r.bodyLen = 3 := by simpa using hr'
  rw [h1, h2, h3]
  decide +kernel

/-! ## Memory -/

/-- At every moment the buffers are bounded and the two pause flags agree. -/
theorem bounded_memory (h : Observed cfg s) :
    s.client.inBuf.length ≤ kMaxHead + kReadBuf ∧
    (∀ b, s.backend = some b → b.outBuf.length ≤ kBackpressureHigh + kReadBuf) ∧
    (s.hist.responses = [] → s.client.outBuf.length ≤ kBackpressureHigh + kReadBuf) ∧
    (s.client.hasBackend = true →
      ∃ b, s.backend = some b ∧ b.readPaused = s.client.backendPaused) := by
  obtain ⟨hcall, hup⟩ := h.safe
  refine ⟨hup.inBound, hup.bound, hcall.room, fun hlink => ?_⟩
  obtain ⟨b, hb, -⟩ := hcall.linked hlink
  exact ⟨b, hb, hcall.flags hlink b hb⟩

theorem bounded_memory_demo :
    demoPair.client.outBuf.length = 14 ∧ ∃ b, demoPair.backend = some b ∧ b.readPaused = false :=
  ⟨by decide +kernel, by
    obtain ⟨b, hb, hflag⟩ :=
      (bounded_memory (.inl demoPair_reachable)).2.2.2 (by decide +kernel)
    exact ⟨b, hb, hflag.trans (by decide +kernel)⟩⟩

/-! ## Stalls -/

/-- After every callback that leaves the client open, whatever is unsent is waited for, and
    whatever is paused has unsent bytes that will wake it.  A backend in `pending_close_` is
    past waiting. -/
theorem no_stalled_transfer (hplain : cfg.transport = .plain) (h : Reachable cfg s)
    (hmod : s.hist.modFailed = false) (hopen : s.client.closed = false) :
    s.clientMask = some s.client.interest ∧
    (∀ b, s.backend = some b → s.backendMask = some b.interest) ∧
    (s.client.outBuf ≠ [] → ∃ m, s.clientMask = some m ∧ m.out = true) ∧
    (∀ b, s.backend = some b → s.backendPending = false →
      b.connected = false ∨ b.outBuf ≠ [] → ∃ m, s.backendMask = some m ∧ m.out = true) ∧
    (s.client.readPaused = true → s.client.state = .streamingUp →
      s.client.hasBackend = true ∧ ∃ b, s.backend = some b ∧ b.highWaterHit = true ∧
        kBackpressureLow ≤ b.outBuf.length) ∧
    (s.client.backendPaused = true → s.client.outBuf ≠ []) := by
  have hi := h.inv
  have hs := hi.settled.steady
  have hclient : s.clientMask = some s.client.interest := by
    obtain ⟨m, hm⟩ := Option.isSome_iff_exists.mp (hi.settled.clientIn hopen)
    rw [hm, hs.clientMask hmod m hm]
  have hbackend : ∀ b, s.backend = some b → s.backendMask = some b.interest := by
    intro b hb
    obtain ⟨m, hm⟩ := Option.isSome_iff_exists.mp (hi.settled.backendIn (by simp [hb]))
    rw [hm, hs.backendMask hmod m b hm hb]
  refine ⟨hclient, hbackend, fun hout => ?_, fun b hb hpend hwait => ?_, fun hp hst => ?_, ?_⟩
  · exact ⟨_, hclient, hs.clientArmed hopen hout (hs.plainBlock hplain)⟩
  · exact ⟨_, hbackend b hb,
      hi.settled.armed (hi.linked_of_unscheduled hb hpend) b hb hwait⟩
  · have hlink := hi.up.pausedLinked hopen hst hp
    obtain ⟨b, hb, -⟩ := hs.linked hlink
    exact ⟨hlink, b, hb, hi.up.paused b hb hlink hp⟩
  · exact hs.pausedFull hopen

theorem no_stalled_transfer_demo :
    demoPair.client.outBuf ≠ [] ∧ ∃ m, demoPair.clientMask = some m ∧ m.out = true :=
  have hout : demoPair.client.outBuf ≠ [] := by decide +kernel
  ⟨hout, (no_stalled_transfer rfl demoPair_reachable (by decide +kernel)
    (by decide +kernel)).2.2.1 hout⟩

/-- The last body bytes meet a hard write error and the client does not take the 502: the
    backend waits for its destruction with bytes in `out_` and no `EPOLLOUT`. -/
theorem scheduled_backend_unarmed : ∃ s b, Reachable demoCfg s ∧ s.hist.modFailed = false ∧
    s.client.closed = false ∧ s.backend = some b ∧ b.outBuf ≠ [] ∧
    s.backendMask = some ⟨true, false⟩ := by
  have hrun : (replay (dispatch demoCfg) legal (demoHead ++
      [(.clientReadable, [recvText "abc" (by decide), { res := .write .error },
        { res := .send .wouldBlockWrite }, { res := .recv .wouldBlockRead },
        { res := .send .wouldBlockWrite }])]) (newPair 0 [])).map (fun s =>
      (s.hist.modFailed, s.client.closed, s.backend.map (·.outBuf), s.backendMask))
      = some (false, false, some (ascii "abc"), some ⟨true, false⟩) := by decide +kernel
  obtain ⟨s, hrun, hs⟩ := Option.map_eq_some_iff.mp hrun
  simp only [Prod.mk.injEq] at hs
  obtain ⟨hmod, hopen, hout, hmask⟩ := hs
  obtain ⟨b, hb, hout⟩ := Option.map_eq_some_iff.mp hout
  exact ⟨s, b, ⟨0, [], reaches_replay .init hrun⟩, hmod, hopen, hb, by rw [hout]; decide, hmask⟩

/-! ## The response -/

/-- At every moment what went to the client and what waits in `out_` is one synthesized
    response, or what the backend delivered. -/
theorem single_origin (h : Observed cfg s) :
    ((∃ R, s.hist.responses = [R] ∧ s.hist.toClient ++ s.client.outBuf = R ∧
        s.hist.delivered = []) ∨
      (s.hist.responses = [] ∧ s.hist.toClient ++ s.client.outBuf = s.hist.delivered ∧
        s.hist.delivered <+: s.hist.fromBackend)) ∧
    s.hist.overwrote = false ∧ s.hist.responses.length ≤ 1 := by
  have hcore := h.safe.1.toCore
  refine ⟨?_, hcore.keptOut, ?_⟩
  · rcases hcore.origin with ⟨hresp, heq⟩ | ⟨hresp, hdel, -⟩
    · exact .inr ⟨hresp, heq, hcore.relayed⟩
    · exact .inl ⟨_, hresp, rfl, hdel⟩
  · rcases hcore.origin with ⟨hresp, -⟩ | ⟨hresp, -⟩ <;> simp [hresp]

theorem single_origin_demo :
    demoPair.hist.responses = [] ∧
      demoPair.hist.toClient ++ demoPair.client.outBuf = demoPair.hist.delivered := by
  have hnone : demoPair.hist.responses = [] := by decide +kernel
  rcases (single_origin (.inl demoPair_reachable)).1 with ⟨R, hR, -⟩ | ⟨-, heq, -⟩
  · rw [hnone] at hR
    cases hR
  · exact ⟨hnone, heq⟩

end CastlePlus
