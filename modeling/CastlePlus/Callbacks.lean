import CastlePlus.ReadPump

/-! # Every callback keeps the invariant

    `drive`, the full `flush` with its drain, `on_writable`, the deferred destruction, and
    **`dispatch_spec`**: whatever the event loop calls on a pair in `PairInv` returns in
    `PairInv`, and wherever it stops the pair is safe. -/

namespace CastlePlus

open ScriptProg

variable {cfg : Cfg} {s s' : Pair} {w w' : List Answer} {n : Nat} {b : BackendConnection}

/-! ## `drive` -/

theorem drivePumps_spec (h : Pumped cfg s) (hopen : s.client.closed = false) :
    wp (drivePumps cfg n) (fun _ s' _ => PairInv cfg s') (CallHalt cfg (CutsUpload s w)) s w := by
  cases n with
  | zero => exact .inl rfl
  | succ n =>
      simp only [drivePumps, wp_bind, wp_modify, wp_get, wp_ite, wp_pure]
      refine wp_mono (pumpRead_spec h hopen) ?_ fun _ _ h => h.toCall
      rintro st s₁ w₁ ⟨h₁, -⟩
      have h₁' : Pumped cfg (setReadBlock st s₁) :=
        ⟨⟨h₁.settled.of_view rfl, h₁.up.of_frame (.of_view rfl) (.inr rfl)⟩, h₁.shaken⟩
      refine ⟨fun _ => h₁'.toPairInv, fun _ => ?_⟩
      have hs := h₁'.settled.steady
      refine wp_mono ((resp_specs cfg n).pumpWrite _ w₁ hs.toCore hs.agree h₁'.settled.relayed) ?_
        fun e s' hh => hh.toCall h₁'.safe
      intro st₂ s₂ w₂ hpost
      exact h₁'.of_post (.finishPump hpost.core hpost.frame hpost.agree hpost.armed
        hpost.scheduled hpost.relayed (hpost.slack hs.slack) hpost.pausedFull hpost.plain) (.inl h₁'.shaken)

/-- A client that is still shaking hands has nothing to send, so any mask will do. -/
theorem PairInv.setInterest (h : PairInv cfg s) (hshake : s.client.handshakeDone = false)
    (ev : Mask) : PairInv cfg (setInterest ev s) := by
  have hr := h.up.reading (h.up.shaking hshake)
  have hout := (h.settled.steady.nothing_sent hr.2.2.2.1).2
  have hcore := h.settled.steady.toCore.setInterest ev
  have hf : RespFrame s (CastlePlus.setInterest ev s) := .setInterest ev
  obtain ⟨mask, mods, failed, heq, -, -⟩ := setInterest_cases ev s
  rw [heq] at hcore hf ⊢
  have hs := h.settled.steady
  refine h.of_post ⟨⟨hcore, ⟨hs.agree.flags, hs.agree.attached⟩, hs.slack, hs.pausedFull, ?_⟩, hf,
    fun ha => ha, fun hsch => hsch, h.settled.relayed⟩ (.inr rfl)
  intro _ hne
  exact absurd hout hne

theorem PairInv.noteHandshake (h : PairInv cfg s) (res : Io Unit) (dt : Nat) :
    PairInv cfg (noteHandshake res (tick dt s)) := by
  have h' : PairInv cfg (tick dt s) := h.at_time _
  have hfail : PairInv cfg { tick dt s with hist.clientFailed := true, hist.clientDry := false } :=
    ⟨h'.settled.of_view rfl, h'.up.of_frame
      ⟨rfl, .inl rfl, id, fun _ _ => rfl, id, id, by simp [Clean], id, fun _ _ => rfl, rfl, rfl⟩
      (.inr rfl)⟩
  cases res with
  | ok u => exact h'.noteDry _
  | wouldBlockRead => exact h'.noteDry _
  | wouldBlockWrite => exact h'.noteDry _
  | closed => exact hfail
  | error => exact hfail

theorem client_noteHandshake (res : Io Unit) : (noteHandshake res s).client = s.client := by
  cases res <;> rfl

/-- The handshake is over and no byte has been read. -/
theorem PairInv.finishHandshake (h : PairInv cfg s) : Pumped cfg (finishHandshake s) := by
  have hu := h.up
  exact ⟨⟨h.settled.of_view rfl, hu.1, hu.2, (by rintro ⟨⟩), hu.4, hu.5, hu.6, hu.7, hu.8, hu.9, hu.10,
    hu.11, hu.12, hu.13, hu.14⟩, rfl⟩

theorem drive_spec (h : PairInv cfg s) :
    wp (drive cfg n) (fun _ s' _ => PairInv cfg s') (CallHalt cfg (CutsUpload s w)) s w := by
  cases n with
  | zero => exact .inl rfl
  | succ n =>
      simp only [drive, wp_bind, wp_get, wp_ite, wp_pure]
      refine ⟨fun _ => h, fun hopen => ?_⟩
      have hopen' : s.client.closed = false := by simpa using hopen
      refine ⟨fun hshake => drivePumps_spec ⟨h, hshake⟩ hopen', fun hshake => ?_⟩
      · have hshake' : s.client.handshakeDone = false := by simpa using hshake
        refine wp_transportHandshake h.pending ?_
        intro a w₁ res hw hres _
        have h₁ := h.noteHandshake res a.dt
        have hclient : (noteHandshake res (tick a.dt s)).client = s.client :=
          client_noteHandshake res
        cases res with
        | ok u =>
            simp only [wp_bind, wp_modify]
            -- the handshake reads no byte, so a cut of the upload is still ahead
            have hskip : Skips w w₁ := by
              refine ⟨hw ▸ List.suffix_cons _ _, fun left fed hc => ?_⟩
              rw [hw]
              rw [cutsUpload]
              rw [hres]
              exact hc
            refine wp_mono (drivePumps_spec h₁.finishHandshake hopen') (fun _ _ _ h => h) ?_
            exact fun e s' hh => hh.mono fun hcut => ⟨hcut.1, hskip.hides _ _ hcut.2⟩
        | wouldBlockRead => exact h₁.setInterest (by rw [hclient, hshake']) _
        | wouldBlockWrite => exact h₁.setInterest (by rw [hclient, hshake']) _
        | closed => exact h₁.closeBoth
        | error => exact h₁.closeBoth

/-! ## `flush` from `on_writable` -/

/-- The upload after a flush; `rp` is `read_paused_` then. -/
theorem UpAt.flushed {fc : Bytes} {off la now : Nat} {rp : Bool} (h : UpAt cfg s fc)
    (hb : s.backend = some b) (hlink : s.client.hasBackend = true)
    (hcase : (rp = s.client.readPaused ∧
        (rp = true → kBackpressureLow ≤ (b.outBuf.drop off).length)) ∨
      (rp = false ∧ (b.outBuf.drop off).length < kBackpressureLow)) :
    UpAt cfg (setReadPaused rp (flushed s b off la now)) fc := by
  have hlow := low_le_high
  have hlen : (b.outBuf.drop off).length ≤ b.outBuf.length := by
    rw [List.length_drop]
    omega
  have hsplit : s.hist.toBackend ++ b.outBuf.take off ++ b.outBuf.drop off
      = s.hist.toBackend ++ b.outBuf := by
    rw [List.append_assoc, List.take_append_drop]
  refine ⟨h.inBound, ?_, h.shaking, ?_, h.accepted, ?_, ?_, h.counted, h.uploading, h.done, ?_,
    ?_, ?_, fun _ _ _ => hlink⟩
  · intro hr
    have := (h.reading hr).2.2.2.2.1
    rw [hlink] at this
    cases this
  · intro hr
    have := (h.unrouted hr).1
    rw [hb] at this
    cases this
  · intro r hr
    refine List.IsPrefix.trans ⟨b.outBuf.drop off, hsplit⟩ ?_
    rw [h.queue r b hr hb (.inl hlink)]
    exact r.handed_prefix _ _
  · rintro r _ hr ⟨⟩ _
    exact hsplit.trans (h.queue r b hr hb (.inl hlink))
  · rintro _ ⟨⟩
    exact hlen.trans (h.bound b hb)
  · rintro _ ⟨⟩ _ hst hrp
    rcases hcase with ⟨hcase, -⟩ | ⟨-, hcase⟩
    · exact hlen.trans (h.room b hb hlink hst (hcase.symm.trans hrp))
    · exact (Nat.le_of_lt hcase).trans hlow
  · rintro _ ⟨⟩ _ hrp
    rcases hcase with ⟨h1, h2⟩ | ⟨h1, -⟩
    · have hhit := (h.paused b hb hlink (h1.symm.trans hrp)).1
      exact ⟨by simpa [hhit] using h2 hrp, h2 hrp⟩
    · rw [show rp = true from hrp] at h1
      cases h1

/-- The upload after a hard error in a flush. -/
theorem UpAt.flushFailed {fc : Bytes} {off la now : Nat} (h : UpAt cfg s fc)
    (hfc : s.hist.fromClient = fc) (hst : s.client.state ≠ .readingHead)
    (hlink : s.client.hasBackend = true) (hsafe : UpSafe cfg (written s b 0 off la now true))
    (hf : RespFrame (written s b 0 off la now true) s') (hcut : s'.client.hasBackend = false) :
    UpAt cfg s' fc := by
  have hsafe' := hsafe.of_frame hf
  have hup := hf.upload
  simp only [upload, Upload.mk.injEq] at hup
  obtain ⟨-, -, e3, -, -, e6, e7, -, e9, -⟩ := hup
  have herr : s'.hist.backendError = true := hf.failed (by simp [written])
  have hfc' : s'.hist.fromClient = fc := e7.trans hfc
  refine ⟨hsafe'.inBound, ?_, ?_, hsafe'.unrouted, hsafe'.accepted, ?_, ?_, ?_, ?_, ?_,
    hsafe'.bound, ?_, ?_, ?_⟩
  · intro hr
    rcases hf.state with h' | h'
    · exact absurd (h'.symm.trans hr) hst
    · exact absurd (h'.symm.trans hr) (by simp)
  · rw [e6]
    intro hshake
    exact absurd (h.shaking hshake) hst
  · rw [← hfc']
    exact hsafe'.sent
  · rintro _ _ _ _ (hlink' | hno)
    · rw [hcut] at hlink'
      cases hlink'
    · rw [herr] at hno
      cases hno
  · rw [e9, e3]
    exact h.counted
  · intro _ _ _ hlink'
    rw [hcut] at hlink'
    cases hlink'
  · rw [e3]
    intro hs
    rcases hf.state with h' | h'
    · exact h.done (h'.symm.trans hs)
    · exact absurd (h'.symm.trans hs) (by simp)
  · intro _ _ hlink'
    rw [hcut] at hlink'
    cases hlink'
  · intro _ _ hlink'
    rw [hcut] at hlink'
    cases hlink'
  · -- an open connection that does not close would have kept the link
    intro hopen hs _
    rw [hf.link hopen (by simp [hs])] at hcut
    rw [show (written s b 0 off la now true).client.hasBackend = true from hlink] at hcut
    cases hcut

/-- The end of `flush`. -/
theorem PairInv.applyInterest (h : PairInv cfg s) : PairInv cfg (applyInterest s) := by
  have hset : Settled cfg (CastlePlus.applyInterest s) := .applyInterest h.settled.steady
    h.settled.scheduled h.settled.relayed h.settled.clientIn h.settled.backendIn
  have hf : RespFrame s (CastlePlus.applyInterest s) := .applyInterest
  obtain ⟨mask, mods, failed, heq, -, -⟩ := applyInterest_cases s
  rw [heq] at hset hf ⊢
  exact ⟨hset, h.up.of_frame hf (.inr rfl)⟩

/-- A pair with its backend attached: the request is routed and the head is behind it. -/
theorem PairInv.routed (h : PairInv cfg s) (hb : s.backend ≠ none) :
    s.hist.routed ≠ none ∧ s.client.state ≠ .readingHead ∧ s.client.handshakeDone = true := by
  have hr : s.hist.routed ≠ none := fun hnone => hb (h.up.unrouted hnone).1
  have hst : s.client.state ≠ .readingHead := fun hst => hr (h.up.reading hst).1
  refine ⟨hr, hst, ?_⟩
  cases hshake : s.client.handshakeDone with
  | true => rfl
  | false => exact absurd (h.up.shaking hshake) hst

/-- The flushed pair waits for the rest of `out_` as before. -/
theorem PairInv.flushed {off la now : Nat} {rp : Bool} (h : PairInv cfg s)
    (hb : s.backend = some b) (hcl : b.hasClient = true) (hconn : b.connected = true)
    (hlink : s.client.hasBackend = true)
    (hcase : (rp = s.client.readPaused ∧
        (rp = true → kBackpressureLow ≤ (b.outBuf.drop off).length)) ∨
      (rp = false ∧ (b.outBuf.drop off).length < kBackpressureLow)) :
    PairInv cfg (setReadPaused rp (flushed s b off la now)) := by
  refine ⟨⟨h.settled.steady.rewritten hb rfl rfl rfl rfl, ?_, .of_client rfl hcl,
    h.settled.relayed, h.settled.clientIn, fun _ => h.settled.backendIn (by simp [hb])⟩,
    h.up.flushed hb hlink hcase⟩
  rintro _ _ ⟨⟩ (hno | hout)
  · rw [hconn] at hno
    cases hno
  · refine h.settled.armed hlink b hb (.inr fun hnil => hout ?_)
    simp [hnil]

theorem flush_spec (h : PairInv cfg s) (hb : s.backend = some b) (hconn : b.connected = true)
    (hlink : s.client.hasBackend = true) :
    wp (flush cfg n) (fun _ s' _ => PairInv cfg s') (CallHalt cfg (CutsUpload s w)) s w := by
  cases n with
  | zero => exact .inl rfl
  | succ n =>
      obtain ⟨b', hb', hcl⟩ := h.settled.steady.linked hlink
      rw [hb] at hb'
      cases hb'
      have hopen : s.client.closed = false := by
        cases hc : s.client.closed with
        | false => rfl
        | true =>
            rw [h.settled.steady.closedCut hc] at hlink
            cases hlink
      obtain ⟨hr, hst, hshake⟩ := h.routed (by simp [hb])
      have hsafe : ∀ off la now failed, failed = true ∨ b.outBuf ≠ [] →
          UpSafe cfg (written s b 0 off la now failed) := by
        intro off la now failed hne
        refine .written h.up.inBound hr h.up.accepted ?_ (h.up.bound b hb) hne
        intro r hr'
        rw [h.up.queue r b hr' hb (.inl hlink)]
        exact r.handed_prefix _ _
      have hsteady : ∀ off la now failed, Steady cfg (written s b 0 off la now failed) :=
        fun _ _ _ _ => h.settled.steady.rewritten hb rfl rfl rfl rfl
      have hflushed : ∀ off la now rp, _ → PairInv cfg (setReadPaused rp (flushed s b off la now)) :=
        fun _ _ _ _ => h.flushed hb hcl hconn hlink
      have hsame : ∀ off la now, setReadPaused s.client.readPaused (flushed s b off la now)
          = flushed s b off la now := fun _ _ _ => rfl
      refine wp_flush hb hcl (fun _ => .inl rfl) ?_ ?_ ?_ ?_
      · -- inside a write
        intro off la now hlt
        refine .inr ⟨(hsteady off la now false).atCall, hsafe off la now false (.inr ?_), .inl rfl⟩
        rintro hnil
        simp [hnil] at hlt
      · -- a hard write error: `fail` has cut the link
        intro off la now w' _ _
        refine wp_mono ((resp_specs cfg n).fail _ w' _ (hsteady off la now true)
          (by simp [written])) ?_ fun e s' hh => hh.toCall (hsafe off la now true (.inl rfl))
        rintro _ s₂ _ ⟨hpost, hcut⟩
        have hfrom : s₂.hist.fromClient = s.hist.fromClient :=
          congrArg Upload.fromClient hpost.frame.upload
        refine ⟨h.settled.of_cut (by simp [hb]) hpost hcut (.of_client rfl hcl) ⟨rfl, rfl, rfl⟩, ?_⟩
        rw [hfrom]
        exact h.up.flushFailed rfl hst hlink (hsafe off la now true (.inl rfl)) hpost.frame hcut
      · -- below the low-water mark: `on_backend_drained`
        intro off la now w' _ hskip hhigh hlow
        cases n with
        | zero => exact .inl rfl
        | succ n =>
            simp only [onBackendDrained, wp_bind, wp_get, wp_ite, wp_pure, wp_modify]
            refine ⟨fun hno => ?_, fun _ => ?_⟩
            · -- the upload was not paused
              have hp : s.client.readPaused = false := by
                rcases hno with hno | hno
                · rw [show (flushed s b off la now).client.closed = s.client.closed from rfl,
                    hopen] at hno
                  cases hno
                · simpa [flushed] using hno
              have := hflushed off la now s.client.readPaused (.inl ⟨rfl, by simp [hp]⟩)
              rw [hsame] at this
              exact this.applyInterest
            · -- it was: the read pump runs inside this flush
              refine wp_mono (drive_spec (hflushed off la now false (.inr ⟨rfl, hlow⟩))) ?_ ?_
              · exact fun _ s' _ h' => h'.applyInterest
              · refine fun e s' hh => hh.mono ?_
                rintro ⟨⟨h1, h2, -⟩, h4⟩
                exact ⟨⟨h1, h2, b, hb, hconn⟩, hskip.hides _ _ h4⟩
      · -- neither
        intro off la now w' _ _ hlow
        have := hflushed off la now s.client.readPaused
          (.inl ⟨rfl, fun hp => hlow (h.up.paused b hb hlink hp).1⟩)
        rw [hsame] at this
        exact this.applyInterest

/-- A backend that is not scheduled for close is attached. -/
theorem PairInv.linked_of_unscheduled (h : PairInv cfg s) (hb : s.backend = some b)
    (hpend : s.backendPending = false) : s.client.hasBackend = true := by
  refine h.settled.steady.linkedBack b hb ?_
  cases hcl : b.hasClient with
  | true => rfl
  | false =>
      rw [h.settled.scheduled b hb hcl] at hpend
      cases hpend

theorem fail_spec (h : PairInv cfg s) (hb : s.backend ≠ none) (why : Bytes) {cut : Prop} :
    wp (fail cfg n why) (fun _ s' _ => PairInv cfg s') (CallHalt cfg cut) s w := by
  refine wp_mono ((resp_specs cfg n).fail s w why h.settled.steady hb) ?_
    fun e s' hh => hh.toCall h.safe
  exact fun _ s' _ hpost => h.of_post hpost.1 (.inl (h.routed hb).2.2)

theorem onReadable_spec (h : PairInv cfg s) (hb : s.backend ≠ none) {cut : Prop} :
    wp (onReadable cfg n) (fun _ s' _ => PairInv cfg s') (CallHalt cfg cut) s w := by
  refine wp_mono ((resp_specs cfg n).onReadable s w h.settled.steady h.settled.relayed hb) ?_
    fun e s' hh => hh.toCall h.safe
  exact fun _ s' _ hpost => h.of_post hpost (.inl (h.routed hb).2.2)

/-- The connect went through: what was waited for as a connect is now waited for as
    unsent bytes. -/
theorem PairInv.finishConnect (h : PairInv cfg s) (hb : s.backend = some b)
    (hlink : s.client.hasBackend = true) (hconn : b.connected = false) :
    PairInv cfg (finishConnect s) := by
  have heq : CastlePlus.finishConnect s
      = { s with backend := some { b with connected := true, lastActivity := s.now } } := by
    simp [CastlePlus.finishConnect, touchBackend, onBackend, hb]
  rw [heq]
  have hu := h.up
  refine ⟨⟨h.settled.steady.replace hb rfl rfl rfl, ?_, ?_, h.settled.relayed, h.settled.clientIn,
    fun _ => h.settled.backendIn (by simp [hb])⟩, ?_⟩
  · rintro _ _ ⟨⟩ _
    exact h.settled.armed hlink b hb (.inl hconn)
  · rintro _ ⟨⟩ hno
    exact h.settled.scheduled b hb hno
  · refine ⟨hu.1, hu.2, hu.3, ?_, hu.5, hu.6, ?_, hu.8, hu.9, hu.10, ?_, ?_, ?_, hu.14⟩
    · intro hr
      have := (hu.unrouted hr).1
      rw [hb] at this
      cases this
    · rintro r _ hr ⟨⟩
      exact hu.queue r b hr hb
    · rintro _ ⟨⟩
      exact hu.bound b hb
    · rintro _ ⟨⟩
      exact hu.room b hb
    · rintro _ ⟨⟩
      exact hu.paused b hb

/-- The script of a callback that calls through a null `backend_`; the callback itself may
    complete the connect. -/
def CutsBody (s : Pair) (w : List Answer) : Prop :=
  s.client.state = .streamingUp ∧ s.client.hasBackend = true ∧
    cutsUpload s.client.bodyRemaining false w = true

theorem CutsUpload.toBody (h : CutsUpload s w) : CutsBody s w := ⟨h.1.1, h.1.2.1, h.2⟩

theorem onWritable_spec (h : PairInv cfg s) (hb : s.backend = some b)
    (hpend : s.backendPending = false) :
    wp (onWritable cfg n) (fun _ s' _ => PairInv cfg s') (CallHalt cfg (CutsBody s w)) s w := by
  have hlink := h.linked_of_unscheduled hb hpend
  simp only [onWritable, wp_bind, wp_self hb, wp_ite, wp_modify]
  refine ⟨fun hconn => ?_, fun hconn => ?_⟩
  · refine wp_mono (flush_spec h hb hconn hlink) (fun _ _ _ h => h) ?_
    exact fun e s' hh => hh.mono CutsUpload.toBody
  have hconn' : b.connected = false := by simpa using hconn
  refine wp_soError h.pending ?_
  intro a w₁ ok hw hres
  cases ok with
  | true =>
      have h₁ := (h.at_time (s.now + a.dt)).finishConnect hb hlink hconn'
      have hb₁ : (finishConnect (tick a.dt s)).backend
          = some { b with connected := true, lastActivity := s.now + a.dt } := by
        simp [finishConnect, touchBackend, onBackend, tick, hb]
      refine ⟨fun _ => ?_, fun hno => absurd rfl hno⟩
      refine wp_mono (flush_spec h₁ hb₁ rfl hlink) (fun _ _ _ h => h) ?_
      refine fun e s' hh => hh.mono ?_
      rintro ⟨⟨h1, h2, -⟩, h3⟩
      refine ⟨h1, h2, ?_⟩
      rw [hw]
      rw [cutsUpload]
      rw [hres]
      exact h3
  | false =>
      refine ⟨fun hno => (by cases hno), fun _ => ?_⟩
      have hf : RespFrame s (noteConnect false (tick a.dt s)) :=
        ⟨rfl, .inl rfl, id, fun _ _ => rfl, id, fun _ => rfl, by simp [Clean, noteConnect], id,
          fun _ _ => rfl, rfl, rfl⟩
      have h₁ : PairInv cfg (noteConnect false (tick a.dt s)) :=
        ⟨h.settled.of_view rfl, h.up.of_frame hf (.inr rfl)⟩
      exact fail_spec h₁ (by simp [noteConnect, tick, hb]) _

/-! ## Deferred destruction -/

/-- `~BackendConnection` of a backend that nobody points to. -/
theorem destroyBackend_eq (h : Core cfg s) (hcut : s.client.hasBackend = false) :
    destroyBackend s = { s with backend := none, backendMask := none } := by
  rw [destroyBackend]
  cases hb : s.backend with
  | none =>
      have := h.registered hb
      cases s
      simp_all
  | some b =>
      have hcl : b.hasClient = false := by
        cases hcl : b.hasClient with
        | false => rfl
        | true =>
            rw [h.linkedBack b hb hcl] at hcut
            cases hcut
      simp [hcl]

/-- The pair behind `process_pending_close`. -/
def purged (s : Pair) : Pair :=
  { s with
    clientMask := if s.clientPending then none else s.clientMask
    backend := if s.backendPending then none else s.backend
    backendMask := if s.backendPending then none else s.backendMask
    clientPending := false
    backendPending := false }

/-- What `process_pending_close` does to a pair, in either order. -/
theorem processPendingClose_eq (h : Core cfg s) (backendFirst : Bool) :
    processPendingClose backendFirst s = purged s := by
  have hclient : s.clientPending = true → s.client.hasBackend = false :=
    fun hp => h.closedCut (h.clientPending hp)
  have hgone : Core cfg { s with clientMask := none } :=
    ⟨h.1, h.2, h.3, h.4, h.5, h.6, h.7, h.8, fun _ _ hm => (by cases hm), h.10, h.11, h.12, h.13,
      h.14, h.15, h.16, h.17⟩
  have hdestroy : s.backendPending = true →
      destroyBackend s = { s with backend := none, backendMask := none } ∧
      destroyBackend { s with clientMask := none }
        = { s with clientMask := none, backend := none, backendMask := none } := fun hp =>
    ⟨destroyBackend_eq h (h.backendPending hp), destroyBackend_eq hgone (h.backendPending hp)⟩
  unfold processPendingClose destroyClient purged
  cases backendFirst <;> cases hc : s.clientPending <;> cases hb : s.backendPending <;>
    simp_all

/-- What is destroyed leaves nothing; what is there was there before. -/
theorem of_ite_none {α : Type} {p : Bool} {x : Option α} {a : α}
    (h : (if p then none else x) = some a) : p = false ∧ x = some a := by
  cases p with
  | false => exact ⟨rfl, h⟩
  | true => cases h

theorem Core.purged (h : Core cfg s) : Core cfg (purged s) where
  linked hlink := by
    have hlive : s.backendPending = false := by
      cases hp : s.backendPending with
      | false => rfl
      | true =>
          have hcut : s.client.hasBackend = false := h.backendPending hp
          exact absurd (hcut.symm.trans hlink) Bool.false_ne_true
    simp only [CastlePlus.purged, hlive]
    exact h.linked hlink
  linkedBack b hb hcl := h.linkedBack b (of_ite_none hb).2 hcl
  closedCut := h.closedCut
  origin := h.origin
  quiet := h.quiet
  keptOut := h.keptOut
  room := h.room
  pausedResponded := h.pausedResponded
  clientMask hmod m hm := h.clientMask hmod m (of_ite_none hm).2
  backendMask hmod m b hm hb := h.backendMask hmod m b (of_ite_none hm).2 (of_ite_none hb).2
  plainBlock := h.plainBlock
  registered hnone := by
    dsimp only [CastlePlus.purged] at hnone ⊢
    split
    · rfl
    · rename_i hp
      rw [if_neg hp] at hnone
      exact h.registered hnone
  clientPending hp := by cases hp
  backendPending hp := by cases hp
  relayed := h.relayed
  opened hne := by
    obtain ⟨b, hb⟩ := Option.ne_none_iff_exists'.mp hne
    exact h.opened (by simp [(of_ite_none hb).2])
  unread := h.unread

theorem Settled.purged (h : Settled cfg s) : Settled cfg (purged s) where
  steady :=
    { h.steady.toCore.purged with
      agree := ⟨fun hlink b hb => h.steady.agree.flags hlink b (of_ite_none hb).2,
        h.steady.agree.attached⟩
      slack := h.steady.slack
      pausedFull := h.steady.pausedFull
      clientArmed := h.steady.clientArmed }
  armed hlink b hb := h.armed hlink b (of_ite_none hb).2
  scheduled b hb hcl := by
    obtain ⟨hp, hb'⟩ := of_ite_none hb
    rw [h.scheduled b hb' hcl] at hp
    cases hp
  relayed := h.relayed
  clientIn hopen := by
    have hp : s.clientPending = false := by
      cases hp : s.clientPending with
      | false => rfl
      | true =>
          have hclosed : s.client.closed = true := h.steady.clientPending hp
          exact absurd (hopen.symm.trans hclosed) Bool.false_ne_true
    simp only [CastlePlus.purged, hp]
    exact h.clientIn hopen
  backendIn hne := by
    obtain ⟨b, hb⟩ := Option.ne_none_iff_exists'.mp hne
    obtain ⟨hp, hb'⟩ := of_ite_none hb
    simp only [CastlePlus.purged, hp]
    exact h.backendIn (by simp [hb'])

theorem UpAt.purged {fc : Bytes} (h : UpAt cfg s fc) : UpAt cfg (purged s) fc where
  inBound := h.inBound
  reading := h.reading
  shaking := h.shaking
  unrouted hr := by
    refine ⟨?_, (h.unrouted hr).2⟩
    dsimp only [CastlePlus.purged]
    rw [(h.unrouted hr).1]
    split <;> rfl
  accepted := h.accepted
  sent := h.sent
  queue r b hr hb := h.queue r b hr (of_ite_none hb).2
  counted := h.counted
  uploading := h.uploading
  done := h.done
  bound b hb := h.bound b (of_ite_none hb).2
  room b hb := h.room b (of_ite_none hb).2
  paused b hb := h.paused b (of_ite_none hb).2
  pausedLinked := h.pausedLinked

/-- A destroyed half takes nothing along: its pointers were cut before. -/
theorem PairInv.processPendingClose (h : PairInv cfg s) (backendFirst : Bool) :
    PairInv cfg (processPendingClose backendFirst s) := by
  rw [processPendingClose_eq h.settled.steady.toCore]
  exact ⟨h.settled.purged, h.up.purged⟩

/-! ## All callbacks -/

/-- A registered backend is there. -/
theorem PairInv.registered (h : PairInv cfg s) (hm : s.backendMask.isSome = true) :
    ∃ b, s.backend = some b := by
  cases hb : s.backend with
  | some b => exact ⟨b, rfl⟩
  | none =>
      rw [h.settled.steady.registered hb] at hm
      cases hm

theorem callback_spec (h : PairInv cfg s) {cb : Callback} (hen : enabled s cb = true) :
    wp (callback cfg n cb) (fun _ s' _ => PairInv cfg s') (CallHalt cfg (CutsBody s w)) s w := by
  have hdrive : wp (drive cfg n) (fun _ s' _ => PairInv cfg s')
      (CallHalt cfg (CutsBody s w)) s w :=
    wp_mono (drive_spec h) (fun _ _ _ h => h) fun e s' hh => hh.mono CutsUpload.toBody
  -- a registered backend is there
  have hobj : s.backendMask.isSome = true → s.backend ≠ none := by
    intro hm hnone
    rw [h.settled.steady.registered hnone] at hm
    cases hm
  cases cb with
  | clientReadable => exact hdrive
  | clientWritable => exact hdrive
  | clientError => exact h.closeBoth
  | clientTimeout now =>
      simp only [callback, wp_modify]
      split
      · exact h.closeBoth
      · exact h
  | backendReadable => exact onReadable_spec h (hobj hen)
  | backendWritable =>
      simp only [enabled, Bool.and_eq_true, Bool.not_eq_true'] at hen
      obtain ⟨b, hb⟩ := Option.ne_none_iff_exists'.mp (hobj hen.1)
      exact onWritable_spec h hb hen.2
  | backendError => exact fail_spec h (hobj hen) _
  | backendTimeout now =>
      obtain ⟨b, hb⟩ := Option.ne_none_iff_exists'.mp (hobj hen)
      simp only [callback, wp_bind, wp_self hb, wp_ite, wp_pure]
      exact ⟨fun _ => fail_spec h (hobj hen) _, fun _ => h⟩
  | processPendingClose backendFirst => exact h.processPendingClose backendFirst

theorem wp_dispatch {cb : Callback} {Q : Unit → Pair → List Answer → Prop}
    {H : Halt → Pair → Prop} :
    wp (dispatch cfg cb) Q H s w ↔ wp (callback cfg (fuelFor w) cb) Q H s w := by
  rw [wp, dispatch]
  rfl

theorem dispatch_spec (h : PairInv cfg s) {cb : Callback} (hen : enabled s cb = true) :
    wp (dispatch cfg cb) (fun _ s' _ => PairInv cfg s') (CallHalt cfg (CutsBody s w)) s w :=
  wp_dispatch.mpr (callback_spec h hen)

end CastlePlus
