import CastlePlus.UploadInvariant

/-! # The request side keeps the invariant

    One specification per function of the request side, from `flush` up to `drive`.
    Every flush below `pump_read` runs with `read_paused_` down, so its drain callback
    returns at once: the only cycle of calls is the read loop itself, and the functions
    can be taken one after the other.

    `cutsUpload` names the one script that leads into a call through a null `backend_`:
    a hard write error on bytes just received, with more of the body to come. -/

namespace CastlePlus

open ScriptProg

variable {cfg : Cfg} {s s' : Pair} {w w' : List Answer} {n : Nat} {b : BackendConnection}

/-- A hard write error follows a read from the client, the bytes read by then being fewer
    than the `left` outstanding ones.  `fed` says whether there was a read already. -/
def cutsUpload : Nat → Bool → List Answer → Bool
  | _, _, [] => false
  | left, fed, a :: w =>
      match a.res with
      | .recv (.ok c) => c.val.length < left && cutsUpload (left - c.val.length) true w
      | .write .error => fed
      | _ => cutsUpload left fed w

/-- `w'` is the end of `w`, and the answers before it hide no such error. -/
structure Skips (w w' : List Answer) : Prop where
  suffix : w' <:+ w
  hides : ∀ left fed, cutsUpload left fed w' = true → cutsUpload left fed w = true

theorem Skips.refl (w : List Answer) : Skips w w := ⟨List.suffix_rfl, fun _ _ => id⟩

theorem Skips.trans {w'' : List Answer} (h : Skips w w') (h' : Skips w' w'') : Skips w w'' :=
  ⟨h'.suffix.trans h.suffix, fun left fed hc => h.hides left fed (h'.hides left fed hc)⟩

theorem cutsUpload_fed {left : Nat} {fed : Bool} (h : cutsUpload left fed w = true) :
    cutsUpload left true w = true := by
  induction w with
  | nil => cases h
  | cons a w ih =>
      rw [cutsUpload] at h ⊢
      split at h <;> simp_all

/-- Where a callback may stop; `cut` stands for the condition of a call through a null
    `backend_`. -/
def CallHalt (cfg : Cfg) (cut : Prop) (e : Halt) (s' : Pair) : Prop :=
  e = .fuel ∨ (AtCall cfg s' ∧ UpSafe cfg s' ∧ (e = .pending ∨ (e = .nullBackend ∧ cut)))

/-- Where a request-side function may stop: no clean connection is closed under way. -/
def ReqHalt (cfg : Cfg) (cut : Prop) (e : Halt) (s' : Pair) : Prop :=
  e = .fuel ∨ (AtCall cfg s' ∧ UpSafe cfg s' ∧ Unclosed s' ∧
    (e = .pending ∨ (e = .nullBackend ∧ cut)))

section Halts

variable {cut cut' : Prop} {e : Halt}

theorem CallHalt.mono (h : CallHalt cfg cut e s') (hc : cut → cut') : CallHalt cfg cut' e s' := by
  rcases h with h | ⟨h1, h2, h3⟩
  · exact .inl h
  · exact .inr ⟨h1, h2, h3.imp id fun h4 => ⟨h4.1, hc h4.2⟩⟩

theorem ReqHalt.mono (h : ReqHalt cfg cut e s') (hc : cut → cut') : ReqHalt cfg cut' e s' := by
  rcases h with h | ⟨h1, h2, h3, h4⟩
  · exact .inl h
  · exact .inr ⟨h1, h2, h3, h4.imp id fun h5 => ⟨h5.1, hc h5.2⟩⟩

theorem ReqHalt.toCall (h : ReqHalt cfg cut e s') : CallHalt cfg cut e s' := by
  rcases h with h | ⟨h1, h2, -, h4⟩
  · exact .inl h
  · exact .inr ⟨h1, h2, h4⟩

/-- A halt of the response side, called in a state with a safe upload. -/
theorem RespHalt.toCall {s₁ : Pair} (h : RespHalt cfg s₁ e s') (hup : UpSafe cfg s₁) :
    CallHalt cfg cut e s' := by
  rcases h with h | ⟨h1, h2, h3⟩
  · exact .inl h
  · exact .inr ⟨h2, hup.of_frame h3, .inl h1⟩

/-- The same where nothing is owed to the client. -/
theorem RespHalt.toReq {s₁ : Pair} (h : RespHalt cfg s₁ e s') (hup : UpSafe cfg s₁)
    (hvoid : s₁.hist.forwarded = false ∨ s₁.hist.backendError = true) :
    ReqHalt cfg cut e s' := by
  rcases h with h | ⟨h1, h2, h3⟩
  · exact .inl h
  · exact .inr ⟨h2, hup.of_frame h3, .of_frame hvoid h3, .inl h1⟩

end Halts

/-! ## `flush` -/

/-- The pair after the write loop of `flush` got from offset `off` to `off'`; `failed` says
    whether a hard error ended it. -/
def written (s : Pair) (b : BackendConnection) (off off' la now : Nat) (failed : Bool) : Pair :=
  { s with
    now := now
    backend := some { b with lastActivity := la }
    hist.toBackend := s.hist.toBackend ++ (b.outBuf.drop off).take (off' - off)
    hist.backendError := s.hist.backendError || failed
    hist.lastCut := s.hist.lastCut || (failed && completing s) }

theorem written_written {off mid off' la la' now now' : Nat} {failed : Bool}
    (h : off ≤ mid) (h' : mid ≤ off') :
    written (written s b off mid la now false) { b with lastActivity := la } mid off' la' now'
      failed = written s b off off' la' now' failed := by
  have hsplit : (b.outBuf.drop off).take (off' - off)
      = (b.outBuf.drop off).take (mid - off) ++ (b.outBuf.drop mid).take (off' - mid) := by
    rw [show off' - off = (mid - off) + (off' - mid) by omega, List.take_add, List.drop_drop,
      show off + (mid - off) = mid by omega]
  have hcomp : completing (written s b off mid la now false) = completing s := rfl
  simp only [written, hsplit, Bool.or_false, Bool.false_and, List.append_assoc] at hcomp ⊢
  rw [hcomp]

/-- How the write loop ends: it hands over a prefix of `out_`, without touching `out_`. -/
def LoopPost (s : Pair) (b : BackendConnection) (off : Nat) (w : List Answer)
    (res : Option Nat) (s' : Pair) (w' : List Answer) : Prop :=
  ∃ off' la now, off ≤ off' ∧ off' ≤ b.outBuf.length ∧
    ((res = some off' ∧ s' = written s b off off' la now false ∧ Skips w w') ∨
     (res = none ∧ s' = written s b off off' la now true ∧
      ∀ left, cutsUpload left true w = true))

/-- Where it can be observed waiting. -/
def LoopHalt (s : Pair) (b : BackendConnection) (off : Nat) (e : Halt) (s' : Pair) : Prop :=
  e = .fuel ∨ (e = .pending ∧ ∃ off' la now, off ≤ off' ∧ off' < b.outBuf.length ∧
    s' = written s b off off' la now false)

section Loop

variable {off mid la now : Nat}

/-- The rest of the loop, seen from before an answer that was not a hard error. -/
theorem LoopPost.later {res : Option Nat} {w'' : List Answer}
    (h : LoopPost (written s b off mid la now false) { b with lastActivity := la } mid w' res s' w'')
    (hmid : off ≤ mid) (hskip : Skips w w') : LoopPost s b off w res s' w'' := by
  obtain ⟨off', la', now', h1, h2, hcase⟩ := h
  refine ⟨off', la', now', hmid.trans h1, h2, ?_⟩
  rcases hcase with ⟨h3, h4, h5⟩ | ⟨h3, h4, h5⟩
  · exact .inl ⟨h3, h4.trans (written_written hmid h1), hskip.trans h5⟩
  · exact .inr ⟨h3, h4.trans (written_written hmid h1), fun left =>
      hskip.hides left true (h5 left)⟩

theorem LoopHalt.later {e : Halt}
    (h : LoopHalt (written s b off mid la now false) { b with lastActivity := la } mid e s')
    (hmid : off ≤ mid) : LoopHalt s b off e s' := by
  rcases h with h | ⟨h, off', la', now', h1, h2, h3⟩
  · exact .inl h
  · exact .inr ⟨h, off', la', now', hmid.trans h1, h2, h3.trans (written_written hmid h1)⟩

/-- Time passed in the loop, or a hard error was noted, and nothing else. -/
theorem written_self (hb : s.backend = some b) (failed : Bool) :
    written s b off off b.lastActivity now failed
      = { s with
          now := now
          hist.backendError := s.hist.backendError || failed
          hist.lastCut := s.hist.lastCut || (failed && completing s) } := by
  simp [written, ← hb]

theorem flushLoop_spec (hb : s.backend = some b) (hoff : off ≤ b.outBuf.length) :
    wp (flushLoop n off) (LoopPost s b off w) (LoopHalt s b off) s w := by
  induction n generalizing s w b off with
  | zero => exact .inl rfl
  | succ n ih =>
      simp only [flushLoop, wp_bind, wp_self hb, wp_ite, wp_pure]
      refine ⟨fun hlt => ?_, fun hge => ?_⟩
      · refine wp_backendWrite (.inr ⟨rfl, off, b.lastActivity, s.now, Nat.le_refl _, hlt, ?_⟩) ?_
        · rw [written_self hb]
          simp
        intro a w₁ res hw hres
        have hskip : res ≠ .error → Skips w w₁ := by
          refine fun hne => ⟨hw ▸ List.suffix_cons _ _, fun left fed hc => ?_⟩
          rw [hw]
          rw [cutsUpload]
          rw [hres]
          cases res with
          | error => exact absurd rfl hne
          | wrote k => exact hc
          | again => exact hc
          | intr => exact hc
        -- the next turn starts at `mid`
        have hrest : ∀ mid la now, res ≠ .error → off ≤ mid → mid ≤ b.outBuf.length →
            wp (flushLoop n mid) (LoopPost s b off w) (LoopHalt s b off)
              (written s b off mid la now false) w₁ := by
          intro mid la now hne h1 h2
          refine wp_mono (ih (b := { b with lastActivity := la }) rfl h2) ?_ ?_
          · exact fun _ _ _ hpost => hpost.later h1 (hskip hne)
          · exact fun _ _ hhalt => hhalt.later h1
        have htick : tick a.dt s = written s b off off b.lastActivity (s.now + a.dt) false := by
          rw [written_self hb]
          simp [tick]
        cases res with
        | wrote k =>
            simp only [wp_bind, wp_modify]
            have hk := k.property
            have hstep : noteWritten ((b.outBuf.drop off).take (min k.val (b.outBuf.length - off)))
                (noteWrite (.wrote k) (tick a.dt s))
                = written s b off (off + min k.val (b.outBuf.length - off)) (s.now + a.dt)
                  (s.now + a.dt) false := by
              simp [noteWritten, touchBackend, onBackend, noteWrite, tick, written, hb]
            rw [hstep]
            exact hrest _ _ _ (by simp) (by omega) (by omega)
        | again =>
            exact ⟨off, b.lastActivity, s.now + a.dt, Nat.le_refl _, hoff,
              .inl ⟨rfl, htick, hskip (by simp)⟩⟩
        | intr =>
            have := hrest off b.lastActivity (s.now + a.dt) (by simp) (Nat.le_refl _) hoff
            rwa [← htick] at this
        | error =>
            refine ⟨off, b.lastActivity, s.now + a.dt, Nat.le_refl _, hoff,
              .inr ⟨rfl, ?_, fun left => ?_⟩⟩
            · have hcomp : completing (tick a.dt s) = completing s := rfl
              rw [written_self hb, noteWrite, hcomp]
              simp [tick]
            · rw [hw]
              rw [cutsUpload]
              rw [hres]
      · -- nothing is left to write
        refine ⟨off, b.lastActivity, s.now, Nat.le_refl _, hoff, .inl ⟨rfl, ?_, .refl w⟩⟩
        rw [written_self hb]
        simp

end Loop

/-- The pair when `flush` has erased `off` bytes and looked at the low-water mark. -/
def flushed (s : Pair) (b : BackendConnection) (off la now : Nat) : Pair :=
  { s with
    now := now
    backend := some { b with
      outBuf := b.outBuf.drop off
      lastActivity := la
      highWaterHit := b.highWaterHit && kBackpressureLow ≤ (b.outBuf.drop off).length }
    hist.toBackend := s.hist.toBackend ++ b.outBuf.take off }

/-- `flush`, with its three ways out: a hard error, a drain and neither. -/
theorem wp_flush {Q : Unit → Pair → List Answer → Prop} {H : Halt → Pair → Prop}
    (hb : s.backend = some b) (hcl : b.hasClient = true) (hfuel : ∀ s', H .fuel s')
    (hwait : ∀ off la now, off < b.outBuf.length →
      H .pending (written s b 0 off la now false))
    (herr : ∀ off la now w', off ≤ b.outBuf.length →
      (∀ left, cutsUpload left true w = true) →
      wp (fail cfg n (ascii "backend write failed")) Q H (written s b 0 off la now true) w')
    (hdrain : ∀ off la now w', off ≤ b.outBuf.length → Skips w w' → b.highWaterHit = true →
      (b.outBuf.drop off).length < kBackpressureLow →
      wp (onBackendDrained cfg n) (fun _ s' w' => Q () (applyInterest s') w') H
        (flushed s b off la now) w')
    (hkeep : ∀ off la now w', off ≤ b.outBuf.length → Skips w w' →
      (b.highWaterHit = true → kBackpressureLow ≤ (b.outBuf.drop off).length) →
      Q () (applyInterest (flushed s b off la now)) w') :
    wp (flush cfg (n + 1)) Q H s w := by
  simp only [flush, wp_bind]
  refine wp_mono (flushLoop_spec hb (Nat.zero_le _)) ?_ ?_
  · rintro r s' w' ⟨off, la, now, -, hoff, ⟨rfl, rfl, hskip⟩ | ⟨rfl, rfl, hcut⟩⟩
    · -- no hard error: the bytes taken are erased
      have hself : (eraseBackend off (written s b 0 off la now false)).backend
          = some { b with outBuf := b.outBuf.drop off, lastActivity := la } := rfl
      simp only [wp_bind, wp_modify, wp_self hself, wp_ite]
      refine ⟨fun hmark => ⟨fun _ => ?_, fun hno => absurd hcl hno⟩, fun hno => ?_⟩
      · -- `out_` has drained below the low-water mark
        obtain ⟨hhigh, hlow⟩ := hmark
        have heq : clearHighWater (eraseBackend off (written s b 0 off la now false))
            = flushed s b off la now := by
          have hlow' : ¬ kBackpressureLow ≤ b.outBuf.length - off := by
            rw [← List.length_drop]
            omega
          simp [clearHighWater, eraseBackend, onBackend, written, flushed, hlow']
        rw [heq]
        exact hdrain off la now w' hoff hskip hhigh hlow
      · -- it has not, or it never was over the high one
        have hlow : b.highWaterHit = true → kBackpressureLow ≤ (b.outBuf.drop off).length := by
          intro hhigh
          by_contra hlt
          exact hno ⟨hhigh, by omega⟩
        have heq : eraseBackend off (written s b 0 off la now false)
            = flushed s b off la now := by
          have hhit : (b.highWaterHit && decide (kBackpressureLow ≤ b.outBuf.length - off))
              = b.highWaterHit := by
            rw [← List.length_drop]
            cases hh : b.highWaterHit with
            | false => rfl
            | true => simpa using hlow hh
          simp [eraseBackend, onBackend, written, flushed, hhit]
        rw [heq]
        exact hkeep off la now w' hoff hskip hlow
    · exact herr off la now w' hoff hcut
  · rintro e s' (rfl | ⟨rfl, off, la, now, -, hoff, rfl⟩)
    · exact hfuel s'
    · exact hwait off la now hoff

/-- The backend object after the append of `send`. -/
def appended (b : BackendConnection) (data : Bytes) : BackendConnection :=
  { b with
    outBuf := b.outBuf ++ data
    highWaterHit := b.highWaterHit || kBackpressureHigh < (b.outBuf ++ data).length }

/-- `send` with `read_paused_` down: its flush never starts the read pump. -/
theorem wp_send {Q : Unit → Pair → List Answer → Prop} {H : Halt → Pair → Prop} {data : Bytes}
    (hb : s.backend = some b) (hcl : b.hasClient = true) (hp : s.client.readPaused = false)
    (hfuel : ∀ s', H .fuel s')
    (hwait : ∀ off la now, off < (b.outBuf ++ data).length →
      H .pending (written s (appended b data) 0 off la now false))
    (herr : ∀ m off la now w', b.connected = true → off ≤ (b.outBuf ++ data).length →
      (∀ left, cutsUpload left true w = true) →
      wp (fail cfg m (ascii "backend write failed")) Q H
        (written s (appended b data) 0 off la now true) w')
    (hok : ∀ off la now w', off ≤ (b.outBuf ++ data).length → Skips w w' →
      Q () (applyInterest (flushed s (appended b data) off la now)) w')
    (hqueue : b.connected = false → Q () { s with backend := some (appended b data) } w) :
    wp (send cfg n data) Q H s w := by
  cases n with
  | zero => exact hfuel s
  | succ n =>
      have hself : (queueBackend data s).backend = some (appended b data) := by
        simp [queueBackend, onBackend, hb, appended]
      have hq : queueBackend data s = { s with backend := some (appended b data) } := by
        simp [queueBackend, onBackend, hb, appended]
      simp only [send, wp_bind, wp_modify, wp_self hself, wp_ite, wp_pure]
      refine ⟨fun hconn => ?_, fun hconn => ?_⟩
      · -- connected: what fits goes out at once
        cases n with
        | zero => exact hfuel _
        | succ n =>
            rw [hq]
            refine wp_flush rfl hcl hfuel hwait
              (fun off la now w' => herr n off la now w' hconn) ?_ ?_
            · intro off la now w' hoff hskip _ _
              cases n with
              | zero => exact hfuel _
              | succ n =>
                  simp only [onBackendDrained, wp_bind, wp_get, wp_ite, wp_pure]
                  -- `on_backend_drained` does nothing here: the client is not paused
                  refine ⟨fun _ => hok off la now w' hoff hskip, fun hno => ?_⟩
                  exact absurd (.inr (by simp [flushed, hp])) hno
            · exact fun off la now w' hoff hskip _ => hok off la now w' hoff hskip
      · -- connecting: the bytes wait in `out_`
        rw [hq]
        exact hqueue (by simpa [appended] using hconn)

/-! ## `forward_body` -/

theorem low_le_high : kBackpressureLow ≤ kBackpressureHigh := by decide

/-- Inside the write loop of a flush: the bytes taken so far are a prefix of what was
    handed over. -/
theorem UpSafe.written {off la now : Nat} {failed : Bool}
    (hin : s.client.inBuf.length ≤ kMaxHead + kReadBuf) (hr : s.hist.routed ≠ none)
    (hacc : ∀ r, s.hist.routed = some r → Accepted cfg s.hist.fromClient r)
    (hsent : ∀ r, s.hist.routed = some r →
      s.hist.toBackend ++ b.outBuf <+: r.target s.hist.fromClient)
    (hbound : b.outBuf.length ≤ kBackpressureHigh + kReadBuf)
    (hne : failed = true ∨ b.outBuf ≠ []) :
    UpSafe cfg (written s b 0 off la now failed) where
  inBound := hin
  bound := by rintro _ ⟨⟩; exact hbound
  unrouted h := absurd h hr
  accepted := hacc
  sent r hr' := by
    refine List.IsPrefix.trans ?_ (hsent r hr')
    exact (List.prefix_append_right_inj _).mpr (List.take_prefix _ _)
  whole herr _ _ _ _ hb hout := by
    simp only [CastlePlus.written, Bool.or_eq_false_iff] at herr
    cases hb
    rcases hne with hne | hne
    · rw [herr.2] at hne
      cases hne
    · exact absurd hout hne

/-- The upload after `forward_body` handed over what the body still wants of `d`. -/
theorem UpAt.fed {fc d : Bytes} {r : Routed} {t : Pair} {b₂ : BackendConnection} {st : State}
    {rp : Bool} (h : UpAt cfg s fc) (hr : s.hist.routed = some r)
    (hb : s.backend = some b) (hlink : s.client.hasBackend = true)
    (hst : s.client.state = .streamingUp) (hc : t.client = s.client)
    (hroute : t.hist.routed = s.hist.routed) (hfrom : t.hist.fromClient = s.hist.fromClient)
    (hb₂ : t.backend = some b₂)
    (hq : t.hist.toBackend ++ b₂.outBuf = s.hist.toBackend ++
      (b.outBuf ++ d.take (min d.length s.client.bodyRemaining)))
    (hlen : b₂.outBuf.length ≤ kBackpressureHigh + kReadBuf)
    (hhigh : kBackpressureHigh < b₂.outBuf.length → b₂.highWaterHit = true)
    (hcase : (st = .streaming ∧ s.client.bodyRemaining ≤ d.length ∧ rp = false) ∨
      (st = .streamingUp ∧ d.length < s.client.bodyRemaining ∧
        (rp = true ↔ kBackpressureHigh < b₂.outBuf.length))) :
    UpAt cfg (setReadPaused rp (setState st
      (spendBody (min d.length s.client.bodyRemaining) t))) (fc ++ d) := by
  obtain ⟨hle, hcount⟩ := h.counted r hr
  obtain ⟨hpos, hat⟩ := h.uploading r hr hst hlink
  have hr' : t.hist.routed = some r := hroute.trans hr
  have hhanded : t.hist.toBackend ++ b₂.outBuf
      = r.handed (fc ++ d) (s.client.bodyRemaining - min d.length s.client.bodyRemaining) := by
    rw [hq, ← List.append_assoc, h.queue r b hr hb (.inl hlink), Routed.handed_feed hle hat]
  -- `hcase` says whether this was the rest of the body, and if not whether reads pause
  refine ⟨?_, ?_, ?_, ?_, ?_, ?_, ?_, ?_, ?_, ?_, ?_, ?_, ?_, ?_⟩ <;>
    simp only [setReadPaused, setState, spendBody, hc]
  · exact h.inBound
  · rintro rfl
    rcases hcase with ⟨hcase, -⟩ | ⟨hcase, -⟩ <;> cases hcase
  · intro hshake
    rw [h.shaking hshake] at hst
    cases hst
  · rw [hr']; rintro ⟨⟩
  · rw [hroute, hfrom]; exact h.accepted
  · intro r' hr''
    rw [hr'] at hr''
    cases hr''
    exact List.IsPrefix.trans ⟨b₂.outBuf, hhanded⟩ (r.handed_prefix _ _)
  · intro r' b' hr'' hb' _
    rw [hr'] at hr''
    rw [hb₂] at hb'
    cases hr''
    cases hb'
    exact hhanded
  · intro r' hr''
    rw [hr'] at hr''
    cases hr''
    rw [List.length_append]
    exact ⟨by omega, by omega⟩
  · rintro r' hr'' rfl -
    rw [hr'] at hr''
    cases hr''
    rw [List.length_append]
    rcases hcase with ⟨hcase, -⟩ | ⟨-, hcase, -⟩
    · cases hcase
    · exact ⟨by omega, by omega⟩
  · rintro rfl
    rcases hcase with ⟨-, hcase, -⟩ | ⟨hcase, -⟩
    · omega
    · cases hcase
  · intro b' hb'
    rw [hb₂] at hb'
    cases hb'
    exact hlen
  · rintro b' hb' - rfl hrp
    rw [hb₂] at hb'
    cases hb'
    rcases hcase with ⟨hcase, -⟩ | ⟨-, -, hcase⟩
    · cases hcase
    · by_contra hgt
      rw [hcase.mpr (by omega)] at hrp
      cases hrp
  · intro b' hb' _ hrp
    rw [hb₂] at hb'
    cases hb'
    rcases hcase with ⟨-, -, hcase⟩ | ⟨-, -, hcase⟩
    · rw [hrp] at hcase
      cases hcase
    · have := hcase.mp hrp
      exact ⟨hhigh this, by have := low_le_high; omega⟩
  · exact fun _ _ _ => hlink

/-- The upload after the last body bytes met a hard write error: the state says streaming,
    the backend is gone. -/
theorem UpAt.fedFailed {fc d : Bytes} {r : Routed} {s₂ : Pair} {off la now : Nat}
    (h : UpAt cfg s fc) (hfc : s.hist.fromClient = fc ++ d) (hr : s.hist.routed = some r)
    (hst : s.client.state = .streamingUp)
    (hsafe : UpSafe cfg (written s b 0 off la now true))
    (hf : RespFrame (written s b 0 off la now true) s₂)
    (hcut : s₂.client.hasBackend = false) (hlast : s.client.bodyRemaining ≤ d.length)
    (hcount : r.headLen + r.bodyLen ≤ (fc ++ d).length) :
    UpAt cfg (setState .streaming
      (spendBody (min d.length s.client.bodyRemaining) s₂)) (fc ++ d) := by
  have hsafe₂ := hsafe.of_frame hf
  have hup := hf.upload
  simp only [upload, Upload.mk.injEq] at hup
  obtain ⟨e1, -, e3, e4, -, e6, e7, e8, e9, -⟩ := hup
  have e3' : s₂.client.bodyRemaining = s.client.bodyRemaining := e3
  have e9' : s₂.hist.routed = s.hist.routed := e9
  have hfc₂ : s₂.hist.fromClient = fc ++ d := e7.trans hfc
  have hdone : s₂.client.bodyRemaining - min d.length s.client.bodyRemaining = 0 := by
    rw [e3']
    omega
  have herr : s₂.hist.backendError = true := hf.failed (by simp [written])
  refine ⟨hsafe₂.inBound, (by rintro ⟨⟩), ?_, hsafe₂.unrouted, hsafe₂.accepted, ?_, ?_, ?_, (by intros; contradiction),
    fun _ => hdone, hsafe₂.bound, (by intros; contradiction), ?_, (by intros; contradiction)⟩
  · intro hshake
    rw [h.shaking (e6.symm.trans hshake)] at hst
    cases hst
  · rw [← hfc₂]
    exact hsafe₂.sent
  · rintro r' b' - - (hlink | hno)
    · exact absurd hlink (by simp [setState, spendBody, hcut])
    · exact absurd hno (by simp [setState, spendBody, herr])
  · intro r' hr'
    have hr'' : s.hist.routed = some r' := e9'.symm.trans hr'
    rw [hr] at hr''
    cases hr''
    simp only [setState, spendBody, hdone]
    exact ⟨by omega, by omega⟩
  · intro b' _ hlink
    exact absurd hlink (by simp [setState, spendBody, hcut])

/-- A change of the backend object in a flush, with the bytes it took recorded. -/
theorem Steady.rewritten {b' : BackendConnection} {t : Pair} (h : Steady cfg s)
    (hb : s.backend = some b) (hv : settledView t = settledView { s with backend := some b' })
    (hclient : b'.hasClient = b.hasClient) (hinterest : b'.interest = b.interest)
    (hpaused : b'.readPaused = b.readPaused) : Steady cfg t :=
  (h.replace hb hclient hinterest hpaused).of_view hv

/-- A failed backend, seen from before the failure. -/
theorem Settled.of_cut {s₁ : Pair} (h : Settled cfg s) (hb : s.backend ≠ none)
    (hp : RespPost cfg s₁ s') (hcut : s'.client.hasBackend = false) (hsch : Scheduled s₁)
    (hsame : s₁.client = s.client ∧ s₁.clientMask = s.clientMask ∧
      s₁.backendMask = s.backendMask) : Settled cfg s' := by
  refine ⟨hp.steady, .of_unlinked hcut, hp.scheduled hsch, hp.relayed, ?_, ?_⟩
  · intro hopen
    rw [hp.frame.masks.1, hsame.2.1]
    refine h.clientIn ?_
    cases hc : s.client.closed with
    | false => rfl
    | true =>
        rw [hp.frame.stayClosed (by rw [hsame.1, hc])] at hopen
        cases hopen
  · intro _
    rw [hp.frame.masks.2, hsame.2.2]
    exact h.backendIn hb

/-- Body bytes are on their way through a connected backend. -/
def Uploading (s : Pair) : Prop :=
  s.client.state = .streamingUp ∧ s.client.hasBackend = true ∧
    ∃ b, s.backend = some b ∧ b.connected = true

/-- What `forward_body` establishes on `d`, started in `s` on the script `w`. -/
structure FedPost (cfg : Cfg) (s : Pair) (d : Bytes) (w : List Answer) (s' : Pair)
    (w' : List Answer) : Prop where
  settled : Settled cfg s'
  up : UpAt cfg s' s'.hist.fromClient
  shaken : s'.client.handshakeDone = s.client.handshakeDone
  headDone : s.client.state = .streamingUp → s'.client.state ≠ .readingHead
  kept : Kept s s'
  next : Uploading s' → Uploading s ∧ d.length < s.client.bodyRemaining ∧
    s'.client.bodyRemaining = s.client.bodyRemaining - d.length ∧ Skips w w'

/-- The script under which `forward_body` on `d` calls through a null `backend_`. -/
def FedCut (s : Pair) (d : Bytes) (w : List Answer) : Prop :=
  Uploading s ∧ d.length < s.client.bodyRemaining ∧
    cutsUpload (s.client.bodyRemaining - d.length) true w = true

/-- `forward_body` about to send: the backend is there, and `d` continues what it was
    given. -/
structure Feeding (cfg : Cfg) (s : Pair) (fc d : Bytes) (b : BackendConnection) (r : Routed) :
    Prop where
  settled : Settled cfg s
  up : UpAt cfg s fc
  received : s.hist.fromClient = fc ++ d
  state : s.client.state = .streamingUp
  unpaused : s.client.readPaused = false
  nonempty : d ≠ []
  linked : s.client.hasBackend = true
  object : s.backend = some b
  client : b.hasClient = true
  routed : s.hist.routed = some r
  size : b.outBuf.length + d.length ≤ kBackpressureHigh + kReadBuf

namespace Feeding

variable {fc d : Bytes} {r : Routed} {off la now : Nat} {failed : Bool}

/-- How much of `d` the body still wants. -/
abbrev wanted (s : Pair) (d : Bytes) : Nat := min d.length s.client.bodyRemaining

/-- The backend object with that much appended. -/
abbrev fed (s : Pair) (d : Bytes) (b : BackendConnection) : BackendConnection :=
  appended b (d.take (wanted s d))

theorem opened (h : Feeding cfg s fc d b r) : s.client.closed = false := by
  cases hc : s.client.closed with
  | false => rfl
  | true => exact absurd ((h.settled.steady.closedCut hc).symm.trans h.linked) (by simp)

theorem length_take (h : Feeding cfg s fc d b r) :
    (d.take (wanted s d)).length = wanted s d ∧ 0 < wanted s d := by
  have hpos := (h.up.uploading r h.routed h.state h.linked).1
  have hd : 0 < d.length := List.length_pos_iff.mpr h.nonempty
  rw [List.length_take]
  rw [wanted]
  exact ⟨by omega, by omega⟩

theorem handed (h : Feeding cfg s fc d b r) :
    s.hist.toBackend ++ (fed s d b).outBuf
      = r.handed (fc ++ d) (s.client.bodyRemaining - wanted s d) := by
  obtain ⟨hle, -⟩ := h.up.counted r h.routed
  obtain ⟨-, hat⟩ := h.up.uploading r h.routed h.state h.linked
  rw [show (fed s d b).outBuf = b.outBuf ++ d.take (wanted s d) from rfl, ← List.append_assoc,
    h.up.queue r b h.routed h.object (.inl h.linked), Routed.handed_feed hle hat]

theorem bound (h : Feeding cfg s fc d b r) :
    (fed s d b).outBuf.length ≤ kBackpressureHigh + kReadBuf := by
  have := h.size
  simp only [appended, List.length_append, h.length_take.1]
  rw [wanted]
  omega

theorem safe_written (h : Feeding cfg s fc d b r) :
    UpSafe cfg (written s (fed s d b) 0 off la now failed) := by
  refine .written h.up.inBound (by simp [h.routed]) h.up.accepted ?_ h.bound (.inr ?_)
  · intro r' hr'
    rw [h.routed] at hr'
    cases hr'
    rw [h.received, h.handed]
    exact r.handed_prefix _ _
  · intro hnil
    have := congrArg List.length hnil
    simp only [appended, List.length_append, h.length_take.1, List.length_nil] at this
    have := h.length_take.2
    omega

theorem steady_written (h : Feeding cfg s fc d b r) :
    Steady cfg (written s (fed s d b) 0 off la now failed) :=
  h.settled.steady.rewritten h.object rfl rfl rfl rfl

/-- Behind a send that left the backend in place. -/
theorem endForward_kept (h : Feeding cfg s fc d b r) {t : Pair} {b₂ : BackendConnection}
    (hset : Settled cfg t) (hc : t.client = s.client) (hroute : t.hist.routed = s.hist.routed)
    (hfrom : t.hist.fromClient = s.hist.fromClient)
    (hview : deliveryView t = deliveryView s) (hb₂ : t.backend = some b₂)
    (hq : t.hist.toBackend ++ b₂.outBuf = s.hist.toBackend ++ (fed s d b).outBuf)
    (hconn : b₂.connected = b.connected)
    (hlen : b₂.outBuf.length ≤ kBackpressureHigh + kReadBuf)
    (hhigh : kBackpressureHigh < b₂.outBuf.length → b₂.highWaterHit = true)
    (hskip : Skips w w') :
    wp endForward (fun _ s' w' => FedPost cfg s d w s' w') (ReqHalt cfg (FedCut s d w))
      (spendBody (wanted s d) t) w' := by
  have hup : ∀ st rp, _ → UpAt cfg (setReadPaused rp (setState st
      (spendBody (wanted s d) t))) (fc ++ d) := fun st rp hcase =>
    h.up.fed h.routed h.object h.linked h.state hc hroute hfrom hb₂ hq hlen hhigh hcase
  have hrem : (spendBody (wanted s d) t).client.bodyRemaining
      = s.client.bodyRemaining - wanted s d := by simp [spendBody, hc]
  have hfrom' : t.hist.fromClient = fc ++ d := hfrom.trans h.received
  have hp : t.client.readPaused = false := by rw [hc, h.unpaused]
  have hst : t.client.state = .streamingUp := by rw [hc, h.state]
  have hkept : ∀ st rp, st ≠ .closing →
      Kept s (setReadPaused rp (setState st (spendBody (wanted s d) t))) := by
    refine fun st rp hne => ⟨fun _ hp' => ?_, fun hd => hd.of_view hview ?_⟩
    · simpa [setReadPaused, setState, spendBody, hc] using hp'
    · exact ⟨fun h' => absurd h' hne, fun h' => absurd (h.state.symm.trans h') (by simp)⟩
  simp only [endForward, wp_bind, wp_get, wp_ite, wp_modify, wp_pure, hrem]
  refine ⟨fun hzero => ?_, fun hmore => ?_⟩
  · -- this was the rest of the body
    have := hup .streaming false (.inl ⟨rfl, by unfold wanted at hzero; omega, rfl⟩)
    have hk := hkept .streaming t.client.readPaused (by rintro ⟨⟩)
    refine ⟨hset.of_view rfl, ?_, by simp [setState, spendBody, hc], fun _ => (by rintro ⟨⟩), hk,
      fun hup => by cases hup.1⟩
    rw [show (setState .streaming (spendBody (wanted s d) t)).hist.fromClient = fc ++ d
      from hfrom']
    simpa [setReadPaused, setState, spendBody, ← hp] using this
  · have hmore' : d.length < s.client.bodyRemaining ∧ wanted s d = d.length := by
      rw [wanted] at hmore ⊢
      exact ⟨by omega, by omega⟩
    -- the object is still the one the upload runs through
    have hnext : ∀ s', s'.backend = some b₂ → Uploading s' → Uploading s ∧
        d.length < s.client.bodyRemaining ∧
        s.client.bodyRemaining - wanted s d = s.client.bodyRemaining - d.length ∧
        Skips w w' := by
      rintro s' hb' ⟨-, -, b', hb'', hconn'⟩
      rw [hb'] at hb''
      cases hb''
      exact ⟨⟨h.state, h.linked, b, h.object, hconn ▸ hconn'⟩, hmore'.1, by rw [hmore'.2], hskip⟩
    have hsame : setState .streamingUp (spendBody (wanted s d) t) = spendBody (wanted s d) t := by
      rw [← hst]
      exact setState_self
    rw [wp_viaBackend (by simp [spendBody, hc, h.linked])]
    simp only [pendingBytes, wp_bind, wp_pure,
      wp_self (show (spendBody (wanted s d) t).backend = some b₂ from hb₂)]
    refine ⟨fun hlong => ?_, fun hshort => ?_⟩
    · -- over the high-water mark: reads pause
      have := hup .streamingUp true (.inr ⟨rfl, hmore'.1, by simpa using hlong⟩)
      have hk := hkept .streamingUp true (by rintro ⟨⟩)
      rw [hsame] at this hk
      refine ⟨hset.of_view rfl, ?_, by simp [setReadPaused, spendBody, hc],
        fun _ => by simp [setReadPaused, spendBody, hst], hk, fun hup' => ?_⟩
      · rw [show (setReadPaused true (spendBody (wanted s d) t)).hist.fromClient = fc ++ d
          from hfrom']
        exact this
      · simpa [setReadPaused, spendBody, hc] using hnext _ hb₂ hup'
    · -- below it they go on
      have := hup .streamingUp false (.inr ⟨rfl, hmore'.1, by simpa using hshort⟩)
      have hk := hkept .streamingUp t.client.readPaused (by rintro ⟨⟩)
      rw [hsame] at this hk
      refine ⟨hset.of_view rfl, ?_, by simp [spendBody, hc],
        fun _ => by simp [spendBody, hst], hk, fun hup' => ?_⟩
      · rw [show (spendBody (wanted s d) t).hist.fromClient = fc ++ d from hfrom']
        simpa [setReadPaused, spendBody, ← hp] using this
      · simpa [spendBody, hc] using hnext _ hb₂ hup'

/-- Behind a send that met a hard error: the link is cut. -/
theorem endForward_failed (h : Feeding cfg s fc d b r) {s₂ : Pair}
    (hconn : b.connected = true)
    (hpost : RespPost cfg (written s (fed s d b) 0 off la now true) s₂)
    (hcut₂ : s₂.client.hasBackend = false) (hcut : ∀ left, cutsUpload left true w = true) :
    wp endForward (fun _ s' w' => FedPost cfg s d w s' w') (ReqHalt cfg (FedCut s d w))
      (spendBody (wanted s d) s₂) w' := by
  obtain ⟨hle, -⟩ := h.up.counted r h.routed
  obtain ⟨-, hat⟩ := h.up.uploading r h.routed h.state h.linked
  have hset : Settled cfg s₂ := h.settled.of_cut (by simp [h.object]) hpost hcut₂
    (.of_client rfl h.client) ⟨rfl, rfl, rfl⟩
  have hup := hpost.frame.upload
  simp only [upload, Upload.mk.injEq] at hup
  obtain ⟨-, -, e3, -, -, e6, e7, -, -, -⟩ := hup
  have hrem : (spendBody (wanted s d) s₂).client.bodyRemaining
      = s.client.bodyRemaining - wanted s d := by
    simp only [spendBody, e3]
    rfl
  have hfrom : s₂.hist.fromClient = fc ++ d := e7.trans h.received
  have herr : s₂.hist.backendError = true := hpost.frame.failed (by simp [written])
  simp only [endForward, wp_bind, wp_get, wp_ite, wp_modify, wp_pure, hrem]
  refine ⟨fun hzero => ?_, fun hmore => ?_⟩
  · rw [wanted] at hzero
    refine ⟨hset.of_view rfl, ?_, e6, fun _ => (by rintro ⟨⟩),
      ⟨fun hopen hp => ?_, fun _ => .of_void (.inr herr)⟩, fun hup => by cases hup.1⟩
    rw [show (setState .streaming (spendBody (wanted s d) s₂)).hist.fromClient = fc ++ d
      from hfrom]
    exact h.up.fedFailed h.received h.routed h.state h.safe_written hpost.frame hcut₂
      (by omega) (by rw [List.length_append]; omega)
    · rw [show (setState .streaming (spendBody (wanted s d) s₂)).client.backendPaused = false
        from hset.steady.unpaused hcut₂ hopen] at hp
      cases hp
  · -- the body goes on: `pending_bytes` is called through the null pointer
    rw [wanted] at hmore
    simp only [viaBackend, wp_bind, wp_get, wp_ite, wp_halt]
    refine ⟨fun hlink => absurd hlink (by simp [spendBody, hcut₂]), fun _ => ?_⟩
    have hset' : Settled cfg (spendBody (wanted s d) s₂) := hset.of_view rfl
    refine .inr ⟨hset'.steady.atCall, ?_, fun _ hc => absurd (herr.symm.trans hc.1) (by simp),
      .inr ⟨rfl, ⟨h.state, h.linked, b, h.object, hconn⟩, by omega, hcut _⟩⟩
    have := h.safe_written.of_frame hpost.frame
    exact ⟨this.1, this.2, this.3, this.4, this.5, this.6⟩

/-- The send of `forward_body` and what follows it. -/
theorem send_spec (h : Feeding cfg s fc d b r) :
    wp (send cfg n (d.take (wanted s d)))
      (fun _ s' w' => wp endForward (fun _ s' w' => FedPost cfg s d w s' w')
        (ReqHalt cfg (FedCut s d w)) (spendBody (wanted s d) s') w')
      (ReqHalt cfg (FedCut s d w)) s w := by
  refine wp_send h.object h.client h.unpaused (fun _ => .inl rfl) ?_ ?_ ?_ ?_
  · -- inside a write
    intro off la now _
    exact .inr ⟨h.steady_written.atCall, h.safe_written, fun _ _ => h.opened, .inl rfl⟩
  · -- a hard write error: `fail` has cut the link
    intro m off la now w' hconn _ hcut
    refine wp_mono ((resp_specs cfg m).fail _ w' _ h.steady_written (by simp [written])) ?_
      fun e s' hh => hh.toReq h.safe_written (.inr (by simp [written]))
    rintro _ s₂ w₂ ⟨hpost, hcut₂⟩
    exact h.endForward_failed hconn hpost hcut₂ hcut
  · -- flushed as far as the socket took it
    intro off la now w' hoff hskip
    have hset : Settled cfg (applyInterest (flushed s (fed s d b) off la now)) :=
      .applyInterest (h.settled.steady.rewritten h.object rfl rfl rfl rfl) (.of_client rfl h.client)
        h.settled.relayed h.settled.clientIn fun _ => h.settled.backendIn (by simp [h.object])
    obtain ⟨mask, mods, failed, heq, -, -⟩ :=
      applyInterest_cases (flushed s (fed s d b) off la now)
    rw [heq] at hset ⊢
    refine h.endForward_kept hset rfl rfl rfl rfl rfl ?_ rfl ?_ ?_ hskip
    · simp only [flushed]
      rw [List.append_assoc, List.take_append_drop]
    · have := h.bound
      simp only [List.length_drop]
      omega
    · intro hlong
      have hlow := low_le_high
      simp only [List.length_drop] at hlong ⊢
      have hhit : (fed s d b).highWaterHit = true := by
        simp only [appended, Bool.or_eq_true, decide_eq_true_eq] at hlong ⊢
        exact .inr (by omega)
      simp only [hhit, Bool.true_and, decide_eq_true_eq]
      omega
  · -- the connect is not done
    intro hconn
    have hset : Settled cfg { s with backend := some (fed s d b) } := by
      refine ⟨h.settled.steady.replace h.object rfl rfl rfl, ?_, .of_client rfl h.client,
        h.settled.relayed, h.settled.clientIn, fun _ => h.settled.backendIn (by simp [h.object])⟩
      rintro - b' ⟨⟩ -
      exact h.settled.armed h.linked b h.object (.inl hconn)
    refine h.endForward_kept hset rfl rfl rfl rfl rfl rfl rfl h.bound ?_ (.refl w)
    intro hlong
    simp only [appended, Bool.or_eq_true, decide_eq_true_eq] at hlong ⊢
    exact .inr hlong

end Feeding

theorem forwardBody_spec {fc d : Bytes} (hs : Settled cfg s) (hup : UpAt cfg s fc)
    (hfc : s.hist.fromClient = fc ++ d) (hst : s.client.state = .streamingUp)
    (hp : s.client.readPaused = false) (hd : d ≠ [])
    (hsize : ∀ b, s.backend = some b → s.client.hasBackend = true →
      b.outBuf.length + d.length ≤ kBackpressureHigh + kReadBuf) :
    wp (forwardBody cfg n d) (fun _ s' w' => FedPost cfg s d w s' w')
      (ReqHalt cfg (FedCut s d w)) s w := by
  cases n with
  | zero => exact .inl rfl
  | succ n =>
      simp only [forwardBody, wp_bind, wp_get, wp_ite, wp_pure, wp_modify]
      refine ⟨fun hno => ?_, fun hyes => ?_⟩
      · -- the backend could not be registered: the body goes nowhere
        have hlink : s.client.hasBackend = false := by simpa using hno
        refine ⟨hs, ?_, rfl, fun _ => by simp [hst], ⟨fun _ h => h, id⟩, ?_⟩
        · rw [hfc]
          exact hup.ignore (by simp [hst]) fun _ => hlink
        · rintro ⟨-, hlink', -⟩
          rw [hlink] at hlink'
          cases hlink'
      · have hlink : s.client.hasBackend = true := by simpa using hyes
        obtain ⟨b, hb, hcl⟩ := hs.steady.linked hlink
        obtain ⟨r, hr⟩ : ∃ r, s.hist.routed = some r := by
          cases hr : s.hist.routed with
          | some r => exact ⟨r, rfl⟩
          | none => rw [(hup.unrouted hr).1] at hb; cases hb
        have h : Feeding cfg s fc d b r :=
          ⟨hs, hup, hfc, hst, hp, hd, hlink, hb, hcl, hr, hsize b hb hlink⟩
        refine ⟨fun _ => ?_, fun hno => absurd h.length_take.2 hno⟩
        rw [wp_viaBackend hlink]
        exact h.send_spec

end CastlePlus
