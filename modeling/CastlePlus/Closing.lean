import CastlePlus.ResponseMoves
import CastlePlus.ProxyRuns

/-! # `Closing` is the last state

    Two facts about a connection whose `state_` is `Closing`.

    * **`Busy`** — between two callbacks, while it is open it has bytes to send.  Every
      function that enters `Closing` ends in `pump_write`, and a drained `pump_write` closes.
    * **`Absorbs`** — `state_` is not assigned again, except by `forward_body`: a hard write
      error on the bytes that complete the body runs `send_response` under it, and it goes
      on to say `Streaming`. -/

namespace CastlePlus

open ScriptProg

variable {cfg : Cfg} {s s' : Pair} {w : List Answer} {n : Nat} {b : BackendConnection}

/-! ## A closing connection has something to send -/

/-- A closing connection that is still open has bytes in `out_`. -/
def Busy (s : Pair) : Prop :=
  s.client.state = .closing → s.client.closed = false → s.client.outBuf ≠ []

theorem Busy.of_closed (h : s.client.closed = true) : Busy s := by
  intro _ hopen
  rw [h] at hopen
  cases hopen

theorem Busy.of_outline (hs : Busy s) (h : outline s' = outline s) : Busy s' := by
  have h1 : s'.client.state = s.client.state := congrArg (·.client.state) h
  have h2 : s'.client.closed = s.client.closed := congrArg (·.client.closed) h
  have h3 : s'.client.outBuf = s.client.outBuf := congrArg (·.client.outBuf) h
  rw [Busy]
  rw [h1, h2, h3]
  exact hs

theorem Busy.closeBoth : Busy (closeBoth s) := .of_closed closed_closeBoth

theorem Busy.closeIfClosing : Busy (closeIfClosing s) := by
  rw [CastlePlus.closeIfClosing]
  split
  · exact .closeBoth
  · rename_i hst
    exact fun h => absurd h hst

/-- What is stated of every program below. -/
abbrev LeavesBusy {α : Type} (p : M α) (s : Pair) (w : List Answer) : Prop :=
  wp p (fun _ s' _ => Busy s') (fun _ _ => True) s w

/-- `pump_write` returns with something to send, or has closed a closing connection. -/
theorem pumpWrite_busy : ∀ n s w, LeavesBusy (pumpWrite cfg n) s w := by
  intro n
  induction n with
  | zero => exact fun _ _ => trivial
  | succ n ih =>
      intro s w
      simp only [LeavesBusy, pumpWrite, wp_bind, wp_get, wp_ite, wp_modify, wp_pure]
      refine ⟨fun _ => ⟨fun _ => ?_, fun _ => .closeIfClosing⟩, fun hout => ?_⟩
      · exact wp_mono wp_trivial (fun _ _ _ _ => .closeIfClosing) fun _ _ h => h
      · refine wp_transportSend trivial ?_
        intro a w₁ res _ _ _
        cases res with
        | ok k =>
            simp only [wp_bind, wp_modify]
            exact ih _ w₁
        | wouldBlockRead => exact fun _ _ => hout
        | wouldBlockWrite => exact fun _ _ => hout
        | closed => exact .closeBoth
        | error => exact .closeBoth

theorem sendResponse_busy (r : Reply) (headOnly : Bool) :
    LeavesBusy (sendResponse cfg n r headOnly) s w := by
  cases n with
  | zero => trivial
  | succ n =>
      simp only [LeavesBusy, sendResponse, wp_bind, wp_modify]
      refine wp_mono (pumpWrite_busy n _ w) ?_ fun _ _ h => h
      exact fun st _ _ h => h.of_outline (outline_finishPump st)

theorem onBackendClosed_busy : LeavesBusy (onBackendClosed cfg n) s w := by
  cases n with
  | zero => trivial
  | succ n =>
      simp only [LeavesBusy, onBackendClosed, wp_bind, wp_modify]
      refine wp_mono (pumpWrite_busy n _ w) ?_ fun _ _ h => h
      exact fun st _ _ h => h.of_outline (outline_finishPump st)

theorem deliverToClient_busy (data : Bytes) : LeavesBusy (deliverToClient cfg n data) s w := by
  cases n with
  | zero => trivial
  | succ n =>
      simp only [LeavesBusy, deliverToClient, wp_bind, wp_get, wp_ite, wp_pure, wp_modify]
      refine ⟨fun hc => .of_closed hc, fun _ => ?_⟩
      refine wp_mono (pumpWrite_busy n _ w) ?_ fun _ _ h => h
      intro st s' _ h
      refine Busy.of_outline ?_ (outline_finishPump st)
      split
      · exact h
      · -- a pause changes neither the state nor the buffer
        have hp := outline_pauseIfFull (s := s')
        have h1 := congrArg (·.client.state) hp
        have h2 := congrArg (·.client.closed) hp
        have h3 := congrArg (·.client.outBuf) hp
        intro hst hopen
        rw [show (pauseIfFull s').client.outBuf = s'.client.outBuf from h3]
        exact h (h1.symm.trans hst) (h2.symm.trans hopen)

theorem onBackendError_busy (why : Bytes) : LeavesBusy (onBackendError cfg n why) s w := by
  cases n with
  | zero => trivial
  | succ n =>
      simp only [LeavesBusy, onBackendError, wp_bind, wp_get, wp_ite, wp_modify]
      exact ⟨fun _ => .closeBoth, fun _ => sendResponse_busy _ _⟩

theorem wp_self_busy {Q : BackendConnection → Pair → List Answer → Prop}
    (hQ : ∀ b, s.backend = some b → Q b s w) : wp self Q (fun _ _ => True) s w := by
  cases hb : s.backend with
  | none =>
      simp only [self, wp_bind, wp_get, hb, wp_halt]
  | some b =>
      rw [wp_self hb]
      exact hQ b hb

theorem fail_busy (h : Busy s) (why : Bytes) : LeavesBusy (fail cfg n why) s w := by
  cases n with
  | zero => trivial
  | succ n =>
      simp only [LeavesBusy, fail, wp_bind, wp_ite, wp_modify]
      refine wp_self_busy fun b _ => ⟨fun _ => ?_, fun _ => h.of_outline rfl⟩
      refine wp_mono (onBackendError_busy why) ?_ fun _ _ h => h
      exact fun _ _ _ h' => h'.of_outline rfl

theorem onReadable_busy : ∀ n s w, Busy s → LeavesBusy (onReadable cfg n) s w := by
  intro n
  induction n with
  | zero => exact fun _ _ _ => trivial
  | succ n ih =>
      intro s w h
      simp only [LeavesBusy, onReadable, wp_bind, wp_ite, wp_pure]
      refine wp_self_busy fun b _ => ⟨fun _ => h, fun _ => ?_⟩
      refine wp_backendRead trivial ?_
      intro a w₁ res _ _
      cases res with
      | data c =>
          simp only [wp_bind, wp_modify, wp_ite]
          refine ⟨fun _ => ?_, fun _ => ih _ w₁ h⟩
          refine wp_mono (deliverToClient_busy c.val) ?_ fun _ _ h => h
          exact fun _ s' w' h' => ih s' w' h'
      | eof =>
          simp only [wp_bind, wp_modify, wp_ite]
          refine ⟨fun _ => ?_, fun _ => h⟩
          refine wp_mono onBackendClosed_busy ?_ fun _ _ h => h
          exact fun _ _ _ h' => h'.of_outline rfl
      | again => exact h
      | intr => exact ih _ w₁ h
      | error =>
          have h₁ : Busy (noteRead .error (tick a.dt s)) := h
          exact fail_busy h₁ _

/-- `drive` ends in `pump_write` wherever it got to. -/
theorem drivePumps_busy : LeavesBusy (drivePumps cfg n) s w := by
  cases n with
  | zero => trivial
  | succ n =>
      simp only [LeavesBusy, drivePumps, wp_bind, wp_modify, wp_get, wp_ite, wp_pure]
      refine wp_mono wp_trivial ?_ fun _ _ h => h
      intro st s₁ w₁ _
      refine ⟨fun hc => .of_closed hc, fun _ => ?_⟩
      refine wp_mono (pumpWrite_busy n _ w₁) ?_ fun _ _ h => h
      exact fun st _ _ h => h.of_outline (outline_finishPump st)

theorem drive_busy (h : Busy s) : LeavesBusy (drive cfg n) s w := by
  cases n with
  | zero => trivial
  | succ n =>
      simp only [LeavesBusy, drive, wp_bind, wp_get, wp_ite, wp_pure]
      refine ⟨fun _ => h, fun _ => ⟨fun _ => drivePumps_busy, fun _ => ?_⟩⟩
      refine wp_transportHandshake trivial ?_
      intro a w₁ res _ _ _
      have h₁ : ∀ ev, Busy (setInterest ev (noteHandshake res (tick a.dt s))) := by
        refine fun ev => Busy.of_outline ?_ (outline_setInterest ev)
        cases res <;> exact h
      cases res with
      | ok u =>
          simp only [wp_bind, wp_modify]
          exact drivePumps_busy
      | wouldBlockRead => exact h₁ _
      | wouldBlockWrite => exact h₁ _
      | closed => exact .closeBoth
      | error => exact .closeBoth

theorem flushLoop_busy : ∀ n off s w, Busy s → LeavesBusy (flushLoop n off) s w := by
  intro n
  induction n with
  | zero => exact fun _ _ _ _ => trivial
  | succ n ih =>
      intro off s w h
      simp only [LeavesBusy, flushLoop, wp_bind, wp_ite, wp_pure]
      refine wp_self_busy fun b _ => ⟨fun _ => ?_, fun _ => h⟩
      refine wp_backendWrite trivial ?_
      intro a w₁ res _ _
      cases res with
      | wrote k =>
          simp only [wp_bind, wp_modify]
          exact ih _ _ w₁ h
      | again => exact h
      | intr => exact ih off _ w₁ h
      | error => exact h

theorem flush_busy (h : Busy s) : LeavesBusy (flush cfg n) s w := by
  cases n with
  | zero => trivial
  | succ n =>
      simp only [LeavesBusy, flush, wp_bind]
      refine wp_mono (flushLoop_busy n 0 s w h) ?_ fun _ _ h => h
      intro r s₁ w₁ h₁
      have hend : ∀ {t : Pair}, Busy t → Busy (applyInterest t) :=
        fun ht => ht.of_outline outline_applyInterest
      cases r with
      | none => exact fail_busy h₁ _
      | some off =>
          simp only [wp_bind, wp_modify, wp_ite]
          refine wp_self_busy fun b _ => ⟨fun _ => ⟨fun _ => ?_, fun _ => hend h₁⟩, fun _ => hend h₁⟩
          cases n with
          | zero => trivial
          | succ n =>
              simp only [onBackendDrained, wp_bind, wp_get, wp_ite, wp_pure, wp_modify]
              refine ⟨fun _ => hend h₁, fun _ => ?_⟩
              refine wp_mono (drive_busy h₁) ?_ fun _ _ h => h
              exact fun _ _ _ h' => hend h'

theorem callback_busy (hc : Core cfg s) (h : Busy s) (cb : Callback) :
    LeavesBusy (callback cfg n cb) s w := by
  cases cb with
  | clientReadable => exact drive_busy h
  | clientWritable => exact drive_busy h
  | clientError => exact Busy.closeBoth
  | clientTimeout now =>
      simp only [LeavesBusy, callback, wp_modify]
      split
      · exact .closeBoth
      · exact h
  | backendReadable => exact onReadable_busy n s w h
  | backendWritable =>
      simp only [LeavesBusy, callback, onWritable, wp_bind, wp_ite]
      refine wp_self_busy fun b _ => ⟨fun _ => flush_busy h, fun _ => ?_⟩
      refine wp_soError trivial ?_
      intro a w₁ ok _ _
      have h₁ : Busy (noteConnect ok (tick a.dt s)) := by
        cases ok <;> exact h
      exact ⟨fun _ => flush_busy h₁, fun _ => fail_busy h₁ _⟩
  | backendError => exact fail_busy h _
  | backendTimeout now =>
      simp only [LeavesBusy, callback, wp_bind, wp_ite, wp_pure]
      exact wp_self_busy fun b _ => ⟨fun _ => fail_busy h _, fun _ => h⟩
  | processPendingClose backendFirst =>
      simp only [LeavesBusy, callback, wp_modify]
      rw [processPendingClose_eq hc]
      exact h

/-! ## `state_` is not assigned again -/

/-- If `state_` was assigned after `Closing`, the last body bytes had met a hard error. -/
def Absorbs (s : Pair) : Prop := s.hist.reopened = true → s.hist.lastCut = true

/-- No assignment of `state_` lies between, and no cut is forgotten. -/
structure Unturned (s s' : Pair) : Prop where
  reopened : s'.hist.reopened = s.hist.reopened
  cut : s.hist.lastCut = true → s'.hist.lastCut = true

theorem Unturned.absorbs (h : Unturned s s') (ha : Absorbs s) : Absorbs s' := by
  intro hr
  rw [h.reopened] at hr
  exact h.cut (ha hr)

theorem Untouched.unturned (h : Untouched s s') : Unturned s s' :=
  ⟨h.reopened, fun hc => h.cut.trans hc⟩

theorem Unturned.refl (s : Pair) : Unturned s s := ⟨rfl, id⟩

theorem Unturned.trans {s'' : Pair} (h : Unturned s s') (h' : Unturned s' s'') :
    Unturned s s'' :=
  ⟨h'.reopened.trans h.reopened, fun hc => h'.cut (h.cut hc)⟩

theorem Unturned.written (off off' la now : Nat) (failed : Bool) :
    Unturned s (written s b off off' la now failed) :=
  ⟨rfl, fun hc => by simp [CastlePlus.written, hc]⟩

/-- Where a program is observed: no claim is made of a model that ran out of fuel. -/
def AbsorbHalt (e : Halt) (s' : Pair) : Prop := e = .fuel ∨ Absorbs s'

/-- What is stated of every program below. -/
abbrev KeepsState {α : Type} (p : M α) (s : Pair) (w : List Answer) : Prop :=
  wp p (fun _ s' _ => Absorbs s') AbsorbHalt s w

theorem keeps_of_untouched {α : Type} {p : M α} (hp : Along Untouched p) (ha : Absorbs s) :
    KeepsState p s w :=
  wp_mono (hp s w) (fun _ _ _ h => h.unturned.absorbs ha) fun _ _ h =>
    .inr (h.unturned.absorbs ha)

/-- The end of `forward_body`, with the one assignment that can come too late. -/
theorem endForward_keeps (ha : Absorbs s)
    (hlate : s.client.bodyRemaining = 0 → s.client.state = .closing → s.hist.lastCut = true) :
    wp endForward (fun _ s' _ => Absorbs s') AbsorbHalt s w := by
  simp only [endForward, wp_bind, wp_get, wp_ite, wp_modify, wp_pure]
  refine ⟨fun hzero hr => ?_, fun _ => ?_⟩
  · by_cases hst : s.client.state = .closing
    · exact hlate hzero hst
    · refine ha ?_
      simpa [setState, hst] using hr
  · have hpending : Along Untouched pendingBytes :=
      .bind .trans (along_self .refl) fun _ => .pure .refl _
    refine wp_mono (along_viaBackend .refl hpending s w) ?_ fun _ _ h =>
      .inr (h.unturned.absorbs ha)
    exact fun _ s' _ h => ⟨fun _ => h.unturned.absorbs ha, fun _ => h.unturned.absorbs ha⟩

/-- A backend that fails under a reply is dropped, and `state_` stays. -/
theorem fail_responded (hb : s.backend = some b) (hcl : b.hasClient = true)
    (hr : s.client.responded = true) (why : Bytes) :
    wp (fail cfg n why) (fun _ s' _ => s'.client.state = s.client.state)
      (fun e _ => e = .fuel) s w := by
  cases n with
  | zero => rfl
  | succ n =>
      simp only [fail, wp_bind, wp_self hb, wp_ite, wp_modify]
      refine ⟨fun _ => ?_, fun hno => absurd hcl hno⟩
      cases n with
      | zero => rfl
      | succ n =>
          simp only [onBackendError, wp_bind, wp_get, wp_ite, wp_modify]
          refine ⟨fun _ => ?_, fun hno => absurd hr hno⟩
          exact state_closeBoth.1

/-! ## The upload -/

/-- Body bytes that complete the request, with no reply begun. -/
theorem Feeding.completing {fc d : Bytes} {r : Routed} (h : Feeding cfg s fc d b r)
    (hr : s.client.responded = false) (hlast : s.client.bodyRemaining ≤ d.length) :
    completing s = true := by
  obtain ⟨hle, -⟩ := h.up.counted r h.routed
  obtain ⟨-, hat⟩ := h.up.uploading r h.routed h.state h.linked
  have hall : r.headLen + r.bodyLen ≤ s.hist.fromClient.length := by
    rw [h.received, List.length_append]
    omega
  simp [CastlePlus.completing, h.state, h.linked, hr, h.routed, hall]

theorem Feeding.send_keeps {fc d : Bytes} {r : Routed} (h : Feeding cfg s fc d b r)
    (ha : Absorbs s) :
    wp (send cfg n (d.take (wanted s d)))
      (fun _ s' w' => wp endForward (fun _ s' _ => Absorbs s') AbsorbHalt
        (spendBody (wanted s d) s') w') AbsorbHalt s w := by
  -- with the backend in place `state_` is still `StreamingUp`
  have hkept : ∀ (t : Pair) w', Unturned s t → t.client.state = .streamingUp →
      wp endForward (fun _ s' _ => Absorbs s') AbsorbHalt (spendBody (wanted s d) t) w' := by
    intro t w' hu hst
    have ha' : Absorbs (spendBody (wanted s d) t) := hu.absorbs ha
    refine endForward_keeps ha' fun _ hcl => ?_
    rw [show (spendBody (wanted s d) t).client.state = t.client.state from rfl, hst] at hcl
    cases hcl
  refine wp_send h.object h.client h.unpaused (fun _ => .inl rfl) ?_ ?_ ?_ ?_
  · intro off la now _
    exact .inr ((Unturned.written 0 off la now false).absorbs ha)
  · intro m off la now w' hconn _ _
    have hu : Unturned s (written s (fed s d b) 0 off la now true) := .written 0 off la now true
    have htouch := (resp_along Untouched.moves cfg m).fail (ascii "backend write failed")
      (written s (fed s d b) 0 off la now true) w'
    cases hr : s.client.responded with
    | true =>
        have hobj : (written s (fed s d b) 0 off la now true).backend
            = some { fed s d b with lastActivity := la } := rfl
        refine wp_mono (wp_and htouch (fail_responded hobj h.client hr _)) ?_
          fun e s' hh => .inl hh.2
        rintro _ s₂ w₂ ⟨ht, hst⟩
        exact hkept s₂ w₂ (hu.trans ht.unturned) (hst.trans h.state)
    | false =>
        refine wp_mono htouch ?_ fun e s' ht => .inr ((hu.trans ht.unturned).absorbs ha)
        intro _ s₂ w₂ ht
        have ha₂ : Absorbs (spendBody (wanted s d) s₂) := (hu.trans ht.unturned).absorbs ha
        refine endForward_keeps ha₂ fun hzero _ => ?_
        have hleft : s₂.client.bodyRemaining = s.client.bodyRemaining := ht.left
        have hlast : s.client.bodyRemaining ≤ d.length := by
          simp only [spendBody, hleft] at hzero
          rw [wanted] at hzero
          omega
        refine ht.cut.trans ?_
        simp [written, h.completing hr hlast]
  · intro off la now w' _ _
    obtain ⟨mask, mods, failed, heq, -, -⟩ :=
      applyInterest_cases (flushed s (fed s d b) off la now)
    rw [heq]
    exact hkept _ w' ⟨rfl, id⟩ h.state
  · exact fun _ => hkept _ w ⟨rfl, id⟩ h.state

theorem forwardBody_keeps {fc d : Bytes} (hs : Settled cfg s) (hup : UpAt cfg s fc)
    (hfc : s.hist.fromClient = fc ++ d) (hst : s.client.state = .streamingUp)
    (hp : s.client.readPaused = false) (hd : d ≠ [])
    (hsize : ∀ b, s.backend = some b → s.client.hasBackend = true →
      b.outBuf.length + d.length ≤ kBackpressureHigh + kReadBuf) (ha : Absorbs s) :
    KeepsState (forwardBody cfg n d) s w := by
  cases n with
  | zero => exact .inl rfl
  | succ n =>
      simp only [KeepsState, forwardBody, wp_bind, wp_get, wp_ite, wp_pure, wp_modify]
      refine ⟨fun _ => ha, fun hyes => ?_⟩
      have hlink : s.client.hasBackend = true := by simpa using hyes
      obtain ⟨b, hb, hcl⟩ := hs.steady.linked hlink
      obtain ⟨r, hr⟩ : ∃ r, s.hist.routed = some r := by
        cases hr : s.hist.routed with
        | some r => exact ⟨r, rfl⟩
        | none => rw [(hup.unrouted hr).1] at hb; cases hb
      have h : Feeding cfg s fc d b r :=
        ⟨hs, hup, hfc, hst, hp, hd, hlink, hb, hcl, hr, hsize b hb hlink⟩
      refine ⟨fun _ => ?_, fun hno => absurd h.length_take.2 hno⟩
      rw [wp_viaBackend hlink]
      exact h.send_keeps ha

/-! ## The head -/

theorem keeps_sysCall {α : Type} {take : SysResult → Option α}
    {Q : α → Pair → List Answer → Prop} (ha : Absorbs s)
    (hQ : ∀ x t w', Q x { s with now := t } w') :
    wp (sysCall take noNote) Q AbsorbHalt s w :=
  wp_sysCall (.inr ha) fun a w' x _ _ => hQ x (s.now + a.dt) w'

theorem sendResponse_keeps (ha : Absorbs s) (r : Reply) (headOnly : Bool) :
    KeepsState (sendResponse cfg n r headOnly) s w :=
  keeps_of_untouched ((resp_along Untouched.moves cfg n).sendResponse r headOnly) ha

theorem handleInternal_keeps (ha : Absorbs s) (method path : Bytes) :
    KeepsState (handleInternal cfg n method path) s w := by
  have hreply : ∀ r headOnly, Along Untouched (sendResponse cfg n r headOnly) :=
    (resp_along Untouched.moves cfg n).sendResponse
  have hhealth : ∀ routes probed acc, Along Untouched (renderHealth routes probed acc) := by
    intro routes
    induction routes with
    | nil => exact fun _ _ => .pure .refl _
    | cons r rest ih =>
        intro probed acc
        simp only [renderHealth]
        refine .ite (ih _ _) (.bind .trans ?_ fun up => ih _ _)
        exact along_sysCall Untouched.moves fun _ _ => .refl _
  refine keeps_of_untouched ?_ ha
  rw [handleInternal]
  refine .ite (hreply _ _) (.ite ?_ (.ite ?_ (hreply _ _)))
  · exact .bind .trans (hhealth _ _ _) fun x => .ite (hreply _ _) (hreply _ _)
  · refine .bind .trans ?_ fun _ => hreply _ _
    exact along_sysCall Untouched.moves fun _ _ => .refl _

/-- A backend that has not connected yet is only queued to. -/
theorem send_fresh {Q : Unit → Pair → List Answer → Prop} {H : Halt → Pair → Prop} {data : Bytes}
    (hb : s.backend = some b) (hconn : b.connected = false) (hfuel : H .fuel s)
    (hQ : Q () (queueBackend data s) w) : wp (send cfg n data) Q H s w := by
  cases n with
  | zero => exact hfuel
  | succ n =>
      have hself : (queueBackend data s).backend = some (appended b data) := by
        simp [queueBackend, onBackend, hb, appended]
      simp only [send, wp_bind, wp_modify, wp_self hself, wp_ite, wp_pure]
      refine ⟨fun hyes => ?_, fun _ => hQ⟩
      rw [show (appended b data).connected = b.connected from rfl, hconn] at hyes
      cases hyes

theorem startBackend_keeps (ha : Absorbs s) : KeepsState (startBackend cfg n) s w := by
  cases n with
  | zero => exact .inl rfl
  | succ n =>
      have hreply : ∀ t reply w, KeepsState (sendResponse cfg n reply false) { s with now := t } w :=
        fun t reply w => sendResponse_keeps (s := { s with now := t }) ha reply false
      simp only [KeepsState, startBackend, wp_bind, wp_get, wp_ite, wp_modify]
      refine keeps_sysCall ha fun sock t w' => ?_
      refine ⟨fun _ => hreply _ _ _, fun _ => ⟨fun _ => hreply _ _ _, fun _ => ?_⟩⟩
      refine keeps_sysCall (s := { s with now := t }) ha fun connecting t' w'' => ?_
      refine ⟨fun _ => hreply _ _ _, fun _ => ?_⟩
      rw [wp_viaBackend rfl]
      refine send_fresh (b := { lastActivity := t' }) rfl rfl (.inl rfl) ?_
      refine wp_sysCall (.inr ha) fun a w₁ added _ _ => ?_
      have hnote : ∀ t : Pair, Absorbs t → Absorbs (noteConnect added t) := by
        intro t ht
        cases added <;> exact ht
      have hadd : ∀ t : Pair, Absorbs t → Absorbs (finishAdd added t) := by
        intro t ht
        cases added with
        | true => exact ht
        | false =>
            rw [finishAdd, destroyBackend]
            rw [if_neg (by simp)]
            split
            · exact ht
            · split <;> exact ht
      exact hadd _ (hnote _ ha)

/-- `forward_body` on a backend that has not connected: nothing is written. -/
theorem forwardBody_fresh (hst : s.client.state ≠ .closing)
    (hlink : s.client.hasBackend = true → ∃ b, s.backend = some b ∧ b.connected = false)
    (ha : Absorbs s) (data : Bytes) : KeepsState (forwardBody cfg n data) s w := by
  cases n with
  | zero => exact .inl rfl
  | succ n =>
      have hend : ∀ t : Pair, t.client.state = s.client.state → Absorbs t →
          wp endForward (fun _ s' _ => Absorbs s') AbsorbHalt t w := fun t hc ht =>
        endForward_keeps ht fun _ h => absurd (hc.symm.trans h) hst
      simp only [KeepsState, forwardBody, wp_bind, wp_get, wp_ite, wp_pure, wp_modify]
      refine ⟨fun _ => ha, fun hyes => ⟨fun _ => ?_, fun _ => hend s rfl ha⟩⟩
      have hyes' : s.client.hasBackend = true := by simpa using hyes
      obtain ⟨b, hb, hconn⟩ := hlink hyes'
      rw [wp_viaBackend hyes']
      exact send_fresh hb hconn (.inl rfl) (hend _ rfl ha)

theorem beginUpload_keeps {r : Routed} (h : Starting cfg s r) (ha : Absorbs s) :
    KeepsState (beginUpload cfg n) s w := by
  cases n with
  | zero => exact .inl rfl
  | succ n =>
      simp only [KeepsState, beginUpload, wp_bind, wp_get, wp_ite, wp_modify, wp_pure]
      refine wp_mono (wp_and h.startBackend_spec (startBackend_keeps ha)) ?_ fun _ _ hh => hh.2
      rintro _ s₁ w₁ ⟨hstart, ha₁⟩
      refine ⟨fun _ => ha₁, fun hgo => ?_⟩
      have hst₁ : s₁.client.state ≠ .closing := fun hst => hgo (.inl hst)
      have hset : ∀ st, Absorbs (setState st s₁) := by
        intro st hr
        refine ha₁ ?_
        simpa [setState, hst₁] using hr
      refine ⟨fun _ => hset .streaming, fun _ => ⟨fun _ => ?_, fun _ => hset .streamingUp⟩⟩
      obtain ⟨-, hst⟩ | hstarted := hstart
      · exact absurd hst hst₁
      · refine wp_mono (forwardBody_fresh (s := setState .streamingUp s₁) (by simp [setState]) ?_
          (hset .streamingUp) _) (fun _ _ _ h => h) fun _ _ h => h
        intro hlink
        obtain ⟨b, hb, -⟩ := hstarted.settled.steady.linked hlink
        exact ⟨b, hb, (hstarted.object b hb).2⟩

theorem processHead_keeps (h : AtHead cfg s) (ha : Absorbs s) :
    KeepsState (processHead cfg n) s w := by
  cases n with
  | zero => exact .inl rfl
  | succ n =>
      simp only [KeepsState, processHead, wp_bind, wp_get]
      cases hparse : phrParseRequest (some kMaxHeaders) s.client.inBuf with
      | incomplete =>
          simp only [wp_ite, wp_pure]
          exact ⟨fun _ => sendResponse_keeps ha _ _, fun _ => ha⟩
      | malformed => exact sendResponse_keeps ha _ _
      | done req rest =>
          simp only [wp_bind, wp_modify]
          have ha' : Absorbs (setHeadLen (s.client.inBuf.length - rest.length) s) := ha
          cases hv : headVerdict cfg.routes cfg.maxBody req with
          | handleInternal method target => exact handleInternal_keeps ha' method target
          | reply reply => exact sendResponse_keeps ha' reply false
          | overflow => exact absurd hv (headVerdict_ne_overflow _ _ _)
          | forward head target len =>
              simp only [wp_bind, wp_modify]
              exact beginUpload_keeps (h.acceptHead hparse hv) ha

/-! ## The read loop -/

theorem handleClientBytes_keeps {fc d : Bytes} (hs : Settled cfg s) (hup : UpAt cfg s fc)
    (hfc : s.hist.fromClient = fc ++ d) (hopen : s.client.closed = false)
    (hshake : s.client.handshakeDone = true) (hp : s.client.readPaused = false) (hd : d ≠ [])
    (hlen : d.length ≤ kReadBuf) (ha : Absorbs s) :
    KeepsState (handleClientBytes cfg n d) s w := by
  cases n with
  | zero => exact .inl rfl
  | succ n =>
      simp only [KeepsState, handleClientBytes, wp_bind, wp_get]
      cases hst : s.client.state with
      | readingHead =>
          simp only [wp_bind, wp_modify]
          exact processHead_keeps (hup.atHead hs hfc hst hopen hshake hlen) ha
      | streamingUp =>
          refine forwardBody_keeps hs hup hfc hst hp hd (fun b hb hlink => ?_) ha
          have := hup.room b hb hlink hst hp
          omega
      | streaming => exact ha
      | closing => exact ha

theorem pumpRead_keeps (h : Pumped cfg s) (hopen : s.client.closed = false) (ha : Absorbs s) :
    KeepsState (pumpRead cfg n) s w := by
  induction n generalizing s w with
  | zero => exact .inl rfl
  | succ n ih =>
      simp only [KeepsState, pumpRead, wp_bind, wp_get, wp_ite, wp_pure]
      refine ⟨fun _ => ha, fun hread => ?_⟩
      have hp : s.client.readPaused = false := by simpa using (not_or.mp hread).1
      refine wp_transportRecv (.inr ha) ?_
      intro a w₁ res _ _ _
      have ha₁ : Absorbs (noteRecv res (tick a.dt s)) := by
        cases res with
        | closed =>
            simp only [noteRecv]
            split <;> exact ha
        | ok c => exact ha
        | error => exact ha
        | wouldBlockRead => exact ha
        | wouldBlockWrite => exact ha
      have hclose : Absorbs (closeBoth (noteRecv res (tick a.dt s))) :=
        Untouched.closeBoth.unturned.absorbs ha₁
      cases res with
      | ok c =>
          simp only [wp_bind, wp_modify, wp_get, wp_ite, wp_pure]
          obtain ⟨hset₁, hup₁⟩ := h.received c a.dt
          have hspec := handleClientBytes_spec (n := n) (w := w₁) hset₁ hup₁ rfl hopen h.shaken
            hp c.property.1 c.property.2
          have hkeep := handleClientBytes_keeps (n := n) (w := w₁) hset₁ hup₁ rfl hopen h.shaken
            hp c.property.1 c.property.2 ha₁
          refine wp_mono (wp_and hspec hkeep) ?_ fun _ _ hh => hh.2
          rintro _ s₂ w₂ ⟨hpost, ha₂⟩
          -- the next turn starts from what this one leaves
          refine ⟨fun _ => ha₂, fun hopen₂ => ?_⟩
          exact ih ⟨⟨hpost.settled, hpost.up⟩, hpost.shaken.trans h.shaken⟩ (by simpa using hopen₂)
            ha₂
      | closed =>
          simp only [wp_bind, wp_get, wp_ite, wp_modify, wp_pure]
          exact ⟨fun _ => ha₁, fun _ => hclose⟩
      | error => exact hclose
      | wouldBlockRead => exact ha₁
      | wouldBlockWrite => exact ha₁

theorem drivePumps_keeps (h : Pumped cfg s) (hopen : s.client.closed = false) (ha : Absorbs s) :
    KeepsState (drivePumps cfg n) s w := by
  cases n with
  | zero => exact .inl rfl
  | succ n =>
      simp only [KeepsState, drivePumps, wp_bind, wp_modify, wp_get, wp_ite, wp_pure]
      refine wp_mono (pumpRead_keeps h hopen ha) ?_ fun _ _ h => h
      intro st s₁ w₁ ha₁
      refine ⟨fun _ => ha₁, fun _ => ?_⟩
      have ha₁' : Absorbs (setReadBlock st s₁) := ha₁
      refine wp_mono (keeps_of_untouched (resp_along Untouched.moves cfg n).pumpWrite ha₁') ?_
        fun _ _ h => h
      exact fun st _ _ h => (Untouched.of_outline (outline_finishPump st)).unturned.absorbs h

theorem drive_keeps (h : PairInv cfg s) (ha : Absorbs s) : KeepsState (drive cfg n) s w := by
  cases n with
  | zero => exact .inl rfl
  | succ n =>
      simp only [KeepsState, drive, wp_bind, wp_get, wp_ite, wp_pure]
      refine ⟨fun _ => ha, fun hopen => ?_⟩
      have hopen' : s.client.closed = false := by simpa using hopen
      refine ⟨fun hshake => drivePumps_keeps ⟨h, hshake⟩ hopen' ha, fun hshake => ?_⟩
      refine wp_transportHandshake (.inr ha) ?_
      intro a w₁ res _ _ _
      have h₁ := h.noteHandshake res a.dt
      have ha₁ : Absorbs (noteHandshake res (tick a.dt s)) := by
        cases res <;> exact ha
      cases res with
      | ok u =>
          simp only [wp_bind, wp_modify]
          exact drivePumps_keeps h₁.finishHandshake hopen' ha₁
      | wouldBlockRead =>
          exact (Untouched.of_outline (outline_setInterest _)).unturned.absorbs ha₁
      | wouldBlockWrite =>
          exact (Untouched.of_outline (outline_setInterest _)).unturned.absorbs ha₁
      | closed => exact Untouched.closeBoth.unturned.absorbs ha₁
      | error => exact Untouched.closeBoth.unturned.absorbs ha₁

/-! ## Callbacks -/

theorem flush_keeps (h : PairInv cfg s) (hb : s.backend = some b) (hconn : b.connected = true)
    (hlink : s.client.hasBackend = true) (ha : Absorbs s) : KeepsState (flush cfg n) s w := by
  cases n with
  | zero => exact .inl rfl
  | succ n =>
      obtain ⟨b', hb', hcl⟩ := h.settled.steady.linked hlink
      rw [hb] at hb'
      cases hb'
      have hend : ∀ {t : Pair}, Absorbs t → Absorbs (applyInterest t) := fun ht =>
        (Untouched.of_outline outline_applyInterest).unturned.absorbs ht
      have hwritten : ∀ off la now failed, Absorbs (written s b 0 off la now failed) :=
        fun off la now failed => (Unturned.written 0 off la now failed).absorbs ha
      refine wp_flush hb hcl (fun _ => .inl rfl) ?_ ?_ ?_ ?_
      · exact fun off la now _ => .inr (hwritten off la now false)
      · intro off la now w' _ _
        exact keeps_of_untouched ((resp_along Untouched.moves cfg n).fail _)
          (hwritten off la now true)
      · -- drained: the read pump may run inside this flush
        intro off la now w' _ _ _ hlow
        cases n with
        | zero => exact .inl rfl
        | succ n =>
            simp only [onBackendDrained, wp_bind, wp_get, wp_ite, wp_pure, wp_modify]
            refine ⟨fun _ => hend ha, fun _ => ?_⟩
            have h₁ : PairInv cfg (setReadPaused false (flushed s b off la now)) :=
              h.flushed hb hcl hconn hlink (.inr ⟨rfl, hlow⟩)
            exact wp_mono (drive_keeps h₁ ha) (fun _ _ _ h' => hend h') fun _ _ h => h
      · exact fun off la now w' _ _ _ => hend ha

theorem callback_keeps (h : PairInv cfg s) {cb : Callback} (hen : enabled s cb = true)
    (ha : Absorbs s) : KeepsState (callback cfg n cb) s w := by
  have hresp := resp_along Untouched.moves cfg n
  cases cb with
  | clientReadable => exact drive_keeps h ha
  | clientWritable => exact drive_keeps h ha
  | clientError => exact Untouched.closeBoth.unturned.absorbs ha
  | clientTimeout now =>
      simp only [KeepsState, callback, wp_modify]
      split
      · exact Untouched.closeBoth.unturned.absorbs ha
      · exact ha
  | backendReadable => exact keeps_of_untouched hresp.onReadable ha
  | backendWritable =>
      simp only [enabled, Bool.and_eq_true, Bool.not_eq_true'] at hen
      obtain ⟨b, hb⟩ := h.registered hen.1
      have hlink := h.linked_of_unscheduled hb hen.2
      simp only [KeepsState, callback, onWritable, wp_bind, wp_self hb, wp_ite, wp_modify]
      refine ⟨fun hconn => flush_keeps h hb hconn hlink ha, fun hconn => ?_⟩
      refine wp_soError (.inr ha) ?_
      intro a w₁ ok _ _
      cases ok with
      | true =>
          refine ⟨fun _ => ?_, fun hno => absurd rfl hno⟩
          -- the connect is done, and the queued head goes out in this callback
          have h₁ := (h.at_time (s.now + a.dt)).finishConnect hb hlink (by simpa using hconn)
          have hb₁ : (finishConnect (tick a.dt s)).backend
              = some { b with connected := true, lastActivity := s.now + a.dt } := by
            simp [finishConnect, touchBackend, onBackend, tick, hb]
          exact flush_keeps h₁ hb₁ rfl hlink ha
      | false =>
          have ha₁ : Absorbs (noteConnect false (tick a.dt s)) := ha
          exact ⟨fun hno => (by cases hno), fun _ => keeps_of_untouched (hresp.fail _) ha₁⟩
  | backendError => exact keeps_of_untouched (hresp.fail _) ha
  | backendTimeout now =>
      obtain ⟨b, hb⟩ := h.registered hen
      simp only [KeepsState, callback, wp_bind, wp_self hb, wp_ite, wp_pure]
      exact ⟨fun _ => keeps_of_untouched (hresp.fail _) ha, fun _ => ha⟩
  | processPendingClose backendFirst =>
      simp only [KeepsState, callback, wp_modify]
      rw [processPendingClose_eq h.settled.steady.toCore]
      exact ha

/-! ## Runs -/

/-- What a run keeps between two callbacks. -/
structure ClosingInv (cfg : Cfg) (s : Pair) : Prop extends PairInv cfg s where
  absorbs : Absorbs s
  busy : Busy s

theorem step_closing (h : ClosingInv cfg s) {cb : Callback} (hen : enabled s cb = true) :
    wp (dispatch cfg cb) (fun _ s' _ => ClosingInv cfg s') (fun _ s' => Absorbs s') s w := by
  have hkeep := callback_keeps (n := fuelFor w) (w := w) h.toPairInv hen h.absorbs
  have hbusy := callback_busy (n := fuelFor w) (w := w) h.settled.steady.toCore h.busy cb
  refine wp_mono (wp_and (wp_and (step_inv h.toPairInv hen) (dispatch_fuel cb))
    (wp_and (wp_dispatch.mpr hkeep) (wp_dispatch.mpr hbusy))) ?_ ?_
  · rintro _ s' _ ⟨⟨hi, -⟩, ha, hb⟩
    exact ⟨hi, ha, hb⟩
  · rintro e s' ⟨⟨-, hfuel⟩, he | ha, -⟩
    · exact absurd he hfuel
    · exact ha

theorem newPair_closing {now : Nat} {mods : List Bool} : ClosingInv cfg (newPair now mods) :=
  ⟨newPair_inv, (by rintro ⟨⟩), (by rintro ⟨⟩)⟩

/-- At every moment of a run in which no write fails hard on the bytes that complete a body,
    `state_` has not left `Closing`; and after every callback a closing connection is closed
    or has bytes to send. -/
theorem closing_absorbs (hcut : s.hist.lastCut = false) :
    (Observed cfg s → s.hist.reopened = false) ∧
    (Reachable cfg s → s.client.state = .closing → s.client.closed = false →
      s.client.outBuf ≠ []) := by
  have hreach : Reachable cfg s → ClosingInv cfg s := by
    rintro ⟨now, mods, h⟩
    exact reaches_inv newPair_closing (fun _ _ _ hi hok => step_closing hi hok) h
  have habs : Absorbs s → s.hist.reopened = false := by
    intro ha
    cases hr : s.hist.reopened with
    | false => rfl
    | true =>
        rw [ha hr] at hcut
        cases hcut
  refine ⟨fun h => habs ?_, fun h => (hreach h).busy⟩
  rcases h with h | ⟨now, mods, e, h⟩
  · exact (hreach h).absorbs
  · exact stops_inv newPair_closing (fun _ _ _ hi hok => step_closing hi hok) h

/-- The backend's socket fails and the client does not take the 502 at once. -/
theorem closing_absorbs_waiting : ∃ s, Reachable demoCfg s ∧ s.client.state = .closing ∧
    s.client.outBuf ≠ [] ∧ s.hist.reopened = false := by
  have hrun : (replay (dispatch demoCfg) legal (demoHead ++
      [(.backendReadable, [{ res := .read .error }, { res := .send .wouldBlockWrite }])])
      (newPair 0 [])).map (fun s => (s.hist.lastCut, s.client.state, s.client.closed))
      = some (false, .closing, false) := by decide +kernel
  obtain ⟨s, hrun, hs⟩ := Option.map_eq_some_iff.mp hrun
  simp only [Prod.mk.injEq] at hs
  obtain ⟨hcut, hst, hopen⟩ := hs
  have hreach : Reachable demoCfg s := ⟨0, [], reaches_replay .init hrun⟩
  obtain ⟨habs, hbusy⟩ := (closing_absorbs hcut :
    (Observed demoCfg s → _) ∧ (Reachable demoCfg s → _))
  exact ⟨s, hreach, hst, hbusy hreach hst hopen, habs (.inl hreach)⟩

/-- The write of the last body bytes fails: `send_response` has made the state `Closing`, and
    `forward_body` makes it `Streaming`. -/
theorem closing_left : ∃ s, Reachable demoCfg s ∧ s.hist.responses ≠ [] ∧
    s.client.state = .streaming ∧ s.hist.reopened = true := by
  have hrun : (replay (dispatch demoCfg) legal (demoHead ++
      [(.clientReadable, [recvText "abc" (by decide), { res := .write .error },
        { res := .send .wouldBlockWrite }, { res := .recv .wouldBlockRead },
        { res := .send .wouldBlockWrite }])]) (newPair 0 [])).map
      (fun s => (s.hist.responses.isEmpty, s.client.state, s.hist.reopened))
      = some (false, .streaming, true) := by decide +kernel
  obtain ⟨s, hrun, hs⟩ := Option.map_eq_some_iff.mp hrun
  simp only [Prod.mk.injEq] at hs
  obtain ⟨hresp, hst, hre⟩ := hs
  refine ⟨s, ⟨0, [], reaches_replay .init hrun⟩, ?_, hst, hre⟩
  simpa using hresp

end CastlePlus
