import CastlePlus.ResponseSide

/-! # What the response side can do, step by step

    `RespMoves R` lists the steps of the response side, each with what the code knows when
    it takes it.  **`resp_along`**: a preorder `R` closed under the steps relates the start
    of every response-side function to wherever it returns or halts.

    The first instance is **`Untouched`**: the read side of the client, and the record of
    what happened to `state_`, are none of the response side's business. -/

namespace CastlePlus

open ScriptProg

variable {cfg : Cfg} {s s' s'' : Pair} {w : List Answer} {n : Nat}

/-- The steps of the response side stay within `R`. -/
structure RespMoves (R : Pair → Pair → Prop) : Prop where
  refl : ∀ s, R s s
  trans : ∀ {s s' s''}, R s s' → R s' s'' → R s s''
  tick : ∀ dt s, R s (tick dt s)
  noteSend : ∀ r s, R s (noteSend r s)
  acceptSent : ∀ k s, s.client.outBuf ≠ [] → R s (acceptSent k s)
  /-- the client's transport has failed -/
  hangUp : ∀ s, s.hist.clientFailed = true → R s (closeBoth s)
  /-- the end of a drained `pump_write` -/
  drained : ∀ s, s.client.outBuf = [] → R s (closeIfClosing s)
  /-- the same after the backend it had paused has read on -/
  resumed : ∀ s s', s.client.outBuf = [] → s.client.backendPaused = true →
    R (releaseBackend s) s' → R s (closeIfClosing s')
  release : ∀ s, R s (releaseBackend s)
  unpause : ∀ s, R s (unpauseReads s)
  noteRead : ∀ r s, R s (noteRead r s)
  touchBackend : ∀ s, R s (touchBackend s)
  queue : ∀ d s, d ≠ [] → s.client.closed = false → R s (queueClient d s)
  /-- the end of `deliver_to_client` -/
  deliver : ∀ d s s' st, R (queueClient d s) s' →
    R (queueClient d s) (finishPump st (if s'.client.closed then s' else pauseIfFull s'))
  finishPump : ∀ st s, R s (finishPump st s)
  /-- `on_backend_closed` up to its `pump_write` -/
  finish : ∀ dt s b, s.backend = some b → b.hasClient = true →
    R s (setState .closing (detachBackend (detachClient (CastlePlus.noteRead .eof
      (CastlePlus.tick dt s)))))
  detachClient : ∀ s, R s (detachClient s)
  detachBackend : ∀ s, R s (detachBackend s)
  requestCloseBackend : ∀ s, R s (requestCloseBackend s)
  cutOff : ∀ s, R s (cutOff s)
  beginResponse : ∀ text s, text ≠ [] → R s (beginResponse text s)

/-- The functions of the response side that can be called in any state. -/
structure RespAlong (cfg : Cfg) (R : Pair → Pair → Prop) (n : Nat) : Prop where
  pumpWrite : Along R (pumpWrite cfg n)
  resumeReads : Along R (resumeReads cfg n)
  onReadable : Along R (onReadable cfg n)
  deliverToClient : ∀ data, data ≠ [] → Along R (deliverToClient cfg n data)
  fail : ∀ why, Along R (fail cfg n why)
  onBackendError : ∀ why, Along R (onBackendError cfg n why)
  sendResponse : ∀ r headOnly, Along R (sendResponse cfg n r headOnly)

theorem responseText_ne_nil (code : Nat) (status body : Bytes) (headOnly : Bool) :
    responseText code status body headOnly ≠ [] := by
  intro h
  simp [responseText, ascii] at h

section Moving

variable {R : Pair → Pair → Prop}

theorem along_self (hr : ∀ s, R s s) : Along R self := by
  refine .get_bind fun s w => ?_
  cases s.backend with
  | none => exact hr s
  | some b => exact hr s

theorem along_viaBackend {α : Type} {p : M α} (hr : ∀ s, R s s) (hp : Along R p) :
    Along R (viaBackend p) := by
  refine .get_bind fun s w => ?_
  rw [wp_ite]
  exact ⟨fun _ => hp s w, fun _ => hr s⟩

/-- A function of the backend object that goes on in `p`, whatever the object is. -/
theorem along_self_bind {α : Type} {f : BackendConnection → M α} (hr : ∀ s, R s s)
    (hf : ∀ b s w, s.backend = some b →
      wp (f b) (fun _ s' _ => R s s') (fun _ s' => R s s') s w) : Along R (self >>= f) := by
  intro s w
  cases hb : s.backend with
  | none =>
      simp only [self, wp_bind, wp_get, hb, wp_halt]
      exact hr s
  | some b =>
      rw [wp_bind, wp_self hb]
      exact hf b s w hb

theorem along_sysCall {α : Type} {take : SysResult → Option α} {note : α → Pair → Pair}
    (h : RespMoves R) (hnote : ∀ a s, R s (note a s)) : Along R (sysCall take note) :=
  fun s _ => wp_sysCall (h.refl s) fun _ _ _ _ _ => h.trans (h.tick _ s) (hnote _ _)

theorem pumpWrite_along (h : RespMoves R) (ih : RespAlong cfg R n) :
    Along R (pumpWrite cfg (n + 1)) := by
  simp only [pumpWrite]
  refine .get_bind fun s w => ?_
  rw [wp_ite]
  refine ⟨fun hout => ?_, fun hout => ?_⟩
  · simp only [wp_bind, wp_ite, wp_modify, wp_pure]
    refine ⟨fun hp => ?_, fun _ => h.drained s hout⟩
    refine wp_mono (along_viaBackend h.refl ih.resumeReads _ w) ?_ ?_
    · exact fun _ s' _ hs' => h.resumed s s' hout hp.1 hs'
    · exact fun _ s' hs' => h.trans (h.release s) hs'
  · rw [wp_bind]
    refine wp_transportSend (h.refl s) ?_
    intro a w₁ res _ _ _
    have h₁ : R s (noteSend res (tick a.dt s)) := h.trans (h.tick _ s) (h.noteSend _ _)
    cases res with
    | ok k =>
        simp only [wp_bind, wp_modify]
        exact ih.pumpWrite.after h.trans (h.trans h₁ (h.acceptSent k _ hout)) w₁
    | wouldBlockRead => exact h₁
    | wouldBlockWrite => exact h₁
    | closed => exact h.trans h₁ (h.hangUp _ rfl)
    | error => exact h.trans h₁ (h.hangUp _ rfl)

/-- The EOF branch of `on_readable`. -/
theorem finish_along (h : RespMoves R) (ih : RespAlong cfg R n) {b : BackendConnection}
    (hb : s.backend = some b) (hcl : b.hasClient = true) (dt : Nat) :
    wp (onBackendClosed cfg (n + 1)) (fun _ s' _ => R s s') (fun _ s' => R s s')
      (detachClient (noteRead .eof (tick dt s))) w := by
  simp only [onBackendClosed, wp_bind, wp_modify]
  refine wp_mono (ih.pumpWrite.after h.trans (h.finish dt s b hb hcl) w) ?_ fun _ _ h' => h'
  exact fun st s' _ h' => h.trans h' (h.finishPump st s')

theorem onReadable_along (h : RespMoves R) (ih : RespAlong cfg R n)
    (ih' : ∀ m, n = m + 1 → RespAlong cfg R m) : Along R (onReadable cfg (n + 1)) := by
  simp only [onReadable]
  refine along_self_bind h.refl fun b s w hb => ?_
  simp only [wp_ite, wp_pure, wp_bind]
  refine ⟨fun _ => h.refl s, fun _ => ?_⟩
  refine wp_backendRead (h.refl s) ?_
  intro a w₁ res _ _
  have h₁ : R s (noteRead res (tick a.dt s)) := h.trans (h.tick _ s) (h.noteRead _ _)
  cases res with
  | data c =>
      simp only [wp_bind, wp_modify, wp_ite]
      have h₂ := h.trans h₁ (h.touchBackend _)
      refine ⟨fun _ => ?_, fun _ => ih.onReadable.after h.trans h₂ w₁⟩
      refine wp_mono ((ih.deliverToClient c.val c.property.1).after h.trans h₂ w₁) ?_
        fun _ _ h' => h'
      exact fun _ _ w' h' => ih.onReadable.after h.trans h' w'
  | eof =>
      simp only [wp_bind, wp_modify, wp_ite]
      refine ⟨fun hcl => ?_, fun _ => h.trans h₁ (h.requestCloseBackend _)⟩
      cases n with
      | zero => exact h.trans h₁ (h.detachClient _)
      | succ m =>
          refine wp_mono (finish_along h (ih' m rfl) hb hcl a.dt) ?_ fun _ _ h' => h'
          exact fun _ s' _ h' => h.trans h' (h.requestCloseBackend s')
  | again => exact h₁
  | intr => exact ih.onReadable.after h.trans h₁ w₁
  | error => exact (ih.fail _).after h.trans h₁ w₁

theorem deliverToClient_along (h : RespMoves R) (ih : RespAlong cfg R n) {data : Bytes}
    (hd : data ≠ []) : Along R (deliverToClient cfg (n + 1) data) := by
  simp only [deliverToClient]
  refine .get_bind fun s w => ?_
  simp only [wp_ite, wp_pure, wp_bind, wp_modify]
  refine ⟨fun _ => h.refl s, fun hopen => ?_⟩
  have hq := h.queue data s hd (by simpa using hopen)
  refine wp_mono (ih.pumpWrite (queueClient data s) w) ?_ fun _ _ h' => h.trans hq h'
  exact fun st s' _ h' => h.trans hq (h.deliver data s s' st h')

theorem fail_along (h : RespMoves R) (ih : RespAlong cfg R n) (why : Bytes) :
    Along R (fail cfg (n + 1) why) := by
  simp only [fail]
  refine along_self_bind h.refl fun b s w _ => ?_
  simp only [wp_bind, wp_ite, wp_modify]
  refine ⟨fun _ => ?_, fun _ => h.requestCloseBackend s⟩
  refine wp_mono ((ih.onBackendError why).after h.trans (h.detachClient s) w) ?_ fun _ _ h' => h'
  exact fun _ s' _ h' => h.trans h' (h.requestCloseBackend s')

theorem onBackendError_along (h : RespMoves R) (ih : RespAlong cfg R n) (why : Bytes) :
    Along R (onBackendError cfg (n + 1) why) := by
  simp only [onBackendError]
  refine .bind h.trans (.modify h.detachBackend) fun _ => .get_bind fun s w => ?_
  rw [wp_ite]
  exact ⟨fun _ => h.cutOff s, fun _ => ih.sendResponse _ _ s w⟩

theorem resp_along (h : RespMoves R) (cfg : Cfg) : ∀ n, RespAlong cfg R n := by
  -- the EOF branch looks two calls down, so the induction is a strong one
  intro n
  induction n using Nat.strongRecOn with
  | ind n ih =>
      cases n with
      | zero =>
          refine ⟨?_, ?_, ?_, fun _ _ => ?_, fun _ => ?_, fun _ => ?_, fun _ _ => ?_⟩ <;>
            exact .halt h.refl _
      | succ n =>
          have ih₁ := ih n (Nat.lt_succ_self n)
          refine ⟨pumpWrite_along h ih₁, ?_,
            onReadable_along h ih₁ fun m hm => ih m (by omega),
            fun _ hd => deliverToClient_along h ih₁ hd, fun why => fail_along h ih₁ why, ?_, ?_⟩
          · simp only [resumeReads]
            refine along_self_bind h.refl fun b s w _ => ?_
            simp only [wp_ite, wp_pure, wp_bind, wp_modify]
            exact ⟨fun _ => ih₁.onReadable.after h.trans (h.unpause s) w, fun _ => h.refl s⟩
          · exact fun why => onBackendError_along h ih₁ why
          · intro r headOnly
            simp only [sendResponse]
            refine .bind h.trans (.modify fun s =>
              h.beginResponse _ s (responseText_ne_nil _ _ _ _)) fun _ => ?_
            exact .bind h.trans ih₁.pumpWrite fun st => .modify (h.finishPump st)

end Moving

/-! ## Steps that only concern the event loop, the clock or the backend object -/

/-- The pair without clocks, counters, masks and the backend object; whether the client is
    registered stays. -/
def outline (s : Pair) : Pair :=
  { s with
    client.lastActivity := 0
    client.interest := ⟨true, false⟩
    client.readBlock := .ok
    client.writeBlock := .ok
    backend := none
    clientMask := s.clientMask.map fun _ => ⟨true, false⟩
    backendMask := none
    backendPending := false
    now := 0
    bytesIn := 0
    bytesOut := 0
    modResults := []
    hist.modFailed := false }

theorem outline_setInterest (ev : Mask) : outline (setInterest ev s) = outline s := by
  obtain ⟨mask, mods, failed, heq, hsome, -⟩ := setInterest_cases ev s
  rw [heq]
  have hmask : (mask.map fun _ => (⟨true, false⟩ : Mask))
      = s.clientMask.map fun _ => ⟨true, false⟩ := by
    cases mask <;> cases hm : s.clientMask <;> simp_all
  unfold outline
  simp only [hmask]

theorem outline_finishPump (st : IoStatus) : outline (finishPump st s) = outline s := by
  rw [finishPump]
  split
  · rfl
  · exact outline_setInterest _

theorem outline_applyInterest : outline (applyInterest s) = outline s := by
  obtain ⟨mask, mods, failed, heq, -, -⟩ := applyInterest_cases s
  rw [heq]
  rfl

theorem outline_pauseReads : outline (pauseReads s) = outline s := by
  rw [pauseReads]
  split
  · rfl
  · split
    · rfl
    · exact outline_applyInterest

/-- `pauseIfFull` leaves all but `backend_paused_` of the outline alone. -/
theorem outline_pauseIfFull :
    outline (pauseIfFull s) = { outline s with
      client.backendPaused := (pauseIfFull s).client.backendPaused } := by
  unfold pauseIfFull
  split
  · have := outline_pauseReads (s := s)
    unfold outline at this ⊢
    simp only [Pair.mk.injEq, HttpConnection.mk.injEq] at this ⊢
    simp_all
  · rfl

/-! ## The read side of the client -/

/-- What the response side leaves alone on the read side of the client, and in the record
    of `state_`. -/
structure Untouched (s s' : Pair) : Prop where
  dry : s'.hist.clientDry = s.hist.clientDry
  paused : s'.client.readPaused = s.client.readPaused
  eof : s'.client.clientEof = s.client.clientEof
  left : s'.client.bodyRemaining = s.client.bodyRemaining
  cut : s'.hist.lastCut = s.hist.lastCut
  reopened : s'.hist.reopened = s.hist.reopened
  closed : s.client.closed = true → s'.client.closed = true

namespace Untouched

theorem of_outline (h : outline s' = outline s) : Untouched s s' := by
  refine ⟨congrArg (·.hist.clientDry) h, congrArg (·.client.readPaused) h,
    congrArg (·.client.clientEof) h, congrArg (·.client.bodyRemaining) h,
    congrArg (·.hist.lastCut) h, congrArg (·.hist.reopened) h, fun hc => ?_⟩
  exact (congrArg (·.client.closed) h).trans hc

theorem refl (s : Pair) : Untouched s s := .of_outline rfl

theorem trans (h : Untouched s s') (h' : Untouched s' s'') : Untouched s s'' :=
  ⟨h'.dry.trans h.dry, h'.paused.trans h.paused, h'.eof.trans h.eof,
    h'.left.trans h.left, h'.cut.trans h.cut,
    h'.reopened.trans h.reopened, fun hc => h'.closed (h.closed hc)⟩

theorem closeBoth : Untouched s (closeBoth s) := by
  cases hc : s.client.closed with
  | true => rw [closeBoth_of_closed hc]; exact refl s
  | false => rw [closeBoth_of_open hc]; exact ⟨rfl, rfl, rfl, rfl, rfl, rfl, fun _ => rfl⟩

theorem closeIfClosing : Untouched s (closeIfClosing s) := by
  rw [CastlePlus.closeIfClosing]
  split
  · exact closeBoth
  · exact refl s

theorem pauseIfFull : Untouched s (pauseIfFull s) := by
  have h := outline_pauseIfFull (s := s)
  refine ⟨congrArg (·.hist.clientDry) h, congrArg (·.client.readPaused) h,
    congrArg (·.client.clientEof) h, congrArg (·.client.bodyRemaining) h,
    congrArg (·.hist.lastCut) h, congrArg (·.hist.reopened) h, fun hc => ?_⟩
  exact (congrArg (·.client.closed) h).trans hc

theorem releaseBackend : Untouched s (releaseBackend s) := ⟨rfl, rfl, rfl, rfl, rfl, rfl, id⟩

theorem cutOff : Untouched s (cutOff s) := by
  have hnote : Untouched s { s with
      hist.silenced := s.hist.silenced || s.hist.toClient.isEmpty } := ⟨rfl, rfl, rfl, rfl, rfl, rfl, id⟩
  exact hnote.trans closeBoth

theorem moves : RespMoves Untouched where
  refl := refl
  trans := trans
  tick _ _ := .of_outline rfl
  noteSend r _ := by cases r <;> exact ⟨rfl, rfl, rfl, rfl, rfl, rfl, id⟩
  acceptSent _ _ _ := ⟨rfl, rfl, rfl, rfl, rfl, rfl, id⟩
  hangUp _ _ := closeBoth
  drained _ _ := closeIfClosing
  resumed _ _ _ _ h := (releaseBackend.trans h).trans closeIfClosing
  release _ := releaseBackend
  unpause _ := .of_outline outline_applyInterest
  noteRead r _ := by cases r <;> exact ⟨rfl, rfl, rfl, rfl, rfl, rfl, id⟩
  touchBackend _ := .of_outline rfl
  queue _ _ _ _ := ⟨rfl, rfl, rfl, rfl, rfl, rfl, id⟩
  deliver _ _ _ st h := by
    refine trans (trans h ?_) (.of_outline (outline_finishPump st))
    split
    · exact refl _
    · exact pauseIfFull
  finishPump st _ := .of_outline (outline_finishPump st)
  finish _ _ _ _ _ := ⟨rfl, rfl, rfl, rfl, rfl, rfl, id⟩
  detachClient _ := .of_outline rfl
  detachBackend _ := ⟨rfl, rfl, rfl, rfl, rfl, rfl, id⟩
  requestCloseBackend _ := .of_outline rfl
  cutOff _ := cutOff
  beginResponse _ _ _ := ⟨rfl, rfl, rfl, rfl, rfl, rfl, id⟩

end Untouched

end CastlePlus
