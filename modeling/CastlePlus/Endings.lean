import CastlePlus.ResponseMoves
import CastlePlus.Delivery

/-! # How a connection ends

    `close_both` is called from eight places.  `Ends` is the invariant that explains each
    of them to the client:

    * a reply that was begun has bytes, sent or waiting (`heard`);
    * `Closing` is entered with a reply begun, unless the backend left without a byte
      (`worded`);
    * a closed connection has handed its client something, unless the client's side failed
      or gave up, or the upstream's loss left nothing to hand (`spoken`).

    `Swept` says that a closed connection is in `pending_close_` as long as it is
    registered.  **`Onward`** is the preorder of both, and every piece of the pair's code
    goes along it. -/

namespace CastlePlus

open ScriptProg

variable {cfg : Cfg} {s s' s'' : Pair} {w : List Answer} {n : Nat}

/-- Neither the client's side nor the loss of the upstream excuses a silent close. -/
def Audible (s : Pair) : Prop :=
  s.hist.silenced = false ∧ s.hist.clientFailed = false ∧ s.hist.aborted = false ∧
    s.hist.routed ≠ none

structure Ends (s : Pair) : Prop where
  heard : s.client.responded = true → s.hist.toClient ≠ [] ∨ s.client.outBuf ≠ []
  worded : s.client.state = .closing → s.client.responded = true ∨ s.hist.silenced = true
  paused : s.client.backendPaused = true → s.client.responded = true
  spoken : Audible s → s.client.closed = true → s.hist.toClient ≠ []

/-- A closed connection that is still registered is in `pending_close_`. -/
def Swept (s : Pair) : Prop :=
  s.client.closed = true → s.clientMask.isSome = true → s.clientPending = true

/-- What every step of the code keeps on the way to the end of the connection. -/
structure Onward (s s' : Pair) : Prop where
  ends : Ends s → Ends s'
  swept : Swept s → Swept s'
  heard : s.hist.toClient ≠ [] → s'.hist.toClient ≠ []
  responded : s.client.responded = true → s'.client.responded = true
  registered : s'.clientMask.isSome = s.clientMask.isSome

/-- The fields `Onward` speaks of. -/
def endView (s : Pair) :=
  (s.client.responded, s.client.outBuf, s.client.state, s.client.backendPaused,
    s.client.closed, s.clientMask.isSome, s.clientPending, s.hist.toClient, s.hist.silenced,
    s.hist.clientFailed, s.hist.aborted, s.hist.routed)

namespace Onward

theorem of_view (h : endView s' = endView s) : Onward s s' := by
  simp only [endView, Prod.mk.injEq] at h
  obtain ⟨h1, h2, h3, h4, h5, h6, h7, h8, h9, h10, h11, h12⟩ := h
  refine ⟨fun he => ⟨?_, ?_, ?_, ?_⟩, ?_, ?_, ?_, h6⟩
  · rw [h1, h8, h2]; exact he.heard
  · rw [h3, h1, h9]; exact he.worded
  · rw [h4, h1]; exact he.paused
  · rw [Audible, h9, h10, h11, h12, h5, h8]; exact he.spoken
  · rw [Swept, Swept, h5, h6, h7]; exact id
  · rw [h8]; exact id
  · rw [h1]; exact id

theorem refl (s : Pair) : Onward s s := of_view rfl

theorem trans (h : Onward s s') (h' : Onward s' s'') : Onward s s'' :=
  ⟨fun he => h'.ends (h.ends he), fun hs => h'.swept (h.swept hs),
    fun ht => h'.heard (h.heard ht), fun hr => h'.responded (h.responded hr),
    h'.registered.trans h.registered⟩

theorem of_outline (h : outline s' = outline s) : Onward s s' := by
  have hsome : ∀ t : Pair, (outline t).clientMask.isSome = t.clientMask.isSome :=
    fun t => Option.isSome_map
  have hview : ∀ t : Pair, endView (outline t) = endView t := by
    intro t
    rw [endView]
    rw [hsome]
    rfl
  exact of_view (by rw [← hview, h, hview])

/-! ## Closing -/

theorem swept_closeBoth (hs : Swept s) : Swept (closeBoth s) := by
  cases hc : s.client.closed with
  | true => rw [closeBoth_of_closed hc]; exact hs
  | false => rw [closeBoth_of_open hc]; exact fun _ _ => rfl

theorem clientMask_closeBoth : (CastlePlus.closeBoth s).clientMask = s.clientMask := by
  cases hc : s.client.closed with
  | true => rw [closeBoth_of_closed hc]
  | false => rw [closeBoth_of_open hc]

/-- `close_both` with something handed over, or an excuse. -/
theorem closeBoth (h : Ends s → Audible s → s.hist.toClient ≠ []) : Onward s (closeBoth s) := by
  refine ⟨fun he => ?_, swept_closeBoth, ?_, ?_, ?_⟩
  · cases hc : s.client.closed with
    | true => rw [closeBoth_of_closed hc]; exact he
    | false =>
        rw [closeBoth_of_open hc]
        exact ⟨he.heard, he.worded, he.paused, fun ha _ => h he ha⟩
  · rw [hist_closeBoth]; exact id
  · cases hc : s.client.closed with
    | true => rw [closeBoth_of_closed hc]; exact id
    | false => rw [closeBoth_of_open hc]; exact id
  · rw [clientMask_closeBoth]

/-- The client's side has failed or given up. -/
theorem not_audible (h : s.hist.clientFailed = true ∨ s.hist.aborted = true) : ¬ Audible s := by
  rintro ⟨-, hf, ha, -⟩
  rcases h with h | h
  · rw [hf] at h; cases h
  · rw [ha] at h; cases h

theorem hangUp (h : s.hist.clientFailed = true ∨ s.hist.aborted = true) :
    Onward s (CastlePlus.closeBoth s) :=
  closeBoth fun _ ha => absurd ha (not_audible h)

/-- The end of a drained `pump_write`: whatever was begun has been sent. -/
theorem closeIfClosing (h : Ends s → s.client.responded = true → s.hist.toClient ≠ []) :
    Onward s (closeIfClosing s) := by
  rw [CastlePlus.closeIfClosing]
  split
  · rename_i hst
    refine closeBoth fun he ha => ?_
    rcases he.worded hst with hr | hsil
    · exact h he hr
    · rw [ha.1] at hsil
      cases hsil
  · exact refl s

theorem drained (hout : s.client.outBuf = []) : Onward s (CastlePlus.closeIfClosing s) := by
  refine closeIfClosing fun he hr => ?_
  rcases he.heard hr with ht | ho
  · exact ht
  · exact absurd hout ho

theorem releaseBackend : Onward s (releaseBackend s) :=
  ⟨fun he => ⟨he.heard, he.worded, (by rintro ⟨⟩), he.spoken⟩, id, id, id, rfl⟩

/-- The same when the drain has let the backend read on: what is in `out_` now is not the
    first the client gets. -/
theorem resumed (hout : s.client.outBuf = []) (hp : s.client.backendPaused = true)
    (h : Onward (CastlePlus.releaseBackend s) s') : Onward s (CastlePlus.closeIfClosing s') := by
  have h₁ : Onward s s' := releaseBackend.trans h
  refine ⟨fun he => ?_, fun hs => ?_, fun ht => ?_, fun hr => ?_, ?_⟩
  · have ht : s'.hist.toClient ≠ [] := by
      rcases he.heard (he.paused hp) with ht | ho
      · exact h₁.heard ht
      · exact absurd hout ho
    exact (closeIfClosing fun _ _ => ht).ends (h₁.ends he)
  · rw [CastlePlus.closeIfClosing]
    split
    · exact swept_closeBoth (h₁.swept hs)
    · exact h₁.swept hs
  · rw [CastlePlus.closeIfClosing]
    split
    · rw [hist_closeBoth]; exact h₁.heard ht
    · exact h₁.heard ht
  · have hkeep : (CastlePlus.closeIfClosing s').client.responded = s'.client.responded := by
      rw [CastlePlus.closeIfClosing]
      split
      · cases hc : s'.client.closed with
        | true => rw [closeBoth_of_closed hc]
        | false => rw [closeBoth_of_open hc]
      · rfl
    rw [hkeep]
    exact h₁.responded hr
  · have hkeep : (CastlePlus.closeIfClosing s').clientMask = s'.clientMask := by
      rw [CastlePlus.closeIfClosing]
      split
      · exact clientMask_closeBoth
      · rfl
    rw [hkeep]
    exact h₁.registered

/-! ## The other steps of the response side -/

theorem acceptSent (k : Count) (hout : s.client.outBuf ≠ []) : Onward s (acceptSent k s) := by
  have hsent : (CastlePlus.acceptSent k s).hist.toClient ≠ [] := by
    have hlen := List.length_pos_iff.mpr hout
    have hk := k.property
    have hpos : 0 < min k.val s.client.outBuf.length := by omega
    have htake : s.client.outBuf.take (min k.val s.client.outBuf.length) ≠ [] := by
      rw [ne_eq, List.take_eq_nil_iff]
      exact fun h => h.elim (by omega) hout
    exact List.append_ne_nil_of_right_ne_nil _ htake
  exact ⟨fun he => ⟨fun _ => .inl hsent, he.worded, he.paused, fun _ _ => hsent⟩, id,
    fun _ => hsent, id, rfl⟩

theorem noteSend (r : Io Count) : Onward s (noteSend r s) := by
  cases r with
  | closed =>
      exact ⟨fun he => ⟨he.heard, he.worded, he.paused, fun ha =>
        absurd ha (not_audible (.inl rfl))⟩, id, id, id, rfl⟩
  | error =>
      exact ⟨fun he => ⟨he.heard, he.worded, he.paused, fun ha =>
        absurd ha (not_audible (.inl rfl))⟩, id, id, id, rfl⟩
  | ok => exact refl s
  | wouldBlockRead => exact refl s
  | wouldBlockWrite => exact refl s

/-- More silence excuses more. -/
theorem silence (b : Bool) :
    Onward s { s with hist.silenced := s.hist.silenced || b } := by
  refine ⟨fun he => ⟨he.heard, fun hst => ?_, he.paused, fun ha => ?_⟩, id, id, id, rfl⟩
  · rcases he.worded hst with hr | hsil
    · exact .inl hr
    · exact .inr (by simp [hsil])
  · exact he.spoken ⟨(Bool.or_eq_false_iff.mp ha.1).1, ha.2⟩

theorem noteRead (r : ReadResult) : Onward s (noteRead r s) := by
  cases r with
  | data c => exact of_view rfl
  | eof => exact (silence (unanswered s)).trans (of_view rfl)
  | again => exact of_view rfl
  | intr => exact of_view rfl
  | error => exact of_view rfl

theorem queueClient {d : Bytes} (hd : d ≠ []) : Onward s (queueClient d s) := by
  have hout : (CastlePlus.queueClient d s).client.outBuf ≠ [] :=
    List.append_ne_nil_of_right_ne_nil _ hd
  exact ⟨fun he => ⟨fun _ => .inr hout, fun _ => .inl rfl, fun _ => rfl, he.spoken⟩, id, id,
    fun _ => rfl, rfl⟩

theorem pauseIfFull (hr : s.client.responded = true) : Onward s (pauseIfFull s) := by
  have hnote : Onward s { s with
      client.backendPaused := (CastlePlus.pauseIfFull s).client.backendPaused } :=
    ⟨fun he => ⟨he.heard, he.worded, fun _ => hr, he.spoken⟩, id, id, id, rfl⟩
  exact hnote.trans (of_outline outline_pauseIfFull)

/-- `on_backend_closed` up to its `pump_write`. -/
theorem finish {b : BackendConnection} (hb : s.backend = some b) (hcl : b.hasClient = true)
    (dt : Nat) : Onward s (setState .closing (detachBackend (detachClient
      (CastlePlus.noteRead .eof (tick dt s))))) := by
  have htick : Onward s (tick dt s) := of_outline rfl
  have h₁ : Onward s (CastlePlus.noteRead .eof (tick dt s)) := htick.trans (noteRead .eof)
  refine ⟨fun he => ?_, h₁.swept, h₁.heard, h₁.responded, h₁.registered⟩
  have he' := h₁.ends he
  refine ⟨he'.heard, fun _ => ?_, he'.paused, he'.spoken⟩
  cases hr : s.client.responded with
  | true => exact .inl hr
  | false =>
      refine .inr ?_
      show (s.hist.silenced || unanswered (tick dt s)) = true
      simp [unanswered, tick, hb, hcl, hr]

theorem cutOff : Onward s (cutOff s) := by
  refine (silence s.hist.toClient.isEmpty).trans (closeBoth fun _ ha => ?_)
  simpa using (Bool.or_eq_false_iff.mp ha.1).2

theorem beginResponse {text : Bytes} (ht : text ≠ []) : Onward s (beginResponse text s) :=
  ⟨fun he => ⟨fun _ => .inr ht, fun _ => .inl rfl, fun _ => rfl, he.spoken⟩, id, id,
    fun _ => rfl, rfl⟩

theorem moves : RespMoves Onward where
  refl := refl
  trans := trans
  tick _ _ := of_outline rfl
  noteSend r _ := noteSend r
  acceptSent k _ hout := acceptSent k hout
  hangUp _ hf := hangUp (.inl hf)
  drained _ hout := drained hout
  resumed _ _ hout hp h := resumed hout hp h
  release _ := releaseBackend
  unpause _ := of_outline outline_applyInterest
  noteRead r _ := noteRead r
  touchBackend _ := of_outline rfl
  queue _ _ hd _ := queueClient hd
  deliver _ _ _ st h := by
    refine trans (trans h ?_) (of_outline (outline_finishPump st))
    split
    · exact refl _
    · exact pauseIfFull (h.responded rfl)
  finishPump st _ := of_outline (outline_finishPump st)
  finish dt _ _ hb hcl := finish hb hcl dt
  detachClient _ := of_outline rfl
  detachBackend _ := of_view rfl
  requestCloseBackend _ := of_outline rfl
  cutOff _ := cutOff
  beginResponse _ _ ht := beginResponse ht

/-! ## The steps of the request side -/

theorem noteHandshake (r : Io Unit) : Onward s (noteHandshake r s) := by
  cases r with
  | closed =>
      exact ⟨fun he => ⟨he.heard, he.worded, he.paused, fun ha =>
        absurd ha (not_audible (.inl rfl))⟩, id, id, id, rfl⟩
  | error =>
      exact ⟨fun he => ⟨he.heard, he.worded, he.paused, fun ha =>
        absurd ha (not_audible (.inl rfl))⟩, id, id, id, rfl⟩
  | ok => exact of_view rfl
  | wouldBlockRead => exact of_view rfl
  | wouldBlockWrite => exact of_view rfl

theorem noteRecv (r : Io Chunk) : Onward s (noteRecv r s) := by
  cases r with
  | closed =>
      simp only [CastlePlus.noteRecv]
      split
      · exact of_view rfl
      · exact ⟨fun he => ⟨he.heard, he.worded, he.paused, fun ha =>
          absurd ha (not_audible (.inr rfl))⟩, id, id, id, rfl⟩
  | error =>
      exact ⟨fun he => ⟨he.heard, he.worded, he.paused, fun ha =>
        absurd ha (not_audible (.inl rfl))⟩, id, id, id, rfl⟩
  | ok => exact of_view rfl
  | wouldBlockRead => exact of_view rfl
  | wouldBlockWrite => exact of_view rfl

theorem noteWrite (r : WriteResult) : Onward s (noteWrite r s) := by
  cases r <;> exact of_view rfl

theorem noteConnect (ok : Bool) : Onward s (noteConnect ok s) := by
  cases ok <;> exact of_view rfl

theorem noteWritten (d : Bytes) : Onward s (noteWritten d s) := of_view rfl

theorem finishHandshake : Onward s (finishHandshake s) := of_view rfl

theorem countRecv (k : Nat) : Onward s (countRecv k s) := of_view rfl

theorem setClientEof : Onward s (setClientEof s) := of_view rfl

theorem setReadPaused (b : Bool) : Onward s (setReadPaused b s) := of_view rfl

theorem appendIn (d : Bytes) : Onward s (appendIn d s) := of_view rfl

theorem clearIn : Onward s (clearIn s) := of_view rfl

theorem setHeadLen (k : Nat) : Onward s (setHeadLen k s) := of_view rfl

theorem spendBody (k : Nat) : Onward s (spendBody k s) := of_view rfl

theorem openBackend : Onward s (openBackend s) := of_view rfl

/-- Any value but `Closing`. -/
theorem setState {st : State} (hst : st ≠ .closing) : Onward s (setState st s) :=
  ⟨fun he => ⟨he.heard, fun h => absurd h hst, he.paused, he.spoken⟩, id, id, id, rfl⟩

/-- A head is accepted on an open connection. -/
theorem acceptHead (hopen : s.client.closed = false) (head : Bytes) (target : Backend)
    (len : Nat) : Onward s (acceptHead head target len s) := by
  refine ⟨fun he => ⟨he.heard, he.worded, he.paused, fun _ hc => ?_⟩, id, id, id, rfl⟩
  rw [show (CastlePlus.acceptHead head target len s).client.closed = s.client.closed from rfl,
    hopen] at hc
  cases hc

theorem finishAdd (added : Bool) : Onward s (finishAdd added s) := by
  cases added with
  | true => exact of_view rfl
  | false =>
      rw [CastlePlus.finishAdd, destroyBackend]
      rw [if_neg (by simp)]
      split
      · exact refl s
      · split <;> exact of_view rfl

end Onward

/-! ## The request side -/

/-- What is stated of every program below. -/
abbrev GoesOn {α : Type} (p : M α) (s : Pair) (w : List Answer) : Prop :=
  wp p (fun _ s' _ => Onward s s') (fun _ s' => Onward s s') s w

/-- The functions of the request side; those that parse run on an open connection. -/
structure ReqOnward (cfg : Cfg) (n : Nat) : Prop where
  drive : Along Onward (drive cfg n)
  drivePumps : ∀ s w, s.client.closed = false → GoesOn (drivePumps cfg n) s w
  pumpRead : ∀ s w, s.client.closed = false → GoesOn (pumpRead cfg n) s w
  handleClientBytes : ∀ data s w, s.client.closed = false →
    GoesOn (handleClientBytes cfg n data) s w
  processHead : ∀ s w, s.client.closed = false → GoesOn (processHead cfg n) s w
  beginUpload : Along Onward (beginUpload cfg n)
  startBackend : Along Onward (startBackend cfg n)
  forwardBody : ∀ data, Along Onward (forwardBody cfg n data)
  send : ∀ data, Along Onward (send cfg n data)
  flush : Along Onward (flush cfg n)
  onBackendDrained : Along Onward (onBackendDrained cfg n)

section Requests

variable {R : Pair → Pair → Prop}

/-- Go on in a program that takes a precondition. -/
theorem GoesOn.after {α : Type} {p : M α} {s₀ : Pair} (h : GoesOn p s w) (h₀ : Onward s₀ s) :
    wp p (fun _ s' _ => Onward s₀ s') (fun _ s' => Onward s₀ s') s w :=
  wp_mono h (fun _ _ _ h' => h₀.trans h') fun _ _ h' => h₀.trans h'

theorem flushLoop_onward : ∀ n off, Along Onward (flushLoop n off) := by
  intro n
  induction n with
  | zero => exact fun _ => .halt .refl _
  | succ n ih =>
      intro off
      simp only [flushLoop]
      refine along_self_bind .refl fun b s w _ => ?_
      simp only [wp_ite, wp_pure, wp_bind]
      refine ⟨fun _ => ?_, fun _ => .refl s⟩
      refine wp_backendWrite (.refl s) ?_
      intro a w₁ res _ _
      have htick : Onward s (tick a.dt s) := .of_outline rfl
      have h₁ : Onward s (noteWrite res (tick a.dt s)) := htick.trans (.noteWrite res)
      cases res with
      | wrote k =>
          simp only [wp_bind, wp_modify]
          exact (ih _).after .trans (h₁.trans (.noteWritten _)) w₁
      | again => exact h₁
      | intr => exact (ih off).after .trans h₁ w₁
      | error => exact h₁

theorem renderHealth_onward : ∀ routes probed acc,
    Along Onward (renderHealth routes probed acc) := by
  intro routes
  induction routes with
  | nil => exact fun _ _ => .pure .refl _
  | cons r rest ih =>
      intro probed acc
      simp only [renderHealth]
      refine .ite (ih _ _) (.bind .trans ?_ fun up => ih _ _)
      exact along_sysCall Onward.moves fun _ _ => .refl _

theorem sendResponse_onward (n : Nat) (r : Reply) (headOnly : Bool) :
    Along Onward (sendResponse cfg n r headOnly) :=
  (resp_along Onward.moves cfg n).sendResponse r headOnly

theorem handleInternal_onward (n : Nat) (method path : Bytes) :
    Along Onward (handleInternal cfg n method path) := by
  have hreply : ∀ r headOnly, Along Onward (sendResponse cfg n r headOnly) :=
    sendResponse_onward n
  rw [handleInternal]
  refine .ite (hreply _ _) (.ite ?_ (.ite ?_ (hreply _ _)))
  · refine .bind .trans (renderHealth_onward _ _ _) fun x => ?_
    exact .ite (hreply _ _) (hreply _ _)
  · refine .bind .trans ?_ fun _ => hreply _ _
    exact along_sysCall Onward.moves fun _ _ => .refl _

theorem endForward_onward : Along Onward endForward := by
  refine .get_bind fun s w => ?_
  simp only [wp_ite, wp_modify, wp_bind, wp_pure]
  refine ⟨fun _ => .setState (by rintro ⟨⟩), fun _ => ?_⟩
  have hpending : Along Onward pendingBytes :=
    .bind .trans (along_self .refl) fun _ => .pure .refl _
  refine wp_mono (along_viaBackend .refl hpending s w) ?_ fun _ _ h => h
  exact fun _ s' _ h => ⟨fun _ => h.trans (.setReadPaused true), fun _ => h⟩

theorem pumpRead_onward (ih : ReqOnward cfg n) (hopen : s.client.closed = false) :
    GoesOn (pumpRead cfg (n + 1)) s w := by
  simp only [GoesOn, pumpRead, wp_bind, wp_get, wp_ite, wp_pure]
  refine ⟨fun _ => .refl s, fun _ => ?_⟩
  refine wp_transportRecv (.refl s) ?_
  intro a w₁ res _ _ _
  have htick : Onward s (tick a.dt s) := .of_outline rfl
  have h₁ : Onward s (noteRecv res (tick a.dt s)) := htick.trans (.noteRecv res)
  cases res with
  | ok c =>
      simp only [wp_bind, wp_modify, wp_get, wp_ite, wp_pure]
      have hopen₁ : (countRecv c.val.length (noteRecv (.ok c) (tick a.dt s))).client.closed
          = false := hopen
      refine wp_mono ((ih.handleClientBytes c.val _ w₁ hopen₁).after (h₁.trans (.countRecv _))) ?_
        fun _ _ h => h
      refine fun _ s₂ w₂ h₂ => ⟨fun _ => h₂, fun hopen₂ => ?_⟩
      exact (ih.pumpRead s₂ w₂ (by simpa using hopen₂)).after h₂
  | closed =>
      simp only [wp_bind, wp_modify, wp_get, wp_ite, wp_pure, client_noteRecv]
      refine ⟨fun _ => h₁.trans .setClientEof, fun hst => h₁.trans (.hangUp (.inr ?_))⟩
      simp only [noteRecv]
      rw [if_neg hst]
  | error =>
      simp only [wp_bind, wp_modify, wp_pure]
      exact h₁.trans (.hangUp (.inl rfl))
  | wouldBlockRead => exact h₁
  | wouldBlockWrite => exact h₁

theorem processHead_onward (ih : ReqOnward cfg n) (hopen : s.client.closed = false) :
    GoesOn (processHead cfg (n + 1)) s w := by
  simp only [GoesOn, processHead, wp_bind, wp_get]
  split
  · rw [wp_ite, wp_pure]
    exact ⟨fun _ => sendResponse_onward _ _ _ s w, fun _ => .refl s⟩
  · exact sendResponse_onward _ _ _ s w
  · rename_i req rest _
    simp only [wp_bind, wp_modify]
    have h₁ : Onward s (setHeadLen (s.client.inBuf.length - rest.length) s) := .setHeadLen _
    have hopen₁ : (setHeadLen (s.client.inBuf.length - rest.length) s).client.closed = false := hopen
    split
    · exact (handleInternal_onward n _ _).after .trans h₁ w
    · exact (sendResponse_onward _ _ _).after .trans h₁ w
    · exact h₁
    · simp only [wp_bind, wp_modify]
      exact ih.beginUpload.after .trans (h₁.trans (.acceptHead hopen₁ _ _ _)) w

theorem beginUpload_onward (ih : ReqOnward cfg n) : Along Onward (beginUpload cfg (n + 1)) := by
  simp only [beginUpload]
  refine .bind .trans ih.startBackend fun _ => .get_bind fun s w => ?_
  simp only [wp_ite, wp_pure, wp_bind, wp_modify]
  have hst : Onward s (setState .streaming s) ∧ Onward s (setState .streamingUp s) :=
    ⟨.setState (by decide), .setState (by decide)⟩
  refine ⟨fun _ => .refl s, fun _ => ⟨fun _ => ?_, fun _ => ⟨fun _ => ?_, fun _ => ?_⟩⟩⟩
  · exact hst.1.trans .clearIn
  · refine wp_mono ((ih.forwardBody _).after .trans hst.2 w) ?_ fun _ _ h => h
    exact fun _ _ _ h => h.trans .clearIn
  · exact hst.2.trans .clearIn

theorem startBackend_onward (ih : ReqOnward cfg n) :
    Along Onward (startBackend cfg (n + 1)) := by
  have hcall : ∀ {α : Type} {take : SysResult → Option α}, Along Onward (sysCall take noNote) :=
    along_sysCall Onward.moves fun _ _ => .refl _
  simp only [startBackend]
  refine .bind .trans hcall fun sock => .get_bind fun s w => ?_
  have hadd : Along Onward (epollAdd >>= fun added => modify (finishAdd added)) := by
    refine .bind .trans ?_ fun added => .modify fun _ => .finishAdd added
    exact along_sysCall Onward.moves fun ok _ => .noteConnect ok
  have hopen : ∀ head, Along Onward (modify openBackend >>= fun _ =>
      viaBackend (send cfg n head) >>= fun _ => epollAdd >>= fun added =>
        modify (finishAdd added)) := fun head =>
    .bind .trans (.modify fun _ => .openBackend) fun _ =>
      .bind .trans (along_viaBackend .refl (ih.send head)) fun _ => hadd
  rw [wp_ite, wp_ite]
  refine ⟨fun _ => sendResponse_onward _ _ _ s w, fun _ =>
    ⟨fun _ => sendResponse_onward _ _ _ s w, fun _ => ?_⟩⟩
  refine Along.bind .trans hcall (fun connecting => ?_) s w
  exact .ite (sendResponse_onward _ _ _) (hopen _)

theorem forwardBody_onward (ih : ReqOnward cfg n) (data : Bytes) :
    Along Onward (forwardBody cfg (n + 1) data) := by
  simp only [forwardBody]
  refine .get_bind fun s w => ?_
  simp only [wp_ite, wp_pure, wp_bind, wp_modify]
  refine ⟨fun _ => .refl s, fun _ => ⟨fun _ => ?_, fun _ => endForward_onward s w⟩⟩
  refine wp_mono (along_viaBackend .refl (ih.send _) s w) ?_ fun _ _ h => h
  exact fun _ s' w' h => endForward_onward.after .trans (h.trans (.spendBody _)) w'

theorem flush_onward (ih : ReqOnward cfg n) : Along Onward (flush cfg (n + 1)) := by
  simp only [flush]
  refine .bind .trans (flushLoop_onward n 0) fun r => ?_
  cases r with
  | none => exact (resp_along Onward.moves cfg n).fail _
  | some off =>
      have hend : ∀ t, Onward t (applyInterest t) := fun _ => .of_outline outline_applyInterest
      refine .bind .trans (.modify fun _ => .of_outline rfl) fun _ => ?_
      refine along_self_bind .refl fun b s w _ => ?_
      simp only [wp_ite, wp_bind, wp_modify]
      have hclear : Onward s (clearHighWater s) := .of_outline rfl
      refine ⟨fun _ => ⟨fun _ => ?_, fun _ => hclear.trans (hend _)⟩, fun _ => hend s⟩
      refine wp_mono (ih.onBackendDrained.after .trans hclear w) ?_ fun _ _ h => h
      exact fun _ s' _ h => h.trans (hend s')

theorem drive_onward (ih : ReqOnward cfg n) : Along Onward (drive cfg (n + 1)) := by
  simp only [drive]
  refine .get_bind fun s w => ?_
  simp only [wp_ite, wp_pure, wp_bind]
  refine ⟨fun _ => .refl s, fun hopen => ?_⟩
  have hopen' : s.client.closed = false := by simpa using hopen
  refine ⟨fun _ => ih.drivePumps s w hopen', fun _ => ?_⟩
  refine wp_transportHandshake (.refl s) ?_
  intro a w₁ res _ _ _
  have htick : Onward s (tick a.dt s) := .of_outline rfl
  have h₁ : Onward s (noteHandshake res (tick a.dt s)) := htick.trans (.noteHandshake res)
  cases res with
  | ok u =>
      simp only [wp_bind, wp_modify]
      have hopen₁ : (finishHandshake (noteHandshake (.ok u) (tick a.dt s))).client.closed
          = false := hopen'
      exact (ih.drivePumps _ w₁ hopen₁).after (h₁.trans .finishHandshake)
  | wouldBlockRead => exact h₁.trans (.of_outline (outline_setInterest _))
  | wouldBlockWrite => exact h₁.trans (.of_outline (outline_setInterest _))
  | closed => exact h₁.trans (.hangUp (.inl rfl))
  | error => exact h₁.trans (.hangUp (.inl rfl))

theorem drivePumps_onward (ih : ReqOnward cfg n) (hopen : s.client.closed = false) :
    GoesOn (drivePumps cfg (n + 1)) s w := by
  simp only [GoesOn, drivePumps, wp_bind, wp_modify, wp_get, wp_ite, wp_pure]
  refine wp_mono (ih.pumpRead s w hopen) ?_ fun _ _ h => h
  intro st s₁ w₁ h₁
  have h₂ : Onward s (setReadBlock st s₁) := h₁.trans (.of_outline rfl)
  refine ⟨fun _ => h₂, fun _ => ?_⟩
  refine wp_mono ((resp_along Onward.moves cfg n).pumpWrite.after .trans h₂ w₁) ?_ fun _ _ h => h
  exact fun st _ _ h => h.trans (.of_outline (outline_finishPump st))

theorem req_onward (cfg : Cfg) : ∀ n, ReqOnward cfg n := by
  intro n
  induction n with
  | zero =>
      refine ⟨.halt .refl _, fun s _ _ => .refl s, fun s _ _ => .refl s, fun _ s _ _ => .refl s,
        fun s _ _ => .refl s, .halt .refl _, .halt .refl _, fun _ => .halt .refl _,
        fun _ => .halt .refl _, .halt .refl _, .halt .refl _⟩
  | succ n ih =>
      refine ⟨drive_onward ih, fun _ _ h => drivePumps_onward ih h,
        fun _ _ h => pumpRead_onward ih h, ?_, fun _ _ h => processHead_onward ih h,
        beginUpload_onward ih, startBackend_onward ih, forwardBody_onward ih, ?_,
        flush_onward ih, ?_⟩
      · intro data s w hopen
        simp only [GoesOn, handleClientBytes, wp_bind, wp_get]
        cases hst : s.client.state with
        | readingHead =>
            simp only [wp_bind, wp_modify]
            have hopen₁ : (appendIn data s).client.closed = false := hopen
            exact (ih.processHead _ w hopen₁).after (.appendIn data)
        | streamingUp => exact ih.forwardBody data s w
        | streaming => exact .refl s
        | closing => exact .refl s
      · intro data
        simp only [send]
        refine .bind .trans (.modify fun _ => .of_outline rfl) fun _ => ?_
        exact .bind .trans (along_self .refl) fun b => .ite ih.flush (.pure .refl _)
      · simp only [onBackendDrained]
        refine .get_bind fun s w => ?_
        simp only [wp_ite, wp_pure, wp_bind, wp_modify]
        exact ⟨fun _ => .refl s, fun _ => ih.drive.after .trans (.setReadPaused false) w⟩

end Requests

theorem onWritable_onward (n : Nat) : Along Onward (onWritable cfg n) := by
  simp only [onWritable]
  refine along_self_bind .refl fun b s w _ => ?_
  rw [wp_ite, wp_bind]
  refine ⟨fun _ => (req_onward cfg n).flush s w, fun _ => ?_⟩
  refine wp_soError (.refl s) ?_
  intro a w₁ ok _ _
  have htick : Onward s (tick a.dt s) := .of_outline rfl
  have h₁ : Onward s (noteConnect ok (tick a.dt s)) := htick.trans (.noteConnect ok)
  simp only [wp_ite, wp_bind, wp_modify]
  have hconn : ∀ t, Onward t (finishConnect t) := fun _ => .of_outline rfl
  exact ⟨fun _ => (req_onward cfg n).flush.after .trans (h₁.trans (hconn _)) w₁,
    fun _ => ((resp_along Onward.moves cfg n).fail _).after .trans h₁ w₁⟩

/-! ## Callbacks -/

theorem swept_processPendingClose (h : Core cfg s) (hs : Swept s) (backendFirst : Bool) :
    Swept (processPendingClose backendFirst s) := by
  rw [processPendingClose_eq h]
  intro hc hm
  have hm' : (if s.clientPending then none else s.clientMask).isSome = true := hm
  cases hp : s.clientPending with
  | true =>
      rw [hp] at hm'
      cases hm'
  | false =>
      rw [hp] at hm'
      exact absurd ((hs hc hm').symm.trans hp) (by simp)

/-- Every callback leaves a closed connection in `pending_close_`. -/
theorem callback_swept (h : PairInv cfg s) (hs : Swept s) (cb : Callback) :
    wp (callback cfg n cb) (fun _ s' _ => Swept s') (fun _ s' => Swept s') s w := by
  have hgo : ∀ {p : M Unit}, Along Onward p →
      wp p (fun _ s' _ => Swept s') (fun _ s' => Swept s') s w := fun hp =>
    wp_mono (hp s w) (fun _ _ _ h' => h'.swept hs) fun _ _ h' => h'.swept hs
  have hresp := resp_along Onward.moves cfg n
  cases cb with
  | clientReadable => exact hgo (req_onward cfg n).drive
  | clientWritable => exact hgo (req_onward cfg n).drive
  | clientError => exact Onward.swept_closeBoth hs
  | clientTimeout now =>
      simp only [callback, wp_modify]
      split
      · exact Onward.swept_closeBoth hs
      · exact hs
  | backendReadable => exact hgo hresp.onReadable
  | backendWritable => exact hgo (onWritable_onward n)
  | backendError => exact hgo (hresp.fail _)
  | backendTimeout now =>
      refine hgo (along_self_bind .refl fun b s w _ => ?_)
      rw [wp_ite]
      exact ⟨fun _ => hresp.fail _ s w, fun _ => .refl s⟩
  | processPendingClose backendFirst =>
      exact swept_processPendingClose h.settled.steady.toCore hs backendFirst

/-- No error event is raised on the client's fd, and its idle timer does not fire on a routed
    request before a byte has been handed over. -/
def answering (cfg : Cfg) (s : Pair) (cb : Callback) (_ : List Answer) : Bool :=
  enabled s cb &&
    match cb with
    | .clientError => false
    | .clientTimeout now =>
        !(idleExpired cfg now s.client.lastActivity && s.hist.routed.isSome &&
          s.hist.toClient.isEmpty)
    | _ => true

theorem callback_ends (h : PairInv cfg s) (he : Ends s) {cb : Callback}
    (hok : answering cfg s cb w = true) :
    wp (callback cfg n cb) (fun _ s' _ => Ends s') (fun _ s' => Ends s') s w := by
  have hgo : ∀ {p : M Unit}, Along Onward p →
      wp p (fun _ s' _ => Ends s') (fun _ s' => Ends s') s w := fun hp =>
    wp_mono (hp s w) (fun _ _ _ h' => h'.ends he) fun _ _ h' => h'.ends he
  have hresp := resp_along Onward.moves cfg n
  obtain ⟨-, hquiet⟩ : enabled s cb = true ∧ _ := Bool.and_eq_true_iff.mp hok
  cases cb with
  | clientReadable => exact hgo (req_onward cfg n).drive
  | clientWritable => exact hgo (req_onward cfg n).drive
  | clientError => cases hquiet
  | clientTimeout now =>
      simp only [callback, wp_modify]
      split
      · rename_i hfire
        refine (Onward.closeBoth fun _ ha hnil => ?_).ends he
        obtain ⟨r, hr⟩ := Option.ne_none_iff_exists'.mp ha.2.2.2
        simp [hfire, hr, hnil] at hquiet
      · exact he
  | backendReadable => exact hgo hresp.onReadable
  | backendWritable => exact hgo (onWritable_onward n)
  | backendError => exact hgo (hresp.fail _)
  | backendTimeout now =>
      refine hgo (along_self_bind .refl fun b s w _ => ?_)
      rw [wp_ite]
      exact ⟨fun _ => hresp.fail _ s w, fun _ => .refl s⟩
  | processPendingClose backendFirst =>
      simp only [callback, wp_modify]
      rw [processPendingClose_eq h.settled.steady.toCore]
      exact ⟨he.heard, he.worded, he.paused, he.spoken⟩

/-! ## Runs -/

theorem newPair_ends {now : Nat} {mods : List Bool} : Ends (newPair now mods) :=
  ⟨(by rintro ⟨⟩), (by rintro ⟨⟩), (by rintro ⟨⟩), (by intros; contradiction)⟩

theorem step_ends (h : PairInv cfg s ∧ Ends s) {cb : Callback}
    (hok : answering cfg s cb w = true) :
    wp (dispatch cfg cb) (fun _ s' _ => PairInv cfg s' ∧ Ends s')
      (fun _ s' => AtCall cfg s' ∧ Ends s') s w := by
  have hen : enabled s cb = true := (Bool.and_eq_true_iff.mp hok).1
  refine wp_mono (wp_and (step_safe h.1 hen)
    (wp_dispatch.mpr (callback_ends (n := fuelFor w) h.1 h.2 hok))) (fun _ _ _ hh => hh) ?_
  exact fun _ _ hh => ⟨hh.1.1, hh.2⟩

/-- In such a run a connection that closed on a routed request has handed its client part of
    the backend's reply or of an error page, unless the client's side failed or the backend
    was lost with nothing to hand over. -/
theorem no_silent_close (h : ObservedBy cfg (answering cfg) s) (hroute : s.hist.routed ≠ none)
    (hfailed : s.hist.clientFailed = false) (haborted : s.hist.aborted = false)
    (hsil : s.hist.silenced = false) (hclosed : s.client.closed = true) :
    s.hist.toClient ≠ [] ∧ (s.hist.toClient <+: s.hist.fromBackend ∨
      ∃ R, s.hist.responses = [R] ∧ s.hist.toClient <+: R) := by
  have hboth : Core cfg s ∧ Ends s := by
    obtain ⟨now, mods, h | ⟨e, h⟩⟩ := h
    · have hi := reaches_inv (I := fun s => PairInv cfg s ∧ Ends s) ⟨newPair_inv, newPair_ends⟩
        (fun _ _ _ hi hok => step_ends hi hok) h
      exact ⟨hi.1.settled.steady.toCore, hi.2⟩
    · have hj := stops_inv (I := fun s => PairInv cfg s ∧ Ends s) ⟨newPair_inv, newPair_ends⟩
        (fun _ _ _ hi hok => step_ends hi hok) h
      exact ⟨hj.1.toCore, hj.2⟩
  obtain ⟨hcore, hends⟩ := hboth
  refine ⟨hends.spoken ⟨hsil, hfailed, haborted, hroute⟩ hclosed, ?_⟩
  rcases hcore.origin with ⟨-, heq⟩ | ⟨hresp, -⟩
  · exact .inl (List.IsPrefix.trans ⟨_, heq⟩ hcore.relayed)
  · exact .inr ⟨_, hresp, List.prefix_append _ _⟩

/-- The two parts of `demoReply`. -/
theorem no_silent_close_reply : ∃ s, ObservedBy demoCfg (answering demoCfg) s ∧
    s.client.closed = true ∧ s.hist.toClient ≠ [] := by
  have hrun : (replay (dispatch demoCfg) (answering demoCfg) demoReply (newPair 0 [])).map
      (fun s => (s.hist.routed.isSome, s.hist.clientFailed, s.hist.aborted, s.hist.silenced,
        s.client.closed)) = some (true, false, false, false, true) := by decide +kernel
  obtain ⟨s, hrun, hs⟩ := Option.map_eq_some_iff.mp hrun
  simp only [Prod.mk.injEq] at hs
  obtain ⟨hroute, h1, h2, h3, hclosed⟩ := hs
  have hobs : ObservedBy demoCfg (answering demoCfg) s := ⟨0, [], .inl (reaches_replay .init hrun)⟩
  have hroute' : s.hist.routed ≠ none := Option.isSome_iff_ne_none.mp hroute
  exact ⟨s, hobs, hclosed, (no_silent_close hobs hroute' h1 h2 h3 hclosed).1⟩

/-- No error event on the client's fd. -/
def unhung (s : Pair) (cb : Callback) (_ : List Answer) : Bool :=
  enabled s cb && match cb with | .clientError => false | _ => true

/-- The backend takes the request and closes without a byte: so does the connection. -/
theorem silent_close : ∃ s, ObservedBy demoCfg unhung s ∧ s.hist.routed ≠ none ∧
    s.hist.clientFailed = false ∧ s.hist.aborted = false ∧ s.client.closed = true ∧
    s.hist.toClient = [] := by
  have hrun : (replay (dispatch demoCfg) unhung (demoHead ++
      [(.clientReadable, [recvText "abc" (by decide), { res := .write (.wrote ⟨3, by decide⟩) },
        { res := .recv .wouldBlockRead }]),
       (.backendReadable, [{ res := .read .eof }])]) (newPair 0 [])).map
      (fun s => (s.hist.routed.isSome, s.hist.clientFailed, s.hist.aborted, s.client.closed,
        s.hist.toClient)) = some (true, false, false, true, []) := by decide +kernel
  obtain ⟨s, hrun, hs⟩ := Option.map_eq_some_iff.mp hrun
  simp only [Prod.mk.injEq] at hs
  obtain ⟨hroute, h1, h2, hclosed, hnil⟩ := hs
  exact ⟨s, ⟨0, [], .inl (reaches_replay .init hrun)⟩, Option.isSome_iff_ne_none.mp hroute, h1, h2,
    hclosed, hnil⟩

end CastlePlus
