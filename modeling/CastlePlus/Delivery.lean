import CastlePlus.ProxyRuns
import CastlePlus.ScriptUse

/-! # The response is delivered in full

    In a clean run — no socket fails, the client neither aborts nor times out — the
    connection closes itself only after the client's transport has taken everything the
    backend sent: **`response_delivered`**.

    One nesting escapes this.  `pump_write` drains `out_` and resumes a paused backend; the
    resumed `on_readable` delivers more bytes and reads EOF, and the client blocks again.
    `on_backend_closed` leaves the rest in `out_` for later, but the outer `pump_write`
    then finds `state_` closing and calls `close_both`.  `blocksAfterEof` recognises its
    script; the theorem is about runs without it, **`response_lost`** is a run with it. -/

namespace CastlePlus

open ScriptProg

variable {cfg : Cfg} {s s' : Pair} {w w' : List Answer} {n : Nat} {b : BackendConnection}

/-! ## Scripts -/

/-- A send that the client's transport does not take. -/
def blocks (a : Answer) : Bool :=
  match a.res with
  | .send .wouldBlockRead => true
  | .send .wouldBlockWrite => true
  | _ => false

/-- A send blocks after the backend's EOF. -/
def blocksAfterEof : List Answer → Bool
  | [] => false
  | a :: w =>
      match a.res with
      | .read .eof => w.any blocks
      | _ => blocksAfterEof w

theorem any_blocks_of_afterEof (h : blocksAfterEof w = true) : w.any blocks = true := by
  induction w with
  | nil => cases h
  | cons a w ih =>
      rw [List.any_cons, Bool.or_eq_true]
      rw [blocksAfterEof] at h
      split at h
      · exact .inr h
      · exact .inr (ih h)

theorem blocksAfterEof_suffix (hs : w' <:+ w) (h : blocksAfterEof w' = true) :
    blocksAfterEof w = true := by
  induction w with
  | nil =>
      rw [List.suffix_nil.mp hs] at h
      exact h
  | cons a w ih =>
      rcases List.suffix_cons_iff.mp hs with rfl | hs'
      · exact h
      · rw [blocksAfterEof]
        split
        · exact any_blocks_of_afterEof (ih hs')
        · exact ih hs'

/-! ## The invariant at a close -/

/-- A clean connection that has closed itself has handed over the whole response. -/
def Handed (s : Pair) : Prop :=
  s.hist.forwarded = true → Clean s → s.client.closed = true →
    s.hist.response = some s.hist.toClient

theorem Delivery.handed (h : Delivery s) (hc : Core cfg s) : Handed s := by
  intro hf hclean hclosed
  have hr := h hf hclean
  rcases hc.origin with ⟨-, heq⟩ | ⟨hresp, -⟩
  · rw [hr.sent hclosed, List.append_nil] at heq
    rw [heq]
    exact (hr.cut (hc.closedCut hclosed)).1
  · rw [hr.single] at hresp
    cases hresp

theorem Unclosed.handed (h : Unclosed s) : Handed s := by
  intro hf hclean hclosed
  rw [h hf hclean] at hclosed
  cases hclosed

/-- Where a callback may stop. -/
def RelayHalt (e : Halt) (s' : Pair) : Prop := e = .fuel ∨ Handed s'

/-- A halt where nothing is owed to the client. -/
theorem RespHalt.toRelay {e : Halt} {s₁ : Pair} (h : RespHalt cfg s₁ e s')
    (hvoid : s₁.hist.forwarded = false ∨ s₁.hist.backendError = true) : RelayHalt e s' :=
  h.imp id fun hh => (Unclosed.of_frame hvoid hh.2.2).handed

theorem deliveryView_finishPump (st : IoStatus) :
    deliveryView (finishPump st s) = deliveryView s ∧
      (finishPump st s).client.state = s.client.state := by
  obtain ⟨mask, mods, failed, heq, -, -⟩ := recomputeInterest_cases (setWriteBlock st s)
  rw [finishPump]
  rw [heq]
  split <;> exact ⟨rfl, rfl⟩

theorem deliveryView_applyInterest :
    deliveryView (applyInterest s) = deliveryView s ∧
      (applyInterest s).client.state = s.client.state := by
  obtain ⟨mask, mods, failed, heq, -, -⟩ := applyInterest_cases s
  rw [heq]
  exact ⟨rfl, rfl⟩

theorem deliveryView_pauseIfFull :
    deliveryView (pauseIfFull s) = deliveryView s ∧
      (pauseIfFull s).client.state = s.client.state := by
  rw [pauseIfFull, pauseReads]
  split
  · cases s.backend with
    | none => exact ⟨rfl, rfl⟩
    | some b =>
        dsimp only
        split
        · exact ⟨rfl, rfl⟩
        · exact deliveryView_applyInterest (s := setReads true s)
  · exact ⟨rfl, rfl⟩

/-- `Clean` is part of the view. -/
theorem clean_of_view (hv : deliveryView s' = deliveryView s) : Clean s' ↔ Clean s := by
  simp only [deliveryView, Prod.mk.injEq] at hv
  obtain ⟨-, e2, e3, e4, -⟩ := hv
  unfold Clean
  rw [e2, e3, e4]

/-- While the connection is open, `out_` does not matter. -/
theorem Delivery.of_open (h : Delivery s) (hopen : s.client.closed = false)
    (hv : deliveryView { s' with client.outBuf := s.client.outBuf } = deliveryView s)
    (hst : s'.client.state = s.client.state) : Delivery s' := by
  have h' : Delivery { s' with client.outBuf := s.client.outBuf } :=
    h.of_view hv (by rw [← hst])
  have hopen' : s'.client.closed = false := by
    simp only [deliveryView, Prod.mk.injEq] at hv
    rw [hv.2.2.2.2.2.2.2.2.1, hopen]
  intro hf hc
  obtain ⟨h1, h2, h3, -⟩ := h' hf hc
  exact ⟨h1, h2, h3, fun hclosed => absurd (hopen'.symm.trans hclosed) (by simp)⟩

/-- The end of a drained `pump_write` with nothing in `out_`. -/
theorem Delivery.closeIfClosing (h : Delivery s) (hout : s.client.outBuf = []) :
    Delivery (closeIfClosing s) := by
  rw [CastlePlus.closeIfClosing]
  split
  · rename_i hst
    cases hc : s.client.closed with
    | true => rw [closeBoth_of_closed hc]; exact h
    | false =>
        rw [closeBoth_of_open hc]
        intro hf hclean
        have hr := h hf hclean
        have hcut : s.client.hasBackend = false := by
          cases hb : s.client.hasBackend with
          | false => rfl
          | true => exact absurd hst (hr.linked hb).2
        exact ⟨hr.single, (by rintro ⟨⟩), fun _ => ⟨(hr.cut hcut).1, (by rintro ⟨⟩)⟩, fun _ => hout⟩
  · exact h

/-! ## The response side -/

/-- What `pump_write` does to the response, started in `s` on the script `w`. -/
structure PumpRelay (s : Pair) (w : List Answer) (s' : Pair) : Prop where
  delivery : Delivery s'
  ending : s.client.state = .closing → s.client.hasBackend = false →
    s'.client.closed = true ∨ w.any blocks = true
  lasting : s.client.backendPaused = false → s.client.state ≠ .closing → Clean s' →
    s'.client.closed = false ∧ s'.client.state ≠ .closing

/-- What reading from the backend does to the response: if EOF was read, the connection is
    closed or the client blocked. -/
structure ReadRelay (s : Pair) (w : List Answer) (s' : Pair) : Prop where
  delivery : Delivery s'
  ending : s.client.hasBackend = true → Clean s' → s'.client.state = .closing →
    s'.client.closed = true ∨ blocksAfterEof w = true

/-- The specifications at fuel `n`; `fail` and what it calls owe nothing any more. -/
structure RelaySpecs (cfg : Cfg) (n : Nat) : Prop where
  pumpWrite : ∀ s w, Core cfg s → Agree s → Relayed s → Delivery s → s.client.closed = false →
    (s.client.backendPaused = true → blocksAfterEof w = false) →
    wp (pumpWrite cfg n) (fun _ s' _ => PumpRelay s w s') RelayHalt s w
  resumeReads : ∀ s w, Core cfg s → Relayed s → s.client.hasBackend = true →
    s.client.backendPaused = false → s.client.outBuf = [] → Delivery s →
    wp (resumeReads cfg n) (fun _ s' _ => ReadRelay s w s') RelayHalt s w
  onReadable : ∀ s w, Steady cfg s → Relayed s → s.backend ≠ none → Delivery s →
    wp (onReadable cfg n) (fun _ s' _ => ReadRelay s w s') RelayHalt s w
  deliverToClient : ∀ s w d, Steady cfg s → s.client.hasBackend = true →
    s.client.backendPaused = false → d.length ≤ kReadBuf →
    s.hist.fromBackend = s.hist.delivered ++ d → Delivery s →
    wp (deliverToClient cfg n d)
      (fun _ s' _ => Delivery s' ∧ (Clean s' → s'.client.hasBackend = true)) RelayHalt s w
  onBackendClosed : ∀ s w, Core cfg (detachBackend s) → s.client.backendPaused = false →
    s.client.closed = false → Delivery (setState .closing (detachBackend s)) →
    wp (onBackendClosed cfg n)
      (fun _ s' _ => Delivery s' ∧ (s'.client.closed = true ∨ w.any blocks = true))
      RelayHalt s w

theorem pumpWrite_relay (h : RelaySpecs cfg n) (hc : Core cfg s) (ha : Agree s)
    (hrel : Relayed s) (hd : Delivery s) (hopen : s.client.closed = false)
    (hcalm : s.client.backendPaused = true → blocksAfterEof w = false) :
    wp (pumpWrite cfg (n + 1)) (fun _ s' _ => PumpRelay s w s') RelayHalt s w := by
  simp only [pumpWrite, wp_bind, wp_get, wp_ite, wp_modify, wp_pure]
  refine ⟨fun hout => ⟨fun hpb => ?_, fun _ => ?_⟩, fun hout => ?_⟩
  · obtain ⟨hp, hb⟩ := hpb
    -- drained with the backend paused: EOF may have come while it was resumed
    rw [wp_viaBackend (show (releaseBackend s).client.hasBackend = true from hb)]
    refine wp_mono (h.resumeReads _ w hc.releaseBackend hrel hb rfl hout (hd.of_view rfl .rfl))
      ?_ fun _ _ hh => hh
    intro _ s₁ _ hpost
    refine ⟨?_, fun _ hcut => absurd (hb.symm.trans hcut) (by simp),
      fun hno => absurd (hp.symm.trans hno) (by simp)⟩
    rw [closeIfClosing]
    split
    · rename_i hst
      cases hc₁ : s₁.client.closed with
      | true => rw [closeBoth_of_closed hc₁]; exact hpost.delivery
      | false =>
          intro hf hclean
          rw [Clean] at hclean
          rw [hist_closeBoth] at hclean
          rcases hpost.ending hb hclean hst with hclosed | hblocks
          · rw [hc₁] at hclosed
            cases hclosed
          · rw [hcalm hp] at hblocks
            cases hblocks
    · exact hpost.delivery
  · -- drained and nothing paused
    refine ⟨hd.closeIfClosing hout, fun hst _ => .inl ?_, fun _ hst _ => ?_⟩
    · rw [closeIfClosing, if_pos hst]
      exact closed_closeBoth
    · rw [closeIfClosing, if_neg hst]
      exact ⟨hopen, hst⟩
  · refine wp_transportSend (.inr fun _ _ hclosed => absurd (hopen.symm.trans hclosed) (by simp)) ?_
    intro a w₁ r hw hres _
    have hlost : ¬ Clean (noteSend r (tick a.dt s)) →
        PumpRelay s w (closeBoth (noteSend r (tick a.dt s))) := by
      intro hno
      have hno' : ¬ Clean (closeBoth (noteSend r (tick a.dt s))) := by
        rw [Clean]
        rw [hist_closeBoth]
        exact hno
      exact ⟨fun _ hclean => absurd hclean hno', fun _ _ => .inl closed_closeBoth,
        fun _ _ hclean => absurd hclean hno'⟩
    have hblocked : blocks a = true → PumpRelay s w (tick a.dt s) := fun hblock =>
      ⟨hd.of_view rfl .rfl, fun _ _ => .inr (by simp [hw, hblock]), fun _ hst _ => ⟨hopen, hst⟩⟩
    cases r with
    | ok k =>
        have hcalm' : s.client.backendPaused = true → blocksAfterEof w₁ = false := by
          intro hp
          by_contra hno
          have := blocksAfterEof_suffix (w := w) (hw ▸ List.suffix_cons _ _) (by simpa using hno)
          rw [hcalm hp] at this
          cases this
        refine wp_mono (h.pumpWrite _ w₁ ((hc.tick _).acceptSent k) ⟨ha.flags, ha.attached⟩ hrel
          (hd.of_open hopen rfl rfl) hopen hcalm') ?_ fun _ _ hh => hh
        intro st s' _ hpost
        refine ⟨hpost.delivery, fun hst hcut => ?_, hpost.lasting⟩
        refine (hpost.ending hst hcut).imp id fun hany => ?_
        rw [hw, List.any_cons, hany, Bool.or_true]
    | wouldBlockRead => exact hblocked (by simp [blocks, hres])
    | wouldBlockWrite => exact hblocked (by simp [blocks, hres])
    | closed => exact hlost (by simp [Clean, noteSend])
    | error => exact hlost (by simp [Clean, noteSend])

theorem resumeReads_relay (h : RelaySpecs cfg n) (hc : Core cfg s) (hrel : Relayed s)
    (hb : s.client.hasBackend = true) (hp : s.client.backendPaused = false)
    (hout : s.client.outBuf = []) (hd : Delivery s) :
    wp (resumeReads cfg (n + 1)) (fun _ s' _ => ReadRelay s w s') RelayHalt s w := by
  obtain ⟨b, hbk, -⟩ := hc.linked hb
  simp only [resumeReads, wp_bind, wp_self hbk, wp_ite, wp_modify, wp_pure]
  refine ⟨fun _ => ?_, fun _ => ⟨hd, fun _ hclean hst => ?_⟩⟩
  · have hs : Steady cfg (unpauseReads s) := Steady.unpauseReads hc hb hp hout hbk
    have hv : deliveryView (unpauseReads s) = deliveryView s ∧
        (unpauseReads s).client.state = s.client.state :=
      deliveryView_applyInterest (s := setReads false s)
    have hne : (unpauseReads s).backend ≠ none := by
      have hf : RespFrame s (unpauseReads s) := (RespFrame.setReads false).trans .applyInterest
      exact hf.backend_ne_none (by simp [hbk])
    refine wp_mono (h.onReadable _ w hs (Relayed.applyInterest (s := setReads false s) hrel) hne
      (hd.of_view hv.1 (by rw [hv.2]))) ?_ fun _ _ hh => hh
    intro _ s' _ hpost
    refine ⟨hpost.delivery, fun _ => hpost.ending ?_⟩
    have := hv.1
    simp only [deliveryView, Prod.mk.injEq] at this
    exact this.2.2.2.2.2.2.2.1.trans hb
  · exact absurd hst ((hd (hc.opened (by simp [hbk])) hclean).linked hb).2

theorem onReadable_relay (h : RelaySpecs cfg n) (hs : Steady cfg s) (hrel : Relayed s)
    (hb : s.backend ≠ none) (hd : Delivery s) :
    wp (onReadable cfg (n + 1)) (fun _ s' _ => ReadRelay s w s') RelayHalt s w := by
  obtain ⟨b, hbk⟩ := Option.ne_none_iff_exists'.mp hb
  have hfwd := hs.opened hb
  have hresp := resp_specs cfg n
  simp only [onReadable, wp_bind, wp_self hbk, wp_ite, wp_pure]
  refine ⟨fun _ => ⟨hd, fun hlink hclean hst => absurd hst ((hd hfwd hclean).linked hlink).2⟩,
    fun hp => ?_⟩
  refine wp_backendRead (.inr (hd.handed hs.toCore)) ?_
  intro a w₁ r hw hres
  have hs' := hs.noteRead hb a.dt r
  have hsuf : w₁ <:+ w := hw ▸ List.suffix_cons _ _
  -- a backend that reads is not paused, on either side
  have hunpaused : b.hasClient = true →
      s.client.hasBackend = true ∧ s.client.backendPaused = false := by
    intro hcl
    have hlink := hs.linkedBack b hbk hcl
    exact ⟨hlink, by rw [← hs.agree.flags hlink b hbk]; simpa using hp⟩
  have horphan : ¬ b.hasClient = true → s.client.hasBackend = false := hs.toCore.orphan hbk
  -- the loop goes on in `s₁`, with the link as it was
  have hloop : ∀ s₁ w₂, Steady cfg s₁ → Relayed s₁ → s₁.backend ≠ none → Delivery s₁ →
      w₂ <:+ w₁ → (s.client.hasBackend = true → Clean s₁ → s₁.client.hasBackend = true) →
      wp (onReadable cfg n) (fun _ s' _ => ReadRelay s w s') RelayHalt s₁ w₂ := by
    intro s₁ w₂ hs₁ hrel₁ hb₁ hd₁ hsuf₂ hlink
    refine wp_mono (wp_and (hresp.onReadable s₁ w₂ hs₁ hrel₁ hb₁)
      (h.onReadable s₁ w₂ hs₁ hrel₁ hb₁ hd₁)) ?_ fun _ _ hh => hh.2
    rintro _ s' _ ⟨hpost, hrelay⟩
    refine ⟨hrelay.delivery, fun hl hclean hst => ?_⟩
    exact (hrelay.ending (hlink hl (hpost.frame.clean hclean)) hclean hst).imp id
      (blocksAfterEof_suffix (hsuf₂.trans hsuf))
  cases r with
  | data c =>
      have hs'' : Steady cfg (touchBackend (noteRead (.data c) (tick a.dt s))) :=
        hs'.onBackend _ (fun _ => rfl) (fun _ => rfl) (fun _ => rfl)
      have hb'' : (touchBackend (noteRead (.data c) (tick a.dt s))).backend ≠ none := by
        simp [touchBackend, onBackend, noteRead, tick, hbk]
      have hd'' : Delivery (touchBackend (noteRead (.data c) (tick a.dt s))) :=
        hd.of_view rfl .rfl
      simp only [wp_bind, wp_modify, wp_ite]
      refine ⟨fun hcl => ?_, fun hcl => ?_⟩
      · obtain ⟨hlink, hnp⟩ := hunpaused hcl
        have hread : s.hist.fromBackend ++ c.val = s.hist.delivered ++ c.val := by
          rw [hrel hlink]
        refine wp_mono (((resp_consumes cfg n).deliverToClient _).and
          (wp_and (hresp.deliverToClient _ w₁ _ hs'' hlink hnp c.property.2 hread)
            (h.deliverToClient _ w₁ _ hs'' hlink hnp c.property.2 hread hd''))) ?_
          fun _ _ hh => hh.2
        rintro _ s₂ w₂ ⟨⟨hpost, hd₂, hlink₂⟩, hsuf₂⟩
        exact hloop s₂ w₂ hpost.steady hpost.relayed (hpost.frame.backend_ne_none hb'') hd₂ hsuf₂
          fun _ => hlink₂
      · exact hloop _ w₁ hs'' (.of_unlinked (horphan hcl)) hb'' hd'' List.suffix_rfl
          fun hl => absurd (hl.symm.trans (horphan hcl)) (by simp)
  | eof =>
      simp only [wp_ite, wp_bind, wp_modify]
      refine ⟨fun hcl => ?_, fun hcl => ?_⟩
      · obtain ⟨hlink, hnp⟩ := hunpaused hcl
        have hopen : s.client.closed = false := by
          cases hc : s.client.closed with
          | false => rfl
          | true => exact absurd ((hs.closedCut hc).symm.trans hlink) (by simp)
        -- everything read so far has been delivered, so that is the response
        have hcut : Delivery (setState .closing (detachBackend (detachClient
            (noteRead .eof (tick a.dt s))))) := by
          intro hf hclean
          have hr := hd hf hclean
          refine ⟨hr.single, (by rintro ⟨⟩), fun _ => ⟨?_, fun _ => rfl⟩, hr.sent⟩
          show s.hist.response.or (some s.hist.fromBackend) = some s.hist.delivered
          rw [(hr.linked hlink).1, hrel hlink]
          rfl
        refine wp_mono (h.onBackendClosed _ w₁ hs'.toCore.unlink hnp hopen hcut) ?_
          fun _ _ hh => hh
        rintro _ s₂ _ ⟨hd₂, hend⟩
        refine ⟨hd₂.of_view rfl .rfl, fun _ _ _ => hend.imp id fun hany => ?_⟩
        rw [hw]
        rw [blocksAfterEof]
        rw [hres]
        exact hany
      · refine ⟨?_, fun hl => absurd (hl.symm.trans (horphan hcl)) (by simp)⟩
        intro hf hclean
        have hr := hd hf hclean
        have hcut := hr.cut (horphan hcl)
        refine ⟨hr.single, fun hl => absurd (hl.symm.trans (horphan hcl)) (by simp),
          fun _ => ⟨?_, hcut.2⟩, hr.sent⟩
        show s.hist.response.or (some s.hist.fromBackend) = some s.hist.delivered
        rw [hcut.1]
        rfl
  | again =>
      exact ⟨hd.of_view rfl .rfl,
        fun hlink hclean hst => absurd hst ((hd hfwd hclean).linked hlink).2⟩
  | intr =>
      exact hloop _ w₁ hs' hrel hb (hd.of_view rfl .rfl) List.suffix_rfl fun hl _ => hl
  | error =>
      refine wp_mono (hresp.fail _ w₁ _ hs' hb) ?_ fun _ _ hh => hh.toRelay (.inr rfl)
      rintro _ s₂ _ ⟨hpost, -⟩
      have herr : s₂.hist.backendError = true := hpost.frame.failed rfl
      exact ⟨.of_void (.inr herr), fun _ hclean => absurd (herr.symm.trans hclean.1) (by simp)⟩

theorem deliverToClient_relay (h : RelaySpecs cfg n) (hs : Steady cfg s)
    (hb : s.client.hasBackend = true) (hp : s.client.backendPaused = false) (d : Bytes)
    (hlen : d.length ≤ kReadBuf) (hread : s.hist.fromBackend = s.hist.delivered ++ d)
    (hd : Delivery s) :
    wp (deliverToClient cfg (n + 1) d)
      (fun _ s' _ => Delivery s' ∧ (Clean s' → s'.client.hasBackend = true)) RelayHalt s w := by
  obtain ⟨b, hbk, -⟩ := hs.linked hb
  have hfwd := hs.opened (by simp [hbk])
  have hopen : s.client.closed = false := by
    cases hc : s.client.closed with
    | false => rfl
    | true => exact absurd ((hs.closedCut hc).symm.trans hb) (by simp)
  simp only [deliverToClient, wp_bind, wp_get, wp_ite, wp_modify, wp_pure]
  refine ⟨fun hclosed => absurd (hopen.symm.trans hclosed) (by simp), fun _ => ?_⟩
  have hq : Core cfg (queueClient d s) := hs.toCore.queueClient hb hlen hread (hs.slack hb hp)
  have ha : Agree (queueClient d s) := ⟨hs.agree.flags, hs.agree.attached⟩
  have hdq : Delivery (queueClient d s) := by
    intro hf hclean
    have hr := hd hf hclean
    exact ⟨hr.single, hr.linked, fun hcut => absurd (hb.symm.trans hcut) (by simp),
      fun hclosed => absurd (hopen.symm.trans hclosed) (by simp)⟩
  refine wp_mono (wp_and ((resp_specs cfg n).pumpWrite _ w hq ha fun _ => hread.symm)
    (h.pumpWrite _ w hq ha (fun _ => hread.symm) hdq hopen
      fun hp' => absurd (hp.symm.trans hp') (by simp))) ?_ fun _ _ hh => hh.2
  rintro st s₂ _ ⟨hpost, hrelay⟩
  -- neither the pause check nor the interest touches the response
  have hview : ∀ t, (t = s₂ ∨ t = pauseIfFull s₂) →
      deliveryView (finishPump st t) = deliveryView s₂ ∧
        (finishPump st t).client.state = s₂.client.state := by
    rintro t (rfl | rfl)
    · exact deliveryView_finishPump st
    · obtain ⟨h1, h2⟩ := deliveryView_finishPump (s := pauseIfFull s₂) st
      exact ⟨h1.trans deliveryView_pauseIfFull.1, h2.trans deliveryView_pauseIfFull.2⟩
  obtain ⟨hv, hst⟩ := hview (if s₂.client.closed = true then s₂ else pauseIfFull s₂)
    (by split <;> simp)
  refine ⟨hrelay.delivery.of_view hv (by rw [hst]), fun hclean => ?_⟩
  have hclean₂ : Clean s₂ := (clean_of_view hv).mp hclean
  obtain ⟨hopen₂, hst₂⟩ := hrelay.lasting hp
    ((hd hfwd (hpost.frame.clean hclean₂)).linked hb).2 hclean₂
  simp only [deliveryView, Prod.mk.injEq] at hv
  rw [hv.2.2.2.2.2.2.2.1, hpost.frame.link hopen₂ hst₂]
  exact hb

theorem onBackendClosed_relay (h : RelaySpecs cfg n) (hc : Core cfg (detachBackend s))
    (hp : s.client.backendPaused = false) (hopen : s.client.closed = false)
    (hd : Delivery (setState .closing (detachBackend s))) :
    wp (onBackendClosed cfg (n + 1))
      (fun _ s' _ => Delivery s' ∧ (s'.client.closed = true ∨ w.any blocks = true))
      RelayHalt s w := by
  simp only [onBackendClosed, wp_bind, wp_modify]
  have hnp : ¬ (setState .closing (detachBackend s)).client.backendPaused = true := by
    simp [setState, detachBackend, hp]
  refine wp_mono (h.pumpWrite _ w (hc.setState .closing) ⟨(by rintro ⟨⟩), fun _ h => absurd h hnp⟩
    (.of_unlinked rfl) hd hopen fun h => absurd h hnp) ?_ fun _ _ hh => hh
  intro st s₂ _ hrelay
  obtain ⟨hv, hst⟩ := deliveryView_finishPump (s := s₂) st
  refine ⟨hrelay.delivery.of_view hv (by rw [hst]), ?_⟩
  simp only [deliveryView, Prod.mk.injEq] at hv
  rw [hv.2.2.2.2.2.2.2.2.1]
  exact hrelay.ending rfl rfl

theorem relay_specs (cfg : Cfg) : ∀ n, RelaySpecs cfg n := by
  intro n
  induction n with
  | zero => constructor <;> intros <;> exact .inl rfl
  | succ n ih =>
      exact
        { pumpWrite := fun _ _ => pumpWrite_relay ih
          resumeReads := fun _ _ => resumeReads_relay ih
          onReadable := fun _ _ => onReadable_relay ih
          deliverToClient := fun _ _ d hs hb hp => deliverToClient_relay ih hs hb hp d
          onBackendClosed := fun _ _ => onBackendClosed_relay ih }

/-! ## Callbacks -/

theorem ReqHalt.toRelay {cut : Prop} {e : Halt} (h : ReqHalt cfg cut e s') : RelayHalt e s' :=
  h.imp id fun hh => hh.2.2.1.handed

/-- A part of the script of a calm callback is calm. -/
theorem blocksAfterEof_rest (hs : w' <:+ w) (h : blocksAfterEof w = false) :
    blocksAfterEof w' = false := by
  by_contra hno
  rw [blocksAfterEof_suffix hs (by simpa using hno)] at h
  cases h

theorem drivePumps_relay (h : Pumped cfg s) (hopen : s.client.closed = false) (hd : Delivery s)
    (hcalm : s.client.backendPaused = true → blocksAfterEof w = false) :
    wp (drivePumps cfg n) (fun _ s' _ => Delivery s') RelayHalt s w := by
  cases n with
  | zero => exact .inl rfl
  | succ n =>
      simp only [drivePumps, wp_bind, wp_modify, wp_get, wp_ite, wp_pure]
      refine wp_mono ((req_consumes cfg n).pumpRead.and (pumpRead_spec h hopen)) ?_
        fun _ _ hh => hh.toRelay
      rintro st s₁ w₁ ⟨⟨h₁, hk⟩, hsuf⟩
      have hd₁ : Delivery (setReadBlock st s₁) := (hk.delivery hd).of_view rfl .rfl
      refine ⟨fun _ => hd₁, fun hopen₁ => ?_⟩
      have hopen₁' : s₁.client.closed = false := by simpa [setReadBlock] using hopen₁
      have hset : Settled cfg (setReadBlock st s₁) := h₁.settled.of_view rfl
      refine wp_mono ((relay_specs cfg n).pumpWrite _ w₁ hset.steady.toCore hset.steady.agree
        hset.relayed hd₁ hopen₁' fun hp => ?_) ?_ fun _ _ hh => hh
      · exact blocksAfterEof_rest hsuf (hcalm (hk.paused hopen₁' hp))
      · intro st₂ s₂ _ hrelay
        obtain ⟨hv, hst⟩ := deliveryView_finishPump (s := s₂) st₂
        exact hrelay.delivery.of_view hv (by rw [hst])

theorem drive_relay (h : PairInv cfg s) (hd : Delivery s)
    (hcalm : s.client.backendPaused = true → blocksAfterEof w = false) :
    wp (drive cfg n) (fun _ s' _ => Delivery s') RelayHalt s w := by
  cases n with
  | zero => exact .inl rfl
  | succ n =>
      simp only [drive, wp_bind, wp_get, wp_ite, wp_pure]
      refine ⟨fun _ => hd, fun hopen => ?_⟩
      have hopen' : s.client.closed = false := by simpa using hopen
      refine ⟨fun hshake => drivePumps_relay ⟨h, hshake⟩ hopen' hd hcalm, fun hshake => ?_⟩
      have hshake' : s.client.handshakeDone = false := by simpa using hshake
      -- nothing has been forwarded before the handshake
      have hfresh : s.hist.forwarded = false :=
        (h.up.unrouted (h.up.reading (h.up.shaking hshake')).1).2.2
      have hfresh' : ∀ res dt, (noteHandshake res (tick dt s)).hist.forwarded = false := by
        intro res dt
        cases res <;> exact hfresh
      have hinterest : ∀ res dt ev, Delivery (setInterest ev (noteHandshake res (tick dt s))) := by
        intro res dt ev
        obtain ⟨mask, mods, failed, heq, -, -⟩ :=
          setInterest_cases ev (noteHandshake res (tick dt s))
        rw [heq]
        exact .of_void (.inl (hfresh' res dt))
      have hclose : ∀ res dt, Delivery (closeBoth (noteHandshake res (tick dt s))) := by
        intro res dt
        refine .of_void (.inl ?_)
        rw [hist_closeBoth]
        exact hfresh' res dt
      refine wp_transportHandshake (.inr (hd.handed h.settled.steady.toCore)) ?_
      intro a w₁ res hw _ _
      have h₁ := h.noteHandshake res a.dt
      cases res with
      | ok u =>
          simp only [wp_bind, wp_modify]
          have hu := h₁.up
          have h₂ : Pumped cfg (finishHandshake (noteHandshake (.ok u) (tick a.dt s))) :=
            ⟨⟨h₁.settled.of_view rfl, hu.1, hu.2, (by rintro ⟨⟩), hu.4, hu.5, hu.6, hu.7, hu.8, hu.9,
              hu.10, hu.11, hu.12, hu.13, hu.14⟩, rfl⟩
          refine drivePumps_relay h₂ hopen' (.of_void (.inl hfresh)) fun hp => ?_
          exact blocksAfterEof_rest (hw ▸ List.suffix_cons _ _) (hcalm hp)
      | wouldBlockRead => exact hinterest _ a.dt _
      | wouldBlockWrite => exact hinterest _ a.dt _
      | closed => exact hclose _ a.dt
      | error => exact hclose _ a.dt

theorem flush_relay (h : PairInv cfg s) (hb : s.backend = some b) (hconn : b.connected = true)
    (hlink : s.client.hasBackend = true) (hd : Delivery s)
    (hcalm : s.client.backendPaused = true → blocksAfterEof w = false) :
    wp (flush cfg n) (fun _ s' _ => Delivery s') RelayHalt s w := by
  cases n with
  | zero => exact .inl rfl
  | succ n =>
      obtain ⟨b', hb', hcl⟩ := h.settled.steady.linked hlink
      rw [hb] at hb'
      cases hb'
      have hopen : s.client.closed = false := by
        cases hc : s.client.closed with
        | false => rfl
        | true => exact absurd ((h.settled.steady.closedCut hc).symm.trans hlink) (by simp)
      have happly : ∀ t, Delivery t → Delivery (applyInterest t) := fun t ht =>
        ht.of_view deliveryView_applyInterest.1 (by rw [deliveryView_applyInterest.2])
      have hflushed : ∀ off la now, Delivery (flushed s b off la now) :=
        fun _ _ _ => hd.of_view rfl .rfl
      refine wp_flush hb hcl (fun _ => .inl rfl) ?_ ?_ ?_ ?_
      · exact fun off la now _ =>
          .inr fun _ _ hclosed => absurd (hopen.symm.trans hclosed) (by simp)
      · intro off la now w' _ _
        -- a hard write error: nothing is promised any more
        have hvoid : (written s b 0 off la now true).hist.backendError = true := by simp [written]
        refine wp_mono ((resp_specs cfg n).fail _ w' _
          (h.settled.steady.rewritten hb rfl rfl rfl rfl) (by simp [written])) ?_
          fun _ _ hh => hh.toRelay (.inr hvoid)
        rintro _ s₂ _ ⟨hpost, -⟩
        exact .of_void (.inr (hpost.frame.failed hvoid))
      · intro off la now w' _ hskip _ hlow
        cases n with
        | zero => exact .inl rfl
        | succ n =>
            simp only [onBackendDrained, wp_bind, wp_get, wp_ite, wp_pure, wp_modify]
            refine ⟨fun _ => happly _ (hflushed off la now), fun _ => ?_⟩
            refine wp_mono (drive_relay (h.flushed hb hcl hconn hlink (.inr ⟨rfl, hlow⟩))
              (hd.of_view rfl .rfl) fun hp => blocksAfterEof_rest hskip.suffix (hcalm hp)) ?_
              fun _ _ hh => hh
            exact fun _ s' _ h' => happly s' h'
      · exact fun off la now w' _ _ _ => happly _ (hflushed off la now)

theorem onWritable_relay (h : PairInv cfg s) (hb : s.backend = some b)
    (hpend : s.backendPending = false) (hd : Delivery s)
    (hcalm : s.client.backendPaused = true → blocksAfterEof w = false) :
    wp (onWritable cfg n) (fun _ s' _ => Delivery s') RelayHalt s w := by
  have hlink := h.linked_of_unscheduled hb hpend
  simp only [onWritable, wp_bind, wp_self hb, wp_ite, wp_modify]
  refine ⟨fun hconn => flush_relay h hb hconn hlink hd hcalm, fun hconn => ?_⟩
  have hconn' : b.connected = false := by simpa using hconn
  refine wp_soError (.inr (hd.handed h.settled.steady.toCore)) ?_
  intro a w₁ ok hw _
  have hb₁ : (finishConnect (tick a.dt s)).backend
      = some { b with connected := true, lastActivity := s.now + a.dt } := by
    simp [finishConnect, touchBackend, onBackend, tick, hb]
  cases ok with
  | true =>
      have h₁ := (h.at_time (s.now + a.dt)).finishConnect hb hlink hconn'
      refine ⟨fun _ => ?_, fun hno => absurd rfl hno⟩
      refine flush_relay h₁ hb₁ rfl hlink (hd.of_view rfl .rfl) fun hp => ?_
      exact blocksAfterEof_rest (hw ▸ List.suffix_cons _ _) (hcalm hp)
  | false =>
      refine ⟨fun hno => (by cases hno), fun _ => ?_⟩
      have hs₁ : Steady cfg (noteConnect false (tick a.dt s)) := h.settled.steady.of_view rfl
      refine wp_mono ((resp_specs cfg n).fail _ w₁ _ hs₁ (by simp [noteConnect, tick, hb])) ?_
        fun _ _ hh => hh.toRelay (.inr rfl)
      rintro _ s₂ _ ⟨hpost, -⟩
      exact .of_void (.inr (hpost.frame.failed rfl))

/-- No error or hangup event is raised and no idle timeout fires. -/
def undisturbed (cfg : Cfg) (s : Pair) (cb : Callback) (_ : List Answer) : Bool :=
  enabled s cb &&
    match cb with
    | .clientError => false
    | .backendError => false
    | .clientTimeout now => !idleExpired cfg now s.client.lastActivity
    | .backendTimeout now => s.backend.all fun b => !idleExpired cfg now b.lastActivity
    | _ => true

/-- Nor does the client block after the backend's EOF in a callback that began with the
    backend paused. -/
def unhurried (cfg : Cfg) (s : Pair) (cb : Callback) (w : List Answer) : Bool :=
  undisturbed cfg s cb w && !(s.client.backendPaused && blocksAfterEof w)

theorem callback_relay (h : PairInv cfg s) (hd : Delivery s) {cb : Callback}
    (hok : undisturbed cfg s cb w = true)
    (hcalm : s.client.backendPaused = true → blocksAfterEof w = false) :
    wp (callback cfg n cb) (fun _ s' _ => Delivery s') RelayHalt s w := by
  obtain ⟨hen, hquiet⟩ : enabled s cb = true ∧ _ := Bool.and_eq_true_iff.mp hok
  -- a registered backend is there
  have hobj : s.backendMask.isSome = true → s.backend ≠ none := by
    intro hm hnone
    rw [h.settled.steady.registered hnone] at hm
    cases hm
  cases cb with
  | clientReadable => exact drive_relay h hd hcalm
  | clientWritable => exact drive_relay h hd hcalm
  | clientError => cases hquiet
  | clientTimeout now =>
      simp only [callback, wp_modify]
      rw [if_neg (by simpa using hquiet)]
      exact hd
  | backendReadable =>
      refine wp_mono ((relay_specs cfg n).onReadable s w h.settled.steady h.settled.relayed
        (hobj hen) hd) ?_ fun _ _ hh => hh
      exact fun _ _ _ hrelay => hrelay.delivery
  | backendWritable =>
      simp only [enabled, Bool.and_eq_true, Bool.not_eq_true'] at hen
      obtain ⟨b, hb⟩ := Option.ne_none_iff_exists'.mp (hobj hen.1)
      exact onWritable_relay h hb hen.2 hd hcalm
  | backendError => cases hquiet
  | backendTimeout now =>
      obtain ⟨b, hb⟩ := Option.ne_none_iff_exists'.mp (hobj hen)
      simp only [hb, Option.all_some, Bool.not_eq_true'] at hquiet
      simp only [callback, wp_bind, wp_self hb, wp_ite, wp_pure]
      -- `hok`: the timeout has not expired
      refine ⟨fun hfire => ?_, fun _ => hd⟩
      rw [hquiet] at hfire
      cases hfire
  | processPendingClose backendFirst =>
      simp only [callback, wp_modify]
      rw [processPendingClose_eq h.settled.steady.toCore]
      exact hd.of_view rfl .rfl

/-! ## Runs -/

/-- The pair at any moment of a run whose callbacks all meet `ok`. -/
def ObservedBy (cfg : Cfg) (ok : Pair → Callback → List Answer → Bool) (s : Pair) : Prop :=
  ∃ now mods, Reaches (dispatch cfg) (fun s cb w => ok s cb w = true) (newPair now mods) s ∨
    ∃ e, Stops (dispatch cfg) (fun s cb w => ok s cb w = true) (newPair now mods) e s

theorem step_relay (h : PairInv cfg s ∧ Delivery s) {cb : Callback}
    (hok : unhurried cfg s cb w = true) :
    wp (dispatch cfg cb) (fun _ s' _ => PairInv cfg s' ∧ Delivery s') (fun _ s' => Handed s')
      s w := by
  simp only [unhurried, Bool.and_eq_true, Bool.not_eq_true', Bool.and_eq_false_imp] at hok
  obtain ⟨hquiet, hcalm⟩ := hok
  have hen : enabled s cb = true := (Bool.and_eq_true_iff.mp hquiet).1
  refine wp_mono (wp_and (step_inv h.1 hen) (wp_and
    (wp_dispatch.mpr (callback_relay (n := fuelFor w) h.1 h.2 hquiet hcalm))
    (dispatch_fuel cb))) (fun _ _ _ hh => ⟨hh.1, hh.2.1⟩) ?_
  rintro e s' ⟨-, hfuel | hhanded, hno⟩
  · exact absurd hfuel hno
  · exact hhanded

/-- In a clean run of such callbacks, a connection with a forwarded request has closed
    itself only after the client's transport has taken all the backend sent. -/
theorem response_delivered (h : ObservedBy cfg (unhurried cfg) s)
    (hfwd : s.hist.forwarded = true) (hclean : Clean s) (hclosed : s.client.closed = true) :
    s.hist.response = some s.hist.toClient := by
  have h₀ : ∀ now mods, PairInv cfg (newPair now mods) ∧ Delivery (newPair now mods) :=
    fun _ _ => ⟨newPair_inv, .of_void (.inl rfl)⟩
  obtain ⟨now, mods, h | ⟨e, h⟩⟩ := h
  · have hi := reaches_inv (I := fun s => PairInv cfg s ∧ Delivery s) (h₀ now mods)
      (fun _ _ _ hi hok => step_relay hi hok) h
    exact hi.2.handed hi.1.settled.steady.toCore hfwd hclean hclosed
  · exact stops_inv (I := fun s => PairInv cfg s ∧ Delivery s) (h₀ now mods)
      (fun _ _ _ hi hok => step_relay hi hok) h hfwd hclean hclosed

theorem response_delivered_reply : ∃ s, ObservedBy demoCfg (unhurried demoCfg) s ∧
    s.client.closed = true ∧ s.hist.response = some s.hist.toClient := by
  have hrun : (replay (dispatch demoCfg) (unhurried demoCfg) demoReply (newPair 0 [])).map
      (fun s => (s.hist.forwarded, s.hist.backendError, s.hist.clientFailed, s.hist.aborted,
        s.client.closed)) = some (true, false, false, false, true) := by decide +kernel
  obtain ⟨s, hrun, hs⟩ := Option.map_eq_some_iff.mp hrun
  simp only [Prod.mk.injEq] at hs
  obtain ⟨hfwd, h1, h2, h3, hclosed⟩ := hs
  have hobs : ObservedBy demoCfg (unhurried demoCfg) s := ⟨0, [], .inl (reaches_replay .init hrun)⟩
  exact ⟨s, hobs, hclosed, response_delivered hobs hfwd ⟨h1, h2, h3⟩ hclosed⟩

/-! ## The nesting that loses bytes

    A response longer than the high-water mark, to a client that blocks while the backend
    is read, then takes everything, then blocks again. -/

/-- A connection in the middle of a response; `paused` is both pause flags. -/
structure Relaying (s : Pair) (paused : Bool) : Prop where
  opened : s.client.closed = false
  linked : s.client.hasBackend = true
  flag : s.client.backendPaused = paused
  object : ∃ b, s.backend = some b ∧ b.hasClient = true ∧ b.readPaused = paused
  whole : s.hist.fromBackend = s.hist.toClient ++ s.client.outBuf
  awaited : s.hist.response = none
  forwarded : s.hist.forwarded = true
  clean : Clean s
  state : s.client.state = .streaming
  shaken : s.client.handshakeDone = true
  reading : s.client.readPaused = false ∧ s.client.clientEof = false

/-- `finishPump` changes none of this. -/
theorem Relaying.finishPump {p : Bool} (h : Relaying s p) (st : IoStatus) :
    Relaying (finishPump st s) p := by
  obtain ⟨mask, mods, failed, heq, -, -⟩ := recomputeInterest_cases (setWriteBlock st s)
  rw [CastlePlus.finishPump]
  rw [heq]
  split <;> exact ⟨h.1, h.2, h.3, h.4, h.5, h.6, h.7, h.8, h.9, h.10, h.11⟩

theorem Relaying.applyInterest {p : Bool} (h : Relaying s p) : Relaying (applyInterest s) p := by
  obtain ⟨mask, mods, failed, heq, -, -⟩ := applyInterest_cases s
  obtain ⟨b, hb, hcl, hp⟩ := h.object
  rw [heq]
  exact ⟨h.1, h.2, h.3, ⟨{ b with interest := backendInterest b }, by simp [hb], hcl, hp⟩, h.5,
    h.6, h.7, h.8, h.9, h.10, h.11⟩

/-- The pair after one turn of `on_readable` that delivers to a blocked client. -/
def turned (c : Chunk) (s : Pair) : Pair :=
  finishPump .wouldBlockWrite (pauseIfFull (queueClient c.val
    (touchBackend (noteRead (.data c) s))))

/-- A script of such turns. -/
def turns (c : Chunk) : Nat → List Answer
  | 0 => []
  | k + 1 => { res := .read (.data c) } :: { res := .send .wouldBlockWrite } :: turns c k

theorem Relaying.queued (h : Relaying s false) (c : Chunk) :
    Relaying (queueClient c.val (touchBackend (noteRead (.data c) s))) false := by
  obtain ⟨b, hb, hcl, hp⟩ := h.object
  refine ⟨h.1, h.2, h.3, ⟨{ b with lastActivity := s.now }, ?_, hcl, hp⟩, ?_, h.6, h.7, h.8, h.9,
    h.10, h.11⟩
  · simp [queueClient, touchBackend, onBackend, noteRead, hb]
  · show s.hist.fromBackend ++ c.val = s.hist.toClient ++ (s.client.outBuf ++ c.val)
    rw [h.whole, List.append_assoc]

theorem length_turned {c : Chunk} :
    (turned c s).client.outBuf.length = s.client.outBuf.length + c.val.length := by
  have hv := (deliveryView_finishPump (s := pauseIfFull (queueClient c.val (touchBackend
    (noteRead (.data c) s)))) .wouldBlockWrite).1.trans deliveryView_pauseIfFull.1
  simp only [deliveryView, Prod.mk.injEq] at hv
  rw [turned]
  rw [hv.2.2.2.2.2.2.2.2.2]
  exact List.length_append

/-- A turn that leaves room. -/
theorem Relaying.turned_short (h : Relaying s false) {c : Chunk}
    (hlen : s.client.outBuf.length + c.val.length ≤ kBackpressureHigh) :
    Relaying (turned c s) false := by
  have hroom : ¬ kBackpressureHigh < (queueClient c.val (touchBackend
      (noteRead (.data c) s))).client.outBuf.length := by
    show ¬ kBackpressureHigh < (s.client.outBuf ++ c.val).length
    rw [List.length_append]
    omega
  have hkeep : pauseIfFull (queueClient c.val (touchBackend (noteRead (.data c) s)))
      = queueClient c.val (touchBackend (noteRead (.data c) s)) :=
    if_neg fun hfull => hroom hfull.2.2
  rw [CastlePlus.turned]
  rw [hkeep]
  exact (h.queued c).finishPump _

/-- A turn that fills `out_` beyond the mark pauses the backend. -/
theorem Relaying.turned_full (h : Relaying s false) {c : Chunk}
    (hlen : kBackpressureHigh < s.client.outBuf.length + c.val.length) :
    Relaying (turned c s) true := by
  have hq := h.queued c
  obtain ⟨b, hb, hcl, hp⟩ := hq.object
  have hfull : kBackpressureHigh < (queueClient c.val (touchBackend
      (noteRead (.data c) s))).client.outBuf.length := by
    show kBackpressureHigh < (s.client.outBuf ++ c.val).length
    rw [List.length_append]
    omega
  rw [CastlePlus.turned]
  refine Relaying.finishPump ?_ _
  generalize queueClient c.val (touchBackend (noteRead (.data c) s)) = t at *
  have hpause : pauseIfFull t
      = { CastlePlus.applyInterest (setReads true t) with client.backendPaused := true } := by
    rw [pauseIfFull, pauseReads]
    rw [if_pos ⟨hq.linked, by simp [hq.flag], hfull⟩, hb]
    simp [hp]
  obtain ⟨mask, mods, failed, heq, -, -⟩ := applyInterest_cases (setReads true t)
  rw [hpause, heq]
  refine ⟨hq.1, hq.2, rfl, ?_, hq.5, hq.6, hq.7, hq.8, hq.9, hq.10, hq.11⟩
  refine ⟨{ b with readPaused := true, interest := backendInterest { b with readPaused := true } },
    ?_, hcl, rfl⟩
  simp [setReads, onBackend, hb]

/-- The code of one turn. -/
theorem wp_turn {Q : Unit → Pair → List Answer → Prop} {H : Halt → Pair → Prop} {c : Chunk}
    (h : Relaying s false) (hfuel : ∀ s', H .fuel s')
    (hrest : ∀ m, wp (onReadable cfg m) Q H (turned c s) w) :
    wp (onReadable cfg n) Q H s
      ({ res := .read (.data c) } :: { res := .send .wouldBlockWrite } :: w) := by
  obtain ⟨b, hb, hcl, hp⟩ := h.object
  have hopen := h.opened
  cases n with
  | zero => exact hfuel _
  | succ n =>
      simp only [onReadable, wp_bind, wp_self hb, wp_ite, wp_pure, hp]
      refine ⟨(by rintro ⟨⟩), fun _ => ?_⟩
      rw [backendRead, sysCall]
      rw [wp_await_some (by rfl)]
      simp only [wp_bind, wp_modify, wp_ite, hcl]
      refine ⟨fun _ => ?_, fun hno => absurd trivial hno⟩
      cases n with
      | zero => exact hfuel _
      | succ n =>
          simp only [deliverToClient, wp_bind, wp_get, wp_ite, wp_pure, wp_modify]
          refine ⟨fun hclosed => absurd (hopen.symm.trans hclosed) (by simp), fun _ => ?_⟩
          cases n with
          | zero => exact hfuel _
          | succ n =>
              have hne : ¬ (queueClient c.val (touchBackend
                  (noteRead (.data c) (tick 0 s)))).client.outBuf = [] := by
                show ¬ s.client.outBuf ++ c.val = []
                simp [c.property.1]
              simp only [pumpWrite, wp_bind, wp_get, wp_ite, hne]
              refine ⟨(by rintro ⟨⟩), fun _ => ?_⟩
              rw [transportSend, sysCall]
              rw [wp_await_some (by rfl)]
              simp only [wp_pure]
              rw [if_neg (by simp [noteSend, tick, queueClient, touchBackend, onBackend, noteRead,
                hopen])]
              exact hrest _

/-- Turn after turn until the backend is paused. -/
theorem wp_turns {c : Chunk} : ∀ (k n : Nat) (s : Pair), Relaying s false →
    s.client.outBuf.length + k * c.val.length ≤ kBackpressureHigh →
    kBackpressureHigh < s.client.outBuf.length + (k + 1) * c.val.length →
    wp (onReadable cfg n) (fun _ s' w' => w' = [] ∧ Relaying s' true ∧
        kBackpressureHigh < s'.client.outBuf.length) (fun e _ => e = .fuel) s
      (turns c (k + 1)) := by
  intro k
  induction k with
  | zero =>
      intro n s h _ hlong
      refine wp_turn h (fun _ => rfl) fun m => ?_
      have hfull := h.turned_full (c := c) (by omega)
      obtain ⟨b, hb, -, hp⟩ := hfull.object
      cases m with
      | zero => rfl
      | succ m =>
          simp only [onReadable, wp_bind, wp_self hb, wp_ite, wp_pure, hp]
          refine ⟨fun _ => ⟨rfl, hfull, ?_⟩, fun hno => absurd trivial hno⟩
          rw [length_turned]
          omega
  | succ k ih =>
      intro n s h hshort hlong
      refine wp_turn h (fun _ => rfl) fun m => ?_
      have hpos : 0 < c.val.length := List.length_pos_iff.mpr c.property.1
      rw [Nat.succ_mul] at hshort
      rw [Nat.succ_mul] at hlong
      have hlen := length_turned (s := s) (c := c)
      exact ih m _ (h.turned_short (by omega)) (by omega) (by omega)

/-- Bytes the backend sent before its EOF wait in `out_` of a connection that is to close. -/
structure Owing (s : Pair) : Prop where
  opened : s.client.closed = false
  state : s.client.state = .closing
  unsent : s.client.outBuf ≠ []
  ended : s.hist.response = some (s.hist.toClient ++ s.client.outBuf)
  forwarded : s.hist.forwarded = true
  clean : Clean s

/-- EOF, to a client that is blocked. -/
theorem wp_eof {Q : Unit → Pair → List Answer → Prop} {H : Halt → Pair → Prop}
    (h : Relaying s false) (hout : s.client.outBuf ≠ []) (hfuel : ∀ s', H .fuel s')
    (hrest : ∀ s', Owing s' → Q () s' w) :
    wp (onReadable cfg n) Q H s
      ({ res := .read .eof } :: { res := .send .wouldBlockWrite } :: w) := by
  obtain ⟨b, hb, hcl, hp⟩ := h.object
  cases n with
  | zero => exact hfuel _
  | succ n =>
      simp only [onReadable, wp_bind, wp_self hb, wp_ite, wp_pure, hp]
      refine ⟨(by rintro ⟨⟩), fun _ => ?_⟩
      rw [backendRead, sysCall]
      rw [wp_await_some (by rfl)]
      simp only [wp_bind, wp_modify, wp_ite, hcl]
      refine ⟨fun _ => ?_, fun hno => absurd trivial hno⟩
      cases n with
      | zero => exact hfuel _
      | succ n =>
          simp only [onBackendClosed, wp_bind, wp_modify]
          cases n with
          | zero => exact hfuel _
          | succ n =>
              have hne : ¬ (setState .closing (detachBackend (detachClient
                  (noteRead .eof (tick 0 s))))).client.outBuf = [] := hout
              simp only [pumpWrite, wp_bind, wp_get, wp_ite, hne]
              refine ⟨(by rintro ⟨⟩), fun _ => ?_⟩
              rw [transportSend, sysCall]
              rw [wp_await_some (by rfl)]
              refine hrest _ ?_
              obtain ⟨mask, mods, failed, heq, -, -⟩ := recomputeInterest_cases
                (setWriteBlock .wouldBlockWrite (noteSend .wouldBlockWrite (tick 0 (setState .closing
                  (detachBackend (detachClient (noteRead .eof (tick 0 s))))))))
              rw [finishPump]
              rw [if_neg (by simp [noteSend, tick, setState, detachBackend, detachClient, onBackend,
                noteRead, h.opened]), heq]
              refine ⟨h.opened, rfl, hout, ?_, h.forwarded, h.clean⟩
              show s.hist.response.or (some s.hist.fromBackend) = _
              rw [h.awaited, h.whole]
              rfl

/-- One more byte than a client that has drained `out_` will take, then EOF. -/
def lastByte : Chunk := ⟨[0], by decide⟩

/-- The pump of a paused connection on such a script: the response is cut short. -/
theorem wp_pump_lost (h : Relaying s true) (hout : s.client.outBuf ≠ []) :
    wp (pumpWrite cfg n) (fun _ s' w' => w' = [] ∧ s'.client.closed = true ∧
        s'.hist.forwarded = true ∧ Clean s' ∧
        ∃ R, s'.hist.response = some R ∧ s'.hist.toClient ≠ R)
      (fun e _ => e = .fuel) s
      ({ res := .send (.ok ⟨s.client.outBuf.length, List.length_pos_iff.mpr hout⟩) } ::
        turns lastByte 1 ++ [{ res := .read .eof }, { res := .send .wouldBlockWrite }]) := by
  obtain ⟨b, hb, hcl, hp⟩ := h.object
  cases n with
  | zero => rfl
  | succ n =>
      simp only [pumpWrite, wp_bind, wp_get, wp_ite, hout, List.cons_append]
      refine ⟨(by rintro ⟨⟩), fun _ => ?_⟩
      rw [transportSend, sysCall]
      rw [wp_await_some (by rfl)]
      simp only [wp_bind, wp_modify]
      generalize hs₁ : acceptSent ⟨s.client.outBuf.length, List.length_pos_iff.mpr hout⟩
        (noteSend _ (tick 0 s)) = s₁
      have hout₁ : s₁.client.outBuf = [] := by
        rw [← hs₁]
        simp [acceptSent, touchClient, noteSend, tick]
      have h₁ : Relaying s₁ true := by
        rw [← hs₁]
        refine ⟨h.1, h.2, h.3, h.4, ?_, h.6, h.7, h.8, h.9, h.10, h.11⟩
        simp [acceptSent, touchClient, noteSend, tick, h.whole]
      cases n with
      | zero => rfl
      | succ n =>
          simp only [pumpWrite, wp_bind, wp_get, wp_ite, wp_modify, wp_pure, hout₁]
          refine ⟨fun _ => ⟨fun _ => ?_, fun hno => absurd ⟨h₁.flag, h₁.linked⟩ hno⟩,
            fun hno => absurd trivial hno⟩
          rw [wp_viaBackend (show (releaseBackend s₁).client.hasBackend = true from h₁.linked)]
          obtain ⟨b₁, hb₁, hcl₁, hp₁⟩ := h₁.object
          cases n with
          | zero => rfl
          | succ n =>
              simp only [resumeReads, wp_bind, wp_ite, wp_modify, wp_pure,
                wp_self (show (releaseBackend s₁).backend = some b₁ from hb₁), hp₁]
              refine ⟨fun _ => ?_, fun hno => absurd trivial hno⟩
              -- the resumed backend: both flags down
              have h₂ : Relaying (unpauseReads (releaseBackend s₁)) false := by
                refine Relaying.applyInterest ⟨h₁.1, h₁.2, rfl, ⟨{ b₁ with readPaused := false },
                  ?_, hcl₁, rfl⟩, h₁.5, h₁.6, h₁.7, h₁.8, h₁.9, h₁.10, h₁.11⟩
                simp [setReads, onBackend, releaseBackend, hb₁]
              have hout₂ : (unpauseReads (releaseBackend s₁)).client.outBuf = [] := by
                have hv := (deliveryView_applyInterest (s := setReads false (releaseBackend s₁))).1
                simp only [deliveryView, Prod.mk.injEq] at hv
                exact hv.2.2.2.2.2.2.2.2.2.trans hout₁
              generalize unpauseReads (releaseBackend s₁) = s₂ at h₂ hout₂ ⊢
              refine wp_turn h₂ (fun _ => rfl) fun m => ?_
              have h₃ := h₂.turned_short (c := lastByte) (by rw [hout₂]; decide)
              have hlen := length_turned (s := s₂) (c := lastByte)
              refine wp_eof h₃ ?_ (fun _ => rfl) fun s' hs' => ?_
              · intro hnil
                rw [hnil, hout₂] at hlen
                cases hlen
              · refine ⟨rfl, ?_⟩
                rw [closeIfClosing]
                rw [if_pos hs'.state, closeBoth_of_open hs'.opened]
                exact ⟨rfl, hs'.forwarded, hs'.clean, _, hs'.ended,
                  fun heq => hs'.unsent (List.self_eq_append_right.mp heq)⟩

/-- The callback that cuts the response short. -/
def hurried (s : Pair) (h : s.client.outBuf ≠ []) : List Answer :=
  { res := .recv .wouldBlockRead } ::
    { res := .send (.ok ⟨s.client.outBuf.length, List.length_pos_iff.mpr h⟩) } ::
    turns lastByte 1 ++ [{ res := .read .eof }, { res := .send .wouldBlockWrite }]

theorem wp_drive_lost (h : Relaying s true) (hout : s.client.outBuf ≠ []) :
    wp (drive cfg n) (fun _ s' w' => w' = [] ∧ s'.client.closed = true ∧
        s'.hist.forwarded = true ∧ Clean s' ∧
        ∃ R, s'.hist.response = some R ∧ s'.hist.toClient ≠ R)
      (fun e _ => e = .fuel) s (hurried s hout) := by
  cases n with
  | zero => rfl
  | succ n =>
      simp only [drive, wp_bind, wp_get, wp_ite, wp_pure, h.opened, h.shaken]
      refine ⟨(by rintro ⟨⟩), fun _ => ⟨fun _ => ?_, fun hno => absurd trivial hno⟩⟩
      cases n with
      | zero => rfl
      | succ n =>
          simp only [drivePumps, wp_bind, wp_modify, wp_get, wp_ite, wp_pure]
          cases n with
          | zero => rfl
          | succ n =>
              simp only [pumpRead, wp_bind, wp_get, wp_ite, wp_pure, h.reading.1, h.reading.2]
              refine ⟨fun hno => ?_, fun _ => ?_⟩
              · rcases hno with hno | hno <;> cases hno
              rw [transportRecv, sysCall, hurried]
              rw [List.cons_append, wp_await_some (by rfl)]
              refine ⟨fun hno => absurd (h.opened.symm.trans hno) (by simp), fun _ => ?_⟩
              have h' : Relaying (setReadBlock .wouldBlockRead (noteRecv .wouldBlockRead
                  (tick 0 s))) true :=
                ⟨h.1, h.2, h.3, h.4, h.5, h.6, h.7, h.8, h.9, h.10, h.11⟩
              refine wp_mono (wp_pump_lost h' hout) ?_ fun _ _ hh => hh
              rintro st s' w' ⟨hw, hclosed, hrest⟩
              refine ⟨hw, ?_⟩
              rw [finishPump]
              rw [if_pos hclosed]
              exact ⟨hclosed, hrest⟩

/-- A callback whose code can only run out of fuel returns. -/
theorem dispatch_returns (cb : Callback) {P : Pair → Prop}
    (h : wp (dispatch cfg cb) (fun _ s' w' => w' = [] ∧ P s') (fun e _ => e = .fuel) s w) :
    ∃ s', dispatch cfg cb s w = .ret () s' [] ∧ P s' := by
  have hfuel : Fueled (dispatch cfg cb) s w := dispatch_fuel cb
  rw [Fueled, wp] at hfuel
  rw [wp] at h
  cases hrun : dispatch cfg cb s w with
  | ret a s' w' =>
      rw [hrun] at h
      obtain ⟨rfl, hp⟩ := h
      exact ⟨s', rfl, hp⟩
  | halt e s' =>
      rw [hrun] at h hfuel
      exact absurd h hfuel

theorem exists_full_chunk : ∃ c : Chunk, c.val.length = 16384 := by
  have hlen : (List.replicate 16384 (0 : UInt8)).length = 16384 := List.length_replicate
  refine ⟨⟨List.replicate 16384 0, fun hnil => ?_, hlen.le⟩, hlen⟩
  rw [hnil] at hlen
  cases hlen

/-- A response is about to begin. -/
def relayStart (s : Pair) : Bool :=
  !s.client.closed && s.client.hasBackend && !s.client.backendPaused &&
    s.backend.any (fun b => b.hasClient && !b.readPaused) && s.hist.fromBackend.isEmpty &&
    s.hist.toClient.isEmpty && s.client.outBuf.isEmpty && s.hist.response.isNone &&
    s.hist.forwarded && !s.hist.backendError && !s.hist.clientFailed && !s.hist.aborted &&
    s.client.state == .streaming && s.client.handshakeDone && !s.client.readPaused &&
    !s.client.clientEof

theorem Relaying.of_start (h : relayStart s = true) :
    Relaying s false ∧ s.client.outBuf = [] := by
  simp only [relayStart, Bool.and_eq_true, Bool.not_eq_true', List.isEmpty_iff,
    Option.isNone_iff_eq_none, beq_iff_eq, Option.any_eq_true] at h
  obtain ⟨⟨⟨⟨⟨⟨⟨⟨⟨⟨⟨⟨⟨⟨⟨h1, h2⟩, h3⟩, hobj⟩, h5⟩, h6⟩, h7⟩, h8⟩, h9⟩, hc₁⟩, hc₂⟩, hc₃⟩, h10⟩,
    h11⟩, h12⟩, h13⟩ := h
  exact ⟨⟨h1, h2, h3, hobj, by rw [h5, h6, h7]; rfl, h8, h9, ⟨hc₁, hc₂, hc₃⟩, h10, h11,
    ⟨h12, h13⟩⟩, h7⟩

/-- A replay that ends there. -/
theorem Relaying.of_replay {ok : Pair → Callback → List Answer → Bool} {s₀ : Pair}
    {calls : List (Callback × List Answer)}
    (h : (replay (dispatch cfg) ok calls s₀).any relayStart = true) : ∃ s,
    Reaches (dispatch cfg) (fun s cb w => ok s cb w = true) s₀ s ∧ Relaying s false ∧
      s.client.outBuf = [] := by
  obtain ⟨s, hrun, hs⟩ := (Option.any_eq_true _ _).mp h
  exact ⟨s, reaches_replay .init hrun, Relaying.of_start hs⟩

theorem demoSent_relaying : ∃ s,
    Reaches (dispatch demoCfg) (fun s cb w => undisturbed demoCfg s cb w = true)
      (newPair 0 []) s ∧ Relaying s false ∧ s.client.outBuf = [] :=
  Relaying.of_replay (show (replay (dispatch demoCfg) (undisturbed demoCfg) demoSent
    (newPair 0 [])).any relayStart = true by decide +kernel)

/-- Seventeen full reads against a blocked client pause the backend. -/
theorem Relaying.pauses (h : Relaying s false) (hout : s.client.outBuf = []) :
    ∃ w s', dispatch cfg .backendReadable s w = .ret () s' [] ∧ Relaying s' true ∧
      kBackpressureHigh < s'.client.outBuf.length := by
  obtain ⟨c, hlen⟩ := exists_full_chunk
  obtain ⟨s', hrun, h'⟩ := dispatch_returns .backendReadable
    (wp_dispatch.mpr (wp_turns (c := c) 16 (fuelFor (turns c (16 + 1))) s h
      (by rw [hout, hlen]; decide) (by rw [hout, hlen]; decide)))
  exact ⟨_, s', hrun, h'⟩

/-- Once the backend is paused the client takes what is queued, one more byte and EOF follow,
    and the connection is closed with that byte unsent. -/
theorem response_lost : ∃ s R, ObservedBy demoCfg (undisturbed demoCfg) s ∧
    s.hist.forwarded = true ∧ Clean s ∧ s.client.closed = true ∧
    s.hist.response = some R ∧ s.hist.toClient ≠ R := by
  obtain ⟨s₀, hr₀, h₀, hout₀⟩ := demoSent_relaying
  have hinv : ∀ {s}, Reaches (dispatch demoCfg) (fun s cb w => undisturbed demoCfg s cb w = true)
      (newPair 0 []) s → PairInv demoCfg s := fun hr =>
    reaches_inv (I := PairInv demoCfg) newPair_inv (fun _ _ _ hi hok =>
      step_safe hi (Bool.and_eq_true_iff.mp hok).1) hr
  -- the backend is read until it is paused
  obtain ⟨w₁, s₁, hrun₁, h₁, -⟩ := h₀.pauses hout₀
  obtain ⟨b, hb, -⟩ := h₀.object
  have hok₁ : undisturbed demoCfg s₀ .backendReadable w₁ = true := by
    simp [undisturbed, enabled, (hinv hr₀).settled.backendIn (by simp [hb])]
  have hr₁ := hr₀.step hok₁ hrun₁
  have hi₁ := hinv hr₁
  have hout₁ : s₁.client.outBuf ≠ [] := hi₁.settled.steady.pausedFull h₁.opened h₁.flag
  -- the client takes everything and blocks again
  obtain ⟨s₂, hrun₂, hclosed, hfwd, hclean, R, hR, hne⟩ :=
    dispatch_returns .clientWritable
      (wp_dispatch.mpr (wp_drive_lost (n := fuelFor (hurried s₁ hout₁)) h₁ hout₁))
  have hpend : s₁.clientPending = false := by
    cases hp : s₁.clientPending with
    | false => rfl
    | true =>
        exact absurd ((hi₁.settled.steady.clientPending hp).symm.trans h₁.opened) (by simp)
  have hok₂ : undisturbed demoCfg s₁ .clientWritable (hurried s₁ hout₁) = true := by
    simp [undisturbed, enabled, hi₁.settled.clientIn h₁.opened, hpend]
  exact ⟨s₂, R, ⟨0, [], .inl (hr₁.step hok₂ hrun₂)⟩, hfwd, hclean, hclosed, hR, hne⟩

end CastlePlus
