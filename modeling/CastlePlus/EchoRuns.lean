import CastlePlus.EchoConnection

/-! # Runs of the echo connection

    The callbacks of an `EchoConnection` in any order, with any results of `read` and `write`.
    `EventLoop::run` makes no callback on a handler that is in `pending_close_`, and destroys it at
    the end of the batch.

    Whatever comes in goes out in order.  After a callback that schedules no close, `want_write_`
    and `EPOLLOUT` are on exactly when bytes are left; and behind EOF the close is scheduled with
    the last byte (**`echo_fsm`**). -/

namespace CastlePlus

open ScriptProg

/-- The callbacks. -/
inductive EchoCall where
  | readable
  | writable
  | error
  deriving DecidableEq

/-- `read` or `write` fails, and the code gives up on the connection. -/
def EchoResult.isHard : EchoResult → Bool
  | .read .error => true
  | .write .error => true
  | _ => false

namespace EchoConnection

def callback : EchoCall → Prog EchoResult Halt EchoConnection Unit
  | .readable => onReadable
  | .writable => onWritable
  | .error => onError

/-- The loop makes no callback behind a close that is scheduled. -/
def callable (s : EchoConnection) (_ : EchoCall) (_ : List EchoResult) : Bool := !s.pending

/-- A sequence of callbacks, each with the results it gets, from a connection as the listener has
    registered it. -/
def echoRun (calls : List (EchoCall × List EchoResult)) : Option EchoConnection :=
  replay callback callable calls {}

/-- A hard error among the calls. -/
def HardError (calls : List (EchoCall × List EchoResult)) : Prop :=
  ∃ c ∈ calls, c.1 = .error ∨ ∃ r ∈ c.2, r.isHard = true

instance (calls : List (EchoCall × List EchoResult)) : Decidable (HardError calls) :=
  inferInstanceAs (Decidable (∃ c ∈ calls, c.1 = .error ∨ ∃ r ∈ c.2, r.isHard = true))

/-! ## What the results say -/

/-- The bytes that the reads among the results returned. -/
def dataRead (w : List EchoResult) : Bytes := w.flatMap fun
  | .read (.data c) => c.val
  | _ => []

/-- How many bytes `write` took. -/
def countTaken (w : List EchoResult) : Nat := (w.map fun
  | .write (.wrote k) => k.val
  | _ => 0).sum

/-- One of the reads came to the end. -/
def EofAmong (w : List EchoResult) : Prop := .read .eof ∈ w

/-- The connection against its socket: of the bytes `data` the reads to come are still missing, of
    the `taken` ones the writes to come, and `eof` says whether EOF has been or will be read. -/
structure Owes (data : Bytes) (taken : Nat) (eof : Prop) (s : EchoConnection)
    (w : List EchoResult) : Prop where
  data : s.received ++ dataRead w = data
  taken : s.written.length + countTaken w = taken
  eof : s.closing = true ∨ EofAmong w ↔ eof

theorem countTaken_cons (i : EchoResult) (w : List EchoResult) :
    countTaken (i :: w) = countTaken [i] + countTaken w := by
  simp only [countTaken, List.map_cons, List.map_nil, List.sum_cons, List.sum_nil, Nat.add_zero]

section Owing

variable {data : Bytes} {taken : Nat} {eof : Prop} {s s' : EchoConnection} {w : List EchoResult}

/-- A result that is neither data nor EOF. -/
theorem Owes.skip {i : EchoResult} (h : Owes data taken eof s (i :: w)) (hdata : dataRead [i] = [])
    (heof : i ≠ .read .eof) (hreceived : s'.received = s.received)
    (hclosing : s'.closing = s.closing)
    (hwritten : s'.written.length = s.written.length + countTaken [i]) :
    Owes data taken eof s' w := by
  have hd : dataRead (i :: w) = dataRead [i] ++ dataRead w := by
    simp only [dataRead, List.flatMap_cons, List.flatMap_nil, List.append_nil]
  have he : EofAmong (i :: w) ↔ EofAmong w := by
    rw [EofAmong, List.mem_cons, or_iff_right (Ne.symm heof), EofAmong]
  refine ⟨?_, ?_, ?_⟩
  · rw [hreceived, ← h.data, hd, hdata, List.nil_append]
  · have := h.taken
    rw [countTaken_cons] at this
    omega
  · rw [hclosing, ← he]
    exact h.eof

theorem Owes.same (h : Owes data taken eof s w) (hreceived : s'.received = s.received)
    (hclosing : s'.closing = s.closing) (hwritten : s'.written = s.written) :
    Owes data taken eof s' w := by
  refine ⟨?_, ?_, ?_⟩
  · rw [hreceived]
    exact h.data
  · rw [hwritten]
    exact h.taken
  · rw [hclosing]
    exact h.eof

theorem Owes.readRound {i : EchoResult} {r : Unit ⊕ Bool} (h : Owes data taken eof s (i :: w))
    (hr : EchoConnection.readRound s i = some (r, s')) : Owes data taken eof s' w := by
  cases i with
  | write => cases hr
  | mod => cases hr
  | read res =>
      have htaken : s.written.length + countTaken w = taken := by
        have hzero : countTaken [.read res] = 0 := rfl
        have := h.taken
        rw [countTaken_cons, hzero] at this
        omega
      cases res with
      | data c =>
          cases hr
          have heof : EchoResult.read .eof ≠ .read (.data c) := by simp
          refine ⟨?_, htaken, ?_⟩
          · rw [← h.data]
            exact List.append_assoc ..
          · rw [← h.eof]
            show _ ∨ _ ∈ w ↔ _ ∨ _ ∈ EchoResult.read (.data c) :: w
            rw [List.mem_cons, or_iff_right heof]
      | eof =>
          cases hr
          refine ⟨h.data, htaken, ?_⟩
          rw [← h.eof]
          exact iff_of_true (.inl rfl) (.inr List.mem_cons_self)
      | again =>
          cases hr
          exact h.skip rfl (by simp) rfl rfl rfl
      | intr =>
          cases hr
          exact h.skip rfl (by simp) rfl rfl rfl
      | error =>
          cases hr
          exact h.skip rfl (by simp) rfl rfl rfl

theorem Owes.writeRound {off : Nat} {i : EchoResult} {r : Nat ⊕ Option Nat}
    (h : Owes data taken eof s (i :: w)) (hr : EchoConnection.writeRound off s i = some (r, s')) :
    Owes data taken eof s' w := by
  cases i with
  | read => cases hr
  | mod => cases hr
  | write res =>
      cases res with
      | wrote k =>
          rw [EchoConnection.writeRound] at hr
          split at hr
          · rename_i hle
            cases hr
            refine h.skip rfl (by simp) rfl rfl ?_
            show (s.written ++ (s.outBuf.drop off).take k.val).length = _ + (k.val + 0)
            rw [List.length_append, List.length_take, List.length_drop]
            omega
          · cases hr
      | again =>
          cases hr
          exact h.skip rfl (by simp) rfl rfl rfl
      | intr =>
          cases hr
          exact h.skip rfl (by simp) rfl rfl rfl
      | error =>
          cases hr
          exact h.skip rfl (by simp) rfl rfl rfl

theorem keeps_update (ev : Mask) : Keeps (Owes data taken eof) (update ev) := by
  refine .await fun i a g s w hk h => ?_
  cases i with
  | read => cases hk
  | write => cases hk
  | mod ok =>
      cases hk
      cases ok with
      | true => exact h.skip rfl (by simp) rfl rfl rfl
      | false => exact h.skip rfl (by simp) rfl rfl rfl

theorem keeps_requestClose : Keeps (Owes data taken eof)
    (modify requestClose : Prog EchoResult Halt EchoConnection Unit) :=
  .modify fun _ _ h => h.same rfl rfl rfl

theorem keeps_flush : Keeps (Owes data taken eof) flush := by
  have hset : ∀ b, Keeps (Owes data taken eof)
      (modify (setWantWrite b) : Prog EchoResult Halt EchoConnection Unit) :=
    fun b => .modify fun _ _ h => h.same rfl rfl rfl
  refine .bind (.loop (fun _ _ _ _ _ _ hb h => h.writeRound hb) 0) fun r => ?_
  cases r with
  | none => exact .pure _
  | some off =>
      refine .bind (.modify fun _ _ h => h.same rfl rfl rfl) fun _ => .get_bind fun s => ?_
      refine .ite (.ite keeps_requestClose (.ite ?_ (.pure _))) (.ite ?_ (.pure _))
      · exact .bind (keeps_update _) fun _ => hset false
      · exact .bind (keeps_update _) fun _ => hset true

theorem keeps_callback (call : EchoCall) : Keeps (Owes data taken eof) (callback call) := by
  cases call with
  | readable =>
      refine .bind (.loop (fun _ _ _ _ _ _ hb h => h.readRound hb) ()) fun drained => ?_
      exact .ite keeps_flush (.pure _)
  | writable => exact keeps_flush
  | error => exact keeps_requestClose

end Owing

/-- The results of a run, one after the other. -/
def resultsOf (calls : List (EchoCall × List EchoResult)) : List EchoResult :=
  calls.flatMap Prod.snd

/-- A run settles with the socket. -/
theorem run_owes {calls : List (EchoCall × List EchoResult)} {s s' : EchoConnection}
    (hrun : replay callback callable calls s = some s') :
    s'.received = s.received ++ dataRead (resultsOf calls) ∧
      s'.written.length = s.written.length + countTaken (resultsOf calls) ∧
      (s'.closing = true ↔ s.closing = true ∨ EofAmong (resultsOf calls)) := by
  induction calls generalizing s with
  | nil =>
      cases hrun
      exact ⟨(List.append_nil _).symm, rfl, (or_iff_left List.not_mem_nil).symm⟩
  | cons c calls ih =>
      obtain ⟨call, w⟩ := c
      rw [replay] at hrun
      split at hrun
      · split at hrun
        · rename_i s₁ hret
          obtain ⟨hdata, htaken, heof⟩ := ih hrun
          have howes : Owes (s.received ++ dataRead w) (s.written.length + countTaken w)
              (s.closing = true ∨ EofAmong w) s w := ⟨rfl, rfl, Iff.rfl⟩
          have hwp := keeps_callback call s w howes
          rw [wp, hret] at hwp
          have hd : s₁.received = s.received ++ dataRead w :=
            (List.append_nil _).symm.trans hwp.data
          have ht : s₁.written.length = s.written.length + countTaken w := hwp.taken
          have he : s₁.closing = true ↔ s.closing = true ∨ EofAmong w :=
            (or_iff_left List.not_mem_nil).symm.trans hwp.eof
          have hcons : resultsOf ((call, w) :: calls) = w ++ resultsOf calls := rfl
          rw [hcons]
          refine ⟨?_, ?_, ?_⟩
          · rw [hdata, hd, dataRead, dataRead, dataRead, List.flatMap_append, List.append_assoc]
          · simp only [countTaken, List.map_append, List.sum_append] at htaken ht ⊢
            omega
          · rw [heof, he, EofAmong, EofAmong, EofAmong, List.mem_append, or_assoc]
        · cases hrun
      · cases hrun

/-! ## What a callback leaves -/

/-- Nothing is lost or reordered, and the mask follows `want_write_`. -/
structure Echoing (s : EchoConnection) : Prop where
  echoed : s.written ++ s.outBuf = s.received
  mask : s.modFailed = false → s.mask.out = s.wantWrite
  pending : s.pending = false

/-- The same after a callback that schedules no close. -/
structure Settled (s : EchoConnection) : Prop extends Echoing s where
  want : s.wantWrite = true ↔ s.outBuf ≠ []
  /-- behind EOF there is something left to write -/
  owed : s.closing = true → s.outBuf ≠ []

/-- EOF was read and all is written. -/
structure Finished (s : EchoConnection) : Prop where
  closing : s.closing = true
  drained : s.outBuf = []
  echoed : s.written = s.received
  pending : s.pending = true

/-- A callback that got the results `w`. -/
def Left (w : List EchoResult) (s : EchoConnection) : Prop :=
  Settled s ∨ Finished s ∨ s.pending = true ∧ ∃ r ∈ w, r.isHard = true

/-- Inside the loop of `flush`: `off` bytes of `out_` are written. -/
structure Flushing (off : Nat) (s : EchoConnection) : Prop where
  echoed : s.written ++ s.outBuf.drop off = s.received
  mask : s.modFailed = false → s.mask.out = s.wantWrite
  pending : s.pending = false

variable {s s' : EchoConnection} {w w₀ : List EchoResult}

/-- One round of it. -/
theorem Flushing.round {off : Nat} (h : Flushing off s) {i : EchoResult} {r : Nat ⊕ Option Nat}
    (hr : writeRound off s i = some (r, s')) :
    (∃ off', r = .inl off' ∧ Flushing off' s') ∨ (r = .inr (some off) ∧ Flushing off s') ∨
      r = .inr none ∧ s'.pending = true ∧ i.isHard = true := by
  cases i with
  | read => cases hr
  | mod => cases hr
  | write res =>
      cases res with
      | wrote k =>
          rw [writeRound] at hr
          split at hr
          · cases hr
            refine .inl ⟨_, rfl, ?_, h.mask, h.pending⟩
            show (s.written ++ (s.outBuf.drop off).take _) ++ s.outBuf.drop _ = s.received
            rw [List.append_assoc, ← List.drop_drop, List.take_append_drop]
            exact h.echoed
          · cases hr
      | again =>
          cases hr
          exact .inr (.inl ⟨rfl, h⟩)
      | intr =>
          cases hr
          exact .inl ⟨off, rfl, h⟩
      | error =>
          cases hr
          exact .inr (.inr ⟨rfl, rfl, rfl⟩)

theorem wp_flushLoop (h : Echoing s) (hw : w <:+ w₀) :
    wp flushLoop (fun r s' _ => match r with
      | some off => Flushing off s'
      | none => s'.pending = true ∧ ∃ r ∈ w₀, r.isHard = true) (fun _ _ => True) s w := by
  refine wp_loop (fun off s' w' => Flushing off s' ∧ w' <:+ w₀) ?_ (fun _ _ _ _ => trivial) ?_ ?_
    ⟨⟨h.echoed, h.mask, h.pending⟩, hw⟩
  · intro off s' w' r hI hexit
    split at hexit
    · cases hexit
    · cases hexit
      exact hI.1
  · intro off s' i w' off' s'' hI _ hbody
    rcases hI.1.round hbody with ⟨_, heq, hF⟩ | ⟨heq, -⟩ | ⟨heq, -⟩
    · cases heq
      exact ⟨hF, (List.suffix_cons i w').trans hI.2⟩
    · cases heq
    · cases heq
  · intro off s' i w' r s'' hI _ hbody
    rcases hI.1.round hbody with ⟨_, heq, -⟩ | ⟨heq, hF⟩ | ⟨heq, hpend, hhard⟩
    · cases heq
    · cases heq
      exact hF
    · cases heq
      exact ⟨hpend, i, hI.2.subset List.mem_cons_self, hhard⟩

/-- `update` and the flag behind it. -/
theorem wp_setWant (h : Echoing s) (b : Bool) (hb : b = true ↔ s.outBuf ≠ [])
    (howed : s.closing = true → s.outBuf ≠ []) :
    wp (do update ⟨true, b⟩; modify (setWantWrite b)) (fun _ s' _ => Settled s')
      (fun _ _ => True) s w := by
  rw [wp_bind]
  refine wp_await _ _ trivial fun i a g w' _ hk => ?_
  cases i with
  | read => cases hk
  | write => cases hk
  | mod ok =>
      cases hk
      cases ok with
      | true => exact ⟨⟨h.echoed, fun _ => rfl, h.pending⟩, hb, howed⟩
      | false => exact ⟨⟨h.echoed, fun hmod => (by cases hmod), h.pending⟩, hb, howed⟩

/-- The end of `flush`. -/
theorem wp_settle (h : Echoing s) :
    wp settle (fun _ s' _ => Settled s' ∨ Finished s') (fun _ _ => True) s w := by
  rw [settle, wp_bind, wp_get, wp_ite]
  refine ⟨fun hempty => ?_, fun hleft => ?_⟩
  · rw [wp_ite]
    refine ⟨fun hclosing => .inr ⟨hclosing, hempty, ?_, rfl⟩, fun hopen => ?_⟩
    · have := h.echoed
      rwa [hempty, List.append_nil] at this
    · have howed : s.closing = true → s.outBuf ≠ [] := fun hc => absurd hc hopen
      rw [wp_ite]
      refine ⟨fun _ => ?_, fun hwant => .inl ⟨h, ?_, howed⟩⟩
      · exact wp_mono (wp_setWant h false (by simp [hempty]) howed) (fun _ _ _ hs => .inl hs)
          fun _ _ _ => trivial
      · exact ⟨fun hw => absurd hw hwant, fun hne => absurd hempty hne⟩
  · rw [wp_ite]
    refine ⟨fun _ => ?_, fun hwant => .inl ⟨h, ?_, fun _ => hleft⟩⟩
    · exact wp_mono (wp_setWant h true (by simp [hleft]) fun _ => hleft) (fun _ _ _ hs => .inl hs)
        fun _ _ _ => trivial
    · exact ⟨fun _ => hleft, fun _ => not_not.mp hwant⟩

theorem wp_flush (h : Echoing s) (hw : w <:+ w₀) :
    wp flush (fun _ s' _ => Left w₀ s') (fun _ _ => True) s w := by
  rw [flush, wp_bind]
  refine wp_mono (wp_flushLoop h hw) (fun r s₁ w₁ hr => ?_) fun _ _ _ => trivial
  cases r with
  | none => exact .inr (.inr hr)
  | some off =>
      have hechoing : Echoing (eraseOut off s₁) := ⟨hr.echoed, hr.mask, hr.pending⟩
      show wp (modify (eraseOut off) >>= fun _ => settle) _ _ s₁ w₁
      rw [wp_bind, wp_modify]
      refine wp_mono (wp_settle hechoing) (fun _ s₂ _ hs => ?_) fun _ _ _ => trivial
      exact hs.imp_right .inl

/-- One round of the loop of `on_readable`. -/
theorem Echoing.readRound (h : Echoing s) {i : EchoResult} {r : Unit ⊕ Bool}
    (hr : readRound s i = some (r, s')) :
    (r ≠ .inr false ∧ Echoing s') ∨ (r = .inr false ∧ s'.pending = true ∧ i.isHard = true) := by
  cases i with
  | write => cases hr
  | mod => cases hr
  | read res =>
      cases res with
      | data c =>
          cases hr
          refine .inl ⟨by simp, ?_, h.mask, h.pending⟩
          show s.written ++ (s.outBuf ++ c.val) = s.received ++ c.val
          rw [← List.append_assoc, h.echoed]
      | eof =>
          cases hr
          exact .inl ⟨by simp, h.echoed, h.mask, h.pending⟩
      | again =>
          cases hr
          exact .inl ⟨by simp, h.echoed, h.mask, h.pending⟩
      | intr =>
          cases hr
          exact .inl ⟨by simp, h.echoed, h.mask, h.pending⟩
      | error =>
          cases hr
          exact .inr ⟨rfl, rfl, rfl⟩

theorem wp_onReadable (h : Echoing s) :
    wp onReadable (fun _ s' _ => Left w s') (fun _ _ => True) s w := by
  rw [onReadable, wp_bind]
  refine wp_loop (fun _ s' w' => Echoing s' ∧ w' <:+ w) (fun _ _ _ _ _ hexit => by cases hexit)
    (fun _ _ _ _ => trivial) ?_ ?_ ⟨h, List.suffix_rfl⟩
  · intro _ s' i w' _ s'' hI _ hbody
    rcases hI.1.readRound hbody with ⟨-, hE⟩ | ⟨heq, -⟩
    · exact ⟨hE, (List.suffix_cons i w').trans hI.2⟩
    · cases heq
  · intro _ s' i w' r s'' hI _ hbody
    rcases hI.1.readRound hbody with ⟨hne, hE⟩ | ⟨heq, hpend, hhard⟩
    · have hr : r = true := by
        cases r with
        | true => rfl
        | false => exact absurd rfl hne
      rw [hr]
      exact wp_flush hE ((List.suffix_cons i w').trans hI.2)
    · cases heq
      exact .inr (.inr ⟨hpend, i, hI.2.subset List.mem_cons_self, hhard⟩)

/-! ## Runs -/

/-- One callback. -/
theorem Settled.callback (h : Settled s) {call : EchoCall} (hrun : callback call s w = .ret () s' []) :
    Settled s' ∨ Finished s' ∨ s'.pending = true ∧ HardError [(call, w)] := by
  cases call with
  | error =>
      cases hrun
      exact .inr (.inr ⟨rfl, _, List.mem_singleton.mpr rfl, .inl rfl⟩)
  | readable =>
      have hwp := wp_onReadable (w := w) h.toEchoing
      rw [wp, show onReadable s w = .ret () s' [] from hrun] at hwp
      exact hwp.imp_right (.imp_right fun hp =>
        ⟨hp.1, _, List.mem_singleton.mpr rfl, .inr hp.2⟩)
  | writable =>
      have hwp := wp_flush (w := w) h.toEchoing List.suffix_rfl
      rw [wp, show flush s w = .ret () s' [] from hrun] at hwp
      exact hwp.imp_right (.imp_right fun hp =>
        ⟨hp.1, _, List.mem_singleton.mpr rfl, .inr hp.2⟩)

theorem HardError.mono {calls calls' : List (EchoCall × List EchoResult)}
    (h : HardError calls) (hsub : calls ⊆ calls') : HardError calls' := by
  obtain ⟨c, hc, hhard⟩ := h
  exact ⟨c, hsub hc, hhard⟩

/-- A run from a settled state; nothing comes behind a close. -/
theorem Settled.run {calls : List (EchoCall × List EchoResult)} (h : Settled s)
    (hrun : replay EchoConnection.callback callable calls s = some s') :
    Settled s' ∨ Finished s' ∨ s'.pending = true ∧ HardError calls := by
  induction calls generalizing s with
  | nil =>
      cases hrun
      exact .inl h
  | cons c calls ih =>
      obtain ⟨call, w⟩ := c
      rw [replay] at hrun
      split at hrun
      · split at hrun
        · rename_i s₁ hret
          have hstop : s₁.pending = true → s' = s₁ := by
            intro hp
            cases calls with
            | nil => cases hrun; rfl
            | cons c calls =>
                rw [replay, callable, hp] at hrun
                cases hrun
          rcases h.callback hret with hs | hf | ⟨hp, hhard⟩
          · refine (ih hs hrun).imp_right (.imp_right fun hp => ⟨hp.1, hp.2.mono ?_⟩)
            exact List.subset_cons_self _ _
          · rw [hstop hf.pending]
            exact .inr (.inl hf)
          · rw [hstop hp]
            refine .inr (.inr ⟨hp, hhard.mono fun c hc => ?_⟩)
            rw [List.mem_singleton.mp hc]
            exact List.mem_cons_self
        · cases hrun
      · cases hrun

/-- **The echo connection.**  After every sequence of callbacks, with every sequence of results:
    * without a hard error, the bytes written, as many as the writes took, and those in `out_` are
      the bytes that the reads returned, in order; and the close is scheduled exactly if a read
      came to EOF and no byte is left;
    * if no close is scheduled, `want_write_` is on exactly if bytes are left, and so is `EPOLLOUT`
      as far as `epoll_ctl` has done what it was told. -/
theorem echo_fsm {calls : List (EchoCall × List EchoResult)} (h : echoRun calls = some s) :
    (¬ HardError calls → s.written ++ s.outBuf = dataRead (resultsOf calls) ∧
      s.written.length = countTaken (resultsOf calls) ∧
      (s.pending = true ↔ EofAmong (resultsOf calls) ∧ s.outBuf = [])) ∧
    (s.pending = false → (s.wantWrite = true ↔ s.outBuf ≠ []) ∧
      (s.modFailed = false → (s.mask.out = true ↔ s.outBuf ≠ []))) := by
  have hinit : Settled ({} : EchoConnection) :=
    ⟨⟨rfl, fun _ => rfl, rfl⟩, by simp, fun hc => by cases hc⟩
  obtain ⟨hdata, htaken, heof⟩ := run_owes h
  have hreceived : s.received = dataRead (resultsOf calls) := hdata
  have hwritten : s.written.length = countTaken (resultsOf calls) := by
    have hzero : ({} : EchoConnection).written.length = 0 := rfl
    omega
  have hclosing : s.closing = true ↔ EofAmong (resultsOf calls) :=
    heof.trans (or_iff_right Bool.false_ne_true)
  rw [← hreceived, ← hclosing]
  rcases hinit.run h with hs | hf | ⟨hp, hhard⟩
  · refine ⟨fun _ => ⟨hs.echoed, hwritten, ?_⟩, fun _ => ⟨hs.want, fun hmod => ?_⟩⟩
    · rw [hs.pending]
      exact ⟨fun hp => (by cases hp), fun hc => absurd hc.2 (hs.owed hc.1)⟩
    · rw [hs.mask hmod]
      exact hs.want
  · refine ⟨fun _ => ⟨?_, hwritten, fun _ => ⟨hf.closing, hf.drained⟩, fun _ => hf.pending⟩,
      fun hp => ?_⟩
    · rw [hf.drained, List.append_nil]
      exact hf.echoed
    · rw [hf.pending] at hp
      cases hp
  · refine ⟨fun hsoft => absurd hhard hsoft, fun hp' => ?_⟩
    rw [hp] at hp'
    cases hp'

/-- Two bytes, of which one is written at once and the other behind EOF. -/
def twoBytes : List (EchoCall × List EchoResult) :=
  [(.readable, [.read (.data ⟨[1, 2], by decide⟩), .read .again, .write (.wrote ⟨1, Nat.one_pos⟩),
      .write .again, .mod true]),
    (.readable, [.read .eof, .write .again]),
    (.writable, [.write .intr, .write (.wrote ⟨1, Nat.one_pos⟩)])]

theorem echo_fsm_twoBytes : ∃ s, echoRun twoBytes = some s ∧
    s.written ++ s.outBuf = [1, 2] ∧ s.written.length = 2 ∧
      (s.pending = true ↔ EofAmong (resultsOf twoBytes) ∧ s.outBuf = []) := by
  obtain ⟨s, hs⟩ : ∃ s, echoRun twoBytes = some s := ⟨_, rfl⟩
  exact ⟨s, hs, (echo_fsm hs).1 (by decide)⟩

end EchoConnection

end CastlePlus
