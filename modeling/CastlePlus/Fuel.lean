import CastlePlus.Callbacks

/-! # The fuel of a callback is never used up

    Every cycle of calls reads an answer of the script, so `fuelFor` is enough:
    **`dispatch_fuel`**.  The rank of a function is how deep its calls can go before the
    next answer; `enough r w` is the fuel a function of rank `r` needs on the script `w`. -/

namespace CastlePlus

open ScriptProg

variable {cfg : Cfg} {s : Pair} {w : List Answer} {n : Nat}

/-- The fuel for rank `r` on the script `w`. -/
def enough (r : Nat) (w : List Answer) : Nat := 16 * w.length + r

theorem enough_mono {r : Nat} {w' : List Answer} (h : w'.length ≤ w.length) :
    enough r w' ≤ enough r w := Nat.add_le_add_right (Nat.mul_le_mul_left 16 h) r

/-- A call of a function of lower rank. -/
theorem enough_call {k r : Nat} {w' : List Answer} (hn : enough k w ≤ n + 1) (hr : r < k)
    (hw : w'.length ≤ w.length) : enough r w' ≤ n := by
  rw [enough] at hn ⊢
  omega

/-- A call of any rank behind an answer. -/
theorem enough_answer {k r : Nat} {w' : List Answer} (hn : enough k w ≤ n + 1)
    (hw : w'.length < w.length) (hr : r < 16) : enough r w' ≤ n := by
  rw [enough] at hn ⊢
  omega

/-- A callback has fuel for every rank. -/
theorem enough_fuelFor {r : Nat} {w' : List Answer} (hr : r ≤ 16) (hw : w'.length ≤ w.length) :
    enough r w' ≤ fuelFor w := by
  rw [enough, fuelFor]
  omega

/-- Not out of fuel. -/
def NotFuel (e : Halt) (_ : Pair) : Prop := e ≠ .fuel

/-- `p` does not run out of fuel, and hands back a part of its script. -/
def Fueled {α : Type} (p : M α) (s : Pair) (w : List Answer) : Prop :=
  wp p (fun _ _ w' => w'.length ≤ w.length) NotFuel s w

section Rules

variable {α : Type} {p : M α} {Q : α → Pair → List Answer → Prop}

/-- A callee that has enough fuel. -/
theorem Fueled.then (hp : Fueled p s w) (hQ : ∀ a s' w', w'.length ≤ w.length → Q a s' w') :
    wp p Q NotFuel s w := wp_mono hp hQ fun _ _ h => h

/-- A call of the environment makes the script shorter. -/
theorem wp_sysCall_fuel {take : SysResult → Option α} {note : α → Pair → Pair}
    (hQ : ∀ a s' w', w'.length + 1 = w.length → Q a s' w') :
    wp (sysCall take note) Q NotFuel s w :=
  wp_sysCall (by rintro ⟨⟩) fun a w' x hw _ => hQ x _ w' (by simp [hw])

theorem wp_self_fuel {Q : BackendConnection → Pair → List Answer → Prop}
    (hQ : ∀ b, Q b s w) : wp self Q NotFuel s w := by
  simp only [self, wp_bind, wp_get]
  cases s.backend with
  | none => rintro ⟨⟩
  | some b => exact hQ b

theorem wp_viaBackend_fuel (hp : wp p Q NotFuel s w) : wp (viaBackend p) Q NotFuel s w := by
  simp only [viaBackend, wp_bind, wp_get, wp_ite, wp_halt]
  exact ⟨fun _ => hp, fun _ => (by rintro ⟨⟩)⟩

end Rules

/-! ## The response side -/

/-- The ranks of the response side. -/
structure RespFueled (cfg : Cfg) (n : Nat) : Prop where
  onReadable : ∀ s w, enough 1 w ≤ n → Fueled (onReadable cfg n) s w
  resumeReads : ∀ s w, enough 2 w ≤ n → Fueled (resumeReads cfg n) s w
  pumpWrite : ∀ s w, enough 3 w ≤ n → Fueled (pumpWrite cfg n) s w
  deliverToClient : ∀ s w d, enough 4 w ≤ n → Fueled (deliverToClient cfg n d) s w
  onBackendClosed : ∀ s w, enough 4 w ≤ n → Fueled (onBackendClosed cfg n) s w
  sendResponse : ∀ s w r ho, enough 4 w ≤ n → Fueled (sendResponse cfg n r ho) s w
  onBackendError : ∀ s w why, enough 5 w ≤ n → Fueled (onBackendError cfg n why) s w
  fail : ∀ s w why, enough 6 w ≤ n → Fueled (fail cfg n why) s w

theorem onReadable_fuel (ih : RespFueled cfg n) (hn : enough 1 w ≤ n + 1) :
    Fueled (onReadable cfg (n + 1)) s w := by
  rw [Fueled]
  simp only [onReadable, wp_bind, wp_ite, wp_pure]
  refine wp_self_fuel fun b => ⟨fun _ => Nat.le_refl _, fun _ => ?_⟩
  refine wp_sysCall_fuel fun res s₁ w₁ h₁ => ?_
  cases res with
  | data c =>
      simp only [wp_bind, wp_modify, wp_ite]
      have hrest : ∀ s₂ w₂, w₂.length ≤ w₁.length →
          wp (onReadable cfg n) (fun _ _ w' => w'.length ≤ w.length) NotFuel s₂ w₂ :=
        fun s₂ w₂ h₂ => (ih.onReadable s₂ w₂ (enough_answer hn (by omega) (by omega))).then
          fun _ _ _ h₃ => by omega
      refine ⟨fun _ => ?_, fun _ => hrest _ w₁ (Nat.le_refl _)⟩
      exact (ih.deliverToClient _ w₁ _ (enough_answer hn (by omega) (by omega))).then
        fun _ s₂ w₂ h₂ => hrest s₂ w₂ h₂
  | eof =>
      simp only [wp_ite, wp_bind, wp_modify]
      refine ⟨fun _ => ?_, fun _ => by omega⟩
      exact (ih.onBackendClosed _ w₁ (enough_answer hn (by omega) (by omega))).then fun _ _ _ h₂ => by omega
  | again => exact (by omega : w₁.length ≤ w.length)
  | intr => exact (ih.onReadable _ w₁ (enough_answer hn (by omega) (by omega))).then fun _ _ _ h₂ => by omega
  | error => exact (ih.fail _ w₁ _ (enough_answer hn (by omega) (by omega))).then fun _ _ _ h₂ => by omega

theorem pumpWrite_fuel (ih : RespFueled cfg n) (hn : enough 3 w ≤ n + 1) :
    Fueled (pumpWrite cfg (n + 1)) s w := by
  rw [Fueled]
  simp only [pumpWrite, wp_bind, wp_get, wp_ite, wp_modify, wp_pure]
  refine ⟨fun _ => ⟨fun _ => ?_, fun _ => Nat.le_refl _⟩, fun _ => ?_⟩
  · refine wp_viaBackend_fuel ?_
    exact (ih.resumeReads _ w (enough_call hn (by omega) (by omega))).then fun _ _ _ h => h
  · refine wp_sysCall_fuel fun res s₁ w₁ h₁ => ?_
    cases res with
    | ok k => exact (ih.pumpWrite _ w₁ (enough_answer hn (by omega) (by omega))).then fun _ _ _ h₂ => by omega
    | closed => exact (by omega : w₁.length ≤ w.length)
    | error => exact (by omega : w₁.length ≤ w.length)
    | wouldBlockRead => exact (by omega : w₁.length ≤ w.length)
    | wouldBlockWrite => exact (by omega : w₁.length ≤ w.length)

theorem resp_fueled (cfg : Cfg) : ∀ n, RespFueled cfg n := by
  intro n
  induction n with
  | zero => constructor <;> intros <;> unfold enough at * <;> omega
  | succ n ih =>
      have hpump : ∀ {k : Nat} {s w}, 4 ≤ k → enough k w ≤ n + 1 → Fueled (pumpWrite cfg n) s w :=
        fun hk hn => ih.pumpWrite _ _ (enough_call hn (by omega) (Nat.le_refl _))
      refine ⟨fun s w => onReadable_fuel ih, ?_, fun s w => pumpWrite_fuel ih, ?_, ?_, ?_, ?_, ?_⟩ <;>
        unfold Fueled
      · intro s w hn
        simp only [resumeReads, wp_bind, wp_ite, wp_modify, wp_pure]
        refine wp_self_fuel fun b => ⟨fun _ => ?_, fun _ => Nat.le_refl _⟩
        exact (ih.onReadable _ w (enough_call hn (by omega) (by omega))).then fun _ _ _ h => h
      · intro s w d hn
        simp only [deliverToClient, wp_bind, wp_get, wp_ite, wp_modify, wp_pure]
        exact ⟨fun _ => Nat.le_refl _, fun _ => (hpump (by omega) hn).then fun _ _ _ h => h⟩
      · intro s w hn
        simp only [onBackendClosed, wp_bind, wp_modify]
        exact (hpump (by omega) hn).then fun _ _ _ h => h
      · intro s w r ho hn
        simp only [sendResponse, wp_bind, wp_modify]
        exact (hpump (by omega) hn).then fun _ _ _ h => h
      · intro s w why hn
        simp only [onBackendError, wp_bind, wp_get, wp_ite, wp_modify]
        refine ⟨fun _ => Nat.le_refl _, fun _ => ?_⟩
        exact (ih.sendResponse _ w _ _ (enough_call hn (by omega) (by omega))).then fun _ _ _ h => h
      · intro s w why hn
        simp only [fail, wp_bind, wp_ite, wp_modify]
        refine wp_self_fuel fun b => ⟨fun _ => ?_, fun _ => Nat.le_refl _⟩
        exact (ih.onBackendError _ w _ (enough_call hn (by omega) (by omega))).then fun _ _ _ h => h

/-! ## The request side -/

theorem flushLoop_fuel {off : Nat} (hn : enough 1 w ≤ n) : Fueled (flushLoop n off) s w := by
  unfold Fueled
  induction n generalizing s w off with
  | zero => unfold enough at hn; omega
  | succ n ih =>
      unfold enough at hn ih
      simp only [flushLoop, wp_bind, wp_ite, wp_pure]
      refine wp_self_fuel fun b => ⟨fun _ => ?_, fun _ => Nat.le_refl _⟩
      refine wp_sysCall_fuel fun res s₁ w₁ h₁ => ?_
      have hrest : ∀ s₂ off, wp (flushLoop n off) (fun _ _ w' => w'.length ≤ w.length) NotFuel
          s₂ w₁ := fun s₂ off => wp_mono (ih (by omega)) (fun _ _ _ h₂ => by omega) fun _ _ h => h
      cases res with
      | wrote k => exact hrest _ _
      | again => exact (by omega : w₁.length ≤ w.length)
      | intr => exact hrest _ _
      | error => exact (by omega : w₁.length ≤ w.length)

theorem renderHealth_fuel {routes : List Route} {probed : List Backend} {acc : Bytes × Bool} :
    Fueled (renderHealth routes probed acc) s w := by
  rw [Fueled]
  induction routes generalizing s w probed acc with
  | nil => exact Nat.le_refl _
  | cons r rest ih =>
      simp only [renderHealth, wp_ite, wp_bind]
      refine ⟨fun _ => ih, fun _ => ?_⟩
      refine wp_sysCall_fuel fun up s₁ w₁ h₁ => ?_
      exact wp_mono ih (fun _ _ _ h₂ => by omega) fun _ _ h => h

theorem handleInternal_fuel {method target : Bytes} (hn : enough 4 w ≤ n) :
    Fueled (handleInternal cfg n method target) s w := by
  have hreply : ∀ s₁ w₁ r ho, w₁.length ≤ w.length →
      wp (sendResponse cfg n r ho) (fun _ _ w' => w'.length ≤ w.length) NotFuel s₁ w₁ :=
    fun s₁ w₁ r ho h₁ => ((resp_fueled cfg n).sendResponse s₁ w₁ r ho
      ((enough_mono h₁).trans hn)).then fun _ _ _ h₂ => by omega
  rw [Fueled]
  simp only [handleInternal, wp_ite, wp_bind]
  refine ⟨fun _ => hreply _ w _ _ (Nat.le_refl _), fun _ => ⟨fun _ => ?_, fun _ =>
    ⟨fun _ => ?_, fun _ => hreply _ w _ _ (Nat.le_refl _)⟩⟩⟩
  · refine renderHealth_fuel.then ?_
    rintro ⟨body, allUp⟩ s₁ w₁ h₁
    exact ⟨fun _ => hreply s₁ w₁ _ _ h₁, fun _ => hreply s₁ w₁ _ _ h₁⟩
  · exact wp_sysCall_fuel fun text s₁ w₁ h₁ => hreply s₁ w₁ _ _ (by omega)

theorem endForward_fuel : Fueled endForward s w := by
  rw [Fueled]
  simp only [endForward, wp_bind, wp_get, wp_ite, wp_modify, wp_pure]
  refine ⟨fun _ => Nat.le_refl _, fun _ => wp_viaBackend_fuel ?_⟩
  simp only [pendingBytes, wp_bind, wp_pure]
  exact wp_self_fuel fun b => ⟨fun _ => Nat.le_refl _, fun _ => Nat.le_refl _⟩

/-- The ranks of the request side. -/
structure ReqFueled (cfg : Cfg) (n : Nat) : Prop where
  pumpRead : ∀ s w, enough 1 w ≤ n → Fueled (pumpRead cfg n) s w
  drivePumps : ∀ s w, enough 4 w ≤ n → Fueled (drivePumps cfg n) s w
  drive : ∀ s w, enough 5 w ≤ n → Fueled (drive cfg n) s w
  onBackendDrained : ∀ s w, enough 6 w ≤ n → Fueled (onBackendDrained cfg n) s w
  flush : ∀ s w, enough 7 w ≤ n → Fueled (flush cfg n) s w
  send : ∀ s w d, enough 8 w ≤ n → Fueled (send cfg n d) s w
  forwardBody : ∀ s w d, enough 9 w ≤ n → Fueled (forwardBody cfg n d) s w
  startBackend : ∀ s w, enough 9 w ≤ n → Fueled (startBackend cfg n) s w
  beginUpload : ∀ s w, enough 10 w ≤ n → Fueled (beginUpload cfg n) s w
  processHead : ∀ s w, enough 11 w ≤ n → Fueled (processHead cfg n) s w
  handleClientBytes : ∀ s w d, enough 12 w ≤ n → Fueled (handleClientBytes cfg n d) s w

theorem pumpRead_fuel (ih : ReqFueled cfg n) (hn : enough 1 w ≤ n + 1) :
    Fueled (pumpRead cfg (n + 1)) s w := by
  rw [Fueled]
  simp only [pumpRead, wp_bind, wp_get, wp_ite, wp_pure]
  refine ⟨fun _ => Nat.le_refl _, fun _ => ?_⟩
  refine wp_sysCall_fuel fun res s₁ w₁ h₁ => ?_
  have hle : w₁.length ≤ w.length := by omega
  cases res with
  | ok c =>
      simp only [wp_bind, wp_modify, wp_get, wp_ite, wp_pure]
      refine (ih.handleClientBytes _ w₁ _ (enough_answer hn (by omega) (by omega))).then fun _ s₂ w₂ h₂ => ?_
      refine ⟨fun _ => by omega, fun _ => ?_⟩
      exact (ih.pumpRead s₂ w₂ (enough_answer hn (by omega) (by omega))).then fun _ _ _ h₃ => by omega
  | closed =>
      simp only [wp_bind, wp_modify, wp_get, wp_ite, wp_pure]
      exact ⟨fun _ => hle, fun _ => hle⟩
  | error => exact hle
  | wouldBlockRead => exact hle
  | wouldBlockWrite => exact hle

theorem drivePumps_fuel (ih : ReqFueled cfg n) (hn : enough 4 w ≤ n + 1) :
    Fueled (drivePumps cfg (n + 1)) s w := by
  rw [Fueled]
  simp only [drivePumps, wp_bind, wp_modify, wp_get, wp_ite, wp_pure]
  refine (ih.pumpRead s w (enough_call hn (by omega) (by omega))).then fun st s₁ w₁ h₁ => ?_
  refine ⟨fun _ => h₁, fun _ => ?_⟩
  exact ((resp_fueled cfg n).pumpWrite _ w₁ (enough_call hn (by omega) (by omega))).then
    fun _ _ _ h₂ => by omega

theorem drive_fuel (ih : ReqFueled cfg n) (hn : enough 5 w ≤ n + 1) :
    Fueled (drive cfg (n + 1)) s w := by
  rw [Fueled]
  simp only [drive, wp_bind, wp_get, wp_ite, wp_pure]
  refine ⟨fun _ => Nat.le_refl _, fun _ => ⟨fun _ => ?_, fun _ => ?_⟩⟩
  · exact (ih.drivePumps s w (enough_call hn (by omega) (by omega))).then fun _ _ _ h => h
  · refine wp_sysCall_fuel fun res s₁ w₁ h₁ => ?_
    have hle : w₁.length ≤ w.length := by omega
    cases res with
    | ok u =>
        simp only [wp_bind, wp_modify]
        exact (ih.drivePumps _ w₁ (enough_call hn (by omega) (by omega))).then fun _ _ _ h₂ => by omega
    | wouldBlockRead => exact hle
    | wouldBlockWrite => exact hle
    | closed => exact hle
    | error => exact hle

theorem flush_fuel (ih : ReqFueled cfg n) (hn : enough 7 w ≤ n + 1) :
    Fueled (flush cfg (n + 1)) s w := by
  rw [Fueled]
  simp only [flush, wp_bind]
  refine (flushLoop_fuel (enough_call hn (by omega) (by omega))).then fun res s₁ w₁ h₁ => ?_
  cases res with
  | none =>
      exact ((resp_fueled cfg n).fail s₁ w₁ _ (enough_call hn (by omega) (by omega))).then
        fun _ _ _ h₂ => by omega
  | some off =>
      simp only [wp_bind, wp_modify, wp_ite]
      refine wp_self_fuel fun b => ⟨fun _ => ⟨fun _ => ?_, fun _ => h₁⟩, fun _ => h₁⟩
      exact (ih.onBackendDrained _ w₁ (enough_call hn (by omega) (by omega))).then fun _ _ _ h₂ => by omega

theorem startBackend_fuel (ih : ReqFueled cfg n) (hn : enough 9 w ≤ n + 1) :
    Fueled (startBackend cfg (n + 1)) s w := by
  have hreply : ∀ s₁ w₁ r, w₁.length ≤ w.length →
      wp (sendResponse cfg n r false) (fun _ _ w' => w'.length ≤ w.length) NotFuel s₁ w₁ :=
    fun s₁ w₁ r h₁ => ((resp_fueled cfg n).sendResponse s₁ w₁ r false
      (enough_call hn (by omega) (by omega))).then fun _ _ _ h₂ => by omega
  rw [Fueled]
  simp only [startBackend, wp_bind, wp_get, wp_ite, wp_modify]
  refine wp_sysCall_fuel fun sock s₁ w₁ h₁ => ?_
  refine ⟨fun _ => hreply _ w₁ _ (by omega), fun _ => ⟨fun _ => hreply _ w₁ _ (by omega),
    fun _ => ?_⟩⟩
  refine wp_sysCall_fuel fun connecting s₂ w₂ h₂ => ?_
  refine ⟨fun _ => hreply _ w₂ _ (by omega), fun _ => wp_viaBackend_fuel ?_⟩
  refine (ih.send _ w₂ _ (enough_call hn (by omega) (by omega))).then fun _ s₃ w₃ h₃ => ?_
  exact wp_sysCall_fuel fun added s₄ w₄ h₄ => by omega

theorem beginUpload_fuel (ih : ReqFueled cfg n) (hn : enough 10 w ≤ n + 1) :
    Fueled (beginUpload cfg (n + 1)) s w := by
  rw [Fueled]
  simp only [beginUpload, wp_bind, wp_get, wp_ite, wp_modify, wp_pure]
  refine (ih.startBackend s w (enough_call hn (by omega) (by omega))).then fun _ s₁ w₁ h₁ => ?_
  refine ⟨fun _ => h₁, fun _ => ⟨fun _ => h₁, fun _ => ⟨fun _ => ?_, fun _ => h₁⟩⟩⟩
  exact (ih.forwardBody _ w₁ _ (enough_call hn (by omega) (by omega))).then fun _ _ _ h₂ => by omega

theorem processHead_fuel (ih : ReqFueled cfg n) (hn : enough 11 w ≤ n + 1) :
    Fueled (processHead cfg (n + 1)) s w := by
  have hreply : ∀ s r, wp (sendResponse cfg n r false) (fun _ _ w' => w'.length ≤ w.length)
      NotFuel s w := fun s r =>
    ((resp_fueled cfg n).sendResponse s w r false (enough_call hn (by omega) (by omega))).then
      fun _ _ _ h => h
  rw [Fueled]
  simp only [processHead, wp_bind, wp_get]
  cases phrParseRequest (some kMaxHeaders) s.client.inBuf with
  | incomplete =>
      simp only [wp_ite, wp_pure]
      exact ⟨fun _ => hreply _ _, fun _ => Nat.le_refl _⟩
  | malformed => exact hreply _ _
  | done req rest =>
      simp only [wp_bind, wp_modify]
      cases headVerdict cfg.routes cfg.maxBody req with
      | handleInternal method target =>
          exact (handleInternal_fuel (enough_call hn (by omega) (by omega))).then fun _ _ _ h => h
      | reply r => exact hreply _ _
      | overflow => rintro ⟨⟩
      | forward head target len =>
          simp only [wp_bind, wp_modify]
          exact (ih.beginUpload _ w (enough_call hn (by omega) (by omega))).then fun _ _ _ h => h

theorem req_fueled (cfg : Cfg) : ∀ n, ReqFueled cfg n := by
  intro n
  induction n with
  | zero => constructor <;> intros <;> unfold enough at * <;> omega
  | succ n ih =>
      refine ⟨fun s w => pumpRead_fuel ih, fun s w => drivePumps_fuel ih,
        fun s w => drive_fuel ih, ?_, fun s w => flush_fuel ih, ?_, ?_,
        fun s w => startBackend_fuel ih, fun s w => beginUpload_fuel ih,
        fun s w => processHead_fuel ih, ?_⟩ <;> unfold Fueled
      · intro s w hn
        simp only [onBackendDrained, wp_bind, wp_get, wp_ite, wp_modify, wp_pure]
        refine ⟨fun _ => Nat.le_refl _, fun _ => ?_⟩
        exact (ih.drive _ w (enough_call hn (by omega) (by omega))).then fun _ _ _ h => h
      · intro s w d hn
        simp only [send, wp_bind, wp_modify, wp_ite, wp_pure]
        refine wp_self_fuel fun b => ⟨fun _ => ?_, fun _ => Nat.le_refl _⟩
        exact (ih.flush _ w (enough_call hn (by omega) (by omega))).then fun _ _ _ h => h
      · intro s w d hn
        simp only [forwardBody, wp_bind, wp_get, wp_ite, wp_modify, wp_pure]
        refine ⟨fun _ => Nat.le_refl _, fun _ => ⟨fun _ => wp_viaBackend_fuel ?_, fun _ =>
          endForward_fuel.then fun _ _ _ h => h⟩⟩
        refine (ih.send _ w _ (enough_call hn (by omega) (by omega))).then fun _ s₁ w₁ h₁ => ?_
        exact endForward_fuel.then fun _ _ _ h₂ => by omega
      · intro s w d hn
        simp only [handleClientBytes, wp_bind, wp_get]
        cases s.client.state with
        | readingHead =>
            simp only [wp_bind, wp_modify]
            exact (ih.processHead _ w (enough_call hn (by omega) (by omega))).then fun _ _ _ h => h
        | streamingUp =>
            exact (ih.forwardBody _ w _ (enough_call hn (by omega) (by omega))).then fun _ _ _ h => h
        | streaming => exact Nat.le_refl _
        | closing => exact Nat.le_refl _

/-! ## A whole callback -/

/-- No callback runs out of fuel, in any state and on any script. -/
theorem dispatch_fuel (cb : Callback) : Fueled (dispatch cfg cb) s w := by
  rw [Fueled]
  rw [wp_dispatch]
  have hdrive := (req_fueled cfg (fuelFor w)).drive s w (enough_fuelFor (by omega) (Nat.le_refl _))
  have hflush : ∀ s' w', w'.length ≤ w.length → Fueled (flush cfg (fuelFor w)) s' w' :=
    fun s' w' h => (req_fueled cfg (fuelFor w)).flush s' w' (enough_fuelFor (by omega) h)
  have hfail : ∀ s' w' why, w'.length ≤ w.length → Fueled (fail cfg (fuelFor w) why) s' w' :=
    fun s' w' why h => (resp_fueled cfg (fuelFor w)).fail s' w' why
      (enough_fuelFor (by omega) h)
  cases cb with
  | clientReadable => exact hdrive
  | clientWritable => exact hdrive
  | clientError => exact Nat.le_refl _
  | clientTimeout now => exact Nat.le_refl _
  | backendReadable =>
      exact (resp_fueled cfg (fuelFor w)).onReadable s w
        (enough_fuelFor (by omega) (Nat.le_refl _))
  | backendWritable =>
      simp only [callback, onWritable, wp_bind, wp_ite, wp_modify]
      refine wp_self_fuel fun b => ⟨fun _ => hflush s w (Nat.le_refl _), fun _ => ?_⟩
      refine wp_sysCall_fuel fun ok s₁ w₁ h₁ => ⟨fun _ => ?_, fun _ => ?_⟩
      · exact (hflush _ w₁ (by omega)).then fun _ _ _ h₂ => by omega
      · exact (hfail _ w₁ _ (by omega)).then fun _ _ _ h₂ => by omega
  | backendError => exact hfail s w _ (Nat.le_refl _)
  | backendTimeout now =>
      simp only [callback, wp_bind, wp_ite, wp_pure]
      exact wp_self_fuel fun b => ⟨fun _ => hfail s w _ (Nat.le_refl _), fun _ => Nat.le_refl _⟩
  | processPendingClose backendFirst => exact Nat.le_refl _

end CastlePlus
