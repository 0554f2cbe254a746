import CastlePlus.ProxyPair

/-! # Every function reads its script front to back

    `Consumes` for the code of the pair, function by function: what a callback hands back
    is the end of the script it was given. -/

namespace CastlePlus

open ScriptProg

variable {cfg : Cfg} {n : Nat}

theorem consumes_sysCall {α : Type} (take : SysResult → Option α) (note : α → Pair → Pair) :
    Consumes (sysCall take note) := .await _ _

theorem consumes_self : Consumes self := by
  refine .bind .get fun s => ?_
  cases s.backend with
  | none => exact .halt _
  | some b => exact .pure b

theorem consumes_viaBackend {α : Type} {p : M α} (hp : Consumes p) : Consumes (viaBackend p) :=
  .bind .get fun _ => .ite hp (.halt _)

/-- `pump_write` and what its callers do with the result. -/
theorem consumes_pump {p : M IoStatus} (hp : Consumes p) (f : IoStatus → Pair → Pair) :
    Consumes (p >>= fun st => modify (f st)) :=
  .bind hp fun st => .modify (f st)

/-! ## The response side -/

structure RespConsumes (cfg : Cfg) (n : Nat) : Prop where
  pumpWrite : Consumes (pumpWrite cfg n)
  resumeReads : Consumes (resumeReads cfg n)
  onReadable : Consumes (onReadable cfg n)
  deliverToClient : ∀ d, Consumes (deliverToClient cfg n d)
  onBackendClosed : Consumes (onBackendClosed cfg n)
  fail : ∀ why, Consumes (fail cfg n why)
  onBackendError : ∀ why, Consumes (onBackendError cfg n why)
  sendResponse : ∀ r headOnly, Consumes (sendResponse cfg n r headOnly)

theorem pumpWrite_consumes (ih : RespConsumes cfg n) : Consumes (pumpWrite cfg (n + 1)) := by
  have hend : Consumes (do modify closeIfClosing; pure IoStatus.ok : M IoStatus) :=
    .bind (.modify _) fun _ => .pure _
  simp only [pumpWrite]
  refine .bind .get fun s => .ite (.ite ?_ hend) (.bind (consumes_sysCall _ _) fun res => ?_)
  · exact .bind (.modify _) fun _ => .bind (consumes_viaBackend ih.resumeReads) fun _ => hend
  · cases res with
    | ok k => exact .bind (.modify _) fun _ => ih.pumpWrite
    | closed => exact .bind (.modify _) fun _ => .pure _
    | error => exact .bind (.modify _) fun _ => .pure _
    | wouldBlockRead => exact .pure _
    | wouldBlockWrite => exact .pure _

theorem onReadable_consumes (ih : RespConsumes cfg n) : Consumes (onReadable cfg (n + 1)) := by
  simp only [onReadable]
  refine .bind consumes_self fun b => .ite (.pure _) (.bind (consumes_sysCall _ _) fun res => ?_)
  cases res with
  | data c =>
      exact .bind (.modify _) fun _ =>
        .ite (.bind (ih.deliverToClient _) fun _ => ih.onReadable) ih.onReadable
  | eof =>
      exact .ite (.bind (.modify _) fun _ => .bind ih.onBackendClosed fun _ => .modify _)
        (.modify _)
  | again => exact .pure _
  | intr => exact ih.onReadable
  | error => exact ih.fail _

theorem resp_consumes (cfg : Cfg) : ∀ n, RespConsumes cfg n := by
  intro n
  induction n with
  | zero => constructor <;> intros <;> exact .halt _
  | succ n ih =>
      refine ⟨pumpWrite_consumes ih, ?_, onReadable_consumes ih, fun d => ?_, ?_, fun why => ?_,
        fun why => ?_, fun r headOnly => ?_⟩
      · exact .bind consumes_self fun b =>
          .ite (.bind (.modify _) fun _ => ih.onReadable) (.pure _)
      · exact .bind .get fun s => .ite (.pure _)
          (.bind (.modify _) fun _ => consumes_pump ih.pumpWrite _)
      · exact .bind (.modify _) fun _ => .bind (.modify _) fun _ => consumes_pump ih.pumpWrite _
      · exact .bind consumes_self fun b =>
          .ite (.bind (.modify _) fun _ => .bind (ih.onBackendError _) fun _ => .modify _)
            (.modify _)
      · exact .bind (.modify _) fun _ => .bind .get fun s =>
          .ite (.modify _) (ih.sendResponse _ _)
      · exact .bind (.modify _) fun _ => consumes_pump ih.pumpWrite _

/-! ## The request side -/

theorem flushLoop_consumes : ∀ n off, Consumes (flushLoop n off) := by
  intro n
  induction n with
  | zero => exact fun _ => .halt _
  | succ n ih =>
      intro off
      refine .bind consumes_self fun b => .ite (.bind (consumes_sysCall _ _) fun res => ?_) (.pure _)
      cases res with
      | wrote k => exact .bind (.modify _) fun _ => ih _
      | again => exact .pure _
      | intr => exact ih _
      | error => exact .pure _

theorem renderHealth_consumes : ∀ routes probed acc,
    Consumes (renderHealth routes probed acc) := by
  intro routes
  induction routes with
  | nil => exact fun _ _ => .pure _
  | cons r rest ih =>
      intro probed acc
      exact .ite (ih _ _) (.bind (consumes_sysCall _ _) fun up => ih _ _)

theorem handleInternal_consumes (method path : Bytes) :
    Consumes (handleInternal cfg n method path) := by
  have hreply := (resp_consumes cfg n).sendResponse
  simp only [handleInternal]
  refine .ite (hreply _ _) (.ite (.bind (renderHealth_consumes _ _ _) fun res => ?_)
    (.ite (.bind (consumes_sysCall _ _) fun _ => hreply _ _) (hreply _ _)))
  exact .ite (hreply _ _) (hreply _ _)

theorem endForward_consumes : Consumes endForward :=
  .bind .get fun _ => .ite (.modify _)
    (.bind (consumes_viaBackend (.bind consumes_self fun _ => .pure _)) fun _ =>
      .ite (.modify _) (.pure _))

structure ReqConsumes (cfg : Cfg) (n : Nat) : Prop where
  drive : Consumes (drive cfg n)
  drivePumps : Consumes (drivePumps cfg n)
  pumpRead : Consumes (pumpRead cfg n)
  handleClientBytes : ∀ d, Consumes (handleClientBytes cfg n d)
  processHead : Consumes (processHead cfg n)
  beginUpload : Consumes (beginUpload cfg n)
  startBackend : Consumes (startBackend cfg n)
  forwardBody : ∀ d, Consumes (forwardBody cfg n d)
  send : ∀ d, Consumes (send cfg n d)
  flush : Consumes (flush cfg n)
  onBackendDrained : Consumes (onBackendDrained cfg n)

theorem drive_consumes (ih : ReqConsumes cfg n) : Consumes (drive cfg (n + 1)) := by
  simp only [drive]
  refine .bind .get fun s => .ite (.pure _) (.ite ih.drivePumps
    (.bind (consumes_sysCall _ _) fun res => ?_))
  cases res with
  | ok u => exact .bind (.modify _) fun _ => ih.drivePumps
  | wouldBlockRead => exact .modify _
  | wouldBlockWrite => exact .modify _
  | closed => exact .modify _
  | error => exact .modify _

theorem pumpRead_consumes (ih : ReqConsumes cfg n) : Consumes (pumpRead cfg (n + 1)) := by
  simp only [pumpRead]
  refine .bind .get fun s => .ite (.pure _) (.bind (consumes_sysCall _ _) fun res => ?_)
  cases res with
  | ok c =>
      exact .bind (.modify _) fun _ => .bind (ih.handleClientBytes _) fun _ =>
        .bind .get fun s => .ite (.pure _) ih.pumpRead
  | closed =>
      exact .bind .get fun s => .ite (.bind (.modify _) fun _ => .pure _)
        (.bind (.modify _) fun _ => .pure _)
  | error => exact .bind (.modify _) fun _ => .pure _
  | wouldBlockRead => exact .pure _
  | wouldBlockWrite => exact .pure _

theorem processHead_consumes (ih : ReqConsumes cfg n) : Consumes (processHead cfg (n + 1)) := by
  have hreply := (resp_consumes cfg n).sendResponse
  simp only [processHead]
  refine .bind .get fun s => ?_
  cases phrParseRequest (some kMaxHeaders) s.client.inBuf with
  | incomplete => exact .ite (hreply _ _) (.pure _)
  | malformed => exact hreply _ _
  | done req rest =>
      refine .bind (.modify _) fun _ => ?_
      cases headVerdict cfg.routes cfg.maxBody req with
      | handleInternal method target => exact handleInternal_consumes method target
      | reply r => exact hreply _ _
      | overflow => exact .halt _
      | forward head target len => exact .bind (.modify _) fun _ => ih.beginUpload

theorem startBackend_consumes (ih : ReqConsumes cfg n) :
    Consumes (startBackend cfg (n + 1)) := by
  have hreply := (resp_consumes cfg n).sendResponse
  refine .bind (consumes_sysCall _ _) fun sock => .bind .get fun s => .ite (hreply _ _)
    (.ite (hreply _ _) (.bind (consumes_sysCall _ _) fun connecting => .ite (hreply _ _) ?_))
  exact .bind (.modify _) fun _ => .bind (consumes_viaBackend (ih.send _)) fun _ =>
    .bind (consumes_sysCall _ _) fun added => .modify _

theorem flush_consumes (ih : ReqConsumes cfg n) : Consumes (flush cfg (n + 1)) := by
  simp only [flush]
  refine .bind (flushLoop_consumes n 0) fun res => ?_
  cases res with
  | none => exact (resp_consumes cfg n).fail _
  | some off =>
      refine .bind (.modify _) fun _ => .bind consumes_self fun b => .ite ?_ (.modify _)
      exact .bind (.modify _) fun _ =>
        .ite (.bind ih.onBackendDrained fun _ => .modify _) (.modify _)

theorem req_consumes (cfg : Cfg) : ∀ n, ReqConsumes cfg n := by
  intro n
  induction n with
  | zero => constructor <;> intros <;> exact .halt _
  | succ n ih =>
      have hpump := (resp_consumes cfg n).pumpWrite
      refine ⟨drive_consumes ih, ?_, pumpRead_consumes ih, fun d => ?_, processHead_consumes ih,
        ?_, startBackend_consumes ih, fun d => ?_, fun d => ?_, flush_consumes ih, ?_⟩
      · exact .bind ih.pumpRead fun st => .bind (.modify _) fun _ => .bind .get fun s =>
          .ite (.pure _) (consumes_pump hpump _)
      · refine .bind .get fun s => ?_
        cases s.client.state with
        | readingHead => exact .bind (.modify _) fun _ => ih.processHead
        | streamingUp => exact ih.forwardBody d
        | streaming => exact .pure _
        | closing => exact .pure _
      · refine .bind ih.startBackend fun _ => .bind .get fun s => .ite (.pure _) (.ite
          (.bind (.modify _) fun _ => .modify _) (.bind (.modify _) fun _ => ?_))
        exact .ite (.bind (ih.forwardBody _) fun _ => .modify _) (.modify _)
      · exact .bind .get fun s => .ite (.pure _) (.ite
          (.bind (consumes_viaBackend (ih.send _)) fun _ => .bind (.modify _) fun _ =>
            endForward_consumes) endForward_consumes)
      · exact .bind (.modify _) fun _ => .bind consumes_self fun b => .ite ih.flush (.pure _)
      · exact .bind .get fun s => .ite (.pure _) (.bind (.modify _) fun _ => ih.drive)

end CastlePlus
