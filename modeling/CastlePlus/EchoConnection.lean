import CastlePlus.ProxyState

/-! # The echo connection

    `EchoConnection` (`net/echo_connection.{h,cpp}`): what is read is written back.  Field
    names are the source's without the trailing underscore, `out_` is `outBuf`; `mask` and
    `pending` are what the `EventLoop` keeps about the connection.  `received`, `written`,
    `dry` and `modFailed` record what happened at the socket, no code reads them. -/

namespace CastlePlus

open ScriptProg

/-- The answers of the environment. -/
inductive EchoResult where
  | read (r : ReadResult)
  | write (r : WriteResult)
  /-- `epoll_ctl(EPOLL_CTL_MOD)` in `EventLoop::update` -/
  | mod (ok : Bool)

structure EchoConnection where
  outBuf : Bytes := []
  wantWrite : Bool := false
  closing : Bool := false
  /-- the registered mask -/
  mask : Mask := ⟨true, false⟩
  /-- the fd is in `pending_close_` -/
  pending : Bool := false
  /-- `LoopStats` -/
  bytesIn : Nat := 0
  bytesOut : Nat := 0
  received : Bytes := []
  written : Bytes := []
  /-- the last read would have blocked -/
  dry : Bool := false
  /-- an `epoll_ctl(EPOLL_CTL_MOD)` failed -/
  modFailed : Bool := false

namespace EchoConnection

/-- `loop_.request_close(fd())`. -/
def requestClose (s : EchoConnection) : EchoConnection := { s with pending := true }

/-- `loop_.update(fd(), ev)`: a failure is only logged. -/
def update (ev : Mask) : Prog EchoResult Halt EchoConnection Unit :=
  await .pending fun
    | .mod ok => some ((), fun s =>
        if ok then { s with mask := ev } else { s with modFailed := true })
    | _ => none

/-- One round of the loop of `on_readable`; on leaving, whether `flush` follows. -/
def readRound (s : EchoConnection) : EchoResult → Option ((Unit ⊕ Bool) × EchoConnection)
  | .read (.data c) => some (.inl (), { s with
      outBuf := s.outBuf ++ c.val
      bytesIn := s.bytesIn + c.val.length
      received := s.received ++ c.val
      dry := false })
  | .read .eof => some (.inr true, { s with closing := true, dry := false })
  | .read .again => some (.inr true, { s with dry := true })
  | .read .intr => some (.inl (), { s with dry := false })
  | .read .error => some (.inr false, requestClose { s with dry := false })
  | _ => none

/-- One round of the loop of `flush`: `off` bytes of `out_` have been written. -/
def writeRound (off : Nat) (s : EchoConnection) :
    EchoResult → Option ((Nat ⊕ Option Nat) × EchoConnection)
  | .write (.wrote k) =>
      -- `write` takes no more than it is given
      if off + k.val ≤ s.outBuf.length then
        some (.inl (off + k.val), { s with
          bytesOut := s.bytesOut + k.val
          written := s.written ++ (s.outBuf.drop off).take k.val })
      else none
  | .write .again => some (.inr (some off), s)
  | .write .intr => some (.inl off, s)
  | .write .error => some (.inr none, requestClose s)
  | _ => none

/-- The loop of `flush`: the offset it stops at, or nothing after a hard error. -/
def flushLoop : Prog EchoResult Halt EchoConnection (Option Nat) :=
  loop .pending (fun off s => if off < s.outBuf.length then none else some (some off))
    writeRound 0

/-- `out_.erase(0, off)`. -/
def eraseOut (off : Nat) (s : EchoConnection) : EchoConnection :=
  { s with outBuf := s.outBuf.drop off }

def setWantWrite (b : Bool) (s : EchoConnection) : EchoConnection := { s with wantWrite := b }

/-- `EchoConnection::flush` behind its loop. -/
def settle : Prog EchoResult Halt EchoConnection Unit := do
  let s ← get
  if s.outBuf = [] then
    if s.closing then modify requestClose
    else if s.wantWrite then
      update ⟨true, false⟩
      modify (setWantWrite false)
  else if ¬ s.wantWrite then
    update ⟨true, true⟩
    modify (setWantWrite true)

def flush : Prog EchoResult Halt EchoConnection Unit := do
  match ← flushLoop with
  | none => pure ()
  | some off =>
      modify (eraseOut off)
      settle

def onReadable : Prog EchoResult Halt EchoConnection Unit := do
  let drained ← loop .pending (fun _ _ => none) (fun _ => readRound) ()
  if drained then flush

def onWritable : Prog EchoResult Halt EchoConnection Unit := flush

def onError : Prog EchoResult Halt EchoConnection Unit := modify requestClose

/-! ## What a flush leaves alone -/

/-- The read side of the connection; a close that was asked for stays so. -/
structure ReadSide (s s' : EchoConnection) : Prop where
  closing : s'.closing = s.closing
  received : s'.received = s.received
  dry : s'.dry = s.dry
  pending : s.pending = true → s'.pending = true

theorem ReadSide.refl (s : EchoConnection) : ReadSide s s := ⟨rfl, rfl, rfl, id⟩

theorem ReadSide.trans {s s' s'' : EchoConnection} (h : ReadSide s s') (h' : ReadSide s' s'') :
    ReadSide s s'' :=
  ⟨h'.closing.trans h.closing, h'.received.trans h.received, h'.dry.trans h.dry,
    fun hp => h'.pending (h.pending hp)⟩

theorem ReadSide.requestClose (s : EchoConnection) : ReadSide s s.requestClose :=
  ⟨rfl, rfl, rfl, fun _ => rfl⟩

theorem writeRound_readSide {off : Nat} {s s' : EchoConnection} {i : EchoResult}
    {r : Nat ⊕ Option Nat} (h : writeRound off s i = some (r, s')) : ReadSide s s' := by
  cases i with
  | read => cases h
  | mod => cases h
  | write res =>
      cases res with
      | wrote k =>
          rw [writeRound] at h
          split at h
          · cases h
            exact ⟨rfl, rfl, rfl, id⟩
          · cases h
      | again => cases h; exact .refl s
      | intr => cases h; exact .refl s
      | error => cases h; exact .requestClose s

theorem flushLoop_along : Along ReadSide flushLoop := by
  intro s w
  refine wp_loop (H := fun _ s' => ReadSide s s') (fun _ s' _ => ReadSide s s')
    (fun _ _ _ _ h _ => h) (fun _ _ _ h => h) ?_ ?_ (.refl s)
  · exact fun _ _ _ _ _ _ h _ hb => h.trans (writeRound_readSide hb)
  · exact fun _ _ _ _ _ _ h _ hb => h.trans (writeRound_readSide hb)

theorem update_along (ev : Mask) : Along ReadSide (update ev) := by
  refine .await .refl fun i a g s hk => ?_
  cases i with
  | read => cases hk
  | write => cases hk
  | mod ok =>
      cases hk
      cases ok with
      | true => exact ⟨rfl, rfl, rfl, id⟩
      | false => exact ⟨rfl, rfl, rfl, id⟩

theorem settle_along : Along ReadSide settle := by
  have hset : ∀ b, Along ReadSide (modify (setWantWrite b) : Prog EchoResult Halt _ Unit) :=
    fun b => .modify fun _ => ⟨rfl, rfl, rfl, id⟩
  refine .get_bind fun s w => ?_
  refine Along.ite (.ite (.modify .requestClose) (.ite ?_ (.pure .refl _))) (.ite ?_ ?_) s w
  · exact .bind ReadSide.trans (update_along _) fun _ => hset false
  · exact .bind ReadSide.trans (update_along _) fun _ => hset true
  · exact .pure .refl _

theorem flush_along : Along ReadSide flush := by
  refine .bind ReadSide.trans flushLoop_along fun r => ?_
  cases r with
  | none => exact .pure .refl _
  | some off =>
      refine .bind ReadSide.trans (.modify fun s => ?_) fun _ => settle_along
      exact ⟨rfl, rfl, rfl, id⟩

/-! ## Draining -/

/-- The loop of `on_readable` is left after a read that would have blocked, at EOF, or with
    the close asked for. -/
theorem readRound_done {s s' : EchoConnection} {i : EchoResult} {r : Bool}
    (h : readRound s i = some (.inr r, s')) :
    s'.dry = true ∨ s'.closing = true ∨ s'.pending = true := by
  cases i with
  | write => cases h
  | mod => cases h
  | read res =>
      cases res with
      | data => cases h
      | eof => cases h; exact .inr (.inl rfl)
      | again => cases h; exact .inl rfl
      | intr => cases h
      | error => cases h; exact .inr (.inr rfl)

theorem onReadable_drains {s s' : EchoConnection} {w w' : List EchoResult}
    (h : onReadable s w = .ret () s' w') (hp : s'.pending = false) :
    s'.dry = true ∨ s'.closing = true := by
  have hwp : wp onReadable
      (fun _ s' _ => s'.dry = true ∨ s'.closing = true ∨ s'.pending = true)
      (fun _ _ => True) s w := by
    rw [onReadable]
    rw [wp_bind]
    refine wp_loop (fun _ _ _ => True) (fun _ _ _ _ _ h => by cases h) (fun _ _ _ _ => trivial)
      (fun _ _ _ _ _ _ _ _ _ => trivial) ?_ trivial
    intro _ s₁ i w₁ r s₂ _ _ hb
    have hdone := readRound_done hb
    cases r with
    | false => exact hdone
    | true =>
        refine wp_mono (flush_along s₂ w₁) (fun _ s₃ _ hk => ?_) fun _ _ _ => trivial
        rw [hk.dry, hk.closing]
        exact hdone.imp_right (.imp_right hk.pending)
  rw [wp] at hwp
  rw [h] at hwp
  rcases hwp with hd | hc | hp'
  · exact .inl hd
  · exact .inr hc
  · rw [hp] at hp'
    cases hp'

end EchoConnection

end CastlePlus
