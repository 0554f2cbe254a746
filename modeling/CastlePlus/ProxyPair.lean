import CastlePlus.ProxyState

/-! # The proxied pair: the re-entrant code

    `HttpConnection` and `BackendConnection` call each other: a write error inside
    `flush` runs `on_backend_error`, `send_response`, `pump_write` and `close_both`
    before `flush` returns; a drained `pump_write` resumes the backend, whose
    `on_readable` delivers into a second `pump_write`; a drained `flush` restarts
    `drive`.  The definitions below keep those calls where the source has them.

    The call graph has two cycles.  The RESPONSE SIDE (`pumpWrite`, `resumeReads`,
    `onReadable`, `deliverToClient`, `onBackendClosed`, `fail`, `onBackendError`,
    `sendResponse`) never calls the REQUEST SIDE (`drive`, `pumpRead`,
    `handleClientBytes`, `processHead`, `beginUpload`, `startBackend`, `forwardBody`, `send`,
    `flush`, `onBackendDrained`), which calls both.  Each is a mutual recursion on
    fuel; `dispatch` supplies enough for its script. -/

namespace CastlePlus

open ScriptProg

/-- The object behind `this` inside a method of `BackendConnection`. -/
def self : M BackendConnection := do
  let s ← get
  match s.backend with
  | some b => pure b
  | none => halt .dangling

/-- A method call through `backend_`. -/
def viaBackend {α : Type} (method : M α) : M α := do
  let s ← get
  if s.client.hasBackend then method else halt .nullBackend

/-- `backend_->pending_bytes()`. -/
def pendingBytes : M Nat := do
  let b ← self
  pure b.outBuf.length

/-! ## The response side -/

mutual

/-- `HttpConnection::pump_write`. -/
def pumpWrite (cfg : Cfg) : Nat → M IoStatus
  | 0 => halt .fuel
  | n + 1 => do
      let s ← get
      if s.client.outBuf = [] then
        -- drained: release the download backpressure, then close if we are done
        if s.client.backendPaused ∧ s.client.hasBackend then
          modify releaseBackend
          viaBackend (resumeReads cfg n)
        modify closeIfClosing
        pure .ok
      else
        match ← transportSend cfg with
        | .ok k =>
            modify (acceptSent k)
            pumpWrite cfg n
        | .closed =>
            modify closeBoth
            pure .closed
        | .error =>
            modify closeBoth
            pure .error
        | .wouldBlockRead => pure .wouldBlockRead
        | .wouldBlockWrite => pure .wouldBlockWrite

/-- `BackendConnection::resume_reads`. -/
def resumeReads (cfg : Cfg) : Nat → M Unit
  | 0 => halt .fuel
  | n + 1 => do
      let b ← self
      if b.readPaused then
        modify unpauseReads
        onReadable cfg n

/-- `BackendConnection::on_readable`. -/
def onReadable (cfg : Cfg) : Nat → M Unit
  | 0 => halt .fuel
  | n + 1 => do
      let b ← self
      if b.readPaused then pure ()
      else
        match ← backendRead with
        | .data c =>
            modify touchBackend
            if b.hasClient then deliverToClient cfg n c.val
            onReadable cfg n
        | .eof =>
            if b.hasClient then
              modify detachClient
              onBackendClosed cfg n
            modify requestCloseBackend
        | .again => pure ()
        | .intr => onReadable cfg n
        | .error => fail cfg n (ascii "backend read failed")

/-- `HttpConnection::deliver_to_client`. -/
def deliverToClient (cfg : Cfg) : Nat → Bytes → M Unit
  | 0, _ => halt .fuel
  | n + 1, data => do
      let s ← get
      if s.client.closed then pure ()
      else
        modify (queueClient data)
        let st ← pumpWrite cfg n
        modify fun s => finishPump st (if s.client.closed then s else pauseIfFull s)

/-- `HttpConnection::on_backend_closed`. -/
def onBackendClosed (cfg : Cfg) : Nat → M Unit
  | 0 => halt .fuel
  | n + 1 => do
      modify detachBackend
      modify (setState .closing)
      let st ← pumpWrite cfg n
      modify (finishPump st)

/-- `BackendConnection::fail`. -/
def fail (cfg : Cfg) : Nat → Bytes → M Unit
  | 0, _ => halt .fuel
  | n + 1, why => do
      let b ← self
      if b.hasClient then
        modify detachClient
        onBackendError cfg n why
      modify requestCloseBackend

/-- `HttpConnection::on_backend_error`. -/
def onBackendError (cfg : Cfg) : Nat → Bytes → M Unit
  | 0, _ => halt .fuel
  | n + 1, why => do
      modify detachBackend
      let s ← get
      if s.client.responded then modify cutOff
      else sendResponse cfg n ⟨502, ascii "Bad Gateway", why⟩ false

/-- `HttpConnection::send_response`; `send_error` is the case `headOnly = false`. -/
def sendResponse (cfg : Cfg) : Nat → Reply → Bool → M Unit
  | 0, _, _ => halt .fuel
  | n + 1, r, headOnly => do
      modify (beginResponse (responseText r.code r.status r.body headOnly))
      let st ← pumpWrite cfg n
      modify (finishPump st)

end

/-! ## Castle's own endpoints -/

/-- The loop of `render_health`: each distinct backend is probed and listed once. -/
def renderHealth : List Route → List Backend → Bytes × Bool → M (Bytes × Bool)
  | [], _, acc => pure acc
  | r :: rest, probed, acc =>
      if r.backend ∈ probed then renderHealth rest probed acc
      else do
        let up ← tcpProbe
        renderHealth rest (r.backend :: probed)
          (acc.1 ++ r.name ++ (if up then ascii ": up\n" else ascii ": DOWN\n"),
            acc.2 && up)

/-- `HttpConnection::handle_internal`. -/
def handleInternal (cfg : Cfg) (n : Nat) (method path : Bytes) : M Unit := do
  let headOnly := method == ascii "HEAD"
  if method ≠ ascii "GET" ∧ ¬ headOnly then
    sendResponse cfg n (.mk' 405 "Method Not Allowed" "use GET or HEAD\n") false
  else if path = ascii "/_castle/health" then
    let (body, allUp) ← renderHealth cfg.routes [] (ascii "castle: up\n", true)
    if allUp then sendResponse cfg n ⟨200, ascii "OK", body⟩ headOnly
    else sendResponse cfg n ⟨503, ascii "Service Unavailable", body⟩ headOnly
  else if path = ascii "/_castle/uptime" then
    let body ← renderUptime
    sendResponse cfg n ⟨200, ascii "OK", body⟩ headOnly
  else sendResponse cfg n (.mk' 404 "Not Found" "unknown castle endpoint\n") headOnly

/-! ## The request side -/

/-- The loop of glibc's `inet_pton(AF_INET, …)`: the current octet, how many have been
    started, and whether the current one has a digit. -/
def inetPtonLoop : Nat → Nat → Bool → Bytes → Bool
  | _, octets, _, [] => octets == 4
  | val, octets, sawDigit, c :: cs =>
      if 0x30 ≤ c && c ≤ 0x39 then
        let new := val * 10 + (c.toNat - 0x30)
        if sawDigit && val == 0 then false
        else if 255 < new then false
        else if sawDigit then inetPtonLoop new octets true cs
        else if octets == 4 then false
        else inetPtonLoop new (octets + 1) true cs
      else if c == 0x2e && sawDigit then
        if octets == 4 then false else inetPtonLoop 0 octets false cs
      else false

/-- `inet_pton(AF_INET, host.c_str(), …) == 1`. -/
def inetPton (host : Bytes) : Bool := inetPtonLoop 0 0 false (host.takeWhile (· != 0))

/-- The loop of `BackendConnection::flush`: the offset it stops at, or nothing after a
    hard error. -/
def flushLoop : Nat → Nat → M (Option Nat)
  | 0, _ => halt .fuel
  | n + 1, off => do
      let b ← self
      if off < b.outBuf.length then
        match ← backendWrite with
        | .wrote k =>
            let len := min k.val (b.outBuf.length - off)
            modify (noteWritten ((b.outBuf.drop off).take len))
            flushLoop n (off + len)
        | .again => pure (some off)
        | .intr => flushLoop n off
        | .error => pure none
      else pure (some off)

/-- `HttpConnection::forward_body` from line 376 on. -/
def endForward : M Unit := do
  let s ← get
  if s.client.bodyRemaining = 0 then modify (setState .streaming)
  else
    let pending ← viaBackend pendingBytes
    if kBackpressureHigh < pending then modify (setReadPaused true)

mutual

/-- `HttpConnection::drive`. -/
def drive (cfg : Cfg) : Nat → M Unit
  | 0 => halt .fuel
  | n + 1 => do
      let s ← get
      if s.client.closed then pure ()
      else if s.client.handshakeDone then drivePumps cfg n
      else
        match ← transportHandshake cfg with
        | .ok _ =>
            modify finishHandshake
            drivePumps cfg n
        | .wouldBlockRead => modify (setInterest ⟨true, false⟩)
        | .wouldBlockWrite => modify (setInterest ⟨false, true⟩)
        | .closed => modify closeBoth
        | .error => modify closeBoth

/-- `HttpConnection::drive` behind the handshake. -/
def drivePumps (cfg : Cfg) : Nat → M Unit
  | 0 => halt .fuel
  | n + 1 => do
      let st ← pumpRead cfg n
      modify (setReadBlock st)
      let s ← get
      if s.client.closed then pure ()
      else
        let st ← pumpWrite cfg n
        modify (finishPump st)

/-- `HttpConnection::pump_read`. -/
def pumpRead (cfg : Cfg) : Nat → M IoStatus
  | 0 => halt .fuel
  | n + 1 => do
      let s ← get
      if s.client.readPaused ∨ s.client.clientEof then pure .wouldBlockRead
      else
        match ← transportRecv cfg with
        | .ok c =>
            modify (countRecv c.val.length)
            handleClientBytes cfg n c.val
            let s ← get
            if s.client.closed then pure .closed else pumpRead cfg n
        | .closed =>
            let s ← get
            -- a half-close after the request is no abort: the reply is still owed
            if s.client.state = .streaming ∨ s.client.state = .closing then
              modify setClientEof
              pure .wouldBlockRead
            else
              modify closeBoth
              pure .closed
        | .error =>
            modify closeBoth
            pure .error
        | .wouldBlockRead => pure .wouldBlockRead
        | .wouldBlockWrite => pure .wouldBlockWrite

/-- `HttpConnection::handle_client_bytes`. -/
def handleClientBytes (cfg : Cfg) : Nat → Bytes → M Unit
  | 0, _ => halt .fuel
  | n + 1, data => do
      let s ← get
      match s.client.state with
      | .readingHead =>
          modify (appendIn data)
          processHead cfg n
      | .streamingUp => forwardBody cfg n data
      | .streaming => pure ()
      | .closing => pure ()

/-- `HttpConnection::process_head`. -/
def processHead (cfg : Cfg) : Nat → M Unit
  | 0 => halt .fuel
  | n + 1 => do
      let s ← get
      match phrParseRequest (some kMaxHeaders) s.client.inBuf with
      | .incomplete =>
          if kMaxHead < s.client.inBuf.length then
            sendResponse cfg n
              (.mk' 431 "Request Header Fields Too Large" "header too large") false
          else pure ()
      | .malformed => sendResponse cfg n (.mk' 400 "Bad Request" "malformed request") false
      | .done req rest =>
          modify (setHeadLen (s.client.inBuf.length - rest.length))
          match headVerdict cfg.routes cfg.maxBody req with
          | .handleInternal method target => handleInternal cfg n method target
          | .reply r => sendResponse cfg n r false
          | .overflow => halt .overflow
          | .forward head target contentLength =>
              modify (acceptHead head target contentLength)
              beginUpload cfg n

/-- `HttpConnection::process_head` from line 354 on. -/
def beginUpload (cfg : Cfg) : Nat → M Unit
  | 0 => halt .fuel
  | n + 1 => do
      startBackend cfg n
      let s ← get
      if s.client.state = .closing ∨ s.client.closed then pure ()
      else
        if s.client.bodyRemaining = 0 then
          modify (setState .streaming)
        else
          modify (setState .streamingUp)
          -- body bytes that arrived in the same read as the head
          let buffered := s.client.inBuf.drop s.client.headLen
          if buffered ≠ [] then forwardBody cfg n buffered
        modify clearIn

/-- `HttpConnection::start_backend`. -/
def startBackend (cfg : Cfg) : Nat → M Unit
  | 0 => halt .fuel
  | n + 1 => do
      let sock ← sysSocket
      let s ← get
      if ¬ sock then
        sendResponse cfg n (.mk' 502 "Bad Gateway" "cannot create upstream socket") false
      else if ¬ inetPton s.client.backendTarget.host then
        sendResponse cfg n (.mk' 502 "Bad Gateway" "bad backend address") false
      else
        let connecting ← sysConnect
        if ¬ connecting then
          sendResponse cfg n (.mk' 502 "Bad Gateway" "cannot connect to backend") false
        else
          modify openBackend
          viaBackend (send cfg n s.client.upstream)
          let added ← epollAdd
          modify (finishAdd added)

/-- `HttpConnection::forward_body`. -/
def forwardBody (cfg : Cfg) : Nat → Bytes → M Unit
  | 0, _ => halt .fuel
  | n + 1, data => do
      let s ← get
      if ¬ s.client.hasBackend then pure ()
      else
        let take := min data.length s.client.bodyRemaining
        if 0 < take then
          viaBackend (send cfg n (data.take take))
          modify (spendBody take)
        endForward

/-- `BackendConnection::send`. -/
def send (cfg : Cfg) : Nat → Bytes → M Unit
  | 0, _ => halt .fuel
  | n + 1, data => do
      modify (queueBackend data)
      let b ← self
      if b.connected then flush cfg n

/-- `BackendConnection::flush`. -/
def flush (cfg : Cfg) : Nat → M Unit
  | 0 => halt .fuel
  | n + 1 => do
      match ← flushLoop n 0 with
      | none => fail cfg n (ascii "backend write failed")
      | some off =>
          modify (eraseBackend off)
          let b ← self
          if b.highWaterHit ∧ b.outBuf.length < kBackpressureLow then
            modify clearHighWater
            if b.hasClient then onBackendDrained cfg n
          modify applyInterest

/-- `HttpConnection::on_backend_drained`. -/
def onBackendDrained (cfg : Cfg) : Nat → M Unit
  | 0 => halt .fuel
  | n + 1 => do
      let s ← get
      if s.client.closed ∨ ¬ s.client.readPaused then pure ()
      else
        modify (setReadPaused false)
        drive cfg n

end

/-- `BackendConnection::on_writable`. -/
def onWritable (cfg : Cfg) (n : Nat) : M Unit := do
  let b ← self
  if b.connected then flush cfg n
  else
    let ok ← soError
    if ok then
      modify finishConnect
      flush cfg n
    else fail cfg n (ascii "connect failed")

/-! ## Callbacks and runs -/

/-- What the event loop can call on the pair. -/
inductive Callback where
  | clientReadable
  | clientWritable
  | clientError
  | clientTimeout (now : Nat)
  | backendReadable
  | backendWritable
  | backendError
  | backendTimeout (now : Nat)
  /-- `process_pending_close`, at the end of an epoll batch -/
  | processPendingClose (backendFirst : Bool)

/-- The test of both `check_timeout` methods. -/
def idleExpired (cfg : Cfg) (now lastActivity : Nat) : Bool :=
  0 < cfg.timeout && cfg.timeout * 1000000000 < (now : Int) - lastActivity

/-- Callbacks go to registered handlers only, and `EventLoop::run` skips
    `on_writable` for an fd that is already in `pending_close_`. -/
def enabled (s : Pair) : Callback → Bool
  | .clientReadable | .clientError | .clientTimeout _ => s.clientMask.isSome
  | .clientWritable => s.clientMask.isSome && !s.clientPending
  | .backendReadable | .backendError | .backendTimeout _ => s.backendMask.isSome
  | .backendWritable => s.backendMask.isSome && !s.backendPending
  | .processPendingClose _ => true

/-- The code of a callback. -/
def callback (cfg : Cfg) (n : Nat) : Callback → M Unit
  | .clientReadable => drive cfg n
  | .clientWritable => drive cfg n
  | .clientError => modify closeBoth
  | .clientTimeout now =>
      modify fun s => if idleExpired cfg now s.client.lastActivity then closeBoth s else s
  | .backendReadable => onReadable cfg n
  | .backendWritable => onWritable cfg n
  | .backendError => fail cfg n (ascii "backend socket error")
  | .backendTimeout now => do
      let b ← self
      if idleExpired cfg now b.lastActivity then fail cfg n (ascii "upstream timeout")
  | .processPendingClose backendFirst => modify (processPendingClose backendFirst)

/-- Fuel for one callback: every cycle of calls reads an answer. -/
def fuelFor (w : List Answer) : Nat := 16 * w.length + 16

/-- One callback on the pair. -/
def dispatch (cfg : Cfg) (cb : Callback) : M Unit := fun s w =>
  callback cfg (fuelFor w) cb s w

end CastlePlus
