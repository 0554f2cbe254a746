import CastlePlus.ScriptProg
import CastlePlus.RequestHead

/-! # The proxied pair: data, system calls and straight-line code

    One `HttpConnection` (`src/http/http_connection.{h,cpp}`) and the
    `BackendConnection` (`src/http/backend_connection.{h,cpp}`) it opens, together
    with what the `EventLoop` keeps about the two: the registered epoll masks and
    membership in `pending_close_`.

    * **`Pair`** is the state.  Field names are the source's without the trailing
      underscore; `in_` and `out_` are `inBuf` and `outBuf`.  The two raw pointers
      `backend_` and `client_` are `hasBackend` and `hasClient`: a connection opens
      at most one backend, so null or not is all they carry.  The
      `BackendConnection` object itself is `Pair.backend`, present while it lives.
    * **`SysResult`** lists the answers of the system calls, **`Answer`** adds the
      time the call took.  `M` is the scripted-program monad over them.
    * **`History`** records what crossed the sockets.  No code reads it.

    Functions that make no system call are plain state transformers here; the
    re-entrant ones are in `ProxyPair`. -/

namespace CastlePlus

open ScriptProg

/-- request head cap -> 431 -/
def kMaxHead : Nat := 32 * 1024
def kMaxHeaders : Nat := 100
def kBackpressureHigh : Nat := 256 * 1024
def kBackpressureLow : Nat := 64 * 1024
/-- `sizeof(buf)` in `pump_read` and `BackendConnection::on_readable`. -/
def kReadBuf : Nat := 16384

inductive IoStatus where
  | ok
  | wouldBlockRead
  | wouldBlockWrite
  | closed
  | error
  deriving DecidableEq

/-- An `IoStatus` together with what the call hands over when it is `Ok`. -/
inductive Io (α : Type) where
  | ok (a : α)
  | wouldBlockRead
  | wouldBlockWrite
  | closed
  | error

/-- The bytes of one successful read: at least one, at most a buffer. -/
def Chunk : Type := { d : Bytes // d ≠ [] ∧ d.length ≤ kReadBuf }

/-- The count of one successful write, at least one.  A count beyond the buffer
    offered stands for all of it. -/
def Count : Type := { k : Nat // 0 < k }

/-- `::read` on the backend socket. -/
inductive ReadResult where
  | data (c : Chunk)
  | eof
  | again
  | intr
  | error

/-- `::write` on the backend socket. -/
inductive WriteResult where
  | wrote (k : Count)
  | again
  | intr
  | error

/-- The answers of the environment, one constructor a call. -/
inductive SysResult where
  | handshake (r : Io Unit)
  | recv (r : Io Chunk)
  | send (r : Io Count)
  | read (r : ReadResult)
  | write (r : WriteResult)
  /-- `getsockopt(SO_ERROR)`: true when the connect went through -/
  | soError (connected : Bool)
  /-- `::socket` -/
  | socket (ok : Bool)
  /-- `::connect`: true for success and `EINPROGRESS` -/
  | connect (ok : Bool)
  /-- `epoll_ctl(EPOLL_CTL_ADD)` in `EventLoop::add` -/
  | epollAdd (ok : Bool)
  /-- `tcp_probe` -/
  | probe (up : Bool)
  /-- the text of `render_uptime`, read off the clocks and the supervisor's snapshot -/
  | uptime (text : Bytes)

/-- A system call's answer and the time (ns) it took. -/
structure Answer where
  res : SysResult
  dt : Nat := 0

/-- An epoll mask; every mask of a connection carries `EPOLLET`. -/
structure Mask where
  inp : Bool
  out : Bool
  deriving DecidableEq

/-- `PlainTransport` or `TlsTransport`. -/
inductive TransportKind where
  | plain
  | tls
  deriving DecidableEq

/-- What the constructor of `HttpConnection` is given. -/
structure Cfg where
  transport : TransportKind
  routes : List Route
  /-- seconds; at most zero disables the idle sweep -/
  timeout : Int
  maxBody : Nat

inductive State where
  | readingHead
  | streamingUp
  | streaming
  | closing
  deriving DecidableEq

structure HttpConnection where
  hasBackend : Bool := false
  lastActivity : Nat
  state : State := .readingHead
  inBuf : Bytes := []
  outBuf : Bytes := []
  upstream : Bytes := []
  backendTarget : Backend := {}
  headLen : Nat := 0
  bodyRemaining : Nat := 0
  responded : Bool := false
  handshakeDone : Bool := false
  closed : Bool := false
  clientEof : Bool := false
  readPaused : Bool := false
  backendPaused : Bool := false
  interest : Mask := ⟨true, false⟩
  readBlock : IoStatus := .wouldBlockRead
  writeBlock : IoStatus := .ok

structure BackendConnection where
  hasClient : Bool := true
  outBuf : Bytes := []
  lastActivity : Nat
  interest : Mask := ⟨false, true⟩
  connected : Bool := false
  readPaused : Bool := false
  highWaterHit : Bool := false

/-- What `process_head` accepted: the rewritten head, the length of the client's head
    and the body length. -/
structure Routed where
  head : Bytes
  headLen : Nat
  bodyLen : Nat

/-- What has crossed the sockets so far. -/
structure History where
  /-- bytes `recv` returned -/
  fromClient : Bytes := []
  /-- bytes the client transport accepted -/
  toClient : Bytes := []
  /-- bytes `read` returned on the backend socket -/
  fromBackend : Bytes := []
  /-- bytes `deliver_to_client` appended to the client's `out_` -/
  delivered : Bytes := []
  /-- bytes the backend socket accepted -/
  toBackend : Bytes := []
  /-- the responses `send_response` built, newest first -/
  responses : List Bytes := []
  /-- `send_response` found `out_` non-empty -/
  overwrote : Bool := false
  routed : Option Routed := none
  /-- a backend was opened for the request -/
  forwarded : Bool := false
  /-- what the backend had sent when its first EOF was read -/
  response : Option Bytes := none
  /-- a connect, read, write or registration of the backend socket failed -/
  backendError : Bool := false
  /-- the client transport reported an error, or a close on a send or in the handshake -/
  clientFailed : Bool := false
  /-- the client closed before its request was complete -/
  aborted : Bool := false
  /-- an `epoll_ctl(EPOLL_CTL_MOD)` failed -/
  modFailed : Bool := false
  /-- the last handshake step or recv on the client's fd would have blocked -/
  clientDry : Bool := false
  /-- the last read on the backend's fd would have blocked -/
  backendDry : Bool := false
  /-- the backend was lost with no byte handed to the client and no error page to follow -/
  silenced : Bool := false
  /-- a write failed hard on the bytes that complete the body, with no reply begun -/
  lastCut : Bool := false
  /-- `state_` was assigned another value after it had become `Closing` -/
  reopened : Bool := false

structure Pair where
  client : HttpConnection
  backend : Option BackendConnection := none
  /-- the client's entry in `handlers_` and its registered mask -/
  clientMask : Option Mask := some ⟨true, false⟩
  backendMask : Option Mask := none
  /-- the client's fd is in `pending_close_` -/
  clientPending : Bool := false
  backendPending : Bool := false
  /-- the steady clock -/
  now : Nat
  /-- `LoopStats` -/
  bytesIn : Nat := 0
  bytesOut : Nat := 0
  /-- outcomes of the `epoll_ctl(EPOLL_CTL_MOD)` calls to come; success once used up -/
  modResults : List Bool := []
  hist : History := {}

/-- Why a callback did not return. -/
inductive Halt where
  /-- still inside a system call: the script ends here -/
  | pending
  /-- a method was called through a null `backend_` -/
  | nullBackend
  /-- a method ran on a destroyed `BackendConnection` -/
  | dangling
  /-- signed overflow in `parse_content_length` -/
  | overflow
  | fuel
  deriving DecidableEq

abbrev M := Prog Answer Halt Pair

/-! ## System calls -/

/-- Time passes. -/
def tick (dt : Nat) (s : Pair) : Pair := { s with now := s.now + dt }

/-- Wait for an answer `take` accepts; time passes, and `note` writes the history. -/
def sysCall {α : Type} (take : SysResult → Option α) (note : α → Pair → Pair) : M α :=
  await .pending fun a => (take a.res).map fun x => (x, fun s => note x (tick a.dt s))

/-- `PlainTransport::handshake` is `Ok` at once. -/
def handshakeAllowed (t : TransportKind) : Io Unit → Bool
  | .ok _ => true
  | _ => t != .plain

/-- `PlainTransport::recv` never asks for writability. -/
def recvAllowed (t : TransportKind) : Io Chunk → Bool
  | .wouldBlockWrite => t != .plain
  | _ => true

/-- `PlainTransport::send` reports neither `Closed` nor `WouldBlockRead`. -/
def sendAllowed (t : TransportKind) : Io Count → Bool
  | .wouldBlockRead | .closed => t != .plain
  | _ => true

/-- A handshake step, for the history. -/
def noteHandshake (r : Io Unit) (s : Pair) : Pair :=
  match r with
  | .ok _ => { s with hist.clientDry := false }
  | .closed | .error => { s with hist.clientFailed := true, hist.clientDry := false }
  | .wouldBlockRead | .wouldBlockWrite => { s with hist.clientDry := true }

/-- A recv, for the history. -/
def noteRecv (r : Io Chunk) (s : Pair) : Pair :=
  match r with
  | .ok c => { s with hist.fromClient := s.hist.fromClient ++ c.val, hist.clientDry := false }
  | .closed =>
      if s.client.state = .streaming ∨ s.client.state = .closing then
        { s with hist.clientDry := false }
      else { s with hist.aborted := true, hist.clientDry := false }
  | .error => { s with hist.clientFailed := true, hist.clientDry := false }
  | .wouldBlockRead | .wouldBlockWrite => { s with hist.clientDry := true }

/-- A send, for the history. -/
def noteSend (r : Io Count) (s : Pair) : Pair :=
  match r with
  | .closed | .error => { s with hist.clientFailed := true }
  | _ => s

/-- The backend still has its client, which has been given nothing to send. -/
def unanswered (s : Pair) : Bool := s.backend.any (·.hasClient) && !s.client.responded

/-- A read of the backend socket, for the history. -/
def noteRead (r : ReadResult) (s : Pair) : Pair :=
  match r with
  | .data c => { s with hist.fromBackend := s.hist.fromBackend ++ c.val, hist.backendDry := false }
  | .eof =>
      { s with
        hist.response := s.hist.response.or (some s.hist.fromBackend)
        hist.silenced := s.hist.silenced || unanswered s
        hist.backendDry := false }
  | .error => { s with hist.backendError := true, hist.backendDry := false }
  | .again => { s with hist.backendDry := true }
  | .intr => { s with hist.backendDry := false }

/-- The upload is under way, all of the body has arrived, and no reply has begun: what is
    written now completes the request. -/
def completing (s : Pair) : Bool :=
  s.client.state == .streamingUp && s.client.hasBackend && !s.client.responded &&
    s.hist.routed.any fun r => r.headLen + r.bodyLen ≤ s.hist.fromClient.length

/-- A failed write on the backend socket, for the history. -/
def noteWrite (r : WriteResult) (s : Pair) : Pair :=
  match r with
  | .error => { s with hist.backendError := true, hist.lastCut := s.hist.lastCut || completing s }
  | _ => s

/-- A failed connect or registration, for the history. -/
def noteConnect (ok : Bool) (s : Pair) : Pair :=
  if ok then s else { s with hist.backendError := true }

/-- No history. -/
def noNote {α : Type} (_ : α) (s : Pair) : Pair := s

/-- `transport_->handshake()`. -/
def transportHandshake (cfg : Cfg) : M (Io Unit) :=
  sysCall (fun
    | .handshake r => if handshakeAllowed cfg.transport r then some r else none
    | _ => none) noteHandshake

/-- `transport_->recv`. -/
def transportRecv (cfg : Cfg) : M (Io Chunk) :=
  sysCall (fun
    | .recv r => if recvAllowed cfg.transport r then some r else none
    | _ => none) noteRecv

/-- `transport_->send`. -/
def transportSend (cfg : Cfg) : M (Io Count) :=
  sysCall (fun
    | .send r => if sendAllowed cfg.transport r then some r else none
    | _ => none) noteSend

/-- `::read(sock_.get(), buf, sizeof(buf))`. -/
def backendRead : M ReadResult := sysCall (fun | .read r => some r | _ => none) noteRead

/-- `::write(sock_.get(), out_.data() + off, out_.size() - off)`. -/
def backendWrite : M WriteResult := sysCall (fun | .write r => some r | _ => none) noteWrite

/-- `getsockopt(…, SO_ERROR, …)` of `on_writable`. -/
def soError : M Bool := sysCall (fun | .soError ok => some ok | _ => none) noteConnect

def sysSocket : M Bool := sysCall (fun | .socket ok => some ok | _ => none) noNote

def sysConnect : M Bool := sysCall (fun | .connect ok => some ok | _ => none) noNote

def epollAdd : M Bool := sysCall (fun | .epollAdd ok => some ok | _ => none) noteConnect

def tcpProbe : M Bool := sysCall (fun | .probe up => some up | _ => none) noNote

def renderUptime : M Bytes := sysCall (fun | .uptime t => some t | _ => none) noNote

section Awaiting

variable {cfg : Cfg} {H : Halt → Pair → Prop} {s : Pair} {w : List Answer}

theorem wp_sysCall {α : Type} {take : SysResult → Option α} {note : α → Pair → Pair}
    {Q : α → Pair → List Answer → Prop} (hH : H .pending s)
    (hQ : ∀ a w' x, w = a :: w' → take a.res = some x → Q x (note x (tick a.dt s)) w') :
    wp (sysCall take note) Q H s w := by
  refine wp_await _ _ hH ?_
  intro a x g w' hw hk
  obtain ⟨y, hy, heq⟩ := Option.map_eq_some_iff.mp hk
  cases heq
  exact hQ a w' _ hw hy

theorem wp_transportHandshake {Q : Io Unit → Pair → List Answer → Prop}
    (hH : H .pending s)
    (hQ : ∀ a w' r, w = a :: w' → a.res = .handshake r →
      handshakeAllowed cfg.transport r = true → Q r (noteHandshake r (tick a.dt s)) w') :
    wp (transportHandshake cfg) Q H s w :=
  wp_sysCall hH fun a w' r hw hk => hQ a w' r hw (by grind) (by grind)

theorem wp_transportRecv {Q : Io Chunk → Pair → List Answer → Prop} (hH : H .pending s)
    (hQ : ∀ a w' r, w = a :: w' → a.res = .recv r →
      recvAllowed cfg.transport r = true → Q r (noteRecv r (tick a.dt s)) w') :
    wp (transportRecv cfg) Q H s w :=
  wp_sysCall hH fun a w' r hw hk => hQ a w' r hw (by grind) (by grind)

theorem wp_transportSend {Q : Io Count → Pair → List Answer → Prop} (hH : H .pending s)
    (hQ : ∀ a w' r, w = a :: w' → a.res = .send r →
      sendAllowed cfg.transport r = true → Q r (noteSend r (tick a.dt s)) w') :
    wp (transportSend cfg) Q H s w :=
  wp_sysCall hH fun a w' r hw hk => hQ a w' r hw (by grind) (by grind)

theorem wp_backendRead {Q : ReadResult → Pair → List Answer → Prop} (hH : H .pending s)
    (hQ : ∀ a w' r, w = a :: w' → a.res = .read r → Q r (noteRead r (tick a.dt s)) w') :
    wp backendRead Q H s w :=
  wp_sysCall hH fun a w' r hw hk => hQ a w' r hw (by grind)

theorem wp_backendWrite {Q : WriteResult → Pair → List Answer → Prop} (hH : H .pending s)
    (hQ : ∀ a w' r, w = a :: w' → a.res = .write r → Q r (noteWrite r (tick a.dt s)) w') :
    wp backendWrite Q H s w :=
  wp_sysCall hH fun a w' r hw hk => hQ a w' r hw (by grind)

theorem wp_soError {Q : Bool → Pair → List Answer → Prop} (hH : H .pending s)
    (hQ : ∀ a w' ok, w = a :: w' → a.res = .soError ok →
      Q ok (noteConnect ok (tick a.dt s)) w') :
    wp soError Q H s w :=
  wp_sysCall hH fun a w' r hw hk => hQ a w' r hw (by grind)

end Awaiting

/-! ## EventLoop calls -/

/-- The outcome of one `epoll_ctl(EPOLL_CTL_MOD)`: a failure is only logged. -/
def epollMod (s : Pair) : Bool × Pair :=
  match s.modResults with
  | [] => (true, s)
  | ok :: rest =>
      (ok, { s with modResults := rest, hist.modFailed := s.hist.modFailed || !ok })

/-- `loop_.update(fd(), ev)` of the client: nothing for an fd not in `handlers_`. -/
def updateClient (ev : Mask) (s : Pair) : Pair :=
  match s.clientMask with
  | none => s
  | some _ =>
      let r := epollMod s
      if r.1 then { r.2 with clientMask := some ev } else r.2

/-- `loop_.update(fd(), ev)` of the backend. -/
def updateBackend (ev : Mask) (s : Pair) : Pair :=
  match s.backendMask with
  | none => s
  | some _ =>
      let r := epollMod s
      if r.1 then { r.2 with backendMask := some ev } else r.2

/-- Change the `BackendConnection` object. -/
def onBackend (f : BackendConnection → BackendConnection) (s : Pair) : Pair :=
  { s with backend := s.backend.map f }

/-- `detach_client()`, or `client_ = nullptr`. -/
def detachClient (s : Pair) : Pair := onBackend (fun b => { b with hasClient := false }) s

/-- `loop_.request_close(fd())` of the backend. -/
def requestCloseBackend (s : Pair) : Pair := { s with backendPending := true }

/-! ## HttpConnection: the parts without a system call -/

/-- `HttpConnection::touch`. -/
def touchClient (s : Pair) : Pair := { s with client.lastActivity := s.now }

/-- `HttpConnection::set_interest`. -/
def setInterest (ev : Mask) (s : Pair) : Pair :=
  if ev = s.client.interest then s
  else updateClient ev { s with client.interest := ev }

/-- The mask `HttpConnection::recompute_interest` computes. -/
def wantedInterest (c : HttpConnection) : Mask :=
  let reading := !c.readPaused && !c.clientEof
  let writing := !c.outBuf.isEmpty
  let wantIn := (reading && c.readBlock != .wouldBlockWrite) ||
    (writing && c.writeBlock == .wouldBlockRead)
  let wantOut := (reading && c.readBlock == .wouldBlockWrite) ||
    (writing && c.writeBlock != .wouldBlockRead)
  ⟨wantIn || (!wantIn && !wantOut && reading), wantOut⟩

/-- `HttpConnection::recompute_interest`. -/
def recomputeInterest (s : Pair) : Pair := setInterest (wantedInterest s.client) s

/-- `detach_backend()`, or `backend_ = nullptr`. -/
def detachBackend (s : Pair) : Pair := { s with client.hasBackend := false }

/-- The `if (backend_)` block of `close_both`. -/
def dropBackend (s : Pair) : Pair :=
  if s.client.hasBackend then detachBackend (requestCloseBackend (detachClient s)) else s

/-- `HttpConnection::close_both`. -/
def closeBoth (s : Pair) : Pair :=
  if s.client.closed then s
  else { dropBackend { s with client.closed := true } with clientPending := true }

/-- The `close_both` of `on_backend_error`: a reply under way cannot be replaced. -/
def cutOff (s : Pair) : Pair :=
  closeBoth { s with hist.silenced := s.hist.silenced || s.hist.toClient.isEmpty }

theorem closeBoth_of_closed {s : Pair} (h : s.client.closed = true) : closeBoth s = s :=
  if_pos h

theorem closeBoth_of_open {s : Pair} (h : s.client.closed = false) :
    closeBoth s = { s with
      client.closed := true
      client.hasBackend := false
      clientPending := true
      backendPending := s.backendPending || s.client.hasBackend
      backend :=
        if s.client.hasBackend then s.backend.map fun b => { b with hasClient := false }
        else s.backend } := by
  rw [closeBoth, dropBackend]
  rw [if_neg (by simp [h])]
  cases hb : s.client.hasBackend <;>
    simp [hb, detachBackend, requestCloseBackend, detachClient, onBackend]

/-- `state_ = st`. -/
def setState (st : State) (s : Pair) : Pair :=
  { s with
    client.state := st
    hist.reopened := (st != .closing && s.client.state == .closing) || s.hist.reopened }

theorem setState_self {s : Pair} : setState s.client.state s = s := by
  have hne : (s.client.state != .closing && s.client.state == .closing) = false := by
    cases s.client.state <;> rfl
  rw [setState]
  rw [hne]
  rfl

/-- `read_block_ = st`. -/
def setReadBlock (st : IoStatus) (s : Pair) : Pair := { s with client.readBlock := st }

/-- `write_block_ = st`. -/
def setWriteBlock (st : IoStatus) (s : Pair) : Pair := { s with client.writeBlock := st }

/-- `write_block_ = st; if (closed_) return; recompute_interest();`, as it follows
    `pump_write` in its callers. -/
def finishPump (st : IoStatus) (s : Pair) : Pair :=
  if s.client.closed then setWriteBlock st s else recomputeInterest (setWriteBlock st s)

/-- The end of a drained `pump_write`. -/
def closeIfClosing (s : Pair) : Pair :=
  if s.client.state = .closing then closeBoth s else s

/-- `backend_paused_ = false` in `pump_write`. -/
def releaseBackend (s : Pair) : Pair := { s with client.backendPaused := false }

/-- `handshake_done_ = true` and `touch()`. -/
def finishHandshake (s : Pair) : Pair :=
  touchClient { s with client.handshakeDone := true }

/-- The bookkeeping of `pump_read` after an `Ok` recv of `n` bytes. -/
def countRecv (n : Nat) (s : Pair) : Pair :=
  touchClient { s with bytesIn := s.bytesIn + n }

def setClientEof (s : Pair) : Pair := { s with client.clientEof := true }

/-- `read_paused_ = b`, the upload backpressure flag. -/
def setReadPaused (b : Bool) (s : Pair) : Pair := { s with client.readPaused := b }

/-- `in_.append(data, n)`. -/
def appendIn (data : Bytes) (s : Pair) : Pair :=
  { s with client.inBuf := s.client.inBuf ++ data }

def clearIn (s : Pair) : Pair := { s with client.inBuf := [] }

def setHeadLen (n : Nat) (s : Pair) : Pair := { s with client.headLen := n }

/-- Lines 350–352 of `process_head`. -/
def acceptHead (head : Bytes) (target : Backend) (contentLength : Nat) (s : Pair) : Pair :=
  { s with
    client.upstream := head
    client.backendTarget := target
    client.bodyRemaining := contentLength
    hist.routed := some ⟨head, s.client.headLen, contentLength⟩ }

/-- `body_remaining_ -= take`. -/
def spendBody (take : Nat) (s : Pair) : Pair :=
  { s with client.bodyRemaining := s.client.bodyRemaining - take }

/-- `responded_ = true` and the append of `deliver_to_client`. -/
def queueClient (data : Bytes) (s : Pair) : Pair :=
  { s with
    client.responded := true
    client.outBuf := s.client.outBuf ++ data
    hist.delivered := s.hist.delivered ++ data }

/-- `out_.erase(0, sent)` after an `Ok` send, with the counter and `touch()`. -/
def acceptSent (k : Count) (s : Pair) : Pair :=
  let sent := min k.val s.client.outBuf.length
  touchClient { s with
    client.outBuf := s.client.outBuf.drop sent
    bytesOut := s.bytesOut + sent
    hist.toClient := s.hist.toClient ++ s.client.outBuf.take sent }

/-- The text `send_response` puts into `out_`: `snprintf` into `char head[192]`, then
    the body unless only the head is wanted. -/
def responseText (code : Nat) (status body : Bytes) (headOnly : Bool) : Bytes :=
  let head := ascii "HTTP/1.1 " ++ ascii (toString code) ++ ascii " " ++ status ++
    ascii "\r\nContent-Type: text/plain\r\nContent-Length: " ++
    ascii (toString body.length) ++
    ascii "\r\nCache-Control: no-store\r\nConnection: close\r\n\r\n"
  head.take 191 ++ if headOnly then [] else body

/-- The assignments of `send_response` before it starts writing. -/
def beginResponse (text : Bytes) (s : Pair) : Pair :=
  { s with
    client.outBuf := text
    client.responded := true
    client.state := .closing
    hist.responses := text :: s.hist.responses
    hist.overwrote := s.hist.overwrote || !s.client.outBuf.isEmpty }

/-! ## BackendConnection: the parts without a system call -/

/-- `BackendConnection::touch`. -/
def touchBackend (s : Pair) : Pair :=
  onBackend (fun b => { b with lastActivity := s.now }) s

/-- The mask `BackendConnection::apply_interest` computes. -/
def backendInterest (b : BackendConnection) : Mask :=
  if b.connected then ⟨!b.readPaused, !b.outBuf.isEmpty⟩ else ⟨false, true⟩

/-- `BackendConnection::apply_interest`. -/
def applyInterest (s : Pair) : Pair :=
  match s.backend with
  | none => s
  | some b =>
      if backendInterest b = b.interest then s
      else
        updateBackend (backendInterest b)
          (onBackend (fun b => { b with interest := backendInterest b }) s)

/-- `read_paused_ = p` of the backend. -/
def setReads (p : Bool) (s : Pair) : Pair := onBackend (fun b => { b with readPaused := p }) s

/-- The assignments of `BackendConnection::resume_reads`. -/
def unpauseReads (s : Pair) : Pair := applyInterest (setReads false s)

/-- `BackendConnection::pause_reads`. -/
def pauseReads (s : Pair) : Pair :=
  match s.backend with
  | none => s
  | some b =>
      if b.readPaused then s
      else applyInterest (setReads true s)

/-- The download backpressure check of `deliver_to_client`. -/
def pauseIfFull (s : Pair) : Pair :=
  if s.client.hasBackend ∧ ¬ s.client.backendPaused ∧
      kBackpressureHigh < s.client.outBuf.length then
    { pauseReads s with client.backendPaused := true }
  else s

/-- `BackendConnection::send` before its flush. -/
def queueBackend (data : Bytes) (s : Pair) : Pair :=
  onBackend (fun b =>
    let out := b.outBuf ++ data
    { b with
      outBuf := out
      highWaterHit := b.highWaterHit || kBackpressureHigh < out.length }) s

/-- `connected_ = true` and `touch()` of `on_writable`. -/
def finishConnect (s : Pair) : Pair :=
  touchBackend (onBackend (fun b => { b with connected := true }) s)

/-- One accepted `::write`; `out_` itself is erased when the loop ends. -/
def noteWritten (d : Bytes) (s : Pair) : Pair :=
  touchBackend { s with hist.toBackend := s.hist.toBackend ++ d }

/-- `out_.erase(0, off)` at the end of the loop of `flush`. -/
def eraseBackend (off : Nat) (s : Pair) : Pair :=
  onBackend (fun b => { b with outBuf := b.outBuf.drop off }) s

def clearHighWater (s : Pair) : Pair :=
  onBackend (fun b => { b with highWaterHit := false }) s

/-- `make_unique<BackendConnection>` and `backend_ = bc.get()`; a fresh fd, neither
    registered nor in `pending_close_`. -/
def openBackend (s : Pair) : Pair :=
  { s with
    backend := some { lastActivity := s.now }
    backendMask := none
    backendPending := false
    client.hasBackend := true
    hist.forwarded := true }

/-! ## Destruction -/

/-- `~BackendConnection` and its removal from `handlers_`. -/
def destroyBackend (s : Pair) : Pair :=
  match s.backend with
  | none => s
  | some b =>
      let s := if b.hasClient then detachBackend s else s
      { s with backend := none, backendMask := none }

/-- The end of `EventLoop::add`: a handler that could not be registered is destroyed on
    the spot. -/
def finishAdd (added : Bool) (s : Pair) : Pair :=
  if added then { s with backendMask := some ⟨false, true⟩ } else destroyBackend s

/-- `~HttpConnection` and its removal from `handlers_`. -/
def destroyClient (s : Pair) : Pair :=
  let s := if s.client.hasBackend then detachClient s else s
  { s with clientMask := none }

/-- `EventLoop::process_pending_close`; the order in which an `unordered_set` yields
    the two fds is not fixed. -/
def processPendingClose (backendFirst : Bool) (s : Pair) : Pair :=
  let closeC := fun s : Pair => if s.clientPending then destroyClient s else s
  let closeB := fun s : Pair => if s.backendPending then destroyBackend s else s
  let s := if backendFirst then closeC (closeB s) else closeB (closeC s)
  { s with clientPending := false, backendPending := false }

end CastlePlus
