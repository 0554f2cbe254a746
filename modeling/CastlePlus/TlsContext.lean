import CastlePlus.HandleLog
import CastlePlus.PhrParser

/-! # The TLS context

    `TlsContext` (`tls/tls_context.cpp`): workers make an `SSL` for every connection while the main
    thread exchanges the `SSL_CTX` on SIGHUP.

    OpenSSL is the environment: a label says what a call answers, and the log keeps every call with
    its answer, among what castle reports.  A context goes by the number of the `SSL_CTX_new` that
    made it, an `SSL` by its connection.  `reload` frees a context from which the `SSL`s of open
    connections were made; that these hold a reference of their own is the library's affair.

    Main and any number of workers take steps in any order.  `Guarded` says that the mutex does
    what it is there for. -/

namespace CastlePlus

/-- Where `build_ctx` is, with the context it fills in. -/
inductive BuildPc where
  | new
  | cert (p : Nat)
  | key (p : Nat)
  | check (p : Nat)

/-- Where the main thread is. -/
inductive MainPc where
  | init (b : BuildPc)
  | store (fresh : Nat)
  /-- inside `sigwait` -/
  | parked
  | reload (b : BuildPc)
  /-- before it takes the mutex -/
  | lock (fresh : Nat)
  | swap (fresh : Nat)
  | unlock (old : Option Nat)
  | free (old : Option Nat)
  /-- the loops are told to stop -/
  | join
  /-- its locals are destroyed, the loops before the context -/
  | leave
  | exited

/-- Where an accepted connection is: in `wrap`, in its transport, or past it. -/
inductive ConnPc where
  /-- before `wrap` takes the mutex -/
  | accepted
  | locked
  /-- `wrap` has read `ctx_` -/
  | making (ctx : Option Nat)
  /-- `SSL_new` has given an `SSL` or null -/
  | made (ssl : Bool)
  | unlocked (ssl : Bool)
  | live
  /-- the transport's destructor has called `SSL_free` -/
  | freed
  | closed

/-- The calls of OpenSSL, and what castle reports. -/
inductive TlsEvent where
  | ctxNew (p : Nat)
  /-- the protocol floor, the options and the mode, whose results nobody reads -/
  | harden (p : Nat)
  | useCert (p : Nat) (path : Bytes) (ok : Bool)
  | useKey (p : Nat) (path : Bytes) (ok : Bool)
  | checkKey (p : Nat) (ok : Bool)
  | ctxFree (p : Nat)
  | sslNew (k : Nat) (ctx : Option Nat) (ok : Bool)
  /-- any other call on the `SSL` -/
  | sslUse (k : Nat)
  | sslFree (k : Nat)
  | initFailed (err : Bytes)
  | installed (p : Nat)
  | reloaded
  | reloadFailed (err : Bytes)
  | mintFailed (k : Nat)

/-- The object, the mutex and the two sides that use it. -/
structure TlsContext where
  ctx : Option Nat := none
  certPath : Bytes := []
  keyPath : Bytes := []
  /-- how many contexts have been made -/
  next : Nat := 0
  writer : Bool := false
  readers : Nat := 0
  pc : MainPc := .init .new
  err : Bytes := []
  conns : List ConnPc := []
  log : List TlsEvent := []

inductive TlsLabel where
  /-- main's next step; `ok` is what the library answers -/
  | main (ok : Bool)
  | sighup
  | sigterm
  | accept
  /-- the next step of the thread that has connection `k` -/
  | conn (k : Nat) (ok : Bool)
  /-- a handshake, read or write on connection `k` -/
  | io (k : Nat)

/-- The workers run. -/
def MainPc.serving : MainPc → Bool
  | .parked | .reload _ | .lock _ | .swap _ | .unlock _ | .free _ | .join => true
  | _ => false

def MainPc.writing : MainPc → Bool
  | .swap _ | .unlock _ => true
  | _ => false

/-- `init` is not over. -/
def MainPc.starting : MainPc → Bool
  | .init _ | .store _ => true
  | _ => false

/-- Inside the shared section of `wrap`. -/
def ConnPc.inside : ConnPc → Bool
  | .locked | .making _ | .made _ => true
  | _ => false

def ConnPc.wrapping : ConnPc → Bool
  | .accepted | .locked | .making _ | .made _ | .unlocked _ => true
  | _ => false

def ConnPc.isClosed : ConnPc → Bool
  | .closed => true
  | _ => false

/-- What a step of `build_ctx` leads to. -/
inductive Built where
  | goesOn (b : BuildPc)
  | failed
  | done (fresh : Nat)

namespace TlsContext

def report (e : TlsEvent) (s : TlsContext) : TlsContext := { s with log := s.log ++ [e] }

def setConn (k : Nat) (c : ConnPc) (s : TlsContext) : TlsContext :=
  { s with conns := s.conns.set k c }

/-- `SSL_CTX_free`, unless the pointer is null. -/
def release (p : Option Nat) (s : TlsContext) : TlsContext :=
  p.elim s fun p => report (.ctxFree p) s

/-- `build_ctx` gives up on the context. -/
def giveUp (p : Nat) (err : Bytes) (s : TlsContext) : Built × TlsContext :=
  (.failed, report (.ctxFree p) { s with err })

/-- The next call of `build_ctx`. -/
def build (ok : Bool) (certPath keyPath : Bytes) (s : TlsContext) : BuildPc → Built × TlsContext
  | .new =>
      if ok then (.goesOn (.cert s.next),
        report (.harden s.next) (report (.ctxNew s.next) { s with next := s.next + 1 }))
      else (.failed, { s with err := ascii "SSL_CTX_new failed" })
  | .cert p =>
      let s := report (.useCert p certPath ok) s
      if ok then (.goesOn (.key p), s)
      else giveUp p (ascii "failed to load certificate: " ++ certPath) s
  | .key p =>
      let s := report (.useKey p keyPath ok) s
      if ok then (.goesOn (.check p), s)
      else giveUp p (ascii "failed to load private key: " ++ keyPath) s
  | .check p =>
      let s := report (.checkKey p ok) s
      if ok then (.done p, s)
      else giveUp p (ascii "private key does not match certificate") s

/-- The main thread's next step: `init`, `reload` and the way out. -/
def mainStep (certPath keyPath : Bytes) (ok : Bool) (s : TlsContext) : TlsContext :=
  match s.pc with
  | .init b =>
      match build ok certPath keyPath s b with
      | (.goesOn b', s) => { s with pc := .init b' }
      | (.failed, s) => report (.initFailed s.err) { s with pc := .leave }
      | (.done fresh, s) => { s with pc := .store fresh }
  | .store fresh => report (.installed fresh)
      { s with ctx := some fresh, certPath := certPath, keyPath := keyPath, pc := .parked }
  | .reload b =>
      match build ok s.certPath s.keyPath s b with
      | (.goesOn b', s) => { s with pc := .reload b' }
      | (.failed, s) => report (.reloadFailed s.err) { s with pc := .parked }
      | (.done fresh, s) => { s with pc := .lock fresh }
  | .lock fresh =>
      if s.writer = false ∧ s.readers = 0 then { s with writer := true, pc := .swap fresh } else s
  | .swap fresh => report (.installed fresh) { s with ctx := some fresh, pc := .unlock s.ctx }
  | .unlock old => { s with writer := false, pc := .free old }
  | .free old => report .reloaded { release old s with pc := .parked }
  | .join => if s.conns.all (!·.wrapping) then { s with pc := .leave } else s
  | .leave =>
      if s.conns.all ConnPc.isClosed then { release s.ctx s with ctx := none, pc := .exited }
      else s
  | .parked | .exited => s

/-- The next step on connection `k`: `wrap`, then the transport's destructor. -/
def connStep (k : Nat) (ok : Bool) (s : TlsContext) : TlsContext :=
  match s.conns[k]? with
  | some .accepted =>
      if s.writer then s else setConn k .locked { s with readers := s.readers + 1 }
  | some .locked => setConn k (.making s.ctx) s
  | some (.making ctx) => report (.sslNew k ctx ok) (setConn k (.made ok) s)
  | some (.made ssl) => setConn k (.unlocked ssl) { s with readers := s.readers - 1 }
  | some (.unlocked false) => report (.mintFailed k) (setConn k .closed s)
  | some (.unlocked true) => report (.sslUse k) (setConn k .live s)
  | some .live => report (.sslFree k) (setConn k .freed s)
  | some .freed => setConn k .closed s
  | some .closed | none => s

def step (certPath keyPath : Bytes) (s : TlsContext) : TlsLabel → TlsContext
  | .main ok => mainStep certPath keyPath ok s
  | .sighup => match s.pc with
      | .parked => { s with pc := .reload .new }
      | _ => s
  | .sigterm => match s.pc with
      | .parked => { s with pc := .join }
      | _ => s
  | .accept => if s.pc.serving then { s with conns := s.conns ++ [.accepted] } else s
  | .conn k ok => connStep k ok s
  | .io k => match s.conns[k]? with
      | some .live => report (.sslUse k) s
      | _ => s

/-- Everything from the start of `init` on. -/
def run (certPath keyPath : Bytes) (ls : List TlsLabel) : TlsContext :=
  ls.foldl (step certPath keyPath) {}

variable {certPath keyPath : Bytes} {s s' : TlsContext} {p k : Nat} {c : ConnPc} {ok : Bool}

/-- What holds at first and is kept by every step holds after every run. -/
theorem run_inv {P : TlsContext → Prop} (hstart : P {})
    (hstep : ∀ s l, P s → P (step certPath keyPath s l)) (ls : List TlsLabel) :
    P (run certPath keyPath ls) := by
  have hfold : ∀ s, P s → P (ls.foldl (step certPath keyPath) s) := by
    induction ls with
    | nil => exact fun s h => h
    | cons l ls ih => exact fun s h => ih _ (hstep s l h)
  exact hfold _ hstart

/-! ## What a step leaves alone -/

/-- The events of the main thread, but for the exchange of `ctx_`. -/
def byMain : TlsEvent → Bool
  | .ctxNew _ | .harden _ | .useCert .. | .useKey .. | .checkKey .. | .ctxFree _ => true
  | .initFailed _ | .reloaded | .reloadFailed _ => true
  | _ => false

/-- The log has got longer, by events of the main thread. -/
def Wrote (s s' : TlsContext) : Prop :=
  ∃ more, s'.log = s.log ++ more ∧ ∀ e ∈ more, byMain e = true

theorem Wrote.refl (s : TlsContext) : Wrote s s :=
  ⟨[], (List.append_nil _).symm, fun _ h => (by cases h)⟩

theorem Wrote.same (h : s'.log = s.log) : Wrote s s' :=
  ⟨[], h.trans (List.append_nil _).symm, fun _ h => (by cases h)⟩

theorem Wrote.report {e : TlsEvent} (h : Wrote s s') (he : byMain e = true) :
    Wrote s (report e s') := by
  obtain ⟨more, hlog, hmore⟩ := h
  refine ⟨more ++ [e], ?_, fun a ha => ?_⟩
  · show s'.log ++ [e] = _
    rw [hlog, List.append_assoc]
  · rcases List.mem_append.mp ha with ha | ha
    · exact hmore a ha
    · rw [List.mem_singleton.mp ha]
      exact he

/-- `build_ctx` makes its calls, and writes `err`. -/
theorem build_frame (ok : Bool) (cert key : Bytes) (s : TlsContext) (b : BuildPc) :
    ∃ next err log, (build ok cert key s b).2 = { s with next := next, err := err, log := log } ∧
      Wrote s (build ok cert key s b).2 := by
  cases b with
  | new =>
      rw [build]
      split
      · exact ⟨_, s.err, _, rfl, ((Wrote.same rfl).report rfl).report rfl⟩
      · exact ⟨s.next, _, s.log, rfl, .same rfl⟩
  | cert p =>
      have hcall : Wrote s (report (.useCert p cert ok) s) := (Wrote.refl s).report rfl
      rw [build]
      split
      · exact ⟨s.next, s.err, _, rfl, hcall⟩
      · exact ⟨s.next, _, _, rfl, hcall.report (e := .ctxFree p) rfl⟩
  | key p =>
      have hcall : Wrote s (report (.useKey p key ok) s) := (Wrote.refl s).report rfl
      rw [build]
      split
      · exact ⟨s.next, s.err, _, rfl, hcall⟩
      · exact ⟨s.next, _, _, rfl, hcall.report (e := .ctxFree p) rfl⟩
  | check p =>
      have hcall : Wrote s (report (.checkKey p ok) s) := (Wrote.refl s).report rfl
      rw [build]
      split
      · exact ⟨s.next, s.err, _, rfl, hcall⟩
      · exact ⟨s.next, _, _, rfl, hcall.report (e := .ctxFree p) rfl⟩

theorem release_frame (o : Option Nat) (s : TlsContext) :
    ∃ log, release o s = { s with log := log } ∧ Wrote s (release o s) := by
  cases o with
  | none => exact ⟨s.log, rfl, .refl s⟩
  | some p => exact ⟨_, rfl, (Wrote.refl s).report (e := .ctxFree p) rfl⟩

/-- What a step of the main thread can do, as the connections see it: it writes `ctx_` where no
    worker runs, or under the exclusive lock. -/
theorem mainStep_frame (certPath keyPath : Bytes) (ok : Bool) (s : TlsContext) :
    let s' := mainStep certPath keyPath ok s
    s'.conns = s.conns ∧ s'.readers = s.readers ∧
      ((s'.ctx = s.ctx ∨ s.pc = .leave ∧ s'.pc = .exited) ∧ Wrote s s' ∨
        (s.pc.serving = false ∨ s.pc.writing = true) ∧
          ∃ p, s'.ctx = some p ∧ s'.log = s.log ++ [.installed p]) := by
  dsimp only
  rw [mainStep]
  split
  · rename_i b hpc
    obtain ⟨next, err, log, heq, hlog⟩ := build_frame ok certPath keyPath s b
    split
    · rename_i hb
      rw [hb] at heq hlog
      subst heq
      exact ⟨rfl, rfl, .inl ⟨.inl rfl, hlog⟩⟩
    · rename_i hb
      rw [hb] at heq hlog
      subst heq
      exact ⟨rfl, rfl, .inl ⟨.inl rfl, hlog.report rfl⟩⟩
    · rename_i hb
      rw [hb] at heq hlog
      subst heq
      exact ⟨rfl, rfl, .inl ⟨.inl rfl, hlog⟩⟩
  · rename_i fresh hpc
    exact ⟨rfl, rfl, .inr ⟨.inl (by rw [hpc]; rfl), fresh, rfl, rfl⟩⟩
  · rename_i b hpc
    obtain ⟨next, err, log, heq, hlog⟩ := build_frame ok s.certPath s.keyPath s b
    split
    · rename_i hb
      rw [hb] at heq hlog
      subst heq
      exact ⟨rfl, rfl, .inl ⟨.inl rfl, hlog⟩⟩
    · rename_i hb
      rw [hb] at heq hlog
      subst heq
      exact ⟨rfl, rfl, .inl ⟨.inl rfl, hlog.report rfl⟩⟩
    · rename_i hb
      rw [hb] at heq hlog
      subst heq
      exact ⟨rfl, rfl, .inl ⟨.inl rfl, hlog⟩⟩
  · split
    · exact ⟨rfl, rfl, .inl ⟨.inl rfl, .same rfl⟩⟩
    · exact ⟨rfl, rfl, .inl ⟨.inl rfl, .refl s⟩⟩
  · rename_i fresh hpc
    exact ⟨rfl, rfl, .inr ⟨.inr (by rw [hpc]; rfl), fresh, rfl, rfl⟩⟩
  · exact ⟨rfl, rfl, .inl ⟨.inl rfl, .same rfl⟩⟩
  · rename_i old hpc
    obtain ⟨log, heq, hlog⟩ := release_frame old s
    rw [heq] at hlog ⊢
    exact ⟨rfl, rfl, .inl ⟨.inl rfl, Wrote.report (e := .reloaded) hlog rfl⟩⟩
  · split
    · exact ⟨rfl, rfl, .inl ⟨.inl rfl, .same rfl⟩⟩
    · exact ⟨rfl, rfl, .inl ⟨.inl rfl, .refl s⟩⟩
  · rename_i hpc
    split
    · obtain ⟨log, heq, hlog⟩ := release_frame s.ctx s
      rw [heq] at hlog ⊢
      exact ⟨rfl, rfl, .inl ⟨.inr ⟨hpc, rfl⟩, hlog⟩⟩
    · exact ⟨rfl, rfl, .inl ⟨.inl rfl, .refl s⟩⟩
  · exact ⟨rfl, rfl, .inl ⟨.inl rfl, .refl s⟩⟩
  · exact ⟨rfl, rfl, .inl ⟨.inl rfl, .refl s⟩⟩

end TlsContext

end CastlePlus
