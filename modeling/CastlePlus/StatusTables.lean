import CastlePlus.Supervisor
import CastlePlus.Uptime

/-! # The tables of the supervisor

    `render_backend_status` and `render_services` (`supervisor/supervisor.cpp`), with the buffers
    that `snprintf` writes their lines into. -/

namespace CastlePlus

def stateName : ServiceState → Bytes
  | .stopped => ascii "stopped"
  | .running => ascii "running"
  | .backoff => ascii "backoff"
  | .failed => ascii "failed"
  | .quarantined => ascii "quarantined"

/-- What `%s` prints of a `c_str()`. -/
def cString (t : Bytes) : Bytes := t.takeWhile (· ≠ 0)

namespace Sup

variable {n : Nat}

/-! ## `backendstatus` -/

def kRecentWindow : Int := 3600 * nanos

/-- The entries of the deque that are at most `w` old. -/
def countWithin (w now : Int) (failures : List Int) : Nat := failures.countP fun t => now - t ≤ w

/-- One line of the table. -/
def formatBackendRow (name state uptime : Bytes) (inHour inDay : Nat) (total : Int)
    (lastFailure : Bytes) : Bytes :=
  snprintf 256 <|
    padRight 0x20 20 (cString name) ++ ascii " " ++ padRight 0x20 12 state ++ ascii " " ++
    padRight 0x20 12 uptime ++ ascii " " ++ padRight 0x20 13 (natText inHour) ++ ascii " " ++
    padRight 0x20 4 (natText inDay) ++ ascii " " ++ padRight 0x20 7 (intText total) ++ ascii " " ++
    lastFailure ++ ascii "\n"

def agoText (now t : Int) (reason : Bytes) : Bytes :=
  humanDuration (seconds (now - t)) ++ ascii " ago (" ++ reason ++ ascii ")"

/-- The loop body of `render_backend_status`. -/
def backendRow (now : Int) (v : Service) : Bytes :=
  let uptime :=
    if 0 < v.pid ∧ v.state = .running then humanDuration (seconds (now - v.lastStart))
    else ascii "-"
  let lastFailure :=
    if v.everFailed then agoText now v.lastFailureMono (ascii v.lastFailureReason) else ascii "-"
  formatBackendRow (ascii v.cfg.name) (stateName v.state) uptime
    (countWithin kRecentWindow now v.recentFailures)
    (countWithin kFailureWindow now v.recentFailures) v.failureCount lastFailure

/-- The lines about one service that is down; `wallText` is `wall_timestamp`. -/
def downNotice (wallText : Int → Bytes) (now : Int) (v : Service) : Bytes :=
  let name := cString (ascii v.cfg.name)
  let since := humanDuration (seconds (now - v.downSinceMono)) ++ ascii " ago (at " ++
    wallText v.downSinceWall ++ ascii ")\n"
  snprintf 512 <|
    if v.state = .quarantined then
      ascii "  '" ++ name ++ ascii "' quarantined " ++ since ++
      ascii "      tripped by " ++ natText v.recentFailures.length ++
      ascii " failures within 24h (limit 5)\n" ++
      ascii "      last failure: " ++ ascii v.lastFailureReason ++ ascii "\n" ++
      ascii "      recover with: restart " ++ name ++ ascii "\n"
    else
      ascii "  '" ++ name ++ ascii "' down " ++ since ++
      ascii "      exited with autorestart disabled\n" ++
      ascii "      last failure: " ++ ascii v.lastFailureReason ++ ascii "\n" ++
      ascii "      recover with: restart " ++ name ++ ascii "\n"

def backendHeader : Bytes :=
  ascii "NAME                 STATE        UPTIME       FAILURES: 1h  24h  " ++
  ascii "TOTAL   LAST FAILURE\n"

/-- The header and the rows of `render_backend_status`. -/
def backendTable (now : Int) (s : Sup n) : Bytes :=
  backendHeader ++ (List.finRange n).flatMap (fun i => backendRow now (s.services i)) ++
  (if n = 0 then ascii "(no services configured)\n" else [])

/-- What it says of the services that are down, if there are any. -/
def downSection (wallText : Int → Bytes) (now : Int) (s : Sup n) (down : List (Fin n)) : Bytes :=
  if down = [] then []
  -- the dashes are U+2014
  else ascii "\nPERMANENTLY DOWN " ++ [0xe2, 0x80, 0x94] ++ ascii " not being restarted:\n" ++
    down.flatMap fun i => downNotice wallText now (s.services i)

/-- The services that `render_backend_status` counts and lists as down. -/
def permanentlyDown (s : Sup n) : List (Fin n) :=
  (List.finRange n).filter fun i => (s.services i).isDown

/-- `render_backend_status`, at the clock reading `now`. -/
def renderBackendStatus (wallText : Int → Bytes) (now : Int) (s : Sup n) : Bytes :=
  backendTable now s ++ downSection wallText now s (permanentlyDown s)

/-! ## `services` -/

end Sup

end CastlePlus
