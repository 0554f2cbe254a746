import CastlePlus.Autocorrect
import CastlePlus.SupervisorManifest
import CastlePlus.SupervisorShutdown

/-! # The control server

    `ControlServer::dispatch_command` (`control/control_server.cpp`): a line of the admin session
    is trimmed, its first word is the command and the rest its argument.  `restart <name>` goes to
    `Supervisor::restart_service`, which posts a `do_restart` to the supervisor's loop.

    `do_restart` takes the first service of that name, and the manifest may give a name twice: a
    service can be restarted by its name exactly when no service before it has the same
    (**`restart_by_name_iff`**). -/

namespace CastlePlus

open TextFormat

/-- The `Supervisor` that the control server holds: the texts it describes itself with, and the
    answers of `restart_service`. -/
structure Admin where
  describeServices : Bytes
  describeBackendStatus : Bytes
  restartService : Bytes → Bool

/-- The members of `ControlServer`, and the replies of the commands without an argument. -/
structure ControlServer where
  supervisor : Option Admin
  onShutdown : Bool
  cmdStatus : Bytes
  cmdHealth : Bytes
  cmdErrors : Bytes
  systemStatusHelper : Bytes

/-- What a command sets off besides its reply. -/
inductive ControlEffect where
  | restartService (name : Bytes)
  | shutdown
  | closeSession
  deriving DecidableEq

/-- The reply to `help`. -/
def helpText : Bytes :=
  ascii "commands:\n" ++
  ascii "  help            this text\n" ++
  ascii "  clear           clear off the current screen\n" ++
  ascii "  ping            liveness check -> pong\n" ++
  ascii "  status          aggregated counters across all loops\n" ++
  ascii "  health          probe every loop via the async round-trip\n" ++
  ascii "  services        list supervised backends\n" ++
  ascii "  restart <name>  restart a supervised backend\n" ++
  ascii "  errors          log lines since the last pull (needs --log-file)\n" ++
  ascii "  shutdown        gracefully stop castle+\n" ++
  ascii "  systemstatus    system vitals, internet, critical logs\n" ++
  ascii "  backendstatus   per-backend uptime, failure history, quarantine\n" ++
  ascii "  exit            close this admin session\n"

/-- The static `filter`. -/
def commandFilter : AutoCorrectFilter :=
  .make 3 (["help", "ping", "status", "stats", "health", "errors", "services", "backends",
    "restart", "shutdown", "exit", "quit", "systemstatus", "backendstatus", "clear"].map ascii)

/-- The reply to an unknown command. -/
def unknownCommand (cmd : Bytes) : Bytes :=
  let plain := ascii "unknown command: " ++ cmd ++ ascii " (try 'help')\n"
  match commandFilter.fix cmd with
  | none => plain
  | some suggestion =>
      if suggestion ≠ cmd then
        -- the dash is U+2014
        ascii "unknown command: " ++ cmd ++ [0x20, 0xe2, 0x80, 0x94] ++ ascii " did you mean '" ++
          suggestion ++ ascii "'?\n"
      else plain

/-- The commands, after the line is cut. -/
def runCommand (c : ControlServer) (cmd arg : Bytes) : Bytes × List ControlEffect :=
  if cmd = ascii "help" then (helpText, [])
  else if cmd = ascii "ping" then (ascii "pong\n", [])
  else if cmd = ascii "status" ∨ cmd = ascii "stats" then (c.cmdStatus, [])
  else if cmd = ascii "health" then (c.cmdHealth, [])
  else if cmd = ascii "errors" then (c.cmdErrors, [])
  else if cmd = ascii "services" ∨ cmd = ascii "backends" then
    match c.supervisor with
    | some sup => (sup.describeServices, [])
    | none => (ascii "no supervisor configured\n", [])
  else if cmd = ascii "restart" then
    match c.supervisor with
    | none => (ascii "no supervisor configured\n", [])
    | some sup =>
        if arg = [] then (ascii "usage: restart <service>\n", [])
        else if sup.restartService arg then
          (ascii "restarting '" ++ arg ++ ascii "'\n", [.restartService arg])
        else (ascii "no such service: " ++ arg ++ ascii "\n", [.restartService arg])
  else if cmd = ascii "shutdown" then
    (ascii "shutting down castle+...\n", if c.onShutdown then [.shutdown] else [])
  else if cmd = ascii "systemstatus" then (c.systemStatusHelper, [])
  else if cmd = ascii "backendstatus" then
    match c.supervisor with
    | some sup => (sup.describeBackendStatus, [])
    | none => (ascii "no supervisor configured (start castle with --services)\n", [])
  else if cmd = ascii "exit" ∨ cmd = ascii "quit" then (ascii "bye\n", [.closeSession])
  else if cmd = ascii "clear" then (List.replicate 150 0x0a, [])
  else (unknownCommand cmd, [])

/-- `dispatch_command`: the reply and the effects of a line. -/
def dispatchCommand (c : ControlServer) (raw : Bytes) : Bytes × List ControlEffect :=
  let line := trim raw
  if line = [] then ([], [])
  else
    let cmd := (line.takeWhile fun b => !isBlank b).map toLower
    let arg := (line.dropWhile fun b => !isBlank b).dropWhile isBlank
    runCommand c cmd arg

/-- A line that asks for the restart of `name`, with blanks around its words. -/
def RestartLine (name raw : Bytes) : Prop :=
  ∃ a b c, (∀ x ∈ a, isBlank x = true) ∧ (∀ x ∈ b, isBlank x = true) ∧
    (∀ x ∈ c, isBlank x = true) ∧ raw = a ++ (ascii "restart " ++ b ++ name) ++ c

theorem isTrimChar_of_isBlank {c : UInt8} (h : isBlank c = true) : isTrimChar c = true := by
  simp only [isBlank, Bool.or_eq_true, beq_iff_eq] at h
  rcases h with rfl | rfl <;> decide

/-- The line is cut into the command and the name. -/
theorem dispatchCommand_restart {name raw : Bytes} (hraw : RestartLine name raw) (hne : name ≠ [])
    (hbare : Bare isTrimChar name) {c : ControlServer} {sup : Admin}
    (hsup : c.supervisor = some sup) :
    (dispatchCommand c raw).2 = [.restartService name] := by
  obtain ⟨a, b, d, ha, hb, hd, rfl⟩ := hraw
  have hword : ascii "restart " = ascii "restart" ++ [0x20] := by decide
  have hmiddle : Bare isTrimChar (ascii "restart " ++ b ++ name) := by
    refine ⟨?_, ?_⟩
    · intro x hx
      cases hx
      decide
    · intro x hx
      rw [List.getLast?_append, List.getLast?_eq_some_getLast hne, Option.some_or,
        ← List.getLast?_eq_some_getLast hne] at hx
      exact hbare.last x hx
  -- `trim` takes the blanks at both ends
  have htrim : trim (a ++ (ascii "restart " ++ b ++ name) ++ d) = ascii "restart " ++ b ++ name :=
    strip_pad (fun x hx => isTrimChar_of_isBlank (ha x hx))
      (fun x hx => isTrimChar_of_isBlank (hd x hx)) hmiddle
  have hletters : ∀ x ∈ ascii "restart", (!isBlank x) = true := List.all_eq_true.mp (by decide)
  -- the command ends at the first blank
  have hcmd : (ascii "restart " ++ b ++ name).takeWhile (fun b => !isBlank b) =
      ascii "restart" := by
    rw [hword, List.append_assoc, List.append_assoc, List.takeWhile_append_of_pos hletters,
      List.singleton_append, List.takeWhile_cons_of_neg (by decide), List.append_nil]
  have hrest : (ascii "restart " ++ b ++ name).dropWhile (fun b => !isBlank b) =
      0x20 :: b ++ name := by
    rw [hword, List.append_assoc, List.append_assoc, List.dropWhile_append_of_pos hletters,
      List.singleton_append, List.dropWhile_cons_of_neg (by decide), List.cons_append]
  -- the argument begins behind the last one
  have harg : (0x20 :: b ++ name).dropWhile isBlank = name := by
    have hall : ∀ x ∈ 0x20 :: b, isBlank x = true := by
      intro x hx
      rcases List.mem_cons.mp hx with rfl | hx
      · decide
      · exact hb x hx
    rw [List.dropWhile_append_of_pos hall]
    refine dropWhile_eq_self fun x hx => ?_
    cases hblank : isBlank x with
    | false => rfl
    | true => exact absurd (hbare.head x hx) (by rw [isTrimChar_of_isBlank hblank]; decide)
  have hlower : (ascii "restart").map toLower = ascii "restart" := by decide
  have hrun : runCommand c (ascii "restart") name = (match c.supervisor with
      | none => (ascii "no supervisor configured\n", [])
      | some sup =>
          if name = [] then (ascii "usage: restart <service>\n", [])
          else if sup.restartService name then
            (ascii "restarting '" ++ name ++ ascii "'\n", [.restartService name])
          else (ascii "no such service: " ++ name ++ ascii "\n", [.restartService name])) := rfl
  rw [dispatchCommand]
  simp only [htrim, hcmd, hrest, harg, hlower]
  rw [if_neg (by simp [hne]), hrun, hsup]
  simp only
  rw [if_neg hne]
  split <;> rfl

/-! ## Restart by name -/

namespace Sup

variable {n : Nat}

/-- `do_restart` acts on service `i` and on no other. -/
structure RestartsOnly (K : Kernel) (s : Sup n) (name : String) (i : Fin n) : Prop where
  acts : .restarted i ∈ (doRestart K name s).2.log.drop s.log.length
  only : ∀ j, .restarted j ∈ (doRestart K name s).2.log.drop s.log.length → j = i
  others : ∀ j, j ≠ i → (doRestart K name s).2.services j = s.services j

theorem findByName_eq_some {s : Sup n} {name : String} {i : Fin n} :
    s.findByName name = some i ↔
      (s.services i).cfg.name = name ∧ ∀ j < i, (s.services j).cfg.name ≠ name := by
  rw [findByName, List.find?_eq_some_iff_getElem]
  constructor
  · rintro ⟨hi, k, hk, rfl, hbefore⟩
    refine ⟨by simpa using hi, fun j hj => ?_⟩
    have hlt : j.val < k := by
      rw [List.getElem_finRange] at hj
      exact hj
    have := hbefore j.val hlt
    simpa using this
  · rintro ⟨hi, hbefore⟩
    refine ⟨by simpa using hi, i.val, by simp, by simp, fun j hj => ?_⟩
    have := hbefore ⟨j, by omega⟩ hj
    simpa using this

/-- What `do_restart` does about service `i` once the breaker is cleared. -/
inductive Acts (i : Fin n) : Event n → Prop where
  | stops (pid : Int) : Acts i (.killed pid .term)
  | launches (pid : Int) : Acts i (.forked i pid)
  | cannot : Acts i (.forkFailed i)

theorem Acts.ne_restarted {i k : Fin n} {e : Event n} (h : Acts i e) : e ≠ .restarted k := by
  cases h <;> exact fun heq => (by cases heq)

theorem spawn_event {K : Kernel} {s : Sup n} {i : Fin n} :
    ∃ e, (spawn K i s).log = s.log ++ [e] ∧ Acts i e := by
  rw [spawn]
  cases K.fork s.forks s.unreaped with
  | none => exact ⟨.forkFailed i, rfl, .cannot⟩
  | some pid => exact ⟨.forked i pid, rfl, .launches pid⟩

theorem doRestart_spec {K : Kernel} {s : Sup n} {name : String} {i : Fin n}
    (h : s.findByName name = some i) :
    (∃ e, (doRestart K name s).2.log = s.log ++ [.restarted i, e] ∧ Acts i e) ∧
      ∀ j, j ≠ i → (doRestart K name s).2.services j = s.services j := by
  rw [doRestart, h]
  dsimp only
  by_cases hp : 0 < ((clearBreaker i s).services i).pid
  · rw [if_pos hp]
    refine ⟨⟨.killed ((clearBreaker i s).services i).pid .term, ?_, .stops _⟩, ?_⟩
    · show (s.log ++ [.restarted i]) ++ [_] = _
      rw [List.append_assoc]
      rfl
    · exact fun j hj => (setService_of_ne hj).trans (setService_of_ne hj)
  · rw [if_neg hp]
    refine ⟨?_, fun j hj => ?_⟩
    · obtain ⟨e, he, hacts⟩ := spawn_event (K := K) (i := i)
        (s := (clearBreaker i s).setService i { (clearBreaker i s).services i with
          currentBackoffSec := 0, wantsRestart := false })
      refine ⟨e, ?_, hacts⟩
      rw [he]
      show (s.log ++ [.restarted i]) ++ [e] = _
      rw [List.append_assoc]
      rfl
    · rw [spawn_of_ne hj]
      exact (setService_of_ne hj).trans (setService_of_ne hj)

/-- The service that the name finds is restarted, and no other. -/
theorem restartsOnly_iff {K : Kernel} {s : Sup n} {name : String} {i : Fin n} :
    RestartsOnly K s name i ↔ s.findByName name = some i := by
  constructor
  · intro h
    cases hf : s.findByName name with
    | none =>
        have hacts := h.acts
        rw [doRestart, hf, List.drop_length] at hacts
        cases hacts
    | some j =>
        obtain ⟨⟨e, hlog, -⟩, -⟩ := doRestart_spec (K := K) hf
        refine congrArg some (h.only j ?_)
        rw [hlog, List.drop_left]
        exact List.mem_cons_self
  · intro hf
    obtain ⟨⟨e, hlog, he⟩, hothers⟩ := doRestart_spec (K := K) hf
    refine ⟨?_, ?_, hothers⟩
    · rw [hlog, List.drop_left]
      exact List.mem_cons_self
    · intro j hj
      rw [hlog, List.drop_left, List.mem_cons, List.mem_singleton] at hj
      rcases hj with hj | hj
      · cases hj
        rfl
      · exact absurd hj.symm he.ne_restarted

end Sup

/-- The line makes `do_restart` act on service `i` of the supervisor in state `s`, and on no
    other; `restart_service` hands its argument on as it is. -/
def RestartedBy (c : ControlServer) (raw : Bytes) (K : Kernel) {n : Nat} (s : Sup n) (i : Fin n) :
    Prop :=
  ∃ name, (dispatchCommand c raw).2 = [.restartService name] ∧ s.RestartsOnly K (latin1 name) i

/-- **Restart by name.**  For every accepted manifest, every service of it and every state that the
    supervisor reaches, a line that asks for the restart of the service's name restarts that
    service alone exactly when no service before it has the name. -/
theorem restart_by_name_iff {path text err err' : Bytes} {out es : List ServiceEntry}
    (h : parseServicesFile path (some text) out err = (true, es, err')) (i : Fin es.length)
    {raw : Bytes} (hraw : RestartLine (es.get i).name raw) {c : ControlServer} {sup : Admin}
    (hsup : c.supervisor = some sup) (K : Kernel) (ls : List Sup.Label) :
    RestartedBy c raw K (Sup.run K (manifestCfgs es) ls) i ↔
      ∀ j < i, (es.get j).name ≠ (es.get i).name := by
  obtain ⟨hne, hbare⟩ := names_of_accepted h _ (List.get_mem es i)
  have hdispatch := dispatchCommand_restart hraw hne hbare hsup
  have hname : ∀ j, ((Sup.run K (manifestCfgs es) ls).services j).cfg.name =
      latin1 (es.get j).name := by
    intro j
    rw [Sup.run_cfg]
    rfl
  have hfind : (Sup.run K (manifestCfgs es) ls).findByName (latin1 (es.get i).name) = some i ↔
      ∀ j < i, (es.get j).name ≠ (es.get i).name := by
    rw [Sup.findByName_eq_some, hname]
    constructor
    · intro hall j hj heq
      exact hall.2 j hj (by rw [hname, heq])
    · refine fun hall => ⟨rfl, fun j hj heq => hall j hj ?_⟩
      rw [hname] at heq
      exact latin1_injective heq
  rw [← hfind, ← Sup.restartsOnly_iff (K := K)]
  constructor
  · rintro ⟨name, hname', honly⟩
    rw [hdispatch] at hname'
    cases hname'
    exact honly
  · exact fun honly => ⟨_, hdispatch, honly⟩

/-- Two sections of one name. -/
def twinManifest : Bytes := ascii "[a]\nexec = /x\n[a]\nexec = /y\n"

def twinEntries : List ServiceEntry :=
  [{ name := ascii "a", exec := ascii "/x" }, { name := ascii "a", exec := ascii "/y" }]

/-- A control server with a supervisor that answers every restart. -/
def demoControl : ControlServer where
  supervisor := some ⟨[], [], fun _ => true⟩
  onShutdown := true
  cmdStatus := []
  cmdHealth := []
  cmdErrors := []
  systemStatusHelper := []

theorem twinManifest_accepted :
    parseServicesFile (ascii "m") (some twinManifest) [] [] = (true, twinEntries, []) := by
  decide

theorem restartLine_twin : RestartLine (ascii "a") (ascii "restart a") := by
  refine ⟨[], [], [], fun x hx => (by cases hx), fun x hx => (by cases hx),
    fun x hx => (by cases hx), by decide⟩

/-- The two services. -/
def twin (second : Bool) : Fin twinEntries.length := if second then ⟨1, by decide⟩ else ⟨0, by decide⟩

theorem restart_by_name_iff_twin :
    RestartedBy demoControl (ascii "restart a") Sup.demoKernel
      (Sup.run Sup.demoKernel (manifestCfgs twinEntries) []) (twin false) :=
  (restart_by_name_iff twinManifest_accepted (twin false) restartLine_twin rfl Sup.demoKernel
    []).mpr fun _ hj => absurd hj (Nat.not_lt_zero _)

/-- The second of the two cannot be restarted: the first one is. -/
theorem twin_restarts_first :
    parseServicesFile (ascii "m") (some twinManifest) [] [] = (true, twinEntries, []) ∧
      RestartLine (twinEntries.get (twin true)).name (ascii "restart a") ∧
      Sup.RestartsOnly Sup.demoKernel (Sup.run Sup.demoKernel (manifestCfgs twinEntries) [])
        (latin1 (ascii "a")) (twin false) ∧
      ¬RestartedBy demoControl (ascii "restart a") Sup.demoKernel
        (Sup.run Sup.demoKernel (manifestCfgs twinEntries) []) (twin true) := by
  have hdispatch : (dispatchCommand demoControl (ascii "restart a")).2 =
      [.restartService (ascii "a")] := by decide
  have hfirst : (Sup.run Sup.demoKernel (manifestCfgs twinEntries) []).findByName
      (latin1 (ascii "a")) = some (twin false) := by decide
  refine ⟨twinManifest_accepted, restartLine_twin, Sup.restartsOnly_iff.mpr hfirst, ?_⟩
  rintro ⟨name, hname, honly⟩
  rw [hdispatch] at hname
  cases hname
  have hsecond := Sup.restartsOnly_iff.mp honly
  rw [hfirst] at hsecond
  exact absurd (Option.some.inj hsecond) (by decide)

end CastlePlus
