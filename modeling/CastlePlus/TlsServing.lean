import CastlePlus.TlsCalls

/-! # The certificate that a connection gets

    Every `SSL` comes from the context installed last, and a context is installed with the
    certificate and the key of the command line, which the library has found to match
    (**`wrap_serves_current`**).

    `Configuring` follows `build_ctx` through its five calls; `Serving` adds that `ctx_` is the
    context of the last installation. -/

namespace CastlePlus

open HandleLog

/-- How many calls `build_ctx` has made on its context. -/
def BuildPc.stage : BuildPc → Option (Nat × Nat)
  | .new => none
  | .cert p => some (p, 2)
  | .key p => some (p, 3)
  | .check p => some (p, 4)

def Built.stage : Built → Option (Nat × Nat)
  | .goesOn b => b.stage
  | .failed => none
  | .done p => some (p, 5)

def MainPc.stage : MainPc → Option (Nat × Nat)
  | .init b | .reload b => b.stage
  | .store p | .lock p | .swap p => some (p, 5)
  | _ => none

namespace TlsContext

/-- The context that a call of `build_ctx` makes or sets up. -/
def sets : TlsEvent → Option Nat
  | .ctxNew p | .harden p | .useCert p _ _ | .useKey p _ _ | .checkKey p _ => some p
  | _ => none

/-- How a context has been set up. -/
def setups (p : Nat) (log : List TlsEvent) : List TlsEvent := log.filter (sets · == some p)

/-- As it should be. -/
def configured (certPath keyPath : Bytes) (p : Nat) : List TlsEvent :=
  [.ctxNew p, .harden p, .useCert p certPath true, .useKey p keyPath true, .checkKey p true]

def installs : TlsEvent → Option Nat
  | .installed p => some p
  | _ => none

def lastInstalled (log : List TlsEvent) : Option Nat := (log.filterMap installs).getLast?

/-- An event that neither sets up or installs a context, nor makes an `SSL` or gives an error. -/
def passes : TlsEvent → Bool
  | .ctxFree _ | .sslUse _ | .sslFree _ | .initFailed _ | .reloaded | .mintFailed _ => true
  | _ => false

/-- The messages of `build_ctx`. -/
def buildErrors (certPath keyPath : Bytes) : List Bytes :=
  [ascii "SSL_CTX_new failed", ascii "failed to load certificate: " ++ certPath,
    ascii "failed to load private key: " ++ keyPath,
    ascii "private key does not match certificate"]

/-- What an event says of those before it. -/
structure Serves (certPath keyPath : Bytes) (pre : List TlsEvent) (e : TlsEvent) : Prop where
  current : ∀ k ctx ok, e = .sslNew k ctx ok → ctx = lastInstalled pre ∧ ctx ≠ none
  checked : ∀ p, e = .installed p → setups p pre = configured certPath keyPath p
  settled : ∀ p, sets e = some p → .installed p ∉ pre
  failed : ∀ err, e = .reloadFailed err → err ∈ buildErrors certPath keyPath

/-- `build_ctx` has made so many of its calls on a context, all of them with success. -/
structure Configuring (certPath keyPath : Bytes) (stage : Option (Nat × Nat)) (s : TlsContext) :
    Prop where
  serves : Throughout (Serves certPath keyPath) s.log
  below : ∀ e ∈ s.log, ∀ p, sets e = some p ∨ e = .installed p → p < s.next
  stage : ∀ p n, stage = some (p, n) → p < s.next ∧ .installed p ∉ s.log ∧
    setups p s.log = (configured certPath keyPath p).take n

variable {certPath keyPath : Bytes} {s s' : TlsContext} {p k n : Nat} {ok : Bool} {e : TlsEvent}
  {log : List TlsEvent} {stage : Option (Nat × Nat)}

theorem setups_concat_other (h : sets e ≠ some p) : setups p (log ++ [e]) = setups p log := by
  rw [setups, List.filter_append, List.filter_cons_of_neg (by simpa using h), List.filter_nil,
    List.append_nil]
  rfl

theorem setups_concat_same (h : sets e = some p) :
    setups p (log ++ [e]) = setups p log ++ [e] := by
  rw [setups, List.filter_append, List.filter_cons_of_pos (by simpa using h), List.filter_nil]
  rfl

theorem lastInstalled_append {more : List TlsEvent} (h : ∀ e ∈ more, installs e = none) :
    lastInstalled (log ++ more) = lastInstalled log := by
  rw [lastInstalled, List.filterMap_append, List.filterMap_eq_nil_iff.mpr h, List.append_nil]
  rfl

theorem lastInstalled_installed (log : List TlsEvent) (p : Nat) :
    lastInstalled (log ++ [.installed p]) = some p := by
  rw [lastInstalled, List.filterMap_append]
  exact List.getLast?_concat

section Build

theorem Configuring.of_log (h : Configuring certPath keyPath stage s) (hlog : s'.log = s.log)
    (hnext : s'.next = s.next) : Configuring certPath keyPath stage s' := by
  refine ⟨hlog ▸ h.serves, ?_, ?_⟩
  · rw [hlog, hnext]
    exact h.below
  · rw [hlog, hnext]
    exact h.stage

/-- The context is given up. -/
theorem Configuring.drop (h : Configuring certPath keyPath stage s) :
    Configuring certPath keyPath none s :=
  ⟨h.serves, h.below, fun p n heq => (by cases heq)⟩

/-- An event that sets up no context and installs none. -/
theorem Configuring.skip (h : Configuring certPath keyPath stage s)
    (hlog : s'.log = s.log ++ [e]) (hnext : s'.next = s.next) (hsets : sets e = none)
    (hinstalls : installs e = none) (hserves : Serves certPath keyPath s.log e) :
    Configuring certPath keyPath stage s' := by
  refine ⟨hlog ▸ throughout_concat.mpr ⟨h.serves, hserves⟩, fun e' he' p hp => ?_,
    fun p n hstage => ?_⟩
  · rw [hlog] at he'
    rw [hnext]
    rcases List.mem_append.mp he' with he' | he'
    · exact h.below e' he' p hp
    · rw [List.mem_singleton.mp he'] at hp
      rcases hp with hp | rfl
      · rw [hsets] at hp
        cases hp
      · cases hinstalls
  · obtain ⟨hlt, hnot, hset⟩ := h.stage p n hstage
    rw [hlog, hnext]
    refine ⟨hlt, fun hmem => ?_, (setups_concat_other ?_).trans hset⟩
    · rcases List.mem_append.mp hmem with hmem | hmem
      · exact hnot hmem
      · rw [← List.mem_singleton.mp hmem] at hinstalls
        cases hinstalls
    · rw [hsets]
      exact fun heq => (by cases heq)

/-- A number that no context has had. -/
theorem Configuring.mint (h : Configuring certPath keyPath stage s) :
    Configuring certPath keyPath (some (s.next, 0)) { s with next := s.next + 1 } := by
  refine ⟨h.serves, fun e he p hp => Nat.lt_succ_of_lt (h.below e he p hp), fun p n hstage => ?_⟩
  cases hstage
  refine ⟨Nat.lt_succ_self _, fun hmem => ?_, ?_⟩
  · exact Nat.lt_irrefl _ (h.below _ hmem _ (.inr rfl))
  · rw [List.take_zero, setups, List.filter_eq_nil_iff]
    intro e he hset
    exact Nat.lt_irrefl _ (h.below e he _ (.inl (by simpa using hset)))

/-- The next call on the context, whatever comes of it. -/
theorem Configuring.call (h : Configuring certPath keyPath (some (p, n)) s)
    (hsets : sets e = some p) : Configuring certPath keyPath none (report e s) ∧
      ((configured certPath keyPath p)[n]? = some e →
        Configuring certPath keyPath (some (p, n + 1)) (report e s)) := by
  obtain ⟨hlt, hnot, hset⟩ := h.stage p n rfl
  -- a call of `build_ctx` is none of the events that `Serves` asks more of
  have hinstalls : ∀ q, e ≠ .installed q := by
    rintro q rfl
    cases hsets
  have hserves : Serves certPath keyPath s.log e := by
    refine ⟨?_, fun q heq => absurd heq (hinstalls q), fun q hq => ?_, ?_⟩
    · rintro k ctx ok rfl
      cases hsets
    · rw [hsets] at hq
      exact Option.some.inj hq ▸ hnot
    · rintro err rfl
      cases hsets
  have hthrough := throughout_concat.mpr ⟨h.serves, hserves⟩
  have hbelow : ∀ e' ∈ s.log ++ [e], ∀ q, sets e' = some q ∨ e' = .installed q → q < s.next := by
    intro e' he' q hq
    rcases List.mem_append.mp he' with he' | he'
    · exact h.below e' he' q hq
    · rw [List.mem_singleton.mp he', hsets] at hq
      rcases hq with hq | hq
      · exact Option.some.inj hq ▸ hlt
      · exact absurd hq (hinstalls q)
  refine ⟨⟨hthrough, hbelow, fun q m heq => (by cases heq)⟩, fun hnext => ⟨hthrough, hbelow, ?_⟩⟩
  intro q m heq
  cases heq
  refine ⟨hlt, fun hmem => ?_, ?_⟩
  · rcases List.mem_append.mp hmem with hmem | hmem
    · exact hnot hmem
    · exact hinstalls p (List.mem_singleton.mp hmem).symm
  · show setups p (s.log ++ [e]) = _
    rw [setups_concat_same hsets, hset, List.take_add_one, hnext]
    rfl

/-- An event of which `Serves` says nothing. -/
theorem Configuring.pass (h : Configuring certPath keyPath stage s)
    (hlog : s'.log = s.log ++ [e]) (hnext : s'.next = s.next) (he : passes e = true) :
    Configuring certPath keyPath stage s' := by
  have hsets : sets e = none := by cases e <;> first | rfl | cases he
  have hinstalls : installs e = none := by cases e <;> first | rfl | cases he
  refine h.skip hlog hnext hsets hinstalls ⟨?_, ?_, fun p hp => ?_, ?_⟩
  · rintro k ctx ok rfl
    cases he
  · rintro p rfl
    cases he
  · rw [hsets] at hp
    cases hp
  · rintro err rfl
    cases he

/-- `build_ctx` makes its calls one after the other. -/
theorem Configuring.build (ok : Bool) {b : BuildPc}
    (h : Configuring certPath keyPath b.stage s) :
    Configuring certPath keyPath (TlsContext.build ok certPath keyPath s b).1.stage
      (TlsContext.build ok certPath keyPath s b).2 := by
  have hgiveUp : ∀ {s : TlsContext} (p : Nat) (err : Bytes),
      Configuring certPath keyPath none s →
        Configuring certPath keyPath none (report (.ctxFree p) { s with err := err }) :=
    fun p _ h => h.pass (e := .ctxFree p) rfl rfl rfl
  cases b with
  | new =>
      rw [TlsContext.build]
      split
      · -- a new context is hardened at once, by calls whose results go unread
        have hnew := (h.mint.call (e := .ctxNew s.next) rfl).2 rfl
        exact (hnew.call (e := .harden s.next) rfl).2 rfl
      · exact h.of_log rfl rfl
  | cert p =>
      obtain ⟨hcall, hok⟩ := h.call (e := .useCert p certPath ok) rfl
      rw [TlsContext.build]
      split
      · rename_i htrue
        exact hok (by rw [htrue]; rfl)
      · exact hgiveUp p _ hcall
  | key p =>
      obtain ⟨hcall, hok⟩ := h.call (e := .useKey p keyPath ok) rfl
      rw [TlsContext.build]
      split
      · rename_i htrue
        exact hok (by rw [htrue]; rfl)
      · exact hgiveUp p _ hcall
  | check p =>
      obtain ⟨hcall, hok⟩ := h.call (e := .checkKey p ok) rfl
      rw [TlsContext.build]
      split
      · rename_i htrue
        exact hok (by rw [htrue]; rfl)
      · exact hgiveUp p _ hcall

theorem build_error {b : BuildPc} (h : (build ok certPath keyPath s b).1 = .failed) :
    (build ok certPath keyPath s b).2.err ∈ buildErrors certPath keyPath := by
  cases b with
  | new =>
      rw [build] at h ⊢
      split at h
      · cases h
      · rename_i hno
        rw [if_neg hno]
        exact List.mem_cons_self
  | cert p =>
      rw [build] at h ⊢
      split at h
      · cases h
      · rename_i hno
        rw [if_neg hno]
        exact List.mem_cons_of_mem _ List.mem_cons_self
  | key p =>
      rw [build] at h ⊢
      split at h
      · cases h
      · rename_i hno
        rw [if_neg hno]
        exact List.mem_cons_of_mem _ (List.mem_cons_of_mem _ List.mem_cons_self)
  | check p =>
      rw [build] at h ⊢
      split at h
      · cases h
      · rename_i hno
        rw [if_neg hno]
        exact List.mem_cons_of_mem _ (List.mem_cons_of_mem _ (List.mem_cons_of_mem _
          List.mem_cons_self))

end Build

/-! ## The context in use -/

/-- `ctx_` is the context installed last, and the next one is as far as `build_ctx`. -/
structure Serving (certPath keyPath : Bytes) (s : TlsContext) : Prop where
  configuring : Configuring certPath keyPath s.pc.stage s
  current : s.pc ≠ .exited → s.ctx = lastInstalled s.log
  paths : s.pc.serving = true → s.certPath = certPath ∧ s.keyPath = keyPath

/-- A context that has been set up is installed. -/
theorem Configuring.install (h : Configuring certPath keyPath (some (p, 5)) s)
    (hlog : s'.log = s.log ++ [.installed p]) (hnext : s'.next = s.next) :
    Configuring certPath keyPath none s' := by
  obtain ⟨hlt, -, hset⟩ := h.stage p 5 rfl
  have hserves : Serves certPath keyPath s.log (.installed p) := by
    refine ⟨fun _ _ _ heq => (by cases heq), fun q heq => ?_, fun _ heq => (by cases heq),
      fun _ heq => (by cases heq)⟩
    cases heq
    exact hset
  refine ⟨hlog ▸ throughout_concat.mpr ⟨h.serves, hserves⟩, fun e he q hq => ?_,
    fun q n heq => (by cases heq)⟩
  rw [hlog] at he
  rw [hnext]
  rcases List.mem_append.mp he with he | he
  · exact h.below e he q hq
  · rw [List.mem_singleton.mp he] at hq
    rcases hq with hq | hq
    · cases hq
    · cases hq
      exact hlt

/-- A reload that fails has one of the messages. -/
theorem Configuring.reloadFailed {err : Bytes} (h : Configuring certPath keyPath stage s)
    (hlog : s'.log = s.log ++ [.reloadFailed err]) (hnext : s'.next = s.next)
    (herr : err ∈ buildErrors certPath keyPath) : Configuring certPath keyPath stage s' := by
  refine h.skip hlog hnext rfl rfl ⟨fun _ _ _ heq => (by cases heq), fun _ heq => (by cases heq),
    fun _ heq => (by cases heq), fun err' heq => ?_⟩
  cases heq
  exact herr

theorem Serving.configures (h : Serving certPath keyPath s) :
    Configuring certPath keyPath (mainStep certPath keyPath ok s).pc.stage
      (mainStep certPath keyPath ok s) := by
  have hstage := h.configuring
  rw [mainStep]
  split
  · rename_i b hpc
    rw [hpc] at hstage
    have hb := Configuring.build ok (b := b) hstage
    split
    · rename_i heq
      rw [heq] at hb
      exact hb.of_log rfl rfl
    · rename_i heq
      rw [heq] at hb
      exact hb.pass (e := .initFailed _) rfl rfl rfl
    · rename_i heq
      rw [heq] at hb
      exact hb.of_log rfl rfl
  · rename_i fresh hpc
    rw [hpc] at hstage
    exact hstage.install rfl rfl
  · rename_i b hpc
    rw [hpc] at hstage
    -- `reload` goes by the paths that `init` has stored
    obtain ⟨hcert, hkey⟩ := h.paths (by rw [hpc]; rfl)
    have hb := Configuring.build ok (b := b) hstage
    rw [hcert, hkey]
    split
    · rename_i heq
      rw [heq] at hb
      exact hb.of_log rfl rfl
    · rename_i heq
      -- `err` is one of the messages of `build_ctx`
      have herr := build_error (congrArg Prod.fst heq)
      rw [heq] at hb herr
      exact hb.reloadFailed rfl rfl herr
    · rename_i heq
      rw [heq] at hb
      exact hb.of_log rfl rfl
  · rename_i fresh hpc
    split
    · rw [hpc] at hstage
      exact hstage.of_log rfl rfl
    · exact hstage
  · rename_i fresh hpc
    rw [hpc] at hstage
    exact hstage.install rfl rfl
  · exact hstage.drop.of_log rfl rfl
  · rename_i old hpc
    have hfreed : Configuring certPath keyPath none (release old s) := by
      cases old with
      | none => exact hstage.drop
      | some p => exact hstage.drop.pass (e := .ctxFree p) rfl rfl rfl
    exact hfreed.pass (e := .reloaded) rfl rfl rfl
  · split
    · exact hstage.drop.of_log rfl rfl
    · exact hstage
  · split
    · cases hctx : s.ctx with
      | none => exact hstage.drop.of_log rfl rfl
      | some p => exact hstage.drop.pass (e := .ctxFree p) rfl rfl rfl
    · exact hstage
  · exact hstage
  · exact hstage

/-- The paths stay those of the command line. -/
theorem Serving.mainStep_paths (h : Serving certPath keyPath s) :
    (mainStep certPath keyPath ok s).pc.serving = true →
      (mainStep certPath keyPath ok s).certPath = certPath ∧
        (mainStep certPath keyPath ok s).keyPath = keyPath := by
  rw [mainStep]
  split
  · split <;> exact fun hs => (by cases hs)
  · exact fun _ => ⟨rfl, rfl⟩
  · rename_i b hpc
    have hpaths := h.paths (by rw [hpc]; rfl)
    obtain ⟨next, err, log, heq, -⟩ := build_frame ok s.certPath s.keyPath s b
    split
    · rename_i hb
      rw [hb] at heq
      subst heq
      exact fun _ => hpaths
    · rename_i hb
      rw [hb] at heq
      subst heq
      exact fun _ => hpaths
    · rename_i hb
      rw [hb] at heq
      subst heq
      exact fun _ => hpaths
  · rename_i fresh hpc
    have hpaths := h.paths (by rw [hpc]; rfl)
    split <;> exact fun _ => hpaths
  · rename_i fresh hpc
    exact fun _ => h.paths (by rw [hpc]; rfl)
  · rename_i old hpc
    exact fun _ => h.paths (by rw [hpc]; rfl)
  · rename_i old hpc
    have hpaths := h.paths (by rw [hpc]; rfl)
    obtain ⟨log, heq, -⟩ := release_frame old s
    rw [heq]
    exact fun _ => hpaths
  · split
    · exact fun hs => (by cases hs)
    · exact h.paths
  · split
    · exact fun hs => (by cases hs)
    · exact h.paths
  · exact h.paths
  · exact h.paths

theorem installs_of_byMain (h : byMain e = true) : installs e = none := by
  cases e <;> first | rfl | cases h

theorem Serving.mainStep (h : Serving certPath keyPath s) :
    Serving certPath keyPath (mainStep certPath keyPath ok s) := by
  refine ⟨h.configures, fun hpc => ?_, h.mainStep_paths⟩
  have hpc' : s.pc ≠ .exited := by
    intro hx
    refine hpc ?_
    rw [TlsContext.mainStep, hx]
    exact hx
  obtain ⟨-, -, ⟨hctx, more, hlog, hmore⟩ | ⟨-, p, hctx, hlog⟩⟩ :=
    mainStep_frame certPath keyPath ok s
  · rw [hlog, lastInstalled_append fun e he => installs_of_byMain (hmore e he)]
    exact (hctx.resolve_right fun hx => hpc hx.2).trans (h.current hpc')
  · rw [hctx, hlog, lastInstalled_installed]

/-- A step that leaves the main thread and `ctx_` alone. -/
theorem Serving.aside (h : Serving certPath keyPath s)
    (hc : Configuring certPath keyPath s.pc.stage s')
    (hlog : lastInstalled s'.log = lastInstalled s.log) (hpc : s'.pc = s.pc)
    (hctx : s'.ctx = s.ctx) (hcert : s'.certPath = s.certPath) (hkey : s'.keyPath = s.keyPath) :
    Serving certPath keyPath s' := by
  refine ⟨hpc ▸ hc, ?_, ?_⟩
  · rw [hpc, hctx, hlog]
    exact h.current
  · rw [hpc, hcert, hkey]
    exact h.paths

theorem lastInstalled_concat (h : installs e = none) :
    lastInstalled (log ++ [e]) = lastInstalled log :=
  lastInstalled_append fun e' he' => by
    rw [List.mem_singleton.mp he']
    exact h

theorem Serving.connStep (h : Serving certPath keyPath s) (hg : Guarded s) :
    Serving certPath keyPath (connStep k ok s) := by
  have hstage := h.configuring
  rw [TlsContext.connStep]
  split
  · split
    · exact h
    · exact h.aside (hstage.of_log rfl rfl) rfl rfl rfl rfl rfl
  · exact h.aside (hstage.of_log rfl rfl) rfl rfl rfl rfl rfl
  · rename_i ctx hk
    -- inside `wrap`, where `ctx_` cannot be written
    have hmem := List.mem_of_getElem? hk
    obtain ⟨hctx, hnull⟩ := hg.wraps hmem
    have hpc : s.pc ≠ .exited := by
      intro hx
      cases (hg.exited hx).2 _ hmem
    have hserves : Serves certPath keyPath s.log (.sslNew k ctx ok) := by
      refine ⟨fun _ _ _ heq => ?_, fun _ heq => (by cases heq), fun _ heq => (by cases heq),
        fun _ heq => (by cases heq)⟩
      cases heq
      exact ⟨hctx.trans (h.current hpc), hctx ▸ hnull⟩
    exact h.aside (hstage.skip rfl rfl rfl rfl hserves) (lastInstalled_concat rfl) rfl rfl rfl rfl
  · exact h.aside (hstage.of_log rfl rfl) rfl rfl rfl rfl rfl
  · exact h.aside (hstage.pass (e := .mintFailed k) rfl rfl rfl) (lastInstalled_concat rfl) rfl rfl
      rfl rfl
  · exact h.aside (hstage.pass (e := .sslUse k) rfl rfl rfl) (lastInstalled_concat rfl) rfl rfl
      rfl rfl
  · exact h.aside (hstage.pass (e := .sslFree k) rfl rfl rfl) (lastInstalled_concat rfl) rfl rfl
      rfl rfl
  · exact h.aside (hstage.of_log rfl rfl) rfl rfl rfl rfl rfl
  · exact h
  · exact h

theorem Serving.step (h : Serving certPath keyPath s) (hg : Guarded s) (l : TlsLabel) :
    Serving certPath keyPath (step certPath keyPath s l) := by
  cases l with
  | main ok => exact h.mainStep
  | conn k ok => exact h.connStep hg
  | io k =>
      rw [TlsContext.step]
      split
      · exact h.aside (h.configuring.pass (e := .sslUse k) rfl rfl rfl) (lastInstalled_concat rfl)
          rfl rfl rfl rfl
      · exact h
  | sighup =>
      rw [TlsContext.step]
      split
      · rename_i hpc
        have hopen : s.pc ≠ .exited := hpc ▸ fun hx => (by cases hx)
        exact ⟨h.configuring.drop.of_log rfl rfl, fun _ => h.current hopen,
          fun _ => h.paths (by rw [hpc]; rfl)⟩
      · exact h
  | sigterm =>
      rw [TlsContext.step]
      split
      · rename_i hpc
        have hopen : s.pc ≠ .exited := hpc ▸ fun hx => (by cases hx)
        exact ⟨h.configuring.drop.of_log rfl rfl, fun _ => h.current hopen,
          fun _ => h.paths (by rw [hpc]; rfl)⟩
      · exact h
  | accept =>
      rw [TlsContext.step]
      split
      · exact h.aside (h.configuring.of_log rfl rfl) rfl rfl rfl rfl rfl
      · exact h

theorem serving (certPath keyPath : Bytes) (ls : List TlsLabel) :
    Serving certPath keyPath (run certPath keyPath ls) := by
  have hstart : Serving certPath keyPath {} :=
    ⟨⟨throughout_nil _, fun e he => (by cases he), fun p n heq => (by cases heq)⟩,
      fun _ => rfl, fun hs => (by cases hs)⟩
  exact (run_inv (P := fun s => Guarded s ∧ Serving certPath keyPath s) ⟨guarded_start, hstart⟩
    (fun s l h => ⟨h.1.step l, h.2.step h.1 l⟩) ls).2

theorem connStep_ctx (k : Nat) (ok : Bool) (s : TlsContext) : (connStep k ok s).ctx = s.ctx := by
  rw [connStep]
  split
  · split <;> rfl
  all_goals rfl

/-- `ctx_` is written where no worker runs, or under the exclusive lock. -/
theorem step_ctx {l : TlsLabel} (h : (step certPath keyPath s l).ctx ≠ s.ctx) :
    s.pc.serving = false ∨ s.pc.writing = true := by
  cases l with
  | main ok =>
      obtain ⟨-, -, ⟨hctx | ⟨hpc, -⟩, -⟩ | ⟨hwhere, -⟩⟩ := mainStep_frame certPath keyPath ok s
      · exact absurd hctx h
      · exact .inl (by rw [hpc]; rfl)
      · exact hwhere
  | conn k ok => exact absurd (connStep_ctx k ok s) h
  | io k =>
      rw [step] at h
      split at h <;> exact absurd rfl h
  | sighup =>
      rw [step] at h
      split at h <;> exact absurd rfl h
  | sigterm =>
      rw [step] at h
      split at h <;> exact absurd rfl h
  | accept =>
      rw [step] at h
      split at h <;> exact absurd rfl h

/-- **`wrap` serves the current certificate.**  Whatever the order of the steps and whatever
    OpenSSL answers: `SSL_new` is called once at most for a connection, on the context installed
    last, which is never null; a context is installed once it has been made and hardened and has
    taken the certificate and the key of the command line, every call that `build_ctx` checks a
    success, and is not set up again; a reload that fails has one of the messages of `build_ctx`;
    and `ctx_` is written only while no `wrap` is between taking the mutex and having its `SSL`. -/
theorem wrap_serves_current (certPath keyPath : Bytes) (ls : List TlsLabel) :
    let s := run certPath keyPath ls
    Throughout (Serves certPath keyPath) s.log ∧ (s.log.filterMap mintOf).Nodup ∧
      ∀ l, (step certPath keyPath s l).ctx ≠ s.ctx → ∀ c ∈ s.conns, c.inside = false := by
  dsimp only
  obtain ⟨hguarded, -, hsessions⟩ := accounted certPath keyPath ls
  refine ⟨(serving certPath keyPath ls).configuring.serves, hsessions.once, fun l hl => ?_⟩
  exact hguarded.outside (step_ctx hl)

end TlsContext

end CastlePlus
