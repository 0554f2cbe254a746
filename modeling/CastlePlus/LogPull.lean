import CastlePlus.FileLog

/-! # Pulling new log lines

    The logging front end (`util/log.h`): `log_msg` mirrors warnings and errors into the log file,
    and `log_pull_new` returns the lines that have come since the last pull.  All of it runs under
    one mutex, so a run is a sequence of calls.  `ts` and `now` are what the clock says at a call,
    `text` is the rendered message.

    The cursor of the pulls counts lines of a file that only grows by terminated entries, so every
    line is pulled once (**`pulls_exactly_once`**), also those of a message with newlines in it and
    the one that joins an unterminated end of the old file. -/

namespace CastlePlus

open TextFormat LineIndex

inductive LogLevel where
  | info
  | warn
  | error
  | critical
  deriving DecidableEq

def kMaxCriticalEntries : Nat := 50

/-- The function-local statics, and what has gone to `stderr`. -/
structure LogState where
  fileLogger : Option LogFile := none
  logReader : Option IndexedFileReader := none
  logCursor : Nat := 0
  criticalLog : List Bytes := []
  stderr : Bytes := []

namespace LogState

def levelTag : LogLevel → Bytes
  | .info => ascii "[INFO]~"
  | .warn => ascii "[WARN]~"
  | .error => ascii "[ERROR]~"
  | .critical => ascii "[CRIT]~"

/-- `%-5s`. -/
def padTag (t : Bytes) : Bytes := t ++ List.replicate (5 - t.length) 0x20

/-- What `vsnprintf` leaves in `msg[1024]`, as a C string. -/
def renderMsg (text : Bytes) : Bytes := (text.take 1023).takeWhile (· ≠ 0)

def printErr (t : Bytes) (s : LogState) : LogState := { s with stderr := s.stderr ++ t }

/-- `log_init`; `file` is what stands at `path`, and `opens` and `indexes` say whether the logger
    can open it for writing and for counting its lines. -/
def logInit (path : Bytes) (now : Stamp) (opens indexes : Bool) (file : Option Bytes)
    (s : LogState) : LogState :=
  if path = [] then s
  else
    match LogFile.openLogger path true true now opens indexes file with
    | .ok lf => { s with
        fileLogger := some lf
        logReader := some (.reindex (some lf.file))
        logCursor := 0 }
    | .error what =>
        printErr (ascii "[log] file logging disabled (" ++ what ++ ascii ")\n")
          { s with fileLogger := none, logReader := none }

/-- The calls of `log_pull_new` on the reader. -/
def pullLines : List Nat → IndexedFileReader → Except Bytes (List Bytes × IndexedFileReader)
  | [], r => .ok ([], r)
  | i :: is, r => do
      let (line, r) ← r.getLine i
      let (out, r) ← pullLines is r
      return (line :: out, r)

def logPullNew (s : LogState) : Except Bytes (List Bytes × LogState) :=
  match s.logReader with
  | none => .ok ([], s)
  | some _ => do
      let r := IndexedFileReader.reindex (s.fileLogger.map LogFile.file)
      let n := r.lineCount
      -- the file may have shrunk
      let cursor := if n < s.logCursor then n else s.logCursor
      let (out, r) ← pullLines (List.range' cursor (n - cursor)) r
      return (out, { s with logReader := some r, logCursor := n })

/-- The part of `log_msg` that writes to the file. -/
def mirror (level : LogLevel) (msg : Bytes) (now : Stamp) (opens : Bool) (lf : LogFile) :
    Except Bytes LogFile :=
  match level with
  | .info => .ok lf
  | .critical => lf.write (ascii "CRITICAL: " ++ msg) .high now opens
  | .error => lf.write msg .high now opens
  | .warn => lf.write msg .warning now opens

def pushCritical (entry : Bytes) (entries : List Bytes) : List Bytes :=
  let entries := entries ++ [entry]
  if kMaxCriticalEntries < entries.length then entries.drop 1 else entries

/-- The part of `log_msg` before that: `stderr` and the critical history. -/
def note (level : LogLevel) (ts msg : Bytes) (s : LogState) : LogState :=
  let s := s.printErr
    (ascii "[" ++ ts ++ ascii "] " ++ padTag (levelTag level) ++ ascii " " ++ msg ++ [0x0a])
  if level = .critical then
    { s with criticalLog := pushCritical (ascii "[" ++ ts ++ ascii "] " ++ msg) s.criticalLog }
  else s

def logMsg (level : LogLevel) (ts text : Bytes) (now : Stamp) (opens : Bool) (s : LogState) :
    LogState :=
  let msg := renderMsg text
  let s := s.note level ts msg
  match s.fileLogger with
  | none => s
  | some lf =>
      match mirror level msg now opens lf with
      | .ok lf => { s with fileLogger := some lf }
      | .error what => s.printErr (ascii "[log] file write failed (" ++ what ++ ascii ")\n")

end LogState

/-- The calls after `log_init`. -/
inductive LogEvent where
  | msg (level : LogLevel) (ts text : Bytes) (now : Stamp) (opens : Bool)
  | pull

namespace LogState

/-- A run, with the results of its pulls. -/
def runEvents : List LogEvent → LogState → Except Bytes (List (List Bytes) × LogState)
  | [], s => .ok ([], s)
  | .msg level ts text now opens :: evs, s => runEvents evs (s.logMsg level ts text now opens)
  | .pull :: evs, s => do
      let (out, s) ← s.logPullNew
      let (outs, s) ← runEvents evs s
      return (out :: outs, s)

/-! ## Exactly once -/

/-- `out` has been pulled: the lines of the file before the cursor. -/
structure Pulled (s : LogState) (lf : LogFile) (out : List Bytes) : Prop where
  logger : s.fileLogger = some lf
  reader : s.logReader.isSome = true
  terminated : Terminated 0x0a lf.file
  cursor : s.logCursor ≤ (lines 0x0a lf.file).length
  out : out = (lines 0x0a lf.file).take s.logCursor

variable {s : LogState} {lf : LogFile} {out : List Bytes}

theorem pullLines_spec {text : Bytes} : ∀ (k i : Nat) (r : IndexedFileReader), r.Indexes text →
    i + k ≤ (lines 0x0a text).length →
    ∃ r', pullLines (List.range' i k) r = .ok (((lines 0x0a text).drop i).take k, r') := by
  intro k
  induction k with
  | zero => exact fun i r _ _ => ⟨r, rfl⟩
  | succ k ih =>
      intro i r hr hle
      have hi : i < (lines 0x0a text).length := by omega
      obtain ⟨line, hline⟩ : ∃ line, (lines 0x0a text)[i]? = some line :=
        ⟨_, List.getElem?_eq_getElem hi⟩
      obtain ⟨r₁, hget, hr₁⟩ := hr.getLine hline
      obtain ⟨r₂, hrest⟩ := ih (i + 1) r₁ hr₁ (by omega)
      have hdrop : (lines 0x0a text).drop i = line :: (lines 0x0a text).drop (i + 1) := by
        rw [List.drop_eq_getElem_cons hi]
        rw [List.getElem?_eq_getElem hi] at hline
        rw [Option.some.inj hline]
      refine ⟨r₂, ?_⟩
      rw [List.range'_succ, pullLines, hget, hdrop, List.take_succ_cons]
      show (do let (out, r) ← pullLines (List.range' (i + 1) k) r₁; return (line :: out, r)) = _
      rw [hrest]
      rfl

/-- A pull returns the lines behind the cursor and moves it to the end. -/
theorem Pulled.pull (h : Pulled s lf out) : ∃ new s', s.logPullNew = .ok (new, s') ∧
    out ++ new = lines 0x0a lf.file ∧ Pulled s' lf (out ++ new) := by
  obtain ⟨r, hr⟩ := Option.isSome_iff_exists.mp h.reader
  have hcount := IndexedFileReader.lineCount_reindex lf.file
  have hcursor : ¬ (lines 0x0a lf.file).length < s.logCursor := by
    have := h.cursor
    omega
  obtain ⟨r', hpull⟩ := pullLines_spec ((lines 0x0a lf.file).length - s.logCursor) s.logCursor
    (.reindex (some lf.file)) (IndexedFileReader.indexes_reindex lf.file)
    (by have := h.cursor; omega)
  have hnew : ((lines 0x0a lf.file).drop s.logCursor).take
      ((lines 0x0a lf.file).length - s.logCursor) = (lines 0x0a lf.file).drop s.logCursor := by
    rw [List.take_of_length_le (by rw [List.length_drop])]
  rw [hnew] at hpull
  have hall : out ++ (lines 0x0a lf.file).drop s.logCursor = lines 0x0a lf.file := by
    rw [h.out, List.take_append_drop]
  refine ⟨_, { s with logReader := some r', logCursor := (lines 0x0a lf.file).length }, ?_, hall,
    h.logger, rfl, h.terminated, Nat.le_refl _, ?_⟩
  · rw [logPullNew, hr, h.logger, Option.map_some]
    simp only [hcount, if_neg hcursor, hpull]
    rfl
  · rw [hall]
    exact List.take_length.symm

/-- The file keeps its lines and gets new ones behind them. -/
theorem mirror_lines {level : LogLevel} {msg : Bytes} {now : Stamp} {opens : Bool}
    {lf' : LogFile} (hterm : Terminated 0x0a lf.file)
    (h : mirror level msg now opens lf = .ok lf') :
    Terminated 0x0a lf'.file ∧ ∃ more, lines 0x0a lf'.file = lines 0x0a lf.file ++ more := by
  have hsame : Terminated 0x0a lf.file ∧ ∃ more, lines 0x0a lf.file = lines 0x0a lf.file ++ more :=
    ⟨hterm, [], (List.append_nil _).symm⟩
  have hwrite : ∀ m sev, lf.write m sev now opens = .ok lf' →
      Terminated 0x0a lf'.file ∧ ∃ more, lines 0x0a lf'.file = lines 0x0a lf.file ++ more := by
    intro m sev hw
    rw [LogFile.write] at hw
    split at hw
    · split at hw
      · cases hw
        exact ⟨LogFile.terminated_append _ now, _, lines_append_of_terminated hterm _⟩
      · cases hw
    · cases hw
      exact hsame
  cases level with
  | info => cases h; exact hsame
  | warn => exact hwrite _ _ h
  | error => exact hwrite _ _ h
  | critical => exact hwrite _ _ h

theorem Pulled.printErr (h : Pulled s lf out) (t : Bytes) : Pulled (s.printErr t) lf out :=
  ⟨h.logger, h.reader, h.terminated, h.cursor, h.out⟩

theorem Pulled.note (h : Pulled s lf out) (level : LogLevel) (ts msg : Bytes) :
    Pulled (s.note level ts msg) lf out := by
  rw [LogState.note]
  by_cases hcrit : level = .critical
  · rw [if_pos hcrit]
    exact ⟨h.logger, h.reader, h.terminated, h.cursor, h.out⟩
  · rw [if_neg hcrit]
    exact h.printErr _

/-- A message moves nothing that has been pulled. -/
theorem Pulled.msg (h : Pulled s lf out) (level : LogLevel) (ts text : Bytes) (now : Stamp)
    (opens : Bool) : ∃ lf', Pulled (s.logMsg level ts text now opens) lf' out := by
  have hnote := h.note level ts (renderMsg text)
  rw [logMsg]
  simp only [hnote.logger]
  cases hm : mirror level (renderMsg text) now opens lf with
  | error what => exact ⟨lf, hnote.printErr _⟩
  | ok lf' =>
      obtain ⟨hterm, more, hmore⟩ := mirror_lines h.terminated hm
      refine ⟨lf', rfl, hnote.reader, hterm, ?_, ?_⟩
      · rw [hmore, List.length_append]
        exact Nat.le_add_right_of_le hnote.cursor
      · rw [hmore, List.take_append_of_le_length hnote.cursor]
        exact hnote.out

/-- A run that ends with a pull has pulled the whole file. -/
theorem Pulled.run (evs : List LogEvent) : ∀ {s : LogState} {lf : LogFile} {out : List Bytes},
    Pulled s lf out → ∃ outs s' lf', runEvents (evs ++ [.pull]) s = .ok (outs, s') ∧
      s'.fileLogger = some lf' ∧ out ++ outs.flatten = lines 0x0a lf'.file := by
  induction evs with
  | nil =>
      intro s lf out h
      obtain ⟨new, s', hpull, hall, hs'⟩ := h.pull
      refine ⟨[new], s', lf, ?_, hs'.logger, ?_⟩
      · rw [List.nil_append, runEvents, hpull]
        rfl
      · rw [List.flatten_singleton]
        exact hall
  | cons ev evs ih =>
      intro s lf out h
      cases ev with
      | msg level ts text now opens =>
          obtain ⟨lf', h'⟩ := h.msg level ts text now opens
          exact ih h'
      | pull =>
          obtain ⟨new, s', hpull, -, hs'⟩ := h.pull
          obtain ⟨outs, s'', lf', hrun, hlogger, hall⟩ := ih hs'
          refine ⟨new :: outs, s'', lf', ?_, hlogger, ?_⟩
          · rw [List.cons_append, runEvents, hpull]
            show (do let (outs, s) ← runEvents (evs ++ [LogEvent.pull]) s'; return (new :: outs, s)) = _
            rw [hrun]
            rfl
          · rw [List.flatten_cons, ← List.append_assoc]
            exact hall

/-- **Exactly once.**  Whatever stood in the file, after `log_init` no pull throws, and the results
    of all pulls together are the physical lines of the file at the last one. -/
theorem pulls_exactly_once (path : Bytes) (hpath : path ≠ []) (file : Option Bytes) (now : Stamp)
    (indexes : Bool) (s : LogState) (evs : List LogEvent) :
    ∃ outs s' lf,
      runEvents (evs ++ [.pull]) (s.logInit path now true indexes file) = .ok (outs, s') ∧
      s'.fileLogger = some lf ∧ outs.flatten = lines 0x0a lf.file := by
  have hinit : Pulled (s.logInit path now true indexes file)
      (LogFile.created true true now indexes file) [] := by
    rw [logInit, if_neg hpath]
    exact ⟨rfl, rfl, LogFile.terminated_created _ _ _ _ _, Nat.zero_le _, rfl⟩
  exact Pulled.run evs hinit

theorem pulls_exactly_once_joined : ∃ outs s' lf,
    runEvents ([.pull, .msg .error (ascii "t") (ascii "a\nb") ⟨2026, 7, 5, 12, 0, 1⟩ true] ++ [.pull])
      (logInit (ascii "log") ⟨2026, 7, 5, 12, 0, 0⟩ true true (some (ascii "old")) {}) =
        .ok (outs, s') ∧
      s'.fileLogger = some lf ∧ outs.flatten = lines 0x0a lf.file :=
  pulls_exactly_once (ascii "log") (by decide) (some (ascii "old")) _ true {} _

end LogState

end CastlePlus
