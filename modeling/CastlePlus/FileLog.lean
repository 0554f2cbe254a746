import CastlePlus.ConfigText
import CastlePlus.LineIndex

/-! # The log file

    `IndexedFileReader` and `Logger` (`util/log.hpp`).  The reader keeps the offset of every line
    of a file; the logger appends entries to it, each stamped with the line count so far.

    The count goes up by one with each entry, the lines of the file with each newline.  So the
    two agree exactly when every entry starts a line and holds one, and the file could be opened
    whenever it was counted: it was terminated when the logger took it over, no message that was
    written has a newline in it, and no `clearLast` took a file with lines for an empty one
    (**`positional_iff`**).  What goes into an open `ofstream` reaches the file. -/

namespace CastlePlus

open TextFormat LineIndex

/-! ## IndexedFileReader -/

/-- The stream holds the file as it was opened: between `reindex` and the reads after it nothing
    is written. -/
structure IndexedFileReader where
  in_ : IStream UInt8
  offsets : List Int

namespace IndexedFileReader

/-- The loop of `reindex`.  A turn takes a byte at least, so the length of the file bounds the
    turns. -/
def indexLoop : Nat → Int → List Int → IStream UInt8 → List Int × IStream UInt8
  | 0, _, offsets, s => (offsets, s)
  | fuel + 1, pos, offsets, s =>
      let s := (s.getline 0x0a).2
      if s.failbit then (offsets, s)
      else indexLoop fuel s.tellg.1 (offsets ++ [pos]) s.tellg.2

/-- `reindex`: `file` is what `open` finds, nothing if it fails. -/
def reindex : Option Bytes → IndexedFileReader
  | none => { in_ := { data := [], failbit := true }, offsets := [] }
  | some text =>
      let s : IStream UInt8 := { data := text }
      let (offsets, s) := indexLoop (text.length + 1) s.tellg.1 [] s.tellg.2
      { in_ := s.clear, offsets }

def lineCount (r : IndexedFileReader) : Nat := r.offsets.length

def getLine (ind : Nat) (r : IndexedFileReader) : Except Bytes (Bytes × IndexedFileReader) :=
  match r.offsets[ind]? with
  | none => .error (ascii "line index out of range")
  | some pos =>
      let (line, s) := (r.in_.clear.seekg pos).getline 0x0a
      .ok (line, { r with in_ := s })

/-- `remove_last_line`: the file is cut at the start of the last line, or `resize_file` throws. -/
def removeLastLine (resizes : Bool) (file : Bytes) (r : IndexedFileReader) :
    Option (Bytes × IndexedFileReader) :=
  match r.offsets.getLast? with
  | none => some (file, r)
  | some cutPoint =>
      if resizes then
        let file := file.take cutPoint.toNat
        some (file, { in_ := { data := file }, offsets := r.offsets.dropLast })
      else none

/-- Once the end of the file was seen the loop is over. -/
theorem indexLoop_eof (fuel q : Nat) (pos : Int) (offsets : List Int) (text : Bytes) :
    indexLoop fuel pos offsets { data := text, pos := q, eofbit := true, failbit := true } =
      (offsets, { data := text, pos := q, eofbit := true, failbit := true }) := by
  cases fuel with
  | zero => rfl
  | succ fuel => rfl

/-- From the start of a line the loop records the starts of the lines that are left. -/
theorem indexLoop_spec (text : Bytes) : ∀ (fuel p : Nat) (offsets : List Int),
    (text.drop p).length < fuel →
    (indexLoop fuel p offsets { data := text, pos := p }).1 =
        offsets ++ (startsFrom p (lines 0x0a (text.drop p))).map Int.ofNat ∧
      (indexLoop fuel p offsets { data := text, pos := p }).2.data = text := by
  intro fuel
  induction fuel with
  | zero => intro p offsets h; omega
  | succ fuel ih =>
      intro p offsets h
      obtain ⟨l, hl⟩ : ∃ l, (text.drop p).takeWhile (· ≠ 0x0a) = l := ⟨_, rfl⟩
      by_cases hne : text.drop p = []
      · rw [indexLoop, IStream.getline_end 0x0a hne, hne]
        exact ⟨(List.append_nil _).symm, rfl⟩
      · have hcons := lines_eq_cons 0x0a hne
        have hdd : (text.drop p).drop (l.length + 1) = text.drop (p + l.length + 1) := by
          rw [List.drop_drop, Nat.add_assoc]
        rw [hl, hdd] at hcons
        by_cases hlt : l.length < (text.drop p).length
        · have hfuel : (text.drop (p + l.length + 1)).length < fuel := by
            rw [List.length_drop] at h hlt ⊢
            omega
          obtain ⟨hoff, hdata⟩ := ih (p + l.length + 1) (offsets ++ [(p : Int)]) hfuel
          rw [indexLoop, IStream.getline_line hl hlt, hcons, startsFrom]
          refine ⟨hoff.trans ?_, hdata⟩
          rw [List.map_cons, List.append_assoc]
          rfl
        · -- the last line is not terminated: it is recorded, `tellg` fails at the end of the
          -- file, and so does the next `getline`
          have hend : text.drop (p + l.length + 1) = [] := by
            rw [List.length_drop] at hlt
            exact List.drop_eq_nil_of_le (by omega)
          have hstop := indexLoop_eof fuel (p + l.length) (-1) (offsets ++ [(p : Int)]) text
          rw [indexLoop, IStream.getline_tail hne hl hlt, hcons, hend]
          exact ⟨congrArg Prod.fst hstop, congrArg (fun x => x.2.data) hstop⟩

theorem reindex_spec (text : Bytes) :
    (reindex (some text)).offsets = (lineStarts 0x0a text).map Int.ofNat ∧
      (reindex (some text)).in_.data = text := by
  have hspec := indexLoop_spec text (text.length + 1) 0 [] (by simp)
  rw [List.nil_append, List.drop_zero] at hspec
  exact hspec

theorem lineCount_reindex (text : Bytes) :
    (reindex (some text)).lineCount = (lines 0x0a text).length := by
  rw [lineCount, (reindex_spec text).1, List.length_map, length_lineStarts]

/-- A reader over the lines of `text`. -/
structure Indexes (r : IndexedFileReader) (text : Bytes) : Prop where
  offsets : r.offsets = (lineStarts 0x0a text).map Int.ofNat
  data : r.in_.data = text

theorem indexes_reindex (text : Bytes) : Indexes (reindex (some text)) text :=
  ⟨(reindex_spec text).1, (reindex_spec text).2⟩

/-- Line `i` of the table is line `i` of the file. -/
theorem Indexes.getLine {r : IndexedFileReader} {text line : Bytes} {i : Nat} (h : Indexes r text)
    (hi : (lines 0x0a text)[i]? = some line) :
    ∃ r', r.getLine i = .ok (line, r') ∧ Indexes r' text := by
  have hlt : i < (lineStarts 0x0a text).length := by
    rw [length_lineStarts]
    exact (List.getElem?_eq_some_iff.mp hi).1
  obtain ⟨q, hq⟩ : ∃ q, (lineStarts 0x0a text)[i]? = some q := ⟨_, List.getElem?_eq_getElem hlt⟩
  have hoff : r.offsets[i]? = some (q : Int) := by
    rw [h.offsets, List.getElem?_map, hq]
    rfl
  have hseek : r.in_.clear.seekg q = { data := text, pos := q } := by
    rw [IStream.seekg, IStream.clear, h.data]
    simp
  have hget := getline_lineStart 0x0a { data := text, pos := q } rfl hq
  rw [hi] at hget
  refine ⟨{ r with in_ := (IStream.getline 0x0a { data := text, pos := q }).2 }, ?_, h.offsets, ?_⟩
  · rw [IndexedFileReader.getLine, hoff]
    simp only [hseek]
    rw [← Option.some.inj hget]
  · exact IStream.getline_data _

theorem reindex_offsets_eq_nil {text : Bytes} (h : (reindex (some text)).offsets.getLast? = none) :
    text = [] := by
  rw [List.getLast?_eq_none_iff, (reindex_spec text).1, List.map_eq_nil_iff] at h
  by_contra hne
  have hlines : lines 0x0a text ≠ [] := lines_ne_nil hne
  refine hlines ?_
  rw [← List.length_eq_zero_iff, ← length_lineStarts, h]
  rfl

/-- The file loses its last line and ends where that line began, and the table follows. -/
theorem removeLastLine_reindex {resizes : Bool} {text file : Bytes} {r : IndexedFileReader}
    (h : removeLastLine resizes text (reindex (some text)) = some (file, r)) :
    r.lineCount = (lines 0x0a file).length ∧ Terminated 0x0a file := by
  rw [removeLastLine] at h
  cases hlast : (reindex (some text)).offsets.getLast? with
  | none =>
      have htext : text = [] := reindex_offsets_eq_nil hlast
      rw [hlast] at h
      cases h
      exact ⟨lineCount_reindex text, htext ▸ terminated_nil⟩
  | some cutPoint =>
      rw [hlast] at h
      cases resizes with
      | false => cases h
      | true =>
          cases h
          rw [(reindex_spec text).1, List.getLast?_map, Option.map_eq_some_iff] at hlast
          obtain ⟨q, hq, rfl⟩ := hlast
          rw [List.getLast?_eq_getElem?] at hq
          have hcut := (lineStarts_spec hq).2
          rw [length_lineStarts, ← List.dropLast_eq_take] at hcut
          have hfree : ∀ l ∈ (lines 0x0a text).dropLast, (0x0a : UInt8) ∉ l :=
            fun l hl => sep_notMem_lines ((List.dropLast_sublist _).subset hl)
          constructor
          · show (reindex (some text)).offsets.dropLast.length = (lines 0x0a (text.take q)).length
            rw [hcut, lines_unlines hfree, (reindex_spec text).1, List.length_dropLast,
              List.length_map, length_lineStarts, List.length_dropLast]
          · show Terminated 0x0a (text.take q)
            rw [hcut]
            exact terminated_unlines _

end IndexedFileReader

/-! ## Logger -/

/-- `Logger::severity`. -/
inductive Severity where
  | warning
  | low
  | med
  | high
  deriving DecidableEq

/-- What `addDate` and `addTime` read off the clock. -/
structure Stamp where
  year : Int
  month : Nat
  day : Nat
  hours : Nat
  minutes : Nat
  seconds : Nat

structure Logger where
  logCount : Nat
  reader : IndexedFileReader
  optionDate : Bool
  optionTime : Bool
  optionSilenceWarn : Bool := false
  optionsWriteLow : Bool := true
  optionsWriteMed : Bool := true
  optionsWriteHigh : Bool := true

namespace Logger

def addDate (now : Stamp) : Bytes :=
  intText now.year ++ ascii "-" ++ natText now.month ++ ascii "-" ++ natText now.day ++ ascii " "

def addTime (now : Stamp) : Bytes :=
  natText now.hours ++ ascii ":" ++ natText now.minutes ++ ascii ":" ++ natText now.seconds ++
    ascii " "

def writePrefix (l : Logger) (index : Nat) (now : Stamp) : Bytes :=
  ascii "[" ++ natText index ++ ascii "] " ++ (if l.optionDate then addDate now else []) ++
    (if l.optionTime then addTime now else [])

def canBeWritten (l : Logger) : Severity → Bool
  | .high => l.optionsWriteHigh
  | .med => l.optionsWriteMed
  | .low => l.optionsWriteLow
  | .warning => !l.optionSilenceWarn

def label : Severity → Bytes
  | .high => ascii "HIGH"
  | .med => ascii "MED"
  | .low => ascii "LOW"
  | .warning => ascii "WARN"

def editWrites (silenceWarnings silenceLow silenceMed silenceHigh : Bool) (l : Logger) : Logger :=
  { l with
    optionSilenceWarn := silenceWarnings
    optionsWriteLow := !silenceLow
    optionsWriteMed := !silenceMed
    optionsWriteHigh := !silenceHigh }

theorem newline_notMem_natText (n : Nat) : 0x0a ∉ natText n :=
  (plain_of_noBlank (noBlank_of_digits (natText_digits n).1)).noNewline

/-- The prefix stays within its line. -/
theorem newline_notMem_writePrefix (l : Logger) (index : Nat) (now : Stamp) :
    0x0a ∉ l.writePrefix index now := by
  have hdate : 0x0a ∉ addDate now := by
    simp only [addDate, List.mem_append, not_or]
    refine ⟨⟨⟨⟨⟨(plain_intText _).noNewline, by decide⟩, newline_notMem_natText _⟩, by decide⟩,
      newline_notMem_natText _⟩, by decide⟩
  have htime : 0x0a ∉ addTime now := by
    simp only [addTime, List.mem_append, not_or]
    refine ⟨⟨⟨⟨⟨newline_notMem_natText _, by decide⟩, newline_notMem_natText _⟩, by decide⟩,
      newline_notMem_natText _⟩, by decide⟩
  have hite : ∀ (b : Bool) (t : Bytes), 0x0a ∉ t → 0x0a ∉ (if b then t else []) := by
    intro b t ht
    cases b with
    | false => exact List.not_mem_nil
    | true => exact ht
  simp only [writePrefix, List.mem_append, not_or]
  exact ⟨⟨⟨⟨by decide, newline_notMem_natText _⟩, by decide⟩, hite _ _ hdate⟩, hite _ _ htime⟩

end Logger

/-- An entry: the index stamped on it, and the number of the line it starts on. -/
structure LogEntry where
  index : Nat
  line : Nat

/-- The file with its logger; `entries` records what was written, no code reads it. -/
structure LogFile where
  file : Bytes
  logger : Logger
  entries : List LogEntry := []

namespace LogFile

/-- An entry goes through an `ofstream` in append mode, and the count one up. -/
def append (body : Bytes) (now : Stamp) (s : LogFile) : LogFile where
  file := s.file ++ (s.logger.writePrefix s.logger.logCount now ++ body ++ [0x0a])
  logger := { s.logger with logCount := s.logger.logCount + 1 }
  entries := s.entries ++ [⟨s.logger.logCount, s.file.count 0x0a⟩]

/-- The body of the constructor, once the file is open for writing: that has created it if there
    was none.  `indexes` says whether `reindex` can open it too. -/
def created (date time : Bool) (now : Stamp) (indexes : Bool) (file : Option Bytes) : LogFile :=
  let text := file.getD []
  let reader := IndexedFileReader.reindex (if indexes then some text else none)
  append (ascii "Created.") now { file := text, logger :=
    { logCount := reader.lineCount, reader, optionDate := date, optionTime := time } }

/-- `Logger::Logger`. -/
def openLogger (name : Bytes) (date time : Bool) (now : Stamp) (opens indexes : Bool)
    (file : Option Bytes) : Except Bytes LogFile :=
  if opens then .ok (created date time now indexes file)
  else .error (ascii "Logger [" ++ name ++ ascii "] could not open its file.")

def write (message : Bytes) (level : Severity) (now : Stamp) (opens : Bool) (s : LogFile) :
    Except Bytes LogFile :=
  if s.logger.canBeWritten level then
    if opens then .ok (s.append (Logger.label level ++ ascii ": " ++ message) now)
    else .error (ascii "Logger: could not open file to write.")
  else .ok s

/-- `opens` says whether `reindex` can open the file. -/
def clearLast (opens resizes : Bool) (s : LogFile) : LogFile :=
  let reader := IndexedFileReader.reindex (if opens then some s.file else none)
  match IndexedFileReader.removeLastLine resizes s.file reader with
  | some (file, reader) =>
      { s with file, logger := { s.logger with reader, logCount := reader.lineCount } }
  -- the exception leaves `clearLast` before it sets the count
  | none => { s with logger := { s.logger with reader } }

/-- The calls on a logger. -/
inductive Call where
  | write (message : Bytes) (level : Severity) (now : Stamp) (opens : Bool)
  | editWrites (silenceWarnings silenceLow silenceMed silenceHigh : Bool)
  | clearLast (opens resizes : Bool)

/-- A call of `write` that throws leaves everything as it was. -/
def step (s : LogFile) : Call → LogFile
  | .write message level now opens =>
      match s.write message level now opens with
      | .ok s => s
      | .error _ => s
  | .editWrites a b c d => { s with logger := s.logger.editWrites a b c d }
  | .clearLast opens resizes => s.clearLast opens resizes

def run (s : LogFile) (calls : List Call) : LogFile := calls.foldl step s

/-! ## Line numbers -/

/-- `_logCount` is the number of lines, and every entry has the number of its line on it. -/
structure Positional (s : LogFile) : Prop where
  count : s.logger.logCount = (lines 0x0a s.file).length
  stamps : ∀ e ∈ s.entries, e.index = e.line

/-- The numbering can go on from a file with this text: `reindex` opens it and it is terminated, or
    it does not and there is no newline to be missed. -/
def Resumes (indexes : Bool) (text : Bytes) : Prop :=
  if indexes then Terminated 0x0a text else 0x0a ∉ text

/-- The call writes no message with a newline in it, and counts no file that it cannot open. -/
def KeepsCount (s : LogFile) : Call → Prop
  | .write message level _ opens =>
      s.logger.canBeWritten level = true → opens = true → 0x0a ∉ message
  | .editWrites _ _ _ _ => True
  | .clearLast opens _ => opens = true ∨ s.file = []

variable {s : LogFile}

theorem terminated_append (body : Bytes) (now : Stamp) :
    Terminated 0x0a (s.append body now).file := by
  show Terminated 0x0a (s.file ++ (_ ++ [0x0a]))
  rw [← List.append_assoc]
  exact terminated_concat _

/-- Count and stamp are right exactly if the count was the number of newlines and the entry adds
    one. -/
theorem positional_append_iff (h : ∀ e ∈ s.entries, e.index = e.line) (body : Bytes)
    (now : Stamp) : Positional (s.append body now) ↔
      s.logger.logCount = s.file.count 0x0a ∧ 0x0a ∉ body := by
  have hpre := List.count_eq_zero.mpr
    (Logger.newline_notMem_writePrefix s.logger s.logger.logCount now)
  have hlines : (lines 0x0a (s.append body now).file).length =
      s.file.count 0x0a + body.count 0x0a + 1 := by
    rw [length_lines_of_terminated (terminated_append body now)]
    show (s.file ++ (_ ++ body ++ [0x0a])).count 0x0a = _
    rw [List.count_append, List.count_append, List.count_append, hpre, List.count_singleton_self]
    omega
  constructor
  · intro h'
    have hstamp : s.logger.logCount = s.file.count 0x0a :=
      h'.stamps ⟨s.logger.logCount, s.file.count 0x0a⟩ (List.mem_append_right _ List.mem_cons_self)
    have hcount : s.logger.logCount + 1 = _ := h'.count.trans hlines
    exact ⟨hstamp, List.count_eq_zero.mp (by omega)⟩
  · rintro ⟨hcount, hbody⟩
    refine ⟨?_, fun e he => ?_⟩
    · rw [hlines, List.count_eq_zero.mpr hbody]
      show s.logger.logCount + 1 = _
      rw [hcount]
    · rcases List.mem_append.mp he with he | he
      · exact h e he
      · rw [List.mem_singleton.mp he]
        exact hcount

theorem terminated_created (date time : Bool) (now : Stamp) (indexes : Bool)
    (file : Option Bytes) : Terminated 0x0a (created date time now indexes file).file :=
  terminated_append _ now

theorem positional_created_iff (date time : Bool) (now : Stamp) (indexes : Bool)
    (file : Option Bytes) :
    Positional (created date time now indexes file) ↔ Resumes indexes (file.getD []) := by
  have hbody : 0x0a ∉ ascii "Created." := by decide
  rw [created]
  refine (positional_append_iff (fun e he => (by cases he)) _ now).trans ?_
  rw [and_iff_left hbody]
  cases indexes with
  | true =>
      show (IndexedFileReader.reindex (some (file.getD []))).lineCount = _ ↔ _
      rw [IndexedFileReader.lineCount_reindex]
      exact length_lines_eq_count_iff
  | false =>
      show 0 = (file.getD []).count 0x0a ↔ 0x0a ∉ file.getD []
      rw [eq_comm, List.count_eq_zero]

theorem terminated_clearLast (h : Terminated 0x0a s.file) (opens resizes : Bool) :
    Terminated 0x0a (s.clearLast opens resizes).file := by
  rw [clearLast]
  cases opens with
  | false => exact h
  | true =>
      dsimp only
      split
      · rename_i file reader hcut
        exact (IndexedFileReader.removeLastLine_reindex hcut).2
      · exact h

theorem terminated_step (h : Terminated 0x0a s.file) (call : Call) :
    Terminated 0x0a (s.step call).file := by
  cases call with
  | write message level now opens =>
      rw [step, write]
      by_cases hlevel : s.logger.canBeWritten level = true
      · rw [if_pos hlevel]
        cases opens with
        | false => exact h
        | true => exact terminated_append _ now
      · rw [if_neg hlevel]
        exact h
  | editWrites => exact h
  | clearLast opens resizes => exact terminated_clearLast h opens resizes

/-- A file that cannot be opened counts as empty. -/
theorem positional_clearLast_iff (h : Positional s) (opens resizes : Bool) :
    Positional (s.clearLast opens resizes) ↔ opens = true ∨ s.file = [] := by
  rw [clearLast]
  cases opens with
  | false =>
      have hcount : Positional (s.clearLast false resizes) ↔ 0 = (lines 0x0a s.file).length :=
        ⟨fun h' => h'.count, fun h' => ⟨h', h.stamps⟩⟩
      refine hcount.trans ⟨fun hzero => .inr ?_, fun hempty => ?_⟩
      · by_contra hne
        exact lines_ne_nil hne (List.length_eq_zero_iff.mp hzero.symm)
      · rw [hempty.resolve_left Bool.false_ne_true]
        rfl
  | true =>
      refine iff_of_true ?_ (.inl rfl)
      dsimp only
      split
      · rename_i file reader hcut
        exact ⟨(IndexedFileReader.removeLastLine_reindex hcut).1, h.stamps⟩
      · exact ⟨h.count, h.stamps⟩

/-- One call on a terminated file. -/
theorem positional_step_iff (hterm : Terminated 0x0a s.file) (h : Positional s) (call : Call) :
    Positional (s.step call) ↔ KeepsCount s call := by
  cases call with
  | write message level now opens =>
      rw [step, write, KeepsCount]
      by_cases hlevel : s.logger.canBeWritten level = true
      · rw [if_pos hlevel]
        cases opens with
        | false => exact ⟨fun _ _ hopens => (by cases hopens), fun _ => h⟩
        | true =>
            have hlabel : 0x0a ∉ Logger.label level ++ ascii ": " := by
              cases level <;> decide
            have hcount := h.count.trans (length_lines_of_terminated hterm)
            rw [if_pos rfl]
            refine (positional_append_iff h.stamps _ now).trans ?_
            rw [and_iff_right hcount, List.mem_append, not_or, and_iff_right hlabel]
            exact ⟨fun hmsg _ _ => hmsg, fun hmsg => hmsg hlevel rfl⟩
      · rw [if_neg hlevel]
        exact ⟨fun _ hcan => absurd hcan hlevel, fun _ => h⟩
  | editWrites a b c d => exact ⟨fun _ => trivial, fun _ => ⟨h.count, h.stamps⟩⟩
  | clearLast opens resizes => exact positional_clearLast_iff h opens resizes

theorem run_take_succ {calls : List Call} {call : Call} {n : Nat} (h : calls[n]? = some call) :
    s.run (calls.take (n + 1)) = (s.run (calls.take n)).step call := by
  rw [run, run, List.take_add_one, h, Option.toList_some, List.foldl_append]
  rfl

theorem terminated_run (h : Terminated 0x0a s.file) (calls : List Call) :
    Terminated 0x0a (s.run calls).file := by
  induction calls generalizing s with
  | nil => exact h
  | cons call calls ih => exact ih (terminated_step h call)

/-- **Line numbers are positions.**  After every call of a run the count is the number of physical
    lines and every stamp the number of its line, if and only if the numbering could go on from
    the file that the logger took over, no message with a newline is written, and no `clearLast`
    fails to open a file with lines in it. -/
theorem positional_iff (date time : Bool) (now : Stamp) (indexes : Bool) (file : Option Bytes)
    (calls : List Call) :
    (∀ n, Positional ((created date time now indexes file).run (calls.take n))) ↔
      Resumes indexes (file.getD []) ∧
        ∀ n call, calls[n]? = some call →
          KeepsCount ((created date time now indexes file).run (calls.take n)) call := by
  have hterm : ∀ n, Terminated 0x0a
      ((created date time now indexes file).run (calls.take n)).file :=
    fun n => terminated_run (terminated_created date time now indexes file) _
  have hstart := positional_created_iff date time now indexes file
  constructor
  · intro h
    refine ⟨hstart.mp (h 0), fun n call hcall => ?_⟩
    have hnext := h (n + 1)
    rw [run_take_succ hcall] at hnext
    exact (positional_step_iff (hterm n) (h n) call).mp hnext
  · rintro ⟨hfile, hcalls⟩ n
    induction n with
    | zero => exact hstart.mpr hfile
    | succ n ih =>
        cases hcall : calls[n]? with
        | none =>
            rw [List.take_add_one, hcall, Option.toList_none, List.append_nil]
            exact ih
        | some call =>
            rw [run_take_succ hcall]
            exact (positional_step_iff (hterm n) ih call).mpr (hcalls n call hcall)

/-- A message of two lines: the count is behind the file. -/
theorem two_lines_counted_once :
    ¬ Positional ((created true true ⟨2026, 7, 5, 12, 0, 0⟩ true none).run
      [.write (ascii "disk\nfull") .high ⟨2026, 7, 5, 12, 0, 1⟩ true]) := by
  intro h
  have hstart : Positional (created true true ⟨2026, 7, 5, 12, 0, 0⟩ true none) :=
    (positional_created_iff true true _ true none).mpr terminated_nil
  have hkeeps : KeepsCount (created true true ⟨2026, 7, 5, 12, 0, 0⟩ true none)
      (.write (ascii "disk\nfull") .high ⟨2026, 7, 5, 12, 0, 1⟩ true) :=
    (positional_step_iff (terminated_created _ _ _ _ _) hstart _).mp h
  exact absurd (hkeeps rfl rfl) (by decide)

end LogFile

end CastlePlus
