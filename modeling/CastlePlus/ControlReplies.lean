import CastlePlus.ControlSession

/-! # The replies of the control server

    `dispatch_command` (`control/control_server.cpp`) answers every line by its first word; a word
    that is no command gets an error that may suggest the nearest one.

    The words that are answered are exactly those of the filter, so that a suggestion always works,
    and nothing but its own word sets off an effect (**`unknown_command_iff`**).  A session writes
    the replies to its lines in order and nothing else (**`session_transcript`**). -/

namespace CastlePlus

open TextFormat FirstBest AutoCorrectFilter

/-- The words that the filter is made from. -/
def commandNames : List Bytes :=
  ["help", "ping", "status", "stats", "health", "errors", "services", "backends",
    "restart", "shutdown", "exit", "quit", "systemstatus", "backendstatus", "clear"].map ascii

/-- The first word of a line, in small letters. -/
def commandOf (raw : Bytes) : Bytes := ((trim raw).takeWhile fun b => !isBlank b).map toLower

/-- What follows the first word. -/
def argumentOf (raw : Bytes) : Bytes :=
  ((trim raw).dropWhile fun b => !isBlank b).dropWhile isBlank

theorem dispatchCommand_eq {c : ControlServer} {raw : Bytes} (h : trim raw ≠ []) :
    dispatchCommand c raw = runCommand c (commandOf raw) (argumentOf raw) := if_neg h

/-! ## Unknown words -/

def unknownPrefix : Bytes := ascii "unknown command: "

/-- Every text that the server is given satisfies `P`. -/
structure Texts (P : Bytes → Prop) (c : ControlServer) : Prop where
  status : P c.cmdStatus
  health : P c.cmdHealth
  errors : P c.cmdErrors
  systemStatus : P c.systemStatusHelper
  services : ∀ sup, c.supervisor = some sup → P sup.describeServices
  backends : ∀ sup, c.supervisor = some sup → P sup.describeBackendStatus

/-- None of them looks like the error. -/
def Plainspoken (c : ControlServer) : Prop := Texts (fun t => ¬ unknownPrefix <+: t) c

/-- The reply to a word that is no command: the first of the nearest commands, as long as it costs
    at most three, or none. -/
inductive Suggests (cmd : Bytes) : Bytes → Prop where
  | nearest (w : Bytes) :
      First (Best (qualifies 3 cmd) (rank cmd) commandNames) commandNames w →
      Suggests cmd (unknownPrefix ++ cmd ++ [0x20, 0xe2, 0x80, 0x94] ++ ascii " did you mean '" ++
        w ++ ascii "'?\n")
  | none : (∀ w ∈ commandNames, 3 < cost cmd w) →
      Suggests cmd (unknownPrefix ++ cmd ++ ascii " (try 'help')\n")

theorem Suggests.unknown {cmd reply : Bytes} (h : Suggests cmd reply) : unknownPrefix <+: reply := by
  cases h with
  | nearest w _ =>
      simp only [List.append_assoc]
      exact List.prefix_append ..
  | none _ =>
      simp only [List.append_assoc]
      exact List.prefix_append ..

theorem unknownCommand_suggests {cmd : Bytes} (h : cmd ∉ commandNames)
    (hlen : cmd.length + 3 < sizeMax) : Suggests cmd (unknownCommand cmd) := by
  have hfix : (make 3 commandNames).fix cmd = _ := fix_make hlen
  rw [unknownCommand, show commandFilter = make 3 commandNames from rfl, hfix]
  cases hbest : commandNames.foldl (keep (qualifies 3 cmd) (rank cmd)) none with
  | none =>
      have hnone := foldl_keep_eq_none.mp hbest
      show Suggests cmd (if cmd ≠ cmd then _ else _)
      rw [if_neg (fun hne => hne rfl)]
      refine .none fun w hw => ?_
      have := hnone w hw
      rw [qualifies, decide_eq_false_iff_not] at this
      omega
  | some w =>
      have hfirst := foldl_keep_eq_some.mp hbest
      have hne : w ≠ cmd := fun heq => h (heq ▸ hfirst.mem)
      show Suggests cmd (if w ≠ cmd then _ else _)
      rw [if_pos hne]
      exact .nearest w hfirst

theorem runCommand_unknown {c : ControlServer} {cmd : Bytes} (arg : Bytes)
    (h : cmd ∉ commandNames) : runCommand c cmd arg = (unknownCommand cmd, []) := by
  have hne : ∀ w ∈ commandNames, cmd ≠ w := fun w hw heq => h (heq ▸ hw)
  simp only [commandNames, List.map_cons, List.map_nil, List.forall_mem_cons] at hne
  obtain ⟨h1, h2, h3, h4, h5, h6, h7, h8, h9, h10, h11, h12, h13, h14, h15, -⟩ := hne
  rw [runCommand, if_neg h1, if_neg h2, if_neg (not_or.mpr ⟨h3, h4⟩), if_neg h5, if_neg h6,
    if_neg (not_or.mpr ⟨h7, h8⟩), if_neg h9, if_neg h10, if_neg h13, if_neg h14,
    if_neg (not_or.mpr ⟨h11, h12⟩), if_neg h15]

/-- The second letter tells. -/
theorem not_unknown {a b : UInt8} (h : (a, b) ≠ (0x75, 0x6e)) (rest : Bytes) :
    ¬ unknownPrefix <+: a :: b :: rest := by
  rintro ⟨tail, heq⟩
  have h1 := (List.cons.inj heq).1
  have h2 := (List.cons.inj (List.cons.inj heq).2).1
  exact h (by rw [← h1, ← h2]; rfl)

/-- The reply to a command is a text of the server or its own, which does not begin with `un`. -/
theorem runCommand_texts {P : Bytes → Prop} {c : ControlServer} (hc : Texts P c)
    (hP : ∀ a b rest, (a, b) ≠ (0x75, 0x6e) → P (a :: b :: rest)) {cmd : Bytes} (arg : Bytes)
    (h : cmd ∈ commandNames) : P (runCommand c cmd arg).1 := by
  obtain ⟨supervisor, onShutdown, status, health, errors, system⟩ := c
  simp only [commandNames, List.map_cons, List.map_nil, List.mem_cons, List.not_mem_nil,
    or_false] at h
  rcases h with rfl | rfl | rfl | rfl | rfl | rfl | rfl | rfl | rfl | rfl | rfl | rfl | rfl | rfl |
    rfl
  all_goals simp +decide only [runCommand, if_true, if_false]
  · exact hP _ _ _ (by decide)
  · exact hP _ _ _ (by decide)
  · exact hc.status
  · exact hc.status
  · exact hc.health
  · exact hc.errors
  · cases supervisor with
    | none => exact hP _ _ _ (by decide)
    | some sup => exact hc.services sup rfl
  · cases supervisor with
    | none => exact hP _ _ _ (by decide)
    | some sup => exact hc.services sup rfl
  · cases supervisor with
    | none => exact hP _ _ _ (by decide)
    | some sup =>
        dsimp only
        split
        · exact hP _ _ _ (by decide)
        · split
          · exact hP _ _ _ (by decide)
          · exact hP _ _ _ (by decide)
  · exact hP _ _ _ (by decide)
  · exact hP _ _ _ (by decide)
  · exact hP _ _ _ (by decide)
  · exact hc.systemStatus
  · cases supervisor with
    | none => exact hP _ _ _ (by decide)
    | some sup => exact hc.backends sup rfl
  · exact hP _ _ _ (by decide)

/-! ## Effects -/

/-- What sets off an effect: its own word, an argument where it needs one, and somebody to ask. -/
def SetsOff (c : ControlServer) (cmd arg : Bytes) : ControlEffect → Prop
  | .restartService name =>
      cmd = ascii "restart" ∧ c.supervisor ≠ none ∧ arg ≠ [] ∧ name = arg
  | .shutdown => cmd = ascii "shutdown" ∧ c.onShutdown = true
  | .closeSession => cmd = ascii "exit" ∨ cmd = ascii "quit"

/-- The words that have an effect. -/
def effectNames : List Bytes := ["restart", "shutdown", "exit", "quit"].map ascii

theorem effects_quiet {c : ControlServer} {cmd : Bytes} (arg : Bytes) (h : cmd ∉ effectNames) :
    (runCommand c cmd arg).2 = [] := by
  by_cases hname : cmd ∈ commandNames
  · obtain ⟨supervisor, onShutdown, status, health, errors, system⟩ := c
    simp only [commandNames, List.map_cons, List.map_nil, List.mem_cons, List.not_mem_nil,
      or_false] at hname
    rcases hname with rfl | rfl | rfl | rfl | rfl | rfl | rfl | rfl | rfl | rfl | rfl | rfl | rfl |
      rfl | rfl
    all_goals first
      | exact absurd (by decide) h
      | (cases supervisor <;> simp +decide only [runCommand, if_true, if_false])
  · rw [runCommand_unknown arg hname]

theorem effects_one (c : ControlServer) (cmd arg : Bytes) : (runCommand c cmd arg).2 = [] ∨
    ∃ e, (runCommand c cmd arg).2 = [e] ∧ SetsOff c cmd arg e := by
  by_cases h : cmd ∈ effectNames
  · obtain ⟨supervisor, onShutdown, status, health, errors, system⟩ := c
    simp only [effectNames, List.map_cons, List.map_nil, List.mem_cons, List.not_mem_nil,
      or_false] at h
    rcases h with rfl | rfl | rfl | rfl
    · cases supervisor with
      | none => exact .inl rfl
      | some sup =>
          by_cases harg : arg = []
          · subst harg
            exact .inl rfl
          · refine .inr ⟨.restartService arg, ?_, rfl, Option.some_ne_none _, harg, rfl⟩
            simp +decide only [runCommand, if_true, if_false]
            rw [if_neg harg]
            split <;> rfl
    · cases onShutdown with
      | false => exact .inl rfl
      | true => exact .inr ⟨.shutdown, rfl, rfl, rfl⟩
    · exact .inr ⟨.closeSession, rfl, .inl rfl⟩
    · exact .inr ⟨.closeSession, rfl, .inr rfl⟩
  · exact .inl (effects_quiet arg h)

theorem mem_effects {c : ControlServer} {cmd arg : Bytes} {e : ControlEffect} :
    e ∈ (runCommand c cmd arg).2 ↔ SetsOff c cmd arg e := by
  constructor
  · intro he
    rcases effects_one c cmd arg with hnil | ⟨e', heq, hoff⟩
    · rw [hnil] at he
      cases he
    · rw [heq] at he
      rwa [List.mem_singleton.mp he]
  · intro hoff
    obtain ⟨supervisor, onShutdown, status, health, errors, system⟩ := c
    cases e with
    | restartService name =>
        obtain ⟨rfl, hsup, harg, rfl⟩ := hoff
        simp +decide only [runCommand, if_true, if_false]
        cases supervisor with
        | none => exact absurd rfl hsup
        | some sup =>
            dsimp only
            rw [if_neg harg]
            split
            · exact List.mem_cons_self
            · exact List.mem_cons_self
    | shutdown =>
        obtain ⟨rfl, hdown⟩ := hoff
        dsimp only at hdown
        subst hdown
        simp +decide only [runCommand, if_true, if_false]
    | closeSession => exact runCommand_closeSession.mpr hoff

theorem length_commandOf (raw : Bytes) : (commandOf raw).length ≤ raw.length := by
  rw [commandOf, List.length_map]
  refine (List.takeWhile_prefix _).length_le.trans ?_
  obtain ⟨a, b, hl, -, -, -⟩ := strip_spec isTrimChar raw
  have hlen := congrArg List.length hl
  rw [List.length_append, List.length_append] at hlen
  show (strip isTrimChar raw).length ≤ raw.length
  omega

/-- **Unknown commands.**  For every line that is not blank: the reply says that the command is
    unknown exactly if the first word, in small letters, is none of the filter's words; it then
    names the first of the nearest commands or, if none is near enough, nothing, and so never
    suggests a word that would be refused.  A line has at most one effect, which only its own word
    sets off. -/
theorem unknown_command_iff {c : ControlServer} (hc : Plainspoken c) {raw : Bytes}
    (hraw : trim raw ≠ []) (hlen : raw.length + 3 < sizeMax) :
    (unknownPrefix <+: (dispatchCommand c raw).1 ↔ commandOf raw ∉ commandNames) ∧
    (commandOf raw ∉ commandNames → Suggests (commandOf raw) (dispatchCommand c raw).1) ∧
    (∀ e, e ∈ (dispatchCommand c raw).2 ↔ SetsOff c (commandOf raw) (argumentOf raw) e) ∧
    (dispatchCommand c raw).2.length ≤ 1 := by
  rw [dispatchCommand_eq hraw]
  have hsuggests : commandOf raw ∉ commandNames →
      Suggests (commandOf raw) (runCommand c (commandOf raw) (argumentOf raw)).1 := by
    intro h
    rw [runCommand_unknown _ h]
    have := length_commandOf raw
    exact unknownCommand_suggests h (by omega)
  have hknown : commandOf raw ∈ commandNames →
      ¬ unknownPrefix <+: (runCommand c (commandOf raw) (argumentOf raw)).1 :=
    runCommand_texts hc (fun _ _ rest hne => not_unknown hne rest) _
  refine ⟨⟨fun hpre hmem => hknown hmem hpre, fun h => (hsuggests h).unknown⟩,
    hsuggests, fun e => mem_effects, ?_⟩
  rcases effects_one c (commandOf raw) (argumentOf raw) with hnil | ⟨e, heq, -⟩
  · rw [hnil]
    exact Nat.zero_le _
  · rw [heq]
    exact Nat.le_refl _

/-- A server without a supervisor, its texts cut to their first words. -/
def plainServer : ControlServer where
  supervisor := none
  onShutdown := true
  cmdStatus := ascii "loops:"
  cmdHealth := ascii "health:"
  cmdErrors := ascii "no new log entries"
  systemStatusHelper := ascii "threads:"

theorem plainServer_plainspoken : Plainspoken plainServer := by
  refine ⟨?_, ?_, ?_, ?_, fun sup hsup => (by cases hsup), fun sup hsup => (by cases hsup)⟩
  · exact not_unknown (by decide) _
  · exact not_unknown (by decide) _
  · exact not_unknown (by decide) _
  · exact not_unknown (by decide) _

theorem unknown_command_iff_typo :
    (unknownPrefix <+: (dispatchCommand plainServer (ascii " Helth now")).1 ↔
      commandOf (ascii " Helth now") ∉ commandNames) ∧
    (commandOf (ascii " Helth now") ∉ commandNames →
      Suggests (commandOf (ascii " Helth now")) (dispatchCommand plainServer (ascii " Helth now")).1) ∧
    (∀ e, e ∈ (dispatchCommand plainServer (ascii " Helth now")).2 ↔
      SetsOff plainServer (commandOf (ascii " Helth now")) (argumentOf (ascii " Helth now")) e) ∧
    (dispatchCommand plainServer (ascii " Helth now")).2.length ≤ 1 :=
  unknown_command_iff plainServer_plainspoken (by decide) (by decide)

/-! ## What a session writes -/

/-- The replies to the lines `ls` after the lines `before`; an empty reply is not written. -/
def repliesTo (world : List Bytes → Moment) : List Bytes → List Bytes → List Bytes
  | _, [] => []
  | before, l :: ls =>
      (if (dispatchLine (world before) l).1 = [] then [] else [(dispatchLine (world before) l).1]) ++
        repliesTo world (before ++ [l]) ls

variable {world : List Bytes → Moment} {before : List Bytes}

theorem repliesTo_append (ls ls' : List Bytes) : repliesTo world before (ls ++ ls') =
    repliesTo world before ls ++ repliesTo world (before ++ ls) ls' := by
  induction ls generalizing before with
  | nil =>
      rw [List.append_nil]
      rfl
  | cons l ls ih =>
      rw [List.cons_append, repliesTo, ih, repliesTo, List.append_assoc, List.append_assoc,
        List.singleton_append]

/-- What has been written are the greeting and the replies. -/
def Transcribed (world : List Bytes → Moment) (s : ControlSession) : Prop :=
  s.written = ControlSession.greeted.written ++ repliesTo world [] s.dispatched

theorem Transcribed.takeLine {s : ControlSession} (h : Transcribed world s) (line rest : Bytes) :
    Transcribed world (s.takeLine (world s.dispatched) line rest) := by
  show (if (dispatchLine (world s.dispatched) line).1 = [] then s.written
    else s.written ++ [(dispatchLine (world s.dispatched) line).1]) =
      ControlSession.greeted.written ++ repliesTo world [] (s.dispatched ++ [line])
  rw [repliesTo_append, ← List.append_assoc, ← h, List.nil_append, repliesTo, repliesTo,
    List.append_nil]
  split
  · exact (List.append_nil _).symm
  · rfl

theorem Transcribed.takeLines {s : ControlSession} (h : Transcribed world s) :
    Transcribed world (ControlSession.takeLines world s) := by
  -- induction on what is in the buffer
  induction hn : s.inbuf.length using Nat.strong_induction_on generalizing s with
  | _ n ih =>
      cases hcut : splitFirst 0x0a s.inbuf with
      | none =>
          rw [ControlSession.takeLines_of_none hcut]
          exact h
      | some ab =>
          obtain ⟨line, rest⟩ := ab
          have hline : Transcribed world (s.takeLine (world s.dispatched) line rest) :=
            h.takeLine line rest
          rw [ControlSession.takeLines_of_some hcut]
          split
          · exact hline
          · have hlen := congrArg List.length (splitFirst_spec hcut).1
            rw [List.length_append, List.length_cons] at hlen
            dsimp only at hlen
            refine ih _ ?_ hline rfl
            show rest.length < n
            omega

theorem Transcribed.handleClient {turns : List ControlTurn} {s : ControlSession}
    (h : Transcribed world s) : Transcribed world (ControlSession.handleClient world turns s) := by
  induction turns generalizing s with
  | nil => exact h
  | cons turn turns ih =>
      cases turn with
      | notRunning => exact h
      | pollIntr => exact ih h
      | pollError => exact h
      | stop => exact h
      | noInput => exact ih h
      | readEnd => exact h
      | read chunk =>
          have hread : Transcribed world { s with inbuf := s.inbuf ++ chunk.val } := h
          rw [ControlSession.handleClient]
          split
          · exact hread.takeLines
          · exact ih hread.takeLines

/-- None of the texts that the server is given is empty. -/
def Answering (c : ControlServer) : Prop := Texts (· ≠ []) c

theorem unknownCommand_ne_nil (cmd : Bytes) : unknownCommand cmd ≠ [] := by
  rw [unknownCommand]
  split
  · exact List.cons_ne_nil _ _
  · split
    · exact List.cons_ne_nil _ _
    · exact List.cons_ne_nil _ _

theorem runCommand_ne_nil {c : ControlServer} (hc : Answering c) (cmd arg : Bytes) :
    (runCommand c cmd arg).1 ≠ [] := by
  by_cases h : cmd ∈ commandNames
  · exact runCommand_texts hc (fun _ _ _ _ => List.cons_ne_nil _ _) arg h
  · rw [runCommand_unknown arg h]
    exact unknownCommand_ne_nil cmd

/-- The line that a reply opens with. -/
def stamp (now : Moment) : Bytes :=
  ascii "[" ++ now.dateString ++ ascii " " ++ now.timeLocal ++ ascii "]\n"

/-- A reply is stamped, and blank lines are the ones that get none. -/
theorem dispatchLine_fst (now : Moment) (raw : Bytes) :
    (dispatchLine now raw).1 = [] ∧ ((dispatchCommand now.server raw).1 = []) ∨
      (dispatchLine now raw).1 = stamp now ++ (dispatchCommand now.server raw).1 ∧
        (dispatchCommand now.server raw).1 ≠ [] := by
  rw [dispatchLine]
  dsimp only
  by_cases h : (dispatchCommand now.server raw).1 = []
  · rw [if_pos h]
    exact .inl ⟨h, h⟩
  · rw [if_neg h]
    exact .inr ⟨rfl, h⟩

theorem stamp_ne_nil (now : Moment) (body : Bytes) : stamp now ++ body ≠ [] :=
  List.cons_ne_nil _ _

theorem dispatchCommand_eq_nil {c : ControlServer} (hc : Answering c) {raw : Bytes} :
    (dispatchCommand c raw).1 = [] ↔ trim raw = [] := by
  constructor
  · intro h
    by_contra hraw
    rw [dispatchCommand_eq hraw] at h
    exact runCommand_ne_nil hc _ _ h
  · intro h
    show (if trim raw = [] then ([], []) else _ : Bytes × List ControlEffect).1 = []
    rw [if_pos h]

theorem length_repliesTo (hw : ∀ before, Answering (world before).server) (ls : List Bytes) :
    (repliesTo world before ls).length = ls.countP fun l => trim l ≠ [] := by
  induction ls generalizing before with
  | nil => rfl
  | cons l ls ih =>
      rw [repliesTo, List.length_append, ih, List.countP_cons]
      have hnil : (dispatchCommand (world before).server l).1 = [] ↔ trim l = [] :=
        dispatchCommand_eq_nil (hw before)
      rcases dispatchLine_fst (world before) l with ⟨h, hbody⟩ | ⟨h, hbody⟩
      · rw [if_pos h, if_neg (by simpa using hnil.mp hbody)]
        exact Nat.zero_add _
      · rw [if_neg (h ▸ stamp_ne_nil _ _), if_pos (by simpa using mt hnil.mpr hbody)]
        exact Nat.add_comm _ _

theorem stamped_repliesTo (ls : List Bytes) : ∀ t ∈ repliesTo world before ls, ∃ b l,
    t = stamp (world b) ++ (dispatchCommand (world b).server l).1 ∧ l ∈ ls := by
  induction ls generalizing before with
  | nil => exact fun t ht => (by cases ht)
  | cons l ls ih =>
      intro t ht
      rw [repliesTo] at ht
      rcases List.mem_append.mp ht with ht | ht
      · rcases dispatchLine_fst (world before) l with ⟨h, -⟩ | ⟨h, -⟩
        · rw [if_pos h] at ht
          cases ht
        · rw [if_neg (h ▸ stamp_ne_nil _ _)] at ht
          exact ⟨before, l, (List.mem_singleton.mp ht).trans h, List.mem_cons_self⟩
      · obtain ⟨b, l', heq, hl'⟩ := ih t ht
        exact ⟨b, l', heq, List.mem_cons_of_mem _ hl'⟩

/-- **Transcript.**  Whatever is read and whatever each dispatch finds: a session writes its
    greeting and then the replies to the lines it dispatches, in their order and each under the
    stamp of its moment; as long as the server has something to say, every line that is not blank
    gets exactly one reply and a blank line none. -/
theorem session_transcript (world : List Bytes → Moment) (turns : List ControlTurn) :
    let s := ControlSession.handleClient world turns ControlSession.greeted
    let lines := takeThrough closesSession (LineIndex.completeLines 0x0a (receivedBytes turns))
    s.written = ControlSession.greeted.written ++ repliesTo world [] lines ∧
      (∀ t ∈ repliesTo world [] lines, ∃ b l, l ∈ lines ∧
        t = stamp (world b) ++ (dispatchCommand (world b).server l).1) ∧
      ((∀ before, Answering (world before).server) →
        (repliesTo world [] lines).length = lines.countP fun l => trim l ≠ []) := by
  intro s lines
  have hlines : s.dispatched = lines :=
    ControlSession.handleClient_dispatched turns ControlSession.greeted rfl List.not_mem_nil
  have hs : Transcribed world s := Transcribed.handleClient rfl
  refine ⟨?_, fun t ht => ?_, fun hw => length_repliesTo hw lines⟩
  · rw [← hlines]
    exact hs
  · obtain ⟨b, l, heq, hl⟩ := stamped_repliesTo lines t ht
    exact ⟨b, l, hl, heq⟩

theorem plainServer_answering : Answering plainServer := by
  refine ⟨?_, ?_, ?_, ?_, fun sup hsup => (by cases hsup), fun sup hsup => (by cases hsup)⟩
  · exact List.cons_ne_nil _ _
  · exact List.cons_ne_nil _ _
  · exact List.cons_ne_nil _ _
  · exact List.cons_ne_nil _ _

/-- A blank line, two commands, and one that comes too late. -/
def shortInput : Bytes := ascii "ping\n \nquit\nping\n"

theorem shortInput_fits : 0 < shortInput.length ∧ shortInput.length ≤ 1024 := by decide

theorem session_transcript_short :
    (repliesTo (fun _ => ⟨plainServer, ascii "2026-08-11", ascii "09:30"⟩) []
      (takeThrough closesSession (LineIndex.completeLines 0x0a
        (receivedBytes [.read ⟨shortInput, shortInput_fits⟩])))).length = 2 := by
  have h := (session_transcript (fun _ => ⟨plainServer, ascii "2026-08-11", ascii "09:30"⟩)
    [.read ⟨shortInput, shortInput_fits⟩]).2.2 fun _ => plainServer_answering
  rw [h]
  decide

end CastlePlus
